import Wheespa.Sha

/-!
# The text of a digest

`HexEncodeOutput` sets the width of its stream before the loop and again at the end of each turn,
since each insertion resets it to zero, and converts each `char`, which may be signed, to `uint16_t`
before it masks it. `Ostringstream.Ready` is the state of the stream before each turn, and
`hexEncodeOutput_faithful` says what is written in the end: two digits a byte, from which the bytes
are read back.
-/

namespace Wheespa

namespace Ostringstream

/-- `ss << std::setfill(c)`. -/
def setfill (ss : Ostringstream) (c : Char) : Ostringstream :=
  { ss with fill := c }

/-- `ss << std::hex`. -/
def setHex (ss : Ostringstream) : Ostringstream :=
  { ss with hex := true }

/-- `ss << std::uppercase`. -/
def setUppercase (ss : Ostringstream) : Ostringstream :=
  { ss with uppercase := true }

end Ostringstream

namespace SHA

/-- The conversion `uint16_t(a)` of a `char`, with the sign extended where the type is signed. -/
def uint16 (signed : Bool) (a : UInt8) : UInt16 :=
  if signed then a.toInt8.toInt16.toUInt16 else a.toUInt16

/-- `HexEncodeOutput()`: the `m_out` that it leaves, from the one that it finds. -/
def hexEncodeOutput (signed : Bool) (mOut : List UInt8) : Str :=
  let ss := Ostringstream.new
  let ss := (((ss.setw 2).setfill '0').setHex).setUppercase
  let ss := mOut.foldl (fun ss a => (ss.put (uint16 signed a &&& 0xff).toNat).setw 2) ss
  ss.str

end SHA

/-- The upper case digit of a number below 16. -/
def hexDigit (n : Nat) : Char :=
  "0123456789ABCDEF".toList.getD n '0'

/-- The number that an upper case digit stands for. -/
def hexValue (c : Char) : Option Nat :=
  "0123456789ABCDEF".toList.findIdx? (· = c)

/-- The bytes that a text spells, two digits a byte. -/
def hexDecode : Str → Option (List UInt8)
  | [] => some []
  | [_] => none
  | high :: low :: text => do
      let high ← hexValue high
      let low ← hexValue low
      let out ← hexDecode text
      some (UInt8.ofNat (16 * high + low) :: out)

/-! ## One byte -/

/-- The mask takes the sign extension away again. -/
theorem toNat_uint16 (signed : Bool) (a : UInt8) :
    (SHA.uint16 signed a &&& 0xff).toNat = a.toNat := by
  have hall : ∀ signed, ∀ n < 256,
      (SHA.uint16 signed (UInt8.ofNat n) &&& 0xff).toNat = n := by
    decide +kernel
  simpa only [UInt8.ofNat_toNat] using hall signed a.toNat a.toNat_lt

/-- A byte is written with the digit of its upper half and that of its lower half, also where the
upper half is zero. -/
theorem hexByte_eq (a : UInt8) :
    hexByte a.toNat = [hexDigit (a.toNat / 16), hexDigit (a.toNat % 16)] := by
  have hall : ∀ n < 256, hexByte n = [hexDigit (n / 16), hexDigit (n % 16)] := by
    decide +kernel
  exact hall a.toNat a.toNat_lt

/-- A digit stands for its number. -/
theorem hexValue_hexDigit {n : Nat} (h : n < 16) : hexValue (hexDigit n) = some n := by
  have hall : ∀ n < 16, hexValue (hexDigit n) = some n := by decide +kernel
  exact hall n h

/-- The two digits of a byte are read back as the byte. -/
theorem hexDecode_cons (a : UInt8) (text : Str) :
    hexDecode (hexDigit (a.toNat / 16) :: hexDigit (a.toNat % 16) :: text) =
      (hexDecode text).map (a :: ·) := by
  have hlt : a.toNat < 256 := a.toNat_lt
  have hhigh : a.toNat / 16 < 16 := by omega
  have hlow : a.toNat % 16 < 16 := by omega
  rw [hexDecode, hexValue_hexDigit hhigh, hexValue_hexDigit hlow]
  simp only [Option.bind_eq_bind, Option.bind_some, Nat.div_add_mod, UInt8.ofNat_toNat]
  cases hexDecode text <;> rfl

/-! ## The loop -/

namespace Ostringstream

/-- The stream before a turn of the loop: the text so far, and the flags and the width set. -/
structure Ready (ss : Ostringstream) (str : Str) : Prop where
  str : ss.str = str
  width : ss.width = 2
  fill : ss.fill = '0'
  hex : ss.hex = true
  uppercase : ss.uppercase = true

/-- The manipulators before the loop make the stream ready. -/
theorem ready_new : Ready ((((new.setw 2).setfill '0').setHex).setUppercase) [] :=
  ⟨rfl, rfl, rfl, rfl, rfl⟩

/-- A turn of the loop writes a byte with its two digits and makes the stream ready again. -/
theorem Ready.turn {ss : Ostringstream} {str : Str} (h : ss.Ready str) (signed : Bool)
    (a : UInt8) :
    ((ss.put (SHA.uint16 signed a &&& 0xff).toNat).setw 2).Ready (str ++ hexByte a.toNat) where
  str := by
    simp only [setw, put, digits, h.str, h.width, h.fill, h.hex, h.uppercase, toNat_uint16, if_true,
      List.append_assoc, hexByte]
  width := rfl
  fill := h.fill
  hex := h.hex
  uppercase := h.uppercase

/-- The loop writes the bytes one after the other. -/
theorem Ready.loop {ss : Ostringstream} {str : Str} (h : ss.Ready str) (signed : Bool)
    (mOut : List UInt8) :
    (mOut.foldl (fun ss a => (ss.put (SHA.uint16 signed a &&& 0xff).toNat).setw 2) ss).Ready
      (str ++ mOut.flatMap fun a => hexByte a.toNat) := by
  induction mOut generalizing ss str with
  | nil => simpa using h
  | cons a mOut ih =>
      rw [List.foldl_cons, List.flatMap_cons, ← List.append_assoc]
      exact ih (h.turn signed a)

end Ostringstream

/-- What is written: two digits a byte, and nothing before, between or after them. -/
theorem SHA.hexEncodeOutput_digits (signed : Bool) (mOut : List UInt8) :
    SHA.hexEncodeOutput signed mOut =
      mOut.flatMap fun a => [hexDigit (a.toNat / 16), hexDigit (a.toNat % 16)] := by
  have hready := Ostringstream.ready_new.loop signed mOut
  rw [SHA.hexEncodeOutput, hready.str, List.nil_append]
  simp only [hexByte_eq]

/-- The bytes are read back from their text. -/
theorem hexDecode_encode (signed : Bool) (mOut : List UInt8) :
    hexDecode (SHA.hexEncodeOutput signed mOut) = some mOut := by
  rw [SHA.hexEncodeOutput_digits]
  induction mOut with
  | nil => rfl
  | cons a mOut ih =>
      rw [List.flatMap_cons, List.cons_append, List.singleton_append, hexDecode_cons, ih]
      rfl

/-- The stream of bare bytes of `getOutput` is written to in the same way, whether or not a `char`
is signed. -/
theorem hexEncodeOutput_eq_signed (signed : Bool) (mOut : List UInt8) :
    hexEncodeOutput mOut = SHA.hexEncodeOutput signed mOut := by
  rw [hexEncodeOutput_eq, SHA.hexEncodeOutput_digits]
  simp only [hexByte_eq]

/-- The text of a digest is faithful: it has exactly two upper case digits a byte, in order, the
bytes are read back from it, and two byte strings, or two digests, have the same text only if they
are equal. -/
theorem hexEncodeOutput_faithful (signed : Bool) (mOut : List UInt8) :
    SHA.hexEncodeOutput signed mOut =
        (mOut.flatMap fun a => [hexDigit (a.toNat / 16), hexDigit (a.toNat % 16)]) ∧
      (SHA.hexEncodeOutput signed mOut).length = 2 * mOut.length ∧
      (∀ c ∈ SHA.hexEncodeOutput signed mOut, isHexDigit c = true) ∧
      hexDecode (SHA.hexEncodeOutput signed mOut) = some mOut ∧
      (∀ other, SHA.hexEncodeOutput signed mOut = SHA.hexEncodeOutput signed other ↔
        mOut = other) ∧
      ∀ sha1 s s', getOutput sha1 s = SHA.hexEncodeOutput signed (sha1 s).toList ∧
        (getOutput sha1 s = getOutput sha1 s' ↔ sha1 s = sha1 s') := by
  have hinjective (mOut other : List UInt8) :
      SHA.hexEncodeOutput signed mOut = SHA.hexEncodeOutput signed other ↔ mOut = other := by
    constructor
    · intro htext
      have hdecode := congrArg hexDecode htext
      rw [hexDecode_encode, hexDecode_encode] at hdecode
      exact Option.some.inj hdecode
    · intro hbytes
      rw [hbytes]
  have houtput (sha1 : Sha1) (s : Str) :
      getOutput sha1 s = SHA.hexEncodeOutput signed (sha1 s).toList :=
    hexEncodeOutput_eq_signed signed (sha1 s).toList
  refine ⟨SHA.hexEncodeOutput_digits signed mOut, ?_, fun c hc => ?_,
    hexDecode_encode signed mOut, hinjective mOut, fun sha1 s s' => ⟨houtput sha1 s, ?_⟩⟩
  · rw [SHA.hexEncodeOutput_digits, List.length_flatMap]
    simp only [List.length_cons, List.length_nil, List.map_const', List.sum_replicate_nat,
      Nat.mul_comm]
  · rw [SHA.hexEncodeOutput_digits] at hc
    obtain ⟨a, -, hc⟩ := List.mem_flatMap.mp hc
    rw [← hexByte_eq] at hc
    exact (hexByte_spec a).2 c hc
  · rw [houtput, houtput, hinjective]
    exact Vector.toList_inj

/-- A byte below 16 after one of 128 and above. -/
example : SHA.hexEncodeOutput true [0x80, 0x0A, 0xFF] = "800AFF".toList := by decide +kernel

end Wheespa
