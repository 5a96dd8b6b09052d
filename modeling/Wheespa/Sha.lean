import Mathlib.Data.List.Basic
import Wheespa.WheespaTree

/-!
# The digest of `sha.cc`

SHA-1 is a parameter that gives the 20 bytes of a digest. `HexEncodeOutput` writes them to a stream,
of which the width, the fill character, the base and the case are modelled. The main facts are that
the text of a digest has 40 characters and that all of them are hexadecimal digits.
-/

namespace Wheespa

/-- The hash function `SHA1` of the library, with `SHA_DIGEST_LENGTH` bytes of output. -/
abbrev Sha1 := Str → Vector UInt8 20

/-- A digest function whose digests do not depend on the text. -/
def constantSha1 : Sha1 :=
  fun _ => Vector.replicate 20 0xAB

/-- An `ostringstream` with the format flags that are used. -/
structure Ostringstream where
  str : Str
  width : Nat
  fill : Char
  hex : Bool
  uppercase : Bool
  deriving DecidableEq, Repr

namespace Ostringstream

/-- A new stream. -/
def new : Ostringstream :=
  ⟨[], 0, ' ', false, false⟩

/-- The digits of a number in the base of the stream. -/
def digits (ss : Ostringstream) (n : Nat) : Str :=
  let text := Nat.toDigits (if ss.hex then 16 else 10) n
  if ss.uppercase then text.map Char.toUpper else text

/-- `ss << n`: the digits are padded on the left to the width, which becomes zero. -/
def put (ss : Ostringstream) (n : Nat) : Ostringstream :=
  let text := ss.digits n
  { ss with str := ss.str ++ List.replicate (ss.width - text.length) ss.fill ++ text, width := 0 }

/-- `ss << std::setw(n)`. -/
def setw (ss : Ostringstream) (n : Nat) : Ostringstream :=
  { ss with width := n }

end Ostringstream

/-- A hexadecimal digit in upper case. -/
def isHexDigit (c : Char) : Bool :=
  c.isDigit || "ABCDEF".toList.contains c

/-- `HexEncodeOutput`. -/
def hexEncodeOutput (out : List UInt8) : Str :=
  let ss : Ostringstream := ⟨[], 2, '0', true, true⟩
  (out.foldl (fun ss a => (ss.put a.toNat).setw 2) ss).str

/-- The class `SHA<SHA_DIGEST_LENGTH>`: `getOutput()` of an object constructed from `s`. -/
def getOutput (sha1 : Sha1) (s : Str) : Str :=
  hexEncodeOutput (sha1 s).toList

/-- What is written for a byte of value `n`. -/
def hexByte (n : Nat) : Str :=
  let text := (Nat.toDigits 16 n).map Char.toUpper
  List.replicate (2 - text.length) '0' ++ text

/-- Every byte is written with two hexadecimal digits. -/
theorem hexByte_spec (a : UInt8) :
    (hexByte a.toNat).length = 2 ∧ ∀ c ∈ hexByte a.toNat, isHexDigit c = true := by
  have hall : ∀ n < 256, (hexByte n).length = 2 ∧ (hexByte n).all isHexDigit = true := by
    decide +kernel
  exact (hall _ a.toNat_lt).imp_right List.all_eq_true.mp

/-- The bytes are written one after the other. -/
theorem hexEncodeOutput_eq (out : List UInt8) :
    hexEncodeOutput out = out.flatMap fun a => hexByte a.toNat := by
  have hfold (str : Str) :
      (out.foldl (fun ss a => (Ostringstream.put ss a.toNat).setw 2)
        (⟨str, 2, '0', true, true⟩ : Ostringstream)).str =
          str ++ out.flatMap fun a => hexByte a.toNat := by
    induction out generalizing str with
    | nil => simp
    | cons a out ih =>
        rw [List.foldl_cons]
        exact (ih _).trans (by simp [Ostringstream.put, Ostringstream.digits, hexByte])
  exact hfold []

/-- The text of a digest has 40 characters, and they are hexadecimal digits. -/
theorem getOutput_spec (sha1 : Sha1) (s : Str) :
    (getOutput sha1 s).length = 40 ∧ ∀ c ∈ getOutput sha1 s, isHexDigit c = true := by
  rw [getOutput, hexEncodeOutput_eq]
  constructor
  · simp [List.length_flatMap, (hexByte_spec _).1]
  · intro c hc
    obtain ⟨a, _, hc⟩ := List.mem_flatMap.mp hc
    exact (hexByte_spec a).2 c hc

end Wheespa
