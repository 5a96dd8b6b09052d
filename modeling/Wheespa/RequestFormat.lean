import Wheespa.HandleRequest

/-!
# The format of a request

The two regular expressions of `wheespa_server.cc`: `rex` validates a request and splits it into its
type and its parameters, and `sharedRex` extracts the parameters. Every value that is extracted is
made of the characters of the value class.
-/

namespace Wheespa

/-- A character of a value of a request: the class `[\w@\.!%<>,~` and the grave accent. -/
def isValueChar (c : Char) : Bool :=
  isWord c || c ∈ "@.!%<>,~".toList || c.toNat == 96

/-- A character of the type of a request or of a message. -/
def isTypeChar (c : Char) : Bool :=
  c.isUpper || c == '_'

/-- The expression `rex`. -/
def rex : Regex Char :=
  .seq (.text "[".toList) (.seq (.capture 1 (.plus isTypeChar)) (.seq (.text "]".toList)
    (.seq (.text "::".toList) (.capture 2 (.between 2 2
      (.seq (.plus Char.isLower) (.seq (.text "=".toList)
        (.seq (.plus isValueChar) (.text ":::".toList)))))))))

/-- The expression `shared_rex`. -/
def sharedRex : Regex Char :=
  .seq (.capture 1 (.plus Char.isLower)) (.seq (.text "=".toList)
    (.seq (.capture 2 (.plus isValueChar)) (.text ":::".toList)))

/-- A value that a request can carry. -/
def IsValue (value : Str) : Prop :=
  ∀ c ∈ value, isValueChar c = true

instance (value : Str) : Decidable (IsValue value) :=
  decidable_of_iff (value.all isValueChar = true) List.all_eq_true

/-- A value that a request can carry. -/
abbrev RequestValue := { value : Str // IsValue value }

/-- A value contains no quote and no null character. -/
theorem IsValue.not_mem {value : Str} (h : IsValue value) :
    '"' ∉ value ∧ '\'' ∉ value ∧ '\x00' ∉ value := by
  refine ⟨fun hmem => ?_, fun hmem => ?_, fun hmem => ?_⟩ <;>
    exact absurd (h _ hmem) (by decide)

/-- The text of a digest is such a value. -/
theorem isValue_of_hex {s : Str} (h : ∀ c ∈ s, isHexDigit c = true) : IsValue s := by
  intro c hc
  have hdigit := h c hc
  simp only [isHexDigit, Bool.or_eq_true, List.contains_iff_mem] at hdigit
  rcases hdigit with hdigit | hletter
  · simp [isValueChar, isWord, Char.isAlphanum, hdigit]
  · have hall : "ABCDEF".toList.all isValueChar = true := by decide
    exact List.all_eq_true.mp hall c hletter

/-- What `shared_rex` matches: a name and a value, which its groups hold. -/
theorem matches_sharedRex {x : Str} {before groups : Regex.Groups Char} :
    sharedRex.Matches before x groups ↔
      ∃ name value, x = name ++ "=".toList ++ value ++ ":::".toList ∧
        (name ≠ [] ∧ ∀ c ∈ name, c.isLower) ∧ (value ≠ [] ∧ IsValue value) ∧
        groups = Function.update (Function.update before 1 (some name)) 2 (some value) := by
  simp only [sharedRex, Regex.matches_seq, Regex.matches_capture, Regex.matches_plus,
    Regex.matches_text]
  constructor
  · rintro ⟨name, _, _, rfl, ⟨_, ⟨hname, hlower, rfl⟩, rfl⟩, _, _, _, rfl, ⟨rfl, rfl⟩, value, _, _,
      rfl, ⟨_, ⟨hvalue, hchars, rfl⟩, rfl⟩, rfl, rfl⟩
    exact ⟨name, value, by simp, ⟨hname, hlower⟩, ⟨hvalue, hchars⟩, rfl⟩
  · rintro ⟨name, value, rfl, ⟨hname, hlower⟩, ⟨hvalue, hchars⟩, rfl⟩
    exact ⟨name, _, _, by simp, ⟨_, ⟨hname, hlower, rfl⟩, rfl⟩, _, _, _, rfl, ⟨rfl, rfl⟩, value,
      _, _, rfl, ⟨_, ⟨hvalue, hchars, rfl⟩, rfl⟩, rfl, rfl⟩

/-- Every parameter of a request is a value. -/
theorem isValue_params {reqParams name value : Str}
    (h : ParseRequest.params sharedRex reqParams name = some value) : IsValue value := by
  have hfold (found : List (Regex.Groups Char)) (param : Str → Option Str)
      (hparam : ∀ name value, param name = some value → IsValue value)
      (hfound : ∀ groups ∈ found, ∃ x, sharedRex.Matches (fun _ => none) x groups) :
      ∀ name value, found.foldl ParseRequest.assign param name = some value → IsValue value := by
    induction found generalizing param with
    | nil => exact hparam
    | cons groups found ih =>
        rw [List.forall_mem_cons] at hfound
        refine ih _ (fun name value hvalue => ?_) hfound.2
        obtain ⟨x, hmatch⟩ := hfound.1
        obtain ⟨name', value', _, _, ⟨_, hchars⟩, rfl⟩ := matches_sharedRex.mp hmatch
        by_cases hname : name = name'
        · subst hname
          obtain rfl : value' = value := by simpa [ParseRequest.assign] using hvalue
          exact hchars
        · exact hparam name value (by simpa [ParseRequest.assign, hname] using hvalue)
  exact hfold _ _ (by simp) (fun groups => Regex.searchAll_sound) name value h

end Wheespa
