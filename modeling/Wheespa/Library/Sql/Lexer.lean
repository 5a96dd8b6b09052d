import Mathlib.Data.Char
import Mathlib.Data.List.Basic

/-!
# The tokens of an SQL text

A text is read one character at a time by `step`, which carries in a `Scan` the token or comment
under way. A quoted token ends at its own quote character, which stands for itself when doubled.
Identifiers quoted in other ways, numbers that are not integers and blobs are outside the fragment
and give an illegal token.

The lemmas say how a value between quotes and a run of digits are read, whatever surrounds them.
-/

namespace Wheespa.Sql

/-- The two quote characters. -/
inductive Mark where
  | single
  | double
  deriving DecidableEq, Repr

/-- The character of a quote. -/
def Mark.char : Mark → Char
  | .single => '\''
  | .double => '"'

/-- A token of a statement. -/
inductive Token where
  | word (text : List Char)
  | quoted (mark : Mark) (text : List Char)
  | number (digits : List Char)
  | symbol (c : Char)
  | illegal
  deriving DecidableEq, Repr

/-- A character that starts an identifier or a keyword. -/
def isWordStart (c : Char) : Bool :=
  c.isAlpha || c == '_' || 128 ≤ c.toNat

/-- A character of an identifier or a keyword. -/
def isWordChar (c : Char) : Bool :=
  isWordStart c || c.isDigit || c == '$'

/-- A character that separates tokens. -/
def isSpace (c : Char) : Bool :=
  c.isWhitespace || c == '\x0c'

/-- What is being read. -/
inductive Scan where
  | gap
  | word (text : List Char)
  | number (digits : List Char)
  | quote (mark : Mark) (text : List Char)
  | closing (mark : Mark) (text : List Char)
  | dash
  | lineComment
  | slash
  | blockComment
  | blockStar
  deriving DecidableEq, Repr

namespace Scan

/-- A character between tokens. -/
def start (c : Char) : Scan × List Token :=
  if c.isDigit then (.number [c], [])
  else if isSpace c then (.gap, [])
  else if isWordStart c then (.word [c], [])
  else if c == '"' then (.quote .double [], [])
  else if c == '\'' then (.quote .single [], [])
  else if c == '-' then (.dash, [])
  else if c == '/' then (.slash, [])
  else if c == '[' || c.toNat == 96 then (.gap, [.illegal])
  else (.gap, [.symbol c])

/-- The token under way ends before `c`. -/
def emit (token : Token) (c : Char) : Scan × List Token :=
  ((start c).1, token :: (start c).2)

/-- Reading one character: what is being read after it, and the tokens it completes. -/
def step : Scan → Char → Scan × List Token
  | .gap, c => start c
  | .word text, c =>
      if isWordChar c then (.word (text ++ [c]), [])
      else if c == '\'' && (text == ['x'] || text == ['X']) then emit .illegal c
      else emit (.word text) c
  | .number digits, c =>
      if c.isDigit then (.number (digits ++ [c]), [])
      else if isWordChar c || c == '.' then emit .illegal c
      else emit (.number digits) c
  | .quote mark text, c =>
      if c == mark.char then (.closing mark text, []) else (.quote mark (text ++ [c]), [])
  | .closing mark text, c =>
      if c == mark.char then (.quote mark (text ++ [c]), []) else emit (.quoted mark text) c
  | .dash, c => if c == '-' then (.lineComment, []) else emit (.symbol '-') c
  | .lineComment, c => if c == '\n' then (.gap, []) else (.lineComment, [])
  | .slash, c => if c == '*' then (.blockComment, []) else emit (.symbol '/') c
  | .blockComment, c => if c == '*' then (.blockStar, []) else (.blockComment, [])
  | .blockStar, c =>
      if c == '/' then (.gap, []) else if c == '*' then (.blockStar, []) else (.blockComment, [])

/-- The tokens completed by the end of the text. -/
def finish : Scan → List Token
  | .gap | .lineComment | .blockComment | .blockStar => []
  | .word text => [.word text]
  | .number digits => [.number digits]
  | .quote .. => [.illegal]
  | .closing mark text => [.quoted mark text]
  | .dash => [.symbol '-']
  | .slash => [.symbol '/']

end Scan

/-- The tokens of the rest of a text. -/
def lexFrom : Scan → List Char → List Token
  | scan, [] => scan.finish
  | scan, c :: text => (scan.step c).2 ++ lexFrom (scan.step c).1 text

/-- The tokens of a text. -/
def lex (text : List Char) : List Token :=
  lexFrom .gap text

/-- Reading a part of a text: what is being read after it, and the tokens it completes. -/
def Scan.readAll : Scan → List Char → Scan × List Token
  | scan, [] => (scan, [])
  | scan, c :: text =>
      let (final, tokens) := readAll (scan.step c).1 text
      (final, (scan.step c).2 ++ tokens)

/-- A text is read part by part. -/
theorem lexFrom_append (scan : Scan) (text rest : List Char) :
    lexFrom scan (text ++ rest) = (scan.readAll text).2 ++ lexFrom (scan.readAll text).1 rest := by
  induction text generalizing scan with
  | nil => rfl
  | cons c text ih => simp [lexFrom, Scan.readAll, ih]

/-- Characters other than the quote character are read into a quoted token. -/
theorem lexFrom_quote {mark : Mark} {value : List Char} (h : mark.char ∉ value)
    (text rest : List Char) :
    lexFrom (.quote mark text) (value ++ rest) = lexFrom (.quote mark (text ++ value)) rest := by
  induction value generalizing text with
  | nil => simp
  | cons c value ih =>
      rw [List.mem_cons, not_or] at h
      obtain ⟨hne, hmem⟩ := h
      have hc : (c == mark.char) = false := by simpa using Ne.symm hne
      simp [lexFrom, Scan.step, hc, ih hmem]

/-- A quoted token ends at the quote character that another character follows. -/
theorem lexFrom_closing {mark : Mark} (text : List Char) {rest : List Char}
    (h : ∀ c ∈ rest.head?, c ≠ mark.char) :
    lexFrom (.closing mark text) rest = .quoted mark text :: lexFrom .gap rest := by
  cases rest with
  | nil => rfl
  | cons c rest =>
      have hc : (c == mark.char) = false := by simpa using h c
      simp [lexFrom, Scan.step, Scan.emit, hc]

/-- A value without the quote character between two of them is a single token. -/
theorem lexFrom_quoted {mark : Mark} {value rest : List Char} (hvalue : mark.char ∉ value)
    (hrest : ∀ c ∈ rest.head?, c ≠ mark.char) :
    lexFrom (.quote mark []) (value ++ mark.char :: rest) =
      .quoted mark value :: lexFrom .gap rest := by
  rw [lexFrom_quote hvalue, List.nil_append, lexFrom]
  simp [Scan.step, lexFrom_closing value hrest]

/-- A fixed part that opens a quote, a value and its closing quote. -/
theorem lexFrom_head_quoted {mark : Mark} {head value rest : List Char} {tokens : List Token}
    (hhead : Scan.readAll .gap head = (.quote mark [], tokens)) (hvalue : mark.char ∉ value)
    (hrest : ∀ c ∈ rest.head?, c ≠ mark.char) :
    lexFrom .gap (head ++ (value ++ mark.char :: rest)) =
      tokens ++ .quoted mark value :: lexFrom .gap rest := by
  rw [lexFrom_append, hhead, lexFrom_quoted hvalue hrest]

/-- Digits are read into a number. -/
theorem lexFrom_digits {value : List Char} (h : ∀ c ∈ value, c.isDigit) (digits rest : List Char) :
    lexFrom (.number digits) (value ++ rest) = lexFrom (.number (digits ++ value)) rest := by
  induction value generalizing digits with
  | nil => simp
  | cons c value ih =>
      rw [List.forall_mem_cons] at h
      simp [lexFrom, Scan.step, h.1, ih h.2]

/-- A run of digits that a symbol follows is a single token. -/
theorem lexFrom_number {value rest : List Char} (hempty : value ≠ [])
    (hvalue : ∀ c ∈ value, c.isDigit) (hrest : ∀ c ∈ rest.head?, isWordChar c = false ∧ c ≠ '.') :
    lexFrom .gap (value ++ rest) = .number value :: lexFrom .gap rest := by
  cases value with
  | nil => exact absurd rfl hempty
  | cons d value =>
      rw [List.forall_mem_cons] at hvalue
      have hstart : Scan.start d = (.number [d], []) := by
        simp [Scan.start, hvalue.1]
      rw [List.cons_append, lexFrom, Scan.step, hstart]
      have hdigits := lexFrom_digits hvalue.2 [d] rest
      simp only [List.nil_append, hdigits, List.singleton_append]
      cases rest with
      | nil => rfl
      | cons c rest =>
          obtain ⟨hword, hdot⟩ := hrest c rfl
          have hdigit : c.isDigit = false := by
            simp [isWordChar] at hword
            exact hword.1.2
          simp [lexFrom, Scan.step, Scan.emit, hword, hdigit, hdot]

end Wheespa.Sql
