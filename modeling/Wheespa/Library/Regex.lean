import Mathlib.Data.List.Infix
import Mathlib.Logic.Function.Basic

/-!
# Backtracking regular expressions

The fragment of ECMAScript expressions with classes, greedy repetition of a class, sequence, greedy
option and capturing groups. `Matches` says which texts an expression matches and what its groups
then hold, and `exec` is the matcher: it tries the choices in order of priority and passes what it
has matched on to a continuation, so that a choice is kept when the continuation succeeds.

`exec_sound` and `exec_complete` relate the two. `greedy_eq_some_iff` is the rule for priority: the
longest choice for which the continuation succeeds is kept.
-/

namespace Wheespa

universe u v

/-- A regular expression over the alphabet `α`. -/
inductive Regex (α : Type u) where
  | empty
  | symbol (p : α → Bool)
  | star (p : α → Bool)
  | seq (first second : Regex α)
  | opt (inner : Regex α)
  | capture (index : Nat) (inner : Regex α)

namespace Regex

variable {α : Type u} {β : Type v}

/-- What the capturing groups hold. -/
abbrev Groups (α : Type u) := Nat → Option (List α)

/-- The expression for a fixed text. -/
def text [DecidableEq α] : List α → Regex α
  | [] => .empty
  | a :: word => .seq (.symbol (· == a)) (text word)

/-- One or more symbols of a class. -/
def plus (p : α → Bool) : Regex α :=
  .seq (.symbol p) (.star p)

/-- At most this many occurrences. -/
def atMost (r : Regex α) : Nat → Regex α
  | 0 => .empty
  | bound + 1 => .opt (.seq r (atMost r bound))

/-- From `least` to `least + more` occurrences. -/
def between (least more : Nat) (r : Regex α) : Regex α :=
  match least with
  | 0 => atMost r more
  | least + 1 => .seq r (between least more r)

/-- The expression matches the text, and takes the groups from `before` to `after`. -/
inductive Matches : Regex α → Groups α → List α → Groups α → Prop where
  | empty {groups : Groups α} : Matches .empty groups [] groups
  | symbol {p : α → Bool} {groups : Groups α} {a : α} (h : p a) :
      Matches (.symbol p) groups [a] groups
  | star {p : α → Bool} {groups : Groups α} {x : List α} (h : ∀ a ∈ x, p a) :
      Matches (.star p) groups x groups
  | seq {first second : Regex α} {before middle after : Groups α} {x y : List α}
      (hfirst : Matches first before x middle) (hsecond : Matches second middle y after) :
      Matches (.seq first second) before (x ++ y) after
  | optSome {inner : Regex α} {before after : Groups α} {x : List α}
      (h : Matches inner before x after) : Matches (.opt inner) before x after
  | optNone {inner : Regex α} {groups : Groups α} : Matches (.opt inner) groups [] groups
  | capture {index : Nat} {inner : Regex α} {before after : Groups α} {x : List α}
      (h : Matches inner before x after) :
      Matches (.capture index inner) before x (Function.update after index (some x))

/-- The greedy repetition of a class in front of a continuation: longer choices first. -/
def greedy (p : α → Bool) (next : List α → Option β) : List α → Option β
  | [] => next []
  | a :: s => if p a then (greedy p next s).or (next (a :: s)) else next (a :: s)

/-- The matcher: it matches a beginning of the text and calls the continuation on the groups and the
rest, going back to the choice with the next priority where the continuation fails. -/
def exec : Regex α → (Groups α → List α → Option β) → Groups α → List α → Option β
  | .empty, next, groups, s => next groups s
  | .symbol _, _, _, [] => none
  | .symbol p, next, groups, a :: s => if p a then next groups s else none
  | .star p, next, groups, s => greedy p (next groups) s
  | .seq first second, next, groups, s => first.exec (second.exec next) groups s
  | .opt inner, next, groups, s => (inner.exec next groups s).or (next groups s)
  | .capture index inner, next, groups, s =>
      inner.exec (fun groups rest =>
        next (Function.update groups index (some (s.take (s.length - rest.length)))) rest) groups s

/-- The groups after a match of the whole text. -/
def fullMatch (r : Regex α) (s : List α) : Option (Groups α) :=
  r.exec (fun groups rest => if rest.isEmpty then some groups else none) (fun _ => none) s

/-- The groups of the leftmost match, and the rest of the text after it. -/
def search (r : Regex α) : List α → Option (Groups α × List α)
  | [] => r.exec (fun groups rest => some (groups, rest)) (fun _ => none) []
  | a :: s =>
      (r.exec (fun groups rest => some (groups, rest)) (fun _ => none) (a :: s)).or (search r s)

/-- The groups of the successive leftmost matches, for an expression that matches no empty text.
There are at most as many as the text has symbols. -/
def searchAll (r : Regex α) (s : List α) : List (Groups α) :=
  go s.length s
where
  /-- The matches that are left, `bound` at most. -/
  go : Nat → List α → List (Groups α)
    | 0, _ => []
    | bound + 1, s =>
        match search r s with
        | none => []
        | some (groups, rest) => groups :: go bound rest

/-! ## Priority -/

/-- A choice of the greedy repetition: the part of the text it takes, and the rest. -/
def Choice (p : α → Bool) (s x rest : List α) : Prop :=
  s = x ++ rest ∧ ∀ a ∈ x, p a

theorem choice_nil {p : α → Bool} {x rest : List α} :
    Choice p [] x rest ↔ x = [] ∧ rest = [] := by
  rw [Choice, List.nil_eq_append_iff]
  constructor
  · exact And.left
  · rintro ⟨rfl, rfl⟩
    exact ⟨⟨rfl, rfl⟩, by simp⟩

/-- A choice takes nothing, or a first symbol of the class and a choice of what follows. -/
theorem choice_cons {p : α → Bool} {a : α} {s x rest : List α} :
    Choice p (a :: s) x rest ↔
      x = [] ∧ rest = a :: s ∨ p a ∧ ∃ y, x = a :: y ∧ Choice p s y rest := by
  rw [Choice, List.cons_eq_append_iff]
  constructor
  · rintro ⟨⟨rfl, rfl⟩ | ⟨y, rfl, rfl⟩, hx⟩
    · exact .inl ⟨rfl, rfl⟩
    · rw [List.forall_mem_cons] at hx
      exact .inr ⟨hx.1, y, rfl, rfl, hx.2⟩
  · rintro (⟨rfl, rfl⟩ | ⟨ha, y, rfl, rfl, hy⟩)
    · exact ⟨.inl ⟨rfl, rfl⟩, by simp⟩
    · exact ⟨.inr ⟨y, rfl, rfl⟩, List.forall_mem_cons.mpr ⟨ha, hy⟩⟩

/-- The greedy repetition fails when the continuation fails for every choice. -/
theorem greedy_eq_none_iff {p : α → Bool} {next : List α → Option β} {s : List α} :
    greedy p next s = none ↔ ∀ x rest, Choice p s x rest → next rest = none := by
  induction s with
  | nil => simp [greedy, choice_nil]
  | cons a s ih =>
      rw [greedy]
      cases ha : p a with
      | true =>
          rw [if_pos rfl, Option.or_eq_none_iff, ih]
          simp only [choice_cons, ha, true_and]
          constructor
          · rintro ⟨hlonger, hempty⟩ x rest (⟨rfl, rfl⟩ | ⟨y, rfl, hy⟩)
            · exact hempty
            · exact hlonger y rest hy
          · intro h
            exact ⟨fun y rest hy => h (a :: y) rest (.inr ⟨y, rfl, hy⟩), h [] _ (.inl ⟨rfl, rfl⟩)⟩
      | false => simp [choice_cons, ha]

/-- The greedy repetition keeps the longest choice for which the continuation succeeds. -/
theorem greedy_eq_some_iff {p : α → Bool} {next : List α → Option β} {s : List α} {b : β} :
    greedy p next s = some b ↔
      ∃ x rest, Choice p s x rest ∧ next rest = some b ∧
        ∀ y rest', Choice p s y rest' → x.length < y.length → next rest' = none := by
  induction s with
  | nil => simp [greedy, choice_nil]
  | cons a s ih =>
      rw [greedy]
      cases ha : p a with
      | true =>
          rw [if_pos rfl, Option.or_eq_some_iff, ih, greedy_eq_none_iff]
          simp only [choice_cons, ha, true_and]
          constructor
          · rintro (⟨x, rest, hx, hb, hlonger⟩ | ⟨hlonger, hb⟩)
            · refine ⟨a :: x, rest, .inr ⟨x, rfl, hx⟩, hb, ?_⟩
              rintro y rest' (⟨rfl, rfl⟩ | ⟨y, rfl, hy⟩) hlt
              · simp at hlt
              · exact hlonger y rest' hy (Nat.lt_of_succ_lt_succ hlt)
            · refine ⟨[], a :: s, .inl ⟨rfl, rfl⟩, hb, ?_⟩
              rintro y rest' (⟨rfl, rfl⟩ | ⟨y, rfl, hy⟩) hlt
              · simp at hlt
              · exact hlonger y rest' hy
          · rintro ⟨x, rest, ⟨rfl, rfl⟩ | ⟨x, rfl, hx⟩, hb, hlonger⟩
            · exact .inr ⟨fun y rest' hy =>
                hlonger (a :: y) rest' (.inr ⟨y, rfl, hy⟩) (Nat.succ_pos _), hb⟩
            · exact .inl ⟨x, rest, hx, hb, fun y rest' hy hlt =>
                hlonger (a :: y) rest' (.inr ⟨y, rfl, hy⟩) (Nat.succ_lt_succ hlt)⟩
      | false => simp [choice_cons, ha]

/-- A repetition followed by a symbol of another class consumes exactly the symbols of the class,
where the continuation needs that other class. -/
theorem greedy_forced {p : α → Bool} {next : List α → Option β} {x s : List α}
    (hx : ∀ a ∈ x, p a) (hs : ∀ a ∈ s.head?, p a = false)
    (hnext : ∀ a rest, p a → next (a :: rest) = none) : greedy p next (x ++ s) = next s := by
  induction x with
  | nil =>
      cases s with
      | nil => rfl
      | cons a s => simp [greedy, hs a (by simp)]
  | cons a x ih =>
      rw [List.forall_mem_cons] at hx
      rw [List.cons_append, greedy, if_pos hx.1, ih hx.2, hnext a _ hx.1, Option.or_none]

/-! ## The matcher and the language -/

/-- What a sequence matches. -/
theorem matches_seq {first second : Regex α} {before after : Groups α} {x : List α} :
    Matches (.seq first second) before x after ↔
      ∃ y z middle, x = y ++ z ∧ Matches first before y middle ∧ Matches second middle z after := by
  constructor
  · rintro ⟨⟩
    exact ⟨_, _, _, rfl, ‹_›, ‹_›⟩
  · rintro ⟨y, z, middle, rfl, hfirst, hsecond⟩
    exact .seq hfirst hsecond

/-- What a capturing group matches. -/
theorem matches_capture {index : Nat} {inner : Regex α} {before after : Groups α} {x : List α} :
    Matches (.capture index inner) before x after ↔
      ∃ middle, Matches inner before x middle ∧ after = Function.update middle index (some x) := by
  constructor
  · rintro ⟨⟩
    exact ⟨_, ‹_›, rfl⟩
  · rintro ⟨middle, hinner, rfl⟩
    exact .capture hinner

/-- What a repetition matches. -/
theorem matches_star {p : α → Bool} {before after : Groups α} {x : List α} :
    Matches (.star p) before x after ↔ (∀ a ∈ x, p a) ∧ after = before := by
  constructor
  · rintro ⟨⟩
    exact ⟨‹_›, rfl⟩
  · rintro ⟨hx, rfl⟩
    exact .star hx

/-- What a repetition matches that has to match some symbol. -/
theorem matches_plus {p : α → Bool} {before after : Groups α} {x : List α} :
    Matches (.plus p) before x after ↔ x ≠ [] ∧ (∀ a ∈ x, p a) ∧ after = before := by
  rw [plus, matches_seq]
  constructor
  · rintro ⟨_, z, middle, rfl, hsymbol, hstar⟩
    obtain ⟨hz, rfl⟩ := matches_star.mp hstar
    cases hsymbol with
    | symbol ha => exact ⟨by simp, List.forall_mem_cons.mpr ⟨ha, hz⟩, rfl⟩
  · rintro ⟨hne, hx, rfl⟩
    obtain ⟨a, z, rfl⟩ := List.exists_cons_of_ne_nil hne
    rw [List.forall_mem_cons] at hx
    exact ⟨[a], z, _, rfl, .symbol hx.1, .star hx.2⟩

/-- A fixed text is matched and nothing else is. -/
theorem matches_text [DecidableEq α] {word x : List α} {before after : Groups α} :
    Matches (text word) before x after ↔ x = word ∧ after = before := by
  induction word generalizing x with
  | nil =>
      constructor
      · rintro ⟨⟩
        exact ⟨rfl, rfl⟩
      · rintro ⟨rfl, rfl⟩
        exact .empty
  | cons a word ih =>
      constructor
      · rintro ⟨⟩
        rename_i hsymbol hword
        cases hsymbol with
        | symbol h =>
            obtain ⟨rfl, rfl⟩ := ih.mp hword
            exact ⟨by simpa using h, rfl⟩
      · rintro ⟨rfl, rfl⟩
        exact .seq (.symbol (by simp)) (ih.mpr ⟨rfl, rfl⟩)

/-- What an option matches. -/
theorem matches_opt {inner : Regex α} {before after : Groups α} {x : List α} :
    Matches (.opt inner) before x after ↔
      Matches inner before x after ∨ x = [] ∧ after = before := by
  constructor
  · rintro ⟨⟩
    · exact .inl ‹_›
    · exact .inr ⟨rfl, rfl⟩
  · rintro (hinner | ⟨rfl, rfl⟩)
    · exact .optSome hinner
    · exact .optNone

/-- What a bounded repetition matches, of an expression that leaves the groups as they are. -/
theorem matches_atMost {r : Regex α} {L : List α → Prop}
    (hr : ∀ before x after, Matches r before x after ↔ L x ∧ after = before) {bound : Nat}
    {before after : Groups α} {x : List α} :
    Matches (atMost r bound) before x after ↔
      (∃ pieces : List (List α), x = pieces.flatten ∧ (∀ piece ∈ pieces, L piece) ∧
        pieces.length ≤ bound) ∧ after = before := by
  induction bound generalizing before x with
  | zero =>
      constructor
      · rintro ⟨⟩
        exact ⟨⟨[], rfl, by simp, Nat.le_refl 0⟩, rfl⟩
      · rintro ⟨⟨pieces, rfl, _, hlength⟩, rfl⟩
        obtain rfl := List.length_eq_zero_iff.mp (Nat.le_zero.mp hlength)
        exact .empty
  | succ bound ih =>
      rw [atMost, matches_opt, matches_seq]
      -- one piece more or none: the first piece is cut off
      constructor
      · rintro (⟨y, z, middle, rfl, hfirst, hrest⟩ | ⟨rfl, rfl⟩)
        · obtain ⟨hy, rfl⟩ := (hr _ _ _).mp hfirst
          obtain ⟨⟨pieces, rfl, hpieces, hlength⟩, rfl⟩ := ih.mp hrest
          exact ⟨⟨y :: pieces, rfl, List.forall_mem_cons.mpr ⟨hy, hpieces⟩,
            Nat.succ_le_succ hlength⟩, rfl⟩
        · exact ⟨⟨[], rfl, by simp, Nat.zero_le _⟩, rfl⟩
      · rintro ⟨⟨pieces, rfl, hpieces, hlength⟩, rfl⟩
        cases pieces with
        | nil => exact .inr ⟨rfl, rfl⟩
        | cons piece pieces =>
            rw [List.forall_mem_cons] at hpieces
            exact .inl ⟨piece, pieces.flatten, _, rfl, (hr _ _ _).mpr ⟨hpieces.1, rfl⟩,
              ih.mpr ⟨⟨pieces, rfl, hpieces.2, Nat.le_of_succ_le_succ hlength⟩, rfl⟩⟩

/-- What a repetition between two bounds matches, of an expression that leaves the groups as they
are. -/
theorem matches_between {r : Regex α} {L : List α → Prop}
    (hr : ∀ before x after, Matches r before x after ↔ L x ∧ after = before) {least more : Nat}
    {before after : Groups α} {x : List α} :
    Matches (between least more r) before x after ↔
      (∃ pieces : List (List α), x = pieces.flatten ∧ (∀ piece ∈ pieces, L piece) ∧
        least ≤ pieces.length ∧ pieces.length ≤ least + more) ∧ after = before := by
  induction least generalizing before x with
  | zero => simp [between, matches_atMost hr]
  | succ least ih =>
      rw [between, matches_seq]
      constructor
      · rintro ⟨y, z, middle, rfl, hfirst, hrest⟩
        obtain ⟨hy, rfl⟩ := (hr _ _ _).mp hfirst
        obtain ⟨⟨pieces, rfl, hpieces, hleast, hmost⟩, rfl⟩ := ih.mp hrest
        exact ⟨⟨y :: pieces, rfl, List.forall_mem_cons.mpr ⟨hy, hpieces⟩,
          Nat.succ_le_succ hleast, by rw [List.length_cons]; omega⟩, rfl⟩
      · rintro ⟨⟨pieces, rfl, hpieces, hleast, hmost⟩, rfl⟩
        cases pieces with
        | nil => simp at hleast
        | cons piece pieces =>
            rw [List.forall_mem_cons] at hpieces
            rw [List.length_cons] at hleast hmost
            exact ⟨piece, pieces.flatten, _, rfl, (hr _ _ _).mpr ⟨hpieces.1, rfl⟩,
              ih.mpr ⟨⟨pieces, rfl, hpieces.2, by omega, by omega⟩, rfl⟩⟩

/-- What the matcher finds is a match, and the continuation succeeds on it. -/
theorem exec_sound {r : Regex α} {next : Groups α → List α → Option β} {before : Groups α}
    {s : List α} {b : β} (h : r.exec next before s = some b) :
    ∃ x rest after, s = x ++ rest ∧ r.Matches before x after ∧ next after rest = some b := by
  induction r generalizing next before s with
  | empty => exact ⟨[], s, before, rfl, .empty, h⟩
  | symbol p =>
      cases s with
      | nil => simp [exec] at h
      | cons a s =>
          obtain ⟨ha, h⟩ := Option.ite_none_right_eq_some.mp h
          exact ⟨[a], s, before, rfl, .symbol ha, h⟩
  | star p =>
      obtain ⟨x, rest, ⟨rfl, hx⟩, h, _⟩ := greedy_eq_some_iff.mp h
      exact ⟨x, rest, before, rfl, .star hx, h⟩
  | seq first second ihfirst ihsecond =>
      obtain ⟨x, s, middle, rfl, hfirst, h⟩ := ihfirst h
      obtain ⟨y, rest, after, rfl, hsecond, h⟩ := ihsecond h
      exact ⟨x ++ y, rest, after, by simp, .seq hfirst hsecond, h⟩
  | opt inner ih =>
      rcases Option.or_eq_some_iff.mp h with h | ⟨_, h⟩
      · obtain ⟨x, rest, after, rfl, hinner, h⟩ := ih h
        exact ⟨x, rest, after, rfl, .optSome hinner, h⟩
      · exact ⟨[], s, before, rfl, .optNone, h⟩
  | capture index inner ih =>
      obtain ⟨x, rest, after, rfl, hinner, h⟩ := ih h
      refine ⟨x, rest, _, rfl, .capture hinner, ?_⟩
      simpa using h

/-- Where the continuation succeeds on some match, the matcher succeeds. -/
theorem exec_complete {r : Regex α} {next : Groups α → List α → Option β}
    {before after : Groups α} {x rest : List α} (hmatch : r.Matches before x after)
    (h : (next after rest).isSome) : (r.exec next before (x ++ rest)).isSome := by
  induction hmatch generalizing next rest with
  | empty => exact h
  | symbol ha => simpa [exec, ha] using h
  | star hx =>
      rw [exec, Option.isSome_iff_ne_none, Ne, greedy_eq_none_iff]
      intro hnone
      simp [hnone _ rest ⟨rfl, hx⟩] at h
  | seq hfirst hsecond ihfirst ihsecond =>
      rw [List.append_assoc]
      exact ihfirst (ihsecond h)
  | optSome hinner ih =>
      rw [exec, Option.isSome_or, ih h, Bool.true_or]
  | optNone =>
      rw [exec, Option.isSome_or, List.nil_append, h, Bool.or_true]
  | capture hinner ih =>
      refine ih ?_
      simpa using h

/-- A fixed text is matched in front of any rest. -/
theorem exec_text [DecidableEq α] (word rest : List α) (next : Groups α → List α → Option β)
    (groups : Groups α) : (text word).exec next groups (word ++ rest) = next groups rest := by
  induction word with
  | nil => rfl
  | cons a word ih => simpa [text, exec] using ih

/-- Where a fixed text is expected, a text with another first symbol fails. -/
theorem exec_text_cons [DecidableEq α] {a b : α} (h : b ≠ a) (word rest : List α)
    (next : Groups α → List α → Option β) (groups : Groups α) :
    (text (a :: word)).exec next groups (b :: rest) = none := by
  simp [text, exec, h]

/-- A captured repetition followed by a symbol of another class takes exactly the symbols of the
class, where the continuation needs that other class. -/
theorem exec_capture_plus {index : Nat} {p : α → Bool} {next : Groups α → List α → Option β}
    {x s : List α} (groups : Groups α) (hne : x ≠ []) (hx : ∀ a ∈ x, p a)
    (hs : ∀ a ∈ s.head?, p a = false)
    (hnext : ∀ groups a rest, p a → next groups (a :: rest) = none) :
    (capture index (plus p)).exec next groups (x ++ s) =
      next (Function.update groups index (some x)) s := by
  obtain ⟨a, x, rfl⟩ := List.exists_cons_of_ne_nil hne
  rw [List.forall_mem_cons] at hx
  rw [exec, plus, exec, List.cons_append, exec, if_pos hx.1, exec]
  rw [greedy_forced hx.2 hs (by
    intro b rest hb
    exact hnext _ b rest hb)]
  rw [← List.cons_append, List.length_append, Nat.add_sub_cancel, List.take_left]

/-- The groups of a match of the whole text. -/
theorem fullMatch_sound {r : Regex α} {s : List α} {groups : Groups α}
    (h : r.fullMatch s = some groups) : r.Matches (fun _ => none) s groups := by
  obtain ⟨x, rest, after, rfl, hmatch, h⟩ := exec_sound h
  obtain ⟨hrest, h⟩ := Option.ite_none_right_eq_some.mp h
  obtain rfl := List.isEmpty_iff.mp hrest
  obtain rfl := Option.some.inj h
  simpa using hmatch

/-- A text that the expression matches is matched by the matcher. -/
theorem fullMatch_complete {r : Regex α} {s : List α} {groups : Groups α}
    (h : r.Matches (fun _ => none) s groups) : (r.fullMatch s).isSome := by
  have hexec := @exec_complete α _ r (fun groups rest => if rest.isEmpty then some groups else none)
    _ _ _ [] h rfl
  rwa [List.append_nil] at hexec

/-- A match at the beginning of the text is the leftmost. -/
theorem search_of_exec {r : Regex α} {s rest : List α} {groups : Groups α}
    (h : r.exec (fun groups rest => some (groups, rest)) (fun _ => none) s = some (groups, rest)) :
    r.search s = some (groups, rest) := by
  cases s with
  | nil => exact h
  | cons a s => rw [search, h, Option.some_or]

/-- The successive matches of a text that is made of parts, where each part is matched in front of
any rest. -/
theorem searchAll_flatMap {r : Regex α} {ι : Type v} (render : ι → List α) (groups : ι → Groups α)
    (hsearch : ∀ i rest, r.search (render i ++ rest) = some (groups i, rest))
    (hnil : r.search [] = none) (hne : ∀ i, render i ≠ []) (parts : List ι) :
    r.searchAll (parts.flatMap render) = parts.map groups := by
  have hgo (parts : List ι) (bound : Nat) (hbound : parts.length ≤ bound) :
      searchAll.go r bound (parts.flatMap render) = parts.map groups := by
    induction parts generalizing bound with
    | nil => cases bound <;> simp [searchAll.go, hnil]
    | cons part parts ih =>
        cases bound with
        | zero => simp at hbound
        | succ bound =>
            rw [List.flatMap_cons, searchAll.go, hsearch]
            simp only [List.map_cons, ih bound (Nat.le_of_succ_le_succ hbound)]
  refine hgo parts _ ?_
  induction parts with
  | nil => exact Nat.zero_le _
  | cons part parts ih =>
      have hpart := List.length_pos_iff.mpr (hne part)
      rw [List.flatMap_cons, List.length_append, List.length_cons]
      omega

/-- The groups found by a search are those of a match. -/
theorem search_sound {r : Regex α} {s rest : List α} {groups : Groups α}
    (h : r.search s = some (groups, rest)) :
    ∃ skipped x, s = skipped ++ x ++ rest ∧ r.Matches (fun _ => none) x groups := by
  induction s with
  | nil =>
      obtain ⟨x, rest', after, hs, hmatch, h⟩ := exec_sound h
      obtain ⟨rfl, rfl⟩ : after = groups ∧ rest' = rest := by simpa using h
      exact ⟨[], x, by simpa using hs, hmatch⟩
  | cons a s ih =>
      rcases Option.or_eq_some_iff.mp h with h | ⟨_, h⟩
      · obtain ⟨x, rest', after, hs, hmatch, h⟩ := exec_sound h
        obtain ⟨rfl, rfl⟩ : after = groups ∧ rest' = rest := by simpa using h
        exact ⟨[], x, by simpa using hs, hmatch⟩
      · obtain ⟨skipped, x, rfl, hmatch⟩ := ih h
        exact ⟨a :: skipped, x, by simp, hmatch⟩

/-- The groups of every successive match are those of a match. -/
theorem searchAll_sound {r : Regex α} {s : List α} {groups : Groups α}
    (h : groups ∈ r.searchAll s) : ∃ x, r.Matches (fun _ => none) x groups := by
  have hgo (bound : Nat) (s : List α) (h : groups ∈ searchAll.go r bound s) :
      ∃ x, r.Matches (fun _ => none) x groups := by
    induction bound generalizing s with
    | zero => simp [searchAll.go] at h
    | succ bound ih =>
        rw [searchAll.go] at h
        cases hsearch : r.search s with
        | none => simp [hsearch] at h
        | some found =>
            simp only [hsearch, List.mem_cons] at h
            rcases h with rfl | h
            · obtain ⟨_, x, _, hmatch⟩ := search_sound hsearch
              exact ⟨x, hmatch⟩
            · exact ih _ h
  exact hgo _ _ h

end Regex

end Wheespa
