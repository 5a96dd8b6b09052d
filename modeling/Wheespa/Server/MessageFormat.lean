import Mathlib.Data.List.Infix
import Wheespa.BinaryTree.FiniteMap
import Wheespa.HandleReceived

/-!
# Encoded messages

A client writes a message as its command word, the recipient, the body and a number, with two, three
and four colons between them. The expression of `HandleReceived` takes the longest recipient that
lets the rest match, and a recipient may contain colons. `decodes_iff` is the main result: a message
is split into what was encoded, and delivered accordingly, exactly when the number is not empty and
no part of the body can pass for the end of the recipient (`Separable`).
-/

namespace Wheespa

open Sql

/-- A command word. -/
abbrev CommandWord := { w : Str // w ≠ [] ∧ ∀ c ∈ w, isTypeChar c = true }

/-- A recipient without colons. -/
abbrev Recipient := { r : Str // r ≠ [] ∧ ∀ c ∈ r, (c.isAlphanum || c == '.' || c == '_') = true }

/-- A body: a text without line terminators. -/
abbrev Body := { b : Str // ∀ c ∈ b, isBodyChar c = true }

/-- A digit string. -/
abbrev Digits := { n : Str // ∀ c ∈ n, c.isDigit = true }

/-- The text of a message. -/
def encode (w r b n : Str) : Str :=
  w ++ "::".toList ++ r ++ ":::".toList ++ b ++ "::::".toList ++ n

/-- What `handleInternal` is for: the body goes to the recipient, or to the only user an anonymous
user can connect to, and a sender whose recipient is not in the tree is told so. -/
def HandleReceived.deliver (self : HandleReceived) (tree : WheespaServerTree) (time : Int)
    (r b : Str) : Option (Completion × HandleReceived) :=
  match tree.lookup (if self.user.registered then r else self.user.connectTo) with
  | some data =>
      (self.write data (self.user.key ++ ": ".toList ++ b ++ "::[".toList ++
        integerText time ++ "]".toList)).map fun self => (.returned 0, self)
  | none =>
      (self.write self.user "WHEESPA_USER_OFFLINE".toList).map fun self => (.returned (-1), self)

/-- Decoding undoes encoding: the constructor matches and yields the four parts, and
`handleInternal` delivers the body to the recipient. -/
structure Decodes (w r b n : Str) : Prop where
  constructed : ∀ user file connType adminCmd, user.sockStream.isSome →
    ∃ self groups, HandleReceived.new (encode w r b n) user file connType adminCmd = some self ∧
      self.result = some groups ∧ groups 1 = some w ∧ groups 2 = some r ∧ groups 3 = some b ∧
      groups 4 = some n
  delivered : ∀ user file connType adminCmd self,
    HandleReceived.new (encode w r b n) user file connType adminCmd = some self →
    ∀ tree time, self.handleInternal tree time = self.deliver tree time r b

/-- No part of the body can pass for the end of the recipient: the body does not start with a colon,
and no beginning of it in the characters of a recipient is followed by three colons. -/
structure Separable (b : Str) : Prop where
  head : b.head? ≠ some ':'
  inner : ∀ z, (∀ c ∈ z, isRecipientChar c = true) → ¬ z ++ ":::".toList <+: b

/-! ## Splitting -/

/-- The part of the expression after the recipient. -/
def messageTail : Regex Char :=
  .seq (.text ":::".toList) (.seq (.capture 3 (.star isBodyChar)) (.seq (.text "::::".toList)
    (.capture 4 (.plus Char.isDigit))))

/-- The continuation of a match of the whole text. -/
def atEnd (groups : Regex.Groups Char) (rest : Str) : Option (Regex.Groups Char) :=
  if rest.isEmpty then some groups else none

/-- What the part after the recipient matches. -/
theorem matches_messageTail {x : Str} {before after : Regex.Groups Char} :
    messageTail.Matches before x after ↔
      ∃ b n, x = ":::".toList ++ b ++ "::::".toList ++ n ∧ (∀ c ∈ b, isBodyChar c = true) ∧
        (n ≠ [] ∧ ∀ c ∈ n, c.isDigit = true) ∧
        after = Function.update (Function.update before 3 (some b)) 4 (some n) := by
  simp only [messageTail, Regex.matches_seq, Regex.matches_capture, Regex.matches_star,
    Regex.matches_plus, Regex.matches_text]
  constructor
  · rintro ⟨_, _, _, rfl, ⟨rfl, rfl⟩, b, _, _, rfl, ⟨_, ⟨hb, rfl⟩, rfl⟩, _, n, _, rfl,
      ⟨rfl, rfl⟩, _, ⟨hne, hn, rfl⟩, rfl⟩
    exact ⟨b, n, by simp, hb, ⟨hne, hn⟩, rfl⟩
  · rintro ⟨b, n, rfl, hb, ⟨hne, hn⟩, rfl⟩
    exact ⟨_, _, _, by simp only [List.append_assoc], ⟨rfl, rfl⟩, b, _, _, rfl, ⟨_, ⟨hb, rfl⟩, rfl⟩,
      _, n, _, rfl, ⟨rfl, rfl⟩, _, ⟨hne, hn, rfl⟩, rfl⟩

/-- What follows a text that ends in a colon is empty if it consists of digits. -/
theorem eq_nil_of_colon {x y a : Str} (ha : ∀ c ∈ a, c.isDigit = true)
    (h : x ++ "::::".toList = y ++ a) : a = [] := by
  rcases List.eq_nil_or_concat a with rfl | ⟨a, c, rfl⟩
  · rfl
  · have hlast : some ':' = some c := by
      simpa using congrArg List.getLast? h
    have hdigit := ha c (by simp)
    rw [← Option.some.inj hlast] at hdigit
    exact absurd hdigit (by decide)

/-- The digits at the end of a message are those after its last four colons. -/
theorem split_unique {x x' n n' : Str} (hn : ∀ c ∈ n, c.isDigit = true)
    (hn' : ∀ c ∈ n', c.isDigit = true)
    (h : x ++ "::::".toList ++ n = x' ++ "::::".toList ++ n') : x = x' ∧ n = n' := by
  rcases List.append_eq_append_iff.mp h with ⟨a, hx, rfl⟩ | ⟨a, hx, rfl⟩
  · rw [List.forall_mem_append] at hn
    obtain rfl := eq_nil_of_colon hn.1 hx
    rw [List.append_nil] at hx
    exact ⟨(List.append_cancel_right hx).symm, rfl⟩
  · rw [List.forall_mem_append] at hn'
    obtain rfl := eq_nil_of_colon hn'.1 hx
    rw [List.append_nil] at hx
    exact ⟨List.append_cancel_right hx, rfl⟩

/-- The part after the recipient is matched in one way at most. -/
theorem exec_messageTail {groups after : Regex.Groups Char} {s : Str} :
    messageTail.exec atEnd groups s = some after ↔ messageTail.Matches groups s after := by
  have hsound {after : Regex.Groups Char} (h : messageTail.exec atEnd groups s = some after) :
      messageTail.Matches groups s after := by
    obtain ⟨x, rest, after', rfl, hmatch, h⟩ := Regex.exec_sound h
    obtain ⟨hrest, h⟩ := Option.ite_none_right_eq_some.mp h
    obtain rfl := List.isEmpty_iff.mp hrest
    obtain rfl := Option.some.inj h
    simpa using hmatch
  refine ⟨hsound, fun hmatch => ?_⟩
  have hsome := @Regex.exec_complete _ _ _ atEnd _ _ _ [] hmatch rfl
  rw [List.append_nil] at hsome
  obtain ⟨after', hafter⟩ := Option.isSome_iff_exists.mp hsome
  obtain ⟨b, n, hs, _, hn, rfl⟩ := matches_messageTail.mp hmatch
  obtain ⟨b', n', hs', _, hn', rfl⟩ := matches_messageTail.mp (hsound hafter)
  obtain ⟨hb, rfl⟩ := split_unique hn.2 hn'.2 (hs.symm.trans hs')
  obtain rfl := List.append_cancel_left hb
  exact hafter

/-- The groups of a message that is split into the four parts. -/
def parts (w r b n : Str) : Regex.Groups Char :=
  Function.update (Function.update (Function.update (Function.update (fun _ => none)
    1 (some w)) 2 (some r)) 3 (some b)) 4 (some n)

/-- What follows the command word and its two colons. -/
def messageRest (r b n : Str) : Str :=
  r ++ (":::".toList ++ b ++ "::::".toList ++ n)

/-- The groups with the command word and a recipient. -/
def withRecipient (w y : Str) : Regex.Groups Char :=
  Function.update (Function.update (fun _ => none) 1 (some w)) 2 (some y)

/-- A choice of the recipient determines what its group holds. -/
theorem take_of_choice {p : Char → Bool} {s x rest : Str} (h : Regex.Choice p s x rest) :
    s.take (s.length - rest.length) = x := by
  obtain ⟨rfl, _⟩ := h
  rw [List.length_append, Nat.add_sub_cancel, List.take_left]

/-- The matcher on a message: the command word is forced, and the recipient is a greedy choice. -/
theorem fullMatch_eq_greedy (w : CommandWord) (r b n : Str) :
    messageRegex.fullMatch (encode w.1 r b n) =
      Regex.greedy isRecipientChar (fun rest => messageTail.exec atEnd (withRecipient w.1
        ((messageRest r b n).take ((messageRest r b n).length - rest.length))) rest)
        (messageRest r b n) := by
  obtain ⟨w, hne, hw⟩ := w
  have hencode : encode w r b n = w ++ ("::".toList ++ messageRest r b n) := by
    simp only [encode, messageRest, List.append_assoc]
  have hcolon : isTypeChar ':' = false := by decide
  rw [hencode]
  refine (Regex.exec_capture_plus _ hne hw ?_ ?_).trans ?_
  · intro c hc
    obtain rfl : ':' = c := Option.some.inj hc
    exact hcolon
  · intro groups c rest hc
    have hne : c ≠ ':' := by
      rintro rfl
      rw [hcolon] at hc
      exact absurd hc Bool.false_ne_true
    exact Regex.exec_text_cons hne _ _ _ _
  · exact Regex.exec_text _ _ _ _

/-- How a message is split: the recipient is the longest text of its class that leaves a rest for
the part after it. -/
theorem fullMatch_encode (w : CommandWord) (r b n : Str) {groups : Regex.Groups Char} :
    messageRegex.fullMatch (encode w.1 r b n) = some groups ↔
      ∃ y rest, Regex.Choice isRecipientChar (messageRest r b n) y rest ∧
        messageTail.Matches (withRecipient w.1 y) rest groups ∧
        ∀ y' rest', Regex.Choice isRecipientChar (messageRest r b n) y' rest' →
          y.length < y'.length →
          ∀ after, ¬ messageTail.Matches (withRecipient w.1 y') rest' after := by
  rw [fullMatch_eq_greedy, Regex.greedy_eq_some_iff]
  refine exists_congr fun y => exists_congr fun rest => and_congr_right fun hchoice => ?_
  rw [take_of_choice hchoice, exec_messageTail]
  refine and_congr_right fun _ => forall_congr' fun y' => forall_congr' fun rest' =>
    forall_congr' fun hchoice' => forall_congr' fun _ => ?_
  rw [take_of_choice hchoice', Option.eq_none_iff_forall_ne_some]
  exact forall_congr' fun after => not_congr exec_messageTail

/-- No longer recipient leaves a rest for the part after it, if no part of the body can pass for the
end of the recipient. -/
theorem not_matches_longer {r : Recipient} {b : Body} {n : Digits} (h : Separable b.1)
    {y rest : Str} (hchoice : Regex.Choice isRecipientChar (messageRest r.1 b.1 n.1) y rest)
    (hlonger : r.1.length < y.length) {before after : Regex.Groups Char} :
    ¬ messageTail.Matches before rest after := by
  intro hmatch
  obtain ⟨x, m, rfl, _, ⟨_, hm⟩, _⟩ := matches_messageTail.mp hmatch
  obtain ⟨hsplit, hy⟩ := hchoice
  obtain ⟨z, rfl, hz⟩ : ∃ z, y = r.1 ++ z ∧
      ":::".toList ++ b.1 ++ "::::".toList ++ n.1 =
        z ++ (":::".toList ++ x ++ "::::".toList ++ m) := by
    rcases List.append_eq_append_iff.mp hsplit with ⟨z, hz⟩ | ⟨z, hr, _⟩
    · exact ⟨z, hz⟩
    · rw [hr, List.length_append] at hlonger
      omega
  rw [List.forall_mem_append] at hy
  have hbody : ":::".toList ++ b.1 = z ++ (":::".toList ++ x) := by
    refine (split_unique n.2 hm ?_).1
    simpa only [List.append_assoc] using hz
  have hcolons : ":::".toList = [':', ':', ':'] := rfl
  rw [hcolons] at hbody
  simp only [List.cons_append, List.nil_append] at hbody
  -- the longer recipient ends in the separator, or it takes the separator and a part of the body
  rcases z with _ | ⟨z₁, _ | ⟨z₂, _ | ⟨z₃, z⟩⟩⟩
  · simp at hlonger
  · obtain hhead : b.1 = ':' :: x := by
      simpa using (List.cons.inj hbody).2
    exact h.head (by rw [hhead]; rfl)
  · obtain hhead : b.1 = ':' :: ':' :: x := by
      simpa using (List.cons.inj (List.cons.inj hbody).2).2
    exact h.head (by rw [hhead]; rfl)
  · have hinner : b.1 = z ++ (':' :: ':' :: ':' :: x) :=
      (List.cons.inj (List.cons.inj (List.cons.inj hbody).2).2).2
    refine h.inner z (fun c hc => hy.2 c (by simp [hc])) ⟨x, ?_⟩
    rw [hinner, hcolons, List.append_assoc]
    rfl

/-- A message is split into what was encoded exactly when no part of the body can pass for the end
of the recipient, and the number is not empty. -/
theorem fullMatch_parts_iff (w : CommandWord) (r : Recipient) (b : Body) (n : Digits) :
    (∃ groups, messageRegex.fullMatch (encode w.1 r.1 b.1 n.1) = some groups ∧
      groups 1 = some w.1 ∧ groups 2 = some r.1 ∧ groups 3 = some b.1 ∧ groups 4 = some n.1) ↔
      Separable b.1 ∧ n.1 ≠ [] := by
  have hr : ∀ c ∈ r.1, isRecipientChar c = true := by
    intro c hc
    have hchar := r.2.2 c hc
    simp only [Bool.or_eq_true] at hchar
    simp only [isRecipientChar, Bool.or_eq_true]
    tauto
  simp only [fullMatch_encode]
  constructor
  · rintro ⟨groups, ⟨y, rest, ⟨hsplit, hy⟩, hmatch, hlonger⟩, _, hrecipient, _, hnumber⟩
    obtain ⟨b', n', rfl, hb', ⟨hne, hn'⟩, rfl⟩ := matches_messageTail.mp hmatch
    obtain rfl : y = r.1 := by simpa [withRecipient] using hrecipient
    obtain rfl : n' = n.1 := by simpa using hnumber
    -- the group took the longest recipient, so a longer one cannot match
    have hnone (z x : Str) (hz : ∀ c ∈ z, isRecipientChar c = true) (hlength : z ≠ [])
        (heq : z ++ (":::".toList ++ x) = ":::".toList ++ b.1) : False := by
      have hx : ∀ c ∈ x, isBodyChar c = true := by
        intro c hc
        have hmem : c ∈ ":::".toList ++ b.1 := by
          rw [← heq]
          simp [hc]
        rcases List.mem_append.mp hmem with hcolon | hbody
        · have hall : ":::".toList.all isBodyChar = true := by decide
          exact List.all_eq_true.mp hall c hcolon
        · exact b.2 c hbody
      refine hlonger (r.1 ++ z) (":::".toList ++ x ++ "::::".toList ++ n.1)
        ⟨?_, List.forall_mem_append.mpr ⟨hr, hz⟩⟩ ?_ _
        (matches_messageTail.mpr ⟨x, n.1, rfl, hx, ⟨hne, n.2⟩, rfl⟩)
      · rw [messageRest, ← heq]
        simp only [List.append_assoc]
      · rw [List.length_append]
        exact Nat.lt_add_of_pos_right (List.length_pos_iff.mpr hlength)
    refine ⟨⟨fun hhead => ?_, fun z hz hinner => ?_⟩, hne⟩
    · obtain ⟨x, hx⟩ := List.head?_eq_some_iff.mp hhead
      refine hnone [':'] x (List.all_eq_true.mp (by decide)) (List.cons_ne_nil _ _) ?_
      rw [hx]
      rfl
    · obtain ⟨x, hx⟩ := hinner
      refine hnone (":::".toList ++ z) x ?_ (List.cons_ne_nil _ _) ?_
      · exact List.forall_mem_append.mpr ⟨List.all_eq_true.mp (by decide), hz⟩
      · rw [← hx]
        simp only [List.append_assoc]
  · rintro ⟨hseparable, hne⟩
    refine ⟨_, ⟨r.1, _, ⟨rfl, hr⟩, matches_messageTail.mpr ⟨b.1, n.1, rfl, b.2, ⟨hne, n.2⟩, rfl⟩,
      fun y rest hchoice hlt after => not_matches_longer hseparable hchoice hlt⟩, ?_⟩
    simp [withRecipient]

/-! ## Delivery -/

/-- `handleInternal` delivers what the message was split into. -/
theorem HandleReceived.handleInternal_eq (self : HandleReceived) (tree : WheespaServerTree)
    (time : Int) :
    self.handleInternal tree time = self.deliver tree time (self.group 2) (self.group 3) := by
  have hfind : (if self.user.registered then tree.find (self.group 2)
      else tree.find self.user.connectTo) =
      tree.find (if self.user.registered then self.group 2 else self.user.connectTo) := by
    split <;> rfl
  unfold handleInternal deliver BinarySearchTree.lookup
  rw [hfind]
  cases hpath : tree.find (if self.user.registered then self.group 2 else self.user.connectTo) with
  | none =>
      simp only [Option.bind_none, Option.bind_eq_bind, Option.map_eq_bind]
      rfl
  | some path =>
      obtain ⟨data, hdata, _⟩ := Node.get?_of_find hpath
      simp only [Option.bind_some, hdata, Option.bind_eq_bind, Option.map_eq_bind]
      rfl

/-- Decoding a message undoes encoding it exactly when no part of the body can pass for the end of
the recipient, and the number is not empty. -/
theorem decodes_iff (w : CommandWord) (r : Recipient) (b : Body) (n : Digits) :
    Decodes w.1 r.1 b.1 n.1 ↔ Separable b.1 ∧ n.1 ≠ [] := by
  rw [← fullMatch_parts_iff w r b n]
  constructor
  · intro h
    obtain ⟨self, groups, hnew, hresult, hgroups⟩ :=
      h.constructed { WheespaConnected.new with sockStream := some 0 } (fun _ => none) none none rfl
    exact ⟨groups, (HandleReceived.new_eq hnew).1.symm.trans hresult, hgroups⟩
  · rintro ⟨groups, hmatch, hcommand, hrecipient, hbody, hnumber⟩
    constructor
    · intro user file connType adminCmd huser
      obtain ⟨self, hnew⟩ := HandleReceived.exists_new huser (encode w.1 r.1 b.1 n.1) file connType
        adminCmd
      exact ⟨self, groups, hnew, (HandleReceived.new_eq hnew).1.trans hmatch, hcommand, hrecipient,
        hbody, hnumber⟩
    · intro user file connType adminCmd self hnew tree time
      have hresult := (HandleReceived.new_eq hnew).1.trans hmatch
      rw [self.handleInternal_eq, HandleReceived.group, HandleReceived.group, hresult]
      simp [hrecipient, hbody]

/-- The body `a:::b` for `bob` is read as the body `b` for the recipient `bob:::a`. -/
theorem decode_moves_recipient :
    (messageRegex.fullMatch (encode "WHEESPA_INTERNAL".toList "bob".toList "a:::b".toList
      "1".toList)).map (fun groups => (groups 2, groups 3)) =
        some (some "bob:::a".toList, some "b".toList) ∧
      ¬ Decodes "WHEESPA_INTERNAL".toList "bob".toList "a:::b".toList "1".toList := by
  have hsplit : (messageRegex.fullMatch (encode "WHEESPA_INTERNAL".toList "bob".toList
      "a:::b".toList "1".toList)).map (fun groups => (groups 2, groups 3)) =
        some (some "bob:::a".toList, some "b".toList) := by
    decide +kernel
  refine ⟨hsplit, fun h => ?_⟩
  obtain ⟨self, groups, hnew, hresult, _, hrecipient, _⟩ :=
    h.constructed { WheespaConnected.new with sockStream := some 0 } (fun _ => none) none none rfl
  rw [← (HandleReceived.new_eq hnew).1, hresult, Option.map_some, hrecipient] at hsplit
  exact absurd (Option.some.inj (Prod.mk.inj (Option.some.inj hsplit)).1) (by decide)

end Wheespa
