import Mathlib.Data.List.Basic

/-!
# Messages with a terminator on a stream

A sender ends every message with a terminator, and a receiver takes a terminator off the end of
every chunk that it reads. `strip_chunks_iff` says when the receiver gets the messages back from a
stream that was cut into chunks: exactly when every chunk is one terminated message. A receiver that
keeps what it read until a terminator comes gets the messages back from any stream
(`pieces_terminated`), and from what has come of one it gets the first of them (`pieces_mono`).
-/

namespace Wheespa.Framing

universe u

variable {α : Type u} [DecidableEq α] {terminator : α}

/-- The text with the terminator at its end. -/
def terminate (terminator : α) (text : List α) : List α :=
  if text.getLast? = some terminator then text else text ++ [terminator]

/-- The text without a terminator at its end. -/
def strip (terminator : α) (text : List α) : List α :=
  if text.getLast? = some terminator then text.dropLast else text

/-- A message: it is not empty and does not contain the terminator. -/
structure IsMessage (terminator : α) (text : List α) : Prop where
  ne_nil : text ≠ []
  not_mem : terminator ∉ text

instance (terminator : α) (text : List α) : Decidable (IsMessage terminator text) :=
  decidable_of_iff (text ≠ [] ∧ terminator ∉ text) ⟨fun h => ⟨h.1, h.2⟩, fun h => ⟨h.1, h.2⟩⟩

/-- A read: how much was asked for, and the chunk of the stream that came. -/
structure Read (α : Type u) where
  size : Nat
  chunk : List α
  ne_nil : chunk ≠ []
  fits : chunk.length ≤ size

/-- A message is sent with one terminator. -/
theorem IsMessage.terminate_eq {text : List α} (h : IsMessage terminator text) :
    terminate terminator text = text ++ [terminator] := by
  refine if_neg fun hlast => ?_
  exact h.not_mem (List.mem_of_getLast? hlast)

/-- One terminator is taken off. -/
@[simp] theorem strip_append (text : List α) : strip terminator (text ++ [terminator]) = text := by
  simp [strip]

/-- A chunk is what is left of it, or what is left of it with the terminator. -/
theorem eq_or_of_strip {chunk text : List α} (h : strip terminator chunk = text) :
    chunk = text ∨ chunk = text ++ [terminator] := by
  unfold strip at h
  split at h
  · next hlast =>
      obtain ⟨init, rfl⟩ := List.getLast?_eq_some_iff.mp hlast
      rw [List.dropLast_concat] at h
      exact .inr (by rw [h])
  · exact .inl h

/-- A chunk that holds a message does not begin with the terminator. -/
theorem head?_ne_of_strip {chunk : List α} (h : IsMessage terminator (strip terminator chunk)) :
    chunk.head? ≠ some terminator := by
  obtain ⟨a, text, htext⟩ := List.exists_cons_of_ne_nil h.ne_nil
  have hne : a ≠ terminator := fun heq => h.not_mem (by rw [htext, heq]; exact List.mem_cons_self)
  rcases eq_or_of_strip htext with rfl | rfl
  · simpa using hne
  · simpa using hne

/-- From a stream of terminated messages that is cut into chunks, taking the terminators off the
chunks gives the messages exactly when every chunk is one terminated message. -/
theorem strip_chunks_iff {chunks messages : List (List α)} (hchunks : ∀ chunk ∈ chunks, chunk ≠ [])
    (hmessages : ∀ text ∈ messages, IsMessage terminator text)
    (hstream : chunks.flatten = (messages.map (· ++ [terminator])).flatten) :
    chunks.map (strip terminator) = messages ↔ chunks = messages.map (· ++ [terminator]) := by
  constructor
  · intro hstrip
    induction messages generalizing chunks with
    | nil => simpa using hstrip
    | cons text messages ih =>
        obtain ⟨chunk, chunks, rfl, hchunk, hrest⟩ := List.map_eq_cons_iff.mp hstrip
        rw [List.forall_mem_cons] at hchunks hmessages
        rw [List.map_cons, List.flatten_cons, List.flatten_cons] at hstream
        rcases eq_or_of_strip hchunk with rfl | rfl
        · -- the next chunk would begin with the terminator, and no message does
          rw [List.append_assoc, List.append_cancel_left_eq] at hstream
          cases chunks with
          | nil => simp at hstream
          | cons next chunks =>
              have hnext : IsMessage terminator (strip terminator next) := by
                refine hmessages.2 _ ?_
                rw [← hrest]
                exact List.mem_cons_self
              obtain ⟨a, next, rfl⟩ := List.exists_cons_of_ne_nil (hchunks.2 _ List.mem_cons_self)
              obtain ⟨rfl, _⟩ := List.cons.inj hstream
              exact absurd rfl (head?_ne_of_strip hnext)
        · rw [List.append_cancel_left_eq] at hstream
          rw [List.map_cons, ih hchunks.2 hmessages.2 hstream hrest]
  · rintro rfl
    rw [List.map_map]
    exact List.map_id'' strip_append messages

/-! ## Keeping what was read -/

/-- The messages of a stream, each at its terminator; `piece` is what has come of the first. -/
def piecesFrom (terminator : α) (piece : List α) : List α → List (List α)
  | [] => []
  | a :: stream =>
      if a = terminator then piece :: piecesFrom terminator [] stream
      else piecesFrom terminator (piece ++ [a]) stream

/-- The messages of a stream that are complete. -/
def pieces (terminator : α) (stream : List α) : List (List α) :=
  piecesFrom terminator [] stream

/-- A text without a terminator is completed by the next terminator. -/
theorem piecesFrom_append {text : List α} (h : terminator ∉ text) (piece rest : List α) :
    piecesFrom terminator piece (text ++ terminator :: rest) =
      (piece ++ text) :: piecesFrom terminator [] rest := by
  induction text generalizing piece with
  | nil => simp [piecesFrom]
  | cons a text ih =>
      rw [List.mem_cons, not_or] at h
      rw [List.cons_append, piecesFrom, if_neg (Ne.symm h.1), ih h.2, List.append_assoc]
      rfl

/-- Texts without terminators are read from the stream of them. -/
theorem pieces_terminated {texts : List (List α)} (h : ∀ text ∈ texts, terminator ∉ text) :
    pieces terminator (texts.flatMap (terminate terminator)) = texts := by
  induction texts with
  | nil => rfl
  | cons text texts ih =>
      rw [List.forall_mem_cons] at h
      have hterminate : terminate terminator text = text ++ [terminator] :=
        if_neg fun hlast => h.1 (List.mem_of_getLast? hlast)
      rw [List.flatMap_cons, hterminate, List.append_assoc]
      exact (piecesFrom_append h.1 [] _).trans (congrArg (text :: ·) (ih h.2))

/-- What is read of the beginning of a stream is the beginning of what is read of it. -/
theorem piecesFrom_mono (piece first rest : List α) :
    piecesFrom terminator piece first <+: piecesFrom terminator piece (first ++ rest) := by
  induction first generalizing piece with
  | nil => exact List.nil_prefix
  | cons a first ih =>
      rw [List.cons_append, piecesFrom, piecesFrom]
      split
      · exact List.prefix_cons_inj _ |>.mpr (ih [])
      · exact ih (piece ++ [a])

theorem pieces_mono {first stream : List α} (h : first <+: stream) :
    pieces terminator first <+: pieces terminator stream := by
  obtain ⟨rest, rfl⟩ := h
  exact piecesFrom_mono [] first rest

end Wheespa.Framing
