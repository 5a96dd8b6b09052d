import Mathlib.Algebra.Group.Nat.Defs
import Wheespa.Server.AcceptLoop

/-!
# Erasing the handlers that are done

The two loops at the top of `start` in `wheespa_server.cc`: the first collects the indices of the
handlers that are done, the second erases them from `m_futures` and `m_threads`. `erase_exact` is
about any two vectors of one length and any outcome of the tests; `step_reap_of_length` is the same
for a step of the accept loop, whose vectors are of one length in every run (`length_eq_of_run`).
-/

namespace Wheespa

open Transition Erasure

namespace AcceptLoop

/-- The position `j-counter`, computed on an `unsigned` and an `int`. -/
def erasePosition (j : BitVec 32) (counter : BitVec 32) : BitVec 32 :=
  j - counter

/-- Where no number is past its type, the position is the difference. -/
theorem toNat_erasePosition {j counter : Nat} (hle : counter ≤ j) (hj : j < 2 ^ 32) :
    (erasePosition (.ofNat 32 j) (.ofNat 32 counter)).toNat = j - counter := by
  rw [erasePosition, BitVec.toNat_sub_of_le]
  · rw [BitVec.toNat_ofNat, BitVec.toNat_ofNat, Nat.mod_eq_of_lt hj,
      Nat.mod_eq_of_lt (Nat.lt_of_le_of_lt hle hj)]
  · rw [BitVec.le_def, BitVec.toNat_ofNat, BitVec.toNat_ofNat, Nat.mod_eq_of_lt hj,
      Nat.mod_eq_of_lt (Nat.lt_of_le_of_lt hle hj)]
    exact hle

/-- The erasure of `j`, when `counter` are done, is at a position of both vectors. -/
structure Within (j counter : Nat) (futures threads : List Nat) : Prop where
  le : counter ≤ j
  futures : j - counter < futures.length
  threads : j - counter < threads.length

/-- Where all erasures are done, the first of them are, and the next one is within the vectors that
they leave. -/
theorem erase_append {first rest : List Nat} {j : Nat} {futures threads : List Nat}
    {result : List Nat × List Nat}
    (h : erase (first ++ j :: rest) 0 futures threads = some result) :
    ∃ futures' threads', erase first 0 futures threads = some (futures', threads') ∧
      Within j first.length futures' threads' := by
  rw [erase_eq] at h
  obtain ⟨_, hfutures, h⟩ := Option.bind_eq_some_iff.mp h
  obtain ⟨_, hthreads, _⟩ := Option.map_eq_some_iff.mp h
  obtain ⟨futures', hfutures', hle, hlt⟩ := eraseAll_append hfutures
  obtain ⟨threads', hthreads', _, hlt'⟩ := eraseAll_append hthreads
  rw [Nat.zero_add] at hle hlt hlt'
  refine ⟨futures', threads', ?_, hle, hlt, hlt'⟩
  rw [erase_eq, hfutures', hthreads']
  rfl

/-- The erasing loop leaves the two vectors with the elements at the indices whose handlers are not
done, in their order, of one length and paired as they were; and each erasure is at a position of
both vectors, which the arithmetic of the loop computes where its counter can count them. -/
structure ErasesExactly (done : Nat → Bool) (futures threads : List Nat) : Prop where
  left : erase (scan done futures.length) 0 futures threads =
    some (keep (fun i => !done i) futures, keep (fun i => !done i) threads)
  length : (keep (fun i => !done i) futures).length = (keep (fun i => !done i) threads).length
  paired : (keep (fun i => !done i) futures).zip (keep (fun i => !done i) threads) =
    keep (fun i => !done i) (futures.zip threads)
  within : ∀ first j rest, scan done futures.length = first ++ j :: rest →
    ∃ futures' threads', erase first 0 futures threads = some (futures', threads') ∧
      Within j first.length futures' threads'
  position : futures.length < 2 ^ 31 → ∀ first j rest,
    scan done futures.length = first ++ j :: rest →
      (erasePosition (.ofNat 32 j) (.ofNat 32 first.length)).toNat = j - first.length

/-- Reaping erases exactly the handlers that are done, from any vectors of one length and whatever
the tests of the scan give. -/
theorem erase_exact (done : Nat → Bool) {futures threads : List Nat}
    (hlength : futures.length = threads.length) : ErasesExactly done futures threads := by
  have herase := erase_scan done hlength
  have hwithin (first : List Nat) (j : Nat) (rest : List Nat)
      (hscan : scan done futures.length = first ++ j :: rest) :
      ∃ futures' threads', erase first 0 futures threads = some (futures', threads') ∧
        Within j first.length futures' threads' := by
    rw [hscan] at herase
    exact erase_append herase
  refine ⟨herase, length_keepFrom 0 _ hlength, keepFrom_zip 0 _ futures threads, hwithin,
    fun hbound first j rest hscan => ?_⟩
  obtain ⟨_, _, _, hposition⟩ := hwithin first j rest hscan
  have hj : j ∈ scan done futures.length := by
    rw [hscan]
    exact List.mem_append_right _ (List.mem_cons_self ..)
  have hlt : j < futures.length := List.mem_range.mp (List.mem_filter.mp hj).1
  exact toNat_erasePosition hposition.le (by omega)

/-- The first and the third of four handlers are done. -/
theorem erase_exact_first_third :
    ErasesExactly (fun i => i == 0 || i == 2) [10, 11, 12, 13] [20, 21, 22, 23] ∧
      keep (fun i => !(i == 0 || i == 2)) [10, 11, 12, 13] = [11, 13] :=
  ⟨erase_exact (fun i => i == 0 || i == 2) (by rfl), by rfl⟩

/-- A step of the accept loop that reaps erases so, where its vectors are of one length. -/
theorem step_reap_of_length {loop : AcceptLoop}
    (hlength : loop.futures.length = loop.threads.length) :
    loop.step .reap = some { loop with
      futures := keep (fun i => !loop.isDone i) loop.futures
      threads := keep (fun i => !loop.isDone i) loop.threads
      joined := loop.joined ++ keep loop.isDone loop.threads } := by
  have hjoined : (scan loop.isDone loop.futures.length).filterMap (loop.threads[·]?) =
      keep loop.isDone loop.threads := by
    rw [hlength]
    exact filterMap_scan loop.isDone loop.threads
  simp only [step, erase_scan loop.isDone hlength, hjoined]
  rfl

/-- A step leaves the vectors of one length. -/
theorem length_eq_of_step {before after : AcceptLoop} {action : Action}
    (hstep : before.step action = some after)
    (hlength : before.futures.length = before.threads.length) :
    after.futures.length = after.threads.length := by
  cases action with
  | accept =>
      obtain rfl := Option.some.inj hstep
      simpa using hlength
  | finish handler =>
      obtain ⟨_, hstep⟩ := Option.ite_none_right_eq_some.mp hstep
      obtain rfl := Option.some.inj hstep
      exact hlength
  | reap =>
      obtain rfl := Option.some.inj ((step_reap_of_length hlength).symm.trans hstep)
      exact length_keepFrom 0 (fun i => !before.isDone i) hlength

/-- The vectors are of one length in every run of the accept loop. -/
theorem length_eq_of_run {events : List (Event AcceptLoop Action)} {finish : AcceptLoop}
    (hrun : Run step start events finish) : finish.futures.length = finish.threads.length :=
  (hrun.invariant (fun loop => loop.futures.length = loop.threads.length) rfl
    fun _ _ hstep hlength => length_eq_of_step hstep hlength).1

end AcceptLoop

end Wheespa
