import Mathlib.Data.List.Perm.Subperm
import Wheespa.Server.AcceptLoop

/-!
# Joining every thread

The loop of `start` joins the threads whose flag is set, and the destructor of `WheespaServer` joins
those that are left in `m_threads`. A thread that is joined a second time throws. Whichever flags
the handlers set, every thread that was started is joined exactly once.
-/

namespace Wheespa

open Transition Erasure

namespace AcceptLoop

/-- `th.join()`, or `none` where it throws, because the thread has been joined. -/
def join (joined : List Nat) (thread : Nat) : Option (List Nat) :=
  if thread ∈ joined then none else some (joined ++ [thread])

/-- The joins of `~WheespaServer`, or `none` where one of them throws. -/
def destroy (loop : AcceptLoop) : Option AcceptLoop :=
  (loop.threads.foldlM join loop.joined).map fun joined => { loop with joined }

/-- The addresses of the flags that are set. -/
def flagged (flags : List Bool) : List Nat :=
  (List.range flags.length).filter fun address => flags[address]? == some true

/-- What holds of the threads whichever flags the handlers set: each is in the vector or has been
joined, and no more flags are set than handlers have finished. -/
structure Tracked (loop : AcceptLoop) : Prop where
  paired : loop.futures = loop.threads
  started : (loop.threads ++ loop.joined).Perm (List.range loop.flags.length)
  joined : ∀ thread ∈ loop.joined, loop.flags[thread]? = some true
  flagged : (flagged loop.flags).length ≤ loop.finished.length

/-- Each thread that was started is in the vector or has been joined, but once, and no more threads
have been joined than handlers have finished. -/
structure JoinedOnce (loop : AcceptLoop) : Prop where
  started : (loop.threads ++ loop.joined).Perm (List.range loop.flags.length)
  bounded : loop.joined.length ≤ loop.finished.length

/-- Threads that are different from one another and from those that have been joined are joined
without a throw. -/
theorem foldlM_join {threads joined : List Nat} (h : (threads ++ joined).Nodup) :
    threads.foldlM join joined = some (joined ++ threads) := by
  induction threads generalizing joined with
  | nil => simp
  | cons thread threads ih =>
      rw [List.cons_append, List.nodup_cons, List.mem_append, not_or] at h
      obtain ⟨⟨hother, hunjoined⟩, hrest⟩ := h
      have hnodup : (threads ++ (joined ++ [thread])).Nodup := by
        have hperm : (thread :: (threads ++ joined)).Perm (threads ++ (joined ++ [thread])) := by
          rw [← List.append_assoc]
          exact (List.perm_append_singleton _ _).symm
        refine hperm.nodup (List.nodup_cons.mpr ⟨?_, hrest⟩)
        rw [List.mem_append, not_or]
        exact ⟨hother, hunjoined⟩
      rw [List.foldlM_cons, join, if_neg hunjoined]
      show threads.foldlM join (joined ++ [thread]) = _
      rw [ih hnodup, List.append_assoc]
      rfl

theorem mem_flagged {flags : List Bool} {address : Nat} :
    address ∈ flagged flags ↔ flags[address]? = some true := by
  rw [flagged, List.mem_filter, List.mem_range, beq_iff_eq]
  exact ⟨And.right, fun h => ⟨(List.getElem?_eq_some_iff.mp h).1, h⟩⟩

theorem nodup_flagged (flags : List Bool) : (flagged flags).Nodup :=
  List.nodup_range.filter _

/-- A new flag is not set. -/
theorem length_flagged_append (flags : List Bool) :
    (flagged (flags ++ [false])).length ≤ (flagged flags).length := by
  refine ((nodup_flagged _).subperm ?_).length_le
  intro address haddress
  rw [mem_flagged] at haddress ⊢
  by_cases hlt : address < flags.length
  · rwa [List.getElem?_append_left hlt] at haddress
  · rw [List.getElem?_append_right (by omega)] at haddress
    cases hindex : address - flags.length with
    | zero => simp [hindex] at haddress
    | succ n => simp [hindex] at haddress

/-- One more flag is set. -/
theorem length_flagged_set (flags : List Bool) (address : Nat) :
    (flagged (flags.set address true)).length ≤ (flagged flags).length + 1 := by
  have hsubset : flagged (flags.set address true) ⊆ address :: flagged flags := by
    intro other hother
    rw [mem_flagged, List.getElem?_set] at hother
    split at hother
    · next heq =>
        rw [heq]
        exact List.mem_cons_self
    · exact List.mem_cons_of_mem _ (mem_flagged.mpr hother)
  exact ((nodup_flagged _).subperm hsubset).length_le

/-- A flag that is set stays set. -/
theorem getElem?_set_true {flags : List Bool} {thread : Nat} (h : flags[thread]? = some true)
    (address : Nat) : (flags.set address true)[thread]? = some true := by
  rw [List.getElem?_set]
  split
  · next heq => rw [heq, if_pos (List.getElem?_eq_some_iff.mp h).1]
  · exact h

/-- The threads are tracked before any connection. -/
theorem tracked_start : start.Tracked :=
  ⟨rfl, by simp [start], by simp [start], by simp [start, flagged]⟩

/-- The threads that are in the vector or have been joined are different. -/
theorem Tracked.nodup {loop : AcceptLoop} (h : loop.Tracked) :
    (loop.threads ++ loop.joined).Nodup :=
  h.started.nodup_iff.mpr List.nodup_range

/-- Tracked threads are joined once. -/
theorem Tracked.joinedOnce {loop : AcceptLoop} (h : loop.Tracked) : loop.JoinedOnce := by
  have hnodup : loop.joined.Nodup := (List.nodup_append.mp h.nodup).2.1
  have hsubset : loop.joined ⊆ AcceptLoop.flagged loop.flags := fun thread hthread =>
    mem_flagged.mpr (h.joined thread hthread)
  have hjoined := (hnodup.subperm hsubset).length_le
  have hflagged := h.flagged
  exact ⟨h.started, by omega⟩

/-- Accepting keeps the threads tracked. -/
theorem Tracked.accept {before after : AcceptLoop} (hstep : before.step .accept = some after)
    (h : before.Tracked) : after.Tracked := by
  obtain rfl := Option.some.inj hstep
  constructor
  · show before.futures ++ _ = before.threads ++ _
    rw [h.paired]
  · show ((before.threads ++ [before.flags.length]) ++ before.joined).Perm
      (List.range (before.flags ++ [false]).length)
    rw [List.length_append, List.length_singleton, List.range_succ, List.append_assoc]
    have hswap := @List.perm_append_comm _ [before.flags.length] before.joined
    have hperm := (List.Perm.append_left before.threads hswap)
    rw [← List.append_assoc before.threads before.joined] at hperm
    exact hperm.trans (h.started.append_right _)
  · intro thread hthread
    have hset := h.joined thread hthread
    have hlt := (List.getElem?_eq_some_iff.mp hset).1
    show (before.flags ++ [false])[thread]? = some true
    rwa [List.getElem?_append_left hlt]
  · exact Nat.le_trans (length_flagged_append _) h.flagged

/-- A handler that finishes keeps the threads tracked, whichever flag it sets. -/
theorem Tracked.finish {before after : AcceptLoop} {handler : Nat}
    (hstep : before.step (.finish handler) = some after) (h : before.Tracked) :
    after.Tracked := by
  obtain ⟨_, hstep⟩ := Option.ite_none_right_eq_some.mp hstep
  obtain rfl := Option.some.inj hstep
  have hflagged := h.flagged
  cases before.ab with
  | none =>
      refine ⟨h.paired, h.started, h.joined, ?_⟩
      show (AcceptLoop.flagged before.flags).length ≤ (before.finished ++ [handler]).length
      rw [List.length_append]
      omega
  | some address =>
      refine ⟨h.paired, ?_, fun thread hthread => getElem?_set_true (h.joined thread hthread) _, ?_⟩
      · show (before.threads ++ before.joined).Perm
          (List.range (before.flags.set address true).length)
        rw [List.length_set]
        exact h.started
      · have hone := length_flagged_set before.flags address
        show (AcceptLoop.flagged (before.flags.set address true)).length ≤
          (before.finished ++ [handler]).length
        rw [List.length_append, List.length_singleton]
        omega

/-- Reaping keeps the threads tracked. -/
theorem Tracked.reap {before after : AcceptLoop} (hstep : before.step .reap = some after)
    (h : before.Tracked) : after.Tracked := by
  rw [step_reap h.paired] at hstep
  obtain rfl := Option.some.inj hstep
  refine ⟨rfl, ?_, ?_, h.flagged⟩
  · have hsplit := List.filter_append_perm before.isReady before.threads
    show ((before.threads.filter fun thread => !before.isReady thread) ++
      (before.joined ++ before.threads.filter before.isReady)).Perm _
    refine .trans ?_ h.started
    rw [← List.append_assoc]
    refine List.perm_append_comm.trans ?_
    rw [← List.append_assoc]
    exact hsplit.append_right _
  · intro thread hthread
    rcases List.mem_append.mp hthread with hold | hnew
    · exact h.joined thread hold
    · have hready := (List.mem_filter.mp hnew).2
      simp only [isReady, Bool.and_eq_true, beq_iff_eq] at hready
      exact hready.1

/-- A step keeps the threads tracked. -/
theorem Tracked.step {before after : AcceptLoop} {action : Action}
    (hstep : before.step action = some after) (h : before.Tracked) : after.Tracked := by
  cases action with
  | accept => exact h.accept hstep
  | finish handler => exact h.finish hstep
  | reap => exact h.reap hstep

/-- In every run of the loop and its handlers, whichever flags the handlers set, each thread is in
the vector or joined, but once, no more are joined than have finished, and the destructor joins each
thread that is left once. -/
theorem joinedOnce_of_run {events : List (Event AcceptLoop Action)} {finish : AcceptLoop}
    (hrun : Run step start events finish) :
    (∀ event ∈ events, event.after.JoinedOnce) ∧
      ∃ last, finish.destroy = some last ∧ last.joined.Perm (List.range finish.flags.length) := by
  obtain ⟨hfinish, htracked⟩ := hrun.invariant Tracked tracked_start fun _ _ hstep h => h.step hstep
  refine ⟨fun event hevent => (htracked event hevent).2.joinedOnce,
    { finish with joined := finish.joined ++ finish.threads }, ?_, ?_⟩
  · rw [destroy, foldlM_join hfinish.nodup]
    rfl
  · exact List.perm_append_comm.trans hfinish.started

/-- The first of two handlers sets the flag of the second; the destructor joins the first. -/
theorem joinedOnce_crossed : ∃ events finish, Run step start events finish ∧
    events.map Event.action = [.accept, .accept, .finish 0, .reap] ∧
    (∀ event ∈ events, event.after.JoinedOnce) ∧
    ∃ last, finish.destroy = some last ∧ last.joined.Perm (List.range finish.flags.length) := by
  obtain ⟨events, finish, hrun, hactions, _⟩ := Run.exists_of_trace step start
    [.accept, .accept, .finish 0, .reap] (fun _ => True) (by decide)
  obtain ⟨honce, hlast⟩ := joinedOnce_of_run hrun
  exact ⟨events, finish, hrun, hactions, honce, hlast⟩

end AcceptLoop

end Wheespa
