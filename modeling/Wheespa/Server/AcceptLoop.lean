import Wheespa.Library.Erasure
import Wheespa.Library.Transition

/-!
# The accept loop and its handler threads

The loop of `start` in `wheespa_server.cc`: it joins and erases the handlers whose flag is set, and
accepts a connection, for which it allocates a flag and starts a thread. The thread captures the
variable `ab` by reference, so when its handler finishes it sets the flag that `ab` then points to.

Flags and threads are named by the number of the `accept` that made them. `exact_iff_own` is the
main result: the loop joins finished handlers only, and all of them, exactly as long as every
handler finishes before the next connection is accepted.
-/

namespace Wheespa

open Transition Erasure

/-- The variables of the loop: the flags by address, `ab`, `m_futures` and `m_threads`; with the
handlers that have finished and the threads that have been joined. -/
structure AcceptLoop where
  flags : List Bool
  ab : Option Nat
  futures : List Nat
  threads : List Nat
  finished : List Nat
  joined : List Nat
  deriving DecidableEq

namespace AcceptLoop

/-- A connection is accepted; the handler of a number comes to its end; or the loop joins and erases
what is done. -/
inductive Action where
  | accept
  | finish (handler : Nat)
  | reap
  deriving DecidableEq

/-- No connection has been accepted, and `ab` is not assigned. -/
def start : AcceptLoop :=
  ⟨[], none, [], [], [], []⟩

/-- The test `*m_futures[i] == true && m_threads[i].joinable()`. -/
def isDone (loop : AcceptLoop) (i : Nat) : Bool :=
  (loop.futures[i]?.bind fun address => loop.flags[address]?) == some true &&
    loop.threads[i]?.any fun thread => !loop.joined.contains thread

/-- The loop over `to_erase`, or `none` where it erases past the end of a vector. -/
def erase : List Nat → Nat → List Nat → List Nat → Option (List Nat × List Nat)
  | [], _, futures, threads => some (futures, threads)
  | j :: rest, counter, futures, threads =>
      if counter ≤ j ∧ j - counter < futures.length ∧ j - counter < threads.length then
        erase rest (counter + 1) (futures.eraseIdx (j - counter)) (threads.eraseIdx (j - counter))
      else none

/-- One step. A handler that has not been started, or has finished, does not finish. -/
def step (loop : AcceptLoop) : Action → Option AcceptLoop
  | .accept =>
      let address := loop.flags.length
      some { loop with
        flags := loop.flags ++ [false]
        ab := some address
        futures := loop.futures ++ [address]
        threads := loop.threads ++ [address] }
  | .finish handler =>
      if handler < loop.flags.length ∧ handler ∉ loop.finished then
        -- a handler holds `ab` by reference: it sets the flag that `ab` points to by now
        let flags := match loop.ab with
          | some address => loop.flags.set address true
          | none => loop.flags
        some { loop with flags, finished := loop.finished ++ [handler] }
      else none
  | .reap => do
      let toErase := scan loop.isDone loop.futures.length
      let (futures, threads) ← erase toErase 0 loop.futures loop.threads
      some { loop with
        futures
        threads
        joined := loop.joined ++ toErase.filterMap (loop.threads[·]?) }

/-- The two vectors are erased from at the same positions. -/
theorem erase_eq (toErase : List Nat) (counter : Nat) (futures threads : List Nat) :
    erase toErase counter futures threads =
      (eraseAll toErase counter futures).bind fun futures =>
        (eraseAll toErase counter threads).map fun threads => (futures, threads) := by
  induction toErase generalizing counter futures threads with
  | nil => rfl
  | cons j rest ih =>
      rw [erase, eraseAll, eraseAll, ih]
      by_cases hfutures : counter ≤ j ∧ j - counter < futures.length
      · by_cases hthreads : counter ≤ j ∧ j - counter < threads.length
        · rw [if_pos ⟨hfutures.1, hfutures.2, hthreads.2⟩, if_pos hfutures, if_pos hthreads]
        · rw [if_neg fun h => hthreads ⟨h.1, h.2.2⟩, if_neg hthreads]
          simp
      · rw [if_neg fun h => hfutures ⟨h.1, h.2.1⟩, if_neg hfutures]
        rfl

/-- The erasures leave the elements at the other indices. -/
theorem erase_scan (done : Nat → Bool) {futures threads : List Nat}
    (hlength : futures.length = threads.length) :
    erase (scan done futures.length) 0 futures threads =
      some (keep (fun i => !done i) futures, keep (fun i => !done i) threads) := by
  rw [erase_eq, eraseAll_scan, Option.bind_some, hlength, eraseAll_scan]
  rfl

/-- The flag of the thread is set, and it has not been joined. -/
def isReady (loop : AcceptLoop) (thread : Nat) : Bool :=
  loop.flags[thread]? == some true && !loop.joined.contains thread

/-- Where the vectors are paired, a reaping step joins and erases the threads that are ready. -/
theorem step_reap {loop : AcceptLoop} (h : loop.futures = loop.threads) :
    loop.step .reap = some { loop with
      futures := loop.threads.filter fun thread => !loop.isReady thread
      threads := loop.threads.filter fun thread => !loop.isReady thread
      joined := loop.joined ++ loop.threads.filter loop.isReady } := by
  have hdone (i thread : Nat) (hthread : loop.threads[i]? = some thread) :
      loop.isDone i = loop.isReady thread := by
    simp [isDone, isReady, h, hthread]
  have hkeep (p : Bool → Bool) : keep (fun i => p (loop.isDone i)) loop.threads =
      loop.threads.filter fun thread => p (loop.isReady thread) := by
    refine keepFrom_eq_filter fun i thread hthread => ?_
    rw [Nat.zero_add, hdone i thread hthread]
  simp only [step, h, erase_scan loop.isDone rfl, filterMap_scan, hkeep fun done => !done]
  rw [show keep loop.isDone loop.threads = loop.threads.filter loop.isReady from hkeep id]
  rfl

/-- What the loop relies on: each thread has the flag of its own number, the flags that are set are
those of the finished handlers, and only finished handlers have been joined, which are erased. -/
structure Sound (loop : AcceptLoop) : Prop where
  paired : loop.futures = loop.threads
  known : ∀ handler, handler < loop.flags.length ↔
    handler ∈ loop.threads ∨ handler ∈ loop.joined
  apart : ∀ handler ∈ loop.threads, handler ∉ loop.joined
  flags : ∀ handler, loop.flags[handler]? = some true ↔ handler ∈ loop.finished
  joined : ∀ handler ∈ loop.joined, handler ∈ loop.finished

/-- The loop has joined finished handlers only, and the flag of each finished handler is set. -/
structure Settled (loop : AcceptLoop) : Prop where
  joined : ∀ handler ∈ loop.joined, handler ∈ loop.finished
  flagged : ∀ handler ∈ loop.finished, loop.flags[handler]? = some true

/-- A step leaves the loop settled, and a reaping step joins every finished handler. -/
structure Exact (event : Event AcceptLoop Action) : Prop where
  settled : event.after.Settled
  reaped : event.action = .reap →
    ∀ handler ∈ event.before.finished,
      handler ∈ event.after.joined ∧ handler ∉ event.after.threads

/-- A handler that finishes is the one that was accepted last. -/
def Own (loop : AcceptLoop) : Action → Prop
  | .finish handler => loop.ab = some handler
  | .accept | .reap => True

instance (loop : AcceptLoop) (action : Action) : Decidable (loop.Own action) :=
  match action with
  | .finish handler => inferInstanceAs (Decidable (loop.ab = some handler))
  | .accept | .reap => .isTrue trivial

/-- The loop is sound before any connection. -/
theorem sound_start : start.Sound :=
  ⟨rfl, by simp [start], by simp [start], by simp [start], by simp [start]⟩

/-- A sound loop is settled. -/
theorem Sound.settled {loop : AcceptLoop} (h : loop.Sound) : loop.Settled :=
  ⟨h.joined, fun handler => (h.flags handler).mpr⟩

/-- A finished handler was accepted. -/
theorem Sound.lt_of_finished {loop : AcceptLoop} (h : loop.Sound) {handler : Nat}
    (hfinished : handler ∈ loop.finished) : handler < loop.flags.length :=
  (List.getElem?_eq_some_iff.mp ((h.flags handler).mpr hfinished)).1

/-- Accepting keeps the loop sound. -/
theorem Sound.accept {before after : AcceptLoop} (hstep : before.step .accept = some after)
    (h : before.Sound) : after.Sound := by
  obtain rfl := Option.some.inj hstep
  constructor
  · show before.futures ++ _ = before.threads ++ _
    rw [h.paired]
  · intro handler
    have hknown := h.known handler
    simp only [List.length_append, List.length_singleton, List.mem_append, List.mem_singleton]
    rw [or_right_comm, ← hknown]
    omega
  · intro handler hthread
    rcases List.mem_append.mp hthread with hold | hnew
    · exact h.apart handler hold
    · obtain rfl := List.mem_singleton.mp hnew
      exact fun hjoined => absurd ((h.known _).mpr (.inr hjoined)) (Nat.lt_irrefl _)
  · intro handler
    have hflags := h.flags handler
    show (before.flags ++ [false])[handler]? = some true ↔ handler ∈ before.finished
    by_cases hlt : handler < before.flags.length
    · rwa [List.getElem?_append_left hlt]
    · -- the new flag is not set, and nothing that finished has its number
      refine iff_of_false ?_ fun hfinished => hlt (h.lt_of_finished hfinished)
      rw [List.getElem?_append_right (by omega)]
      cases handler - before.flags.length <;> simp
  · exact h.joined

/-- A handler that sets its own flag keeps the loop sound. -/
theorem Sound.finish {before after : AcceptLoop} {handler : Nat}
    (hstep : before.step (.finish handler) = some after) (h : before.Sound)
    (hown : before.Own (.finish handler)) : after.Sound := by
  obtain ⟨⟨hlt, _⟩, hstep⟩ := Option.ite_none_right_eq_some.mp hstep
  obtain rfl := Option.some.inj hstep
  have hab : before.ab = some handler := hown
  simp only [hab]
  constructor
  · exact h.paired
  · intro other
    rw [List.length_set]
    exact h.known other
  · exact h.apart
  · intro other
    rw [List.getElem?_set, List.mem_append, List.mem_singleton, ← h.flags other]
    by_cases heq : handler = other
    · subst heq
      simp [hlt]
    · simp [heq, Ne.symm heq]
  · intro other hother
    exact List.mem_append_left _ (h.joined other hother)

/-- Reaping keeps the loop sound. -/
theorem Sound.reap {before after : AcceptLoop} (hstep : before.step .reap = some after)
    (h : before.Sound) : after.Sound := by
  rw [step_reap h.paired] at hstep
  obtain rfl := Option.some.inj hstep
  constructor
  · rfl
  · intro handler
    rw [h.known handler]
    simp only [List.mem_filter, List.mem_append]
    cases hready : before.isReady handler with
    | true => simp only [and_true, Bool.not_true, Bool.false_eq_true, and_false, false_or]; tauto
    | false => simp
  · intro handler hthread
    obtain ⟨hthread, hready⟩ := List.mem_filter.mp hthread
    rw [List.mem_append, List.mem_filter, not_or]
    exact ⟨h.apart handler hthread, fun hnew => by simp [hnew.2] at hready⟩
  · exact h.flags
  · intro handler hjoined
    rcases List.mem_append.mp hjoined with hold | hnew
    · exact h.joined handler hold
    · have hready := (List.mem_filter.mp hnew).2
      simp only [isReady, Bool.and_eq_true, beq_iff_eq] at hready
      exact (h.flags handler).mp hready.1

/-- A step whose handler sets its own flag keeps the loop sound. -/
theorem Sound.step {before after : AcceptLoop} {action : Action}
    (hstep : before.step action = some after) (h : before.Sound) (hown : before.Own action) :
    after.Sound := by
  cases action with
  | accept => exact h.accept hstep
  | finish handler => exact h.finish hstep hown
  | reap => exact h.reap hstep

/-- A step from a sound loop leads to a settled one exactly when a handler that finishes sets its
own flag. -/
theorem settled_iff_own {before after : AcceptLoop} {action : Action}
    (hstep : before.step action = some after) (h : before.Sound) :
    after.Settled ↔ before.Own action := by
  constructor
  · intro hafter
    cases action with
    | finish handler =>
        obtain ⟨⟨_, hunfinished⟩, hstep⟩ := Option.ite_none_right_eq_some.mp hstep
        obtain rfl := Option.some.inj hstep
        have hflag := hafter.flagged handler (by simp)
        have hunset : before.flags[handler]? ≠ some true := fun hset =>
          hunfinished ((h.flags handler).mp hset)
        show before.ab = some handler
        cases hab : before.ab with
        | none => simp only [hab] at hflag; exact absurd hflag hunset
        | some address =>
            simp only [hab, List.getElem?_set] at hflag
            split at hflag
            · next heq => rw [heq]
            · exact absurd hflag hunset
    | accept | reap => trivial
  · intro hown
    exact (h.step hstep hown).settled

/-- Reaping a sound loop joins and erases every finished handler. -/
theorem Sound.reaped {before after : AcceptLoop} (hstep : before.step .reap = some after)
    (h : before.Sound) {handler : Nat} (hfinished : handler ∈ before.finished) :
    handler ∈ after.joined ∧ handler ∉ after.threads := by
  have hset := (h.flags handler).mpr hfinished
  have hknown := (h.known handler).mp (h.lt_of_finished hfinished)
  rw [step_reap h.paired] at hstep
  obtain rfl := Option.some.inj hstep
  simp only [List.mem_append, List.mem_filter, isReady, hset, beq_self_eq_true, Bool.true_and]
  by_cases hjoined : handler ∈ before.joined
  · have hthread : handler ∉ before.threads := fun hthread => h.apart handler hthread hjoined
    simp [hjoined, hthread]
  · have hthread := hknown.resolve_right hjoined
    simp [hjoined, hthread]

/-- In every run of the loop and its handlers, each step leaves only finished handlers joined and
every finished handler flagged, and each reaping step joins all of them, exactly when every handler
that finishes is the one accepted last. -/
theorem exact_iff_own {events : List (Event AcceptLoop Action)} {finish : AcceptLoop}
    (hrun : Run step start events finish) :
    (∀ event ∈ events, Exact event) ↔ ∀ event ∈ events, event.before.Own event.action := by
  have hsettled := hrun.goal_iff Sound sound_start (fun _ _ _ => settled_iff_own)
    fun _ _ _ hstep h hafter => h.step hstep ((settled_iff_own hstep h).mp hafter)
  constructor
  · intro hexact
    exact hsettled.mp fun event hevent => (hexact event hevent).settled
  · intro hown event hevent
    have hsound := hrun.invariant Sound sound_start fun event hevent hstep h =>
      h.step hstep (hown event hevent)
    refine ⟨hsettled.mpr hown event hevent, fun hreap handler hfinished => ?_⟩
    have hstep := hrun.step_eq hevent
    rw [hreap] at hstep
    exact (hsound.2 event hevent).1.reaped hstep hfinished

/-- Connections that are handled one after the other. -/
theorem exact_one_by_one : ∃ events finish, Run step start events finish ∧
    events.map Event.action = [.accept, .finish 0, .reap, .accept, .finish 1, .reap] ∧
    ∀ event ∈ events, Exact event := by
  obtain ⟨events, finish, hrun, hactions, hown⟩ := Run.exists_of_trace step start
    [.accept, .finish 0, .reap, .accept, .finish 1, .reap]
    (fun event => event.before.Own event.action) (by decide)
  exact ⟨events, finish, hrun, hactions, (exact_iff_own hrun).mpr hown⟩

/-- The first of two handlers finishes while the second is at work: it sets the flag of the second,
and reaping joins the second and leaves the first. -/
theorem joins_live_handler : ∃ events finish, Run step start events finish ∧
    events.map Event.action = [.accept, .accept, .finish 0, .reap] ∧
    ∃ event ∈ events, ¬ Exact event ∧ event.action = .reap ∧
      event.after.finished = [0] ∧ event.after.joined = [1] := by
  obtain ⟨events, finish, hrun, hactions, hreap⟩ := Run.exists_of_trace step start
    [.accept, .accept, .finish 0, .reap]
    (fun event => event.action = .reap → event.after.finished = [0] ∧ event.after.joined = [1])
    (by decide)
  obtain ⟨event, hevent, haction⟩ : ∃ event ∈ events, event.action = .reap := by
    rw [← List.mem_map, hactions]
    decide
  obtain ⟨hfinished, hjoined⟩ := hreap event hevent haction
  refine ⟨events, finish, hrun, hactions, event, hevent, fun hexact => ?_, haction, hfinished,
    hjoined⟩
  have hmem := hexact.settled.joined 1 (by rw [hjoined]; decide)
  rw [hfinished] at hmem
  exact absurd hmem (by decide)

end AcceptLoop

end Wheespa
