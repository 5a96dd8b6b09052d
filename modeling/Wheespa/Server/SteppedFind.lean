import Wheespa.BinaryTree.FindWalk
import Wheespa.Library.Simulation
import Wheespa.Server.FindInsert

/-!
# The handlers with `find` step by step

`Handlers` takes a `find` as one step. Here a handler is in its `find` for as many steps as the walk
has reads, and all the other steps come in between. `stepped_simulates` says that every run of these
handlers is one of `Handlers`, where the last read of a walk is its `find`, as long as no insertion
takes over a node of a walk with a datum that fails what the walk has compared there or that would
have turned it to the other side. One live node per key there is all the same exactly if each
insertion finds its key absent (`exclusive_stepped`).
-/

namespace Wheespa

open Transition

universe u v

/-- Where a handler stands: in a call of `find`, or where `Handlers` has it. -/
inductive SteppedPhase (δ : Type u) where
  | settled (phase : HandlerPhase δ)
  | finding (data : δ) (disconnect : Bool) (self : Finding)
  deriving DecidableEq, Repr

/-- A handler in its walk has not made its `find` yet. -/
def SteppedPhase.forget {δ : Type u} : SteppedPhase δ → HandlerPhase δ
  | .settled phase => phase
  | .finding .. => .reading

/-- The tree, the handlers by number, and whether a null pointer has been dereferenced. -/
structure SteppedHandlers (δ : Type u) where
  tree : BinarySearchTree δ
  phase : Nat → SteppedPhase δ
  faulted : Bool

namespace SteppedHandlers

variable {δ : Type u} {κ : Type v}

/-- A handler calls `find`; it makes the next read of its walk; or there is a step of `Handlers`
that is not a `find`. -/
inductive Action (δ : Type u) where
  | find (handler : Nat) (data : δ) (disconnect : Bool)
  | read (handler : Nat)
  | check (handler : Nat)
  | update (handler : Nat)
  | mark (path : Path)

/-- No handler has looked a key up yet. -/
def start : SteppedHandlers δ :=
  ⟨.empty, fun _ => .settled .reading, false⟩

/-- The handlers with walks left out. -/
def forget (handlers : SteppedHandlers δ) : Handlers δ :=
  ⟨handlers.tree, fun handler => (handlers.phase handler).forget, handlers.faulted⟩

variable [LinearOrder κ] [Keyed δ κ]

/-- Where a handler stands after a read of its walk. -/
def walked (data : δ) (disconnect : Bool) : Finding → SteppedPhase δ
  | .returned none => .settled (.inserting data)
  | .returned (some path) => .settled (.found data disconnect path)
  | self => .finding data disconnect self

/-- A step of `Handlers` by a handler that is not in its walk. -/
def settledStep (handlers : SteppedHandlers δ) (handler : Nat) (action : Handlers.Action δ) :
    Option (SteppedHandlers δ) :=
  (handlers.forget.step action).map fun after =>
    ⟨after.tree, Function.update handlers.phase handler (.settled (after.phase handler)),
      after.faulted⟩

/-- One step. Nothing follows a dereferenced null pointer. -/
def step (handlers : SteppedHandlers δ) : Action δ → Option (SteppedHandlers δ)
  | .find handler data disconnect =>
      match handlers.faulted, handlers.phase handler with
      | false, .settled .reading =>
          let self := Finding.called []
          let phase := Function.update handlers.phase handler (.finding data disconnect self)
          some { handlers with phase }
      | _, _ => none
  | .read handler =>
      match handlers.faulted, handlers.phase handler with
      | false, .finding data disconnect self => do
          let (tree, self) ← handlers.tree.findStep (key data) self
          let phase := Function.update handlers.phase handler (walked data disconnect self)
          some { handlers with tree, phase }
      | _, _ => none
  | .check handler => handlers.settledStep handler (.check handler)
  | .update handler => handlers.settledStep handler (.update handler)
  | .mark path =>
      (handlers.forget.step (.mark path)).map fun after => { handlers with tree := after.tree }

/-- The step of `Handlers` that a transition stands for: the last read of a walk is its `find`. -/
def label (event : Event (SteppedHandlers δ) (Action δ)) : Option (Handlers.Action δ) :=
  match event.action with
  | .find .. => none
  | .read handler =>
      match event.before.phase handler, event.after.phase handler with
      | .finding data disconnect _, .settled _ => some (.find handler data disconnect)
      | _, _ => none
  | .check handler => some (.check handler)
  | .update handler => some (.update handler)
  | .mark path => some (.mark path)

/-- Where the insertion of the datum takes over a node of a walk, the datum is as the walk has shown
the one there to be, and turns the walk to the side it has gone to. -/
def KeepsWalks (handlers : SteppedHandlers δ) (inserted : δ) : Prop :=
  ∀ handler data disconnect self, handlers.phase handler = .finding data disconnect self →
    self.KeepsNode (key data) (handlers.tree.node.placeAt inserted) inserted ∧
      self.KeepsWay (key data) (handlers.tree.node.placeAt inserted) inserted

/-- What a step inserts keeps the walks. -/
def Keeps (handlers : SteppedHandlers δ) : Action δ → Prop
  | .update handler => ∀ inserted, handlers.phase handler = .settled (.inserting inserted) →
      handlers.KeepsWalks inserted
  | .find .. | .read _ | .check _ | .mark _ => True

/-- What every walk has compared holds, and it has followed its way. -/
def OnWay (handlers : SteppedHandlers δ) : Prop :=
  ∀ handler data disconnect self, handlers.phase handler = .finding data disconnect self →
    handlers.tree.Tested (key data) self ∧ handlers.tree.OnWay (key data) self

/-- What a step of `Handlers` does to the tree is an operation, and an insertion is one of a handler
that is about to insert. -/
theorem operate_of_step {before after : Handlers δ} {action : Handlers.Action δ}
    (h : before.step action = some after) :
    after.tree = before.tree ∨ ∃ operation : History.Operation δ κ,
      before.tree.operate operation = some after.tree ∧
        ∀ data, operation = .insert data →
          ∃ handler, action = .update handler ∧ before.phase handler = .inserting data := by
  cases action with
  | find handler data disconnect =>
      simp only [Handlers.step] at h
      split at h
      · obtain rfl := Option.some.inj h
        exact .inl rfl
      · simp at h
  | check handler =>
      simp only [Handlers.step] at h
      split at h
      · obtain rfl := Option.some.inj h
        exact .inl rfl
      · simp at h
  | update handler =>
      simp only [Handlers.step] at h
      split at h
      · next data _ hphase =>
          split at h
          · next tree htree =>
              obtain rfl := Option.some.inj h
              refine .inr ⟨.insert data, htree, fun data' hdata => ⟨handler, rfl, ?_⟩⟩
              obtain rfl := History.Operation.insert.inj hdata
              exact hphase
          · obtain rfl := Option.some.inj h
            exact .inl rfl
      · next data _ hphase =>
          obtain rfl := Option.some.inj h
          exact .inr ⟨.remove (key data), rfl, by simp⟩
      · simp at h
  | mark path =>
      simp only [Handlers.step] at h
      split at h
      · next data _ hget =>
          obtain rfl := Option.some.inj h
          exact .inr ⟨.mark path, by simp only [BinarySearchTree.operate, hget], by simp⟩
      · simp at h

/-- A step of a handler changes no other handler's phase. -/
theorem phase_of_step {before after : Handlers δ} {handler : Nat} {action : Handlers.Action δ}
    (haction : action = .check handler ∨ action = .update handler)
    (h : before.step action = some after) :
    after.phase = Function.update before.phase handler (after.phase handler) := by
  rcases haction with rfl | rfl
  · simp only [Handlers.step] at h
    split at h
    · obtain rfl := Option.some.inj h
      simp
    · simp at h
  · simp only [Handlers.step] at h
    split at h
    · split at h
      · obtain rfl := Option.some.inj h
        simp
      · obtain rfl := Option.some.inj h
        simp
    · obtain rfl := Option.some.inj h
      simp
    · simp at h

/-- A mark changes the tree only. -/
theorem mark_of_step {before after : Handlers δ} {path : Path}
    (h : before.step (.mark path) = some after) : after = { before with tree := after.tree } := by
  simp only [Handlers.step] at h
  split at h
  · obtain rfl := Option.some.inj h
    rfl
  · simp at h

/-- What is left without walks where one handler has moved. -/
theorem forget_update (before : SteppedHandlers δ) (tree : BinarySearchTree δ) (handler : Nat)
    (next : SteppedPhase δ) (faulted : Bool) :
    forget ⟨tree, Function.update before.phase handler next, faulted⟩ =
      ⟨tree, Function.update before.forget.phase handler next.forget, faulted⟩ := by
  have hphase := Function.comp_update SteppedPhase.forget before.phase handler next
  exact congrArg (fun phase => (⟨tree, phase, faulted⟩ : Handlers δ)) hphase

/-- A move inside a walk, or into it, is not seen without walks. -/
theorem forget_walking {before : SteppedHandlers δ} {handler : Nat}
    (hreading : (before.phase handler).forget = .reading) (data : δ) (disconnect : Bool)
    (self : Finding) :
    forget { before with
      phase := Function.update before.phase handler (.finding data disconnect self) } =
      before.forget := by
  have hsame : Function.update before.forget.phase handler .reading = before.forget.phase :=
    Function.update_eq_self_iff.mpr hreading.symm
  rw [forget_update, SteppedPhase.forget, hsame]
  rfl

/-- A step of `Handlers` keeps the walks of the other handlers on their way. -/
theorem OnWay.settled {before : SteppedHandlers δ} (h : before.OnWay) {after : Handlers δ}
    {action : Handlers.Action δ} (hstep : before.forget.step action = some after)
    (hkeeps : ∀ other, action = .update other → before.Keeps (.update other))
    {handler : Nat} {data : δ} {disconnect : Bool} {self : Finding}
    (hphase : before.phase handler = .finding data disconnect self) :
    after.tree.Tested (key data) self ∧ after.tree.OnWay (key data) self := by
  have hwalk := h handler data disconnect self hphase
  rcases operate_of_step hstep with hsame | ⟨operation, hoperate, hinsert⟩
  · rw [hsame]
    exact hwalk
  · refine BinarySearchTree.tracked_operate hoperate (fun inserted hinserted => ?_) hwalk
    obtain ⟨other, rfl, hother⟩ := hinsert inserted hinserted
    refine hkeeps other rfl inserted ?_ handler data disconnect self hphase
    -- a handler in its walk is taken to be reading, so that it does not insert
    have hforget : (before.phase other).forget = .inserting inserted := hother
    cases hat : before.phase other with
    | settled phase => rw [hat] at hforget; exact congrArg _ hforget
    | finding => rw [hat] at hforget; cases hforget

/-- The `find` of `Handlers`, for a handler that is taken to be reading. -/
theorem step_forget_find {before : SteppedHandlers δ} {handler : Nat}
    (hfaulted : before.faulted = false) (hreading : (before.phase handler).forget = .reading)
    (data : δ) (disconnect : Bool) :
    before.forget.step (.find handler data disconnect) = some (forget { before with
      phase := Function.update before.phase handler
        (walked data disconnect (.returned (before.tree.find (key data)))) }) := by
  have hforgetFaulted : before.forget.faulted = false := hfaulted
  have hforgetPhase : before.forget.phase handler = .reading := hreading
  simp only [Handlers.step, hforgetFaulted, hforgetPhase, forget_update]
  show some _ = some _
  cases hfind : before.tree.find (key data) with
  | none =>
      have hforgetFind : before.forget.tree.find (key data) = none := hfind
      rw [hforgetFind, hfaulted]
      rfl
  | some path =>
      have hforgetFind : before.forget.tree.find (key data) = some path := hfind
      rw [hforgetFind, hfaulted]
      rfl

/-- The walks stay on their way where one handler moves and its walk, if it has one then, is on its
way. -/
theorem OnWay.update {before : SteppedHandlers δ} (h : before.OnWay) {handler : Nat}
    {next : SteppedPhase δ}
    (hnext : ∀ data disconnect self, next = .finding data disconnect self →
      before.tree.Tested (key data) self ∧ before.tree.OnWay (key data) self) :
    OnWay { before with phase := Function.update before.phase handler next } := by
  intro other data disconnect self hother
  by_cases heq : other = handler
  · subst heq
    simp only [Function.update_self] at hother
    exact hnext data disconnect self hother
  · simp only [Function.update_of_ne heq] at hother
    exact h other data disconnect self hother

/-- The call of `find` is not seen without walks. -/
theorem OnWay.find {before after : SteppedHandlers δ} (h : before.OnWay) {handler : Nat} {data : δ}
    {disconnect : Bool} (hstep : before.step (.find handler data disconnect) = some after) :
    after.OnWay ∧
      Matched Handlers.step forget label ⟨before, .find handler data disconnect, after⟩ := by
  simp only [step] at hstep
  split at hstep
  · next hphase =>
      obtain rfl := Option.some.inj hstep
      constructor
      · refine h.update fun data' disconnect' self hnext => ?_
        obtain ⟨rfl, rfl, rfl⟩ := SteppedPhase.finding.inj hnext
        exact ⟨BinarySearchTree.tested_called [], BinarySearchTree.onWay_called_nil⟩
      · have hreading : (before.phase handler).forget = .reading := by rw [hphase]; rfl
        exact forget_walking hreading data disconnect (.called [])
  · simp at hstep

/-- A walk that has not returned goes on. -/
theorem walked_of_not_returned {data : δ} {disconnect : Bool} {self : Finding}
    (h : self.result? = none) : walked data disconnect self = .finding data disconnect self := by
  cases self with
  | returned => cases h
  | called | testGreater | testLess | testFlag => rfl

/-- The last read of a walk is the `find` of `Handlers`, and the others are not seen. -/
theorem OnWay.read {before after : SteppedHandlers δ} (h : before.OnWay) {handler : Nat}
    (hstep : before.step (.read handler) = some after) :
    after.OnWay ∧ Matched Handlers.step forget label ⟨before, .read handler, after⟩ := by
  simp only [step] at hstep
  split at hstep
  · next data disconnect self hfaulted hphase =>
      obtain ⟨⟨tree, next⟩, hfind, hstep⟩ := Option.bind_eq_some_iff.mp hstep
      obtain rfl := Option.some.inj hstep
      obtain ⟨htested, hway⟩ := h handler data disconnect self hphase
      have hreading : (before.phase handler).forget = .reading := by rw [hphase]; rfl
      obtain ⟨rfl, hturn⟩ := BinarySearchTree.findStep_turn hfind
      cases hresult : next.result? with
      | none =>
          rw [walked_of_not_returned hresult]
          constructor
          · refine h.update fun data' disconnect' self' hnext => ?_
            obtain ⟨rfl, rfl, rfl⟩ := SteppedPhase.finding.inj hnext
            exact ⟨htested.turn hturn, hway.turn hturn⟩
          · have hlabel : label ⟨before, .read handler, { before with
                phase := Function.update before.phase handler
                  (.finding data disconnect next) }⟩ = none := by
              simp [label, hphase]
            rw [Matched, hlabel]
            exact forget_walking hreading data disconnect next
      | some result =>
          obtain rfl := Finding.eq_returned hresult
          -- the walk returns what a `find` in one step does now
          obtain rfl := hturn.find_eq htested hway
          constructor
          · refine h.update fun data' disconnect' self' hnext => ?_
            cases hfound : before.tree.find (key data) <;> rw [hfound] at hnext <;> cases hnext
          · let after : SteppedHandlers δ := { before with
              phase := Function.update before.phase handler
                (walked data disconnect (.returned (before.tree.find (key data)))) }
            have hlabel : label ⟨before, .read handler, after⟩ =
                some (.find handler data disconnect) := by
              cases hfound : before.tree.find (key data) <;>
                simp [label, hphase, walked, after, hfound]
            show Matched Handlers.step forget label ⟨before, .read handler, after⟩
            rw [Matched, hlabel]
            exact step_forget_find hfaulted hreading data disconnect
  · simp at hstep

/-- A check or an update of a handler is that of `Handlers`. -/
theorem OnWay.settledStep {before after : SteppedHandlers δ} (h : before.OnWay) {handler : Nat}
    {action : Handlers.Action δ} (haction : action = .check handler ∨ action = .update handler)
    (hstep : before.settledStep handler action = some after)
    (hkeeps : ∀ other, action = .update other → before.Keeps (.update other)) :
    after.OnWay ∧ before.forget.step action = some after.forget := by
  obtain ⟨next, hnext, rfl⟩ := Option.map_eq_some_iff.mp hstep
  constructor
  · intro other data disconnect self hother
    by_cases heq : other = handler
    · subst heq
      simp at hother
    · simp only [Function.update_of_ne heq] at hother
      exact h.settled hnext hkeeps hother
  · have hphase := phase_of_step haction hnext
    rw [hnext, forget_update, SteppedPhase.forget, ← hphase]

/-- A step that keeps the walks is matched, and they stay on their way. -/
theorem OnWay.step {event : Event (SteppedHandlers δ) (Action δ)}
    (hstep : event.before.step event.action = some event.after) (h : event.before.OnWay)
    (hkeeps : event.before.Keeps event.action) :
    event.after.OnWay ∧ Matched Handlers.step forget label event := by
  obtain ⟨before, action, after⟩ := event
  cases action with
  | find handler data disconnect => exact h.find hstep
  | read handler => exact h.read hstep
  | check handler => exact h.settledStep (.inl rfl) hstep (by simp)
  | update handler =>
      refine h.settledStep (.inr rfl) hstep fun other haction => ?_
      obtain rfl := Handlers.Action.update.inj haction
      exact hkeeps
  | mark path =>
      obtain ⟨next, hnext, hafter⟩ := Option.map_eq_some_iff.mp hstep
      obtain rfl : { before with tree := next.tree } = after := hafter
      constructor
      · intro handler data disconnect self hphase
        exact h.settled hnext (by simp) hphase
      · have hmark := mark_of_step hnext
        show before.forget.step (.mark path) = some (forget { before with tree := next.tree })
        rw [hnext, hmark]
        rfl

/-- No handler is in a walk. -/
theorem onWay_start : (start : SteppedHandlers δ).OnWay :=
  fun _ _ _ _ h => by cases h

/-- Every run of the handlers that keeps their walks is a run of the handlers whose `find` is one
step. -/
theorem stepped_simulates {events : List (Event (SteppedHandlers δ) (Action δ))}
    {finish : SteppedHandlers δ} (hrun : Run step start events finish)
    (hkeeps : ∀ event ∈ events, event.before.Keeps event.action) :
    Run Handlers.step Handlers.start (events.filterMap (lift forget label)) finish.forget ∧
      ∀ event ∈ events, Matched Handlers.step forget label event := by
  have hmatched := hrun.simulates OnWay Keeps onWay_start hkeeps fun _ => OnWay.step
  exact ⟨hrun.lifted hmatched, hmatched⟩

/-! ## Exclusive keys -/

/-- The step is no insertion of a key that is live. -/
def Absent (handlers : SteppedHandlers δ) : Action δ → Prop
  | .update handler => handlers.forget.Absent (.update handler)
  | .find .. | .read _ | .check _ | .mark _ => True

omit [LinearOrder κ] in
/-- The step of `Handlers` that a transition stands for inserts what the transition inserts. -/
theorem absent_iff_label (event : Event (SteppedHandlers δ) (Action δ)) :
    event.before.Absent event.action ↔
      ∀ action ∈ label event, event.before.forget.Absent action := by
  have hnone (action : Handlers.Action δ) (h : ∀ handler, action ≠ .update handler) :
      event.before.forget.Absent action := by
    cases action with
    | update handler => exact absurd rfl (h handler)
    | find | check | mark => simp [Handlers.Absent, Handlers.insertion]
  cases haction : event.action with
  | update handler => simp [Absent, label, haction]
  | find | check | mark =>
      refine iff_of_true trivial fun action hlabel => hnone action fun handler heq => ?_
      simp [label, haction, heq] at hlabel
  | read handler =>
      refine iff_of_true trivial fun action hlabel => hnone action fun handler heq => ?_
      simp only [label, haction, heq] at hlabel
      split at hlabel <;> simp at hlabel

omit [LinearOrder κ] in
/-- Where the handlers stand does not matter to the keys. -/
theorem exclusive_of_same {before after : SteppedHandlers δ} (htree : after.tree = before.tree)
    (hfaulted : after.faulted = before.faulted) (h : before.forget.Exclusive) :
    after.forget.Exclusive := by
  have hforgetTree : after.forget.tree = before.forget.tree := htree
  have hforgetFaulted : after.forget.faulted = before.forget.faulted := hfaulted
  exact ⟨by rw [hforgetTree]; exact h.nodup, hforgetFaulted.trans h.safe⟩

/-- From exclusive keys a step leads to exclusive keys exactly if it inserts no key that is live. -/
theorem exclusive_iff_of_step {before after : SteppedHandlers δ} {action : Action δ}
    (hstep : before.step action = some after) (h : before.forget.Exclusive) :
    after.forget.Exclusive ↔ before.Absent action := by
  have hsettled {handler : Nat} {coarse : Handlers.Action δ}
      (hstep : before.settledStep handler coarse = some after) :
      after.forget.Exclusive ↔ before.forget.Absent coarse := by
    obtain ⟨next, hnext, rfl⟩ := Option.map_eq_some_iff.mp hstep
    rw [← Handlers.exclusive_iff_of_step hnext h]
    exact ⟨fun hafter => ⟨hafter.nodup, hafter.safe⟩, fun hafter => ⟨hafter.nodup, hafter.safe⟩⟩
  cases action with
  | find handler data disconnect =>
      simp only [step] at hstep
      split at hstep
      · obtain rfl := Option.some.inj hstep
        exact iff_of_true (@exclusive_of_same _ _ _ before _ rfl rfl h) trivial
      · simp at hstep
  | read handler =>
      simp only [step] at hstep
      split at hstep
      · obtain ⟨⟨tree, next⟩, hfind, hstep⟩ := Option.bind_eq_some_iff.mp hstep
        obtain rfl := Option.some.inj hstep
        obtain ⟨htree, _⟩ := BinarySearchTree.findStep_turn hfind
        exact iff_of_true (@exclusive_of_same _ _ _ before _ htree rfl h) trivial
      · simp at hstep
  | check handler =>
      refine (hsettled hstep).trans (iff_of_true ?_ trivial)
      simp [Handlers.Absent, Handlers.insertion]
  | update handler => exact hsettled hstep
  | mark path =>
      obtain ⟨next, hnext, rfl⟩ := Option.map_eq_some_iff.mp hstep
      have hmark := mark_of_step hnext
      have hfaulted : next.faulted = before.faulted := by rw [hmark]; rfl
      have hexclusive := Handlers.exclusive_iff_of_step hnext h
      refine Iff.trans ⟨fun hafter => ⟨hafter.nodup, hfaulted.trans hafter.safe⟩,
        fun hafter => ⟨hafter.nodup, hfaulted.symm.trans hafter.safe⟩⟩
        (hexclusive.trans (iff_of_true ?_ trivial))
      simp [Handlers.Absent, Handlers.insertion]

/-- With a `find` read by read, there is one live node per key and no insertion follows a null link
in every state of a run exactly if each insertion finds its key absent; and a run that keeps the
walks is one of the handlers whose `find` is one step. -/
theorem exclusive_stepped {events : List (Event (SteppedHandlers δ) (Action δ))}
    {finish : SteppedHandlers δ} (hrun : Run step start events finish) :
    ((∀ event ∈ events, event.after.forget.Exclusive) ↔
      ∀ event ∈ events, ∀ action ∈ label event, event.before.forget.Absent action) ∧
    ((∀ event ∈ events, event.before.Keeps event.action) →
      Run Handlers.step Handlers.start (events.filterMap (lift forget label)) finish.forget ∧
        ∀ event ∈ events, Matched Handlers.step forget label event) := by
  refine ⟨?_, stepped_simulates hrun⟩
  have hstart : (start : SteppedHandlers δ).forget.Exclusive :=
    ⟨by simp [start, forget, BinarySearchTree.empty], rfl⟩
  have hexclusive := hrun.goal_iff (fun handlers => handlers.forget.Exclusive) hstart
    (fun _ _ _ hstep hbefore => exclusive_iff_of_step hstep hbefore)
    (fun _ _ _ _ _ hafter => hafter)
  exact hexclusive.trans (forall₂_congr fun event _ => absent_iff_label event)

/-- While a walk for 9 is below the root, the root is flagged and 8 takes it over, which turns the
walk to the same side as 7 has. -/
theorem exclusive_stepped_taken : ∃ events finish,
    Run step (start : SteppedHandlers DataX) events finish ∧
    events.map Event.action = [.find 0 ⟨7⟩ false, .read 0, .update 0, .find 2 ⟨8⟩ false, .read 2,
      .read 2, .read 2, .read 2, .find 1 ⟨9⟩ false, .read 1, .read 1, .read 1, .mark [], .update 2,
      .read 1, .update 1] ∧
    (∀ event ∈ events, event.after.forget.Exclusive) ∧
    Run Handlers.step Handlers.start (events.filterMap (lift forget label)) finish.forget := by
  have hrun : Run step (start : SteppedHandlers DataX)
      ([] ++ [⟨_, .find 0 ⟨7⟩ false, _⟩] ++ [⟨_, .read 0, _⟩] ++ [⟨_, .update 0, _⟩] ++
        [⟨_, .find 2 ⟨8⟩ false, _⟩] ++ [⟨_, .read 2, _⟩] ++ [⟨_, .read 2, _⟩] ++
        [⟨_, .read 2, _⟩] ++ [⟨_, .read 2, _⟩] ++ [⟨_, .find 1 ⟨9⟩ false, _⟩] ++
        [⟨_, .read 1, _⟩] ++ [⟨_, .read 1, _⟩] ++ [⟨_, .read 1, _⟩] ++ [⟨_, .mark [], _⟩] ++
        [⟨_, .update 2, _⟩] ++ [⟨_, .read 1, _⟩] ++ [⟨_, .update 1, _⟩]) _ :=
    .snoc (.snoc (.snoc (.snoc (.snoc (.snoc (.snoc (.snoc (.snoc (.snoc (.snoc (.snoc (.snoc (.snoc
      (.snoc (.snoc .refl rfl) rfl) rfl) rfl) rfl) rfl) rfl) rfl) rfl) rfl) rfl) rfl) rfl) rfl) rfl)
      rfl
  refine ⟨_, _, hrun, rfl, (exclusive_stepped hrun).1.mpr ?_, ((exclusive_stepped hrun).2 ?_).1⟩
  · decide
  · simp only [List.nil_append, List.cons_append, List.forall_mem_cons]
    refine ⟨trivial, trivial, ?_, trivial, trivial, trivial, trivial, trivial, trivial, trivial,
      trivial, trivial, trivial, ?_, trivial, ?_, by simp⟩
    · -- no handler is in a walk, and so it is at the end
      intro inserted _ handler data disconnect self hphase
      rcases handler with _ | _ | _ | handler <;> cases hphase
    · intro inserted hinserting handler data disconnect self hphase
      obtain rfl := HandlerPhase.inserting.inj (SteppedPhase.settled.inj hinserting)
      rcases handler with _ | _ | _ | handler
      · cases hphase
      · obtain ⟨rfl, rfl, rfl⟩ := SteppedPhase.finding.inj hphase
        decide
      · cases hphase
      · cases hphase
    · intro inserted _ handler data disconnect self hphase
      rcases handler with _ | _ | _ | handler <;> cases hphase

end SteppedHandlers

end Wheespa
