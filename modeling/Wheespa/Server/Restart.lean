import Wheespa.ExistingFile
import Wheespa.Server.AccountRuns

/-!
# Restarts

A server that ends leaves its database file. The next one prepares that file and starts on it, with
an empty tree and without anonymous users. `accounts_across_restarts` is the main result: what
`accounts_of_run` and `online_of_run` say of a run that spares the root of its tree holds across any
number of restarts.
-/

namespace Wheespa

open Sql Transition

/-- A turn of the server, or its end and the start of the next one on the same file. -/
inductive LifeAction where
  | serve (turn : Recorded.Turn)
  | restart

/-- One step of the servers that follow one another on a file. -/
def Recorded.live (engine : Engine) (sha1 : Sha1) (recorded : Recorded) :
    LifeAction → Option Recorded
  | .serve turn => recorded.turn engine sha1 turn
  | .restart => some (.start (prepareDatabase engine sha1 recorded.server.database).database)

/-- The registration that a step stores. -/
def LifeAction.registers (engine : Engine) (sha1 : Sha1) (server : Server) :
    LifeAction → Option Registration
  | .serve (.act action) => server.registers engine sha1 action
  | .serve (.reuse _) | .restart => none

/-- The steps of the server are restrained, and spare the root. -/
def LifeAction.Restrained (recorded : Recorded) : LifeAction → Prop
  | .serve (.act action) =>
      recorded.Spares (.act action) ∧ Wheespa.Restrained recorded.server action
  | .serve (.reuse _) | .restart => True

/-- What the servers that follow one another make of the accounts, and who is online. -/
structure Persists (engine : Engine) (sha1 : Sha1) (database : Database)
    (events : List (Event Recorded LifeAction)) (finish : Recorded) : Prop where
  kept : Kept database finish.server.database
  pending : pendingRegistrations finish.server.database = pendingRegistrations database ++
    (events.filterMap fun event => event.action.registers engine sha1 event.before.server).map
      (Registration.stored engine.toBackend)
  once : ((pendingRegistrations finish.server.database).map Registration.user).Nodup
  online : OnlineAccounts engine sha1 database finish

variable {engine : Engine} {sha1 : Sha1}

/-- The default administrator stays where the accounts that can log in do. -/
theorem HasDefault.kept {start database : Database} (h : HasDefault start)
    (hkept : Kept start database) : HasDefault database := by
  have haccounts := hkept.accounts_eq
  have hentries : administratorEntries database = administratorEntries start := by
    rw [administratorEntries, administratorEntries, hkept.administrators]
  constructor
  · rw [users, haccounts]
    exact h.registered
  · rw [hentries, hkept.administrators_eq]
    exact h.administrators

theorem Recorded.live_restart (engine : Engine) (sha1 : Sha1) (recorded : Recorded) :
    recorded.live engine sha1 .restart =
      some (.start (prepareDatabase engine sha1 recorded.server.database).database) := rfl

/-- Nobody is online when a server starts. -/
theorem standing_start {database file : Database} (h : Kept database file) :
    Standing engine sha1 database (Recorded.start file) := by
  refine ⟨h, ?_⟩
  intro path conn overwrite hget
  cases path <;> simp [Recorded.start, Server.start, BinarySearchTree.empty] at hget

/-- A step that spares the root, or a restart, keeps the data granted on the accounts of the start,
and adds the registration that it stores to the pending ones. -/
theorem Standing.live (hengine : RejectsIncomplete engine) {database : Database}
    (hdefault : HasDefault database) {before after : Recorded} {action : LifeAction}
    (hstep : before.live engine sha1 action = some after)
    (hrestrained : action.Restrained before) (hintact : before.server.rootDeleted = false)
    (h : Standing engine sha1 database before) :
    Standing engine sha1 database after ∧ after.server.rootDeleted = false ∧
      pendingRegistrations after.server.database = pendingRegistrations before.server.database ++
        (action.registers engine sha1 before.server).toList.map
          (Registration.stored engine.toBackend) := by
  cases action with
  | serve turn =>
      have hturn : before.turn engine sha1 turn = some after := hstep
      cases turn with
      | act action =>
          obtain ⟨hspares, hrestrained⟩ := hrestrained
          obtain ⟨_, _, _, hafter⟩ := Recorded.turn_spares hturn hintact hspares
          refine ⟨h.step hengine hstep hrestrained, hafter, ?_⟩
          obtain ⟨reaction, hreact, rfl⟩ := Option.map_eq_some_iff.mp hstep
          exact (react_accounts hengine h.kept.prepared hrestrained hreact).2
      | reuse node =>
          -- the root that would have to be deleted is intact
          obtain ⟨_, hact, _⟩ := Recorded.turn_spares hturn hintact trivial
          exact Recorded.Turn.noConfusion hact
  | restart =>
      obtain rfl := Option.some.inj hstep
      rw [prepareDatabase_eq_self engine sha1 h.kept.prepared (hdefault.kept h.kept)]
      exact ⟨standing_start h.kept, rfl, (List.append_nil _).symm⟩

/-- Across any number of restarts of servers that spare the roots of their trees, the accounts that
can log in are those of the first start, the pending registrations are those of the first start with
the ones that were stored since, and whoever is online has an account of the first start. -/
theorem accounts_across_restarts (hengine : RejectsIncomplete engine) {database : Database}
    (hdb : Prepared database) (hdefault : HasDefault database)
    {events : List (Event Recorded LifeAction)} {finish : Recorded}
    (hrun : Run (Recorded.live engine sha1) (Recorded.start database) events finish)
    (hrestrained : ∀ event ∈ events, event.action.Restrained event.before) :
    Persists engine sha1 database events finish := by
  suffices h : Standing engine sha1 database finish ∧ finish.server.rootDeleted = false ∧
      pendingRegistrations finish.server.database = pendingRegistrations database ++
        (events.filterMap fun event =>
          event.action.registers engine sha1 event.before.server).map
            (Registration.stored engine.toBackend) from
    ⟨h.1.kept, h.2.2, nodup_pendingRegistrations h.1.kept.prepared, h.1.online⟩
  induction hrun with
  | refl => exact ⟨standing_start (.refl hdb), rfl, (List.append_nil _).symm⟩
  | snoc _ hstep ih =>
      rw [List.forall_mem_append, List.forall_mem_singleton] at hrestrained
      obtain ⟨hstanding, hintact, hpending⟩ := ih hrestrained.1
      obtain ⟨hstanding', hintact', hpending'⟩ :=
        hstanding.live hengine hdefault hstep hrestrained.2 hintact
      refine ⟨hstanding', hintact', ?_⟩
      rw [hpending', hpending, List.append_assoc, List.filterMap_append, List.map_append]
      simp only [List.filterMap_cons, List.filterMap_nil]
      split <;> simp_all

/-- A file that `prepareDatabase` has created has the default administrator. -/
theorem hasDefault_newFile (engine : Engine) (sha1 : Sha1) :
    HasDefault (prepareDatabase engine sha1 newFile).database := by
  obtain ⟨_, haccounts, _, hadministrators⟩ := accounts_prepareDatabase engine sha1
  have hname : defaultName ∈ administrators (prepareDatabase engine sha1 newFile).database := by
    rw [hadministrators]
    exact List.mem_singleton_self _
  refine ⟨Or.inl ?_, Or.inr hname⟩
  rw [haccounts]
  exact List.mem_singleton_self _

/-- A run of one server that spares the root. -/
theorem Run.serve {start finish : Recorded} {events : List (Event Recorded Action)}
    (hrun : Run (Recorded.step engine sha1) start events finish) :
    Run (Recorded.live engine sha1) start
      (events.map fun event => ⟨event.before, .serve (.act event.action), event.after⟩)
      finish := by
  induction hrun with
  | refl => exact .refl
  | snoc _ hstep ih =>
      rw [List.map_append]
      exact .snoc ih hstep

/-- After the session of an administrator on a new file, and a restart, bob is still pending. -/
theorem accounts_session_restarted : ∃ events finish,
    Run (Recorded.live .plain constantSha1) newServer events finish ∧
    events.map Event.action =
      administratorSession.map (fun action => .serve (.act action)) ++ [.restart] ∧
    (events.filterMap fun event => event.action.registers .plain constantSha1
      event.before.server).map Registration.user = ["bob".toList] ∧
    Persists .plain constantSha1 newServer.server.database events finish := by
  obtain ⟨turns, middle, hturns, hactions, hregisters, hspares, hrestrained⟩ := restrained_session
  obtain ⟨hrun, _, hevents⟩ := Recorded.run_acts hturns rfl hspares
  have hlast := middle.live_restart .plain constantSha1
  have hserves : (Recorded.acts turns).map Event.action = administratorSession := by
    have hact : Function.Injective Recorded.Turn.act := fun _ _ h => Recorded.Turn.act.inj h
    refine hact.list_map ?_
    rw [← hactions, List.map_map]
    conv_rhs => rw [hevents, List.map_map]
    rfl
  rw [hevents, List.forall_mem_map] at hspares
  refine ⟨_, _, .snoc (Run.serve hrun) hlast, ?_, ?_, ?_⟩
  · rw [List.map_append, List.map_map, ← hserves, List.map_map]
    rfl
  · rw [List.filterMap_append, List.filterMap_map, List.map_append, ← hregisters]
    exact List.append_nil _
  · refine accounts_across_restarts rejectsIncomplete_plain (separate_prepareDatabase _ _).1
      (hasDefault_newFile _ _) (.snoc (Run.serve hrun) hlast) ?_
    rw [List.forall_mem_append, List.forall_mem_map, List.forall_mem_singleton]
    exact ⟨fun event hevent => ⟨hspares event hevent, hrestrained event hevent⟩, trivial⟩

end Wheespa
