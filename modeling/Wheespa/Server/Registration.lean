import Wheespa.PrepareDatabase
import Wheespa.Server.Authentication
import Wheespa.Server.Origin

/-!
# Names are taken once

`checkExists` asks one query over all pairs of an account of `Registered` and an account of
`PendingRegistrations`. It finds nothing where one of the tables is empty, and it fails for a name
of their columns. `takenOnce` is the main result: when `checkExists` answers for the union of the
tables, and that no name gets into both tables in a run without messages as long as no registration
clashes with `Registered` in a case where it does not.
-/

namespace Wheespa

open Sql Transition

/-- The name is taken in one of the two account tables. -/
def Taken (database : Database) (user : Str) : Prop :=
  user ∈ users database "Registered" ∨ user ∈ users database "PendingRegistrations"

/-- The query of `checkExists` can find the name: both tables have a row, and the name is not the
name of a column. -/
structure Findable (database : Database) (user : Str) : Prop where
  registered : accounts database "Registered" ≠ []
  pending : accounts database "PendingRegistrations" ≠ []
  column : ¬ IsColumnName user

/-- No name is in both account tables. -/
def Separate (database : Database) : Prop :=
  ∀ user ∈ users database "Registered", user ∉ users database "PendingRegistrations"

/-- A registration whose name, as it is stored, is in `Registered` asks for a name that is taken and
that `checkExists` can find. -/
def NoClash (backend : Backend) (server : Server) (action : Action) : Prop :=
  ∀ preq ∈ server.parseRequest action, ParseRequest.rtMap preq.reqType = some .register →
    ∀ user ∈ preq.registersName,
      storedText backend user ∈ users server.database "Registered" →
        Taken server.database user ∧ Findable server.database user

variable {engine : Engine} {sha1 : Sha1}

/-- `checkExists` answers whether the name is taken exactly where it is not taken or can be found.
-/
theorem checkExists_taken_iff {self : ParseRequest} (hdb : Prepared self.wDb.database)
    {user : Str} (huser : IsValue user) :
    ((self.checkExists engine user).1 = true ↔ Taken self.wDb.database user) ↔
      (Taken self.wDb.database user → Findable self.wDb.database user) := by
  have hmem (table : String) : user ∈ users self.wDb.database table ↔
      ∃ account ∈ accounts self.wDb.database table, account.user = user := by
    simp [users]
  rw [checkExists_iff engine hdb huser]
  constructor
  · intro h htaken
    obtain ⟨hcolumn, registered, hregistered, pending, hpending, _⟩ := h.mpr htaken
    exact ⟨List.ne_nil_of_mem hregistered, List.ne_nil_of_mem hpending, hcolumn⟩
  · intro h
    constructor
    · rintro ⟨_, registered, hregistered, pending, hpending, hname | hname⟩
      · exact .inl ((hmem _).mpr ⟨registered, hregistered, hname⟩)
      · exact .inr ((hmem _).mpr ⟨pending, hpending, hname⟩)
    · intro htaken
      obtain ⟨hregistered, hpending, hcolumn⟩ := h htaken
      obtain ⟨registered, hregistered⟩ := List.exists_mem_of_ne_nil _ hregistered
      obtain ⟨pending, hpending⟩ := List.exists_mem_of_ne_nil _ hpending
      refine ⟨hcolumn, ?_⟩
      rcases htaken with hname | hname
      · obtain ⟨account, haccount, hname⟩ := (hmem _).mp hname
        exact ⟨account, haccount, pending, hpending, .inl hname⟩
      · obtain ⟨account, haccount, hname⟩ := (hmem _).mp hname
        exact ⟨registered, hregistered, account, haccount, .inr hname⟩

/-- What a registration does to the account tables: nothing, or it adds its name, which
`checkExists` has not found, to `PendingRegistrations`. -/
theorem registerUser_database {self : ParseRequest} (hvalid : self.ValidParams)
    (hdb : Prepared self.wDb.database) (registered : Bool) :
    (self.registerUser engine sha1 registered).2.wDb.database = self.wDb.database ∨
    ∃ user, self.registersName = some user ∧ self.param "username".toList = some user ∧
      (self.checkExists engine user).1 = false ∧
      Prepared (self.registerUser engine sha1 registered).2.wDb.database ∧
      users (self.registerUser engine sha1 registered).2.wDb.database "Registered" =
        users self.wDb.database "Registered" ∧
      users (self.registerUser engine sha1 registered).2.wDb.database "PendingRegistrations" =
        users self.wDb.database "PendingRegistrations" ++ [storedText engine.toBackend user] := by
  rcases self.registerUser_cases engine sha1 registered with ⟨_, _, hregister⟩ |
    ⟨username, password, email, hname, husername, hpassword, hemail, htaken⟩
  · rw [hregister]
    exact .inl rfl
  · have hquery : self.wDb.Executes engine IsSelect (self.checkExists engine username).2.wDb :=
      ParseRequest.checkExists_executes engine (hvalid _ _ husername)
    have hdatabase : (self.checkExists engine username).2.wDb.database = self.wDb.database :=
      congrArg Session.database hquery.dbHandle_eq
    rcases htaken with ⟨_, hregister⟩ | ⟨hfree, _, hregister⟩
    · rw [hregister]
      exact .inl hdatabase
    · rw [hregister]
      have hdb' : Prepared (self.checkExists engine username).2.wDb.database := hdatabase ▸ hdb
      rcases insert_pending engine hdb' (hvalid _ _ husername)
        (isValue_of_hex (getOutput_spec sha1 password).2) (hvalid _ _ hemail) with
        ⟨_, hsame⟩ | ⟨_, hprepared, hregistered, _, id, hpending⟩
      · exact .inl (hsame.trans hdatabase)
      · refine .inr ⟨username, hname, husername, hfree, hprepared, ?_, ?_⟩
        · rw [users, hregistered, hdatabase]
          rfl
        · rw [users, hpending, hdatabase, List.map_append]
          rfl

/-- A step without a message keeps the names separate, unless a registration clashes. -/
theorem Separate.step {before after : Recorded} {action : Action}
    (hdb : Prepared before.server.database) (h : Separate before.server.database)
    (hstep : before.step engine sha1 action = some after) (hsender : action.sender = none)
    (hclash : NoClash engine.toBackend before.server action) :
    Prepared after.server.database ∧ Separate after.server.database := by
  obtain ⟨reaction, hreact, rfl⟩ := Option.map_eq_some_iff.mp hstep
  rcases Server.react_database hreact hsender with hsame | ⟨preq, registered, hpreq, htype, hafter⟩
  · show Prepared reaction.server.database ∧ Separate reaction.server.database
    rw [hsame]
    exact ⟨hdb, h⟩
  · show Prepared reaction.server.database ∧ Separate reaction.server.database
    obtain ⟨hvalid, _, hwDb, _⟩ := Server.parseRequest_eq hpreq
    have hself : preq.wDb.database = before.server.database := by
      rw [hwDb]
      rfl
    rw [← hself] at hdb h
    rw [hafter]
    rcases @registerUser_database engine sha1 _ hvalid hdb registered with
      hsame | ⟨user, hname, huser, hfree, hprepared, hregistered, hpending⟩
    · rw [hsame]
      exact ⟨hdb, h⟩
    · refine ⟨hprepared, fun name hmem => ?_⟩
      rw [hregistered] at hmem
      rw [hpending, List.mem_append, not_or, List.mem_singleton]
      refine ⟨h name hmem, ?_⟩
      -- the new name is in `Registered`, so `checkExists` has found it
      rintro rfl
      have hfound := hclash preq hpreq htype user hname (hself ▸ hmem)
      rw [← hself] at hfound
      have htaken := (@checkExists_taken_iff engine _ hdb _ (hvalid _ _ huser)).mpr
        fun _ => hfound.2
      exact Bool.false_ne_true (hfree.symm.trans (htaken.mpr hfound.1))

/-- A new file has the default administrator in one table only. -/
theorem separate_prepareDatabase (engine : Engine) (sha1 : Sha1) :
    Prepared (prepareDatabase engine sha1 newFile).database ∧
      Separate (prepareDatabase engine sha1 newFile).database := by
  obtain ⟨hprepared, _, hpending, _⟩ := accounts_prepareDatabase engine sha1
  refine ⟨hprepared, fun user _ => ?_⟩
  rw [users, hpending]
  simp

instance (database : Database) (user : Str) : Decidable (Taken database user) :=
  inferInstanceAs (Decidable (_ ∨ _))

instance (database : Database) (user : Str) : Decidable (Findable database user) :=
  decidable_of_iff
    (accounts database "Registered" ≠ [] ∧ accounts database "PendingRegistrations" ≠ [] ∧
      ¬ IsColumnName user)
    ⟨fun h => ⟨h.1, h.2.1, h.2.2⟩, fun h => ⟨h.1, h.2, h.3⟩⟩

instance (backend : Backend) (server : Server) (action : Action) :
    Decidable (NoClash backend server action) :=
  inferInstanceAs (Decidable (∀ preq ∈ server.parseRequest action, _ → ∀ user ∈ preq.registersName,
    _ → _))

/-- `checkExists` answers whether a name is taken exactly where the name is not taken or can be
found by its query; and in every run without messages in which no registration clashes, no name is
ever in both tables. The database that `prepareDatabase` leaves in a new file is one to start from.
-/
theorem takenOnce (engine : Engine) (sha1 : Sha1) :
    (∀ (self : ParseRequest) (user : RequestValue), Prepared self.wDb.database →
      (((self.checkExists engine user.1).1 = true ↔ Taken self.wDb.database user.1) ↔
        (Taken self.wDb.database user.1 → Findable self.wDb.database user.1))) ∧
    (∀ (database : Database) (events : List (Event Recorded Action)) (finish : Recorded),
      Prepared database → Separate database →
      Run (Recorded.step engine sha1) (Recorded.start database) events finish →
      (∀ event ∈ events, event.action.sender = none ∧
        NoClash engine.toBackend event.before.server event.action) →
      ∀ event ∈ events, Separate event.after.server.database) ∧
    Prepared (prepareDatabase engine sha1 newFile).database ∧
    Separate (prepareDatabase engine sha1 newFile).database := by
  refine ⟨fun self user hdb => checkExists_taken_iff hdb user.2, ?_,
    separate_prepareDatabase engine sha1⟩
  intro database events finish hdb hseparate hrun hclash event hevent
  have hall := hrun.invariant
    (fun recorded => Prepared recorded.server.database ∧ Separate recorded.server.database)
    ⟨hdb, hseparate⟩ fun event hevent hstep hbefore =>
      hbefore.2.step hbefore.1 hstep (hclash event hevent).1 (hclash event hevent).2
  exact (hall.2 event hevent).2.2

/-- The request that registers a name. -/
def registerRequest (name : String) : Action :=
  .request 1 ("[WHEESPA_REGISTER]::username=".toList ++ name.toList ++
    ":::password=secret1:::email=b@x.y:::".toList) false false

/-- The server on a new file. -/
def newServer : Recorded :=
  .start (prepareDatabase .plain constantSha1 newFile).database

/-- That server starts on the three tables. -/
theorem newServer_eq : newServer = .start (preparedFile Engine.plain.toBackend constantSha1) :=
  congrArg Recorded.start (database_prepareDatabase .plain constantSha1)

/-- After ann has registered, the name of the default administrator is refused. -/
theorem separate_after_refusal : ∃ events finish,
    Run (Recorded.step .plain constantSha1) newServer events finish ∧
    events.map Event.action = [registerRequest "ann", registerRequest "wAdministrator"] ∧
    ∀ event ∈ events, Separate event.after.server.database := by
  obtain ⟨events, finish, hrun, hactions, hclash⟩ := Run.exists_of_trace
    (Recorded.step .plain constantSha1) newServer
    [registerRequest "ann", registerRequest "wAdministrator"]
    (fun event => event.action.sender = none ∧
      NoClash Engine.plain.toBackend event.before.server event.action)
    (by rw [newServer_eq]; decide +kernel)
  exact ⟨events, finish, hrun, hactions, (takenOnce .plain constantSha1).2.1 _ _ _
    (separate_prepareDatabase _ _).1 (separate_prepareDatabase _ _).2 hrun hclash⟩

/-- While no registration is pending, the name of the default administrator is not found, and it can
be registered a second time. -/
theorem register_administrator :
    ((requestOn newServer.server.database).checkExists .plain "wAdministrator".toList).1 = false ∧
    Taken newServer.server.database "wAdministrator".toList ∧
    (newServer.step .plain constantSha1 (registerRequest "wAdministrator")).map (fun after =>
      (users after.server.database "Registered",
        users after.server.database "PendingRegistrations")) =
      some (["wAdministrator".toList], ["wAdministrator".toList]) := by
  rw [newServer_eq]
  decide +kernel

end Wheespa
