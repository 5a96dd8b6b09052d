import Wheespa.RegisterUser
import Wheespa.Server.AdminCommands
import Wheespa.Server.Administration
import Wheespa.Server.Listing
import Wheespa.Server.Registration

/-!
# Accounts over a run

What becomes of the accounts while the server runs on the tables that `prepareDatabase` creates. A
registration is added to `PendingRegistrations`, and nothing that the server executes takes it out
of there or gets it into `Registered`: the two commands that copy a row fail, and those that remove
rows fail for the identities that stay within their literal (`Restrained`).

`accounts_of_run` is the main result: over a whole run that spares the root of the tree,
`Registered` and `Administrators` are as they were at the start, and the pending registrations are
those of the start and the ones that were stored, in order. `online_of_run` says what follows for
the users online: whoever is logged in, at any time, logged in with an account of the start.
-/

namespace Wheespa

open Sql Transition

/-! ## What is stored, and what a run may do -/

/-- The registrations that are pending, as they are stored. -/
def pendingRegistrations (database : Database) : List Registration :=
  (accounts database "PendingRegistrations").map fun account =>
    ⟨account.user, account.pass, account.mail⟩

/-- The registration with its texts as a text column stores them. -/
def Registration.stored (backend : Backend) (registration : Registration) : Registration :=
  ⟨storedText backend registration.user, storedText backend registration.digest,
    storedText backend registration.mail⟩

instance (backend : Backend) (registration : Registration) (database : Database) :
    Decidable (registration.NoRoom backend database) :=
  inferInstanceAs (Decidable (_ ∨ _))

/-- The registration that a step stores: it has the format, `checkExists` does not find its name,
and there is room for it. -/
def Server.registers (engine : Engine) (sha1 : Sha1) (server : Server) (action : Action) :
    Option Registration :=
  (server.parseRequest action).bind fun preq =>
    (preq.registration? sha1).filter fun registration =>
      ParseRequest.rtMap preq.reqType = some .register ∧
        preq.registersName = some registration.user ∧
        (preq.checkExists engine registration.user).1 = false ∧
        ¬ registration.NoRoom engine.toBackend server.database

/-- A command of an administrator that removes rows, by its name or by what `m_admin_cmd` happens to
hold, has a number that stays within `"W_ID = "`. -/
def Restrained (server : Server) : Action → Prop
  | .message path recvd _ adminCmd _ _ =>
      server.HasAdministrator path → ∀ groups ∈ messageRegex.fullMatch recvd,
        groups 1 = some "WHEESPA_ADMINISTRATE".toList →
        (HandleReceived.adminCommand ((groups 2).getD [])).or adminCmd ∈
          [some .removeAdmin, some .removeRegistered] →
        0 ≤ strtolInt ((groups 4).getD []) ∧ strtolInt ((groups 4).getD []) ≤ 7
  | .request .. | .disconnect _ => True

/-- The database has the tables of `prepareDatabase`, and those with the accounts that can log in
are the ones of the start. -/
structure Kept (start database : Database) : Prop where
  prepared : Prepared database
  registered : database.table? "Registered".toList = start.table? "Registered".toList
  administrators : database.table? "Administrators".toList = start.table? "Administrators".toList

theorem Kept.refl {database : Database} (hdb : Prepared database) : Kept database database :=
  ⟨hdb, rfl, rfl⟩

theorem Kept.trans {start middle database : Database} (h : Kept start middle)
    (h' : Kept middle database) : Kept start database :=
  ⟨h'.prepared, h'.registered.trans h.registered, h'.administrators.trans h.administrators⟩

theorem Kept.accounts_eq {start database : Database} (h : Kept start database) :
    accounts database "Registered" = accounts start "Registered" := by
  rw [accounts, accounts, h.registered]

theorem Kept.administrators_eq {start database : Database} (h : Kept start database) :
    Wheespa.administrators database = Wheespa.administrators start := by
  rw [Wheespa.administrators, Wheespa.administrators, h.administrators]

/-! ## Registrations -/

variable {engine : Engine} {sha1 : Sha1}

/-- The row of a registration is one more pending registration, and changes nothing else. -/
theorem Registration.TakenBy.kept {registration : Registration} {database : Database}
    (hdb : Prepared database) {table table' : Table} {row : Row}
    (h : registration.TakenBy engine.toBackend database table row)
    (hschema : table'.schema = table.schema) (hrows : table'.rows = table.rows ++ [row]) :
    Kept database (database.set "PendingRegistrations".toList table') ∧
      pendingRegistrations (database.set "PendingRegistrations".toList table') =
        pendingRegistrations database ++ [registration.stored engine.toBackend] := by
  obtain ⟨table₀, hfound, haccount⟩ := hdb.pending
  obtain rfl := Option.some.inj (hfound.symm.trans h.found)
  have hadded := h.added
  rw [newRow_prepared _ registration haccount] at hadded
  obtain ⟨id, _, rfl⟩ := Option.map_eq_some_iff.mp hadded
  have hregistered : (database.set "PendingRegistrations".toList table').table?
      "Registered".toList = database.table? "Registered".toList :=
    Database.table?_set_of_ne (by decide) _ _
  have hadministrators : (database.set "PendingRegistrations".toList table').table?
      "Administrators".toList = database.table? "Administrators".toList :=
    Database.table?_set_of_ne (by decide) _ _
  have hpending := Database.table?_set_self database "PendingRegistrations".toList table'
  refine ⟨⟨hdb.setPending table' (hschema.trans haccount), hregistered, hadministrators⟩, ?_⟩
  simp only [pendingRegistrations, accounts, hpending, h.found, hrows, List.filterMap_append,
    List.map_append, List.filterMap_cons, Account.ofRow_toRow, List.filterMap_nil,
    List.map_cons, List.map_nil]
  rfl

/-- The registration that a request stores, by the object that is constructed for it. -/
theorem registers_eq {server : Server} {action : Action} {preq : ParseRequest}
    (hpreq : server.parseRequest action = some preq) :
    server.registers engine sha1 action =
      (preq.registration? sha1).filter fun registration =>
        ParseRequest.rtMap preq.reqType = some .register ∧
          preq.registersName = some registration.user ∧
          (preq.checkExists engine registration.user).1 = false ∧
          ¬ registration.NoRoom engine.toBackend server.database := by
  rw [Server.registers, hpreq, Option.bind_some]

/-- A method that is no registration stores none. -/
theorem registers_of_ne {server : Server} {action : Action} {preq : ParseRequest}
    (hpreq : server.parseRequest action = some preq)
    (htype : ParseRequest.rtMap preq.reqType ≠ some .register) :
    server.registers engine sha1 action = none := by
  rw [registers_eq hpreq, Option.filter_eq_none_iff]
  intro registration _
  simp [htype]

/-- `registerUser` stores the registration of its request, or changes nothing where there is none to
store. -/
theorem registers_of_registerUser {server : Server} (hdb : Prepared server.database)
    {action : Action} {preq : ParseRequest} (hpreq : server.parseRequest action = some preq)
    (htype : ParseRequest.rtMap preq.reqType = some .register) (registered : Bool) :
    Kept server.database (preq.registerUser engine sha1 registered).2.wDb.database ∧
      pendingRegistrations (preq.registerUser engine sha1 registered).2.wDb.database =
        pendingRegistrations server.database ++ (server.registers engine sha1 action).toList.map
          (Registration.stored engine.toBackend) := by
  obtain ⟨hvalid, _, hdb', _⟩ := Server.parseRequest_eq hpreq
  have hself : preq.wDb.database = server.database := by rw [hdb']; rfl
  have hregisters := @registers_eq engine sha1 server action preq hpreq
  have hopen : preq.wDb.dbHandle.enforced = false := by rw [hdb']; rfl
  have houtcome := @ParseRequest.registerUser_outcome engine sha1 preq hvalid hopen registered
  have hstores (registration : Registration) : (∃ table row,
      preq.Stores engine sha1 registration table row) ↔
      preq.Inserts engine sha1 registration ∧
        ¬ registration.NoRoom engine.toBackend server.database := by
    rw [← Registration.takenBy_iff engine.toBackend hdb]
    simp only [ParseRequest.Stores, hself, exists_and_left]
  generalize preq.registerUser engine sha1 registered = result at houtcome ⊢
  cases houtcome with
  | missing hnone hsame =>
      rw [hsame, hself, hregisters, hnone]
      exact ⟨.refl hdb, (List.append_nil _).symm⟩
  | refused hsome hsame hnot =>
      have hnone : server.registers engine sha1 action = none := by
        rw [hregisters, Option.eq_none_iff_forall_ne_some]
        intro registration hregistration
        obtain ⟨hrequested, hcond⟩ := Option.filter_eq_some_iff.mp hregistration
        obtain ⟨_, hformat, hfree, hroom⟩ := of_decide_eq_true hcond
        obtain ⟨table, row, hstored⟩ :=
          (hstores registration).mpr ⟨⟨hrequested, hformat, hfree⟩, hroom⟩
        exact hnot registration table row hstored
      rw [hsame, hself, hnone]
      exact ⟨.refl hdb, (List.append_nil _).symm⟩
  | @stored after registration table table' row hstored hschema hrows hafter =>
      obtain ⟨hinserts, hroom⟩ := (hstores registration).mp ⟨table, row, hstored⟩
      have hsome : server.registers engine sha1 action = some registration := by
        rw [hregisters]
        exact Option.filter_eq_some_iff.mpr ⟨hinserts.requested,
          decide_eq_true ⟨htype, hinserts.format, hinserts.free, hroom⟩⟩
      rw [hafter, hself, hsome]
      exact (hself ▸ hstored.2).kept hdb hschema hrows

/-- A request stores its registration, or changes nothing where it has none to store. -/
theorem registers_of_request {server : Server} (hdb : Prepared server.database) {action : Action}
    {preq : ParseRequest} (hpreq : server.parseRequest action = some preq) {registered : Bool}
    {result : Bool × ParseRequest} (h : preq.handle engine sha1 registered = some result) :
    Kept server.database result.2.wDb.database ∧
      pendingRegistrations result.2.wDb.database = pendingRegistrations server.database ++
        (server.registers engine sha1 action).toList.map
          (Registration.stored engine.toBackend) := by
  by_cases htype : ParseRequest.rtMap preq.reqType = some .register
  · -- the method is `registerUser`, and `handle` changes no more than that does
    obtain ⟨middle, hdispatch, rfl⟩ : ∃ middle,
        preq.dispatch engine sha1 registered .register = some middle ∧
          ParseRequest.noteStream .register middle = result := by
      simp only [ParseRequest.handle, htype] at h
      exact Option.map_eq_some_iff.mp h
    obtain rfl := Option.some.inj hdispatch
    rw [ParseRequest.noteStream_wDb]
    exact registers_of_registerUser hdb hpreq htype registered
  · -- the other methods execute queries
    obtain ⟨hvalid, _, hdb', _⟩ := Server.parseRequest_eq hpreq
    rcases preq.handle_wDb engine sha1 hvalid h with hselect | ⟨hregister, _⟩
    · have hsame : result.2.wDb.database = server.database := by
        rw [FlexDB.database, hselect.dbHandle_eq, hdb']
        rfl
      rw [hsame, registers_of_ne hpreq htype]
      exact ⟨.refl hdb, (List.append_nil _).symm⟩
    · exact absurd hregister htype

/-! ## Messages -/

/-- A deletion whose number stays within the literal changes nothing. -/
theorem deleteRecord_database (hengine : RejectsIncomplete engine) {table : String}
    (htable : table ∈ ["Administrators", "Registered"]) {id : Int} (hid : 0 ≤ id ∧ id ≤ 7)
    (memory : Int → Str) (db : FlexDB) :
    (db.deleteRecord engine table.toList (conditionAt memory id)).2.database = db.database :=
  congrArg Session.database (exec_incomplete hengine htable hid memory db.dbHandle)

/-- Showing a table changes nothing. -/
theorem setTableStructure_database {name : String} (hname : name ∈ shownTables) (db : FlexDB) :
    (db.setTableStructure engine name.toList).2.database = db.database := by
  have hselect : (db.execQuery engine (selectAll name)).2.database = db.database := by
    obtain ⟨htext, hparse⟩ := parse_selectAll hname
    show (engine.exec db.dbHandle (cStr (selectAll name))).session.database = _
    rw [htext, exec_select engine ⟨_, hparse⟩]
    rfl
  rw [← hselect]
  unfold FlexDB.setTableStructure
  dsimp only
  split_ifs
  · rfl
  · split <;> rfl

/-- A command that shows a table changes nothing. -/
theorem showTable_database {name : String} (hname : name ∈ shownTables)
    {self after : HandleReceived} {completion : Completion}
    (h : self.showTable engine name.toList = some (completion, after)) :
    after.db.database = self.db.database := by
  have hsame := @setTableStructure_database engine name hname self.db
  unfold HandleReceived.showTable at h
  split at h
  · next heq =>
      obtain ⟨_, rfl⟩ := Prod.mk.inj (Option.some.inj h)
      rw [heq] at hsame
      exact hsame
  · next heq =>
      obtain ⟨_, _, _, rfl⟩ := HandleReceived.reply_eq_some.mp h
      rw [heq] at hsame
      exact hsame

/-- What an administrator's command leaves in the tables of `prepareDatabase` is what was there. -/
theorem handleAdmin_database (hengine : RejectsIncomplete engine) {memory : Int → Str}
    {self after : HandleReceived} {completion : Completion} (hdb : Prepared self.db.database)
    (hopen : self.db.dbHandle.enforced = false)
    (hid : self.user.isAdmin = true →
      self.adminCmd ∈ [some .removeAdmin, some .removeRegistered] →
      0 ≤ strtolInt (self.group 4) ∧ strtolInt (self.group 4) ≤ 7)
    (h : self.handleAdmin engine memory = some (completion, after)) :
    after.db.database = self.db.database := by
  have hsession : self.db.dbHandle = ⟨self.db.database, false⟩ := by
    rw [FlexDB.database, ← hopen]
  cases hadmin : self.user.isAdmin with
  | false =>
      simp only [HandleReceived.handleAdmin, hadmin, Bool.not_false, if_true] at h
      obtain ⟨_, _, _, rfl⟩ := HandleReceived.reply_eq_some.mp h
      rfl
  | true =>
      simp only [HandleReceived.handleAdmin, hadmin, Bool.not_true, Bool.false_eq_true,
        if_false] at h
      cases hcommand : self.adminCmd with
      | none =>
          rw [hcommand] at h
          obtain ⟨_, rfl⟩ := Prod.mk.inj (Option.some.inj h)
          rfl
      | some command =>
          rw [hcommand] at h hid
          cases command with
          | getAdmins => exact showTable_database (by decide) h
          | getPending => exact showTable_database (by decide) h
          | getRegistered => exact showTable_database (by decide) h
          | acceptRegistration =>
              obtain ⟨_, rfl⟩ := Prod.mk.inj (Option.some.inj h)
              show (engine.exec self.db.dbHandle _).session.database = _
              rw [hsession]
              exact exec_acceptQuery engine hdb _
          | addAdmin =>
              obtain ⟨_, rfl⟩ := Prod.mk.inj (Option.some.inj h)
              show (engine.exec self.db.dbHandle _).session.database = _
              rw [hsession]
              exact exec_addAdminQuery engine hdb _
          | removeAdmin =>
              obtain ⟨_, rfl⟩ := Prod.mk.inj (Option.some.inj h)
              exact deleteRecord_database hengine (by decide) (hid hadmin (by decide)) memory _
          | removeRegistered =>
              obtain ⟨_, rfl⟩ := Prod.mk.inj (Option.some.inj h)
              exact deleteRecord_database hengine (by decide) (hid hadmin (by decide)) memory _
          | openChannel =>
              obtain ⟨_, rfl⟩ := Prod.mk.inj (Option.some.inj h)
              rfl

/-- What a message that is not an administrator's command does to the database is nothing. -/
theorem handle_database {memory : Int → Str} {self after : HandleReceived}
    {tree : WheespaServerTree} {time : Int} {completion : Completion}
    (htype : self.connType ≠ some .administrate)
    (h : self.handle engine memory tree time = some (completion, after)) :
    after.db = self.db := by
  unfold HandleReceived.handle at h
  split at h
  · next heq => exact absurd heq htype
  · obtain ⟨_, _, _, _, _, _, rfl, _⟩ := HandleReceived.handleInternal_eq_some h
    rfl
  · obtain ⟨_, rfl⟩ := Prod.mk.inj (Option.some.inj h)
    rfl
  · obtain ⟨_, _, _, _, _, _, rfl⟩ := HandleReceived.handleListOnline_eq_some h
    rfl
  · obtain ⟨_, _, _, rfl⟩ := HandleReceived.reply_eq_some.mp h
    rfl
  · obtain ⟨_, rfl⟩ := Prod.mk.inj (Option.some.inj h)
    rfl

/-- The number that a message is handled with where it is handled as an administrator's command to
remove rows. -/
theorem restrained_new {recvd : Str} {user : WheespaConnected} {file : Database}
    {connType : Option ConnectType} {adminCmd : Option AdminCommand} {received : HandleReceived}
    (hrestrained : ∀ groups ∈ messageRegex.fullMatch recvd,
      groups 1 = some "WHEESPA_ADMINISTRATE".toList →
      (HandleReceived.adminCommand ((groups 2).getD [])).or adminCmd ∈
        [some .removeAdmin, some .removeRegistered] →
      0 ≤ strtolInt ((groups 4).getD []) ∧ strtolInt ((groups 4).getD []) ≤ 7)
    (hnew : HandleReceived.new recvd user file connType adminCmd = some received)
    (htype : received.connType = some .administrate)
    (hcommand : received.adminCmd ∈ [some .removeAdmin, some .removeRegistered]) :
    0 ≤ strtolInt (received.group 4) ∧ strtolInt (received.group 4) ≤ 7 := by
  obtain ⟨hresult, _, _⟩ := HandleReceived.new_eq hnew
  rw [HandleReceived.group, hresult]
  cases hmatch : messageRegex.fullMatch recvd with
  | none =>
      -- no group is read, and the number of no digits is 0
      decide
  | some groups =>
      rw [Option.bind_some]
      have hgroup : (groups 1).getD [] = "WHEESPA_ADMINISTRATE".toList →
          groups 1 = some "WHEESPA_ADMINISTRATE".toList := by
        intro h
        cases hone : groups 1 with
        | none =>
            rw [hone] at h
            exact absurd h (by decide)
        | some text =>
            rw [hone] at h
            exact congrArg some h
      unfold HandleReceived.new at hnew
      simp only [hmatch, Option.isSome_some, if_true, HandleReceived.group,
        Option.bind_some] at hnew
      split_ifs at hnew with hone
      · refine hrestrained groups hmatch (hgroup hone) ?_
        split at hnew
        · next command hnamed =>
            obtain rfl := Option.some.inj hnew
            rw [hnamed]
            exact hcommand
        · next hnamed =>
            obtain ⟨_, _, rfl⟩ := HandleReceived.write_eq_some.mp hnew
            rw [hnamed]
            exact hcommand
      · obtain rfl := Option.some.inj hnew
        cases htype
      · obtain rfl := Option.some.inj hnew
        cases htype
      · obtain rfl := Option.some.inj hnew
        cases htype
      · obtain rfl := Option.some.inj hnew
        cases htype

/-- A message leaves the tables of `prepareDatabase` as they are. -/
theorem handleMessage_database (hengine : RejectsIncomplete engine) {server : Server}
    (hdb : Prepared server.database) {path : Path} {user : WheespaConnected}
    (hget : server.tree.node.get? path = some (user, false)) {recvd : Str}
    {connType : Option ConnectType} {adminCmd : Option AdminCommand} {memory : Int → Str}
    {time : Int} {reaction : Reaction}
    (hrestrained : Restrained server (.message path recvd connType adminCmd memory time))
    (h : server.handleMessage engine path user recvd connType adminCmd memory time =
      some reaction) : reaction.server.database = server.database := by
  unfold Server.handleMessage at h
  split at h
  · obtain ⟨received, hnew, h⟩ := Option.bind_eq_some_iff.mp h
    obtain ⟨⟨completion, after⟩, hhandle, h⟩ := Option.bind_eq_some_iff.mp h
    obtain rfl := Option.some.inj h
    obtain ⟨_, huser, hfile, _⟩ := HandleReceived.new_eq hnew
    have hdatabase : received.db.database = server.database := by rw [hfile]; rfl
    show after.db.database = server.database
    rw [← hdatabase]
    by_cases htype : received.connType = some .administrate
    · rw [HandleReceived.handle, htype] at hhandle
      refine handleAdmin_database hengine (hdatabase ▸ hdb) (by rw [hfile]; rfl) ?_ hhandle
      intro hadmin hcommand
      rw [huser] at hadmin
      exact restrained_new (hrestrained ⟨user, hget, hadmin⟩) hnew htype hcommand
    · rw [handle_database htype hhandle]
  · obtain rfl := Option.some.inj h
    rfl

/-! ## Runs -/

/-- A step leaves the accounts that can log in as they are, and adds the registration that it
stores to the pending ones. -/
theorem react_accounts (hengine : RejectsIncomplete engine) {server : Server}
    (hdb : Prepared server.database) {action : Action} (hrestrained : Restrained server action)
    {reaction : Reaction} (h : server.react engine sha1 action = some reaction) :
    Kept server.database reaction.server.database ∧
      pendingRegistrations reaction.server.database = pendingRegistrations server.database ++
        (server.registers engine sha1 action).toList.map
          (Registration.stored engine.toBackend) := by
  have hsame (hdatabase : reaction.server.database = server.database)
      (hnone : server.registers engine sha1 action = none) :
      Kept server.database reaction.server.database ∧
        pendingRegistrations reaction.server.database = pendingRegistrations server.database ++
          (server.registers engine sha1 action).toList.map
            (Registration.stored engine.toBackend) := by
    rw [hdatabase, hnone]
    exact ⟨.refl hdb, (List.append_nil _).symm⟩
  cases action with
  | request ss text disconnectRequested registered =>
      simp only [Server.react] at h
      split at h
      · next hpreq =>
          obtain rfl := Option.some.inj h
          exact hsame rfl (by rw [Server.registers, hpreq, Option.bind_none])
      · next preq hpreq =>
          obtain ⟨_, after, hhandle, _, hdatabase, _⟩ :=
            Server.handleRequest_cases (Server.parseRequest_eq hpreq).2.1 h
          rw [hdatabase]
          exact registers_of_request hdb hpreq hhandle
  | message path recvd connType adminCmd memory time =>
      simp only [Server.react] at h
      split at h
      · next user hget =>
          exact hsame (handleMessage_database hengine hdb hget hrestrained h) rfl
      · simp at h
  | disconnect path =>
      simp only [Server.react] at h
      split at h
      · obtain rfl := Option.some.inj h
        exact hsame rfl rfl
      · simp at h

/-- What a run makes of the accounts. -/
structure AccountsKept (engine : Engine) (sha1 : Sha1) (database : Database)
    (events : List (Event Recorded Action)) (finish : Recorded) : Prop where
  kept : Kept database finish.server.database
  pending : pendingRegistrations finish.server.database = pendingRegistrations database ++
    (events.filterMap fun event => event.before.server.registers engine sha1 event.action).map
      (Registration.stored engine.toBackend)
  once : ((pendingRegistrations finish.server.database).map Registration.user).Nodup

/-- No two pending registrations have the same name. -/
theorem nodup_pendingRegistrations {database : Database} (hdb : Prepared database) :
    ((pendingRegistrations database).map Registration.user).Nodup := by
  obtain ⟨table, htable, hschema⟩ := hdb.pending
  have hvalid := table.valid
  rw [hschema, rows_eq_accounts htable hschema, valid_accounts_iff] at hvalid
  have husers : (pendingRegistrations database).map Registration.user =
      (accounts database "PendingRegistrations").map Account.user := by
    rw [pendingRegistrations, List.map_map]
    rfl
  rw [husers]
  exact hvalid.2

/-- Steps from the tables of `prepareDatabase` leave the accounts that can log in as they are, and
add the registrations that they store to the pending ones. -/
theorem accountsKept_of_steps (hengine : RejectsIncomplete engine) {database : Database}
    (hdb : Prepared database) {events : List (Event Recorded Action)} {finish : Recorded}
    (hrun : Run (Recorded.step engine sha1) (Recorded.start database) events finish)
    (hrestrained : ∀ event ∈ events, Restrained event.before.server event.action) :
    AccountsKept engine sha1 database events finish := by
  suffices h : Kept database finish.server.database ∧
      pendingRegistrations finish.server.database = pendingRegistrations database ++
        (events.filterMap fun event =>
          event.before.server.registers engine sha1 event.action).map
            (Registration.stored engine.toBackend) from
    ⟨h.1, h.2, nodup_pendingRegistrations h.1.prepared⟩
  induction hrun with
  | refl => exact ⟨.refl hdb, (List.append_nil _).symm⟩
  | snoc _ hstep ih =>
      rw [List.forall_mem_append, List.forall_mem_singleton] at hrestrained
      obtain ⟨hkept, hpending⟩ := ih hrestrained.1
      obtain ⟨reaction, hreact, rfl⟩ := Option.map_eq_some_iff.mp hstep
      obtain ⟨hkept', hpending'⟩ :=
        react_accounts hengine hkept.prepared hrestrained.2 hreact
      refine ⟨hkept.trans hkept', ?_⟩
      show pendingRegistrations reaction.server.database = _
      rw [hpending', hpending, List.append_assoc, List.filterMap_append, List.map_append]
      simp only [List.filterMap_cons, List.filterMap_nil]
      split <;> simp_all

/-- In every run from the tables of `prepareDatabase` that spares the root, the accounts that can
log in are those of the start, and the pending registrations are those of the start with the ones
that were stored. -/
theorem accounts_of_run (hengine : RejectsIncomplete engine) {database : Database}
    (hdb : Prepared database) {events : List (Event Recorded Recorded.Turn)} {finish : Recorded}
    (hrun : Run (Recorded.turn engine sha1) (Recorded.start database) events finish)
    (hspares : ∀ event ∈ events, event.before.Spares event.action)
    (hrestrained : ∀ event ∈ Recorded.acts events,
      Restrained event.before.server event.action) :
    AccountsKept engine sha1 database (Recorded.acts events) finish :=
  accountsKept_of_steps hengine hdb (Recorded.run_acts hrun rfl hspares).1 hrestrained

instance (server : Server) (path : Path) : Decidable (server.HasAdministrator path) :=
  decidable_of_iff
    ((server.tree.node.get? path).any (fun entry => !entry.2 && entry.1.isAdmin) = true) (by
    rw [Option.any_eq_true, Server.HasAdministrator]
    simp)

instance (server : Server) : (action : Action) → Decidable (Restrained server action)
  | .message path recvd _ adminCmd _ _ =>
      inferInstanceAs (Decidable (server.HasAdministrator path →
        ∀ groups ∈ messageRegex.fullMatch recvd, _ →
          (HandleReceived.adminCommand ((groups 2).getD [])).or adminCmd ∈ _ → _ ∧ _))
  | .request .. | .disconnect _ => .isTrue trivial

/-- The session of an administrator who accepts the registration of bob. -/
theorem restrained_session : ∃ events finish,
    Run (Recorded.turn .plain constantSha1) newServer events finish ∧
    events.map Event.action = administratorSession.map .act ∧
    ((Recorded.acts events).filterMap fun event => event.before.server.registers .plain
      constantSha1 event.action).map Registration.user = ["bob".toList] ∧
    (∀ event ∈ events, event.before.Spares event.action) ∧
    ∀ event ∈ Recorded.acts events, Restrained event.before.server event.action := by
  have htrace : (trace (Recorded.turn .plain constantSha1) newServer
      (administratorSession.map .act)).any fun events =>
        (events.all fun event => event.before.Spares event.action) &&
          ((Recorded.acts events).all fun event =>
            Restrained event.before.server event.action) &&
          ((Recorded.acts events).filterMap fun event => event.before.server.registers .plain
            constantSha1 event.action).map Registration.user == ["bob".toList] := by
    rw [newServer_eq]
    decide +kernel
  obtain ⟨events, hevents, hall⟩ := Option.any_eq_true _ _ |>.mp htrace
  obtain ⟨⟨finish, hrun⟩, hactions⟩ := Run.of_trace hevents
  rw [Bool.and_eq_true, Bool.and_eq_true, List.all_eq_true, List.all_eq_true, beq_iff_eq] at hall
  exact ⟨events, finish, hrun, hactions, hall.2,
    fun event hevent => of_decide_eq_true (hall.1.1 event hevent),
    fun event hevent => of_decide_eq_true (hall.1.2 event hevent)⟩

/-- In that session bob is registered, and still pending after it. -/
theorem accounts_session : ∃ events finish,
    Run (Recorded.turn .plain constantSha1) newServer events finish ∧
    events.map Event.action = administratorSession.map .act ∧
    ((Recorded.acts events).filterMap fun event => event.before.server.registers .plain
      constantSha1 event.action).map Registration.user = ["bob".toList] ∧
    AccountsKept .plain constantSha1 newServer.server.database (Recorded.acts events) finish := by
  obtain ⟨events, finish, hrun, hactions, hregisters, hspares, hrestrained⟩ := restrained_session
  exact ⟨events, finish, hrun, hactions, hregisters, accounts_of_run rejectsIncomplete_plain
    (separate_prepareDatabase _ _).1 hrun hspares hrestrained⟩

/-! ## The users online -/

/-- The datum of every node was granted on a database with the accounts of the start. -/
structure Standing (engine : Engine) (sha1 : Sha1) (database : Database) (recorded : Recorded) :
    Prop where
  kept : Kept database recorded.server.database
  granted : ∀ path conn overwrite,
    recorded.server.tree.node.get? path = some (conn, overwrite) →
      ∃ preq, recorded.origin path = some preq ∧ preq.ValidParams ∧
        preq.Grants engine sha1 conn ∧ Kept database preq.wDb.database

/-- A step keeps the data granted on the accounts of the start. -/
theorem Standing.step (hengine : RejectsIncomplete engine) {database : Database}
    {before after : Recorded} {action : Action}
    (hstep : before.step engine sha1 action = some after)
    (hrestrained : Restrained before.server action)
    (h : Standing engine sha1 database before) : Standing engine sha1 database after := by
  refine ⟨?_, ?_⟩
  · obtain ⟨reaction, hreact, rfl⟩ := Option.map_eq_some_iff.mp hstep
    exact h.kept.trans (react_accounts hengine h.kept.prepared hrestrained hreact).1
  · intro path conn overwrite hget
    rcases Recorded.get?_step hstep hget with ⟨preq, hpreq, hvalid, hgrants, _, horigin⟩ |
      ⟨overwrite', hbefore, _, horigin⟩
    · refine ⟨preq, horigin, hvalid, hgrants, ?_⟩
      rw [(Server.parseRequest_eq hpreq).2.2.1]
      exact h.kept
    · rw [horigin]
      exact h.granted path conn overwrite' hbefore

/-- A run that spares the root keeps the data granted on the accounts of the start. -/
theorem standing_of_run (hengine : RejectsIncomplete engine) {database : Database}
    (hdb : Prepared database) {events : List (Event Recorded Recorded.Turn)} {finish : Recorded}
    (hrun : Run (Recorded.turn engine sha1) (Recorded.start database) events finish)
    (hspares : ∀ event ∈ events, event.before.Spares event.action)
    (hrestrained : ∀ event ∈ Recorded.acts events,
      Restrained event.before.server event.action) :
    Standing engine sha1 database finish := by
  have hstart : Standing engine sha1 database (Recorded.start database) := by
    refine ⟨.refl hdb, ?_⟩
    intro path conn overwrite hget
    cases path <;> simp [Recorded.start, Server.start, BinarySearchTree.empty] at hget
  exact ((Recorded.run_acts hrun rfl hspares).1.invariant _ hstart fun event hevent hstep h =>
    h.step hengine hstep (hrestrained event hevent)).1

/-- Who is online as a registered user has logged in with the name, as the query compares it, and
the password of an account of the start, and who is online as an administrator has the name of an
administrator of the start. -/
structure OnlineAccounts (engine : Engine) (sha1 : Sha1) (database : Database)
    (recorded : Recorded) : Prop where
  registered : ∀ path user overwrite,
    recorded.server.tree.node.get? path = some (user, overwrite) → user.registered = true →
      ∃ account ∈ accounts database "Registered",
        account.isNamed engine.toBackend user.key = true ∧
        ∃ preq password, recorded.origin path = some preq ∧
          preq.param "password".toList = some password ∧ account.pass = getOutput sha1 password
  administrators : ∀ path user overwrite,
    recorded.server.tree.node.get? path = some (user, overwrite) → user.isAdmin = true →
      user.registered = true ∧ user.key ∈ Wheespa.administrators database

/-- A connection that is granted as an administrator's is registered. -/
theorem registered_of_isAdmin {preq : ParseRequest} {conn : WheespaConnected}
    (h : preq.Grants engine sha1 conn) (hadmin : conn.isAdmin = true) :
    conn.registered = true := by
  cases h with
  | login => rfl
  | adminLogin => rfl
  | anonymousConnect => exact hadmin

/-- Data granted on the accounts of the start are of users of the start. -/
theorem Standing.online {database : Database} {recorded : Recorded}
    (h : Standing engine sha1 database recorded) :
    OnlineAccounts engine sha1 database recorded := by
  constructor
  · intro path user overwrite hget hregistered
    obtain ⟨preq, horigin, hvalid, hgrants, hkept⟩ := h.granted path user overwrite hget
    obtain ⟨huser, password, hpassword, hauth⟩ := authenticated_of_grants hgrants hregistered
    rw [authenticate_iff engine hkept.prepared (hvalid _ _ huser) (getOutput_spec sha1 _).2,
      hkept.accounts_eq] at hauth
    obtain ⟨account, haccount, hnamed, hpass⟩ := hauth
    exact ⟨account, haccount, hnamed, preq, password, horigin, hpassword, hpass⟩
  · intro path user overwrite hget hadmin
    obtain ⟨preq, _, hvalid, hgrants, hkept⟩ := h.granted path user overwrite hget
    have hmember := (adminAuthenticated_of_grants hvalid hgrants hadmin).member hkept.prepared
    rw [hkept.administrators_eq] at hmember
    exact ⟨registered_of_isAdmin hgrants hadmin, hmember⟩

/-- In every run from the tables of `prepareDatabase` that spares the root, whoever is online as a
registered user or as an administrator is one of the accounts of the start. -/
theorem online_of_run (hengine : RejectsIncomplete engine) {database : Database}
    (hdb : Prepared database) {events : List (Event Recorded Recorded.Turn)} {finish : Recorded}
    (hrun : Run (Recorded.turn engine sha1) (Recorded.start database) events finish)
    (hspares : ∀ event ∈ events, event.before.Spares event.action)
    (hrestrained : ∀ event ∈ Recorded.acts events,
      Restrained event.before.server event.action) :
    OnlineAccounts engine sha1 database finish :=
  (standing_of_run hengine hdb hrun hspares hrestrained).online

/-- The session of an administrator on a new file. -/
theorem online_session : ∃ events finish,
    Run (Recorded.turn .plain constantSha1) newServer events finish ∧
    events.map Event.action = administratorSession.map .act ∧
    OnlineAccounts .plain constantSha1 newServer.server.database finish := by
  obtain ⟨events, finish, hrun, hactions, _, hspares, hrestrained⟩ := restrained_session
  exact ⟨events, finish, hrun, hactions, online_of_run rejectsIncomplete_plain
    (separate_prepareDatabase _ _).1 hrun hspares hrestrained⟩

/-- On a new file, the default administrator is the only registered user who is ever online, unless
a name denotes a column. -/
theorem online_newFile (hengine : RejectsIncomplete engine)
    {events : List (Event Recorded Recorded.Turn)} {finish : Recorded}
    (hrun : Run (Recorded.turn engine sha1)
      (Recorded.start (prepareDatabase engine sha1 newFile).database) events finish)
    (hspares : ∀ event ∈ events, event.before.Spares event.action)
    (hrestrained : ∀ event ∈ Recorded.acts events,
      Restrained event.before.server event.action)
    {path : Path} {user : WheespaConnected} {overwrite : Bool}
    (hget : finish.server.tree.node.get? path = some (user, overwrite))
    (hregistered : user.registered = true) :
    user.key = "wAdministrator".toList ∨ DenotesColumn user.key := by
  obtain ⟨hprepared, haccounts, _, _⟩ := accounts_prepareDatabase engine sha1
  obtain ⟨account, haccount, hnamed, _⟩ :=
    (standing_of_run hengine hprepared hrun hspares hrestrained).online.registered path user
      overwrite hget hregistered
  rw [haccounts, List.mem_singleton] at haccount
  subst haccount
  by_cases hcolumn : DenotesColumn user.key
  · exact .inr hcolumn
  · have hnone : accountSchema.lookup? user.key = none := by simpa [DenotesColumn] using hcolumn
    rw [Account.isNamed, hnone, beq_iff_eq] at hnamed
    exact .inl hnamed.symm

end Wheespa
