import Mathlib.Data.List.Perm.Basic
import Wheespa.PrepareDatabase
import Wheespa.RequestQueries
import Wheespa.Server.AdminCommands

/-!
# Granting and withdrawing the rights of an administrator

`ADD_ADMIN` copies a column that `Administrators` does not have, and `REMOVE_ADMIN` hands
`deleteRecord` the address of a literal plus the identity in place of a condition. `rights_iff` says
when they do what they are for: the first where there is nothing to grant, and the second where no
administrator has the identity, or where what stands behind the literal in memory happens to be a
text that removes the row.
-/

namespace Wheespa

open Sql

/-- The identity is that of a registered user who is no administrator. -/
def Grantable (database : Database) (id : Int) : Prop :=
  ∃ account ∈ accounts database "Registered",
    account.id = id ∧ account.user ∉ administrators database

instance (database : Database) (id : Int) : Decidable (Grantable database id) :=
  inferInstanceAs (Decidable (∃ account ∈ accounts database "Registered", _))

/-- The request is one on the database that gives the name and a password. -/
structure LogsIn (preq : ParseRequest) (database : Database) (user password : Str) : Prop where
  valid : preq.ValidParams
  database : preq.wDb.database = database
  user : preq.param "username".toList = some user
  password : preq.param "password".toList = some password

/-- What granting the rights is for: `Administrators` holds one more row, which names the user, who
can log in as an administrator; and in every other case nothing changes. -/
structure Granted (engine : Engine) (sha1 : Sha1) (before after : Database) (id : Int) : Prop where
  added : ∀ account ∈ accounts before "Registered", account.id = id →
    account.user ∉ administrators before →
    (∃ newId, (after.rows "Administrators".toList).Perm
      ([.integer newId, .text account.user] :: before.rows "Administrators".toList)) ∧
    ∀ preq password, LogsIn preq after account.user password → 6 ≤ password.length →
      getOutput sha1 password = account.pass →
        ∃ final, preq.adminLogin engine sha1 = some (true, final)
  kept : ¬ Grantable before id → after = before

/-- Exactly the row is gone from `Administrators`, and nothing else has changed. -/
def RemovesAdministrator (before after : Database) (row : Row) : Prop :=
  ∃ table table', before.table? "Administrators".toList = some table ∧
    after = before.set "Administrators".toList table' ∧ table'.schema = table.schema ∧
    table.rows.Perm (row :: table'.rows)

/-- What withdrawing the rights is for: exactly the row of an administrator of the identity is gone,
who cannot log in as an administrator any more. -/
def Withdrawn (engine : Engine) (sha1 : Sha1) (before after : Database) (id : Int) : Prop :=
  ∀ user, [.integer id, .text user] ∈ before.rows "Administrators".toList →
    RemovesAdministrator before after [.integer id, .text user] ∧
    ∀ preq password, LogsIn preq after user password →
      ∀ result, preq.adminLogin engine sha1 = some result → result.1 = false

/-- A database that stays as it is has granted an identity exactly where there is nothing to
grant. -/
theorem granted_self_iff {engine : Engine} {sha1 : Sha1} {database : Database} {id : Int} :
    Granted engine sha1 database database id ↔ ¬ Grantable database id := by
  constructor
  · rintro h ⟨account, haccount, hid, huser⟩
    obtain ⟨⟨newId, hperm⟩, _⟩ := h.added account haccount hid huser
    have hlength := hperm.length_eq
    rw [List.length_cons] at hlength
    omega
  · intro h
    exact ⟨fun account haccount hid huser => absurd ⟨account, haccount, hid, huser⟩ h,
      fun _ => rfl⟩

/-- A row is not removed where nothing changes. -/
theorem not_removesAdministrator_self (database : Database) (row : Row) :
    ¬ RemovesAdministrator database database row := by
  rintro ⟨table, table', htable, hset, _, hperm⟩
  have hsame : database.table? "Administrators".toList = some table' := by
    rw [hset]
    exact Database.table?_set_self ..
  obtain rfl := Option.some.inj (htable.symm.trans hsame)
  have hlength := hperm.length_eq
  rw [List.length_cons] at hlength
  omega

/-- The names of the rows of a table with the schema of `Administrators` are distinct. -/
theorem nodup_names {rows : List Row} (h : administratorSchema.Valid rows) :
    (rows.filterMap administrator).Nodup := by
  have hunique := h.unique (⟨"W_USER".toList, .text, true, true, false⟩, 1) (.tail _ (.head _)) rfl
  have hvalues : nonNull (rows.filterMap fun row => row[1]?) =
      (rows.filterMap administrator).map Value.text := by
    have hfits := h.fits
    clear h hunique
    induction rows with
    | nil => rfl
    | cons row rows ih =>
        rw [List.forall_mem_cons] at hfits
        obtain ⟨id, name, rfl⟩ := exists_administrator hfits.1
        have hrest := ih hfits.2
        rw [nonNull] at hrest ⊢
        rw [List.filterMap_cons_some (by rfl), List.filterMap_cons_some (by rfl),
          List.filter_cons_of_pos (by rfl), hrest]
        rfl
  exact List.Nodup.of_map _ (hvalues ▸ hunique)

/-- Where exactly the row of an administrator is gone, `Administrators` does not name the user any
more. -/
theorem RemovesAdministrator.not_mem {before after : Database} (hdb : Prepared before) {id : Int}
    {user : Str} (h : RemovesAdministrator before after [.integer id, .text user]) :
    Prepared after ∧ user ∉ administrators after := by
  obtain ⟨table, table', htable, rfl, hschema, hperm⟩ := h
  obtain ⟨other, hother, hadministrators⟩ := hdb.administrators
  obtain rfl := Option.some.inj (htable.symm.trans hother)
  have htables : HasTables before _ _ _ := ⟨rfl, rfl, rfl⟩
  obtain ⟨hregistered, hpending, hset⟩ := htables.setAdministrators table'
  refine ⟨⟨?_, ?_, ⟨_, hset, hschema.trans hadministrators⟩⟩, ?_⟩
  · rw [hregistered]
    exact hdb.registered
  · rw [hpending]
    exact hdb.pending
  · have hnodup := nodup_names (hadministrators ▸ table.valid)
    rw [(hperm.filterMap administrator).nodup_iff, List.filterMap_cons_some (by rfl),
      List.nodup_cons] at hnodup
    rw [administrators, hset]
    exact hnodup.1

/-- Who is not named in `Administrators` cannot log in as an administrator. -/
theorem adminLogin_false {engine : Engine} {sha1 : Sha1} {preq : ParseRequest} {database : Database}
    {user password : Str} (h : LogsIn preq database user password) (hdb : Prepared database)
    (huser : user ∉ administrators database) {result : Bool × ParseRequest}
    (hlogin : preq.adminLogin engine sha1 = some result) : result.1 = false := by
  rcases preq.adminLogin_cases engine sha1 with ⟨_, hadmin⟩ | ⟨username, husername, _, hadmin⟩
  · obtain rfl := Option.some.inj (hadmin.symm.trans hlogin)
    rfl
  · obtain rfl := Option.some.inj (hadmin.symm.trans hlogin)
    obtain rfl := Option.some.inj (husername.symm.trans h.user)
    rw [ParseRequest.queryExists_login engine sha1 h.valid, Bool.eq_false_iff, ne_eq,
      administrator_iff engine (h.database ▸ hdb) (h.valid _ _ h.user), h.database]
    exact huser

/-- A text that names the column `W_ID` removes nothing from `Administrators`, which does not have
it. -/
theorem exec_deleteAdministrator (engine : Engine) {database : Database} (hdb : Prepared database)
    (id : Int) :
    (engine.exec ⟨database, false⟩
      (cStr (deleteText "Administrators" ("W_ID = ".toList ++ integerText id)))).session.database =
      database := by
  obtain ⟨table, hfound, hschema⟩ := hdb.administrators
  have hrun : (Statement.delete "Administrators".toList (idCondition id)).run engine.toBackend
      ⟨database, false⟩ = none := by
    have hcondition : resolveCondition engine.toBackend
        [("Administrators".toList, table.schema)] (idCondition id) = none := by
      rw [hschema]
      rfl
    simp only [Statement.run, hfound, hcondition, Option.bind_eq_bind, Option.bind_some,
      Option.bind_none]
  rw [exec_deleteText engine (.head _), run_singleton_none hrun]

/-- A `REMOVE_ADMIN` withdraws the rights where no administrator has the identity, or the text
behind the literal removes exactly the row. -/
theorem withdrawn_iff {engine : Engine} {sha1 : Sha1} (hengine : RejectsIncomplete engine)
    {database : Database} (hdb : Prepared database) (memory : Int → Str) (id number : Int) :
    Withdrawn engine sha1 database (engine.exec ⟨database, false⟩
        (cStr (deleteText "Administrators" (conditionAt memory id)))).session.database number ↔
      ∀ user, [.integer number, .text user] ∈ database.rows "Administrators".toList →
        ¬ (0 ≤ id ∧ id ≤ 7) ∧ RemovesAdministrator database (engine.exec ⟨database, false⟩
          (cStr (deleteText "Administrators" (memory id)))).session.database
            [.integer number, .text user] := by
  refine forall₂_congr fun user hmem => ?_
  by_cases hid : 0 ≤ id ∧ id ≤ 7
  · -- the condition is not complete
    rw [exec_incomplete hengine (.head _) hid memory]
    refine iff_of_false (fun h => ?_) fun h => h.1 hid
    exact not_removesAdministrator_self database _ h.1
  · rw [conditionAt, if_neg hid]
    refine ⟨fun h => ⟨hid, h.1⟩, fun h => ⟨h.2, fun preq password hlogs result hlogin => ?_⟩⟩
    obtain ⟨hprepared, huser⟩ := h.2.not_mem hdb
    exact adminLogin_false hlogs hprepared huser hlogin

/-- On the tables that `prepareDatabase` creates, an administrator's `ADD_ADMIN` does what it is for
exactly where the number sent is not that of a registered user who is no administrator, and
`REMOVE_ADMIN` exactly where no administrator has the number, or the text behind the literal removes
exactly the row of the one who has; and a text that names the column `W_ID`, as the literal does,
removes nothing. -/
theorem rights_iff (engine : Engine) (sha1 : Sha1) (hengine : RejectsIncomplete engine)
    {server : Server} (hdb : Prepared server.database) {path : Path}
    (hnode : server.HasAdministrator path) {recvd digits : Str} (connType : Option ConnectType)
    (adminCmd : Option AdminCommand) (memory : Int → Str) (time : Int) :
    (Asks recvd .addAdmin digits → ∃ reaction, server.react engine sha1
        (.message path recvd connType adminCmd memory time) = some reaction ∧
      (Granted engine sha1 server.database reaction.server.database
          (Nat.ofDigitChars 10 digits 0) ↔
        ¬ Grantable server.database (Nat.ofDigitChars 10 digits 0))) ∧
    (Asks recvd .removeAdmin digits → ∃ reaction, server.react engine sha1
        (.message path recvd connType adminCmd memory time) = some reaction ∧
      (Withdrawn engine sha1 server.database reaction.server.database
          (Nat.ofDigitChars 10 digits 0) ↔
        ∀ user, [.integer (Nat.ofDigitChars 10 digits 0), .text user] ∈
            server.database.rows "Administrators".toList →
          ¬ (0 ≤ strtolInt digits ∧ strtolInt digits ≤ 7) ∧
          RemovesAdministrator server.database (engine.exec ⟨server.database, false⟩
            (cStr (deleteText "Administrators" (memory (strtolInt digits))))).session.database
              [.integer (Nat.ofDigitChars 10 digits 0), .text user])) ∧
    ∀ id, (engine.exec ⟨server.database, false⟩ (cStr (deleteText "Administrators"
      ("W_ID = ".toList ++ integerText id)))).session.database = server.database := by
  refine ⟨fun hasks => ?_, fun hasks => ?_, exec_deleteAdministrator engine hdb⟩
  · obtain ⟨reaction, hreact, hserver⟩ :=
      hasks.react_prepared rfl engine sha1 hdb hnode connType adminCmd memory time
    refine ⟨reaction, hreact, ?_⟩
    rw [hserver]
    exact granted_self_iff
  · obtain ⟨reaction, hreact, _, hserver⟩ := @Asks.react _ _ _ hasks engine sha1 server path hnode
      memory _ rfl connType adminCmd time
    refine ⟨reaction, hreact, ?_⟩
    rw [hserver]
    exact withdrawn_iff hengine hdb memory _ _

/-- Another user who has registered. -/
def alice : Account :=
  ⟨2, "alice".toList, "ABABAB".toList, "a@x.y".toList, some []⟩

/-- The tables that `prepareDatabase` creates, with two users, one of whom is an administrator. -/
def twoUsers : Database := fun name =>
  if name = fold "Registered".toList then
    some ⟨accountSchema, [(defaultAccount Engine.plain.toBackend constantSha1).toRow, alice.toRow],
      (valid_accounts_iff [_, _]).mpr (by decide)⟩
  else if name = fold "PendingRegistrations".toList then some (.empty accountSchema)
  else if name = fold "Administrators".toList then some defaultAdministrators
  else none

/-- A server on this database, with an administrator logged in. -/
def twoUsersServer : Server :=
  ⟨⟨.new ⟨"root".toList, some 0, true, true, []⟩, []⟩, twoUsers, 0, false⟩

/-- The database has the tables that `prepareDatabase` creates. -/
theorem prepared_twoUsers : Prepared twoUsers :=
  ⟨⟨_, rfl, rfl⟩, ⟨_, rfl, rfl⟩, ⟨_, rfl, rfl⟩⟩

/-- The administrator of this server. -/
theorem hasAdministrator_twoUsers : twoUsersServer.HasAdministrator [] :=
  ⟨_, rfl, rfl⟩

/-- The rights of a present administrator stay, and nobody loses the rights of an identity that no
administrator has. -/
theorem rights_kept :
    (∃ reaction, twoUsersServer.react .plain constantSha1
        (.message [] "WHEESPA_ADMINISTRATE::ADD_ADMIN:::x::::1".toList none none (fun _ => []) 0) =
          some reaction ∧
      Granted .plain constantSha1 twoUsers reaction.server.database 1) ∧
    ∃ reaction, twoUsersServer.react .plain constantSha1
        (.message [] "WHEESPA_ADMINISTRATE::REMOVE_ADMIN:::x::::2".toList none none
          (fun _ => []) 0) = some reaction ∧
      Withdrawn .plain constantSha1 twoUsers reaction.server.database 2 := by
  constructor
  · obtain ⟨reaction, hreact, hiff⟩ := (@rights_iff .plain constantSha1 rejectsIncomplete_plain
      twoUsersServer prepared_twoUsers [] hasAdministrator_twoUsers
      "WHEESPA_ADMINISTRATE::ADD_ADMIN:::x::::1".toList ['1'] none none (fun _ => []) 0).1
      (by decide +kernel)
    exact ⟨reaction, hreact, hiff.mpr (by decide +kernel)⟩
  · obtain ⟨reaction, hreact, hiff⟩ := (@rights_iff .plain constantSha1 rejectsIncomplete_plain
      twoUsersServer prepared_twoUsers [] hasAdministrator_twoUsers
      "WHEESPA_ADMINISTRATE::REMOVE_ADMIN:::x::::2".toList ['2'] none none (fun _ => []) 0).2.1
      (by decide +kernel)
    refine ⟨reaction, hreact, hiff.mpr fun user hmem => ?_⟩
    have hrows : twoUsersServer.database.rows "Administrators".toList =
        [[.integer 1, .text "wAdministrator".toList]] := rfl
    rw [hrows, List.mem_singleton] at hmem
    exact absurd hmem (by simp [Nat.ofDigitChars])

/-- The rights of a registered user are not granted, and those of the administrator are not
withdrawn. -/
theorem rights_fail :
    (∃ reaction, twoUsersServer.react .plain constantSha1
        (.message [] "WHEESPA_ADMINISTRATE::ADD_ADMIN:::x::::2".toList none none (fun _ => []) 0) =
          some reaction ∧
      Grantable twoUsers 2 ∧ ¬ Granted .plain constantSha1 twoUsers reaction.server.database 2) ∧
    ∃ reaction, twoUsersServer.react .plain constantSha1
        (.message [] "WHEESPA_ADMINISTRATE::REMOVE_ADMIN:::x::::1".toList none none
          (fun _ => []) 0) = some reaction ∧
      ¬ Withdrawn .plain constantSha1 twoUsers reaction.server.database 1 := by
  constructor
  · have hasks : Asks "WHEESPA_ADMINISTRATE::ADD_ADMIN:::x::::2".toList .addAdmin ['2'] := by
      decide +kernel
    obtain ⟨reaction, hreact, hserver⟩ := @Asks.react_prepared _ _ _ hasks rfl .plain constantSha1
      twoUsersServer prepared_twoUsers [] hasAdministrator_twoUsers none none (fun _ => []) 0
    have hgrantable : Grantable twoUsers 2 := by decide +kernel
    refine ⟨reaction, hreact, hgrantable, ?_⟩
    rw [hserver]
    exact fun hgranted => granted_self_iff.mp hgranted hgrantable
  · have hasks : Asks "WHEESPA_ADMINISTRATE::REMOVE_ADMIN:::x::::1".toList .removeAdmin ['1'] := by
      decide +kernel
    obtain ⟨reaction, hreact, _, hserver⟩ := @Asks.react _ _ _ hasks .plain constantSha1
      twoUsersServer [] hasAdministrator_twoUsers (fun _ => []) _ rfl none none 0
    refine ⟨reaction, hreact, ?_⟩
    have hiff := @withdrawn_iff .plain constantSha1 rejectsIncomplete_plain twoUsers
      prepared_twoUsers (fun _ => []) (strtolInt ['1']) 1
    rw [hserver]
    intro hwithdrawn
    exact (hiff.mp hwithdrawn "wAdministrator".toList (.head _)).1 (by decide)

end Wheespa
