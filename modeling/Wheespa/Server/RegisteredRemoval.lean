import Wheespa.PrepareDatabase
import Wheespa.Server.AdminRights

/-!
# Removing a registered user

`REMOVE_REGISTERED` is for removing an account, and with it the row of `Administrators` that
references it, as the schema says. The condition is an address past the beginning of a literal, and
the connection does not enforce foreign keys. `removed_iff` says when the effect is right all the
same, what the condition is, and what the deletion would do with the condition that is meant.
-/

namespace Wheespa

open Sql

/-- An account of the identity has the name of the row of `Administrators`. -/
def namesRemoved (database : Database) (id : Int) (row : Row) : Bool :=
  (accounts database "Registered").any fun account =>
    account.id = id ∧ administrator row = some account.user

/-- What removing a registered user is for: the accounts of the identity are gone from `Registered`,
the rows that name them are gone from `Administrators`, and nothing else has changed. -/
def removeAccounts (database : Database) (id : Int) : Database := fun name =>
  (database name).map fun table =>
    if name = fold "Registered".toList then
      table.filter fun row => row[0]? != some (.integer id)
    else if name = fold "Administrators".toList then
      table.filter fun row => !namesRemoved database id row
    else table

/-- The row of an account is kept where the account has another identity. -/
theorem keep_toRow (account : Account) (id : Int) :
    (account.toRow[0]? != some (.integer id)) = decide (account.id ≠ id) := by
  have hfirst : account.toRow[0]? = some (.integer account.id) := rfl
  rw [hfirst]
  by_cases h : account.id = id <;> simp [h]

/-- The accounts of the identity are gone. -/
theorem table?_removeAccounts_registered {database : Database} {table : Table}
    (htable : database.table? "Registered".toList = some table) (id : Int) :
    (removeAccounts database id).table? "Registered".toList =
      some (table.filter fun row => row[0]? != some (.integer id)) := by
  have hname : database (fold "Registered".toList) = some table := htable
  simp only [Database.table?, removeAccounts, hname, Option.map_some, if_true]

/-- The administrators that they name are gone. -/
theorem table?_removeAccounts_administrators {database : Database} {table : Table}
    (htable : database.table? "Administrators".toList = some table) (id : Int) :
    (removeAccounts database id).table? "Administrators".toList =
      some (table.filter fun row => !namesRemoved database id row) := by
  have hname : database (fold "Administrators".toList) = some table := htable
  have hne : fold "Administrators".toList ≠ fold "Registered".toList := by decide
  simp only [Database.table?, removeAccounts, hname, Option.map_some, hne, if_true, if_false]

/-- Databases with the same tables `Registered` and `Administrators` as what is left are what is
left, if the other tables are as they were. -/
theorem eq_removeAccounts_iff {database after : Database} {registered administrators : Table}
    (hregistered : database.table? "Registered".toList = some registered)
    (hadministrators : database.table? "Administrators".toList = some administrators) (id : Int)
    (hothers : ∀ name, name ≠ fold "Registered".toList → name ≠ fold "Administrators".toList →
      after name = database name) :
    after = removeAccounts database id ↔
      after.table? "Registered".toList =
          some (registered.filter fun row => row[0]? != some (.integer id)) ∧
        after.table? "Administrators".toList =
          some (administrators.filter fun row => !namesRemoved database id row) := by
  rw [← table?_removeAccounts_registered hregistered id,
    ← table?_removeAccounts_administrators hadministrators id]
  constructor
  · rintro rfl
    exact ⟨rfl, rfl⟩
  · rintro ⟨hfirst, hsecond⟩
    funext name
    by_cases hname : name = fold "Registered".toList
    · subst hname
      exact hfirst
    by_cases hname' : name = fold "Administrators".toList
    · subst hname'
      exact hsecond
    · rw [hothers name hname hname', removeAccounts]
      simp only [hname, hname', if_false, Option.map_id']

/-- No account has the identity exactly where none is removed from `Registered`. -/
theorem filter_registered_iff {database : Database} {table : Table}
    (htable : database.table? "Registered".toList = some table)
    (hschema : table.schema = accountSchema) (id : Int) :
    table.filter (fun row => row[0]? != some (.integer id)) = table ↔
      ∀ account ∈ accounts database "Registered", account.id ≠ id := by
  rw [Table.filter_eq_self_iff, rows_eq_accounts htable hschema, List.forall_mem_map]
  simp only [keep_toRow, decide_eq_true_eq]

/-- No account of the identity is that of an administrator exactly where none is removed from
`Administrators`. -/
theorem filter_administrators_iff {database : Database} {table : Table}
    (htable : database.table? "Administrators".toList = some table) (id : Int) :
    table.filter (fun row => !namesRemoved database id row) = table ↔
      ∀ account ∈ accounts database "Registered", account.id = id →
        account.user ∉ administrators database := by
  have hnames : administrators database = table.rows.filterMap administrator := by
    rw [administrators, htable]
  rw [Table.filter_eq_self_iff, hnames]
  simp only [namesRemoved, Bool.not_eq_true', List.any_eq_false, decide_eq_true_eq, not_and,
    List.mem_filterMap, not_exists]
  exact ⟨fun h account haccount hid row hrow => h row hrow account haccount hid,
    fun h row hrow account haccount hid => h account haccount hid row hrow⟩

/-- Where no account has the identity, there is nothing to remove, and only there. -/
theorem eq_removeAccounts_self_iff {database : Database} (hdb : Prepared database) (id : Int) :
    database = removeAccounts database id ↔
      ∀ account ∈ accounts database "Registered", account.id ≠ id := by
  obtain ⟨registered, hregistered, hschema⟩ := hdb.registered
  obtain ⟨table, htable, _⟩ := hdb.administrators
  rw [eq_removeAccounts_iff hregistered htable id fun _ _ _ => rfl, hregistered, htable,
    Option.some.injEq, Option.some.injEq, eq_comm, filter_registered_iff hregistered hschema,
    eq_comm, filter_administrators_iff htable]
  exact and_iff_left_of_imp fun h account haccount hid => absurd hid (h account haccount)

/-- Where only the accounts of the identity are removed, that is right as long as none of them is an
administrator. -/
theorem set_eq_removeAccounts_iff {database : Database} (hdb : Prepared database)
    {registered : Table} (hregistered : database.table? "Registered".toList = some registered)
    (id : Int) :
    database.set "Registered".toList
        (registered.filter fun row => row[0]? != some (.integer id)) =
        removeAccounts database id ↔
      ∀ account ∈ accounts database "Registered", account.id = id →
        account.user ∉ administrators database := by
  obtain ⟨table, htable, _⟩ := hdb.administrators
  rw [eq_removeAccounts_iff hregistered htable id
      fun name hname _ => Function.update_of_ne hname ..,
    Database.table?_set_self, Database.table?_set_of_ne (by decide), htable,
    and_iff_right rfl, Option.some.injEq, eq_comm, filter_administrators_iff htable]

/-! ## The deletion -/

/-- What the deletion with the condition that is meant does on a connection that does not enforce
foreign keys: the accounts of the identity are gone. -/
theorem exec_deleteRegistered (engine : Engine) {database : Database} {table : Table}
    (htable : database.table? "Registered".toList = some table)
    (hschema : table.schema = accountSchema) {id : Int} (hid : id.natAbs < 2 ^ 63) :
    (engine.exec ⟨database, false⟩
      (cStr (deleteText "Registered" ("W_ID = ".toList ++ integerText id)))).session.database =
      database.set "Registered".toList
        (table.filter fun row => row[0]? != some (.integer id)) := by
  have hcolumn : resolve engine.toBackend [("Registered".toList, table.schema)]
      (.column none "W_ID".toList) = some (.column 0 0 .integer) := by
    rw [hschema]
    rfl
  have hcondition := resolveCondition_idCondition hcolumn hid
  -- on the rows of accounts, the condition compares the identity
  have hkeep : table.filter (fun row =>
      !holds engine.toBackend [[⟨.column 0 0 .integer, .literal (.integer id)⟩]] [row]) =
      table.filter fun row => row[0]? != some (.integer id) := by
    refine Table.filter_congr fun row hrow => ?_
    obtain ⟨account, rfl⟩ := Account.exists_toRow (hschema ▸ table.valid.fits row hrow)
    have hholds : holds engine.toBackend [[⟨.column 0 0 .integer, .literal (.integer id)⟩]]
        [account.toRow] = (account.id == id) := by
      simp [holds, Equation.holds, Term.eval, Term.affinity?, Account.toRow, toNumeric]
    rw [keep_toRow, hholds]
    by_cases h : account.id = id <;> simp [h]
  have hrun : (Statement.delete "Registered".toList (idCondition id)).run engine.toBackend
      ⟨database, false⟩ = some (⟨database.set "Registered".toList
        (table.filter fun row => row[0]? != some (.integer id)), false⟩, []) := by
    simp only [Statement.run, htable, hcondition, Option.bind_eq_bind, Option.bind_some, hkeep]
    rfl
  rw [exec_deleteText engine (.tail _ (.head _)), run_singleton_some hrun]

/-- The address past the beginning of the literal holds the condition that is meant exactly where it
is behind the literal and the memory there holds it. -/
theorem conditionAt_eq_iff (memory : Int → Str) (n : Nat) :
    conditionAt memory n = "W_ID = ".toList ++ integerText n ↔
      8 ≤ n ∧ memory n = "W_ID = ".toList ++ integerText n := by
  unfold conditionAt
  split
  · next hn =>
      -- an end of the literal is shorter
      refine iff_of_false (fun h => ?_) fun h => by omega
      have hlength := congrArg List.length h
      have hdigits : (integerText n).length > 0 :=
        List.length_pos_of_ne_nil (Nat.toDigits_ne_nil : Nat.toDigits 10 n ≠ [])
      rw [List.length_drop, List.length_append] at hlength
      omega
  · next hn => exact ⟨fun h => ⟨by omega, h⟩, fun h => h.2⟩

/-- The database is the one from which the right rows are removed where there is nothing to remove
and the condition is an end of the literal, or where the text behind the literal has that effect. -/
theorem exec_removeRegistered_iff {engine : Engine} (hengine : RejectsIncomplete engine)
    {database : Database} (hdb : Prepared database) (memory : Int → Str) (n : Nat) :
    (engine.exec ⟨database, false⟩
        (cStr (deleteText "Registered" (conditionAt memory n)))).session.database =
        removeAccounts database n ↔
      if n ≤ 7 then ∀ account ∈ accounts database "Registered", account.id ≠ n
      else (engine.exec ⟨database, false⟩
        (cStr (deleteText "Registered" (memory n)))).session.database =
          removeAccounts database n := by
  split
  · next hn =>
      rw [exec_incomplete hengine (.tail _ (.head _)) ⟨by omega, by omega⟩]
      exact eq_removeAccounts_self_iff hdb n
  · next hn => rw [conditionAt, if_neg (by omega)]

/-- For a number within `int`, an administrator's `REMOVE_REGISTERED` never executes its deletion on
a connection that enforces foreign keys, and with the condition that is meant only where that is
what the memory behind the literal holds. Its effect is right exactly where the number is at most 7
and there is nothing to remove, or where the text behind the literal, whatever it is, has that
effect; with the condition that is meant it is right exactly where no account that is removed is
that of an administrator. -/
theorem removed_iff (engine : Engine) (sha1 : Sha1) (hengine : RejectsIncomplete engine)
    {server : Server} (hdb : Prepared server.database) {path : Path}
    (hnode : server.HasAdministrator path) {recvd digits : Str}
    (hasks : Asks recvd .removeRegistered digits) {n : Nat}
    (hn : Nat.ofDigitChars 10 digits 0 = n) (hint : n < 2 ^ 31) (connType : Option ConnectType)
    (adminCmd : Option AdminCommand) (memory : Int → Str) (time : Int) :
    (∀ user self, HandleReceived.new recvd user server.database connType adminCmd = some self →
      self.db.dbHandle.enforced = false) ∧
    ∃ reaction, server.react engine sha1
        (.message path recvd connType adminCmd memory time) = some reaction ∧
      reaction.executed = [cStr (deleteText "Registered" (conditionAt memory n))] ∧
      (conditionAt memory n = "W_ID = ".toList ++ integerText n ↔
        8 ≤ n ∧ memory n = "W_ID = ".toList ++ integerText n) ∧
      (reaction.server.database = removeAccounts server.database n ↔
        if n ≤ 7 then ∀ account ∈ accounts server.database "Registered", account.id ≠ n
        else (engine.exec ⟨server.database, false⟩
          (cStr (deleteText "Registered" (memory n)))).session.database =
            removeAccounts server.database n) ∧
      (conditionAt memory n = "W_ID = ".toList ++ integerText n →
        (reaction.server.database = removeAccounts server.database n ↔
          ∀ account ∈ accounts server.database "Registered", account.id = n →
            account.user ∉ administrators server.database)) := by
  have hid : strtolInt digits = n := by
    rw [← hn] at hint ⊢
    exact (strtolInt_eq_iff digits).mpr hint
  obtain ⟨reaction, hreact, hexecuted, hserver⟩ := @Asks.react _ _ _ hasks engine sha1 server path
    hnode memory _ rfl connType adminCmd time
  rw [hid] at hexecuted hserver
  refine ⟨fun user self hnew => ?_, reaction, hreact, hexecuted, conditionAt_eq_iff memory n, ?_,
    fun hcondition => ?_⟩
  · rw [(HandleReceived.new_eq hnew).2.2.1]
    rfl
  · rw [hserver]
    exact exec_removeRegistered_iff hengine hdb memory n
  · obtain ⟨table, htable, hschema⟩ := hdb.registered
    have hsize : (n : Int).natAbs < 2 ^ 63 := by omega
    rw [hserver, hcondition, exec_deleteRegistered engine htable hschema hsize]
    exact set_eq_removeAccounts_iff hdb htable n

/-- Where no user has the identity, nothing is to be removed, and nothing is. -/
theorem removed_nobody :
    ∃ reaction, twoUsersServer.react .plain constantSha1
        (.message [] "WHEESPA_ADMINISTRATE::REMOVE_REGISTERED:::x::::5".toList none none
          (fun _ => []) 0) = some reaction ∧
      reaction.server.database = removeAccounts twoUsers 5 := by
  have hasks : Asks "WHEESPA_ADMINISTRATE::REMOVE_REGISTERED:::x::::5".toList
      .removeRegistered ['5'] := by
    decide +kernel
  obtain ⟨_, reaction, hreact, _, _, hiff, _⟩ := @removed_iff .plain constantSha1
    rejectsIncomplete_plain twoUsersServer prepared_twoUsers [] hasAdministrator_twoUsers _ _ hasks
    5 (by decide) (by decide) none none (fun _ => []) 0
  refine ⟨reaction, hreact, hiff.mpr ?_⟩
  rw [if_pos (by decide)]
  decide +kernel

/-- The user who is to be removed stays. -/
theorem not_removed_alice :
    ∃ reaction, twoUsersServer.react .plain constantSha1
        (.message [] "WHEESPA_ADMINISTRATE::REMOVE_REGISTERED:::x::::2".toList none none
          (fun _ => []) 0) = some reaction ∧
      alice ∈ accounts twoUsers "Registered" ∧ alice.id = 2 ∧
      alice ∈ accounts reaction.server.database "Registered" ∧
      reaction.server.database ≠ removeAccounts twoUsers 2 := by
  have hasks : Asks "WHEESPA_ADMINISTRATE::REMOVE_REGISTERED:::x::::2".toList
      .removeRegistered ['2'] := by
    decide +kernel
  obtain ⟨reaction, hreact, _, hserver⟩ := @Asks.react _ _ _ hasks .plain constantSha1
    twoUsersServer [] hasAdministrator_twoUsers (fun _ => []) _ rfl none none 0
  have hexec := exec_incomplete rejectsIncomplete_plain
    (.tail _ (.head _) : "Registered" ∈ ["Administrators", "Registered"])
    (by decide : 0 ≤ strtolInt ['2'] ∧ strtolInt ['2'] ≤ 7) (fun _ => []) ⟨twoUsers, false⟩
  have hsame : reaction.server.database = twoUsers := by
    rw [hserver]
    exact congrArg Session.database hexec
  have halice : alice ∈ accounts twoUsers "Registered" := by decide +kernel
  refine ⟨reaction, hreact, halice, rfl, hsame ▸ halice, fun h => ?_⟩
  rw [hsame, eq_removeAccounts_self_iff prepared_twoUsers] at h
  exact h alice halice rfl

end Wheespa
