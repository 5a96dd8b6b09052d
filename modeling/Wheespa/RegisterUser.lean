import Wheespa.PrepareDatabase
import Wheespa.StoredValues
import Wheespa.WheespaServer

/-!
# What a registration reports

`registerUser` returns a local variable that only a completed insertion assigns, so that a request
that is refused, or whose insertion fails, reports what the variable happened to hold.
`reports_iff` says exactly when the result tells whether the registration was stored.
-/

namespace Wheespa

open Sql

/-- What a registration asks to store. -/
structure Registration where
  user : Str
  digest : Str
  mail : Str

/-- The registration that the parameters ask for, where none of them is missing. -/
def ParseRequest.registration? (sha1 : Sha1) (self : ParseRequest) : Option Registration := do
  let username ← self.param "username".toList
  let password ← self.param "password".toList
  let email ← self.param "email".toList
  some ⟨username, getOutput sha1 password, email⟩

/-- The value that SQLite reads for a value of an insertion. -/
def literalValue (backend : Backend) (value : Str) : Value :=
  if isAllDigit value && !value.isEmpty then numberValue backend false value else .text value

namespace Registration

/-- The row that the insertion of the registration adds to a table. -/
def newRow (backend : Backend) (registration : Registration) (table : Table) : Option Row :=
  Sql.newRow backend
    ["W_USER".toList, "W_PASS".toList, "W_MAIL".toList, "W_KEY".toList] table
    ([registration.user, registration.digest, registration.mail, []].map (literalValue backend))

/-- `PendingRegistrations` is the table and takes the row. -/
structure TakenBy (backend : Backend) (registration : Registration) (database : Database)
    (table : Table) (row : Row) : Prop where
  found : database.table? "PendingRegistrations".toList = some table
  added : registration.newRow backend table = some row
  valid : table.schema.Valid (table.rows ++ [row])

/-- The row has the username, the digest and the email of the registration in their columns. -/
def HeldBy (registration : Registration) (schema : Schema) (row : Row) : Prop :=
  ∀ entry ∈ [("W_USER", registration.user), ("W_PASS", registration.digest),
      ("W_MAIL", registration.mail)],
    ∃ index, schema.lookup? entry.1.toList = some index ∧ row[index]? = some (.text entry.2)

/-- Exactly one row was added to `PendingRegistrations`, which has the username, the digest and the
email, and nothing else was changed. -/
def AddedTo (registration : Registration) (before after : Database) : Prop :=
  ∃ table table' row, before.table? "PendingRegistrations".toList = some table ∧
    after = before.set "PendingRegistrations".toList table' ∧ table'.schema = table.schema ∧
    table'.rows = table.rows ++ [row] ∧ registration.HeldBy table.schema row

end Registration

namespace ParseRequest

/-- The registration that `registerUser` inserts: it has the format, and the name is not found
taken. -/
structure Inserts (engine : Engine) (sha1 : Sha1) (preq : ParseRequest)
    (registration : Registration) : Prop where
  requested : preq.registration? sha1 = some registration
  format : preq.registersName = some registration.user
  free : (preq.checkExists engine registration.user).1 = false

/-- The result of `registerUser` is true exactly if the registration was added to
`PendingRegistrations`, and the database is as it was otherwise. -/
def Reports (engine : Engine) (sha1 : Sha1) (self : ParseRequest) (registered : Bool) : Prop :=
  let result := self.registerUser engine sha1 registered
  let added := ∃ registration, self.registration? sha1 = some registration ∧
    registration.AddedTo self.wDb.database result.2.wDb.database
  (result.1 = true ↔ added) ∧ (¬ added → result.2.wDb.database = self.wDb.database)

end ParseRequest

namespace Registration

/-- A value of an insertion is read as its literal. -/
theorem resolve_valueOperand (backend : Backend) (value : Str) :
    resolve backend [] (valueOperand value) = some (.literal (literalValue backend value)) := by
  unfold valueOperand literalValue
  split <;> rfl

/-- What the statement of the insertion does on a connection that does not enforce foreign keys. -/
theorem run_insertion (backend : Backend) {session : Session} (hopen : session.enforced = false)
    (registration : Registration) :
    Statement.run backend session (.insertValues "PendingRegistrations".toList
      ["W_USER".toList, "W_PASS".toList, "W_MAIL".toList, "W_KEY".toList]
      [valueOperand registration.user, valueOperand registration.digest,
        valueOperand registration.mail, .quoted []]) =
      (session.database.table? "PendingRegistrations".toList).bind fun table =>
        ((registration.newRow backend table).bind table.insert).map fun table' =>
          ({ session with
            database := session.database.set "PendingRegistrations".toList table' }, []) := by
  have hkey : resolve backend [] (.quoted []) = some (.literal (literalValue backend [])) := rfl
  cases htable : session.database.table? "PendingRegistrations".toList with
  | none => simp only [Statement.run, htable, Option.bind_eq_bind, Option.bind_none]
  | some table =>
      have hinsert : insertRow backend
          ["W_USER".toList, "W_PASS".toList, "W_MAIL".toList, "W_KEY".toList] table
          [literalValue backend registration.user, literalValue backend registration.digest,
            literalValue backend registration.mail, literalValue backend []] =
          (registration.newRow backend table).bind table.insert :=
        insertRow_eq_newRow backend table rfl
      simp only [Statement.run, htable, List.mapM_cons, List.mapM_nil, resolve_valueOperand, hkey,
        Option.bind_eq_bind, Option.bind_some, Option.pure_def, List.map_cons, List.map_nil,
        Term.eval, hinsert, hopen, Bool.not_false, Bool.true_or, if_true]
      cases (registration.newRow backend table).bind table.insert <;> rfl

/-- The insertion of a registration adds the row that the table takes, or fails and changes
nothing. -/
theorem insert_cases (engine : Engine) {db : FlexDB} (hopen : db.dbHandle.enforced = false)
    {registration : Registration} (huser : IsValue registration.user)
    (hdigest : IsValue registration.digest) (hmail : IsValue registration.mail) :
    let result := db.insert engine "PendingRegistrations".toList
      "W_USER, W_PASS, W_MAIL, W_KEY".toList
      [registration.user, registration.digest, registration.mail, []]
    (result.1.ok = false ∧ result.2.database = db.database ∧
        ∀ table row, ¬ registration.TakenBy engine.toBackend db.database table row) ∨
      (result.1.ok = true ∧ ∃ table row table',
        registration.TakenBy engine.toBackend db.database table row ∧
        table'.schema = table.schema ∧ table'.rows = table.rows ++ [row] ∧
        result.2.database = db.database.set "PendingRegistrations".toList table') := by
  intro result
  have htext := nul_not_mem_insertPending huser.not_mem.2.2 hdigest.not_mem.2.2 hmail.not_mem.2.2
  obtain ⟨hanswer, hafter⟩ := insert_eq engine db htext
    (parse_insertPending huser.not_mem.1 hdigest.not_mem.1 hmail.not_mem.1)
  have hrun := run_insertion engine.toBackend hopen registration
  have hdatabase : result.2.database =
      result.1.session.database := by
    show result.2.dbHandle.database = _
    rw [hafter, hanswer]
  cases hresult : (db.database.table? "PendingRegistrations".toList).bind fun table =>
      ((registration.newRow engine.toBackend table).bind table.insert).map fun table' =>
        (({ db.dbHandle with
          database := db.database.set "PendingRegistrations".toList table' }, []) :
            Session × List (List ResultCell)) with
  | none =>
      have hfail := run_singleton_none (hrun.trans hresult)
      refine .inl ⟨by rw [hanswer, hfail], by rw [hdatabase, hanswer, hfail]; rfl, ?_⟩
      rintro table row ⟨hfound, hadded, hvalid⟩
      have hinsert : table.insert row = some ⟨table.schema, _, hvalid⟩ := dif_pos hvalid
      rw [hfound, Option.bind_some, hadded, Option.bind_some, hinsert] at hresult
      exact absurd hresult (Option.some_ne_none _)
  | some after =>
      have hdone := run_singleton_some (hrun.trans hresult)
      obtain ⟨table, hfound, hmap⟩ := Option.bind_eq_some_iff.mp hresult
      obtain ⟨table', hinserted, rfl⟩ := Option.map_eq_some_iff.mp hmap
      obtain ⟨row, hadded, hinserted⟩ := Option.bind_eq_some_iff.mp hinserted
      obtain ⟨hschema, hrows⟩ := Table.insert_eq_some hinserted
      refine .inr ⟨by rw [hanswer, hdone], table, row, table', ⟨hfound, hadded, ?_⟩, hschema, hrows,
        by rw [hdatabase, hanswer, hdone]⟩
      rw [← hrows, ← hschema]
      exact table'.valid

/-- Nothing is added where nothing changes. -/
theorem not_addedTo_self (registration : Registration) (database : Database) :
    ¬ registration.AddedTo database database := by
  rintro ⟨table, table', row, hfound, hset, _, hrows, _⟩
  have hsame : database.table? "PendingRegistrations".toList = some table' := by
    rw [hset]
    exact Database.table?_set_self ..
  obtain rfl := Option.some.inj (hfound.symm.trans hsame)
  have hlength := congrArg List.length hrows
  rw [List.length_append, List.length_singleton] at hlength
  omega

/-- A row that was added to the table is added exactly as the registration asks where it holds
its texts. -/
theorem addedTo_iff {registration : Registration} {database : Database} {table table' : Table}
    {row : Row} (hfound : database.table? "PendingRegistrations".toList = some table)
    (hschema : table'.schema = table.schema) (hrows : table'.rows = table.rows ++ [row]) :
    registration.AddedTo database (database.set "PendingRegistrations".toList table') ↔
      registration.HeldBy table.schema row := by
  constructor
  · rintro ⟨other, other', row', hother, hset, _, hrows', hheld⟩
    obtain rfl := Option.some.inj (hfound.symm.trans hother)
    have hsame := Database.table?_set_self database "PendingRegistrations".toList table'
    rw [hset, Database.table?_set_self] at hsame
    obtain rfl := Option.some.inj hsame
    rw [hrows] at hrows'
    obtain rfl := (List.cons.inj (List.append_cancel_left hrows')).1
    exact hheld
  · exact fun hheld => ⟨table, table', row, hfound, rfl, hschema, hrows, hheld⟩

/-! ## The tables of `prepareDatabase` -/

/-- The row that the insertion adds to the table that `prepareDatabase` creates. -/
theorem newRow_prepared (backend : Backend) (registration : Registration) {table : Table}
    (hschema : table.schema = accountSchema) :
    registration.newRow backend table = (backend.newRowid (table.rowids 0)).map fun id =>
      (pendingAccount backend id registration.user registration.digest
        registration.mail).toRow := by
  have hvalue (value : Str) : literalValue backend value ≠ .null ∧
      toText (literalValue backend value) = .text (storedText backend value) := by
    obtain ⟨v, hv, hne, hstored⟩ := exists_value backend value
    rw [resolve_valueOperand] at hv
    obtain rfl := Term.literal.inj (Option.some.inj hv)
    exact ⟨hne, hstored⟩
  have hrow := newRow_account backend hschema (hvalue registration.user).1
    (hvalue registration.digest).1 (hvalue registration.mail).1 (hvalue []).1
  simp only [(hvalue _).2] at hrow
  exact hrow

/-- The pending accounts have no room for the name: it is pending already, as it is stored, or no
identity is left. -/
def NoRoom (backend : Backend) (registration : Registration) (database : Database) : Prop :=
  storedText backend registration.user ∈ users database "PendingRegistrations" ∨
    backend.newRowid ((accounts database "PendingRegistrations").map Account.id) = none

/-- The table that `prepareDatabase` creates takes the row where there is room for it. -/
theorem takenBy_iff (backend : Backend) {database : Database} (hdb : Prepared database)
    (registration : Registration) :
    (∃ table row, registration.TakenBy backend database table row) ↔
      ¬ registration.NoRoom backend database := by
  obtain ⟨table, hfound, hschema⟩ := hdb.pending
  have hrows := rows_eq_accounts hfound hschema
  have hids : table.rowids 0 = (accounts database "PendingRegistrations").map Account.id := by
    rw [Table.rowids, hrows, List.filterMap_map]
    exact congrFun List.filterMap_eq_map' _
  have hvalid := table.valid
  rw [hschema, hrows, valid_accounts_iff] at hvalid
  -- of the two unique columns, the identity is new and the name is compared as it is stored
  have htaken (id : Int) (hid : backend.newRowid (table.rowids 0) = some id) :
      table.schema.Valid (table.rows ++ [(pendingAccount backend id registration.user
        registration.digest registration.mail).toRow]) ↔
      storedText backend registration.user ∉ users database "PendingRegistrations" := by
    have hfresh := backend.newRowid_fresh _ _ hid
    rw [hids] at hfresh
    have happend := valid_accounts_iff (accounts database "PendingRegistrations" ++
      [pendingAccount backend id registration.user registration.digest registration.mail])
    rw [List.map_append, ← hrows, ← hschema] at happend
    simp only [List.map_cons, List.map_nil, List.map_append] at happend
    rw [happend, ← List.concat_eq_append, ← List.concat_eq_append, List.nodup_concat,
      List.nodup_concat]
    exact ⟨fun h => h.2.1, fun h => ⟨⟨hfresh, hvalid.1⟩, h, hvalid.2⟩⟩
  rw [NoRoom, not_or, ← hids]
  constructor
  · rintro ⟨other, row, hother, hadded, hvalid⟩
    obtain rfl := Option.some.inj (hfound.symm.trans hother)
    rw [newRow_prepared backend registration hschema] at hadded
    obtain ⟨id, hid, rfl⟩ := Option.map_eq_some_iff.mp hadded
    exact ⟨(htaken id hid).mp hvalid, by rw [hid]; exact Option.some_ne_none id⟩
  · rintro ⟨hname, hroom⟩
    obtain ⟨id, hid⟩ := Option.ne_none_iff_exists'.mp hroom
    refine ⟨table, _, hfound, ?_, (htaken id hid).mpr hname⟩
    rw [newRow_prepared backend registration hschema, hid, Option.map_some]

/-- The row that is added to the table that `prepareDatabase` creates has the texts of the
registration where these are stored as they are. -/
theorem heldBy_iff {backend : Backend} {database : Database} (hdb : Prepared database)
    {registration : Registration} {table : Table} {row : Row}
    (h : registration.TakenBy backend database table row) :
    registration.HeldBy table.schema row ↔ Verbatim backend registration.user ∧
      Verbatim backend registration.digest ∧ Verbatim backend registration.mail := by
  obtain ⟨table', hfound, hschema⟩ := hdb.pending
  obtain rfl := Option.some.inj (hfound.symm.trans h.found)
  have hadded := h.added
  rw [newRow_prepared backend registration hschema] at hadded
  obtain ⟨id, _, rfl⟩ := Option.map_eq_some_iff.mp hadded
  have huser : accountSchema.lookup? "W_USER".toList = some 1 := rfl
  have hpass : accountSchema.lookup? "W_PASS".toList = some 2 := rfl
  have hmail : accountSchema.lookup? "W_MAIL".toList = some 3 := rfl
  have hcell {index : Nat} {stored value : Str}
      (hstored : (pendingAccount backend id registration.user registration.digest
        registration.mail).toRow[index]? = some (.text (storedText backend stored))) :
      (∃ i, some index = some i ∧ (pendingAccount backend id registration.user registration.digest
        registration.mail).toRow[i]? = some (.text value)) ↔ storedText backend stored = value := by
    simp [hstored]
  simp only [HeldBy, hschema, List.forall_mem_cons, List.not_mem_nil, IsEmpty.forall_iff,
    implies_true, and_true, huser, hpass, hmail]
  rw [hcell (by rfl), hcell (by rfl), hcell (by rfl), storedText_eq_iff, storedText_eq_iff,
    storedText_eq_iff]

end Registration

/-! ## The result -/

namespace ParseRequest

/-- An email address is not all digits. -/
theorem verbatim_of_email (backend : Backend) {email : Str}
    (h : (emailRegex.fullMatch email).isSome) : Verbatim backend email := by
  obtain ⟨groups, hmatch⟩ := Option.isSome_iff_exists.mp h
  have hmem : '@' ∈ email := by
    obtain ⟨_, _, _, rfl, _, hrest⟩ := Regex.matches_seq.mp (Regex.fullMatch_sound hmatch)
    obtain ⟨_, _, _, rfl, hat, _⟩ := Regex.matches_seq.mp hrest
    obtain ⟨rfl, _⟩ := Regex.matches_text.mp hat
    simp
  intro hdigits
  rw [isAllDigit, List.all_eq_true] at hdigits
  exact absurd (hdigits '@' hmem) (by decide)

variable {engine : Engine} {sha1 : Sha1} {self : ParseRequest}

/-- Where the database is as it was, the result has to be false. -/
theorem reports_of_same {registered : Bool}
    (h : (self.registerUser engine sha1 registered).2.wDb.database = self.wDb.database) :
    self.Reports engine sha1 registered ↔
      (self.registerUser engine sha1 registered).1 = false := by
  have hadded : ¬ ∃ registration, self.registration? sha1 = some registration ∧
      registration.AddedTo self.wDb.database
        (self.registerUser engine sha1 registered).2.wDb.database := by
    rintro ⟨registration, _, hadded⟩
    rw [h] at hadded
    exact registration.not_addedTo_self _ hadded
  rw [← Bool.not_eq_true]
  exact ⟨fun hreports htrue => hadded (hreports.1.mp htrue),
    fun hfalse => ⟨iff_of_false hfalse hadded, fun _ => h⟩⟩

/-- The registration of a request that has its parameters. -/
theorem registration?_eq {username password email : Str}
    (husername : self.param "username".toList = some username)
    (hpassword : self.param "password".toList = some password)
    (hemail : self.param "email".toList = some email) (sha1 : Sha1) :
    self.registration? sha1 = some ⟨username, getOutput sha1 password, email⟩ := by
  simp only [registration?, husername, hpassword, hemail, Option.bind_eq_bind, Option.bind_some]

/-- The registration is inserted into a table that takes it as a row. -/
def Stores (engine : Engine) (sha1 : Sha1) (self : ParseRequest) (registration : Registration)
    (table : Table) (row : Row) : Prop :=
  self.Inserts engine sha1 registration ∧
    registration.TakenBy engine.toBackend self.wDb.database table row

/-- A request stores a single registration, as a single row. -/
theorem Stores.unique {registration registration' : Registration} {table table' : Table}
    {row row' : Row} (h : self.Stores engine sha1 registration table row)
    (h' : self.Stores engine sha1 registration' table' row') :
    registration = registration' ∧ table = table' ∧ row = row' := by
  obtain rfl := Option.some.inj (h.1.requested.symm.trans h'.1.requested)
  obtain rfl := Option.some.inj (h.2.found.symm.trans h'.2.found)
  exact ⟨rfl, rfl, Option.some.inj (h.2.added.symm.trans h'.2.added)⟩

/-- How `registerUser` comes to its end: a parameter is missing, and the result is false; no row is
added, and the result is the value of the variable; or a row is added, and the result is true. -/
inductive Outcome (engine : Engine) (sha1 : Sha1) (self : ParseRequest) (registered : Bool) :
    Bool × ParseRequest → Prop where
  | missing {after : ParseRequest} (hnone : self.registration? sha1 = none)
      (hsame : after.wDb.database = self.wDb.database) :
      Outcome engine sha1 self registered (false, after)
  | refused {after : ParseRequest} (hsome : self.registration? sha1 ≠ none)
      (hsame : after.wDb.database = self.wDb.database)
      (hnot : ∀ registration table row, ¬ self.Stores engine sha1 registration table row) :
      Outcome engine sha1 self registered (registered, after)
  | stored {after : ParseRequest} {registration : Registration} {table table' : Table} {row : Row}
      (hstores : self.Stores engine sha1 registration table row)
      (hschema : table'.schema = table.schema) (hrows : table'.rows = table.rows ++ [row])
      (hafter : after.wDb.database = self.wDb.database.set "PendingRegistrations".toList table') :
      Outcome engine sha1 self registered (true, after)

/-- A request without one of the parameters is for no registration. -/
theorem registration?_eq_none (h : ∀ username password email,
    self.param "username".toList = some username → self.param "password".toList = some password →
      self.param "email".toList ≠ some email) : self.registration? sha1 = none := by
  rw [Option.eq_none_iff_forall_ne_some]
  intro registration hsome
  obtain ⟨username, husername, hsome⟩ := Option.bind_eq_some_iff.mp hsome
  obtain ⟨password, hpassword, hsome⟩ := Option.bind_eq_some_iff.mp hsome
  obtain ⟨email, hemail, _⟩ := Option.bind_eq_some_iff.mp hsome
  exact h username password email husername hpassword hemail

/-- The outcome of the branch that inserts. -/
theorem insertPending_outcome (hvalid : self.ValidParams)
    (hopen : self.wDb.dbHandle.enforced = false) (registered : Bool)
    {username password email : Str} (husername : self.param "username".toList = some username)
    (hpassword : self.param "password".toList = some password)
    (hemail : self.param "email".toList = some email)
    (hname : self.registersName = some username)
    (hfree : (self.checkExists engine username).1 = false) :
    self.Outcome engine sha1 registered
      (if (self.insertPending engine sha1 username password email).1.ok then true else registered,
        (self.insertPending engine sha1 username password email).2) := by
  have hsome := registration?_eq husername hpassword hemail sha1
  have hinserts : self.Inserts engine sha1 ⟨username, getOutput sha1 password, email⟩ :=
    ⟨hsome, hname, hfree⟩
  have hquery : self.wDb.Executes engine IsSelect (self.checkExists engine username).2.wDb :=
    checkExists_executes engine (hvalid _ _ husername)
  have hchecked : (self.checkExists engine username).2.wDb.dbHandle = self.wDb.dbHandle :=
    hquery.dbHandle_eq
  have hdatabase : (self.checkExists engine username).2.wDb.database = self.wDb.database :=
    congrArg Session.database hchecked
  have hinsert := @Registration.insert_cases engine
    (self.checkExists engine username).2.wDb (by rw [hchecked, hopen])
    ⟨username, getOutput sha1 password, email⟩ (hvalid _ _ husername)
    (isValue_of_hex (getOutput_spec sha1 password).2) (hvalid _ _ hemail)
  rw [hdatabase] at hinsert
  rcases hinsert with ⟨hfail, hsame, hnot⟩ |
    ⟨hok, table, row, table', htaken, hschema, hrows, hafter⟩
  · have hfail : (self.insertPending engine sha1 username password email).1.ok = false := hfail
    rw [hfail]
    refine .refused (hsome ▸ Option.some_ne_none _) hsame fun registration table row hstores => ?_
    obtain rfl := Option.some.inj (hstores.1.requested.symm.trans hsome)
    exact hnot table row hstores.2
  · have hok : (self.insertPending engine sha1 username password email).1.ok = true := hok
    rw [hok]
    exact .stored ⟨hinserts, htaken⟩ hschema hrows hafter

/-- `registerUser` has one of these outcomes. -/
theorem registerUser_outcome (hvalid : self.ValidParams)
    (hopen : self.wDb.dbHandle.enforced = false) (registered : Bool) :
    self.Outcome engine sha1 registered (self.registerUser engine sha1 registered) := by
  rcases self.registerUser_spec engine sha1 registered with ⟨hmissing, _, hregister⟩ |
    ⟨username, password, email, husername, hpassword, hemail, hregister⟩
  · rw [hregister]
    exact .missing (registration?_eq_none hmissing) rfl
  · have hsome : self.registration? sha1 ≠ none := by
      rw [registration?_eq husername hpassword hemail]
      exact Option.some_ne_none _
    generalize self.registerUser engine sha1 registered = result at hregister
    cases hregister with
    | invalid hname =>
        refine .refused hsome rfl fun registration _ _ hstores => ?_
        rw [hstores.1.format] at hname
        exact absurd hname (Option.some_ne_none _)
    | taken hname htaken =>
        have hquery : self.wDb.Executes engine IsSelect (self.checkExists engine username).2.wDb :=
          checkExists_executes engine (hvalid _ _ husername)
        refine .refused hsome (congrArg Session.database hquery.dbHandle_eq)
          fun registration _ _ hstores => ?_
        obtain rfl := Option.some.inj (hname.symm.trans hstores.1.format)
        exact absurd (htaken.symm.trans hstores.1.free) Bool.false_ne_true.symm
    | insertion hname hfree =>
        exact insertPending_outcome hvalid hopen registered husername hpassword hemail hname hfree

/-- The result of `registerUser` tells what was stored exactly if the variable held false where the
parameters are there and no row is added, and a row that is added has the texts of the
registration. -/
theorem reports_iff_stores (hvalid : self.ValidParams)
    (hopen : self.wDb.dbHandle.enforced = false) (registered : Bool) :
    self.Reports engine sha1 registered ↔
      (self.registration? sha1 ≠ none →
        (∀ registration table row, ¬ self.Stores engine sha1 registration table row) →
          registered = false) ∧
      ∀ registration table row, self.Stores engine sha1 registration table row →
        registration.HeldBy table.schema row := by
  have houtcome := @registerUser_outcome engine sha1 self hvalid hopen registered
  generalize hresult : self.registerUser engine sha1 registered = result at houtcome
  cases houtcome with
  | missing hnone hsame =>
      rw [reports_of_same (by rw [hresult, hsame]), hresult]
      exact iff_of_true rfl ⟨fun hne => absurd hnone hne, fun registration _ _ hstores =>
        absurd (hnone.symm.trans hstores.1.requested) (Option.some_ne_none _).symm⟩
  | refused hsome hsame hnot =>
      rw [reports_of_same (by rw [hresult, hsame]), hresult]
      exact ⟨fun hfalse => ⟨fun _ _ => hfalse, fun _ _ _ hstores => absurd hstores (hnot _ _ _)⟩,
        fun h => h.1 hsome hnot⟩
  | @stored after registration table table' row hstores hschema hrows hafter =>
      have hadded := registration.addedTo_iff hstores.2.found hschema hrows
      have hreports : self.Reports engine sha1 registered ↔
          registration.HeldBy table.schema row := by
        simp only [Reports, hresult, hafter, hstores.1.requested, Option.some.injEq,
          exists_eq_left', hadded]
        exact ⟨fun h => h.1.mp trivial,
          fun hheld => ⟨iff_of_true trivial hheld, fun hnot => absurd hheld hnot⟩⟩
      rw [hreports]
      constructor
      · intro hheld
        refine ⟨fun _ hnot => absurd hstores (hnot _ _ _), fun _ _ _ hstores' => ?_⟩
        obtain ⟨rfl, rfl, rfl⟩ := hstores.unique hstores'
        exact hheld
      · exact fun h => h.2 _ table row hstores

/-- On the tables that `prepareDatabase` creates, the row of a registration is added where there is
room for it, and has the texts of the registration where the username and the digest are stored as
they are. -/
theorem reports_iff_room (hvalid : self.ValidParams)
    (hopen : self.wDb.dbHandle.enforced = false) (hdb : Prepared self.wDb.database)
    (registered : Bool) :
    self.Reports engine sha1 registered ↔
      (self.registration? sha1 ≠ none →
        (∀ registration, self.Inserts engine sha1 registration →
          registration.NoRoom engine.toBackend self.wDb.database) → registered = false) ∧
      ∀ registration, self.Inserts engine sha1 registration →
        ¬ registration.NoRoom engine.toBackend self.wDb.database →
          Verbatim engine.toBackend registration.user ∧
            Verbatim engine.toBackend registration.digest := by
  rw [reports_iff_stores hvalid hopen]
  have hstores : (∀ registration table row, ¬ self.Stores engine sha1 registration table row) ↔
      ∀ registration, self.Inserts engine sha1 registration →
        registration.NoRoom engine.toBackend self.wDb.database := by
    refine forall_congr' fun registration => ?_
    have hroom := registration.takenBy_iff engine.toBackend hdb
    constructor
    · intro hnot hinserts
      by_contra hroom'
      obtain ⟨table, row, htaken⟩ := hroom.mpr hroom'
      exact hnot table row ⟨hinserts, htaken⟩
    · intro hroom' table row hstores
      exact hroom.mp ⟨table, row, hstores.2⟩ (hroom' hstores.1)
  refine and_congr (forall_congr' fun _ => imp_congr_left hstores)
    (forall_congr' fun registration => ?_)
  have hmail (hinserts : self.Inserts engine sha1 registration) :
      Verbatim engine.toBackend registration.mail := by
    obtain ⟨username, husername, h⟩ := Option.bind_eq_some_iff.mp hinserts.requested
    obtain ⟨password, hpassword, h⟩ := Option.bind_eq_some_iff.mp h
    obtain ⟨email, hemail, h⟩ := Option.bind_eq_some_iff.mp h
    obtain rfl := Option.some.inj h
    have hformat := hinserts.format
    simp only [registersName, husername, hpassword, hemail, Option.ite_none_right_eq_some]
      at hformat
    exact verbatim_of_email _ hformat.1.2.2
  constructor
  · intro hheld hinserts hroom
    obtain ⟨table, row, htaken⟩ := (registration.takenBy_iff engine.toBackend hdb).mpr hroom
    obtain ⟨huser, hdigest, _⟩ :=
      (Registration.heldBy_iff hdb htaken).mp (hheld table row ⟨hinserts, htaken⟩)
    exact ⟨huser, hdigest⟩
  · rintro hverbatim table row ⟨hinserts, htaken⟩
    obtain ⟨huser, hdigest⟩ := hverbatim hinserts
      ((registration.takenBy_iff engine.toBackend hdb).mp ⟨table, row, htaken⟩)
    exact (Registration.heldBy_iff hdb htaken).mpr ⟨huser, hdigest, hmail hinserts⟩

/-- For every request and every database, the result of `registerUser` tells what was stored exactly
if the variable held false where the parameters are there and no row is added, and a row that is
added has the texts of the registration. On the tables that `prepareDatabase` creates, a row is
added where the registration has its format, the name is not found and there is room for it, and it
has these texts where the username and the digest are stored as they are. -/
theorem reports_iff (engine : Engine) (sha1 : Sha1) {server : Server} {ss : SocketStream}
    {text : Str} {disconnectRequested registered : Bool} {preq : ParseRequest}
    (hpreq : server.parseRequest (.request ss text disconnectRequested registered) = some preq) :
    (preq.Reports engine sha1 registered ↔
      (preq.registration? sha1 ≠ none →
        (∀ registration table row, ¬ preq.Stores engine sha1 registration table row) →
          registered = false) ∧
      ∀ registration table row, preq.Stores engine sha1 registration table row →
        registration.HeldBy table.schema row) ∧
    (Prepared server.database →
      (preq.Reports engine sha1 registered ↔
        (preq.registration? sha1 ≠ none →
          (∀ registration, preq.Inserts engine sha1 registration →
            registration.NoRoom engine.toBackend server.database) → registered = false) ∧
        ∀ registration, preq.Inserts engine sha1 registration →
          ¬ registration.NoRoom engine.toBackend server.database →
            Verbatim engine.toBackend registration.user ∧
              Verbatim engine.toBackend registration.digest)) := by
  obtain ⟨hvalid, _, hwDb, _⟩ := Server.parseRequest_eq hpreq
  have hopen : preq.wDb.dbHandle.enforced = false := by
    rw [hwDb]
    rfl
  have hdatabase : preq.wDb.database = server.database := by
    rw [hwDb]
    rfl
  refine ⟨reports_iff_stores hvalid hopen registered, fun hdb => ?_⟩
  rw [← hdatabase] at hdb ⊢
  exact reports_iff_room hvalid hopen hdb registered

/-- A server on the tables that `prepareDatabase` creates. -/
def freshServer : Server :=
  .start (preparedFile Engine.plain.toBackend constantSha1)

/-- What is read of the registration of alice. -/
def registersAlice (password : String) : Str :=
  "[WHEESPA_REGISTER]::username=alice:::password=".toList ++ password.toList ++
    ":::email=a@b:::".toList

/-- The registration of alice is stored and reported. -/
theorem reports_alice : ∃ preq,
    freshServer.parseRequest (.request 0 (registersAlice "secret1") false false) = some preq ∧
    (preq.registerUser .plain constantSha1 false).1 = true ∧
    preq.Reports .plain constantSha1 false := by
  have hprepared : Prepared freshServer.database := by
    have hprepared := (accounts_prepareDatabase .plain constantSha1).1
    rwa [database_prepareDatabase] at hprepared
  have hcomputed : (freshServer.parseRequest
      (.request 0 (registersAlice "secret1") false false)).any (fun preq =>
        (preq.registerUser .plain constantSha1 false).1 &&
          (preq.registration? constantSha1).all fun registration =>
            decide (Verbatim Engine.plain.toBackend registration.user ∧
              Verbatim Engine.plain.toBackend registration.digest)) = true := by
    decide +kernel
  obtain ⟨preq, hpreq, hcomputed⟩ := Option.any_eq_true _ _ |>.mp hcomputed
  rw [Bool.and_eq_true] at hcomputed
  refine ⟨preq, hpreq, hcomputed.1, ((reports_iff .plain constantSha1 hpreq).2 hprepared).mpr
    ⟨fun _ _ => rfl, fun registration hinserts _ => ?_⟩⟩
  have hverbatim := hcomputed.2
  rw [hinserts.requested] at hverbatim
  exact of_decide_eq_true hverbatim

/-- A result of true is wrong where the rows are as they were. -/
theorem not_reports {engine : Engine} {sha1 : Sha1} {self : ParseRequest} {registered : Bool}
    (htrue : (self.registerUser engine sha1 registered).1 = true)
    (hrows : (self.registerUser engine sha1 registered).2.wDb.database.rows
      "PendingRegistrations".toList = self.wDb.database.rows "PendingRegistrations".toList) :
    ¬ self.Reports engine sha1 registered := by
  rintro ⟨hreports, _⟩
  obtain ⟨registration, _, table, table', row, hfound, hafter, _, hadded, _⟩ := hreports.mp htrue
  rw [hafter, Database.rows, Database.rows, Database.table?_set_self, hfound] at hrows
  have hlength : (table.rows ++ [row]).length = table.rows.length :=
    congrArg List.length (hadded.symm.trans hrows)
  rw [List.length_append, List.length_singleton] at hlength
  omega

/-- A registration whose password is too short is reported as stored where the variable happens to
hold true. -/
theorem reports_refusal : ∃ preq,
    freshServer.parseRequest (.request 0 (registersAlice "x") false true) = some preq ∧
    rtMap preq.reqType = some .register ∧
    (preq.registerUser .plain constantSha1 true).1 = true ∧
    ¬ preq.Reports .plain constantSha1 true := by
  have hcomputed : (freshServer.parseRequest (.request 0 (registersAlice "x") false true)).any
      (fun preq => decide (rtMap preq.reqType = some .register) &&
        ((preq.registerUser .plain constantSha1 true).1 &&
          decide ((preq.registerUser .plain constantSha1 true).2.wDb.database.rows
            "PendingRegistrations".toList =
              preq.wDb.database.rows "PendingRegistrations".toList))) = true := by
    decide +kernel
  obtain ⟨preq, hpreq, hcomputed⟩ := Option.any_eq_true _ _ |>.mp hcomputed
  simp only [Bool.and_eq_true, decide_eq_true_eq] at hcomputed
  obtain ⟨htype, htrue, hrows⟩ := hcomputed
  exact ⟨preq, hpreq, htype, htrue, not_reports htrue hrows⟩

end ParseRequest

end Wheespa
