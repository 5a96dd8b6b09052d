import Wheespa.Server.AdminRights

/-!
# The identity that a command acts on

`ACCEPT_REGISTRATION` and `ADD_ADMIN` copy the row with the identity sent. The digits go through
`strtol`, which stops at the largest `long`, and an assignment to an `int`, which keeps the lower 32
bits, so that a number from 2^31 on becomes another identity. `identity_iff` says on which numbers
that cannot do harm, whatever the tables are; with those that `prepareDatabase` creates neither
command changes anything.
-/

namespace Wheespa

open Sql

/-- What is executed is a text that begins with the copy of the rows of an identity. -/
def CopiesIdentity (executed : List Str) (target source : String) (id : Int) : Prop :=
  ∃ text rest, executed = [text] ∧ parse text = some (copyStatement target source id :: rest)

/-- The row is one that the copy finds in a table of the name. -/
def HasIdentity (backend : Backend) (source : String) (table : Table) (id : Int) (row : Row) :
    Prop :=
  row ∈ table.rows ∧ ∃ condition,
    resolveCondition backend [(source.toList, table.schema)] (idCondition id) = some condition ∧
    holds backend condition [row] = true

/-- The message can change the server, by a copy that finds the row. -/
def ActsOn (engine : Engine) (sha1 : Sha1) (server : Server) (path : Path) (recvd : Str)
    (target source : String) (row : Row) : Prop :=
  ∃ connType adminCmd memory time reaction table id,
    server.react engine sha1 (.message path recvd connType adminCmd memory time) = some reaction ∧
    reaction.server ≠ server ∧ CopiesIdentity reaction.executed target source id ∧
    server.database.table? source.toList = some table ∧
    HasIdentity engine.toBackend source table id row

/-- The identity in a copy. -/
theorem copyStatement_injective {target source : String} {id id' : Int}
    (h : copyStatement target source id = copyStatement target source id') : id = id' := by
  simp only [copyStatement, idCondition, Statement.insertSelect.injEq, Query.mk.injEq,
    List.cons.injEq, Comparison.mk.injEq, true_and, and_true] at h
  exact integerOperand_injective h

/-- A text begins with the copy of a single identity. -/
theorem CopiesIdentity.unique {executed : List Str} {target source : String} {id id' : Int}
    (h : CopiesIdentity executed target source id)
    (h' : CopiesIdentity executed target source id') : id = id' := by
  obtain ⟨text, rest, rfl, hparse⟩ := h
  obtain ⟨text', rest', htext, hparse'⟩ := h'
  obtain rfl := List.singleton_injective htext
  rw [hparse, Option.some.injEq, List.cons.injEq] at hparse'
  exact copyStatement_injective hparse'.1

/-- A term equals a single integer, under whatever affinity it is compared. -/
theorem Equation.holds_integer_unique {backend : Backend} {rows : List Row} {term : Term}
    {id id' : Int} (h : Equation.holds backend rows ⟨term, .literal (.integer id)⟩ = true)
    (h' : Equation.holds backend rows ⟨term, .literal (.integer id')⟩ = true) : id = id' := by
  have hsame {a b c : Value} (hb : same a b = true) (hc : same a c = true) : b = c := by
    simp only [same, Bool.and_eq_true, beq_iff_eq] at hb hc
    exact hb.2.symm.trans hc.2
  cases term with
  | literal value =>
      simp only [Equation.holds, Term.affinity?, Term.eval] at h h'
      exact Value.integer.inj (hsame h h')
  | column table index affinity =>
      cases affinity with
      | integer =>
          simp only [Equation.holds, Term.affinity?, Term.eval, toNumeric] at h h'
          exact Value.integer.inj (hsame h h')
      | text =>
          simp only [Equation.holds, Term.affinity?, Term.eval, toText] at h h'
          exact integerText_injective (Value.text.inj (hsame h h'))

/-- A row of a table has a single identity, whatever the column `W_ID` is. -/
theorem HasIdentity.unique {backend : Backend} {source : String} {table table' : Table}
    {id id' : Int} {row : Row} (h : HasIdentity backend source table id row)
    (h' : HasIdentity backend source table' id' row) (hschema : table.schema = table'.schema)
    (hid : id.natAbs < 2 ^ 63) (hid' : id'.natAbs < 2 ^ 63) : id = id' := by
  obtain ⟨_, condition, hcondition, hholds⟩ := h
  obtain ⟨_, condition', hcondition', hholds'⟩ := h'
  rw [← hschema] at hcondition'
  cases hcolumn : resolve backend [(source.toList, table.schema)] (.column none "W_ID".toList) with
  | none =>
      simp only [resolveCondition, idCondition, List.mapM_cons, List.mapM_nil, hcolumn,
        Option.bind_eq_bind, Option.bind_none] at hcondition
      exact absurd hcondition (Option.some_ne_none _).symm
  | some term =>
      rw [resolveCondition_idCondition hcolumn hid, Option.some.injEq] at hcondition
      rw [resolveCondition_idCondition hcolumn hid', Option.some.injEq] at hcondition'
      subst hcondition hcondition'
      simp only [holds, List.any_cons, List.any_nil, List.all_cons, List.all_nil, Bool.and_true,
        Bool.or_false] at hholds hholds'
      exact Equation.holds_integer_unique hholds hholds'

/-- A command that copies a row hands SQLite a text that begins with the copy of the value of the
digits, on a connection that does not enforce foreign keys. -/
theorem Asks.react_copy {recvd : Str} {command : AdminCommand} {digits : Str}
    (h : Asks recvd command digits) {target source : String}
    (htables : command.tables = some (target, source)) (engine : Engine) (sha1 : Sha1)
    {server : Server} {path : Path} (hnode : server.HasAdministrator path)
    (connType : Option ConnectType) (adminCmd : Option AdminCommand) (memory : Int → Str)
    (time : Int) :
    ∃ reaction text rest, server.react engine sha1
        (.message path recvd connType adminCmd memory time) = some reaction ∧
      reaction.executed = [text] ∧
      parse text = some (copyStatement target source (strtolInt digits) :: rest) ∧
      (rest = [] ∨ rest = [.delete source.toList (idCondition (strtolInt digits))]) ∧
      reaction.server = { server with
        database := (engine.exec ⟨server.database, false⟩ text).session.database } := by
  cases command with
  | acceptRegistration =>
      obtain ⟨rfl, rfl⟩ := Prod.mk.inj (Option.some.inj htables)
      obtain ⟨reaction, hreact, hexecuted, hserver⟩ := @Asks.react _ _ _ h engine sha1 server path
        hnode memory _ rfl connType adminCmd time
      rw [cStr_of_not_mem (nul_not_mem_acceptQuery _)] at hexecuted hserver
      exact ⟨reaction, _, _, hreact, hexecuted, parse_acceptQuery _, .inr rfl, hserver⟩
  | addAdmin =>
      obtain ⟨rfl, rfl⟩ := Prod.mk.inj (Option.some.inj htables)
      obtain ⟨reaction, hreact, hexecuted, hserver⟩ := @Asks.react _ _ _ h engine sha1 server path
        hnode memory _ rfl connType adminCmd time
      rw [cStr_of_not_mem (nul_not_mem_addAdminQuery _)] at hexecuted hserver
      exact ⟨reaction, _, _, hreact, hexecuted, parse_addAdminQuery _, .inl rfl, hserver⟩
  | getPending | getRegistered | getAdmins | openChannel | removeAdmin | removeRegistered =>
      cases htables

/-- The identity in what is executed for the digits is their value. -/
theorem Asks.eq_of_copiesIdentity {recvd : Str} {command : AdminCommand} {digits : Str}
    (h : Asks recvd command digits) {target source : String}
    (htables : command.tables = some (target, source)) {engine : Engine} {sha1 : Sha1}
    {server : Server} {path : Path} (hnode : server.HasAdministrator path)
    {connType : Option ConnectType} {adminCmd : Option AdminCommand} {memory : Int → Str}
    {time : Int} {reaction : Reaction} (hreact : server.react engine sha1
      (.message path recvd connType adminCmd memory time) = some reaction) {id : Int}
    (hcopies : CopiesIdentity reaction.executed target source id) : id = strtolInt digits := by
  obtain ⟨other, text, rest, hother, hexecuted, hparse, _⟩ :=
    @Asks.react_copy _ _ _ h _ _ htables engine sha1 _ _ hnode connType adminCmd memory time
  obtain rfl := Option.some.inj (hreact.symm.trans hother)
  exact hcopies.unique ⟨text, rest, hexecuted, hparse⟩

/-! ## Tables with the columns that the copies name -/

/-- The columns that the copies name, without constraints. -/
def credentialSchema : Schema :=
  ⟨[⟨"W_ID".toList, .integer, false, false, false⟩, ⟨"W_USER".toList, .text, false, false, false⟩,
    ⟨"W_PASS".toList, .text, false, false, false⟩], []⟩

/-- A row with the identity. -/
def credentialRow (id : Int) : Row :=
  [.integer id, .text "root".toList, .text "ABABAB".toList]

/-- The table with this row. -/
def credentialTable (id : Int) : Table :=
  ⟨credentialSchema, [credentialRow id], .singleton (.cons rfl (.cons rfl (.cons rfl .nil)))⟩

/-- The table with a copy of the row, which has no identity. -/
def copiedTable (id : Int) : Table :=
  ⟨credentialSchema, [credentialRow id, .null :: (credentialRow id).tail], by
    refine ⟨fun row hrow => ?_, fun column hcolumn hunique => ?_⟩
    · rcases List.mem_pair.mp hrow with rfl | rfl <;>
        exact .cons rfl (.cons rfl (.cons rfl .nil))
    · -- no column is unique
      have hnone : ∀ column ∈ credentialSchema.columns.zipIdx, column.1.unique = false := by decide
      rw [hnone column hcolumn] at hunique
      cases hunique⟩

/-- A database file with this table under each of the names. -/
def credentialDatabase (id : Int) : Database := fun name =>
  if name = fold "Registered".toList ∨ name = fold "PendingRegistrations".toList ∨
      name = fold "Administrators".toList then
    some (credentialTable id)
  else none

/-- A server on this file, with an administrator logged in. -/
def credentialServer (id : Int) : Server :=
  ⟨⟨.new ⟨"root".toList, some 0, true, true, []⟩, []⟩, credentialDatabase id, 0, false⟩

/-- The administrator of this server. -/
theorem hasAdministrator_credentialServer (id : Int) :
    (credentialServer id).HasAdministrator [] :=
  ⟨_, rfl, rfl⟩

/-- The tables of a command are different ones of the file. -/
theorem AdminCommand.tables_credential {command : AdminCommand} {target source : String}
    (h : command.tables = some (target, source)) (id : Int) :
    (credentialDatabase id).table? target.toList = some (credentialTable id) ∧
      (credentialDatabase id).table? source.toList = some (credentialTable id) ∧
      fold target.toList ≠ fold source.toList := by
  cases command with
  | acceptRegistration | addAdmin =>
      obtain ⟨rfl, rfl⟩ := Prod.mk.inj (Option.some.inj h)
      exact ⟨rfl, rfl, by decide⟩
  | getPending | getRegistered | getAdmins | openChannel | removeAdmin | removeRegistered =>
      cases h

/-- The condition of a copy, on this table. -/
theorem resolveCondition_credential (backend : Backend) (source : String) {id : Int}
    (hid : id.natAbs < 2 ^ 63) :
    resolveCondition backend [(source.toList, credentialSchema)] (idCondition id) =
      some [[⟨.column 0 0 .integer, .literal (.integer id)⟩]] :=
  resolveCondition_idCondition rfl hid

/-- The row has the identity. -/
theorem holds_credentialRow (backend : Backend) (id : Int) :
    holds backend [[⟨.column 0 0 .integer, .literal (.integer id)⟩]] [credentialRow id] = true := by
  simp [holds, Equation.holds, Term.eval, Term.affinity?, credentialRow, toNumeric]

/-- The copy adds a row. -/
theorem copyStatement_run_credential (backend : Backend) {target source : String} {id : Int}
    (htarget : (credentialDatabase id).table? target.toList = some (credentialTable id))
    (hsource : (credentialDatabase id).table? source.toList = some (credentialTable id))
    (hid : id.natAbs < 2 ^ 63) :
    (copyStatement target source id).run backend ⟨credentialDatabase id, false⟩ =
      some (⟨(credentialDatabase id).set target.toList (copiedTable id), false⟩, []) := by
  have hcolumns : ["W_USER".toList, "W_PASS".toList].mapM (credentialTable id).schema.lookup? =
      some [1, 2] := rfl
  have huser : resolve backend [(source.toList, credentialSchema)] (.column none "W_USER".toList) =
      some (.column 0 1 .text) := rfl
  have hpass : resolve backend [(source.toList, credentialSchema)] (.column none "W_PASS".toList) =
      some (.column 0 2 .text) := rfl
  have hquery : Query.run backend (credentialDatabase id)
      ⟨some [.column none "W_USER".toList, .column none "W_PASS".toList],
        [⟨source.toList, source.toList⟩], idCondition id⟩ =
      some [[("W_USER".toList, .text "root".toList),
        ("W_PASS".toList, .text "ABABAB".toList)]] := by
    have hschema : (credentialTable id).schema = credentialSchema := rfl
    have hrows : [(credentialTable id).rows].sections = [[credentialRow id]] := rfl
    simp only [Query.run, List.mapM_cons, List.mapM_nil, hsource, Option.bind_eq_bind,
      Option.bind_some, Option.pure_def, List.map_cons, List.map_nil, List.zip_cons_cons,
      List.zip_nil_right, hschema, resolveCondition_credential backend source hid, huser, hpass,
      hrows, List.filter_cons, holds_credentialRow, if_true, List.filter_nil,
      Backend.arrange_singleton]
    rfl
  have hinsert : insertRow backend ["W_USER".toList, "W_PASS".toList] (credentialTable id)
      [.text "root".toList, .text "ABABAB".toList] = some (copiedTable id) := by
    have hrow : (credentialTable id).schema.columns.zipIdx.mapM (newValue backend
        (credentialTable id) ([1, 2].zip [.text "root".toList, .text "ABABAB".toList])) =
        some (.null :: (credentialRow id).tail) := rfl
    rw [insertRow_eq backend hcolumns rfl, hrow, Option.bind_some]
    exact dif_pos (copiedTable id).valid
  simp only [copyStatement, Statement.run, htarget, hcolumns, hquery, Option.bind_eq_bind,
    Option.bind_some, List.map_cons, List.map_nil, List.foldlM_cons, List.foldlM_nil, hinsert,
    Option.pure_def, Bool.not_false, Bool.true_or, if_true]

/-- A copy, and what may follow it, changes this file. -/
theorem exec_copy_credential (engine : Engine) {target source : String} {id : Int}
    (htarget : (credentialDatabase id).table? target.toList = some (credentialTable id))
    (hsource : (credentialDatabase id).table? source.toList = some (credentialTable id))
    (hne : fold target.toList ≠ fold source.toList) (hid : id.natAbs < 2 ^ 63) {text : Str}
    {rest : List Statement}
    (hparse : parse text = some (copyStatement target source id :: rest))
    (hrest : rest = [] ∨ rest = [.delete source.toList (idCondition id)]) :
    (engine.exec ⟨credentialDatabase id, false⟩ text).session.database ≠ credentialDatabase id := by
  have hcopy := copyStatement_run_credential engine.toBackend htarget hsource hid
  have hafter : (engine.exec ⟨credentialDatabase id, false⟩ text).session.database.table?
      target.toList = some (copiedTable id) := by
    rw [engine.exec_eq _ _ _ hparse, session_run_cons hcopy]
    rcases hrest with rfl | rfl
    · exact Database.table?_set_self ..
    · -- the deletion is from the other table
      rw [run_delete_other engine.toBackend hne, Database.table?_set_self]
  intro h
  rw [h, htarget, Option.some.injEq] at hafter
  have hlength := congrArg (fun table => table.rows.length) hafter
  exact absurd hlength (by decide : ¬ 1 = 2)

/-- The command changes this server, by the copy of the value of the digits. -/
theorem Asks.react_credential {recvd : Str} {command : AdminCommand} {digits : Str}
    (h : Asks recvd command digits) {target source : String}
    (htables : command.tables = some (target, source)) (engine : Engine) (sha1 : Sha1)
    (connType : Option ConnectType) (adminCmd : Option AdminCommand) (memory : Int → Str)
    (time : Int) :
    ∃ reaction, (credentialServer (strtolInt digits)).react engine sha1
        (.message [] recvd connType adminCmd memory time) = some reaction ∧
      CopiesIdentity reaction.executed target source (strtolInt digits) ∧
      reaction.server ≠ credentialServer (strtolInt digits) := by
  obtain ⟨htarget, hsource, hne⟩ := AdminCommand.tables_credential htables (strtolInt digits)
  obtain ⟨reaction, text, rest, hreact, hexecuted, hparse, hrest, hserver⟩ :=
    @Asks.react_copy _ _ _ h _ _ htables engine sha1 _ _
      (hasAdministrator_credentialServer (strtolInt digits)) connType adminCmd memory time
  have hchanged := exec_copy_credential engine htarget hsource hne (natAbs_strtolInt_lt digits)
    hparse hrest
  refine ⟨reaction, hreact, ⟨text, rest, hexecuted, hparse⟩, fun hsame => ?_⟩
  rw [hserver] at hsame
  exact hchanged (congrArg Server.database hsame)

/-- The command acts on the row of the file. -/
theorem Asks.actsOn_credential {recvd : Str} {command : AdminCommand} {digits : Str}
    (h : Asks recvd command digits) {target source : String}
    (htables : command.tables = some (target, source)) (engine : Engine) (sha1 : Sha1) :
    ActsOn engine sha1 (credentialServer (strtolInt digits)) [] recvd target source
      (credentialRow (strtolInt digits)) := by
  obtain ⟨_, hsource, _⟩ := AdminCommand.tables_credential htables (strtolInt digits)
  obtain ⟨reaction, hreact, hcopies, hchanged⟩ :=
    h.react_credential htables engine sha1 none none (fun _ => []) 0
  exact ⟨_, _, _, _, reaction, _, _, hreact, hchanged, hcopies, hsource,
    List.mem_singleton_self _, _,
    resolveCondition_credential engine.toBackend source (natAbs_strtolInt_lt digits),
    holds_credentialRow engine.toBackend _⟩

/-! ## The numbers on which the commands are right -/

/-- The text executed for the digits has their number, or nothing is changed, exactly where the
number is below 2^31. -/
theorem Asks.identity_iff {recvd : Str} {command : AdminCommand} {digits : Str}
    (h : Asks recvd command digits) {target source : String}
    (htables : command.tables = some (target, source)) (engine : Engine) (sha1 : Sha1) :
    (∀ (server : Server) path connType adminCmd memory time, server.HasAdministrator path →
      ∃ reaction id, server.react engine sha1
        (.message path recvd connType adminCmd memory time) = some reaction ∧
      CopiesIdentity reaction.executed target source id ∧
      (id = Nat.ofDigitChars 10 digits 0 ∨ reaction.server = server)) ↔
      Nat.ofDigitChars 10 digits 0 < 2 ^ 31 := by
  rw [← strtolInt_eq_iff]
  constructor
  · intro hall
    obtain ⟨reaction, hreact, hcopies, hchanged⟩ :=
      h.react_credential htables engine sha1 none none (fun _ => []) 0
    obtain ⟨other, id, hother, hcopied, hid⟩ := hall _ _ none none (fun _ => []) 0
      (hasAdministrator_credentialServer (strtolInt digits))
    obtain rfl := Option.some.inj (hreact.symm.trans hother)
    rw [hcopies.unique hcopied]
    exact hid.resolve_right hchanged
  · intro hid server path connType adminCmd memory time hnode
    obtain ⟨reaction, text, rest, hreact, hexecuted, hparse, _⟩ :=
      @Asks.react_copy _ _ _ h _ _ htables engine sha1 _ _ hnode connType adminCmd memory time
    exact ⟨reaction, _, hreact, ⟨text, rest, hexecuted, hparse⟩, .inl hid⟩

/-- Two texts of digits never act on the same row, in two states with the same columns, exactly
where they have the same number or different values. -/
theorem Asks.distinct_iff {recvd recvd' : Str} {command : AdminCommand} {digits digits' : Str}
    (h : Asks recvd command digits) (h' : Asks recvd' command digits') {target source : String}
    (htables : command.tables = some (target, source)) (engine : Engine) (sha1 : Sha1) :
    (∀ (server server' : Server) path path', server.HasAdministrator path →
      server'.HasAdministrator path' →
      (server.database.table? source.toList).map Table.schema =
        (server'.database.table? source.toList).map Table.schema →
      ∀ row, ActsOn engine sha1 server path recvd target source row →
        ActsOn engine sha1 server' path' recvd' target source row →
        Nat.ofDigitChars 10 digits 0 = Nat.ofDigitChars 10 digits' 0) ↔
      (strtolInt digits = strtolInt digits' →
        Nat.ofDigitChars 10 digits 0 = Nat.ofDigitChars 10 digits' 0) := by
  constructor
  · intro hall hvalue
    have hacts := h.actsOn_credential htables engine sha1
    have hacts' := h'.actsOn_credential htables engine sha1
    rw [← hvalue] at hacts'
    exact hall _ _ _ _ (hasAdministrator_credentialServer _) (hasAdministrator_credentialServer _)
      rfl _ hacts hacts'
  · intro himp server server' path path' hnode hnode' hschema row hacts hacts'
    obtain ⟨_, _, _, _, reaction, table, id, hreact, _, hcopies, htable, hrow⟩ := hacts
    obtain ⟨_, _, _, _, reaction', table', id', hreact', _, hcopies', htable', hrow'⟩ := hacts'
    rw [htable, htable', Option.map_some, Option.map_some, Option.some.injEq] at hschema
    rw [h.eq_of_copiesIdentity htables hnode hreact hcopies] at hrow
    rw [h'.eq_of_copiesIdentity htables hnode' hreact' hcopies'] at hrow'
    exact himp (hrow.unique hrow' hschema (natAbs_strtolInt_lt _) (natAbs_strtolInt_lt _))

/-- On any tables, an administrator's `ACCEPT_REGISTRATION` or `ADD_ADMIN` acts on the number that
was sent, or changes nothing, exactly where the number is below 2^31; two numbers never act on the
same row exactly where they are equal or the lower 32 bits of what `strtol` returns for them differ;
and on the tables that `prepareDatabase` creates the command changes nothing at all. -/
theorem sent_iff (engine : Engine) (sha1 : Sha1) {command : AdminCommand} {target source : String}
    (htables : command.tables = some (target, source)) {recvd recvd' digits digits' : Str}
    (h : Asks recvd command digits) (h' : Asks recvd' command digits') {n n' : Nat}
    (hn : Nat.ofDigitChars 10 digits 0 = n) (hn' : Nat.ofDigitChars 10 digits' 0 = n') :
    ((∀ (server : Server) path connType adminCmd memory time, server.HasAdministrator path →
      ∃ reaction id, server.react engine sha1
        (.message path recvd connType adminCmd memory time) = some reaction ∧
      CopiesIdentity reaction.executed target source id ∧ (id = n ∨ reaction.server = server)) ↔
      n < 2 ^ 31) ∧
    ((∀ (server server' : Server) path path', server.HasAdministrator path →
      server'.HasAdministrator path' →
      (server.database.table? source.toList).map Table.schema =
        (server'.database.table? source.toList).map Table.schema →
      ∀ row, ActsOn engine sha1 server path recvd target source row →
        ActsOn engine sha1 server' path' recvd' target source row → n = n') ↔
      n = n' ∨ min n (2 ^ 63 - 1) % 2 ^ 32 ≠ min n' (2 ^ 63 - 1) % 2 ^ 32) ∧
    ∀ (server : Server) path connType adminCmd memory time, server.HasAdministrator path →
      Prepared server.database → ∃ reaction, server.react engine sha1
        (.message path recvd connType adminCmd memory time) = some reaction ∧
      reaction.server = server := by
  subst hn hn'
  refine ⟨h.identity_iff htables engine sha1, ?_, ?_⟩
  · rw [h.distinct_iff h' htables, strtolInt_eq_strtolInt_iff, imp_iff_not_or, or_comm]
  · intro server path connType adminCmd memory time hnode hdb
    exact h.react_prepared (htables ▸ rfl) engine sha1 hdb hnode connType adminCmd memory time

/-- The commands for the numbers 7 and 8 act on these and never on the same row. -/
theorem sent_seven_eight :
    (∀ (server : Server) path connType adminCmd memory time, server.HasAdministrator path →
      ∃ reaction id, server.react .plain constantSha1 (.message path
        "WHEESPA_ADMINISTRATE::ADD_ADMIN:::x::::7".toList connType adminCmd memory time) =
          some reaction ∧
      CopiesIdentity reaction.executed "Administrators" "Registered" id ∧
      (id = (7 : Nat) ∨ reaction.server = server)) ∧
    ∀ (server server' : Server) path path', server.HasAdministrator path →
      server'.HasAdministrator path' →
      (server.database.table? "Registered".toList).map Table.schema =
        (server'.database.table? "Registered".toList).map Table.schema →
      ∀ row, ActsOn .plain constantSha1 server path
          "WHEESPA_ADMINISTRATE::ADD_ADMIN:::x::::7".toList "Administrators" "Registered" row →
        ActsOn .plain constantSha1 server' path'
          "WHEESPA_ADMINISTRATE::ADD_ADMIN:::x::::8".toList "Administrators" "Registered" row →
        7 = 8 := by
  have hseven : Asks "WHEESPA_ADMINISTRATE::ADD_ADMIN:::x::::7".toList .addAdmin ['7'] := by
    decide +kernel
  have height : Asks "WHEESPA_ADMINISTRATE::ADD_ADMIN:::x::::8".toList .addAdmin ['8'] := by
    decide +kernel
  obtain ⟨hidentity, hdistinct, _⟩ := @sent_iff .plain constantSha1 .addAdmin _ _ rfl _ _ _ _
    hseven height 7 8 (by decide) (by decide)
  exact ⟨hidentity.mpr (by decide), hdistinct.mpr (by decide)⟩

/-- The command for 4294967297 copies the row with the identity 1, as the command for 1 does; on the
tables that `prepareDatabase` creates it hands SQLite the text for the identity 1. -/
theorem not_sent_overflow :
    (∃ reaction, (credentialServer 1).react .plain constantSha1 (.message []
        "WHEESPA_ADMINISTRATE::ADD_ADMIN:::x::::4294967297".toList none none (fun _ => []) 0) =
          some reaction ∧
      CopiesIdentity reaction.executed "Administrators" "Registered" 1 ∧
      reaction.server ≠ credentialServer 1) ∧
    (ActsOn .plain constantSha1 (credentialServer 1) []
        "WHEESPA_ADMINISTRATE::ADD_ADMIN:::x::::4294967297".toList "Administrators" "Registered"
        (credentialRow 1) ∧
      ActsOn .plain constantSha1 (credentialServer 1) []
        "WHEESPA_ADMINISTRATE::ADD_ADMIN:::x::::1".toList "Administrators" "Registered"
        (credentialRow 1)) ∧
    ∃ reaction, twoUsersServer.react .plain constantSha1 (.message []
        "WHEESPA_ADMINISTRATE::ADD_ADMIN:::x::::4294967297".toList none none (fun _ => []) 0) =
          some reaction ∧
      CopiesIdentity reaction.executed "Administrators" "Registered" 1 := by
  have hlarge : Asks "WHEESPA_ADMINISTRATE::ADD_ADMIN:::x::::4294967297".toList .addAdmin
      "4294967297".toList := by
    decide +kernel
  have hone : Asks "WHEESPA_ADMINISTRATE::ADD_ADMIN:::x::::1".toList .addAdmin ['1'] := by
    decide +kernel
  have hvalue : strtolInt "4294967297".toList = 1 := by decide +kernel
  have hvalue' : strtolInt ['1'] = 1 := by decide
  have hchanged := @Asks.react_credential _ _ _ hlarge _ _ rfl .plain constantSha1 none none
    (fun _ => []) 0
  have hacts := @Asks.actsOn_credential _ _ _ hlarge _ _ rfl .plain constantSha1
  have hacts' := @Asks.actsOn_credential _ _ _ hone _ _ rfl .plain constantSha1
  obtain ⟨reaction, text, rest, hreact, hexecuted, hparse, _⟩ := @Asks.react_copy _ _ _ hlarge _ _
    rfl .plain constantSha1 _ _ hasAdministrator_twoUsers none none (fun _ => []) 0
  rw [hvalue] at hchanged hacts hparse
  rw [hvalue'] at hacts'
  exact ⟨hchanged, ⟨hacts, hacts'⟩, reaction, hreact, text, rest, hexecuted, hparse⟩

end Wheespa
