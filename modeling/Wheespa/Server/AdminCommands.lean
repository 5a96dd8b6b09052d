import Wheespa.AdminQueries
import Wheespa.WheespaServer

/-!
# The commands of an administrator

The commands that execute a text of their own, as messages of a live node whose user is an
administrator. `Asks.react` says what such a message does, for any engine: the server has the
database that the text leaves, and nothing else changes. The two commands that copy a row leave a
database with the tables of `prepareDatabase` as it is (`Asks.react_prepared`).

The texts of the two commands that delete end with what `"W_ID = " + id` points to. For `id` from 0
to 7 that is an end of the literal, so that the condition is not complete; SQLite then reports an
error and does nothing (`RejectsIncomplete`).
-/

namespace Wheespa

open Sql

/-- The text of a deletion. -/
def deleteText (table : String) (condition : Str) : Str :=
  "delete from ".toList ++ table.toList ++ " where ".toList ++ condition

/-- The text that a command executes for an identity. -/
def executedText (memory : Int → Str) (id : Int) : AdminCommand → Option Str
  | .acceptRegistration => some (HandleReceived.acceptQuery id)
  | .addAdmin => some (HandleReceived.addAdminQuery id)
  | .removeAdmin => some (deleteText "Administrators" (conditionAt memory id))
  | .removeRegistered => some (deleteText "Registered" (conditionAt memory id))
  | .getPending | .getRegistered | .getAdmins | .openChannel => none

/-- The text is the message of a command, with the digits as its last group. -/
def Asks (recvd : Str) (command : AdminCommand) (digits : Str) : Prop :=
  ∃ groups, messageRegex.fullMatch recvd = some groups ∧
    groups 1 = some "WHEESPA_ADMINISTRATE".toList ∧
    HandleReceived.adminCommand ((groups 2).getD []) = some command ∧
    (groups 4).getD [] = digits

instance (recvd : Str) (command : AdminCommand) (digits : Str) :
    Decidable (Asks recvd command digits) :=
  decidable_of_iff ((messageRegex.fullMatch recvd).any (fun groups =>
    groups 1 = some "WHEESPA_ADMINISTRATE".toList ∧
      HandleReceived.adminCommand ((groups 2).getD []) = some command ∧
      (groups 4).getD [] = digits) = true) (by
    rw [Option.any_eq_true]
    exact exists_congr fun groups => and_congr_right fun _ => decide_eq_true_iff)

/-- The user of the node is an administrator. -/
def Server.HasAdministrator (server : Server) (path : Path) : Prop :=
  ∃ user : WheespaConnected, server.tree.node.get? path = some (user, false) ∧ user.isAdmin = true

/-- SQLite rejects a deletion whose condition is an end of the literal, and does nothing. -/
def RejectsIncomplete (engine : Engine) : Prop :=
  ∀ session, ∀ table ∈ ["Administrators", "Registered"], ∀ i ≤ 7,
    engine.exec session (deleteText table ("W_ID = ".toList.drop i)) = ⟨session, [], false⟩

/-- The empty text is no message. -/
theorem length_pos_of_fullMatch {recvd : Str} {groups : Regex.Groups Char}
    (hmatch : messageRegex.fullMatch recvd = some groups) : recvd.length > 0 := by
  cases recvd with
  | nil =>
      have hnone : (messageRegex.fullMatch []).isSome = false := by decide
      rw [hmatch] at hnone
      exact absurd hnone Bool.false_ne_true.symm
  | cons c recvd => exact Nat.succ_pos _

/-- What `handleAdmin` does with a command that executes a text. -/
theorem handleAdmin_of_text {engine : Engine} {memory : Int → Str} {self : HandleReceived}
    (hadmin : self.user.isAdmin = true) {command : AdminCommand}
    (hcommand : self.adminCmd = some command) {text : Str}
    (htext : executedText memory (strtolInt (self.group 4)) command = some text) :
    self.handleAdmin engine memory =
      some (.returned 0, { self with db := (self.db.execQuery engine text).2 }) := by
  simp only [HandleReceived.handleAdmin, hadmin, hcommand, Bool.not_true, Bool.false_eq_true,
    if_false]
  cases command with
  | acceptRegistration | addAdmin | removeAdmin | removeRegistered =>
      obtain rfl := Option.some.inj htext
      rfl
  | getPending | getRegistered | getAdmins | openChannel => simp [executedText] at htext

/-- What an administrator's command does is what `handleAdmin` does with its groups; where that
throws, the node of the administrator is flagged. -/
theorem Asks.react_handleAdmin {recvd : Str} {command : AdminCommand} {digits : Str}
    (h : Asks recvd command digits) (engine : Engine) (sha1 : Sha1) {server : Server} {path : Path}
    {user : WheespaConnected} (hget : server.tree.node.get? path = some (user, false))
    (connType : Option ConnectType) (adminCmd : Option AdminCommand) (memory : Int → Str)
    (time : Int) :
    ∃ groups, (groups 4).getD [] = digits ∧ ∀ completion after,
      HandleReceived.handleAdmin engine memory ⟨some groups, user, .openFile server.database,
        some .administrate, some command, [], false⟩ = some (completion, after) →
      server.react engine sha1 (.message path recvd connType adminCmd memory time) =
        some ⟨{ server with
          tree := if completion = .thrown then server.tree.markOverwrite path else server.tree
          database := after.db.database }, none, after.db.executed, after.written⟩ := by
  obtain ⟨groups, hmatch, htype, hcommand, hdigits⟩ := h
  refine ⟨groups, hdigits, fun completion after hhandle => ?_⟩
  have hnew := HandleReceived.new_of_command hmatch htype hcommand user server.database connType
    adminCmd
  have hdeleted : after.rootDeleted = false := HandleReceived.handleAdmin_rootDeleted hhandle
  simp only [Server.react, hget, Server.handleMessage, length_pos_of_fullMatch hmatch, if_true,
    hnew, Option.bind_eq_bind, Option.bind_some, HandleReceived.handle, hhandle, hdeleted,
    Bool.or_false]
  cases completion <;> rfl

/-- A command that executes a text leaves the server with the database that the text leaves on a
connection that does not enforce foreign keys. -/
theorem Asks.react {recvd : Str} {command : AdminCommand} {digits : Str}
    (h : Asks recvd command digits) (engine : Engine) (sha1 : Sha1) {server : Server} {path : Path}
    (hnode : server.HasAdministrator path) {memory : Int → Str} {text : Str}
    (htext : executedText memory (strtolInt digits) command = some text)
    (connType : Option ConnectType) (adminCmd : Option AdminCommand) (time : Int) :
    ∃ reaction, server.react engine sha1
        (.message path recvd connType adminCmd memory time) = some reaction ∧
      reaction.executed = [cStr text] ∧ reaction.server = { server with
        database := (engine.exec ⟨server.database, false⟩ (cStr text)).session.database } := by
  obtain ⟨user, hget, hadmin⟩ := hnode
  obtain ⟨groups, rfl, hreact⟩ :=
    h.react_handleAdmin engine sha1 hget connType adminCmd memory time
  have hhandle := @handleAdmin_of_text engine memory
    ⟨some groups, user, .openFile server.database, some .administrate, some command, [], false⟩
    hadmin command rfl text htext
  exact ⟨_, hreact _ _ hhandle, rfl, rfl⟩

/-- The text at an end of the literal. -/
theorem conditionAt_of_le {id : Int} (hid : 0 ≤ id ∧ id ≤ 7) (memory : Int → Str) :
    ∃ i ≤ 7, conditionAt memory id = "W_ID = ".toList.drop i :=
  ⟨id.toNat, by omega, if_pos hid⟩

/-- The text of a deletion has no null character that its condition does not have. -/
theorem nul_not_mem_deleteText {table : String} (htable : table ∈ ["Administrators", "Registered"])
    {condition : Str} (h : '\x00' ∉ condition) : '\x00' ∉ deleteText table condition := by
  have hhead : '\x00' ∉ "delete from ".toList := not_mem_literal (by decide)
  have htable' : '\x00' ∉ table.toList := by
    have hboth : ∀ table ∈ ["Administrators", "Registered"], '\x00' ∉ table.toList := by decide
    exact hboth table htable
  have hwhere : '\x00' ∉ " where ".toList := not_mem_literal (by decide)
  unfold deleteText
  rw [List.mem_append, List.mem_append, List.mem_append, not_or, not_or, not_or]
  exact ⟨⟨⟨hhead, htable'⟩, hwhere⟩, h⟩

/-- A deletion with an end of the literal does nothing. -/
theorem exec_incomplete {engine : Engine} (hengine : RejectsIncomplete engine) {table : String}
    (htable : table ∈ ["Administrators", "Registered"]) {id : Int} (hid : 0 ≤ id ∧ id ≤ 7)
    (memory : Int → Str) (session : Session) :
    (engine.exec session (cStr (deleteText table (conditionAt memory id)))).session = session := by
  obtain ⟨i, hi, hcondition⟩ := conditionAt_of_le hid memory
  have hliteral : '\x00' ∉ "W_ID = ".toList := not_mem_literal (by decide)
  have hnul := nul_not_mem_deleteText htable
    (fun hmem => hliteral (List.mem_of_mem_drop hmem) : '\x00' ∉ "W_ID = ".toList.drop i)
  rw [hcondition, cStr_of_not_mem hnul, hengine session table htable i hi]

/-- The executable implementation does nothing on a text that is not in the fragment. -/
theorem rejectsIncomplete_plain : RejectsIncomplete .plain := by
  have hparse : ∀ table ∈ ["Administrators", "Registered"], ∀ i ≤ 7,
      parse (deleteText table ("W_ID = ".toList.drop i)) = none := by
    decide +kernel
  intro session table htable i hi
  exact Engine.plain_exec_of_none (hparse table htable i hi) session

/-- The statement of a deletion of the rows of an identity, from one of the two tables. -/
theorem parse_deleteText {table : String} (htable : table ∈ ["Administrators", "Registered"])
    (id : Int) :
    parse (deleteText table ("W_ID = ".toList ++ integerText id)) =
      some [.delete table.toList (idCondition id)] := by
  have hboth : ∀ table ∈ ["Administrators", "Registered"],
      Scan.readAll .gap ("delete from ".toList ++ table.toList ++ " where ".toList ++
        "W_ID = ".toList) =
      (.gap, [.word "delete".toList, .word "from".toList, .word table.toList,
        .word "where".toList, .word "W_ID".toList, .symbol '=']) := by
    decide +kernel
  have hhead := hboth table htable
  have hlex := @lexFrom_head_integer _ _ hhead id [] (by simp)
  have htext : deleteText table ("W_ID = ".toList ++ integerText id) =
      "delete from ".toList ++ table.toList ++ " where ".toList ++ "W_ID = ".toList ++
        (integerText id ++ []) := by
    unfold deleteText
    simp only [List.append_assoc, List.append_nil]
  unfold parse lex
  rw [htext, hlex]
  rcases List.mem_pair.mp htable with rfl | rfl <;> cases id <;> rfl

/-- What a deletion of the rows of an identity does. -/
theorem exec_deleteText (engine : Engine) {table : String}
    (htable : table ∈ ["Administrators", "Registered"]) (session : Session) (id : Int) :
    engine.exec session (cStr (deleteText table ("W_ID = ".toList ++ integerText id))) =
      run engine.toBackend session [.delete table.toList (idCondition id)] := by
  have hnul : '\x00' ∉ "W_ID = ".toList ++ integerText id := by
    rw [List.mem_append, not_or]
    exact ⟨not_mem_literal (by decide), nul_not_mem_integerText id⟩
  rw [cStr_of_not_mem (nul_not_mem_deleteText htable hnul),
    engine.exec_eq _ _ _ (parse_deleteText htable id)]

/-- The tables of a command that copies a row: the one into which and the one from which. -/
def AdminCommand.tables : AdminCommand → Option (String × String)
  | .acceptRegistration => some ("Registered", "PendingRegistrations")
  | .addAdmin => some ("Administrators", "Registered")
  | .getPending | .getRegistered | .getAdmins | .openChannel | .removeAdmin
  | .removeRegistered => none

/-- On the tables that `prepareDatabase` creates a command that copies a row changes nothing. -/
theorem Asks.react_prepared {recvd : Str} {command : AdminCommand} {digits : Str}
    (h : Asks recvd command digits) (hcopies : command.tables.isSome = true) (engine : Engine)
    (sha1 : Sha1) {server : Server} (hdb : Prepared server.database) {path : Path}
    (hnode : server.HasAdministrator path) (connType : Option ConnectType)
    (adminCmd : Option AdminCommand) (memory : Int → Str) (time : Int) :
    ∃ reaction, server.react engine sha1
        (.message path recvd connType adminCmd memory time) = some reaction ∧
      reaction.server = server := by
  cases command with
  | acceptRegistration =>
      obtain ⟨reaction, hreact, _, hserver⟩ := @Asks.react _ _ _ h engine sha1 server path hnode
        memory _ rfl connType adminCmd time
      rw [exec_acceptQuery engine hdb] at hserver
      exact ⟨reaction, hreact, hserver⟩
  | addAdmin =>
      obtain ⟨reaction, hreact, _, hserver⟩ := @Asks.react _ _ _ h engine sha1 server path hnode
        memory _ rfl connType adminCmd time
      rw [exec_addAdminQuery engine hdb] at hserver
      exact ⟨reaction, hreact, hserver⟩
  | getPending | getRegistered | getAdmins | openChannel | removeAdmin | removeRegistered =>
      cases hcopies

end Wheespa
