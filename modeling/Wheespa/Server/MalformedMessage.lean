import Wheespa.Server.AdminCommands

/-!
# Malformed messages

The constructor of `HandleReceived` answers a message that does not match, or that has an unknown
command, but leaves `m_conn_type` or `m_admin_cmd` unassigned, and `handle` is called all the same.
`onlyReplies_iff` says for which values of the two members, and of what else `handle` then depends
on, such a message has no effect beyond the answer.
-/

namespace Wheespa

open Sql HandleReceived

/-- The text does not match the format of a message, or it matches as an administrator's command
that is not known. -/
def Malformed (recvd : Str) : Prop :=
  ∀ groups ∈ messageRegex.fullMatch recvd,
    groups 1 = some "WHEESPA_ADMINISTRATE".toList ∧ adminCommand ((groups 2).getD []) = none

/-- The answer of the constructor to a malformed message. -/
def errorReply (recvd : Str) : Str :=
  match messageRegex.fullMatch recvd with
  | none => "WHEESPA_FORMAT_ERROR".toList
  | some _ => "WHEESPA_INVALID_COMMAND".toList

/-- What `m_conn_type` holds after the constructor has met a malformed message. -/
def connTypeAfter (recvd : Str) (connType : Option ConnectType) : Option ConnectType :=
  match messageRegex.fullMatch recvd with
  | none => connType
  | some _ => some .administrate

/-- The identity that a command of the message would be about. -/
def idOf (recvd : Str) : Int :=
  strtolInt (((messageRegex.fullMatch recvd).bind fun groups => groups 4).getD [])

/-- Handling the message returns, and what it has done is to write the answer of the constructor to
the sender. -/
def OnlyReplies (engine : Engine) (tree : WheespaServerTree) (user : WheespaConnected)
    (ss : SocketStream) (file : Database) (recvd : Str) (connType : Option ConnectType)
    (adminCmd : Option AdminCommand) (memory : Int → Str) (time : Int) : Prop :=
  ∃ received rc after, HandleReceived.new recvd user file connType adminCmd = some received ∧
    received.handle engine memory tree time = some (.returned rc, after) ∧
    after.written = [(ss, errorReply recvd)] ∧ after.db.database = file

/-- What an administrator's command would do is nothing: it is none of the enumerators, or
`OPEN_CHANNEL`, or its text leaves the database as it is. -/
def IdleCommand (engine : Engine) (file : Database) (memory : Int → Str) (id : Int) :
    Option AdminCommand → Prop
  | none | some .openChannel => True
  | some .getPending | some .getRegistered | some .getAdmins => False
  | some command => ∀ text ∈ executedText memory id command,
      (engine.exec ⟨file, false⟩ (cStr text)).session.database = file

/-- Dispatching on the members has no effect. -/
def Idle (engine : Engine) (user : WheespaConnected) (file : Database) (memory : Int → Str)
    (id : Int) (adminCmd : Option AdminCommand) : Option ConnectType → Prop
  | none | some .external => True
  | some .administrate => user.isAdmin = true ∧ IdleCommand engine file memory id adminCmd
  | some .internal | some .listOnline | some .invalid => False

/-- What the constructor makes of a malformed message. -/
theorem new_of_malformed {recvd : Str} {user : WheespaConnected} {ss : SocketStream}
    (hstream : user.sockStream = some ss) (hmalformed : Malformed recvd) (file : Database)
    (connType : Option ConnectType) (adminCmd : Option AdminCommand) :
    HandleReceived.new recvd user file connType adminCmd =
      some ⟨messageRegex.fullMatch recvd, user, .openFile file, connTypeAfter recvd connType,
        adminCmd, [(ss, errorReply recvd)], false⟩ := by
  unfold connTypeAfter errorReply
  cases hmatch : messageRegex.fullMatch recvd with
  | none => exact new_of_none hmatch hstream file connType adminCmd
  | some groups =>
      obtain ⟨htype, hcommand⟩ := hmalformed groups hmatch
      exact new_of_unknown hmatch htype hcommand hstream file connType adminCmd

section Dispatch

variable {engine : Engine} {memory : Int → Str} {tree : WheespaServerTree} {time : Int}
  {self : HandleReceived}

/-- Returning without a further write, on the same database. -/
def Silent (outcome : Option (Completion × HandleReceived)) (self : HandleReceived) : Prop :=
  ∃ rc after, outcome = some (.returned rc, after) ∧ after.written = self.written ∧
    after.db.database = self.db.database

/-- A further write is not silent. -/
theorem not_silent_of_written {outcome : Option (Completion × HandleReceived)}
    (h : ∀ rc after, outcome = some (.returned rc, after) →
      ∃ entry rest, after.written = self.written ++ entry :: rest) : ¬ Silent outcome self := by
  rintro ⟨rc, after, houtcome, hwritten, _⟩
  obtain ⟨entry, rest, hmore⟩ := h rc after houtcome
  rw [hmore] at hwritten
  simp at hwritten

/-- A reply is not silent. -/
theorem not_silent_reply {connected : WheespaConnected} {text : Str} {rc : Int} :
    ¬ Silent ((self.write connected text).bind fun self => some (Completion.returned rc, self))
      self := by
  refine not_silent_of_written fun rc after h => ?_
  obtain ⟨ss, _, _, rfl⟩ := reply_eq_some.mp h
  exact ⟨_, [], rfl⟩

/-- A command that only hands a text to SQLite is silent exactly when the text leaves the database
as it is. -/
theorem silent_execQuery_iff {file : Database} (hdb : self.db = .openFile file) {text : Str}
    {after : HandleReceived} (hwritten : after.written = self.written)
    (hafter : after.db = (self.db.execQuery engine text).2) :
    Silent (some (.returned 0, after)) self ↔
      (engine.exec ⟨file, false⟩ (cStr text)).session.database = file := by
  have hdatabase :
      after.db.database = (engine.exec ⟨file, false⟩ (cStr text)).session.database := by
    rw [hafter, hdb]
    rfl
  have hfile : self.db.database = file := congrArg FlexDB.database hdb
  rw [← hdatabase]
  constructor
  · rintro ⟨rc, after', houtcome, _, hsame⟩
    obtain ⟨_, rfl⟩ := Prod.mk.inj (Option.some.inj houtcome)
    rw [hsame, hfile]
  · intro hsame
    exact ⟨0, after, rfl, hwritten, hsame.trans hfile.symm⟩

/-- Showing a table is not silent. -/
theorem not_silent_showTable (table : Str) : ¬ Silent (self.showTable engine table) self := by
  refine not_silent_of_written fun rc after h => ?_
  rcases showTable_eq_some h with ⟨hthrown, _⟩ | ⟨ss, text, _, _, hwritten⟩
  · exact absurd hthrown Completion.noConfusion
  · exact ⟨_, [], hwritten⟩

/-- A command that executes a text is idle where the text leaves the database as it is. -/
theorem idleCommand_of_text {file : Database} {id : Int} {command : AdminCommand} {text : Str}
    (htext : executedText memory id command = some text) :
    IdleCommand engine file memory id (some command) ↔
      (engine.exec ⟨file, false⟩ (cStr text)).session.database = file := by
  cases command with
  | addAdmin | acceptRegistration | removeAdmin | removeRegistered =>
      simp only [IdleCommand, htext, Option.mem_def, Option.some.injEq, forall_eq']
  | getPending | getRegistered | getAdmins | openChannel => cases htext

/-- An administrator's command is silent exactly when it is idle. -/
theorem silent_handleAdmin_iff {file : Database} (hdb : self.db = .openFile file) :
    Silent (self.handleAdmin engine memory) self ↔ self.user.isAdmin = true ∧
      IdleCommand engine file memory (strtolInt (self.group 4)) self.adminCmd := by
  cases hadmin : self.user.isAdmin with
  | false =>
      refine iff_of_false ?_ fun h => Bool.false_ne_true h.1
      simp only [handleAdmin, hadmin, Bool.not_false, if_true]
      exact not_silent_reply
  | true =>
      rw [eq_self_iff_true, true_and]
      have hidle : Silent (some (.returned 0, self)) self := ⟨0, self, rfl, rfl, rfl⟩
      cases hcommand : self.adminCmd with
      | none =>
          simp only [handleAdmin, hadmin, Bool.not_true, Bool.false_eq_true, if_false, hcommand]
          exact iff_of_true hidle trivial
      | some command =>
          cases htext : executedText memory (strtolInt (self.group 4)) command with
          | some text =>
              rw [handleAdmin_of_text hadmin hcommand htext]
              exact (silent_execQuery_iff hdb (by rfl) (by rfl)).trans
                (idleCommand_of_text htext).symm
          | none =>
              simp only [handleAdmin, hadmin, Bool.not_true, Bool.false_eq_true, if_false,
                hcommand]
              cases command with
              | getPending | getRegistered | getAdmins =>
                  exact iff_of_false (not_silent_showTable _) id
              | openChannel => exact iff_of_true hidle trivial
              | addAdmin | acceptRegistration | removeAdmin | removeRegistered => cases htext

/-- Dispatching on the members is silent exactly when it is idle. -/
theorem silent_handle_iff {file : Database} (hdb : self.db = .openFile file) :
    Silent (self.handle engine memory tree time) self ↔
      Idle engine self.user file memory (strtolInt (self.group 4)) self.adminCmd
        self.connType := by
  have hsilent (rc : Int) : Silent (some (.returned rc, self)) self := ⟨rc, self, rfl, rfl, rfl⟩
  unfold handle
  cases self.connType with
  | none => exact iff_of_true (hsilent _) trivial
  | some type =>
      cases type with
      | administrate => exact silent_handleAdmin_iff hdb
      | internal =>
          refine iff_of_false (not_silent_of_written fun rc after h => ?_) id
          obtain ⟨_, _, _, _, _, _, rfl, _⟩ := handleInternal_eq_some h
          exact ⟨_, [], rfl⟩
      | listOnline =>
          refine iff_of_false (not_silent_of_written fun rc after h => ?_) id
          obtain ⟨_, _, _, _, _, _, rfl⟩ := handleListOnline_eq_some h
          exact ⟨_, _, rfl⟩
      | external => exact iff_of_true (hsilent _) trivial
      | invalid => exact iff_of_false not_silent_reply id

end Dispatch

/-- A malformed message has no effect beyond the answer of the constructor exactly when dispatching
on what the two members then hold is idle. On the tables that `prepareDatabase` creates,
`ACCEPT_REGISTRATION` and `ADD_ADMIN` are idle for every identity; and where SQLite rejects a
condition that is not complete, `REMOVE_ADMIN` and `REMOVE_REGISTERED` are idle for the identities
from 0 to 7. -/
theorem onlyReplies_iff (engine : Engine) {recvd : Str} (hmalformed : Malformed recvd)
    {user : WheespaConnected} {ss : SocketStream} (hstream : user.sockStream = some ss)
    (tree : WheespaServerTree) (file : Database) (connType : Option ConnectType)
    (adminCmd : Option AdminCommand) (memory : Int → Str) (time : Int) :
    (OnlyReplies engine tree user ss file recvd connType adminCmd memory time ↔
      Idle engine user file memory (idOf recvd) adminCmd (connTypeAfter recvd connType)) ∧
    (Prepared file → ∀ id, IdleCommand engine file memory id (some .acceptRegistration) ∧
      IdleCommand engine file memory id (some .addAdmin)) ∧
    (RejectsIncomplete engine → ∀ id : Int, 0 ≤ id ∧ id ≤ 7 →
      IdleCommand engine file memory id (some .removeAdmin) ∧
      IdleCommand engine file memory id (some .removeRegistered)) := by
  refine ⟨?_, ?_, ?_⟩
  · -- the constructor has written its reply, and what is left is the dispatch
    have hnew := new_of_malformed hstream hmalformed file connType adminCmd
    generalize hreceived : HandleReceived.mk (messageRegex.fullMatch recvd) user (.openFile file)
      (connTypeAfter recvd connType) adminCmd [(ss, errorReply recvd)] false = received at hnew
    have hsilent := @silent_handle_iff engine memory tree time received file (by rw [← hreceived])
    have hidle : Idle engine received.user file memory (strtolInt (received.group 4))
        received.adminCmd received.connType ↔
        Idle engine user file memory (idOf recvd) adminCmd (connTypeAfter recvd connType) := by
      rw [← hreceived]
      rfl
    rw [← hidle, ← hsilent]
    subst hreceived
    constructor
    · rintro ⟨_, rc, after, hnew', hhandle, hwritten, hdatabase⟩
      obtain rfl := Option.some.inj (hnew.symm.trans hnew')
      exact ⟨rc, after, hhandle, hwritten, hdatabase⟩
    · rintro ⟨rc, after, hhandle, hwritten, hdatabase⟩
      exact ⟨_, rc, after, hnew, hhandle, hwritten, hdatabase⟩
  · intro hdb id
    exact ⟨(idleCommand_of_text rfl).mpr (exec_acceptQuery engine hdb id),
      (idleCommand_of_text rfl).mpr (exec_addAdminQuery engine hdb id)⟩
  · intro hrejects id hid
    have hincomplete {table : String} (htable : table ∈ ["Administrators", "Registered"]) :=
      congrArg Session.database (exec_incomplete hrejects htable hid memory ⟨file, false⟩)
    exact ⟨(idleCommand_of_text rfl).mpr (hincomplete (by simp)),
      (idleCommand_of_text rfl).mpr (hincomplete (by simp))⟩

/-- A text that `messageRegex` does not match is malformed. -/
theorem malformed_of_none {recvd : Str} (h : messageRegex.fullMatch recvd = none) :
    Malformed recvd := by
  rw [Malformed, h]
  simp

/-- A text that is no message, where `m_conn_type` happens to hold no enumerator. -/
theorem onlyReplies_unassigned : OnlyReplies .plain .empty ⟨"bob".toList, some 0, false, true, []⟩ 0
    (fun _ => none) "x".toList none none (fun _ => []) 0 := by
  have hmatch : messageRegex.fullMatch "x".toList = none :=
    Option.isNone_iff_eq_none.mp (by decide +kernel)
  refine (@onlyReplies_iff .plain _ (malformed_of_none hmatch) _ 0 rfl .empty _ none none
    (fun _ => []) 0).1.mpr ?_
  rw [connTypeAfter, hmatch]
  trivial

/-- A text that is no message is delivered where `m_conn_type` happens to hold `INTERNAL`: the
addressee, whose name is empty, is not online, and the sender is told so. -/
theorem not_onlyReplies_internal : Malformed "x".toList ∧
    ¬ OnlyReplies .plain .empty ⟨"bob".toList, some 0, false, true, []⟩ 0 (fun _ => none)
      "x".toList (some .internal) none (fun _ => []) 0 := by
  have hmatch : messageRegex.fullMatch "x".toList = none :=
    Option.isNone_iff_eq_none.mp (by decide +kernel)
  refine ⟨malformed_of_none hmatch, ?_⟩
  rintro ⟨received, rc, after, hnew, hhandle, hwritten, _⟩
  rw [@new_of_none _ _ 0 hmatch rfl] at hnew
  obtain rfl := Option.some.inj hnew
  obtain ⟨_, rfl⟩ := Prod.mk.inj (Option.some.inj hhandle)
  rw [errorReply, hmatch] at hwritten
  exact absurd (congrArg List.length hwritten) (by decide)

end Wheespa
