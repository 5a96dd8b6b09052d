import Mathlib.Data.Int.Init
import Wheespa.Dbapi
import Wheespa.Library.Regex
import Wheespa.RequestFormat

/-!
# The messages of a connected user

`HandleReceived` of `handle_received.hpp` and `handle_received.cc`. The members `m_conn_type` and
`m_admin_cmd` keep the values they happen to have where the constructor does not assign them, so
their initial values are parameters of `new`; `none` stands for a number that is no enumerator.
Where a method follows a null `sock_stream` the result is `none`.

The characters that `"W_ID = " + id` points to beyond the literal are a parameter as well.
-/

namespace Wheespa

open Sql

/-- A character of a recipient or an admin command: the class `[a-zA-Z0-9.:_]`. -/
def isRecipientChar (c : Char) : Bool :=
  c.isAlphanum || c == '.' || c == ':' || c == '_'

/-- A character that the dot of an expression matches: no line terminator. -/
def isBodyChar (c : Char) : Bool :=
  c != '\n' && c != '\r'

/-- The expression that splits a message. -/
def messageRegex : Regex Char :=
  .seq (.capture 1 (.plus isTypeChar)) (.seq (.text "::".toList)
    (.seq (.capture 2 (.star isRecipientChar)) (.seq (.text ":::".toList)
      (.seq (.capture 3 (.star isBodyChar)) (.seq (.text "::::".toList)
        (.capture 4 (.plus Char.isDigit)))))))

/-- The enumeration `ConnectType`. -/
inductive ConnectType where
  | administrate
  | internal
  | listOnline
  | external
  | invalid
  deriving DecidableEq, Repr

/-- The enumeration `AdminCommand`. -/
inductive AdminCommand where
  | getPending
  | getRegistered
  | getAdmins
  | addAdmin
  | acceptRegistration
  | openChannel
  | removeAdmin
  | removeRegistered
  deriving DecidableEq, Repr

/-- The class `HandleReceived`. `m_user->data` is the datum of the node of the user, the writes to
the connections are kept in `written`, in order, and `rootDeleted` says whether the destructor of a
local tree has deleted the root of the server's tree. -/
structure HandleReceived where
  result : Option (Regex.Groups Char)
  user : WheespaConnected
  db : FlexDB
  connType : Option ConnectType
  adminCmd : Option AdminCommand
  written : List (SocketStream × Str)
  rootDeleted : Bool

/-- How a method comes to its end: it returns, or an exception leaves it. -/
inductive Completion where
  | returned (rc : Int)
  | thrown
  deriving DecidableEq, Repr

/-- The value of `strtol(tmp.c_str(), nullptr, 10)` for digits, converted to `int`. -/
def strtolInt (digits : Str) : Int :=
  Int.bmod (min (Nat.ofDigitChars 10 digits 0) (2 ^ 63 - 1)) (2 ^ 32)

/-- The number of the digits survives the conversions exactly where it is below `2 ^ 31`. -/
theorem strtolInt_eq_iff (digits : Str) :
    strtolInt digits = Nat.ofDigitChars 10 digits 0 ↔ Nat.ofDigitChars 10 digits 0 < 2 ^ 31 := by
  unfold strtolInt
  generalize Nat.ofDigitChars 10 digits 0 = n
  rw [Int.bmod_def]
  split <;> omega

/-- Two numbers have the same value exactly where their lower 32 bits agree, both taken as the
largest `long` where they exceed it. -/
theorem strtolInt_eq_strtolInt_iff (digits digits' : Str) :
    strtolInt digits = strtolInt digits' ↔
      min (Nat.ofDigitChars 10 digits 0) (2 ^ 63 - 1) % 2 ^ 32 =
        min (Nat.ofDigitChars 10 digits' 0) (2 ^ 63 - 1) % 2 ^ 32 := by
  unfold strtolInt
  generalize Nat.ofDigitChars 10 digits 0 = n
  generalize Nat.ofDigitChars 10 digits' 0 = n'
  rw [Int.bmod_def, Int.bmod_def]
  split <;> split <;> omega

/-- The value is far from the limits of the integers. -/
theorem natAbs_strtolInt_lt (digits : Str) : (strtolInt digits).natAbs < 2 ^ 63 := by
  unfold strtolInt
  generalize Nat.ofDigitChars 10 digits 0 = n
  rw [Int.bmod_def]
  split <;> omega

/-- The text at `"W_ID = " + id`. Outside of the literal it is what `memory` holds. -/
def conditionAt (memory : Int → Str) (id : Int) : Str :=
  if 0 ≤ id ∧ id ≤ 7 then "W_ID = ".toList.drop id.toNat else memory id

namespace HandleReceived

/-- `m_result[i]`, as a string: the empty one where the group took no part in a match. -/
def group (self : HandleReceived) (i : Nat) : Str :=
  (self.result.bind fun groups => groups i).getD []

/-- `connected.sock_stream->write(text)`. -/
def write (self : HandleReceived) (connected : WheespaConnected) (text : Str) :
    Option HandleReceived :=
  connected.sockStream.map fun ss => { self with written := self.written ++ [(ss, text)] }

/-- The admin command of a name. -/
def adminCommand (name : Str) : Option AdminCommand :=
  if name = "GET_PENDING".toList then some .getPending
  else if name = "GET_REGISTERED".toList then some .getRegistered
  else if name = "GET_ADMINS".toList then some .getAdmins
  else if name = "ADD_ADMIN".toList then some .addAdmin
  else if name = "ACCEPT_REGISTRATION".toList then some .acceptRegistration
  else if name = "OPEN_CHANNEL".toList then some .openChannel
  else if name = "REMOVE_ADMIN".toList then some .removeAdmin
  else if name = "REMOVE_REGISTERED".toList then some .removeRegistered
  else none

/-- The constructor, for a message of the user with the given datum. -/
def new (recvd : Str) (user : WheespaConnected) (file : Database) (connType : Option ConnectType)
    (adminCmd : Option AdminCommand) : Option HandleReceived :=
  let self : HandleReceived :=
    ⟨messageRegex.fullMatch recvd, user, .openFile file, connType, adminCmd, [], false⟩
  if self.result.isSome then
    if self.group 1 = "WHEESPA_ADMINISTRATE".toList then
      let self := { self with connType := some .administrate }
      match adminCommand (self.group 2) with
      | some command => some { self with adminCmd := some command }
      | none =>
          -- `m_admin_cmd` is not assigned
          self.write user "WHEESPA_INVALID_COMMAND".toList
    else if self.group 1 = "WHEESPA_INTERNAL".toList then
      some { self with connType := some .internal }
    else if self.group 1 = "WHEESPA_EXTERNAL".toList then
      some { self with connType := some .external }
    else if self.group 1 = "WHEESPA_LIST_ONLINE".toList then
      some { self with connType := some .listOnline }
    else some { self with connType := some .invalid }
  else
    -- neither member is assigned
    self.write user "WHEESPA_FORMAT_ERROR".toList

/-- `handleInternal` at the given time. -/
def handleInternal (self : HandleReceived) (tree : WheespaServerTree) (time : Int) :
    Option (Completion × HandleReceived) :=
  let found := if self.user.registered then tree.find (self.group 2)
    else tree.find self.user.connectTo
  match found.bind tree.node.get? with
  | some (data, false) => do
      let self ← self.write data (self.user.key ++ ": ".toList ++ self.group 3 ++ "::[".toList ++
        integerText time ++ "]".toList)
      some (.returned 0, self)
  -- a flagged node is offline, like one that is not found
  | _ => do
      let self ← self.write self.user "WHEESPA_USER_OFFLINE".toList
      some (.returned (-1), self)

/-- The query of `ACCEPT_REGISTRATION`. -/
def acceptQuery (id : Int) : Str :=
  "Insert into Registered(W_USER, W_PASS) ".toList ++
    "Select W_USER, W_PASS from PendingRegistrations where W_ID = ".toList ++ integerText id ++
    "; Delete from PendingRegistrations where W_ID = ".toList ++ integerText id

/-- The query of `ADD_ADMIN`. -/
def addAdminQuery (id : Int) : Str :=
  "Insert into Administrators(W_USER, W_PASS) ".toList ++
    "Select W_USER, W_PASS from Registered where W_ID = ".toList ++ integerText id

/-- The reply to one of the commands that show a table. -/
def showTable (engine : Engine) (self : HandleReceived) (table : Str) :
    Option (Completion × HandleReceived) :=
  match self.db.setTableStructure engine table with
  | (none, db) => some (.thrown, { self with db })
  | (some _, db) => do
      let self ← { self with db }.write self.user (drawTable db.getTableStructure)
      some (.returned 0, self)

/-- `handleAdmin`. -/
def handleAdmin (engine : Engine) (memory : Int → Str) (self : HandleReceived) :
    Option (Completion × HandleReceived) :=
  let id := strtolInt (self.group 4)
  if !self.user.isAdmin then do
    let self ← self.write self.user "WHEESPA_UNAUTHORIZED".toList
    some (.returned (-1), self)
  else
    match self.adminCmd with
    | some .acceptRegistration =>
        some (.returned 0, { self with db := (self.db.execQuery engine (acceptQuery id)).2 })
    | some .addAdmin =>
        some (.returned 0, { self with db := (self.db.execQuery engine (addAdminQuery id)).2 })
    | some .getAdmins => self.showTable engine "Administrators".toList
    | some .getPending => self.showTable engine "PendingRegistrations".toList
    | some .getRegistered => self.showTable engine "Registered".toList
    -- the address of the literal plus `id` is what `deleteRecord` is given
    | some .removeAdmin =>
        some (.returned 0, { self with
          db := (self.db.deleteRecord engine "Administrators".toList (conditionAt memory id)).2 })
    | some .removeRegistered =>
        some (.returned 0, { self with
          db := (self.db.deleteRecord engine "Registered".toList (conditionAt memory id)).2 })
    | some .openChannel | none => some (.returned 0, self)

/-- `handleListOnline`. The list is read off a copy of the tree that has the same root, and the
destructor of the copy deletes that node. -/
def handleListOnline (self : HandleReceived) (tree : WheespaServerTree) :
    Option (Completion × HandleReceived) :=
  if !self.user.registered then do
    let self ← self.write self.user "WHEESPA_NOT_REGISTERED".toList
    some (.returned (-1), self)
  else do
    let inTree := tree.setDataArray
    let onlineUsers := inTree.getDataArray
    let self ← self.write self.user (integerText onlineUsers.length)
    let self ← onlineUsers.foldlM (fun self user => self.write self.user user.key) self
    -- the end of the scope of the copy: `delete m_node`
    let self := { self with rootDeleted := self.rootDeleted || !inTree.isEmpty }
    some (.returned 0, self)

/-- `handle`. -/
def handle (engine : Engine) (memory : Int → Str) (self : HandleReceived)
    (tree : WheespaServerTree) (time : Int) : Option (Completion × HandleReceived) :=
  match self.connType with
  | some .administrate => self.handleAdmin engine memory
  | some .internal => self.handleInternal tree time
  | some .external => some (.returned (-1), self)
  | some .listOnline => self.handleListOnline tree
  | some .invalid => do
      let self ← self.write self.user "WHEESPA_INVALID_CONNECT_TYPE".toList
      some (.returned (-1), self)
  | none => some (.returned (-1), self)

/-- What a write does. -/
theorem write_eq_some {self after : HandleReceived} {connected : WheespaConnected} {text : Str} :
    self.write connected text = some after ↔ ∃ ss, connected.sockStream = some ss ∧
      after = { self with written := self.written ++ [(ss, text)] } := by
  simp only [write, Option.map_eq_some_iff]
  exact exists_congr fun ss => and_congr_right fun _ => eq_comm

/-- The message is handled as the LIST_ONLINE of a registered user. -/
def listsOnline (self : HandleReceived) : Bool :=
  self.connType == some .listOnline && self.user.registered

/-- What the constructor keeps of a message: its match, its sender and the database. It deletes no
node. -/
theorem new_eq {recvd : Str} {user : WheespaConnected} {file : Database}
    {connType : Option ConnectType} {adminCmd : Option AdminCommand} {self : HandleReceived}
    (h : new recvd user file connType adminCmd = some self) :
    self.result = messageRegex.fullMatch recvd ∧ self.user = user ∧ self.db = .openFile file ∧
      self.rootDeleted = false := by
  unfold new at h
  dsimp only at h
  split_ifs at h
  · split at h
    · obtain rfl := Option.some.inj h
      exact ⟨rfl, rfl, rfl, rfl⟩
    · obtain ⟨ss, _, rfl⟩ := write_eq_some.mp h
      exact ⟨rfl, rfl, rfl, rfl⟩
  · obtain rfl := Option.some.inj h
    exact ⟨rfl, rfl, rfl, rfl⟩
  · obtain rfl := Option.some.inj h
    exact ⟨rfl, rfl, rfl, rfl⟩
  · obtain rfl := Option.some.inj h
    exact ⟨rfl, rfl, rfl, rfl⟩
  · obtain rfl := Option.some.inj h
    exact ⟨rfl, rfl, rfl, rfl⟩
  · obtain ⟨ss, _, rfl⟩ := write_eq_some.mp h
    exact ⟨rfl, rfl, rfl, rfl⟩

section Construction

variable {recvd : Str} {user : WheespaConnected} {groups : Regex.Groups Char} {ss : SocketStream}

/-- A message that does not match is answered, and neither member is assigned. -/
theorem new_of_none (hmatch : messageRegex.fullMatch recvd = none)
    (hstream : user.sockStream = some ss) (file : Database) (connType : Option ConnectType)
    (adminCmd : Option AdminCommand) :
    new recvd user file connType adminCmd =
      some ⟨none, user, .openFile file, connType, adminCmd,
        [(ss, "WHEESPA_FORMAT_ERROR".toList)], false⟩ := by
  unfold new
  dsimp only
  rw [hmatch, Option.isSome_none, if_neg Bool.false_ne_true]
  exact write_eq_some.mpr ⟨ss, hstream, rfl⟩

/-- A command that is not known is answered, and `m_admin_cmd` is not assigned. -/
theorem new_of_unknown (hmatch : messageRegex.fullMatch recvd = some groups)
    (htype : groups 1 = some "WHEESPA_ADMINISTRATE".toList)
    (hcommand : adminCommand ((groups 2).getD []) = none) (hstream : user.sockStream = some ss)
    (file : Database) (connType : Option ConnectType) (adminCmd : Option AdminCommand) :
    new recvd user file connType adminCmd =
      some ⟨some groups, user, .openFile file, some .administrate, adminCmd,
        [(ss, "WHEESPA_INVALID_COMMAND".toList)], false⟩ := by
  have hgroup : group ⟨some groups, user, .openFile file, connType, adminCmd, [], false⟩ 1 =
      "WHEESPA_ADMINISTRATE".toList := by
    rw [group, Option.bind_some, htype, Option.getD_some]
  unfold new
  dsimp only
  rw [hmatch, if_pos Option.isSome_some, if_pos hgroup]
  show (match adminCommand ((groups 2).getD []) with | some _ => _ | none => _) = _
  rw [hcommand]
  exact write_eq_some.mpr ⟨ss, hstream, rfl⟩

/-- A command that is known is noted. -/
theorem new_of_command {command : AdminCommand}
    (hmatch : messageRegex.fullMatch recvd = some groups)
    (htype : groups 1 = some "WHEESPA_ADMINISTRATE".toList)
    (hcommand : adminCommand ((groups 2).getD []) = some command) (user : WheespaConnected)
    (file : Database) (connType : Option ConnectType) (adminCmd : Option AdminCommand) :
    new recvd user file connType adminCmd =
      some ⟨some groups, user, .openFile file, some .administrate, some command, [], false⟩ := by
  have hgroup : group ⟨some groups, user, .openFile file, connType, adminCmd, [], false⟩ 1 =
      "WHEESPA_ADMINISTRATE".toList := by
    rw [group, Option.bind_some, htype, Option.getD_some]
  unfold new
  dsimp only
  rw [hmatch, if_pos Option.isSome_some, if_pos hgroup]
  show (match adminCommand ((groups 2).getD []) with | some _ => _ | none => _) = _
  rw [hcommand]

/-- A message to another user. -/
theorem new_of_internal (hmatch : messageRegex.fullMatch recvd = some groups)
    (htype : groups 1 = some "WHEESPA_INTERNAL".toList) (user : WheespaConnected)
    (file : Database) (connType : Option ConnectType) (adminCmd : Option AdminCommand) :
    new recvd user file connType adminCmd =
      some ⟨some groups, user, .openFile file, some .internal, adminCmd, [], false⟩ := by
  have hgroup : group ⟨some groups, user, .openFile file, connType, adminCmd, [], false⟩ 1 =
      "WHEESPA_INTERNAL".toList := by
    rw [group, Option.bind_some, htype, Option.getD_some]
  unfold new
  dsimp only
  rw [hmatch, if_pos Option.isSome_some, hgroup, if_neg (by decide), if_pos rfl]

end Construction

/-- The constructor completes for a user with a connection. -/
theorem exists_new {user : WheespaConnected} (huser : user.sockStream.isSome) (recvd : Str)
    (file : Database) (connType : Option ConnectType) (adminCmd : Option AdminCommand) :
    ∃ self, new recvd user file connType adminCmd = some self := by
  have hwrite (self : HandleReceived) (text : Str) : (self.write user text).isSome := by
    rwa [write, Option.isSome_map]
  rw [← Option.isSome_iff_exists]
  unfold new
  dsimp only
  split_ifs
  · split
    · rfl
    · exact hwrite _ _
  · rfl
  · rfl
  · rfl
  · rfl
  · exact hwrite _ _

/-- A reply is one write. -/
theorem reply_eq_some {self after : HandleReceived} {connected : WheespaConnected} {text : Str}
    {rc : Int} {completion : Completion} :
    ((self.write connected text).bind fun self => some (Completion.returned rc, self)) =
      some (completion, after) ↔
    ∃ ss, connected.sockStream = some ss ∧ completion = .returned rc ∧
      after = { self with written := self.written ++ [(ss, text)] } := by
  rw [Option.bind_eq_some_iff]
  constructor
  · rintro ⟨middle, hwrite, h⟩
    obtain ⟨rfl, rfl⟩ := Prod.mk.inj (Option.some.inj h)
    obtain ⟨ss, hstream, rfl⟩ := write_eq_some.mp hwrite
    exact ⟨ss, hstream, rfl, rfl⟩
  · rintro ⟨ss, hstream, rfl, rfl⟩
    exact ⟨_, write_eq_some.mpr ⟨ss, hstream, rfl⟩, rfl⟩

/-- The name that a message of the user is addressed to. -/
def addressee (self : HandleReceived) : Str :=
  if self.user.registered then self.group 2 else self.user.connectTo

/-- The two calls of `find` in `handleInternal` look up the addressee. -/
theorem find_addressee (self : HandleReceived) (tree : WheespaServerTree) :
    (if self.user.registered then tree.find (self.group 2) else tree.find self.user.connectTo) =
      tree.find self.addressee := by
  rw [addressee, apply_ite tree.find]

/-- A message goes to the live node of its addressee. -/
theorem handleInternal_of_find {self : HandleReceived} {tree : WheespaServerTree} {path : Path}
    {data : WheespaConnected} {ss : SocketStream} (hfind : tree.find self.addressee = some path)
    (hget : tree.node.get? path = some (data, false)) (hstream : data.sockStream = some ss)
    (time : Int) :
    self.handleInternal tree time = some (.returned 0, { self with
      written := self.written ++ [(ss, self.user.key ++ ": ".toList ++ self.group 3 ++
        "::[".toList ++ integerText time ++ "]".toList)] }) := by
  unfold handleInternal
  dsimp only
  rw [find_addressee, hfind, Option.bind_some, hget]
  exact reply_eq_some.mpr ⟨ss, hstream, rfl, rfl⟩

/-- What `handleInternal` does: it writes to the live node of the addressee, or to the user where
`find` finds none. -/
theorem handleInternal_eq_some {self after : HandleReceived} {tree : WheespaServerTree} {time : Int}
    {completion : Completion} (h : self.handleInternal tree time = some (completion, after)) :
    ∃ connected ss text rc, connected.sockStream = some ss ∧ completion = .returned rc ∧
      after = { self with written := self.written ++ [(ss, text)] } ∧
      ((∃ path, tree.find self.addressee = some path ∧
        tree.node.get? path = some (connected, false)) ∨ connected = self.user) := by
  unfold handleInternal at h
  dsimp only at h
  rw [find_addressee] at h
  split at h
  · next data hdata =>
      obtain ⟨ss, hstream, hcompletion, hafter⟩ := reply_eq_some.mp h
      obtain ⟨path, hpath, hget⟩ := Option.bind_eq_some_iff.mp hdata
      exact ⟨data, ss, _, _, hstream, hcompletion, hafter, .inl ⟨path, hpath, hget⟩⟩
  · obtain ⟨ss, hstream, hcompletion, hafter⟩ := reply_eq_some.mp h
    exact ⟨self.user, ss, _, _, hstream, hcompletion, hafter, .inr rfl⟩

/-- What successive writes to the user do. -/
theorem writes_eq_some {users : List WheespaConnected} {self after : HandleReceived}
    {ss : SocketStream}
    (h : users.foldlM (fun self user => self.write self.user user.key) self = some after)
    (hstream : self.user.sockStream = some ss) :
    after = { self with
      written := self.written ++ users.map fun user => (ss, user.key) } := by
  induction users generalizing self with
  | nil =>
      obtain rfl := Option.some.inj h
      simp
  | cons user users ih =>
      obtain ⟨middle, hwrite, h⟩ := Option.bind_eq_some_iff.mp h
      obtain ⟨ss', hstream', rfl⟩ := write_eq_some.mp hwrite
      obtain rfl := Option.some.inj (hstream.symm.trans hstream')
      rw [ih h hstream]
      simp

/-- What `handleListOnline` does: it writes one text or more to the user, and for a registered user
it deletes the root. -/
theorem handleListOnline_eq_some {self after : HandleReceived} {tree : WheespaServerTree}
    {completion : Completion} (h : self.handleListOnline tree = some (completion, after)) :
    ∃ ss text texts rc, self.user.sockStream = some ss ∧ completion = .returned rc ∧
      after = { self with
        written := self.written ++ (text :: texts).map fun text => (ss, text)
        rootDeleted := self.rootDeleted || self.user.registered && !tree.isEmpty } := by
  unfold handleListOnline at h
  cases hregistered : self.user.registered with
  | false =>
      rw [hregistered, if_pos (by rfl)] at h
      obtain ⟨ss, hstream, hcompletion, hafter⟩ := reply_eq_some.mp h
      exact ⟨ss, _, [], _, hstream, hcompletion, by simpa using hafter⟩
  | true =>
      rw [hregistered, if_neg (by simp)] at h
      obtain ⟨first, hcount, h⟩ := Option.bind_eq_some_iff.mp h
      obtain ⟨last, hnames, h⟩ := Option.bind_eq_some_iff.mp h
      obtain ⟨rfl, rfl⟩ := Prod.mk.inj (Option.some.inj h)
      obtain ⟨ss, hstream, rfl⟩ := write_eq_some.mp hcount
      rw [writes_eq_some hnames hstream]
      refine ⟨ss, integerText tree.setDataArray.getDataArray.length,
        tree.setDataArray.getDataArray.map WheespaConnected.key, _, hstream, rfl, ?_⟩
      simp [Function.comp_def, BinarySearchTree.isEmpty, BinarySearchTree.setDataArray]

/-- What a command that shows a table does: it throws, or it writes one text to the user. -/
theorem showTable_eq_some {engine : Engine} {self after : HandleReceived} {table : Str}
    {completion : Completion} (h : self.showTable engine table = some (completion, after)) :
    (completion = .thrown ∧ after.written = self.written) ∨
    ∃ ss text, self.user.sockStream = some ss ∧ completion = .returned 0 ∧
      after.written = self.written ++ [(ss, text)] := by
  unfold showTable at h
  split at h
  · obtain ⟨rfl, rfl⟩ := Prod.mk.inj (Option.some.inj h)
    exact .inl ⟨rfl, rfl⟩
  · obtain ⟨ss, hstream, hcompletion, rfl⟩ := reply_eq_some.mp h
    exact .inr ⟨ss, _, hstream, hcompletion, rfl⟩

/-- A command deletes no node. -/
theorem handleAdmin_rootDeleted {engine : Engine} {memory : Int → Str} {self after : HandleReceived}
    {completion : Completion} (h : self.handleAdmin engine memory = some (completion, after)) :
    after.rootDeleted = self.rootDeleted := by
  have hshow {table : Str} (h : self.showTable engine table = some (completion, after)) :
      after.rootDeleted = self.rootDeleted := by
    unfold showTable at h
    split at h
    · obtain ⟨_, rfl⟩ := Prod.mk.inj (Option.some.inj h)
      rfl
    · obtain ⟨_, _, _, rfl⟩ := reply_eq_some.mp h
      rfl
  unfold handleAdmin at h
  dsimp only at h
  split at h
  · obtain ⟨_, _, _, rfl⟩ := reply_eq_some.mp h
    rfl
  · split at h
    · obtain ⟨_, rfl⟩ := Prod.mk.inj (Option.some.inj h)
      rfl
    · obtain ⟨_, rfl⟩ := Prod.mk.inj (Option.some.inj h)
      rfl
    · exact hshow h
    · exact hshow h
    · exact hshow h
    · obtain ⟨_, rfl⟩ := Prod.mk.inj (Option.some.inj h)
      rfl
    · obtain ⟨_, rfl⟩ := Prod.mk.inj (Option.some.inj h)
      rfl
    · obtain ⟨_, rfl⟩ := Prod.mk.inj (Option.some.inj h)
      rfl
    · obtain ⟨_, rfl⟩ := Prod.mk.inj (Option.some.inj h)
      rfl

/-- The root is deleted where a message is handled as the LIST_ONLINE of a registered user. -/
theorem handle_rootDeleted {engine : Engine} {memory : Int → Str} {self after : HandleReceived}
    {tree : WheespaServerTree} {time : Int} {completion : Completion}
    (h : self.handle engine memory tree time = some (completion, after)) :
    after.rootDeleted = (self.rootDeleted || self.listsOnline && !tree.isEmpty) := by
  unfold handle at h
  split at h
  · next htype => simp [handleAdmin_rootDeleted h, listsOnline, htype]
  · next htype =>
      obtain ⟨_, _, _, _, _, _, rfl, _⟩ := handleInternal_eq_some h
      simp [listsOnline, htype]
  · next htype =>
      obtain ⟨_, rfl⟩ := Prod.mk.inj (Option.some.inj h)
      simp [listsOnline, htype]
  · next htype =>
      obtain ⟨_, _, _, _, _, _, rfl⟩ := handleListOnline_eq_some h
      simp [listsOnline, htype]
  · next htype =>
      obtain ⟨_, _, _, rfl⟩ := reply_eq_some.mp h
      simp [listsOnline, htype]
  · next htype =>
      obtain ⟨_, rfl⟩ := Prod.mk.inj (Option.some.inj h)
      simp [listsOnline, htype]

/-- LIST_ONLINE throws no exception. -/
theorem handle_of_listsOnline {engine : Engine} {memory : Int → Str} {self after : HandleReceived}
    {tree : WheespaServerTree} {time : Int} {completion : Completion}
    (hlists : self.listsOnline = true)
    (h : self.handle engine memory tree time = some (completion, after)) :
    ∃ rc, completion = .returned rc := by
  have htype : self.connType = some .listOnline := by
    rw [listsOnline, Bool.and_eq_true, beq_iff_eq] at hlists
    exact hlists.1
  rw [handle, htype] at h
  obtain ⟨_, _, _, rc, _, hcompletion, _⟩ := handleListOnline_eq_some h
  exact ⟨rc, hcompletion⟩

/-- The message of a user who is no administrator executes nothing, whatever the members that the
constructor leaves unassigned hold. -/
theorem handle_db {engine : Engine} {memory : Int → Str} {self after : HandleReceived}
    {tree : WheespaServerTree} {time : Int} {completion : Completion}
    (huser : self.user.isAdmin = false)
    (h : self.handle engine memory tree time = some (completion, after)) : after.db = self.db := by
  unfold handle at h
  split at h
  · simp only [handleAdmin, huser, Bool.not_false, if_true] at h
    obtain ⟨_, _, _, rfl⟩ := reply_eq_some.mp h
    rfl
  · obtain ⟨_, _, _, _, _, _, rfl, _⟩ := handleInternal_eq_some h
    rfl
  · obtain ⟨_, rfl⟩ := Prod.mk.inj (Option.some.inj h)
    rfl
  · obtain ⟨_, _, _, _, _, _, rfl⟩ := handleListOnline_eq_some h
    rfl
  · obtain ⟨_, _, _, rfl⟩ := reply_eq_some.mp h
    rfl
  · obtain ⟨_, rfl⟩ := Prod.mk.inj (Option.some.inj h)
    rfl

end HandleReceived

end Wheespa
