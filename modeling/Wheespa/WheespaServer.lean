import Wheespa.BinaryTree.Live
import Wheespa.HandleReceived
import Wheespa.RequestQueries

/-!
# The server

The state of `wheespa_server.cc` and what it does with a request of a new connection, with a message
of a connected user and with a failed read, each handled as one step. What the environment decides
is part of the action: the text that was read, the values of variables that are read before they are
assigned, the memory behind a string literal and the time. A `Reaction` is the state after the step,
the user that it inserted, the texts that it handed to SQLite and what it wrote.

`react_tree` says what a step can do to the tree, and `react_database` what it can do to the
database.
-/

namespace Wheespa

open Sql

/-- The tree of connected users, the content of the database file and the static counter of
`ParseRequest`. Once the root of the tree has been deleted, `tree` is what memory holds in its
place. -/
structure Server where
  tree : WheespaServerTree
  database : Database
  anonymousCount : Nat
  rootDeleted : Bool

/-- What happens at the server: a request of a connection, a message of the user at a node, or a
read from the stream of a node that throws. -/
inductive Action where
  | request (ss : SocketStream) (text : Str) (disconnectRequested registered : Bool)
  | message (path : Path) (recvd : Str) (connType : Option ConnectType)
      (adminCmd : Option AdminCommand) (memory : Int → Str) (time : Int)
  | disconnect (path : Path)

/-- The node whose user a message comes from. -/
def Action.sender : Action → Option Path
  | .message path .. => some path
  | .request .. | .disconnect _ => none

/-- What the server does in a step. -/
structure Reaction where
  server : Server
  inserted : Option WheespaConnected
  executed : List Str
  written : List (SocketStream × Str)

namespace Server

/-- The server with an empty tree, as `start` begins on a database file. -/
def start (database : Database) : Server :=
  ⟨.empty, database, 0, false⟩

/-- The object constructed for a request that `rex` matches. -/
def parseRequest (server : Server) : Action → Option ParseRequest
  | .request ss text disconnectRequested _ =>
      (rex.fullMatch text).map fun groups =>
        .new ss ((groups 1).getD []) ((groups 2).getD []) sharedRex server.database
          server.anonymousCount disconnectRequested
  | .message .. | .disconnect _ => none

/-- The condition `node_tmp == nullptr || (node_tmp != nullptr && node_tmp->overwrite)`. -/
def vacant (server : Server) (k : Str) : Bool :=
  match server.tree.find k with
  | none => true
  | some path => (server.tree.node.get? path).any Prod.snd

/-- What the connection loop does with a request, or `none` where it dereferences a null pointer. -/
def handleRequest (engine : Engine) (sha1 : Sha1) (server : Server) (preq : ParseRequest)
    (registered : Bool) : Option Reaction :=
  match preq.handle engine sha1 registered with
  | none => some ⟨server, none, [], []⟩
  | some (handledProperly, preq) =>
      let server := { server with
        database := preq.wDb.database
        anonymousCount := preq.anonymousCount }
      let written := preq.written.map fun text => (preq.ss, text)
      if handledProperly && preq.conn.sockStream.isSome then
        if server.vacant preq.conn.key then do
          let tree ← server.tree.insert preq.conn
          some ⟨{ server with tree }, some preq.conn, preq.wDb.executed,
            written ++ [(preq.ss, "::WHEESPA_CONNECTION_SUCCESS".toList)]⟩
        else
          -- `disconnect_requested` may be a value that nothing assigned
          let tree := if preq.disconnectRequested then (server.tree.remove preq.conn.key).2
            else server.tree
          some ⟨{ server with tree }, none, preq.wDb.executed,
            written ++ [(preq.ss, "::WHEESPA_CONNECTION_EXISTS".toList)]⟩
      else some ⟨server, none, preq.wDb.executed, written⟩

/-- What the service loop does with what it read from the stream of a node, or `none` where a null
pointer is dereferenced. -/
def handleMessage (engine : Engine) (server : Server) (path : Path) (user : WheespaConnected)
    (recvd : Str) (connType : Option ConnectType) (adminCmd : Option AdminCommand)
    (memory : Int → Str) (time : Int) : Option Reaction :=
  if recvd.length > 0 then do
    let received ← HandleReceived.new recvd user server.database connType adminCmd
    let (completion, received) ← received.handle engine memory server.tree time
    let tree := match completion with
      | .returned _ => server.tree
      | .thrown => server.tree.markOverwrite path
    some ⟨{ server with
      tree
      database := received.db.database
      rootDeleted := server.rootDeleted || received.rootDeleted }, none, received.db.executed,
      received.written⟩
  else some ⟨server, none, [], []⟩

/-- One step. A request that `rex` does not match ends its connection, and only live nodes are
visited. -/
def react (engine : Engine) (sha1 : Sha1) (server : Server) : Action → Option Reaction
  | .request ss text disconnectRequested registered =>
      match server.parseRequest (.request ss text disconnectRequested registered) with
      | none => some ⟨server, none, [], []⟩
      | some preq => server.handleRequest engine sha1 preq registered
  | .message path recvd connType adminCmd memory time =>
      match server.tree.node.get? path with
      | some (user, false) =>
          server.handleMessage engine path user recvd connType adminCmd memory time
      | _ => none
  | .disconnect path =>
      match server.tree.node.get? path with
      | some (_, false) =>
          some ⟨{ server with tree := server.tree.markOverwrite path }, none, [], []⟩
      | _ => none

/-- The action is a message that is handled as the LIST_ONLINE of a registered user, which deletes
the root of the tree. -/
def deletesRoot (server : Server) : Action → Bool
  | .message path recvd connType adminCmd _ _ =>
      match server.tree.node.get? path with
      | some (user, false) => decide (recvd.length > 0) &&
          (HandleReceived.new recvd user server.database connType adminCmd).any
            HandleReceived.listsOnline
      | _ => false
  | .request .. | .disconnect _ => false

/-- The texts of replies to one connection. -/
theorem texts_replies (ss : SocketStream) (texts : List Str) :
    (texts.map fun text => (ss, text)).map Prod.snd = texts := by
  rw [List.map_map]
  exact List.map_id texts

/-- The texts of replies to one connection with one more. -/
theorem texts_replies_append (ss : SocketStream) (texts : List Str) (text : Str) :
    ((texts.map fun text => (ss, text)) ++ [(ss, text)]).map Prod.snd = texts ++ [text] := by
  rw [List.map_append, texts_replies, List.map_singleton]

/-- `find` returns no flagged node. -/
theorem vacant_iff {server : Server} {k : Str} :
    server.vacant k = true ↔ server.tree.find k = none := by
  unfold vacant
  cases hfind : server.tree.find k with
  | none => simp
  | some path =>
      obtain ⟨data, hdata, _⟩ := Node.get?_of_find hfind
      simp [hdata]

/-- The object of a request, before it is handled. -/
theorem parseRequest_eq {server : Server} {action : Action} {preq : ParseRequest}
    (h : server.parseRequest action = some preq) :
    preq.ValidParams ∧ preq.conn = .new ∧ preq.wDb = .openFile server.database ∧
      preq.anonymousCount = server.anonymousCount := by
  cases action with
  | request ss text disconnectRequested registered =>
      obtain ⟨groups, _, rfl⟩ := Option.map_eq_some_iff.mp h
      exact ⟨ParseRequest.validParams_new _ _ _ _ _ _, rfl, rfl, rfl⟩
  | message | disconnect => simp [parseRequest] at h

/-- The object of a request has its stream, and the value that `disconnect_requested` held. -/
theorem parseRequest_request {server : Server} {ss : SocketStream} {text : Str}
    {disconnectRequested registered : Bool} {preq : ParseRequest}
    (h : server.parseRequest (.request ss text disconnectRequested registered) = some preq) :
    preq.ss = ss ∧ preq.disconnectRequested = disconnectRequested := by
  obtain ⟨_, _, rfl⟩ := Option.map_eq_some_iff.mp h
  exact ⟨rfl, rfl⟩

/-- A request that `rex` matches is handled. -/
theorem react_request {engine : Engine} {sha1 : Sha1} {server : Server} {ss : SocketStream}
    {text : Str} {disconnectRequested registered : Bool} {preq : ParseRequest}
    (hpreq : server.parseRequest (.request ss text disconnectRequested registered) = some preq) :
    server.react engine sha1 (.request ss text disconnectRequested registered) =
      server.handleRequest engine sha1 preq registered := by
  simp only [react, hpreq]

/-- What a request can do: nothing past its own texts; an insertion of a connection that it is
granted under a key that `find` does not find; or a removal of the key of a connection that it is
granted, where `disconnect_requested` holds. -/
theorem handleRequest_cases {engine : Engine} {sha1 : Sha1} {server : Server} {preq : ParseRequest}
    {registered : Bool} {reaction : Reaction} (hconn : preq.conn = .new)
    (h : server.handleRequest engine sha1 preq registered = some reaction) :
    ∃ handledProperly after,
      preq.handle engine sha1 registered = some (handledProperly, after) ∧
      reaction.executed = after.wDb.executed ∧
      reaction.server.database = after.wDb.database ∧
      ((preq.Grants engine sha1 after.conn ∧ server.tree.find after.conn.key = none ∧
          reaction.inserted = some after.conn ∧
          reaction.server.tree = { server.tree with node := server.tree.node.place after.conn }) ∨
        (reaction.inserted = none ∧ (reaction.server.tree = server.tree ∨
          (preq.Grants engine sha1 after.conn ∧ handledProperly = true ∧
            after.disconnectRequested = true ∧
            reaction.server.tree = (server.tree.remove after.conn.key).2)))) := by
  obtain ⟨⟨handledProperly, after⟩, hhandle⟩ :=
    Option.isSome_iff_exists.mp (preq.handle_isSome engine sha1 registered)
  refine ⟨handledProperly, after, hhandle, ?_⟩
  simp only [handleRequest, hhandle] at h
  -- a vacant key, a key that is taken with and without a request to remove it, and no connection
  split_ifs at h with hconnected hvacant
  · obtain ⟨tree, htree, h⟩ := Option.bind_eq_some_iff.mp h
    obtain rfl := Option.some.inj h
    rw [Bool.and_eq_true] at hconnected
    obtain rfl : handledProperly = true := hconnected.1
    refine ⟨rfl, rfl, .inl ⟨ParseRequest.handle_grants hconn hhandle hconnected.2,
      vacant_iff.mp hvacant, rfl, ?_⟩⟩
    exact BinarySearchTree.insert_eq_place htree
  · next hdisconnect =>
      obtain rfl := Option.some.inj h
      rw [Bool.and_eq_true] at hconnected
      obtain rfl : handledProperly = true := hconnected.1
      exact ⟨rfl, rfl, .inr ⟨rfl, .inr ⟨ParseRequest.handle_grants hconn hhandle hconnected.2,
        rfl, hdisconnect, rfl⟩⟩⟩
  · obtain rfl := Option.some.inj h
    exact ⟨rfl, rfl, .inr ⟨rfl, .inl rfl⟩⟩
  · obtain rfl := Option.some.inj h
    exact ⟨rfl, rfl, .inr ⟨rfl, .inl rfl⟩⟩

/-- A request that succeeds under a key that `find` does not find has its connection inserted. -/
theorem handleRequest_of_find {engine : Engine} {sha1 : Sha1} {server : Server}
    {preq after : ParseRequest} {registered : Bool}
    (hhandle : preq.handle engine sha1 registered = some (true, after))
    (hstream : after.conn.sockStream.isSome) (hfind : server.tree.find after.conn.key = none) :
    server.handleRequest engine sha1 preq registered = some
      ⟨⟨{ server.tree with node := server.tree.node.place after.conn }, after.wDb.database,
        after.anonymousCount, server.rootDeleted⟩, some after.conn, after.wDb.executed,
        (after.written.map fun text => (after.ss, text)) ++
          [(after.ss, "::WHEESPA_CONNECTION_SUCCESS".toList)]⟩ := by
  have hvacant : Server.vacant ⟨server.tree, after.wDb.database, after.anonymousCount,
      server.rootDeleted⟩ after.conn.key = true := vacant_iff.mpr hfind
  have hinsert := BinarySearchTree.insert_of_find
    (hfind : server.tree.find (key after.conn) = none)
  simp only [handleRequest, hhandle, Bool.true_and, hstream, hvacant, if_true, hinsert,
    Option.bind_eq_bind, Option.bind_some]

/-- A request that succeeds inserts its connection where `find` does not find the key. -/
theorem handleRequest_inserted {engine : Engine} {sha1 : Sha1} {server : Server}
    {preq after : ParseRequest} {registered : Bool} {reaction : Reaction}
    (hhandle : preq.handle engine sha1 registered = some (true, after))
    (hstream : after.conn.sockStream.isSome) (hfind : server.tree.find after.conn.key = none)
    (h : server.handleRequest engine sha1 preq registered = some reaction) :
    reaction.inserted = some after.conn := by
  rw [handleRequest_of_find hhandle hstream hfind] at h
  obtain rfl := Option.some.inj h
  rfl

/-- A request deletes no node. -/
theorem handleRequest_rootDeleted {engine : Engine} {sha1 : Sha1} {server : Server}
    {preq : ParseRequest} {registered : Bool} {reaction : Reaction}
    (h : server.handleRequest engine sha1 preq registered = some reaction) :
    reaction.server.rootDeleted = server.rootDeleted := by
  unfold handleRequest at h
  split at h
  · obtain rfl := Option.some.inj h
    rfl
  · dsimp only at h
    split_ifs at h
    · obtain ⟨tree, _, h⟩ := Option.bind_eq_some_iff.mp h
      obtain rfl := Option.some.inj h
      rfl
    all_goals
      obtain rfl := Option.some.inj h
      rfl

/-- A message inserts nothing, and marks the node of its user at most. -/
theorem handleMessage_tree {engine : Engine} {server : Server} {path : Path}
    {user : WheespaConnected} {recvd : Str} {connType : Option ConnectType}
    {adminCmd : Option AdminCommand} {memory : Int → Str} {time : Int} {reaction : Reaction}
    (h : server.handleMessage engine path user recvd connType adminCmd memory time =
      some reaction) :
    reaction.inserted = none ∧ (reaction.server.tree = server.tree ∨
      reaction.server.tree = server.tree.markOverwrite path) := by
  unfold handleMessage at h
  split at h
  · obtain ⟨received, _, h⟩ := Option.bind_eq_some_iff.mp h
    obtain ⟨⟨completion, after⟩, _, h⟩ := Option.bind_eq_some_iff.mp h
    obtain rfl := Option.some.inj h
    cases completion with
    | returned rc => exact ⟨rfl, .inl rfl⟩
    | thrown => exact ⟨rfl, .inr rfl⟩
  · obtain rfl := Option.some.inj h
    exact ⟨rfl, .inl rfl⟩

/-- Removing a key marks a node, or changes nothing. -/
theorem remove_cases (tree : WheespaServerTree) (k : Str) :
    (tree.remove k).2 = tree ∨ ∃ path, (tree.remove k).2 = tree.markOverwrite path := by
  unfold BinarySearchTree.remove
  split
  · exact .inr ⟨_, rfl⟩
  · exact .inl rfl

/-- What a step can do to the tree: it inserts a connection that the request can be granted, under a
key that `find` does not find; or it changes nothing, or it marks a node. -/
theorem react_tree {engine : Engine} {sha1 : Sha1} {server : Server} {action : Action}
    {reaction : Reaction} (h : server.react engine sha1 action = some reaction) :
    (∃ preq conn, server.parseRequest action = some preq ∧ preq.Grants engine sha1 conn ∧
      server.tree.find conn.key = none ∧ reaction.inserted = some conn ∧
      reaction.server.tree = { server.tree with node := server.tree.node.place conn }) ∨
    (reaction.inserted = none ∧ (reaction.server.tree = server.tree ∨
      ∃ path, reaction.server.tree = server.tree.markOverwrite path)) := by
  cases action with
  | request ss text disconnectRequested registered =>
      simp only [react] at h
      split at h
      · obtain rfl := Option.some.inj h
        exact .inr ⟨rfl, .inl rfl⟩
      · next preq hpreq =>
          obtain ⟨_, after, _, _, _, ⟨hgrants, hfind, hinserted, htree⟩ | ⟨hinserted, htree⟩⟩ :=
            handleRequest_cases (parseRequest_eq hpreq).2.1 h
          · exact .inl ⟨preq, after.conn, hpreq, hgrants, hfind, hinserted, htree⟩
          · refine .inr ⟨hinserted, ?_⟩
            rcases htree with htree | ⟨_, _, _, htree⟩
            · exact .inl htree
            · rw [htree]
              exact remove_cases server.tree after.conn.key
  | message path recvd connType adminCmd memory time =>
      simp only [react] at h
      split at h
      · -- a message marks the node of its sender at most
        obtain ⟨hinserted, htree⟩ := handleMessage_tree h
        exact .inr ⟨hinserted, htree.imp_right fun htree => ⟨path, htree⟩⟩
      · simp at h
  | disconnect path =>
      simp only [react] at h
      split at h
      · obtain rfl := Option.some.inj h
        exact .inr ⟨rfl, .inr ⟨path, rfl⟩⟩
      · simp at h

/-- A message executes texts only where its user is an administrator. -/
theorem handleMessage_executed {engine : Engine} {server : Server} {path : Path}
    {user : WheespaConnected} {recvd : Str} {connType : Option ConnectType}
    {adminCmd : Option AdminCommand} {memory : Int → Str} {time : Int} {reaction : Reaction}
    (h : server.handleMessage engine path user recvd connType adminCmd memory time =
      some reaction) (huser : user.isAdmin = false) :
    reaction.executed = [] ∧ reaction.server.database = server.database := by
  unfold handleMessage at h
  split at h
  · obtain ⟨received, hnew, h⟩ := Option.bind_eq_some_iff.mp h
    obtain ⟨⟨completion, after⟩, hhandle, h⟩ := Option.bind_eq_some_iff.mp h
    obtain rfl := Option.some.inj h
    obtain ⟨_, huser', hdb, _⟩ := HandleReceived.new_eq hnew
    have hafter : after.db = received.db :=
      HandleReceived.handle_db (by rw [huser', huser]) hhandle
    rw [hdb] at hafter
    exact ⟨congrArg FlexDB.executed hafter, congrArg FlexDB.database hafter⟩
  · obtain rfl := Option.some.inj h
    exact ⟨rfl, rfl⟩

/-- A message deletes the root where it is handled as the LIST_ONLINE of a registered user, and then
it marks no node. -/
theorem handleMessage_rootDeleted {engine : Engine} {server : Server} {path : Path}
    {user : WheespaConnected} {recvd : Str} {connType : Option ConnectType}
    {adminCmd : Option AdminCommand} {memory : Int → Str} {time : Int} {reaction : Reaction}
    (hget : server.tree.node.get? path = some (user, false))
    (h : server.handleMessage engine path user recvd connType adminCmd memory time =
      some reaction) :
    reaction.server.rootDeleted = (server.rootDeleted ||
      server.deletesRoot (.message path recvd connType adminCmd memory time)) ∧
    (server.deletesRoot (.message path recvd connType adminCmd memory time) = true →
      reaction.server.tree = server.tree) := by
  simp only [deletesRoot, hget]
  unfold handleMessage at h
  split at h
  · next hlength =>
      obtain ⟨received, hnew, h⟩ := Option.bind_eq_some_iff.mp h
      obtain ⟨⟨completion, after⟩, hhandle, h⟩ := Option.bind_eq_some_iff.mp h
      obtain rfl := Option.some.inj h
      have hempty : server.tree.isEmpty = false := by
        cases hnode : server.tree.node with
        | nullptr => simp [hnode] at hget
        | node => rw [BinarySearchTree.isEmpty, hnode, Node.isNull]
      have hfirst : received.rootDeleted = false := (HandleReceived.new_eq hnew).2.2.2
      simp only [hnew, hlength, decide_true, Bool.true_and, Option.any_some]
      constructor
      · simp [HandleReceived.handle_rootDeleted hhandle, hfirst, hempty]
      · intro hlists
        obtain ⟨rc, rfl⟩ := HandleReceived.handle_of_listsOnline hlists hhandle
        rfl
  · next hlength =>
      obtain rfl := Option.some.inj h
      simp [hlength]

/-- A step deletes the root where it is a message that does, and then it leaves the tree. -/
theorem react_rootDeleted {engine : Engine} {sha1 : Sha1} {server : Server} {action : Action}
    {reaction : Reaction} (h : server.react engine sha1 action = some reaction) :
    reaction.server.rootDeleted = (server.rootDeleted || server.deletesRoot action) ∧
      (server.deletesRoot action = true → reaction.server.tree = server.tree) := by
  cases action with
  | request ss text disconnectRequested registered =>
      rw [deletesRoot, Bool.or_false]
      refine ⟨?_, fun hdeletes => absurd hdeletes Bool.false_ne_true⟩
      simp only [react] at h
      split at h
      · obtain rfl := Option.some.inj h
        rfl
      · exact handleRequest_rootDeleted h
  | message path recvd connType adminCmd memory time =>
      simp only [react] at h
      split at h
      · next hget => exact handleMessage_rootDeleted hget h
      · simp at h
  | disconnect path =>
      rw [deletesRoot, Bool.or_false]
      refine ⟨?_, fun hdeletes => absurd hdeletes Bool.false_ne_true⟩
      simp only [react] at h
      split at h
      · obtain rfl := Option.some.inj h
        rfl
      · simp at h

/-- What a step without a message can do to the database: nothing, or a registration. -/
theorem react_database {engine : Engine} {sha1 : Sha1} {server : Server} {action : Action}
    {reaction : Reaction} (h : server.react engine sha1 action = some reaction)
    (hsender : action.sender = none) :
    reaction.server.database = server.database ∨
    ∃ preq registered, server.parseRequest action = some preq ∧
      ParseRequest.rtMap preq.reqType = some .register ∧
      reaction.server.database = (preq.registerUser engine sha1 registered).2.wDb.database := by
  cases action with
  | request ss text disconnectRequested registered =>
      simp only [react] at h
      split at h
      · obtain rfl := Option.some.inj h
        exact .inl rfl
      · next preq hpreq =>
          obtain ⟨hvalid, hconn, hdb, _⟩ := parseRequest_eq hpreq
          obtain ⟨handledProperly, after, hhandle, _, hdatabase, _⟩ := handleRequest_cases hconn h
          rw [hdatabase]
          rcases preq.handle_wDb engine sha1 hvalid hhandle with hselect | ⟨htype, hregister⟩
          · have hafter : after.wDb.dbHandle = preq.wDb.dbHandle := hselect.dbHandle_eq
            left
            rw [FlexDB.database, hafter, hdb]
            rfl
          · exact .inr ⟨preq, registered, hpreq, htype, congrArg FlexDB.database hregister⟩
  | message => simp [Action.sender] at hsender
  | disconnect path =>
      simp only [react] at h
      split at h
      · obtain rfl := Option.some.inj h
        exact .inl rfl
      · simp at h

end Server

end Wheespa
