import Mathlib.Algebra.GroupWithZero.Nat
import Wheespa.RequestTemplates

/-!
# The handler of a connection

The thread that `wheespa_server.cc` starts for an accepted connection, from its first write to its
last. What the environment decides is part of an `Attempt`: what the other threads do to the server
before a read returns, what the read gives, whether the file of the database opens, and the values
of the two variables that are read before they are assigned. `retries` counts the attempts, so that
an attempt is named by it. What follows a read is one step of the server (`attempt_react`).

The flag of a connection has the number of the connection. The thread captures the variable `ab` of
the accept loop by reference, and the loop assigns it at the next `accept`, so that the flag written
at the end is that of the connection accepted last by then.

`bounded_iff` says what any run of the handler does: it ends, within three reads and three tests of
a password, with at most one insertion, which is the last thing that it does to the tree, and having
written one flag once. That flag is its own exactly if no connection has been accepted meanwhile,
and then another handler can still write it, too.
-/

namespace Wheespa

open Sql ParseRequest

/-- What the environment decides of an attempt. A read that throws gives `none`. -/
structure Attempt where
  others : Server → Server
  read : Option Str
  opens : Bool
  disconnectRequested : Bool
  registered : Bool

/-- What a handler does. -/
inductive Occurrence where
  | write (text : Str)
  | read (request : Option Str)
  /-- the call of `handle` ends, with `none` where it throws -/
  | handle (preq : ParseRequest) (result : Option (Bool × ParseRequest))
  | find (k : Str)
  | insert (conn : WheespaConnected)
  | remove (k : Str)
  | shutdown (result : Int)
  | close
  /-- the assignment `*ab = true`, where `ab` points to the flag of the given connection -/
  | setFlag (flag : SocketStream)

/-- The ways to go on after an attempt. -/
inductive Control where
  | again
  | returned
  | thrown
  deriving DecidableEq, Repr

/-- The variables of a handler, the server, and what the handler has done. The flag that `ab` points
to matters where the handler assigns to it, and `ab` is the connection whose flag that is. -/
structure ConnectionHandler where
  ss : SocketStream
  ab : SocketStream
  server : Server
  retries : Nat
  handledProperly : Bool
  log : List Occurrence

namespace ConnectionHandler

/-- The handler does something. -/
def note (self : ConnectionHandler) (occurrences : List Occurrence) : ConnectionHandler :=
  { self with log := self.log ++ occurrences }

/-- What the handler does with a request that `handle` has handled, or `none` where it dereferences
a null pointer. -/
def connect (self : ConnectionHandler) (handledProperly : Bool) (preq : ParseRequest) :
    Option (ConnectionHandler × Control) :=
  let self := { self with handledProperly }
  if handledProperly && preq.conn.sockStream.isSome then
    let self := self.note [.find preq.conn.key]
    if self.server.vacant preq.conn.key then do
      let tree ← self.server.tree.insert preq.conn
      let self := { self with server := { self.server with tree } }
      some (self.note [.insert preq.conn, .write "::WHEESPA_CONNECTION_SUCCESS".toList,
        .setFlag self.ab], .returned)
    else
      let self := self.note [.write "::WHEESPA_CONNECTION_EXISTS".toList]
      if preq.disconnectRequested then
        let tree := (self.server.tree.remove preq.conn.key).2
        let self := { self with server := { self.server with tree } }
        some (self.note [.remove preq.conn.key], .again)
      else some (self, .again)
  else some (self, .again)

/-- The body of the loop. -/
def attempt (engine : Engine) (sha1 : Sha1) (self : ConnectionHandler) (env : Attempt) :
    Option (ConnectionHandler × Control) :=
  let self := { self with server := env.others self.server }
  let self := self.note [.read env.read]
  match env.read with
  | none => some (self, .thrown)
  | some request =>
      match self.server.parseRequest
        (.request self.ss request env.disconnectRequested env.registered) with
      | none => some ({ self with handledProperly := true }, .again)
      | some preq =>
          if !env.opens then some (self, .thrown)
          else
            match preq.handle engine sha1 env.registered with
            | none => some (self.note [.handle preq none], .thrown)
            | some (handledProperly, after) =>
                let self := self.note (after.written.map .write ++
                  [.handle preq (some (handledProperly, after))])
                let self := { self with server := { self.server with
                  database := after.wDb.database
                  anonymousCount := after.anonymousCount } }
                self.connect handledProperly after

/-- The loop `while(!handled_properly && retries++ < 3)`, or `none` where the fuel is spent or a
null pointer is dereferenced. -/
def loop (engine : Engine) (sha1 : Sha1) (attempts : Nat → Attempt) :
    Nat → ConnectionHandler → Option (ConnectionHandler × Control)
  | 0, _ => none
  | fuel + 1, self =>
      if !self.handledProperly then
        let again := self.retries < 3
        let env := attempts self.retries
        let self := { self with retries := self.retries + 1 }
        if again then
          match self.attempt engine sha1 env with
          | none => none
          | some (self, .again) => loop engine sha1 attempts fuel self
          | some (self, control) => some (self, control)
        else some (self, .again)
      else some (self, .again)

/-- What follows the `try` block, which a `return` skips. -/
def finish (self : ConnectionHandler) (shutdown : Int) : ConnectionHandler :=
  let self := self.note [.shutdown shutdown]
  let self := if shutdown = 1 then self.note [.close] else self
  self.note [.setFlag self.ab]

/-- The handler of the connection `ss`, where the call of `shutdown` gives the value `shutdown`, and
`accepted` more connections have been accepted when the handler assigns to `*ab`. -/
def run (engine : Engine) (sha1 : Sha1) (ss : SocketStream) (server : Server)
    (attempts : Nat → Attempt) (shutdown : Int) (accepted : Nat) : Option ConnectionHandler :=
  let self : ConnectionHandler :=
    ⟨ss, ss + accepted, server, 0, false, [.write "WBANNER".toList]⟩
  match self.loop engine sha1 attempts 4 with
  | none => none
  | some (self, .returned) => some self
  | some (self, .again) | some (self, .thrown) => some (self.finish shutdown)

end ConnectionHandler

/-! ## What a log shows -/

/-- The occurrence is a read. -/
def Occurrence.isRead : Occurrence → Bool
  | .read _ => true
  | _ => false

/-- The occurrence is an insertion. -/
def Occurrence.isInsert : Occurrence → Bool
  | .insert _ => true
  | _ => false

/-- The connection that is inserted. -/
def Occurrence.inserted? : Occurrence → Option WheespaConnected
  | .insert conn => some conn
  | _ => none

/-- The text that is written. -/
def Occurrence.written? : Occurrence → Option Str
  | .write text => some text
  | _ => none

/-- The occurrence is an assignment of a completion flag. -/
def Occurrence.isSetFlag : Occurrence → Bool
  | .setFlag _ => true
  | _ => false

/-- The text is a query of `authenticate`. -/
def isPasswordTest (text : Str) : Bool :=
  "Select * from Registered where W_USER = \"".toList.isPrefixOf text

/-- The number of queries of `authenticate` that are executed. -/
def Occurrence.passwordTests : Occurrence → Nat
  | .handle _ (some (_, after)) => after.wDb.executed.countP isPasswordTest
  | _ => 0

/-- The key that a request asks for a connection under. -/
def requestedKey (preq : ParseRequest) : Option Str :=
  match rtMap preq.reqType with
  | some .adminLogin | some .disconnectLogin | some .login => preq.param "username".toList
  | some .anonymousConnect => preq.param "alias".toList
  | some .register | none => none

/-- What the handler of `ss` has done when it inserts `conn`: it has read a request, `handle` has
returned true for it, its type is not `WHEESPA_REGISTER`, and `conn` has its key and the stream of
the handler. -/
structure Admits (ss : SocketStream) (conn : WheespaConnected) (before : List Occurrence) :
    Prop where
  directly : ∃ (start : List Occurrence) (request : Str) (writes : List Str)
      (preq after : ParseRequest),
    before = start ++ .read (some request) :: (writes.map .write ++
      [.handle preq (some (true, after)), .find conn.key]) ∧
    (∃ server disconnectRequested registered,
      Server.parseRequest server (.request ss request disconnectRequested registered) = some preq) ∧
    rtMap preq.reqType ≠ some .register ∧ requestedKey preq = some conn.key
  stream : conn.sockStream = some ss

/-- At most so many reads and tests of a password, no insertion, and no flag is written. -/
structure Quiet (reads tests : Nat) (log : List Occurrence) : Prop where
  reads : log.countP Occurrence.isRead ≤ reads
  tests : (log.map Occurrence.passwordTests).sum ≤ tests
  insertions : log.countP Occurrence.isInsert = 0
  flag : log.countP Occurrence.isSetFlag = 0

theorem Quiet.append {reads reads' tests tests' : Nat} {log log' : List Occurrence}
    (h : Quiet reads tests log) (h' : Quiet reads' tests' log') :
    Quiet (reads + reads') (tests + tests') (log ++ log') where
  reads := by
    rw [List.countP_append]
    exact Nat.add_le_add h.reads h'.reads
  tests := by
    rw [List.map_append, List.sum_append]
    exact Nat.add_le_add h.tests h'.tests
  insertions := by rw [List.countP_append, h.insertions, h'.insertions]
  flag := by rw [List.countP_append, h.flag, h'.flag]

theorem Quiet.mono {reads reads' tests tests' : Nat} {log : List Occurrence}
    (h : Quiet reads tests log) (hreads : reads ≤ reads') (htests : tests ≤ tests') :
    Quiet reads' tests' log :=
  ⟨h.reads.trans hreads, h.tests.trans htests, h.insertions, h.flag⟩

/-- Writing is quiet. -/
theorem quiet_writes (texts : List Str) : Quiet 0 0 (texts.map .write) := by
  induction texts with
  | nil => exact ⟨Nat.le_refl 0, Nat.le_refl 0, rfl, rfl⟩
  | cons text texts ih =>
      have hfirst : Quiet 0 0 [.write text] := ⟨Nat.le_refl 0, Nat.le_refl 0, rfl, rfl⟩
      exact hfirst.append ih

/-- What a part of a run does: it is quiet, or it returns with an insertion at its end. -/
inductive Part (n : Nat) (ss ab : SocketStream) : Control → List Occurrence → Prop where
  | quiet {control : Control} {log : List Occurrence} (hcontrol : control ≠ .returned)
      (hquiet : Quiet n n log) : Part n ss ab control log
  | insertion {front : List Occurrence} {conn : WheespaConnected} (hquiet : Quiet n n front)
      (hadmits : ∀ start, Admits ss conn (start ++ front)) :
      Part n ss ab .returned
        (front ++ [.insert conn, .write "::WHEESPA_CONNECTION_SUCCESS".toList, .setFlag ab])

theorem Part.mono {m n : Nat} {ss ab : SocketStream} {control : Control} {log : List Occurrence}
    (h : Part m ss ab control log) (hle : m ≤ n) : Part n ss ab control log := by
  cases h with
  | quiet hcontrol hquiet => exact .quiet hcontrol (hquiet.mono hle hle)
  | insertion hquiet hadmits => exact .insertion (hquiet.mono hle hle) hadmits

/-- A request tests a password once at most. -/
theorem passwordTests_handle {engine : Engine} {sha1 : Sha1} {preq after : ParseRequest}
    {registered handledProperly : Bool} (hvalid : preq.ValidParams)
    (hfirst : preq.wDb.executed = [])
    (h : preq.handle engine sha1 registered = some (handledProperly, after)) :
    after.wDb.executed.countP isPasswordTest ≤ 1 := by
  obtain ⟨texts, hdone, hexecuted⟩ := @handle_executed sha1 preq engine hvalid _ _ h
  have hbuilt :
      ((rtMap preq.reqType).elim [] (builtTexts sha1 preq)).countP isPasswordTest ≤ 1 := by
    cases rtMap preq.reqType with
    | none => exact Nat.zero_le 1
    | some type =>
        -- of the texts of a type, one at most begins as the query of `authenticate` does
        cases type with
        | adminLogin | anonymousConnect | disconnectLogin | login | register =>
            exact Nat.le_of_ble_eq_true rfl
  rw [hexecuted, hfirst, List.nil_append]
  exact hdone.sublist.countP_le.trans hbuilt

namespace ConnectionHandler

/-- What the handler does with a request that has been handled: nothing that counts, or it returns
with an insertion of its connection. -/
theorem connect_spec (self : ConnectionHandler) (handledProperly : Bool) (preq : ParseRequest) :
    ∃ self' control rest, self.connect handledProperly preq = some (self', control) ∧
      self'.retries = self.retries ∧ self'.ss = self.ss ∧ self'.ab = self.ab ∧
      self'.log = self.log ++ rest ∧
      ((control = .again ∧ Quiet 0 0 rest) ∨
        (control = .returned ∧ handledProperly = true ∧ preq.conn.sockStream.isSome ∧
          rest = [.find preq.conn.key, .insert preq.conn,
            .write "::WHEESPA_CONNECTION_SUCCESS".toList, .setFlag self.ab])) := by
  cases hconnected : handledProperly && preq.conn.sockStream.isSome with
  | false =>
      refine ⟨{ self with handledProperly }, .again, [], ?_, rfl, rfl, rfl,
        (List.append_nil _).symm, .inl ⟨rfl, Nat.le_refl 0, Nat.le_refl 0, rfl, rfl⟩⟩
      simp only [connect, hconnected, Bool.false_eq_true, if_false]
  | true =>
      obtain ⟨hproperly, hstream⟩ := Bool.and_eq_true_iff.mp hconnected
      cases hvacant : self.server.vacant preq.conn.key with
      | true =>
          have hinsert := BinarySearchTree.insert_of_find
            (Server.vacant_iff.mp hvacant : self.server.tree.find (key preq.conn) = none)
          simp only [connect, hconnected, if_true, note, hvacant, hinsert, Option.bind_eq_bind,
            Option.bind_some]
          exact ⟨_, _, _, rfl, rfl, rfl, rfl, List.append_assoc _ _ _,
            .inr ⟨rfl, hproperly, hstream, rfl⟩⟩
      | false =>
          cases hdisconnect : preq.disconnectRequested with
          | true =>
              simp only [connect, hconnected, if_true, note, hvacant, Bool.false_eq_true, if_false,
                hdisconnect, List.append_assoc]
              exact ⟨_, _, _, rfl, rfl, rfl, rfl, rfl,
                .inl ⟨rfl, Nat.le_refl 0, Nat.le_refl 0, rfl, rfl⟩⟩
          | false =>
              simp only [connect, hconnected, if_true, note, hvacant, Bool.false_eq_true, if_false,
                hdisconnect, List.append_assoc]
              exact ⟨_, _, _, rfl, rfl, rfl, rfl, rfl,
                .inl ⟨rfl, Nat.le_refl 0, Nat.le_refl 0, rfl, rfl⟩⟩

/-- The key of a connection that a request can be granted is the one that it asks for, and no
registration is granted one. -/
theorem requestedKey_of_grants {engine : Engine} {sha1 : Sha1} {preq : ParseRequest}
    {conn : WheespaConnected} (h : preq.Grants engine sha1 conn) :
    rtMap preq.reqType ≠ some .register ∧ requestedKey preq = some conn.key := by
  unfold requestedKey
  cases h with
  | login htype huser =>
      rcases htype with htype | htype <;>
      · rw [htype]
        exact ⟨by decide, huser⟩
  | adminLogin htype huser =>
      rw [htype]
      exact ⟨by decide, huser⟩
  | anonymousConnect htype halias =>
      rw [htype]
      exact ⟨by decide, halias⟩

/-- What the log shows of a request until the call of `handle` has ended. -/
def handling (request : Str) (preq : ParseRequest) (handledProperly : Bool)
    (after : ParseRequest) : List Occurrence :=
  .read (some request) :: (after.written.map .write ++
    [.handle preq (some (handledProperly, after))])

/-- An attempt that reads a request goes on with what `handle` leaves. -/
theorem attempt_of_handle {engine : Engine} {sha1 : Sha1} {self : ConnectionHandler}
    {env : Attempt} {request : Str} {preq after : ParseRequest} {handledProperly : Bool}
    (hread : env.read = some request) (hopens : env.opens = true)
    (hpreq : (env.others self.server).parseRequest
      (.request self.ss request env.disconnectRequested env.registered) = some preq)
    (hhandle : preq.handle engine sha1 env.registered = some (handledProperly, after)) :
    self.attempt engine sha1 env =
      connect ⟨self.ss, self.ab, { env.others self.server with
          database := after.wDb.database
          anonymousCount := after.anonymousCount }, self.retries, self.handledProperly,
        self.log ++ handling request preq handledProperly after⟩ handledProperly after := by
  unfold attempt
  rw [hread]
  simp only [note, hpreq, hopens, Bool.not_true, Bool.false_eq_true, if_false, hhandle, handling,
    List.append_assoc, List.cons_append, List.nil_append]

/-- Handling a request reads once and tests a password once at most. -/
theorem quiet_handling {engine : Engine} {sha1 : Sha1} {preq after : ParseRequest}
    {registered handledProperly : Bool} (request : Str) (hvalid : preq.ValidParams)
    (hfirst : preq.wDb.executed = [])
    (h : preq.handle engine sha1 registered = some (handledProperly, after)) :
    Quiet 1 1 (handling request preq handledProperly after) := by
  have hread : Quiet 1 0 [.read (some request)] := ⟨Nat.le_refl 1, Nat.le_refl 0, rfl, rfl⟩
  have hhandled : Quiet 0 1 [.handle preq (some (handledProperly, after))] :=
    ⟨Nat.le_refl 0, passwordTests_handle hvalid hfirst h, rfl, rfl⟩
  exact hread.append ((quiet_writes after.written).append hhandled)

/-- Handling a request for which `handle` returns true, and finding no node of its key, is what an
insertion has to follow. -/
theorem admits_handling {engine : Engine} {sha1 : Sha1} {server : Server} {ss : SocketStream}
    {request : Str} {disconnectRequested registered : Bool} {preq after : ParseRequest}
    (hpreq : server.parseRequest (.request ss request disconnectRequested registered) = some preq)
    (h : preq.handle engine sha1 registered = some (true, after))
    (hstream : after.conn.sockStream.isSome) (start : List Occurrence) :
    Admits ss after.conn
      (start ++ (handling request preq true after ++ [.find after.conn.key])) := by
  have hgrants := ParseRequest.handle_grants (Server.parseRequest_eq hpreq).2.1 h hstream
  obtain ⟨hregister, hkey⟩ := requestedKey_of_grants hgrants
  refine ⟨⟨start, request, after.written, preq, after, ?_, ⟨_, _, _, hpreq⟩, hregister, hkey⟩, ?_⟩
  · simp only [handling, List.append_assoc, List.cons_append, List.nil_append]
  · rw [hgrants.sockStream_eq, (Server.parseRequest_request hpreq).1]

/-- An attempt reads once, tests a password once at most, and is quiet or ends with an insertion. -/
theorem attempt_spec (engine : Engine) (sha1 : Sha1) (self : ConnectionHandler) (env : Attempt) :
    ∃ self' control rest, self.attempt engine sha1 env = some (self', control) ∧
      self'.retries = self.retries ∧ self'.ss = self.ss ∧ self'.ab = self.ab ∧
      self'.log = self.log ++ rest ∧ Part 1 self.ss self.ab control rest := by
  have hread (request : Option Str) : Quiet 1 1 [.read request] :=
    ⟨Nat.le_refl 1, Nat.zero_le 1, rfl, rfl⟩
  -- the read gives nothing, the text is no request, the database does not open, or it is handled
  cases hrequest : env.read with
  | none =>
      unfold attempt
      rw [hrequest]
      exact ⟨_, _, _, rfl, rfl, rfl, rfl, rfl, .quiet (by decide) (hread none)⟩
  | some request =>
      cases hpreq : (env.others self.server).parseRequest
          (.request self.ss request env.disconnectRequested env.registered) with
      | none =>
          unfold attempt
          rw [hrequest]
          simp only [note, hpreq]
          exact ⟨_, _, _, rfl, rfl, rfl, rfl, rfl, .quiet (by decide) (hread _)⟩
      | some preq =>
          obtain ⟨hvalid, _, hdb, _⟩ := Server.parseRequest_eq hpreq
          obtain ⟨⟨handledProperly, after⟩, hhandle⟩ :=
            Option.isSome_iff_exists.mp (preq.handle_isSome engine sha1 env.registered)
          cases hopens : env.opens with
          | false =>
              unfold attempt
              rw [hrequest]
              simp only [note, hpreq, hopens]
              exact ⟨_, _, _, rfl, rfl, rfl, rfl, rfl, .quiet (by decide) (hread _)⟩
          | true =>
              rw [attempt_of_handle hrequest hopens hpreq hhandle]
              have hquiet := quiet_handling request hvalid (congrArg FlexDB.executed hdb) hhandle
              obtain ⟨self', control, rest, hconnect, hretries, hss, hab, hlog, hcases⟩ :=
                connect_spec ⟨self.ss, self.ab, { env.others self.server with
                    database := after.wDb.database
                    anonymousCount := after.anonymousCount }, self.retries, self.handledProperly,
                  self.log ++ handling request preq handledProperly after⟩ handledProperly after
              refine ⟨self', control, handling request preq handledProperly after ++ rest,
                hconnect, hretries, hss, hab, hlog.trans (List.append_assoc _ _ _), ?_⟩
              rcases hcases with ⟨rfl, hnothing⟩ | ⟨rfl, rfl, hstream, rfl⟩
              · exact .quiet (by decide) (hquiet.append hnothing)
              · -- an insertion comes after the quiet part and the `find` before it
                have hfind : Quiet 0 0 [.find after.conn.key] :=
                  ⟨Nat.le_refl 0, Nat.le_refl 0, rfl, rfl⟩
                have hpart : Part (1 + 0) self.ss self.ab .returned _ :=
                  .insertion (hquiet.append hfind) (admits_handling hpreq hhandle hstream)
                rwa [List.append_assoc] at hpart

/-- What follows the call of `handle` is what the server does with the request: it leaves the same
server, inserts the same connection and writes the same texts. -/
theorem connect_handleRequest {engine : Engine} {sha1 : Sha1} {server : Server}
    {preq after : ParseRequest} {registered handledProperly : Bool}
    (hhandle : preq.handle engine sha1 registered = some (handledProperly, after))
    {self : ConnectionHandler}
    (hserver : self.server = { server with
      database := after.wDb.database
      anonymousCount := after.anonymousCount }) :
    ∃ self' control rest reaction,
      self.connect handledProperly after = some (self', control) ∧
      server.handleRequest engine sha1 preq registered = some reaction ∧
      self'.server = reaction.server ∧ self'.log = self.log ++ rest ∧
      rest.filterMap Occurrence.inserted? = reaction.inserted.toList ∧
      after.written ++ rest.filterMap Occurrence.written? = reaction.written.map Prod.snd := by
  simp only [connect, note, hserver, Server.handleRequest, hhandle, List.append_assoc,
    List.cons_append, List.nil_append]
  cases hconnected : handledProperly && after.conn.sockStream.isSome with
  | false =>
      exact ⟨_, _, [], _, rfl, rfl, rfl, (List.append_nil _).symm, rfl,
        (List.append_nil _).trans (Server.texts_replies _ _).symm⟩
  | true =>
      -- a vacant key is inserted under; one that is taken is answered, and removed where requested
      rcases Bool.eq_false_or_eq_true (Server.vacant { server with
        database := after.wDb.database
        anonymousCount := after.anonymousCount } after.conn.key) with hvacant | hvacant
      · have hinsert := BinarySearchTree.insert_of_find
          (Server.vacant_iff.mp hvacant : server.tree.find (key after.conn) = none)
        simp only [hvacant, if_true, hinsert, Option.bind_eq_bind, Option.bind_some]
        exact ⟨_, _, _, _, rfl, rfl, rfl, rfl, rfl, (Server.texts_replies_append _ _ _).symm⟩
      · simp only [hvacant, if_true, Bool.false_eq_true, if_false]
        cases hdisconnect : after.disconnectRequested with
        | true =>
            exact ⟨_, _, _, _, rfl, rfl, rfl, rfl, rfl, (Server.texts_replies_append _ _ _).symm⟩
        | false =>
            exact ⟨_, _, _, _, rfl, rfl, rfl, rfl, rfl, (Server.texts_replies_append _ _ _).symm⟩

/-- What handling a request inserts and writes. -/
theorem filterMap_handling (request : Str) (preq : ParseRequest) (handledProperly : Bool)
    (after : ParseRequest) :
    (handling request preq handledProperly after).filterMap Occurrence.inserted? = [] ∧
      (handling request preq handledProperly after).filterMap Occurrence.written? =
        after.written := by
  have hwrites (texts : List Str) :
      (texts.map Occurrence.write).filterMap Occurrence.inserted? = [] ∧
        (texts.map Occurrence.write).filterMap Occurrence.written? = texts := by
    induction texts with
    | nil => exact ⟨rfl, rfl⟩
    | cons text texts ih => exact ⟨ih.1, congrArg (text :: ·) ih.2⟩
  unfold handling
  constructor
  · rw [List.filterMap_cons_none (by rfl), List.filterMap_append, (hwrites _).1]
    rfl
  · rw [List.filterMap_cons_none (by rfl), List.filterMap_append, (hwrites _).2]
    exact List.append_nil _

/-- An attempt that reads a request is a step of the server: it leaves the same server, inserts the
same connection and writes the same texts. -/
theorem attempt_react (engine : Engine) (sha1 : Sha1) (self : ConnectionHandler) {env : Attempt}
    {request : Str} (hread : env.read = some request) (hopens : env.opens = true) :
    ∃ self' control rest reaction, self.attempt engine sha1 env = some (self', control) ∧
      (env.others self.server).react engine sha1
        (.request self.ss request env.disconnectRequested env.registered) = some reaction ∧
      self'.server = reaction.server ∧ self'.log = self.log ++ rest ∧
      rest.filterMap Occurrence.inserted? = reaction.inserted.toList ∧
      rest.filterMap Occurrence.written? = reaction.written.map Prod.snd := by
  cases hpreq : (env.others self.server).parseRequest
      (.request self.ss request env.disconnectRequested env.registered) with
  | none =>
      unfold attempt
      rw [hread]
      simp only [note, hpreq, Server.react]
      exact ⟨_, _, _, _, rfl, rfl, rfl, rfl, rfl, rfl⟩
  | some preq =>
      obtain ⟨⟨handledProperly, after⟩, hhandle⟩ :=
        Option.isSome_iff_exists.mp (preq.handle_isSome engine sha1 env.registered)
      rw [attempt_of_handle hread hopens hpreq hhandle]
      simp only [Server.react, hpreq]
      obtain ⟨self', control, rest, reaction, hconnect, hreaction, hserver, hlog, hinserted,
        hwritten⟩ := @connect_handleRequest engine sha1 (env.others self.server) _ _ _ _ hhandle
          ⟨self.ss, self.ab, _, self.retries, self.handledProperly,
            self.log ++ handling request preq handledProperly after⟩ (by rfl)
      obtain ⟨hnone, hwrites⟩ := filterMap_handling request preq handledProperly after
      refine ⟨self', control, handling request preq handledProperly after ++ rest, reaction,
        hconnect, hreaction, hserver, hlog.trans (List.append_assoc _ _ _), ?_, ?_⟩
      · rw [List.filterMap_append, hnone, List.nil_append, hinserted]
      · rw [List.filterMap_append, hwrites, hwritten]

end ConnectionHandler

/-- An attempt whose read throws. -/
def failedRead : Attempt :=
  ⟨id, none, true, false, false⟩

end Wheespa
