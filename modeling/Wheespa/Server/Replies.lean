import Wheespa.Server.ConnectionHandler
import Wheespa.Server.Disconnection

/-!
# The reply to a request

What a handler writes between a read and the next read or its end. A request is answered where one
of its parameters is refused, and where it gets as far as the tree; one that the expression of the
server does not match, one whose password is wrong, and a registration that is handed to SQLite are
not answered at all. `answeredOnce_iff` says exactly which reads are answered, and that the answer
then tells what happened.
-/

namespace Wheespa

open Sql ParseRequest

/-! ## The answers of the methods -/

namespace ParseRequest

/-- `login` refuses the parameters: one is missing, or the password is short. -/
def LoginRefused (self : ParseRequest) : Prop :=
  ∀ username password, self.param "username".toList = some username →
    self.param "password".toList = some password → password.length < 6

/-- The method for a type of request refuses the parameters, or finds the name of a registration
taken. -/
def RefusedBy (engine : Engine) (self : ParseRequest) : RequestType → Prop
  | .adminLogin | .disconnectLogin | .login => self.LoginRefused
  | .anonymousConnect => ∀ k connectTo, self.param "alias".toList = some k →
      self.param "connectto".toList ≠ some connectTo
  | .register => ∀ username, self.registersName = some username →
      (self.checkExists engine username).1 = true

/-- The request has no type that there is, or its method refuses it. -/
def Refused (engine : Engine) (self : ParseRequest) : Prop :=
  ∀ type, rtMap self.reqType = some type → self.RefusedBy engine type

/-- The reply to a connection that is put in the tree. -/
def success : Str :=
  "::WHEESPA_CONNECTION_SUCCESS".toList

/-- The method answers with one text, and nothing else changes that counts. -/
structure AnswersError (before : ParseRequest) (type : RequestType)
    (result : Bool × ParseRequest) : Prop where
  written : ∃ text, result.2.written = before.written ++ [text] ∧ text ≠ success
  conn : result.2.conn = before.conn
  dbHandle : result.2.wDb.dbHandle = before.wDb.dbHandle
  failed : type ≠ .register → result.1 = false

variable {engine : Engine} {sha1 : Sha1} {self : ParseRequest}

/-- An error text that is written. -/
theorem answersError_write {text : String} (type : RequestType) {ret : Bool}
    (hret : type ≠ .register → ret = false) (htext : text.toList ≠ success) :
    self.AnswersError type (ret, self.write text) :=
  ⟨⟨_, rfl, htext⟩, rfl, rfl, hret⟩

/-- `login` answers where it refuses the parameters. -/
theorem login_refused (h : self.LoginRefused) (engine : Engine) (sha1 : Sha1)
    (type : RequestType) :
    self.AnswersError type (self.login engine sha1) ∧ (self.login engine sha1).1 = false := by
  have hparameters : "::WHEESPA_INVALID_REQUEST_TYPE_PARAMETERS".toList ≠ success := by decide
  have hshort : "::WHEESPA_INVALID_PASSWORD".toList ≠ success := by decide
  unfold login
  split
  · next username password husername hpassword =>
      rw [if_pos (h username password husername hpassword)]
      exact ⟨answersError_write type (fun _ => rfl) hshort, rfl⟩
  · exact ⟨answersError_write type (fun _ => rfl) hparameters, rfl⟩

/-- `login` does not answer otherwise. -/
theorem login_written (h : ¬ self.LoginRefused) (engine : Engine) (sha1 : Sha1) :
    (self.login engine sha1).2.written = self.written := by
  simp only [LoginRefused, not_forall] at h
  obtain ⟨username, password, husername, hpassword, hlength⟩ := h
  simp only [login, husername, hpassword, hlength, if_false]
  rfl

/-- `adminLogin` answers where `login` does. -/
theorem adminLogin_refused (h : self.LoginRefused) (engine : Engine) (sha1 : Sha1)
    (type : RequestType) :
    ∃ result, self.adminLogin engine sha1 = some result ∧ self.AnswersError type result := by
  obtain ⟨hanswers, hfalse⟩ := login_refused h engine sha1 type
  rcases self.adminLogin_cases engine sha1 with ⟨_, hadmin⟩ | ⟨_, _, htrue, _⟩
  · refine ⟨_, hadmin, ?_⟩
    rwa [← hfalse]
  · rw [hfalse] at htrue
    exact absurd htrue Bool.false_ne_true

/-- `registerUser` answers where it refuses a parameter or finds the name taken. -/
theorem registerUser_refused (hvalid : self.ValidParams) (h : self.RefusedBy engine .register)
    (sha1 : Sha1) (registered : Bool) :
    self.AnswersError .register (self.registerUser engine sha1 registered) := by
  have herror : ∀ text ∈ ["::WHEESPA_INVALID_USERNAME", "::WHEESPA_INVALID_PASSWORD",
      "::WHEESPA_INVALID_EMAIL"], text.toList ≠ success := by decide
  have hnever {ret : Bool} : RequestType.register ≠ .register → ret = false :=
    fun hne => absurd rfl hne
  rcases self.registerUser_spec engine sha1 registered with ⟨_, _, hregister⟩ |
    ⟨username, password, email, husername, _, _, hregister⟩
  · rw [hregister]
    exact answersError_write .register hnever (by decide)
  · generalize self.registerUser engine sha1 registered = result at hregister
    cases hregister with
    | invalid _ htext => exact answersError_write .register hnever (herror _ htext)
    | taken =>
        refine ⟨⟨_, rfl, by decide⟩, rfl, ?_, hnever⟩
        exact (checkExists_executes engine (hvalid _ _ husername)).dbHandle_eq
    | insertion hname htaken =>
        rw [h username hname] at htaken
        exact absurd htaken.symm Bool.false_ne_true

/-- A registration that is handed to SQLite is not answered. -/
theorem registerUser_written (h : ¬ self.RefusedBy engine .register) (sha1 : Sha1)
    (registered : Bool) :
    (self.registerUser engine sha1 registered).2.written = self.written := by
  simp only [RefusedBy, not_forall] at h
  obtain ⟨username, hname, hfree⟩ := h
  rcases self.registerUser_spec engine sha1 registered with ⟨_, hnone, _⟩ |
    ⟨username', password, email, _, _, _, hregister⟩
  · rw [hname] at hnone
    exact absurd hnone (by simp)
  · generalize self.registerUser engine sha1 registered = result at hregister
    cases hregister with
    | invalid hnone =>
        rw [hname] at hnone
        exact absurd hnone (by simp)
    | taken hname' htaken =>
        obtain rfl := Option.some.inj (hname.symm.trans hname')
        exact absurd htaken hfree
    | insertion => rfl

/-- The `switch` of `handle` answers a request that its method refuses. -/
theorem dispatch_refused (hvalid : self.ValidParams) {type : RequestType}
    (h : self.RefusedBy engine type) (sha1 : Sha1) (registered : Bool) :
    ∃ result, self.dispatch engine sha1 registered type = some result ∧
      self.AnswersError type result := by
  cases type with
  | adminLogin => exact adminLogin_refused h engine sha1 .adminLogin
  | anonymousConnect =>
      refine ⟨_, rfl, ?_⟩
      unfold anonymousConnect
      split
      · next halias hconnectTo => exact absurd hconnectTo (h _ _ halias)
      · exact answersError_write _ (fun _ => rfl) (by decide)
  | disconnectLogin =>
      obtain ⟨⟨hwritten, hconn, hhandle, hfalse⟩, _⟩ := login_refused h engine sha1 .disconnectLogin
      exact ⟨_, rfl, hwritten, hconn, hhandle, hfalse⟩
  | login => exact ⟨_, rfl, (login_refused h engine sha1 .login).1⟩
  | register => exact ⟨_, rfl, registerUser_refused hvalid h sha1 registered⟩

/-- The `switch` of `handle` answers no other request. -/
theorem dispatch_written {type : RequestType} (h : ¬ self.RefusedBy engine type)
    {registered : Bool} {result : Bool × ParseRequest}
    (hdispatch : self.dispatch engine sha1 registered type = some result) :
    result.2.written = self.written := by
  cases type with
  | adminLogin =>
      rcases self.adminLogin_cases engine sha1 with ⟨_, hadmin⟩ | ⟨_, _, _, hadmin⟩ <;>
      · obtain rfl := Option.some.inj (hadmin.symm.trans hdispatch)
        exact login_written h engine sha1
  | anonymousConnect =>
      obtain rfl := Option.some.inj hdispatch
      simp only [RefusedBy, not_forall, not_not] at h
      obtain ⟨k, connectTo, halias, hconnectTo⟩ := h
      simp only [anonymousConnect, halias, hconnectTo]
  | disconnectLogin | login =>
      obtain rfl := Option.some.inj hdispatch
      exact login_written h engine sha1
  | register =>
      obtain rfl := Option.some.inj hdispatch
      exact registerUser_written h sha1 registered

/-- A request that is refused is answered by `handle`, and leads to no connection. -/
theorem handle_refused (hvalid : self.ValidParams) (h : self.Refused engine) (sha1 : Sha1)
    (registered : Bool) :
    ∃ ret after, self.handle engine sha1 registered = some (ret, after) ∧
      (∃ text, after.written = self.written ++ [text] ∧ text ≠ success) ∧
      after.conn = self.conn ∧ after.wDb.dbHandle = self.wDb.dbHandle := by
  cases htype : rtMap self.reqType with
  | none =>
      simp only [handle, htype]
      exact ⟨_, _, rfl, ⟨_, rfl, by decide⟩, rfl, rfl⟩
  | some type =>
      obtain ⟨result, hdispatch, hanswers⟩ := dispatch_refused hvalid (h type htype) sha1 registered
      -- no stream is noted: the method failed, or it is `registerUser`
      have hnote : noteStream type result = result := by
        unfold noteStream
        by_cases hregister : type = .register
        · simp [hregister]
        · simp [hanswers.failed hregister]
      simp only [handle, htype, hdispatch, Option.map_some, hnote]
      exact ⟨_, _, rfl, hanswers.written, hanswers.conn, hanswers.dbHandle⟩

/-- A request that is not refused is not answered by `handle`. -/
theorem handle_written (h : ¬ self.Refused engine) {registered : Bool}
    {result : Bool × ParseRequest} (hhandle : self.handle engine sha1 registered = some result) :
    result.2.written = self.written := by
  simp only [Refused, not_forall] at h
  obtain ⟨type, htype, hrefused⟩ := h
  simp only [handle, htype] at hhandle
  obtain ⟨middle, hdispatch, rfl⟩ := Option.map_eq_some_iff.mp hhandle
  rw [← dispatch_written hrefused hdispatch]
  unfold noteStream
  split <;> rfl

end ParseRequest

/-! ## The reply of a handler -/

/-- What the server writes for a request: what `handle` writes, and a reply that tells whether the
connection is put in the tree where one is granted. -/
theorem Server.handleRequest_written {engine : Engine} {sha1 : Sha1} {server : Server}
    {preq after : ParseRequest} {registered ret : Bool} {reaction : Reaction}
    (hhandle : preq.handle engine sha1 registered = some (ret, after))
    (h : server.handleRequest engine sha1 preq registered = some reaction) :
    reaction.server.database = after.wDb.database ∧
    (((ret && after.conn.sockStream.isSome) = false ∧ reaction.inserted = none ∧
        reaction.written.map Prod.snd = after.written) ∨
      ((ret && after.conn.sockStream.isSome) = true ∧
        ∃ text, reaction.written.map Prod.snd = after.written ++ [text] ∧
          (text = success ↔ reaction.inserted ≠ none))) := by
  have hexists : "::WHEESPA_CONNECTION_EXISTS".toList ≠ success := by decide
  simp only [handleRequest, hhandle] at h
  split_ifs at h with hgranted hvacant
  · obtain ⟨tree, _, h⟩ := Option.bind_eq_some_iff.mp h
    obtain rfl := Option.some.inj h
    refine ⟨rfl, .inr ⟨hgranted, success, texts_replies_append _ _ _, ?_⟩⟩
    exact iff_of_true rfl (Option.some_ne_none _)
  · obtain rfl := Option.some.inj h
    refine ⟨rfl, .inr ⟨hgranted, _, texts_replies_append _ _ _, ?_⟩⟩
    exact iff_of_false hexists fun hne => hne rfl
  · obtain rfl := Option.some.inj h
    refine ⟨rfl, .inr ⟨hgranted, _, texts_replies_append _ _ _, ?_⟩⟩
    exact iff_of_false hexists fun hne => hne rfl
  · obtain rfl := Option.some.inj h
    exact ⟨rfl, .inl ⟨Bool.eq_false_iff.mpr hgranted, rfl, texts_replies _ _⟩⟩

namespace ConnectionHandler

/-- From a read to the next read or the end of the handler: the attempt that reads, and what
follows the loop where it ends. -/
def respond (engine : Engine) (sha1 : Sha1) (self : ConnectionHandler) (env : Attempt)
    (shutdown : Int) : Option ConnectionHandler :=
  match self.attempt engine sha1 env with
  | none => none
  | some (self, .returned) => some self
  | some (self, .thrown) => some (self.finish shutdown)
  | some (self, .again) =>
      if !self.handledProperly && self.retries < 3 then some self
      else some (self.finish shutdown)

/-- The object that is constructed for what an attempt reads. -/
def parsed (self : ConnectionHandler) (env : Attempt) : Option ParseRequest :=
  env.read.bind fun request => (env.others self.server).parseRequest
    (.request self.ss request env.disconnectRequested env.registered)

/-- What follows the loop writes nothing to the connection and does nothing to the server. -/
theorem finish_silent (self : ConnectionHandler) (shutdown : Int) :
    (self.finish shutdown).server = self.server ∧
      (self.finish shutdown).log.filterMap Occurrence.written? =
        self.log.filterMap Occurrence.written? ∧
      (self.finish shutdown).log.filterMap Occurrence.inserted? =
        self.log.filterMap Occurrence.inserted? := by
  unfold finish note
  by_cases hclose : shutdown = 1
  · simp [hclose, Occurrence.written?, Occurrence.inserted?]
  · simp [hclose, Occurrence.written?, Occurrence.inserted?]

/-- The reply to what was read is the one that the attempt gives. -/
theorem respond_of_attempt {engine : Engine} {sha1 : Sha1} {self self' : ConnectionHandler}
    {env : Attempt} {control : Control}
    (h : self.attempt engine sha1 env = some (self', control)) (shutdown : Int) :
    ∃ final, self.respond engine sha1 env shutdown = some final ∧
      final.server = self'.server ∧
      final.log.filterMap Occurrence.written? = self'.log.filterMap Occurrence.written? ∧
      final.log.filterMap Occurrence.inserted? = self'.log.filterMap Occurrence.inserted? := by
  have hfinish := self'.finish_silent shutdown
  rw [respond, h]
  cases control with
  | returned => exact ⟨_, rfl, rfl, rfl, rfl⟩
  | thrown => exact ⟨_, rfl, hfinish⟩
  | again =>
      dsimp only
      split
      · exact ⟨_, rfl, rfl, rfl, rfl⟩
      · exact ⟨_, rfl, hfinish⟩

/-- A read that throws, or gives no request, or for which the database does not open, is not
answered, and does nothing to the server. -/
theorem attempt_silent {engine : Engine} {sha1 : Sha1} {self : ConnectionHandler} {env : Attempt}
    (h : env.opens = true → self.parsed env = none) :
    ∃ self' control, self.attempt engine sha1 env = some (self', control) ∧
      control ≠ .returned ∧ self'.server = env.others self.server ∧
      self'.log.filterMap Occurrence.written? = self.log.filterMap Occurrence.written? := by
  have hlog (request : Option Str) :
      (self.log ++ [Occurrence.read request]).filterMap Occurrence.written? =
        self.log.filterMap Occurrence.written? := by
    rw [List.filterMap_append]
    exact List.append_nil _
  unfold attempt
  unfold parsed at h
  cases hread : env.read with
  | none => exact ⟨_, _, rfl, by decide, rfl, hlog none⟩
  | some request =>
      rw [hread, Option.bind_some] at h
      simp only [note]
      cases hpreq : (env.others self.server).parseRequest
          (.request self.ss request env.disconnectRequested env.registered) with
      | none => exact ⟨_, _, rfl, by decide, rfl, hlog _⟩
      | some preq =>
          cases hopens : env.opens with
          | false => exact ⟨_, _, rfl, by decide, rfl, hlog _⟩
          | true =>
              rw [h hopens] at hpreq
              exact absurd hpreq (by simp)

/-- An attempt returns where it inserts a connection, and only there. -/
theorem returned_iff {engine : Engine} {sha1 : Sha1} {self self' : ConnectionHandler}
    {env : Attempt} {control : Control} {rest : List Occurrence}
    (h : self.attempt engine sha1 env = some (self', control))
    (hlog : self'.log = self.log ++ rest) :
    control = .returned ↔ rest.filterMap Occurrence.inserted? ≠ [] := by
  obtain ⟨_, _, rest', hattempt, _, _, _, hlog', hpart⟩ := attempt_spec engine sha1 self env
  obtain ⟨rfl, rfl⟩ := Prod.mk.inj (Option.some.inj (h.symm.trans hattempt))
  obtain rfl := List.append_cancel_left (hlog.symm.trans hlog')
  cases hpart with
  | quiet hcontrol hquiet =>
      refine iff_of_false hcontrol fun hne => hne ?_
      rw [List.filterMap_eq_nil_iff]
      intro occurrence hmem
      have hnot := List.countP_eq_zero.mp hquiet.insertions occurrence hmem
      cases occurrence with
      | insert => exact absurd rfl hnot
      | write | read | handle | find | remove | shutdown | close | setFlag => rfl
  | insertion => exact iff_of_true rfl (by simp [Occurrence.inserted?])

/-- What an attempt does with a request is what the server does. -/
theorem attempt_parsed {engine : Engine} {sha1 : Sha1} {self : ConnectionHandler} {env : Attempt}
    {preq : ParseRequest} (hopens : env.opens = true) (hpreq : self.parsed env = some preq)
    (hlog : self.log = []) :
    ∃ self' control reaction, self.attempt engine sha1 env = some (self', control) ∧
      (env.others self.server).handleRequest engine sha1 preq env.registered = some reaction ∧
      self'.server = reaction.server ∧
      self'.log.filterMap Occurrence.inserted? = reaction.inserted.toList ∧
      self'.log.filterMap Occurrence.written? = reaction.written.map Prod.snd := by
  obtain ⟨request, hread, hpreq⟩ := Option.bind_eq_some_iff.mp hpreq
  obtain ⟨self', control, rest, reaction, hattempt, hreact, hserver, hrest, hinserted, hwritten⟩ :=
    attempt_react engine sha1 self hread hopens
  rw [hlog, List.nil_append] at hrest
  rw [Server.react_request hpreq] at hreact
  exact ⟨self', control, reaction, hattempt, hreact, hserver, hrest ▸ hinserted, hrest ▸ hwritten⟩

/-- The handler writes exactly the text between the read and what follows it, and ends there as
`final`. -/
structure Answers (engine : Engine) (sha1 : Sha1) (before : ConnectionHandler) (env : Attempt)
    (shutdown : Int) (text : Str) (final : ConnectionHandler) : Prop where
  respond : { before with log := [] }.respond engine sha1 env shutdown = some final
  written : final.log.filterMap Occurrence.written? = [text]

/-- A pending registration was inserted, since the rows are not those before. -/
def InsertsPending (before : ConnectionHandler) (env : Attempt) (final : ConnectionHandler) :
    Prop :=
  final.server.database.rows "PendingRegistrations".toList ≠
    (env.others before.server).database.rows "PendingRegistrations".toList

/-- What was read is a registration. -/
def ReadsRegistration (before : ConnectionHandler) (env : Attempt) : Prop :=
  ∃ preq, before.parsed env = some preq ∧ rtMap preq.reqType = some .register

/-- What was read is answered once, with the success text where the connection is put in the tree
and only there, and a registration with a text that is no answer to a registration with the other
outcome. -/
def AnsweredOnce (engine : Engine) (sha1 : Sha1) (before : ConnectionHandler) (env : Attempt)
    (shutdown : Int) : Prop :=
  ∃ text final, Answers engine sha1 before env shutdown text final ∧
    (text = success ↔ final.log.filterMap Occurrence.inserted? ≠ []) ∧
    (ReadsRegistration before env → ∀ before' env' shutdown' final',
      ReadsRegistration before' env' →
      Answers engine sha1 before' env' shutdown' text final' →
      (InsertsPending before env final ↔ InsertsPending before' env' final'))

/-- The request is refused, or it is granted a connection. -/
def Answerable (engine : Engine) (sha1 : Sha1) (preq : ParseRequest) : Prop :=
  preq.Refused engine ∨ ∃ k, Connects engine sha1 preq k ∨ Disconnects engine sha1 preq k

/-- A request that is granted a connection is not refused. -/
theorem not_refused_of_granted {engine : Engine} {sha1 : Sha1} {preq : ParseRequest} {k : Str}
    (h : Connects engine sha1 preq k ∨ Disconnects engine sha1 preq k) :
    ¬ preq.Refused engine := by
  have hlogin (hcredentials : Credentials engine sha1 preq k) (hrefused : preq.LoginRefused) :
      False := by
    obtain ⟨huser, password, hpassword, hlength, _⟩ := hcredentials
    exact absurd (hrefused k password huser hpassword) (not_lt.mpr hlength)
  intro hrefused
  rcases h with (⟨htype, hcredentials⟩ | ⟨htype, hcredentials, _⟩ | ⟨htype, halias, hconnectTo⟩) |
    ⟨htype, hcredentials⟩
  · exact hlogin hcredentials (hrefused _ htype)
  · exact hlogin hcredentials (hrefused _ htype)
  · obtain ⟨connectTo, hconnectTo⟩ := Option.isSome_iff_exists.mp hconnectTo
    exact hrefused _ htype k connectTo halias hconnectTo
  · exact hlogin hcredentials (hrefused _ htype)

/-- A request that is granted a connection is answered, and the answer tells whether the connection
is put in the tree. -/
theorem handleRequest_granted {engine : Engine} {sha1 : Sha1} {server : Server}
    {preq : ParseRequest} {registered : Bool} {reaction : Reaction} (hvalid : preq.ValidParams)
    (hconn : preq.conn = .new) (hfirst : preq.written = []) {k : Str}
    (hgranted : Connects engine sha1 preq k ∨ Disconnects engine sha1 preq k)
    (h : server.handleRequest engine sha1 preq registered = some reaction) :
    ∃ text, reaction.written.map Prod.snd = [text] ∧
      (text = success ↔ reaction.inserted ≠ none) := by
  obtain ⟨conn, hgrants⟩ : ∃ conn, preq.Grants engine sha1 conn := by
    rcases hgranted with hconnects | hdisconnects
    · obtain ⟨conn, hgrants, _⟩ := grants_of_connects hvalid hconnects
      exact ⟨conn, hgrants⟩
    · exact ⟨_, hdisconnects.grants⟩
  obtain ⟨after, hhandle, hafter⟩ := ParseRequest.handle_of_grants hconn hgrants registered
  have hstream : after.conn.sockStream.isSome := by
    rw [hafter, hgrants.sockStream_eq]
    rfl
  have hwritten : after.written = [] :=
    (handle_written (not_refused_of_granted hgranted) hhandle).trans hfirst
  obtain ⟨_, ⟨hfalse, _⟩ | ⟨_, text, htext, hsuccess⟩⟩ := Server.handleRequest_written hhandle h
  · simp [hstream] at hfalse
  · rw [hwritten, List.nil_append] at htext
    exact ⟨text, htext, hsuccess⟩

/-- A request that is refused is answered with an error, and changes neither the tree nor the
database. -/
theorem handleRequest_refused {engine : Engine} {sha1 : Sha1} {server : Server}
    {preq : ParseRequest} {registered : Bool} {reaction : Reaction} (hvalid : preq.ValidParams)
    (hconn : preq.conn = .new) (hfirst : preq.written = []) (hrefused : preq.Refused engine)
    (h : server.handleRequest engine sha1 preq registered = some reaction) :
    (∃ text, reaction.written.map Prod.snd = [text] ∧ text ≠ success) ∧
      reaction.inserted = none ∧ reaction.server.database = preq.wDb.database := by
  obtain ⟨ret, after, hhandle, ⟨text, hwritten, htext⟩, hafter, hdb⟩ :=
    handle_refused hvalid hrefused sha1 registered
  obtain ⟨hdatabase, ⟨_, hinserted, hreplies⟩ | ⟨htrue, _⟩⟩ :=
    Server.handleRequest_written hhandle h
  · rw [hwritten, hfirst, List.nil_append] at hreplies
    refine ⟨⟨text, hreplies, htext⟩, hinserted, ?_⟩
    rw [hdatabase, FlexDB.database, hdb]
    rfl
  · rw [hafter, hconn] at htrue
    simp [WheespaConnected.new] at htrue

/-- Another request is not answered. -/
theorem handleRequest_unanswered {engine : Engine} {sha1 : Sha1} {server : Server}
    {preq : ParseRequest} {registered : Bool} {reaction : Reaction} (hvalid : preq.ValidParams)
    (hconn : preq.conn = .new) (hfirst : preq.written = [])
    (hanswerable : ¬ Answerable engine sha1 preq)
    (h : server.handleRequest engine sha1 preq registered = some reaction) :
    reaction.written.map Prod.snd = [] := by
  rw [Answerable, not_or, not_exists] at hanswerable
  obtain ⟨hrefused, hgranted⟩ := hanswerable
  obtain ⟨⟨ret, after⟩, hhandle⟩ :=
    Option.isSome_iff_exists.mp (preq.handle_isSome engine sha1 registered)
  have hwritten : after.written = [] := (handle_written hrefused hhandle).trans hfirst
  obtain ⟨_, ⟨_, _, hreplies⟩ | ⟨htrue, _⟩⟩ := Server.handleRequest_written hhandle h
  · rw [hreplies, hwritten]
  · rw [Bool.and_eq_true] at htrue
    obtain ⟨rfl, hstream⟩ := htrue
    exact absurd (connects_or_disconnects hvalid (handle_grants hconn hhandle hstream))
      (hgranted _)

/-- What the handler does with a request, up to what follows it. -/
theorem respond_parsed {engine : Engine} {sha1 : Sha1} {before : ConnectionHandler} {env : Attempt}
    {preq : ParseRequest} (hopens : env.opens = true) (hpreq : before.parsed env = some preq)
    (shutdown : Int) :
    ∃ final reaction, { before with log := [] }.respond engine sha1 env shutdown = some final ∧
      (env.others before.server).handleRequest engine sha1 preq env.registered = some reaction ∧
      final.server = reaction.server ∧
      final.log.filterMap Occurrence.inserted? = reaction.inserted.toList ∧
      final.log.filterMap Occurrence.written? = reaction.written.map Prod.snd := by
  obtain ⟨self', control, reaction, hattempt, hreaction, hserver, hinserted, hwritten⟩ :=
    @attempt_parsed engine sha1 { before with log := [] } env preq hopens hpreq rfl
  obtain ⟨final, hrespond, hserver', hwritten', hinserted'⟩ := respond_of_attempt hattempt shutdown
  exact ⟨final, reaction, hrespond, hreaction, hserver'.trans hserver, hinserted'.trans hinserted,
    hwritten'.trans hwritten⟩

/-- The object of a request has written nothing yet. -/
theorem parsed_eq {before : ConnectionHandler} {env : Attempt} {preq : ParseRequest}
    (hpreq : before.parsed env = some preq) :
    preq.ValidParams ∧ preq.conn = .new ∧ preq.written = [] ∧
      preq.wDb.database = (env.others before.server).database := by
  obtain ⟨request, _, hpreq⟩ := Option.bind_eq_some_iff.mp hpreq
  obtain ⟨hvalid, hconn, hdb, _⟩ := Server.parseRequest_eq hpreq
  obtain ⟨_, _, rfl⟩ := Option.map_eq_some_iff.mp hpreq
  exact ⟨hvalid, hconn, rfl, rfl⟩

/-- What an answer says: the request is refused and nothing was done, or it is granted a connection,
which was put in the tree where the answer is the success text. -/
theorem Answers.cases {engine : Engine} {sha1 : Sha1} {before final : ConnectionHandler}
    {env : Attempt} {shutdown : Int} {text : Str}
    (h : Answers engine sha1 before env shutdown text final) :
    env.opens = true ∧ ∃ preq, before.parsed env = some preq ∧
      ((preq.Refused engine ∧ text ≠ success ∧
          final.log.filterMap Occurrence.inserted? = [] ∧ ¬ InsertsPending before env final) ∨
        (∃ k, Connects engine sha1 preq k ∨ Disconnects engine sha1 preq k) ∧
          (text = success ↔ final.log.filterMap Occurrence.inserted? ≠ [])) := by
  by_cases hparsed : env.opens = true ∧ ∃ preq, before.parsed env = some preq
  · obtain ⟨hopens, preq, hpreq⟩ := hparsed
    obtain ⟨hvalid, hconn, hfirst, hdatabase⟩ := parsed_eq hpreq
    obtain ⟨final', reaction, hrespond, hreaction, hserver, hinserted, hwritten⟩ :=
      @respond_parsed engine sha1 before env preq hopens hpreq shutdown
    obtain rfl := Option.some.inj (h.respond.symm.trans hrespond)
    rw [h.written] at hwritten
    refine ⟨hopens, preq, hpreq, ?_⟩
    by_cases hanswerable : Answerable engine sha1 preq
    · rcases hanswerable with hrefused | ⟨k, hgranted⟩
      · obtain ⟨⟨text', htext, hne⟩, hnone, hsame⟩ :=
          handleRequest_refused hvalid hconn hfirst hrefused hreaction
        obtain rfl := (List.cons.inj (hwritten.trans htext)).1
        refine .inl ⟨hrefused, hne, by rw [hinserted, hnone]; rfl, fun hpending => hpending ?_⟩
        rw [hserver, hsame, hdatabase]
      · obtain ⟨text', htext, hsuccess⟩ :=
          handleRequest_granted hvalid hconn hfirst hgranted hreaction
        obtain rfl := (List.cons.inj (hwritten.trans htext)).1
        refine .inr ⟨⟨k, hgranted⟩, hsuccess.trans ?_⟩
        rw [hinserted]
        cases reaction.inserted <;> simp
    · rw [handleRequest_unanswered hvalid hconn hfirst hanswerable hreaction] at hwritten
      exact absurd hwritten (by simp)
  · have hnone : env.opens = true → parsed { before with log := [] } env = none := by
      intro hopens
      rw [Option.eq_none_iff_forall_ne_some]
      exact fun preq hpreq => hparsed ⟨hopens, preq, hpreq⟩
    obtain ⟨self', control, hattempt, _, _, hsilent⟩ := @attempt_silent engine sha1 _ env hnone
    obtain ⟨final', hrespond, _, hwritten, _⟩ := respond_of_attempt hattempt shutdown
    obtain rfl := Option.some.inj (h.respond.symm.trans hrespond)
    rw [hsilent, h.written] at hwritten
    exact absurd hwritten (by simp)

/-- A request that is refused or granted a connection is answered with one text. -/
theorem exists_answers {engine : Engine} {sha1 : Sha1} {before : ConnectionHandler} {env : Attempt}
    {preq : ParseRequest} (hopens : env.opens = true) (hpreq : before.parsed env = some preq)
    (hanswerable : Answerable engine sha1 preq) (shutdown : Int) :
    ∃ text final, Answers engine sha1 before env shutdown text final := by
  obtain ⟨hvalid, hconn, hfirst, _⟩ := parsed_eq hpreq
  obtain ⟨final, reaction, hrespond, hreaction, _, _, hwritten⟩ :=
    @respond_parsed engine sha1 before env preq hopens hpreq shutdown
  rcases hanswerable with hrefused | ⟨k, hgranted⟩
  · obtain ⟨⟨text, htext, _⟩, _⟩ :=
      handleRequest_refused hvalid hconn hfirst hrefused hreaction
    exact ⟨text, final, hrespond, hwritten.trans htext⟩
  · obtain ⟨text, htext, _⟩ := handleRequest_granted hvalid hconn hfirst hgranted hreaction
    exact ⟨text, final, hrespond, hwritten.trans htext⟩

/-- A registration that is answered has inserted nothing. -/
theorem Answers.not_insertsPending {engine : Engine} {sha1 : Sha1}
    {before final : ConnectionHandler} {env : Attempt} {shutdown : Int} {text : Str}
    (h : Answers engine sha1 before env shutdown text final)
    (hregister : ReadsRegistration before env) : ¬ InsertsPending before env final := by
  obtain ⟨preq', hpreq', htype⟩ := hregister
  obtain ⟨_, preq, hpreq, ⟨_, _, _, hpending⟩ | ⟨⟨k, hgranted⟩, _⟩⟩ := h.cases
  · exact hpending
  · -- a registration is granted no connection
    obtain rfl := Option.some.inj (hpreq.symm.trans hpreq')
    rcases hgranted with (⟨hother, _⟩ | ⟨hother, _, _⟩ | ⟨hother, _, _⟩) | ⟨hother, _⟩ <;>
    · rw [htype] at hother
      exact absurd hother (by decide)

/-- What a handler reads is answered exactly once, with a text that tells what happened, exactly if
the database opens and the text is a request that is refused or granted a connection. -/
theorem answeredOnce_iff (engine : Engine) (sha1 : Sha1) (before : ConnectionHandler)
    (env : Attempt) (shutdown : Int) :
    AnsweredOnce engine sha1 before env shutdown ↔
      env.opens = true ∧ ∃ preq, before.parsed env = some preq ∧ Answerable engine sha1 preq := by
  constructor
  · rintro ⟨text, final, hanswers, _⟩
    obtain ⟨hopens, preq, hpreq, ⟨hrefused, _⟩ | ⟨hgranted, _⟩⟩ := hanswers.cases
    · exact ⟨hopens, preq, hpreq, .inl hrefused⟩
    · exact ⟨hopens, preq, hpreq, .inr hgranted⟩
  · rintro ⟨hopens, preq, hpreq, hanswerable⟩
    obtain ⟨text, final, hanswers⟩ := exists_answers hopens hpreq hanswerable shutdown
    refine ⟨text, final, hanswers, ?_, fun hregister before' env' shutdown' final' hregister'
      hanswers' => iff_of_false (hanswers.not_insertsPending hregister)
        (hanswers'.not_insertsPending hregister')⟩
    obtain ⟨_, _, _, ⟨_, hne, hnone, _⟩ | ⟨_, hsuccess⟩⟩ := hanswers.cases
    · exact iff_of_false hne fun hinserted => hinserted hnone
    · exact hsuccess

/-- A handler that has read nothing, of a server that has just started. -/
def newcomer : ConnectionHandler :=
  ⟨0, 0, .start (preparedFile Engine.plain.toBackend constantSha1), 1, false, []⟩

/-- An attempt that reads a text, where the database opens. -/
def reading (text : String) : Attempt :=
  ⟨id, some text.toList, true, false, false⟩

/-- A read that is answered with nothing is not answered once. -/
theorem not_answeredOnce {engine : Engine} {sha1 : Sha1} {before : ConnectionHandler}
    {env : Attempt} {shutdown : Int}
    (h : ({ before with log := [] }.respond engine sha1 env shutdown).map
      (fun final : ConnectionHandler => final.log.filterMap Occurrence.written?) = some []) :
    ¬ AnsweredOnce engine sha1 before env shutdown := by
  rintro ⟨text, final, ⟨hrespond, hwritten⟩, _⟩
  rw [hrespond, Option.map_some, hwritten] at h
  exact absurd h (by simp)

/-- A login with a wrong password is not answered, nor is the registration of a new name. -/
theorem unanswered_login_registration :
    ¬ AnsweredOnce .plain constantSha1 newcomer
        (reading "[WHEESPA_LOGIN]::username=alice:::password=secret1:::") 1 ∧
      ¬ AnsweredOnce .plain constantSha1 newcomer
        (reading "[WHEESPA_REGISTER]::username=alice:::password=secret1:::email=a@b:::") 1 :=
  ⟨not_answeredOnce (by decide +kernel), not_answeredOnce (by decide +kernel)⟩

end ConnectionHandler

end Wheespa
