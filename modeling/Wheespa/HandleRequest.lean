import Wheespa.Dbapi
import Wheespa.Library.Regex
import Wheespa.Sha

/-!
# The requests of a new connection

`ParseRequest` of `handle_request.hpp` and `handle_request.cc`. The methods take the object and
return it with their result; what they write to the connection is kept in `written`, in order. Two
values are read before they are assigned and are parameters here: the member `disconnect_requested`
and the local variable `registered` of `registerUser`.
-/

namespace Wheespa

open Sql

/-- The regular expression escape `\w`. -/
def isWord (c : Char) : Bool :=
  c.isAlphanum || c == '_'

/-- The enumeration `RequestType`. -/
inductive RequestType where
  | adminLogin
  | anonymousConnect
  | disconnectLogin
  | login
  | register
  deriving DecidableEq, Repr

/-- The class `ParseRequest`. -/
structure ParseRequest where
  ss : SocketStream
  wDb : FlexDB
  conn : WheespaConnected
  param : Str → Option Str
  reqType : Str
  anonymousCount : Nat
  disconnectRequested : Bool
  written : List Str

namespace ParseRequest

/-- The map `rt_map`. -/
def rtMap (reqType : Str) : Option RequestType :=
  if reqType = "WHEESPA_ADMIN_LOGIN".toList then some .adminLogin
  else if reqType = "WHEESPA_ANONYMOUS".toList then some .anonymousConnect
  else if reqType = "WHEESPA_DISCONNECT_LOGIN".toList then some .disconnectLogin
  else if reqType = "WHEESPA_LOGIN".toList then some .login
  else if reqType = "WHEESPA_REGISTER".toList then some .register
  else none

/-- The assignment `m_param[(*iter)[1]] = (*iter)[2]`. -/
def assign (param : Str → Option Str) (groups : Regex.Groups Char) : Str → Option Str :=
  Function.update param ((groups 1).getD []) (some ((groups 2).getD []))

/-- The map that the constructor fills from the successive matches of `s_rex`. -/
def params (sRex : Regex Char) (reqParams : Str) : Str → Option Str :=
  (sRex.searchAll reqParams).foldl assign fun _ => none

/-- The constructor. `anonymousCount` is the static member at the time, and `disconnectRequested`
the value of the member that the constructor does not assign. -/
def new (ss : SocketStream) (reqType reqParams : Str) (sRex : Regex Char) (database : Database)
    (anonymousCount : Nat) (disconnectRequested : Bool) : ParseRequest where
  ss := ss
  wDb := .openFile database
  conn := .new
  param := params sRex reqParams
  reqType := reqType
  anonymousCount := anonymousCount
  disconnectRequested := disconnectRequested
  written := []

/-- `m_ss.write(text)`. -/
def write (self : ParseRequest) (text : String) : ParseRequest :=
  { self with written := self.written ++ [text.toList] }

/-- A query whose callback notes that it was called. -/
def queryExists (engine : Engine) (self : ParseRequest) (query : Str) : Bool × ParseRequest :=
  let (answer, wDb) := self.wDb.execQuery engine query
  (!answer.rows.isEmpty, { self with wDb })

/-- The query of `authenticate`. -/
def authenticateQuery (user pass : Str) : Str :=
  "Select * from Registered where W_USER = \"".toList ++ user ++ "\" and W_PASS = \"".toList ++
    pass ++ "\"".toList

/-- `authenticate`. -/
def authenticate (engine : Engine) (self : ParseRequest) (user pass : Str) : Bool × ParseRequest :=
  queryExists engine self (authenticateQuery user pass)

/-- The query of `checkExists`. -/
def checkExistsQuery (user : Str) : Str :=
  "Select R.W_USER, P.W_USER from Registered R, PendingRegistrations P ".toList ++
    "where R.W_USER = \"".toList ++ user ++ "\" OR P.W_USER = \"".toList ++ user ++ "\"".toList

/-- `checkExists`. -/
def checkExists (engine : Engine) (self : ParseRequest) (user : Str) : Bool × ParseRequest :=
  queryExists engine self (checkExistsQuery user)

/-- `login`. -/
def login (engine : Engine) (sha1 : Sha1) (self : ParseRequest) : Bool × ParseRequest :=
  match self.param "username".toList, self.param "password".toList with
  | some username, some password =>
      if password.length < 6 then (false, self.write "::WHEESPA_INVALID_PASSWORD")
      else
        let (userExists, self) := self.authenticate engine username (getOutput sha1 password)
        (userExists,
          { self with conn := { self.conn with registered := userExists, key := username } })
  | _, _ => (false, self.write "::WHEESPA_INVALID_REQUEST_TYPE_PARAMETERS")

/-- The query of `adminLogin`. -/
def administratorQuery (user : Str) : Str :=
  "Select * from Administrators where W_USER = '".toList ++ user ++ "'".toList

/-- `adminLogin`, or `none` where `getValue` throws. -/
def adminLogin (engine : Engine) (sha1 : Sha1) (self : ParseRequest) :
    Option (Bool × ParseRequest) :=
  let (auth, self) := self.login engine sha1
  if auth then do
    let username ← self.param "username".toList
    -- the answer of the second query replaces that of `login`
    let (auth, self) := queryExists engine self (administratorQuery username)
    some (auth, { self with conn := { self.conn with isAdmin := auth } })
  else some (auth, self)

/-- `anonymousConnect`. The name that it builds from the alias and the count is not used. -/
def anonymousConnect (self : ParseRequest) : Bool × ParseRequest :=
  match self.param "alias".toList, self.param "connectto".toList with
  | some key, some connectto =>
      (true, { self with
        anonymousCount := self.anonymousCount + 1
        conn := { self.conn with connectTo := connectto, key } })
  | _, _ => (false, self.write "::WHEESPA_INVALID_REQUEST_TYPE_PARAMETERS")

/-- `disconnectLogin`. -/
def disconnectLogin (engine : Engine) (sha1 : Sha1) (self : ParseRequest) : Bool × ParseRequest :=
  let (ret, self) := self.login engine sha1
  (ret, { self with disconnectRequested := ret })

/-- The expression that an email address has to match. -/
def emailRegex : Regex Char :=
  .seq (.plus isWord) (.seq (.text ['@']) (.seq (.plus fun c => isWord c || c == '.')
    (.opt (.capture 1 (.seq (.text ['.']) (.plus Char.isLower))))))

/-- `registerUser`. `registered` is the value of the local variable that is not assigned. -/
def registerUser (engine : Engine) (sha1 : Sha1) (self : ParseRequest) (registered : Bool) :
    Bool × ParseRequest :=
  match self.param "username".toList, self.param "password".toList, self.param "email".toList with
  | some username, some password, some email =>
      if username.length > 32 then (registered, self.write "::WHEESPA_INVALID_USERNAME")
      else if password.length < 6 then (registered, self.write "::WHEESPA_INVALID_PASSWORD")
      else if (emailRegex.fullMatch email).isNone then
        (registered, self.write "::WHEESPA_INVALID_EMAIL")
      else
        let (taken, self) := self.checkExists engine username
        if taken then (registered, self.write "::WHEESPA_USER_ALREADY_EXIST")
        else
          let (answer, wDb) := self.wDb.insert engine "PendingRegistrations".toList
            "W_USER, W_PASS, W_MAIL, W_KEY".toList [username, getOutput sha1 password, email, []]
          -- a failed insertion leaves the local variable as it was
          (if answer.ok then true else registered, { self with wDb })
  | _, _, _ => (false, self.write "::WHEESPA_INVALID_REQUEST_TYPE_PARAMETERS")

/-- The username of a registration that passes the checks of its format. -/
def registersName (self : ParseRequest) : Option Str :=
  match self.param "username".toList, self.param "password".toList, self.param "email".toList with
  | some username, some password, some email =>
      if username.length ≤ 32 ∧ 6 ≤ password.length ∧ (emailRegex.fullMatch email).isSome then
        some username
      else none
  | _, _, _ => none

/-- The `switch` of `handle`, or `none` where `getValue` throws. `registered` is for
`registerUser`. -/
def dispatch (engine : Engine) (sha1 : Sha1) (self : ParseRequest) (registered : Bool) :
    RequestType → Option (Bool × ParseRequest)
  | .adminLogin => self.adminLogin engine sha1
  | .anonymousConnect => some self.anonymousConnect
  | .disconnectLogin => some (self.disconnectLogin engine sha1)
  | .login => some (self.login engine sha1)
  | .register => some (self.registerUser engine sha1 registered)

/-- What `handle` does after the `switch`: the stream is noted where a connection was requested. -/
def noteStream (type : RequestType) (result : Bool × ParseRequest) : Bool × ParseRequest :=
  if result.1 && type != .register then
    (result.1, { result.2 with
      conn := { result.2.conn with sockStream := some result.2.ss } })
  else result

/-- `handle`, or `none` where `getValue` throws. -/
def handle (engine : Engine) (sha1 : Sha1) (self : ParseRequest) (registered : Bool) :
    Option (Bool × ParseRequest) :=
  match rtMap self.reqType with
  | none => some (false, self.write "::WHEESPA_INVALID_REQUEST_TYPE")
  | some type => (self.dispatch engine sha1 registered type).map (noteStream type)

/-- What `login` can do: it authenticates and notes the result, or only writes an error. -/
theorem login_cases (engine : Engine) (sha1 : Sha1) (self : ParseRequest) :
    (∃ username password, self.param "username".toList = some username ∧
      self.param "password".toList = some password ∧
      self.login engine sha1 =
        ((self.authenticate engine username (getOutput sha1 password)).1,
          { (self.authenticate engine username (getOutput sha1 password)).2 with
            conn := { self.conn with
              registered := (self.authenticate engine username (getOutput sha1 password)).1
              key := username } })) ∨
    ∃ text, self.login engine sha1 = (false, self.write text) := by
  cases husername : self.param "username".toList with
  | none => exact .inr ⟨"::WHEESPA_INVALID_REQUEST_TYPE_PARAMETERS", by
      simp only [login, husername]⟩
  | some username =>
      cases hpassword : self.param "password".toList with
      | none =>
          exact .inr ⟨"::WHEESPA_INVALID_REQUEST_TYPE_PARAMETERS", by
            simp only [login, husername, hpassword]⟩
      | some password =>
          by_cases hlength : password.length < 6
          · exact .inr ⟨"::WHEESPA_INVALID_PASSWORD", by
              simp only [login, husername, hpassword, hlength, if_true]⟩
          · refine .inl ⟨username, password, rfl, rfl, ?_⟩
            simp only [login, husername, hpassword, hlength, if_false]
            rfl

/-- The object that `registerUser` leaves where it inserts, with the answer of SQLite. -/
def insertPending (engine : Engine) (sha1 : Sha1) (self : ParseRequest)
    (username password email : Str) : Answer × ParseRequest :=
  let self := (self.checkExists engine username).2
  let (answer, wDb) := self.wDb.insert engine "PendingRegistrations".toList
    "W_USER, W_PASS, W_MAIL, W_KEY".toList [username, getOutput sha1 password, email, []]
  (answer, { self with wDb })

/-- What `registerUser` can do where it has its parameters: it answers with an error; it finds the
name taken; or it inserts a pending registration. -/
inductive Registers (engine : Engine) (sha1 : Sha1) (self : ParseRequest) (registered : Bool)
    (username password email : Str) : Bool × ParseRequest → Prop where
  | invalid {text : String} (hname : self.registersName = none)
      (htext : text ∈ ["::WHEESPA_INVALID_USERNAME", "::WHEESPA_INVALID_PASSWORD",
        "::WHEESPA_INVALID_EMAIL"]) :
      Registers engine sha1 self registered username password email
        (registered, self.write text)
  | taken (hname : self.registersName = some username)
      (htaken : (self.checkExists engine username).1 = true) :
      Registers engine sha1 self registered username password email
        (registered, (self.checkExists engine username).2.write "::WHEESPA_USER_ALREADY_EXIST")
  | insertion (hname : self.registersName = some username)
      (htaken : (self.checkExists engine username).1 = false) :
      Registers engine sha1 self registered username password email
        (if (self.insertPending engine sha1 username password email).1.ok then true
          else registered, (self.insertPending engine sha1 username password email).2)

/-- `registerUser` fails for want of a parameter, or does one of these. -/
theorem registerUser_spec (engine : Engine) (sha1 : Sha1) (self : ParseRequest)
    (registered : Bool) :
    ((∀ username password email, self.param "username".toList = some username →
        self.param "password".toList = some password → self.param "email".toList ≠ some email) ∧
      self.registersName = none ∧ self.registerUser engine sha1 registered =
        (false, self.write "::WHEESPA_INVALID_REQUEST_TYPE_PARAMETERS")) ∨
    ∃ username password email, self.param "username".toList = some username ∧
      self.param "password".toList = some password ∧ self.param "email".toList = some email ∧
      Registers engine sha1 self registered username password email
        (self.registerUser engine sha1 registered) := by
  unfold registerUser
  split
  · next username password email husername hpassword hemail =>
      have hname : self.registersName = if username.length ≤ 32 ∧ 6 ≤ password.length ∧
          (emailRegex.fullMatch email).isSome then some username else none := by
        simp only [registersName, husername, hpassword, hemail]
      refine .inr ⟨username, password, email, husername, hpassword, hemail, ?_⟩
      by_cases hlong : username.length > 32
      · rw [if_pos hlong]
        exact .invalid (hname.trans (if_neg fun h => by omega)) (by decide)
      by_cases hshort : password.length < 6
      · rw [if_neg hlong, if_pos hshort]
        exact .invalid (hname.trans (if_neg fun h => by omega)) (by decide)
      rw [if_neg hlong, if_neg hshort]
      cases hformat : emailRegex.fullMatch email with
      | none =>
          rw [if_pos (by rfl)]
          refine .invalid (hname.trans (if_neg fun h => ?_)) (by decide)
          rw [hformat] at h
          exact Bool.false_ne_true h.2.2
      | some groups =>
          rw [if_neg (by simp)]
          have hname : self.registersName = some username :=
            hname.trans (if_pos ⟨by omega, by omega, by rw [hformat]; rfl⟩)
          cases htaken : (self.checkExists engine username).1 with
          | true =>
              simp only [htaken, if_true]
              exact .taken hname htaken
          | false =>
              simp only [htaken, Bool.false_eq_true, if_false]
              exact .insertion hname htaken
  · next hmissing =>
      refine .inl ⟨fun username password email husername hpassword hemail =>
        hmissing username password email husername hpassword hemail, ?_, rfl⟩
      unfold registersName
      split
      · next username password email husername hpassword hemail =>
          exact absurd hemail (hmissing username password email husername hpassword)
      · rfl

/-- What `registerUser` can do: it only writes an error; it finds the name taken; or it inserts a
pending registration. -/
theorem registerUser_cases (engine : Engine) (sha1 : Sha1) (self : ParseRequest)
    (registered : Bool) :
    (∃ ret text, self.registerUser engine sha1 registered = (ret, self.write text)) ∨
    ∃ username password email, self.registersName = some username ∧
      self.param "username".toList = some username ∧
      self.param "password".toList = some password ∧ self.param "email".toList = some email ∧
      (((self.checkExists engine username).1 = true ∧
          self.registerUser engine sha1 registered =
            (registered,
              (self.checkExists engine username).2.write "::WHEESPA_USER_ALREADY_EXIST")) ∨
        ((self.checkExists engine username).1 = false ∧
          ∃ ret, self.registerUser engine sha1 registered =
            (ret, { (self.checkExists engine username).2 with
              wDb := ((self.checkExists engine username).2.wDb.insert engine
                "PendingRegistrations".toList "W_USER, W_PASS, W_MAIL, W_KEY".toList
                [username, getOutput sha1 password, email, []]).2 }))) := by
  rcases self.registerUser_spec engine sha1 registered with ⟨_, _, hregister⟩ |
    ⟨username, password, email, husername, hpassword, hemail, hregister⟩
  · exact .inl ⟨_, _, hregister⟩
  · generalize self.registerUser engine sha1 registered = result at hregister
    cases hregister with
    | invalid => exact .inl ⟨_, _, rfl⟩
    | taken hname htaken =>
        exact .inr ⟨username, password, email, hname, husername, hpassword, hemail,
          .inl ⟨htaken, rfl⟩⟩
    | insertion hname htaken =>
        exact .inr ⟨username, password, email, hname, husername, hpassword, hemail,
          .inr ⟨htaken, _, rfl⟩⟩

/-- The connections that a request can be granted: a login, the login of an administrator, or an
anonymous connection. -/
inductive Grants (engine : Engine) (sha1 : Sha1) (self : ParseRequest) :
    WheespaConnected → Prop where
  | login {k : Str}
      (htype : rtMap self.reqType = some .login ∨ rtMap self.reqType = some .disconnectLogin)
      (huser : self.param "username".toList = some k)
      (hlogin : (self.login engine sha1).1 = true) :
      Grants engine sha1 self ⟨k, some self.ss, false, true, []⟩
  | adminLogin {k : Str} (htype : rtMap self.reqType = some .adminLogin)
      (huser : self.param "username".toList = some k)
      (hlogin : (self.login engine sha1).1 = true)
      (hfound : ((self.login engine sha1).2.queryExists engine (administratorQuery k)).1 = true) :
      Grants engine sha1 self ⟨k, some self.ss, true, true, []⟩
  | anonymousConnect {k connectTo : Str}
      (htype : rtMap self.reqType = some .anonymousConnect)
      (halias : self.param "alias".toList = some k)
      (hconnectTo : self.param "connectto".toList = some connectTo) :
      Grants engine sha1 self ⟨k, some self.ss, false, false, connectTo⟩

/-- A connection that is granted has the stream of its request. -/
theorem Grants.sockStream_eq {engine : Engine} {sha1 : Sha1} {self : ParseRequest}
    {conn : WheespaConnected} (h : self.Grants engine sha1 conn) :
    conn.sockStream = some self.ss := by
  cases h with
  | login | adminLogin | anonymousConnect => rfl

/-- A login that succeeds. -/
theorem login_of_true {engine : Engine} {sha1 : Sha1} {self : ParseRequest}
    (h : (self.login engine sha1).1 = true) :
    ∃ username password, self.param "username".toList = some username ∧
      self.param "password".toList = some password ∧
      (self.authenticate engine username (getOutput sha1 password)).1 = true ∧
      (self.login engine sha1).2 =
        { (self.authenticate engine username (getOutput sha1 password)).2 with
          conn := { self.conn with registered := true, key := username } } := by
  rcases self.login_cases engine sha1 with ⟨username, password, husername, hpassword, hlogin⟩ |
    ⟨text, hlogin⟩
  · rw [hlogin] at h ⊢
    exact ⟨username, password, husername, hpassword, h, by rw [h]⟩
  · simp [hlogin] at h

/-- A query changes nothing of the object but its database. -/
theorem queryExists_snd (engine : Engine) (self : ParseRequest) (query : Str) :
    (self.queryExists engine query).2 =
      { self with wDb := (self.wDb.execQuery engine query).2 } := rfl

/-- What `adminLogin` can do: it fails with `login`, or it looks the name up in `Administrators`. -/
theorem adminLogin_cases (engine : Engine) (sha1 : Sha1) (self : ParseRequest) :
    ((self.login engine sha1).1 = false ∧
      self.adminLogin engine sha1 = some (false, (self.login engine sha1).2)) ∨
    ∃ username, self.param "username".toList = some username ∧ (self.login engine sha1).1 = true ∧
      self.adminLogin engine sha1 =
        some (((self.login engine sha1).2.queryExists engine (administratorQuery username)).1,
          { ((self.login engine sha1).2.queryExists engine (administratorQuery username)).2 with
            conn := { (self.login engine sha1).2.conn with
              isAdmin :=
                ((self.login engine sha1).2.queryExists engine
                  (administratorQuery username)).1 } }) := by
  cases hlogin : (self.login engine sha1).1 with
  | false => exact .inl ⟨rfl, by simp only [adminLogin, hlogin, Bool.false_eq_true, if_false]⟩
  | true =>
      obtain ⟨username, password, husername, _, _, hafter⟩ := login_of_true hlogin
      have hparam : (self.login engine sha1).2.param = self.param := by
        rw [hafter]
        rfl
      refine .inr ⟨username, husername, rfl, ?_⟩
      simp only [adminLogin, hlogin, if_true, hparam, husername, Option.bind_eq_bind,
        Option.bind_some]
      rfl

/-- `handle` does not throw. -/
theorem handle_isSome (engine : Engine) (sha1 : Sha1) (self : ParseRequest) (registered : Bool) :
    (self.handle engine sha1 registered).isSome := by
  unfold handle
  split
  · rfl
  · next type _ =>
      rw [Option.isSome_map]
      cases type with
      | adminLogin =>
          rcases self.adminLogin_cases engine sha1 with ⟨_, hadmin⟩ | ⟨_, _, _, hadmin⟩
          · rw [dispatch, hadmin]
            rfl
          · rw [dispatch, hadmin]
            rfl
      | anonymousConnect | disconnectLogin | login | register => rfl

/-- The connection that a login leaves, once its stream is noted. -/
theorem login_conn {engine : Engine} {sha1 : Sha1} {self : ParseRequest} {k : Str}
    (hconn : self.conn = .new) (huser : self.param "username".toList = some k)
    (hlogin : (self.login engine sha1).1 = true) :
    (self.login engine sha1).2.ss = self.ss ∧
      (self.login engine sha1).2.conn = ⟨k, none, false, true, []⟩ := by
  obtain ⟨username, password, huser', _, _, hafter⟩ := login_of_true hlogin
  obtain rfl := Option.some.inj (huser.symm.trans huser')
  rw [hafter, hconn]
  exact ⟨rfl, rfl⟩

/-- What `login` leaves with the stream noted is a connection that a login can be granted. -/
theorem login_grants {engine : Engine} {sha1 : Sha1} {self : ParseRequest}
    (hconn : self.conn = .new)
    (htype : rtMap self.reqType = some .login ∨ rtMap self.reqType = some .disconnectLogin)
    (hlogin : (self.login engine sha1).1 = true) :
    self.Grants engine sha1
      { (self.login engine sha1).2.conn with
        sockStream := some (self.login engine sha1).2.ss } := by
  obtain ⟨k, password, huser, _⟩ := login_of_true hlogin
  obtain ⟨hss, hafter⟩ := login_conn hconn huser hlogin
  rw [hss, hafter]
  exact .login htype huser hlogin

/-- What the `switch` leaves with the stream noted is a connection that the request can be
granted. -/
theorem dispatch_grants {engine : Engine} {sha1 : Sha1} {self result : ParseRequest}
    {registered : Bool} {type : RequestType} (hconn : self.conn = .new)
    (htype : rtMap self.reqType = some type) (hregister : type ≠ .register)
    (h : self.dispatch engine sha1 registered type = some (true, result)) :
    self.Grants engine sha1 { result.conn with sockStream := some result.ss } := by
  cases type with
  | adminLogin =>
      rcases self.adminLogin_cases engine sha1 with ⟨_, hadmin⟩ | ⟨k, huser, hlogin, hadmin⟩
      · rw [dispatch, hadmin] at h
        simp at h
      · obtain ⟨hss, hafter⟩ := login_conn hconn huser hlogin
        rw [dispatch, hadmin] at h
        obtain ⟨hfound, rfl⟩ := Prod.mk.inj (Option.some.inj h)
        rw [queryExists_snd, hafter, hss, hfound]
        exact .adminLogin htype huser hlogin hfound
  | anonymousConnect =>
      rw [dispatch, anonymousConnect] at h
      split at h
      · next halias hconnectTo =>
          obtain rfl := (Prod.mk.inj (Option.some.inj h)).2
          rw [hconn]
          exact .anonymousConnect htype halias hconnectTo
      · simp at h
  | disconnectLogin =>
      obtain ⟨hlogin, rfl⟩ := Prod.mk.inj (Option.some.inj h)
      exact login_grants hconn (.inr htype) hlogin
  | login =>
      have hresult : self.login engine sha1 = (true, result) := Option.some.inj h
      have hgrants := login_grants hconn (.inl htype) (congrArg Prod.fst hresult)
      rwa [hresult] at hgrants
  | register => exact absurd rfl hregister

/-- A registration notes no connection. -/
theorem registerUser_conn (engine : Engine) (sha1 : Sha1) (self : ParseRequest)
    (registered : Bool) : (self.registerUser engine sha1 registered).2.conn = self.conn := by
  rcases self.registerUser_cases engine sha1 registered with ⟨_, _, hregister⟩ |
    ⟨_, _, _, _, _, _, _, ⟨_, hregister⟩ | ⟨_, _, hregister⟩⟩ <;>
  · rw [hregister]
    rfl

/-- The connection of a request that succeeds is one that the request can be granted. -/
theorem handle_grants {engine : Engine} {sha1 : Sha1} {self after : ParseRequest}
    {registered : Bool} (hconn : self.conn = .new)
    (h : self.handle engine sha1 registered = some (true, after))
    (hstream : after.conn.sockStream.isSome) : self.Grants engine sha1 after.conn := by
  unfold handle at h
  split at h
  · simp at h
  · next type htype =>
      obtain ⟨result, hdispatch, hnote⟩ := Option.map_eq_some_iff.mp h
      unfold noteStream at hnote
      split at hnote
      · next hcond =>
          obtain ⟨hret, rfl⟩ := Prod.mk.inj hnote
          have hregister : type ≠ .register := by
            rintro rfl
            simp at hcond
          exact dispatch_grants hconn htype hregister (by rw [hdispatch, ← hret])
      · next hcond =>
          obtain rfl := hnote
          obtain rfl : type = .register := by simpa using hcond
          rw [dispatch] at hdispatch
          have hafter := registerUser_conn engine sha1 self registered
          rw [Option.some.inj hdispatch, hconn] at hafter
          rw [hafter] at hstream
          exact absurd hstream Bool.false_ne_true

/-- A request other than a registration whose method succeeds has its stream noted. -/
theorem handle_of_dispatch {engine : Engine} {sha1 : Sha1} {self result : ParseRequest}
    {registered : Bool} {type : RequestType} (htype : rtMap self.reqType = some type)
    (hregister : type ≠ .register)
    (h : self.dispatch engine sha1 registered type = some (true, result)) :
    self.handle engine sha1 registered =
      some (true, { result with conn := { result.conn with sockStream := some result.ss } }) := by
  have hnote : (type != .register) = true := by simpa using hregister
  simp only [handle, htype, h, Option.map_some, noteStream, hnote, Bool.and_true, if_true]

/-- A request that can be granted a connection succeeds with it. -/
theorem handle_of_grants {engine : Engine} {sha1 : Sha1} {self : ParseRequest}
    {conn : WheespaConnected} (hconn : self.conn = .new) (h : self.Grants engine sha1 conn)
    (registered : Bool) :
    ∃ after, self.handle engine sha1 registered = some (true, after) ∧ after.conn = conn := by
  cases h with
  | login htype huser hlogin =>
      obtain ⟨hss, hafter⟩ := login_conn hconn huser hlogin
      rcases htype with htype | htype
      · have hdispatch : self.dispatch engine sha1 registered .login =
            some (true, (self.login engine sha1).2) := by
          rw [dispatch, ← hlogin]
        refine ⟨_, handle_of_dispatch htype (by decide) hdispatch, ?_⟩
        rw [hss, hafter]
      · have hret : (self.disconnectLogin engine sha1).1 = true := hlogin
        have hss' : (self.disconnectLogin engine sha1).2.ss = self.ss := hss
        have hafter' : (self.disconnectLogin engine sha1).2.conn = _ := hafter
        have hdispatch : self.dispatch engine sha1 registered .disconnectLogin =
            some (true, (self.disconnectLogin engine sha1).2) := by
          rw [dispatch, ← hret]
        refine ⟨_, handle_of_dispatch htype (by decide) hdispatch, ?_⟩
        rw [hss', hafter']
  | adminLogin htype huser hlogin hfound =>
      obtain ⟨hss, hafter⟩ := login_conn hconn huser hlogin
      rcases self.adminLogin_cases engine sha1 with ⟨hfalse, _⟩ | ⟨k, huser', _, hadmin⟩
      · rw [hlogin] at hfalse
        exact absurd hfalse.symm Bool.false_ne_true
      · obtain rfl := Option.some.inj (huser.symm.trans huser')
        rw [hfound] at hadmin
        refine ⟨_, handle_of_dispatch htype (by decide) hadmin, ?_⟩
        rw [queryExists_snd, hss, hafter]
  | anonymousConnect htype halias hconnectTo =>
      have hdispatch : self.dispatch engine sha1 registered .anonymousConnect =
          some self.anonymousConnect := rfl
      rw [anonymousConnect, halias, hconnectTo] at hdispatch
      refine ⟨_, handle_of_dispatch htype (by decide) hdispatch, ?_⟩
      rw [hconn]
      rfl

/-- A login does not touch `disconnect_requested`. -/
theorem login_disconnectRequested (engine : Engine) (sha1 : Sha1) (self : ParseRequest) :
    (self.login engine sha1).2.disconnectRequested = self.disconnectRequested := by
  rcases self.login_cases engine sha1 with ⟨_, _, _, _, hlogin⟩ | ⟨_, hlogin⟩ <;>
  · rw [hlogin]
    rfl

/-- Only a disconnect request assigns `disconnect_requested`. -/
theorem dispatch_disconnectRequested {engine : Engine} {sha1 : Sha1} {self : ParseRequest}
    {result : Bool × ParseRequest} {registered : Bool} {type : RequestType}
    (htype : type ≠ .disconnectLogin)
    (h : self.dispatch engine sha1 registered type = some result) :
    result.2.disconnectRequested = self.disconnectRequested := by
  cases type with
  | adminLogin =>
      rcases self.adminLogin_cases engine sha1 with ⟨_, hadmin⟩ | ⟨_, _, _, hadmin⟩ <;>
      · rw [dispatch, hadmin] at h
        obtain rfl := Option.some.inj h
        exact login_disconnectRequested engine sha1 self
  | anonymousConnect =>
      obtain rfl := Option.some.inj h
      unfold anonymousConnect
      split <;> rfl
  | disconnectLogin => exact absurd rfl htype
  | login =>
      obtain rfl := Option.some.inj h
      exact login_disconnectRequested engine sha1 self
  | register =>
      obtain rfl := Option.some.inj h
      rcases self.registerUser_cases engine sha1 registered with ⟨_, _, hregister⟩ |
        ⟨_, _, _, _, _, _, _, ⟨_, hregister⟩ | ⟨_, _, hregister⟩⟩ <;>
      · rw [hregister]
        rfl

/-- A request that is no disconnect request leaves `disconnect_requested` as the constructor left
it. -/
theorem handle_disconnectRequested {engine : Engine} {sha1 : Sha1} {self : ParseRequest}
    {result : Bool × ParseRequest} {registered : Bool}
    (htype : rtMap self.reqType ≠ some .disconnectLogin)
    (h : self.handle engine sha1 registered = some result) :
    result.2.disconnectRequested = self.disconnectRequested := by
  unfold handle at h
  split at h
  · obtain rfl := Option.some.inj h
    rfl
  · next type htype' =>
      obtain ⟨before, hdispatch, rfl⟩ := Option.map_eq_some_iff.mp h
      have hbefore := dispatch_disconnectRequested
        (fun heq => htype (htype'.trans (congrArg some heq))) hdispatch
      unfold noteStream
      split <;> exact hbefore

end ParseRequest

end Wheespa
