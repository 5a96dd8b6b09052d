import Wheespa.PrepareDatabase
import Wheespa.WheespaServer

/-!
# The lookups of a request

`getValue` throws where its map does not have the key, and `m_param.find("email")->second` follows
the end of the map where there is no email. Here the methods of `ParseRequest` are written with each
of their lookups as one that may go wrong. `handle_ok` says that none does: each lookup comes after
a test of the same key, in the same method or in the method that was called before.
-/

namespace Wheespa

open Sql

/-- How a lookup goes wrong: the exception of `getValue`, or an iterator to the end that is
followed. -/
inductive LookupError where
  | noSuchKey
  | endDereferenced
  deriving DecidableEq, Repr

/-- `m.find(k)->second`. -/
def findSecond {β : Type} (m : Str → Option β) (k : Str) : Except LookupError β :=
  match m k with
  | some value => .ok value
  | none => .error .endDereferenced

/-- `getValue(m, k)`. -/
def getValue {β : Type} (m : Str → Option β) (k : Str) : Except LookupError β :=
  if (m k).isSome then findSecond m k else .error .noSuchKey

/-- A key that is present is looked up. -/
theorem findSecond_of_some {β : Type} {m : Str → Option β} {k : Str} {value : β}
    (h : m k = some value) : findSecond m k = .ok value := by
  simp only [findSecond, h]

theorem getValue_of_some {β : Type} {m : Str → Option β} {k : Str} {value : β}
    (h : m k = some value) : getValue m k = .ok value := by
  rw [getValue, h, findSecond_of_some h]
  rfl

/-- A lookup that does not go wrong is followed by the rest. -/
theorem ok_bind {α β : Type} (a : α) (f : α → Except LookupError β) :
    (Except.ok a >>= f) = f a := rfl

namespace ParseRequest.Lookups

/-- `login`. -/
def login (engine : Engine) (sha1 : Sha1) (self : ParseRequest) :
    Except LookupError (Bool × ParseRequest) :=
  if (self.param "username".toList).isNone || (self.param "password".toList).isNone then
    .ok (false, self.write "::WHEESPA_INVALID_REQUEST_TYPE_PARAMETERS")
  else do
    let userExists := false
    if (← getValue self.param "password".toList).length < 6 then
      .ok (userExists, self.write "::WHEESPA_INVALID_PASSWORD")
    else do
      let sha := getOutput sha1 (← getValue self.param "password".toList)
      let (userExists, self) :=
        self.authenticate engine (← getValue self.param "username".toList) sha
      let self := { self with conn := { self.conn with registered := userExists } }
      let key ← getValue self.param "username".toList
      .ok (userExists, { self with conn := { self.conn with key } })

/-- `adminLogin`. -/
def adminLogin (engine : Engine) (sha1 : Sha1) (self : ParseRequest) :
    Except LookupError (Bool × ParseRequest) := do
  let (auth, self) ← login engine sha1 self
  if auth then do
    let query := administratorQuery (← getValue self.param "username".toList)
    let (auth, self) := queryExists engine self query
    .ok (auth, { self with conn := { self.conn with isAdmin := auth } })
  else .ok (auth, self)

/-- `anonymousConnect`. -/
def anonymousConnect (self : ParseRequest) : Except LookupError (Bool × ParseRequest) :=
  if (self.param "alias".toList).isNone || (self.param "connectto".toList).isNone then
    .ok (false, self.write "::WHEESPA_INVALID_REQUEST_TYPE_PARAMETERS")
  else do
    -- the alias and the count go to a stream that is not used
    let _ ← getValue self.param "alias".toList
    let self := { self with anonymousCount := self.anonymousCount + 1 }
    let connectTo ← getValue self.param "connectto".toList
    let self := { self with conn := { self.conn with connectTo } }
    let key ← getValue self.param "alias".toList
    .ok (true, { self with conn := { self.conn with key } })

/-- `disconnectLogin`. -/
def disconnectLogin (engine : Engine) (sha1 : Sha1) (self : ParseRequest) :
    Except LookupError (Bool × ParseRequest) := do
  let (ret, self) ← login engine sha1 self
  .ok (ret, { self with disconnectRequested := ret })

/-- `registerUser`. `registered` is the value of the local variable that is not assigned. -/
def registerUser (engine : Engine) (sha1 : Sha1) (self : ParseRequest) (registered : Bool) :
    Except LookupError (Bool × ParseRequest) :=
  if (self.param "username".toList).isNone || (self.param "password".toList).isNone ||
      (self.param "email".toList).isNone then
    .ok (false, self.write "::WHEESPA_INVALID_REQUEST_TYPE_PARAMETERS")
  else do
    if (← getValue self.param "username".toList).length > 32 then
      .ok (registered, self.write "::WHEESPA_INVALID_USERNAME")
    else if (← getValue self.param "password".toList).length < 6 then
      .ok (registered, self.write "::WHEESPA_INVALID_PASSWORD")
    else if (emailRegex.fullMatch (← findSecond self.param "email".toList)).isNone then
      .ok (registered, self.write "::WHEESPA_INVALID_EMAIL")
    else do
      let (taken, self) := self.checkExists engine (← getValue self.param "username".toList)
      if taken then .ok (registered, self.write "::WHEESPA_USER_ALREADY_EXIST")
      else do
        let username ← getValue self.param "username".toList
        let pass := getOutput sha1 (← getValue self.param "password".toList)
        let email ← getValue self.param "email".toList
        let (answer, wDb) := self.wDb.insert engine "PendingRegistrations".toList
          "W_USER, W_PASS, W_MAIL, W_KEY".toList [username, pass, email, []]
        .ok (if answer.ok then true else registered, { self with wDb })

/-- The `switch` of `handle`. -/
def dispatch (engine : Engine) (sha1 : Sha1) (self : ParseRequest) (registered : Bool) :
    RequestType → Except LookupError (Bool × ParseRequest)
  | .adminLogin => adminLogin engine sha1 self
  | .anonymousConnect => anonymousConnect self
  | .disconnectLogin => disconnectLogin engine sha1 self
  | .login => login engine sha1 self
  | .register => registerUser engine sha1 self registered

/-- `handle`. -/
def handle (engine : Engine) (sha1 : Sha1) (self : ParseRequest) (registered : Bool) :
    Except LookupError (Bool × ParseRequest) :=
  if (rtMap self.reqType).isNone then
    .ok (false, self.write "::WHEESPA_INVALID_REQUEST_TYPE")
  else do
    let (ret, self) ← dispatch engine sha1 self registered (← getValue rtMap self.reqType)
    -- the type is looked up again only where the method has succeeded
    if ret then
      if (← getValue rtMap self.reqType) != .register then
        .ok (ret, { self with conn := { self.conn with sockStream := some self.ss } })
      else .ok (ret, self)
    else .ok (ret, self)

/-! ## No lookup goes wrong -/

theorem login_eq_ok (engine : Engine) (sha1 : Sha1) (self : ParseRequest) :
    login engine sha1 self = .ok (self.login engine sha1) := by
  unfold login ParseRequest.login
  cases husername : self.param "username".toList with
  | none => rfl
  | some username =>
      cases hpassword : self.param "password".toList with
      | none => rfl
      | some password =>
          rw [getValue_of_some husername, getValue_of_some hpassword]
          by_cases hlength : password.length < 6
          · simp only [ok_bind, hlength, if_true, Option.isNone_some, Bool.or_self,
              Bool.false_eq_true, if_false]
          · have hafter : getValue (self.authenticate engine username
                (getOutput sha1 password)).2.param "username".toList = .ok username :=
              getValue_of_some husername
            simp only [ok_bind, hlength, if_false, Option.isNone_some, Bool.or_self,
              Bool.false_eq_true, hafter]

theorem adminLogin_eq_ok (engine : Engine) (sha1 : Sha1) (self : ParseRequest) :
    ∃ result, adminLogin engine sha1 self = .ok result ∧
      self.adminLogin engine sha1 = some result := by
  unfold adminLogin ParseRequest.adminLogin
  rw [login_eq_ok, ok_bind]
  rcases hlogin : self.login engine sha1 with ⟨auth, after⟩
  cases auth with
  | false => exact ⟨_, rfl, rfl⟩
  | true =>
      -- `login` has found a username and left the map as it was
      have husername : ∃ username, after.param "username".toList = some username := by
        rcases self.login_cases engine sha1 with ⟨username, _, husername, _, hcase⟩ | ⟨_, hcase⟩
        · obtain ⟨_, rfl⟩ := Prod.mk.inj (hlogin.symm.trans hcase)
          exact ⟨username, husername⟩
        · rw [hlogin] at hcase
          exact absurd (Prod.mk.inj hcase).1 (by decide)
      obtain ⟨username, husername⟩ := husername
      simp only [if_true, getValue_of_some husername, ok_bind, husername, Option.bind_eq_bind,
        Option.bind_some]
      exact ⟨_, rfl, rfl⟩

theorem anonymousConnect_eq_ok (self : ParseRequest) :
    anonymousConnect self = .ok self.anonymousConnect := by
  unfold anonymousConnect ParseRequest.anonymousConnect
  cases halias : self.param "alias".toList with
  | none => rfl
  | some key =>
      cases hconnectTo : self.param "connectto".toList with
      | none => rfl
      | some connectTo =>
          simp only [getValue_of_some halias, getValue_of_some hconnectTo, ok_bind,
            Option.isNone_some, Bool.or_self, Bool.false_eq_true, if_false]

theorem disconnectLogin_eq_ok (engine : Engine) (sha1 : Sha1) (self : ParseRequest) :
    disconnectLogin engine sha1 self = .ok (self.disconnectLogin engine sha1) := by
  rw [disconnectLogin, login_eq_ok, ok_bind]
  rfl

theorem registerUser_eq_ok (engine : Engine) (sha1 : Sha1) (self : ParseRequest)
    (registered : Bool) :
    registerUser engine sha1 self registered = .ok (self.registerUser engine sha1 registered) := by
  unfold registerUser ParseRequest.registerUser
  cases husername : self.param "username".toList with
  | none => rfl
  | some username =>
      cases hpassword : self.param "password".toList with
      | none => rfl
      | some password =>
          cases hemail : self.param "email".toList with
          | none => rfl
          | some email =>
              -- the names are looked up once more after `checkExists`
              have husername' : getValue (self.checkExists engine username).2.param
                  "username".toList = .ok username := getValue_of_some husername
              have hpassword' : getValue (self.checkExists engine username).2.param
                  "password".toList = .ok password := getValue_of_some hpassword
              have hemail' : getValue (self.checkExists engine username).2.param
                  "email".toList = .ok email := getValue_of_some hemail
              simp only [Option.isNone_some, Bool.or_self, Bool.false_eq_true, if_false,
                getValue_of_some husername, getValue_of_some hpassword, findSecond_of_some hemail,
                ok_bind, husername', hpassword', hemail']
              split_ifs <;> rfl

/-- Every method of the `switch` looks up what is there, and does what `dispatch` says. -/
theorem dispatch_ok (engine : Engine) (sha1 : Sha1) (self : ParseRequest) (registered : Bool)
    (type : RequestType) :
    ∃ result, dispatch engine sha1 self registered type = .ok result ∧
      self.dispatch engine sha1 registered type = some result := by
  cases type with
  | adminLogin => exact adminLogin_eq_ok engine sha1 self
  | anonymousConnect => exact ⟨_, anonymousConnect_eq_ok self, rfl⟩
  | disconnectLogin => exact ⟨_, disconnectLogin_eq_ok engine sha1 self, rfl⟩
  | login => exact ⟨_, login_eq_ok engine sha1 self, rfl⟩
  | register => exact ⟨_, registerUser_eq_ok engine sha1 self registered, rfl⟩

/-- No method assigns the type of the request. -/
theorem dispatch_reqType {engine : Engine} {sha1 : Sha1} {self : ParseRequest}
    {result : Bool × ParseRequest} {registered : Bool} {type : RequestType}
    (h : self.dispatch engine sha1 registered type = some result) :
    result.2.reqType = self.reqType := by
  have hlogin : (self.login engine sha1).2.reqType = self.reqType := by
    rcases self.login_cases engine sha1 with ⟨_, _, _, _, hlogin⟩ | ⟨_, hlogin⟩ <;>
    · rw [hlogin]
      rfl
  cases type with
  | adminLogin =>
      rcases self.adminLogin_cases engine sha1 with ⟨_, hadmin⟩ | ⟨_, _, _, hadmin⟩ <;>
      · rw [ParseRequest.dispatch, hadmin] at h
        obtain rfl := Option.some.inj h
        exact hlogin
  | anonymousConnect =>
      obtain rfl := Option.some.inj h
      unfold ParseRequest.anonymousConnect
      split <;> rfl
  | disconnectLogin | login =>
      obtain rfl := Option.some.inj h
      exact hlogin
  | register =>
      obtain rfl := Option.some.inj h
      rcases self.registerUser_cases engine sha1 registered with ⟨_, _, hregister⟩ |
        ⟨_, _, _, _, _, _, _, ⟨_, hregister⟩ | ⟨_, _, hregister⟩⟩ <;>
      · rw [hregister]
        rfl

/-- `handle` comes to its end on every object, whatever is in its map. -/
theorem handle_ok (engine : Engine) (sha1 : Sha1) (self : ParseRequest) (registered : Bool) :
    ∃ result, handle engine sha1 self registered = .ok result ∧
      self.handle engine sha1 registered = some result := by
  unfold handle ParseRequest.handle
  cases htype : rtMap self.reqType with
  | none => exact ⟨_, rfl, rfl⟩
  | some type =>
      obtain ⟨⟨ret, after⟩, hlookups, hdispatch⟩ := dispatch_ok engine sha1 self registered type
      have hreqType : after.reqType = self.reqType := dispatch_reqType hdispatch
      have hagain : getValue rtMap after.reqType = .ok type :=
        getValue_of_some (hreqType ▸ htype)
      simp only [Option.isNone_some, Bool.false_eq_true, if_false, getValue_of_some htype, ok_bind,
        hlookups, hdispatch, Option.map_some, hagain, noteStream]
      refine ⟨_, ?_, rfl⟩
      cases ret with
      | false => rfl
      | true =>
          simp only [if_true, Bool.true_and]
          split <;> rfl

end ParseRequest.Lookups

/-- A request that the server's expression accepts, with whatever names its fields have and however
often a name is repeated, is handled without a lookup that goes wrong, over every database and for
every type of request; and it is handled as `handle` says. -/
theorem lookups_found (engine : Engine) (sha1 : Sha1) (server : Server) (ss : SocketStream)
    (text : Str) (disconnectRequested registered : Bool) :
    ∀ preq ∈ server.parseRequest (.request ss text disconnectRequested registered),
      ∃ result, ParseRequest.Lookups.handle engine sha1 preq registered = .ok result ∧
        preq.handle engine sha1 registered = some result :=
  fun preq _ => ParseRequest.Lookups.handle_ok engine sha1 preq registered

/-- A login whose password is given twice, so that the map has the second one, and whose username
is missing. -/
theorem lookups_found_repeated : ∃ preq,
    (Server.start newFile).parseRequest (.request 0
      "[WHEESPA_ADMIN_LOGIN]::password=secret:::password=abc:::".toList false false) =
        some preq ∧
    preq.param "password".toList = some "abc".toList ∧ preq.param "username".toList = none ∧
    ∃ result, ParseRequest.Lookups.handle .plain constantSha1 preq false = .ok result ∧
      preq.handle .plain constantSha1 false = some result := by
  have hparsed : ((Server.start newFile).parseRequest (.request 0
      "[WHEESPA_ADMIN_LOGIN]::password=secret:::password=abc:::".toList false false)).any
        (fun preq => preq.param "password".toList = some "abc".toList ∧
          preq.param "username".toList = none) = true := by
    decide +kernel
  obtain ⟨preq, hpreq, hparam⟩ := Option.any_eq_true _ _ |>.mp hparsed
  obtain ⟨hpassword, husername⟩ := of_decide_eq_true hparam
  exact ⟨preq, hpreq, hpassword, husername,
    lookups_found .plain constantSha1 _ 0 _ false false preq hpreq⟩

end Wheespa
