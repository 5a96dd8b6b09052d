import Wheespa.Insertion

/-!
# The texts that a request executes

A request executes selects, and `registerUser` also executes an insertion into
`PendingRegistrations`. `handle_executes` says so for every request whose parameters the server's
expressions have accepted, and `exec_harmless` says what such texts leave as it was.
-/

namespace Wheespa

open Sql

/-- The text is a single query. -/
def IsSelect (text : Str) : Prop :=
  ∃ query, parse text = some [.select query]

/-- The text is a single query, or an insertion into `PendingRegistrations`. -/
def Harmless (text : Str) : Prop :=
  IsSelect text ∨ ∃ columns values,
    parse text = some [.insertValues "PendingRegistrations".toList columns values]

/-- A query changes nothing. -/
theorem exec_select (engine : Engine) {text : Str} (h : IsSelect text) (session : Session) :
    (engine.exec session text).session = session := by
  obtain ⟨query, hparse⟩ := h
  rw [engine.exec_eq _ _ _ hparse, run_select]

/-- A harmless text changes no other table than `PendingRegistrations`, and loses no row of that. -/
theorem exec_harmless (engine : Engine) {text : Str} (h : Harmless text) (session : Session) :
    (∀ name, fold name ≠ fold "PendingRegistrations".toList →
      (engine.exec session text).session.database.table? name = session.database.table? name) ∧
    session.database.rows "PendingRegistrations".toList <+:
      (engine.exec session text).session.database.rows "PendingRegistrations".toList := by
  rcases h with hselect | ⟨columns, values, hparse⟩
  · rw [exec_select engine hselect]
    exact ⟨fun _ _ => rfl, List.prefix_refl _⟩
  · rw [engine.exec_eq _ _ _ hparse]
    cases hrun : Statement.run engine.toBackend session
        (.insertValues "PendingRegistrations".toList columns values) with
    | none =>
        rw [run_singleton_none hrun]
        exact ⟨fun _ _ => rfl, List.prefix_refl _⟩
    | some result =>
        obtain ⟨table, table', htable, hrows, rfl⟩ := run_insertValues hrun
        rw [run_singleton_some hrun]
        refine ⟨fun name hname => Database.table?_set_of_ne hname _ _, ?_⟩
        rw [Database.rows, Database.rows, Database.table?_set_self, htable]
        exact hrows

/-! ## Executed texts -/

/-- The second connection results from the first by executing texts with the property. -/
def FlexDB.Executes (engine : Engine) (p : Str → Prop) (before after : FlexDB) : Prop :=
  ∃ texts, (∀ text ∈ texts, p text) ∧ after.executed = before.executed ++ texts ∧
    after.dbHandle =
      texts.foldl (fun session text => (engine.exec session text).session) before.dbHandle

namespace FlexDB

variable {engine : Engine} {p q : Str → Prop} {before middle after : FlexDB}

theorem Executes.refl (db : FlexDB) : Executes engine p db db :=
  ⟨[], by simp⟩

theorem Executes.trans (h : Executes engine p before middle)
    (h' : Executes engine p middle after) : Executes engine p before after := by
  obtain ⟨texts, hp, hexecuted, hhandle⟩ := h
  obtain ⟨texts', hp', hexecuted', hhandle'⟩ := h'
  refine ⟨texts ++ texts', List.forall_mem_append.mpr ⟨hp, hp'⟩, ?_, ?_⟩
  · rw [hexecuted', hexecuted, List.append_assoc]
  · rw [hhandle', hhandle, List.foldl_append]

theorem Executes.mono (hpq : ∀ text, p text → q text) (h : Executes engine p before after) :
    Executes engine q before after := by
  obtain ⟨texts, hp, hrest⟩ := h
  exact ⟨texts, fun text htext => hpq text (hp text htext), hrest⟩

/-- Executing a query executes its text up to the first null character. -/
theorem executes_execQuery {query : Str} (db : FlexDB) (h : p (cStr query)) :
    Executes engine p db (db.execQuery engine query).2 :=
  ⟨[cStr query], by simpa using h, rfl, rfl⟩

/-- An insertion executes its text up to the first null character. -/
theorem executes_insert {table columns : Str} {values : List Str} (db : FlexDB)
    (h : p (cStr (insertText table columns values))) :
    Executes engine p db (db.insert engine table columns values).2 :=
  ⟨[cStr (insertText table columns values)], by simpa using h, rfl, rfl⟩

/-- Queries leave the connection as it was. -/
theorem Executes.dbHandle_eq (h : Executes engine IsSelect before after) :
    after.dbHandle = before.dbHandle := by
  obtain ⟨texts, hselect, hexecuted, hhandle⟩ := h
  rw [hhandle]
  clear hexecuted hhandle
  generalize before.dbHandle = session
  induction texts with
  | nil => rfl
  | cons text texts ih =>
      rw [List.forall_mem_cons] at hselect
      rw [List.foldl_cons, exec_select engine hselect.1, ih hselect.2]

/-- Harmless texts change no other table than `PendingRegistrations`. -/
theorem Executes.table?_eq (h : Executes engine Harmless before after) {name : Name}
    (hname : fold name ≠ fold "PendingRegistrations".toList) :
    after.database.table? name = before.database.table? name := by
  obtain ⟨texts, hharmless, hexecuted, hhandle⟩ := h
  rw [FlexDB.database, FlexDB.database, hhandle]
  clear hexecuted hhandle
  generalize before.dbHandle = session
  induction texts generalizing session with
  | nil => rfl
  | cons text texts ih =>
      rw [List.forall_mem_cons] at hharmless
      rw [List.foldl_cons, ih hharmless.2, (exec_harmless engine hharmless.1 session).1 name hname]

end FlexDB

/-! ## The texts of the requests -/

namespace ParseRequest

/-- The parameters of the object are values that a request can carry. -/
def ValidParams (self : ParseRequest) : Prop :=
  ∀ name value, self.param name = some value → IsValue value

/-- The parameters that the constructor extracts are valid. -/
theorem validParams_new (ss : SocketStream) (reqType reqParams : Str) (database : Database)
    (anonymousCount : Nat) (disconnectRequested : Bool) :
    (ParseRequest.new ss reqType reqParams sharedRex database anonymousCount
      disconnectRequested).ValidParams :=
  fun _ _ h => isValue_params h

variable (engine : Engine) (sha1 : Sha1) {self : ParseRequest}

theorem authenticate_executes {user pass : Str} (huser : IsValue user) (hpass : IsValue pass) :
    self.wDb.Executes engine IsSelect (self.authenticate engine user pass).2.wDb := by
  have hparse := parse_authenticateQuery huser.not_mem.1 hpass.not_mem.1
  have hnul := nul_not_mem_authenticateQuery huser.not_mem.2.2 hpass.not_mem.2.2
  exact FlexDB.executes_execQuery _ ((cStr_of_not_mem hnul).symm ▸ ⟨_, hparse⟩)

theorem checkExists_executes {user : Str} (huser : IsValue user) :
    self.wDb.Executes engine IsSelect (self.checkExists engine user).2.wDb := by
  have hparse := parse_checkExistsQuery huser.not_mem.1
  have hnul := nul_not_mem_checkExistsQuery huser.not_mem.2.2
  exact FlexDB.executes_execQuery _ ((cStr_of_not_mem hnul).symm ▸ ⟨_, hparse⟩)

theorem administratorQuery_executes {user : Str} (huser : IsValue user) :
    self.wDb.Executes engine IsSelect
      (self.queryExists engine (administratorQuery user)).2.wDb := by
  have hparse := parse_administratorQuery huser.not_mem.2.1
  have hnul := nul_not_mem_administratorQuery huser.not_mem.2.2
  exact FlexDB.executes_execQuery _ ((cStr_of_not_mem hnul).symm ▸ ⟨_, hparse⟩)

/-- A login executes nothing but queries. -/
theorem login_executes (hvalid : self.ValidParams) :
    self.wDb.Executes engine IsSelect (self.login engine sha1).2.wDb := by
  rcases self.login_cases engine sha1 with ⟨username, password, husername, _, hlogin⟩ |
    ⟨text, hlogin⟩
  · rw [hlogin]
    exact authenticate_executes engine (hvalid _ _ husername)
      (isValue_of_hex (getOutput_spec sha1 password).2)
  · rw [hlogin]
    exact .refl _

/-- What a query answers depends on the connection only. -/
theorem queryExists_congr {other : ParseRequest} (h : self.wDb.dbHandle = other.wDb.dbHandle)
    (query : Str) : (self.queryExists engine query).1 = (other.queryExists engine query).1 := by
  simp only [queryExists, FlexDB.execQuery, h]

/-- A query after a login is answered as on the connection that the request began with. -/
theorem queryExists_login (hvalid : self.ValidParams) (query : Str) :
    ((self.login engine sha1).2.queryExists engine query).1 =
      (self.queryExists engine query).1 :=
  queryExists_congr engine (login_executes engine sha1 hvalid).dbHandle_eq query

/-- The login of an administrator executes nothing but queries. -/
theorem adminLogin_executes (hvalid : self.ValidParams) {result : Bool × ParseRequest}
    (h : self.adminLogin engine sha1 = some result) :
    self.wDb.Executes engine IsSelect result.2.wDb := by
  have hlogin := login_executes engine sha1 hvalid
  rcases self.adminLogin_cases engine sha1 with ⟨_, hadmin⟩ | ⟨username, husername, _, hadmin⟩
  · obtain rfl := Option.some.inj (hadmin.symm.trans h)
    exact hlogin
  · obtain rfl := Option.some.inj (hadmin.symm.trans h)
    exact hlogin.trans (administratorQuery_executes engine (hvalid _ _ husername))

/-- A registration executes a query and an insertion into `PendingRegistrations`, at most. -/
theorem registerUser_executes (hvalid : self.ValidParams) (registered : Bool) :
    self.wDb.Executes engine Harmless (self.registerUser engine sha1 registered).2.wDb := by
  rcases self.registerUser_cases engine sha1 registered with ⟨_, _, hregister⟩ |
    ⟨username, password, email, _, husername, hpassword, hemail, ⟨_, hregister⟩ |
      ⟨_, _, hregister⟩⟩
  · rw [hregister]
    exact .refl _
  · rw [hregister]
    exact (checkExists_executes engine (hvalid _ _ husername)).mono fun _ => .inl
  · rw [hregister]
    have husername := hvalid _ _ husername
    have hdigest := isValue_of_hex (getOutput_spec sha1 password).2
    have hemail := hvalid _ _ hemail
    have hquery : self.wDb.Executes engine Harmless (self.checkExists engine username).2.wDb :=
      (checkExists_executes engine husername).mono fun _ => .inl
    have hparse := parse_insertPending husername.not_mem.1 hdigest.not_mem.1 hemail.not_mem.1
    have hnul := nul_not_mem_insertPending husername.not_mem.2.2 hdigest.not_mem.2.2
      hemail.not_mem.2.2
    exact hquery.trans
      (FlexDB.executes_insert _ ((cStr_of_not_mem hnul).symm ▸ .inr ⟨_, _, hparse⟩))

/-- Noting the stream executes nothing. -/
theorem noteStream_wDb (type : RequestType) (result : Bool × ParseRequest) :
    (noteStream type result).2.wDb = result.2.wDb := by
  unfold noteStream
  split <;> rfl

/-- What a request does to the database: a registration, or nothing but queries. -/
theorem handle_wDb (hvalid : self.ValidParams) {registered : Bool} {result : Bool × ParseRequest}
    (h : self.handle engine sha1 registered = some result) :
    self.wDb.Executes engine IsSelect result.2.wDb ∨
      (rtMap self.reqType = some .register ∧
        result.2.wDb = (self.registerUser engine sha1 registered).2.wDb) := by
  unfold handle at h
  split at h
  · obtain rfl := Option.some.inj h
    exact .inl (.refl _)
  · next type htype =>
      obtain ⟨middle, hdispatch, rfl⟩ := Option.map_eq_some_iff.mp h
      rw [noteStream_wDb]
      cases type with
      | adminLogin => exact .inl (adminLogin_executes engine sha1 hvalid hdispatch)
      | anonymousConnect =>
          obtain rfl := Option.some.inj hdispatch
          unfold anonymousConnect
          split <;> exact .inl (.refl _)
      | disconnectLogin | login =>
          obtain rfl := Option.some.inj hdispatch
          exact .inl (login_executes engine sha1 hvalid)
      | register =>
          obtain rfl := Option.some.inj hdispatch
          exact .inr ⟨htype, rfl⟩

/-- A request executes nothing but harmless texts. -/
theorem handle_executes (hvalid : self.ValidParams) {registered : Bool}
    {result : Bool × ParseRequest} (h : self.handle engine sha1 registered = some result) :
    self.wDb.Executes engine Harmless result.2.wDb := by
  rcases handle_wDb engine sha1 hvalid h with hselect | ⟨_, hregister⟩
  · exact hselect.mono fun _ => .inl
  · rw [hregister]
    exact registerUser_executes engine sha1 hvalid registered

end ParseRequest

end Wheespa
