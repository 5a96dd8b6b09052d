import Wheespa.Library.Sql.Template
import Wheespa.PrepareDatabase
import Wheespa.WheespaServer

/-!
# The SQL texts of a request

What a request hands to SQLite is built from its username, the digest of its password and its email
address. `texts_agree` is the main result: whatever two requests of one type the server accepts, the
tokens of their texts are those of fixed templates, and differ in the tokens only that hold these
values.
-/

namespace Wheespa

open Sql ParseRequest

/-- A value that the texts of a request hold. -/
inductive Field where
  | username
  | digest
  | email
  deriving DecidableEq, Repr

/-- The value of the request. -/
def fieldValue (sha1 : Sha1) (preq : ParseRequest) : Field → Str
  | .username => (preq.param "username".toList).getD []
  | .digest => getOutput sha1 ((preq.param "password".toList).getD [])
  | .email => (preq.param "email".toList).getD []

/-- The texts that a request of a type builds where it does not end before, in order. -/
def builtTexts (sha1 : Sha1) (preq : ParseRequest) : RequestType → List Str
  | .adminLogin =>
      [authenticateQuery (fieldValue sha1 preq .username) (fieldValue sha1 preq .digest),
        administratorQuery (fieldValue sha1 preq .username)]
  | .anonymousConnect => []
  | .disconnectLogin | .login =>
      [authenticateQuery (fieldValue sha1 preq .username) (fieldValue sha1 preq .digest)]
  | .register =>
      [checkExistsQuery (fieldValue sha1 preq .username),
        insertText "PendingRegistrations".toList "W_USER, W_PASS, W_MAIL, W_KEY".toList
          [fieldValue sha1 preq .username, fieldValue sha1 preq .digest,
            fieldValue sha1 preq .email, []]]

/-- The template of `authenticate`. -/
def authenticateTemplate : List (Slot Field) :=
  [.fixed (.word "Select".toList), .fixed (.symbol '*'), .fixed (.word "from".toList),
    .fixed (.word "Registered".toList), .fixed (.word "where".toList),
    .fixed (.word "W_USER".toList), .fixed (.symbol '='), .quoted .double .username,
    .fixed (.word "and".toList), .fixed (.word "W_PASS".toList), .fixed (.symbol '='),
    .quoted .double .digest]

/-- The template of the query of `adminLogin`. -/
def administratorTemplate : List (Slot Field) :=
  [.fixed (.word "Select".toList), .fixed (.symbol '*'), .fixed (.word "from".toList),
    .fixed (.word "Administrators".toList), .fixed (.word "where".toList),
    .fixed (.word "W_USER".toList), .fixed (.symbol '='), .quoted .single .username]

/-- The template of `checkExists`. -/
def checkExistsTemplate : List (Slot Field) :=
  [.fixed (.word "Select".toList), .fixed (.word "R".toList), .fixed (.symbol '.'),
    .fixed (.word "W_USER".toList), .fixed (.symbol ','), .fixed (.word "P".toList),
    .fixed (.symbol '.'), .fixed (.word "W_USER".toList), .fixed (.word "from".toList),
    .fixed (.word "Registered".toList), .fixed (.word "R".toList), .fixed (.symbol ','),
    .fixed (.word "PendingRegistrations".toList), .fixed (.word "P".toList),
    .fixed (.word "where".toList), .fixed (.word "R".toList), .fixed (.symbol '.'),
    .fixed (.word "W_USER".toList), .fixed (.symbol '='), .quoted .double .username,
    .fixed (.word "OR".toList), .fixed (.word "P".toList), .fixed (.symbol '.'),
    .fixed (.word "W_USER".toList), .fixed (.symbol '='), .quoted .double .username]

/-- The template of the insertion of `registerUser`. -/
def insertTemplate : List (Slot Field) :=
  [.fixed (.word "insert".toList), .fixed (.word "into".toList),
    .fixed (.word "PendingRegistrations".toList), .fixed (.symbol '('),
    .fixed (.word "W_USER".toList), .fixed (.symbol ','), .fixed (.word "W_PASS".toList),
    .fixed (.symbol ','), .fixed (.word "W_MAIL".toList), .fixed (.symbol ','),
    .fixed (.word "W_KEY".toList), .fixed (.symbol ')'), .fixed (.word "values".toList),
    .fixed (.symbol '('), .literal .username, .fixed (.symbol ','), .literal .digest,
    .fixed (.symbol ','), .literal .email, .fixed (.symbol ','), .fixed (.quoted .double []),
    .fixed (.symbol ')')]

/-- The templates of the texts of a request of a type, in order. -/
def templates : RequestType → List (List (Slot Field))
  | .adminLogin => [authenticateTemplate, administratorTemplate]
  | .anonymousConnect => []
  | .disconnectLogin | .login => [authenticateTemplate]
  | .register => [checkExistsTemplate, insertTemplate]

/-- The texts are instances of the first templates of the type of the request. -/
structure Templated (sha1 : Sha1) (preq : ParseRequest) (texts : List Str) : Prop where
  /-- no value ends its token, starts a comment or adds a token -/
  instances : texts.map lexPlain <+:
    ((rtMap preq.reqType).elim [] templates).map (instantiate (fieldValue sha1 preq))
  /-- no value adds a statement -/
  single : ∀ text ∈ texts,
    .symbol ';' ∉ lexPlain text ∧ ∃ statement, parse text = some [statement]
  /-- SQLite, for which a doubled quote character is an escape, reads the same tokens -/
  escapes : ∀ text ∈ texts, lex text = lexPlain text

section Values

variable {sha1 : Sha1} {preq : ParseRequest}

/-- The values of a request are valid. -/
theorem isValue_fieldValue (hvalid : preq.ValidParams) (field : Field) :
    IsValue (fieldValue sha1 preq field) := by
  have hparam (name : Str) : IsValue ((preq.param name).getD []) := by
    cases hvalue : preq.param name with
    | none => exact fun c hc => absurd hc List.not_mem_nil
    | some value => exact hvalid _ _ hvalue
  cases field with
  | username => exact hparam _
  | digest => exact isValue_of_hex (getOutput_spec sha1 _).2
  | email => exact hparam _

/-- The texts of a request are read as its templates with its values filled in. -/
theorem lex_builtTexts (hvalid : preq.ValidParams) (type : RequestType) :
    (builtTexts sha1 preq type).map lex =
      (templates type).map (instantiate (fieldValue sha1 preq)) := by
  have huser := (@isValue_fieldValue sha1 _ hvalid .username).not_mem
  have hdigest := (@isValue_fieldValue sha1 _ hvalid .digest).not_mem
  have hemail := (@isValue_fieldValue sha1 _ hvalid .email).not_mem
  have hauthenticate := lex_authenticateQuery huser.1 hdigest.1
  cases type with
  | adminLogin =>
      simp only [builtTexts, List.map_cons, List.map_nil, hauthenticate,
        lex_administratorQuery huser.2.1]
      rfl
  | anonymousConnect => rfl
  | disconnectLogin | login =>
      simp only [builtTexts, List.map_cons, List.map_nil, hauthenticate]
      rfl
  | register =>
      simp only [builtTexts, List.map_cons, List.map_nil, lex_checkExistsQuery huser.1,
        lex_insertPending huser.1 hdigest.1 hemail.1]
      rfl

/-- Every text of a request is one statement, and has no null character. -/
theorem parse_builtTexts (hvalid : preq.ValidParams) {type : RequestType} {text : Str}
    (htext : text ∈ builtTexts sha1 preq type) :
    '\x00' ∉ text ∧ ∃ statement, parse text = some [statement] := by
  have huser := (@isValue_fieldValue sha1 _ hvalid .username).not_mem
  have hdigest := (@isValue_fieldValue sha1 _ hvalid .digest).not_mem
  have hemail := (@isValue_fieldValue sha1 _ hvalid .email).not_mem
  have hparse := parse_authenticateQuery huser.1 hdigest.1
  have hnul := nul_not_mem_authenticateQuery huser.2.2 hdigest.2.2
  cases type with
  | adminLogin =>
      rcases List.mem_pair.mp htext with rfl | rfl
      · exact ⟨hnul, _, hparse⟩
      · exact ⟨nul_not_mem_administratorQuery huser.2.2, _, parse_administratorQuery huser.2.1⟩
  | anonymousConnect => exact absurd htext List.not_mem_nil
  | disconnectLogin | login =>
      obtain rfl := List.mem_singleton.mp htext
      exact ⟨hnul, _, hparse⟩
  | register =>
      rcases List.mem_pair.mp htext with rfl | rfl
      · exact ⟨nul_not_mem_checkExistsQuery huser.2.2, _, parse_checkExistsQuery huser.1⟩
      · exact ⟨nul_not_mem_insertPending huser.2.2 hdigest.2.2 hemail.2.2, _,
          parse_insertPending huser.1 hdigest.1 hemail.1⟩

/-- A text without null characters is executed whole. -/
theorem executed_execQuery (engine : Engine) (db : FlexDB) {text : Str} (h : '\x00' ∉ text) :
    (db.execQuery engine text).2.executed = db.executed ++ [text] := by
  rw [FlexDB.execQuery, cStr_of_not_mem h]

variable (engine : Engine)

/-- What a login executes: nothing where it fails before, or else its query. -/
theorem login_executed (hvalid : preq.ValidParams) :
    ((preq.login engine sha1).1 = false ∧
      (preq.login engine sha1).2.wDb.executed = preq.wDb.executed) ∨
    (preq.login engine sha1).2.wDb.executed =
      preq.wDb.executed ++ builtTexts sha1 preq .login := by
  rcases preq.login_cases engine sha1 with ⟨username, password, husername, hpassword, hlogin⟩ |
    ⟨text, hlogin⟩
  · right
    have hnul := (@parse_builtTexts sha1 preq hvalid .login _ List.mem_cons_self).1
    simp only [builtTexts, fieldValue, husername, hpassword, Option.getD_some] at hnul ⊢
    rw [hlogin]
    exact executed_execQuery engine preq.wDb hnul
  · rw [hlogin]
    exact .inl ⟨rfl, rfl⟩

/-- What the login of an administrator executes. -/
theorem adminLogin_executed (hvalid : preq.ValidParams) {result : Bool × ParseRequest}
    (h : preq.adminLogin engine sha1 = some result) :
    ∃ done, done <+: builtTexts sha1 preq .adminLogin ∧
      result.2.wDb.executed = preq.wDb.executed ++ done := by
  rcases preq.adminLogin_cases engine sha1 with ⟨_, hadmin⟩ | ⟨username, husername, hlogin, hadmin⟩
  · obtain rfl := Option.some.inj (hadmin.symm.trans h)
    rcases login_executed engine hvalid with ⟨_, hexecuted⟩ | hexecuted
    · exact ⟨[], List.nil_prefix, hexecuted.trans (List.append_nil _).symm⟩
    · exact ⟨_, List.prefix_append _ [_], hexecuted⟩
  · obtain rfl := Option.some.inj (hadmin.symm.trans h)
    rcases login_executed engine hvalid with ⟨hfalse, _⟩ | hexecuted
    · rw [hlogin] at hfalse
      exact absurd hfalse.symm Bool.false_ne_true
    · have hnul := (@parse_builtTexts sha1 preq hvalid .adminLogin _
        (List.mem_cons_of_mem _ List.mem_cons_self)).1
      refine ⟨_, List.prefix_refl _, ?_⟩
      simp only [builtTexts, fieldValue, husername, Option.getD_some] at hnul hexecuted ⊢
      rw [queryExists_snd]
      refine (executed_execQuery engine _ hnul).trans ?_
      rw [hexecuted, List.append_assoc]
      rfl

/-- What a registration executes. -/
theorem registerUser_executed (hvalid : preq.ValidParams) (registered : Bool) :
    ∃ done, done <+: builtTexts sha1 preq .register ∧
      (preq.registerUser engine sha1 registered).2.wDb.executed = preq.wDb.executed ++ done := by
  have hnul := fun text htext => (@parse_builtTexts sha1 preq hvalid .register text htext).1
  rcases preq.registerUser_cases engine sha1 registered with ⟨_, _, hregister⟩ |
    ⟨username, password, email, _, husername, hpassword, hemail, hcases⟩
  · rw [hregister]
    exact ⟨[], List.nil_prefix, (List.append_nil _).symm⟩
  · simp only [builtTexts, fieldValue, husername, hpassword, hemail, Option.getD_some] at hnul ⊢
    have hquery := executed_execQuery engine preq.wDb (hnul _ List.mem_cons_self)
    rcases hcases with ⟨_, hregister⟩ | ⟨_, _, hregister⟩
    · rw [hregister]
      exact ⟨_, List.prefix_append [_] _, hquery⟩
    · rw [hregister]
      refine ⟨_, List.prefix_refl _, ?_⟩
      have hinsert := executed_execQuery engine (preq.checkExists engine username).2.wDb
        (hnul _ (List.mem_cons_of_mem _ List.mem_cons_self))
      refine hinsert.trans ?_
      rw [checkExists, queryExists_snd, hquery, List.append_assoc]
      rfl

/-- The texts that a request executes are the first few of those of its type. -/
theorem handle_executed (hvalid : preq.ValidParams) {registered : Bool}
    {result : Bool × ParseRequest} (h : preq.handle engine sha1 registered = some result) :
    ∃ done, done <+: (rtMap preq.reqType).elim [] (builtTexts sha1 preq) ∧
      result.2.wDb.executed = preq.wDb.executed ++ done := by
  have hnone : ∃ done, done <+: ([] : List Str) ∧
      preq.wDb.executed = preq.wDb.executed ++ done :=
    ⟨[], List.prefix_refl _, (List.append_nil _).symm⟩
  have hlogin : ∃ done, done <+: builtTexts sha1 preq .login ∧
      (preq.login engine sha1).2.wDb.executed = preq.wDb.executed ++ done := by
    rcases login_executed engine hvalid with ⟨_, hexecuted⟩ | hexecuted
    · exact ⟨[], List.nil_prefix, hexecuted.trans (List.append_nil _).symm⟩
    · exact ⟨_, List.prefix_refl _, hexecuted⟩
  unfold handle at h
  split at h
  · -- a request of no type executes nothing
    next htype =>
      obtain rfl := Option.some.inj h
      rw [htype]
      exact hnone
  · next type htype =>
      obtain ⟨middle, hdispatch, rfl⟩ := Option.map_eq_some_iff.mp h
      rw [htype, noteStream_wDb]
      cases type with
      | adminLogin => exact adminLogin_executed engine hvalid hdispatch
      | anonymousConnect =>
          obtain rfl := Option.some.inj hdispatch
          unfold anonymousConnect
          split <;> exact hnone
      | disconnectLogin | login =>
          obtain rfl := Option.some.inj hdispatch
          exact hlogin
      | register =>
          obtain rfl := Option.some.inj hdispatch
          exact registerUser_executed engine hvalid registered

/-- The fixed tokens of the templates are complete, and no semicolons. -/
theorem templates_fixed (type : RequestType) : ∀ template ∈ templates type,
    ∀ token ∈ template.filterMap Slot.fixed?, token.Complete ∧ token ≠ .symbol ';' := by
  cases type <;> decide

/-- The tokens of an instance of a template are complete, and no semicolons. -/
theorem complete_of_instance (hvalid : preq.ValidParams) {type : RequestType}
    {template : List (Slot Field)} (htemplate : template ∈ templates type) :
    ∀ token ∈ instantiate (fieldValue sha1 preq) template,
      token.Complete ∧ token ≠ .symbol ';' := by
  refine forall_mem_instantiate (templates_fixed type template htemplate)
    fun field token hholds => ?_
  have hvalue := (@isValue_fieldValue sha1 _ hvalid field).not_mem
  cases hholds with
  | quoted mark =>
      refine ⟨?_, Token.noConfusion⟩
      cases mark with
      | single => exact hvalue.2.1
      | double => exact hvalue.1
  | number => exact ⟨trivial, Token.noConfusion⟩

/-- The texts of an accepted request are instances of the templates of its type. -/
theorem templated_of_handle (hvalid : preq.ValidParams) (hfirst : preq.wDb.executed = [])
    {registered : Bool} {result : Bool × ParseRequest}
    (h : preq.handle engine sha1 registered = some result) :
    Templated sha1 preq result.2.wDb.executed := by
  obtain ⟨texts, hdone, hexecuted⟩ := handle_executed engine hvalid h
  rw [hexecuted, hfirst, List.nil_append]
  cases htype : rtMap preq.reqType with
  | none =>
      rw [htype] at hdone
      obtain rfl := List.prefix_nil.mp hdone
      exact ⟨List.nil_prefix, by simp, by simp⟩
  | some type =>
      rw [htype, Option.elim_some] at hdone
      have hlex : texts.map lex <+: (templates type).map (instantiate (fieldValue sha1 preq)) :=
        lex_builtTexts hvalid type ▸ hdone.map lex
      have htokens : ∀ text ∈ texts, ∀ token ∈ lex text, token.Complete ∧ token ≠ .symbol ';' := by
        intro text htext
        obtain ⟨template, htemplate, hinstance⟩ :=
          List.mem_map.mp (hlex.subset (List.mem_map_of_mem htext))
        rw [← hinstance]
        exact complete_of_instance hvalid htemplate
      -- no token is cut off at its end, so that the plain lexer reads the same tokens
      have hplain : ∀ text ∈ texts, lexPlain text = lex text := fun text htext =>
        lexPlain_eq fun token htoken => (htokens text htext token htoken).1
      refine ⟨?_, fun text htext => ⟨?_, ?_⟩, fun text htext => (hplain text htext).symm⟩
      · rw [htype, List.map_congr_left hplain]
        exact hlex
      · rw [hplain text htext]
        exact fun hmem => (htokens text htext _ hmem).2 rfl
      · exact (parse_builtTexts hvalid (hdone.subset htext)).2

end Values

/-- Two instances of the templates of one type agree outside of the tokens that hold the values. -/
theorem Templated.agree {sha1 : Sha1} {preq preq' : ParseRequest} {texts texts' : List Str}
    (h : Templated sha1 preq texts) (h' : Templated sha1 preq' texts')
    (htype : rtMap preq.reqType = rtMap preq'.reqType) {i : Nat} {text text' : Str}
    (htext : texts[i]? = some text) (htext' : texts'[i]? = some text') :
    List.Forall₂ (Agree (fieldValue sha1 preq) (fieldValue sha1 preq')) (lexPlain text)
      (lexPlain text') := by
  have hinstance {preq : ParseRequest} {texts : List Str} {text : Str}
      (h : Templated sha1 preq texts) (htext : texts[i]? = some text) :
      ((rtMap preq.reqType).elim [] templates)[i]?.map (instantiate (fieldValue sha1 preq)) =
        some (lexPlain text) := by
    have hmap : (texts.map lexPlain)[i]? = some (lexPlain text) := by
      rw [List.getElem?_map, htext, Option.map_some]
    rw [← List.getElem?_map]
    obtain ⟨rest, hrest⟩ := h.instances
    rw [← hrest]
    rw [List.getElem?_append_left (List.getElem?_eq_some_iff.mp hmap).1, hmap]
  obtain ⟨template, htemplate, hlex⟩ := Option.map_eq_some_iff.mp (hinstance h htext)
  obtain ⟨template', htemplate', hlex'⟩ := Option.map_eq_some_iff.mp (hinstance h' htext')
  rw [← htype] at htemplate'
  obtain rfl := Option.some.inj (htemplate.symm.trans htemplate')
  rw [← hlex, ← hlex']
  exact agree_instantiate _ _ template

/-- A request cannot inject SQL: whatever two requests of one type the server accepts, the texts of
each are instances of the templates of the type, so that they agree token by token but for the
tokens that hold a username, a digest or an address. -/
theorem texts_agree (engine : Engine) (sha1 : Sha1) {server server' : Server}
    {ss ss' : SocketStream} {text text' : Str}
    {disconnectRequested disconnectRequested' registered registered' : Bool}
    {preq preq' : ParseRequest} {result result' : Bool × ParseRequest}
    (hpreq : server.parseRequest (.request ss text disconnectRequested registered) = some preq)
    (hpreq' : server'.parseRequest (.request ss' text' disconnectRequested' registered') =
      some preq')
    (htype : rtMap preq.reqType = rtMap preq'.reqType)
    (hresult : preq.handle engine sha1 registered = some result)
    (hresult' : preq'.handle engine sha1 registered' = some result') :
    Templated sha1 preq result.2.wDb.executed ∧
      ∀ (i : Nat) (query query' : Str), result.2.wDb.executed[i]? = some query →
        result'.2.wDb.executed[i]? = some query' →
        List.Forall₂ (Agree (fieldValue sha1 preq) (fieldValue sha1 preq')) (lexPlain query)
          (lexPlain query') := by
  obtain ⟨hvalid, _, hdb, _⟩ := Server.parseRequest_eq hpreq
  obtain ⟨hvalid', _, hdb', _⟩ := Server.parseRequest_eq hpreq'
  have htemplated := templated_of_handle engine hvalid (congrArg FlexDB.executed hdb) hresult
  have htemplated' := templated_of_handle engine hvalid' (congrArg FlexDB.executed hdb') hresult'
  exact ⟨htemplated, fun _ _ _ => htemplated.agree htemplated' htype⟩

/-- The registration of a name. -/
def registrationOf (name : String) : Action :=
  .request 0 ("[WHEESPA_REGISTER]::username=".toList ++ name.toList ++
    ":::password=secret1:::email=b@x.y:::".toList) false false

/-- The registrations of a name of letters and of one of digits execute two texts each, which agree
but for the values. -/
theorem texts_agree_registration : ∃ preq preq' result result',
    (Server.start newFile).parseRequest (registrationOf "bob") = some preq ∧
    (Server.start newFile).parseRequest (registrationOf "007") = some preq' ∧
    preq.handle .plain constantSha1 false = some result ∧
    preq'.handle .plain constantSha1 false = some result' ∧
    result.2.wDb.executed.length = 2 ∧ result'.2.wDb.executed.length = 2 ∧
    ∀ (i : Nat) (query query' : Str), result.2.wDb.executed[i]? = some query →
      result'.2.wDb.executed[i]? = some query' →
      List.Forall₂ (Agree (fieldValue constantSha1 preq) (fieldValue constantSha1 preq'))
        (lexPlain query) (lexPlain query') := by
  have htexts (name : String) (h : ((Server.start newFile).parseRequest (registrationOf name)).map
      (fun preq => (rtMap preq.reqType, (preq.handle .plain constantSha1 false).map
        fun result => result.2.wDb.executed.length)) = some (some .register, some 2)) :
      ∃ preq result, (Server.start newFile).parseRequest (registrationOf name) = some preq ∧
        rtMap preq.reqType = some .register ∧
        preq.handle .plain constantSha1 false = some result ∧
        result.2.wDb.executed.length = 2 := by
    obtain ⟨preq, hpreq, h⟩ := Option.map_eq_some_iff.mp h
    obtain ⟨htype, h⟩ := Prod.mk.inj h
    obtain ⟨result, hresult, hlength⟩ := Option.map_eq_some_iff.mp h
    exact ⟨preq, result, hpreq, htype, hresult, hlength⟩
  obtain ⟨preq, result, hpreq, htype, hresult, hlength⟩ := htexts "bob" (by decide +kernel)
  obtain ⟨preq', result', hpreq', htype', hresult', hlength'⟩ := htexts "007" (by decide +kernel)
  exact ⟨preq, preq', result, result', hpreq, hpreq', hresult, hresult', hlength, hlength',
    (texts_agree .plain constantSha1 hpreq hpreq' (htype.trans htype'.symm) hresult hresult').2⟩

end Wheespa
