import Wheespa.Server.Registration

/-!
# Nobody is impersonated

Messages are attributed to the key of a node. A login sets it to the name that it authenticated, and
an anonymous connection sets it to the alias that it asked for: the numbered name that
`anonymousConnect` builds is not used. `noImpersonation_iff` is the main result: in every run of
requests and disconnections, the entries with the name of a registered user are those of logins and
no two anonymous connections get one key exactly when no anonymous request asks for an alias that
was given before, or for the name of a registered user who is not found in the tree.
-/

namespace Wheespa

open Sql Transition

/-- The alias that an anonymous request with all of its parameters asks for. -/
def ParseRequest.requestsAlias (self : ParseRequest) : Option Str :=
  if rtMap self.reqType = some .anonymousConnect ∧ (self.param "connectto".toList).isSome then
    self.param "alias".toList
  else none

/-- The request is a login, of one of the three kinds, and succeeded for the name. -/
structure LoggedIn (engine : Engine) (sha1 : Sha1) (preq : ParseRequest) (k : Str) : Prop where
  type : ParseRequest.rtMap preq.reqType = some .login ∨
    ParseRequest.rtMap preq.reqType = some .disconnectLogin ∨
    ParseRequest.rtMap preq.reqType = some .adminLogin
  user : preq.param "username".toList = some k
  login : (preq.login engine sha1).1 = true

/-- The live entries with the name of a registered user were inserted by a login of that name, and
the keys of anonymous connections differ. -/
structure NoImpersonation (engine : Engine) (sha1 : Sha1) (recorded : Recorded) : Prop where
  loggedIn : ∀ path conn, recorded.server.tree.node.get? path = some (conn, false) →
    conn.key ∈ users recorded.server.database "Registered" →
      ∃ preq, recorded.origin path = some preq ∧ LoggedIn engine sha1 preq conn.key
  distinct : recorded.keys.Nodup

/-- An anonymous request asks for an alias that was not given before, and not for the name of a
registered user who is not found in the tree. -/
def OwnAlias (recorded : Recorded) (action : Action) : Prop :=
  ∀ preq ∈ recorded.server.parseRequest action, ∀ k ∈ preq.requestsAlias,
    k ∉ recorded.keys ∧ (recorded.server.tree.find k = none →
      k ∉ users recorded.server.database "Registered")

instance (recorded : Recorded) (action : Action) : Decidable (OwnAlias recorded action) :=
  inferInstanceAs (Decidable (∀ preq ∈ recorded.server.parseRequest action,
    ∀ k ∈ preq.requestsAlias, _ ∧ (_ → _)))

/-- A recorded step of a connection: a request or a disconnection. -/
def Recorded.connectionStep (engine : Engine) (sha1 : Sha1) (recorded : Recorded)
    (action : Action) : Option Recorded :=
  if action.sender = none then recorded.step engine sha1 action else none

variable {engine : Engine} {sha1 : Sha1}

/-- The key of an anonymous connection is the alias that it asks for. -/
theorem anonymousKey_eq (preq : ParseRequest) : anonymousKey preq = preq.requestsAlias := by
  unfold anonymousKey ParseRequest.requestsAlias ParseRequest.anonymousConnect
  by_cases htype : ParseRequest.rtMap preq.reqType = some .anonymousConnect
  · cases halias : preq.param "alias".toList <;>
      cases hconnectTo : preq.param "connectto".toList <;>
      simp only [htype, true_and, Option.isSome_none, Option.isSome_some, Bool.false_eq_true,
        if_true, if_false]
  · simp only [htype, false_and, if_false]

/-- An anonymous request with all of its parameters succeeds, with its alias for a key. -/
theorem handle_of_requestsAlias {preq : ParseRequest} {k : Str} (h : preq.requestsAlias = some k)
    (registered : Bool) :
    ∃ after, preq.handle engine sha1 registered = some (true, after) ∧
      after.conn.sockStream.isSome ∧ after.conn.key = k := by
  unfold ParseRequest.requestsAlias at h
  split at h
  · next hanonymous =>
      obtain ⟨htype, hsome⟩ := hanonymous
      obtain ⟨connectTo, hconnectTo⟩ := Option.isSome_iff_exists.mp hsome
      simp only [ParseRequest.handle, htype, ParseRequest.dispatch, ParseRequest.anonymousConnect,
        h, hconnectTo]
      exact ⟨_, rfl, rfl, rfl⟩
  · simp at h

/-- An anonymous request asks for an alias, and is not a login. -/
theorem not_loggedIn_of_requestsAlias {preq : ParseRequest} {k name : Str}
    (h : preq.requestsAlias = some k) : ¬ LoggedIn engine sha1 preq name := by
  unfold ParseRequest.requestsAlias at h
  split at h
  · next hanonymous =>
      rintro ⟨htype, _, _⟩
      rw [hanonymous.1] at htype
      simp at htype
  · simp at h

/-- A granted connection is that of a login, or has the alias of an anonymous request for a key. -/
theorem loggedIn_or_requestsAlias {preq : ParseRequest} {conn : WheespaConnected}
    (h : preq.Grants engine sha1 conn) :
    LoggedIn engine sha1 preq conn.key ∨ preq.requestsAlias = some conn.key := by
  cases h with
  | login htype huser hlogin => exact .inl ⟨htype.imp_right .inl, huser, hlogin⟩
  | adminLogin htype huser hlogin _ => exact .inl ⟨.inr (.inr htype), huser, hlogin⟩
  | anonymousConnect htype halias hconnectTo =>
      refine .inr ?_
      rw [ParseRequest.requestsAlias, if_pos ⟨htype, by rw [hconnectTo, Option.isSome_some]⟩,
        halias]

/-- A step without a message leaves `Registered` as it was. -/
theorem users_registered_step {before after : Recorded} {action : Action}
    (hstep : before.step engine sha1 action = some after) (hsender : action.sender = none) :
    users after.server.database "Registered" = users before.server.database "Registered" := by
  obtain ⟨reaction, hreact, rfl⟩ := Option.map_eq_some_iff.mp hstep
  show users reaction.server.database "Registered" = _
  rcases Server.react_database hreact hsender with hsame | ⟨preq, registered, hpreq, _, hafter⟩
  · rw [hsame]
  · obtain ⟨hvalid, _, hdb, _⟩ := Server.parseRequest_eq hpreq
    have hexecutes := ParseRequest.registerUser_executes engine sha1 hvalid registered
    have htable := hexecutes.table?_eq (show fold "Registered".toList ≠ _ by decide)
    rw [hafter, users, users, accounts, accounts, htable, hdb]
    rfl

/-- The keys given by a step. -/
theorem keys_step {before after : Recorded} {action : Action}
    (hstep : before.step engine sha1 action = some after) :
    after.keys = before.keys ++
      ((before.server.parseRequest action).bind ParseRequest.requestsAlias).toList := by
  obtain ⟨_, _, rfl⟩ := Option.map_eq_some_iff.mp hstep
  rw [← funext anonymousKey_eq]

/-- An alias that `find` does not find gets into the tree. -/
theorem placed_of_requestsAlias {before after : Recorded} {action : Action} {preq : ParseRequest}
    {k : Str} (hstep : before.step engine sha1 action = some after)
    (hpreq : before.server.parseRequest action = some preq) (halias : preq.requestsAlias = some k)
    (hfind : before.server.tree.find k = none) :
    ∃ path conn, after.server.tree.node.get? path = some (conn, false) ∧ conn.key = k ∧
      after.origin path = some preq := by
  obtain ⟨reaction, hreact, rfl⟩ := Option.map_eq_some_iff.mp hstep
  cases action with
  | request ss text disconnectRequested registered =>
      obtain ⟨after, hhandle, hstream, rfl⟩ :=
        @handle_of_requestsAlias engine sha1 _ _ halias registered
      have hrequest := hreact
      simp only [Server.react, hpreq] at hrequest
      have hinserted := Server.handleRequest_inserted hhandle hstream hfind hrequest
      refine ⟨before.server.tree.node.placeAt after.conn, after.conn, ?_, rfl, ?_⟩
      · rcases Server.react_tree hreact with ⟨_, conn, _, _, _, hconn, htree⟩ | ⟨hnone, _⟩
        · obtain rfl := Option.some.inj (hinserted.symm.trans hconn)
          show reaction.server.tree.node.get? _ = _
          rw [htree, Node.get?_place, if_pos rfl]
        · simp [hinserted] at hnone
      · simp only [hinserted, Function.update_self, hpreq]
  | message | disconnect => simp [Server.parseRequest] at hpreq

/-- The keys stay different exactly when an anonymous request asks for an alias that was not given.
-/
theorem nodup_keys_step {before after : Recorded} {action : Action}
    (hstep : before.step engine sha1 action = some after) (h : before.keys.Nodup) :
    after.keys.Nodup ↔ ∀ preq ∈ before.server.parseRequest action, ∀ k ∈ preq.requestsAlias,
      k ∉ before.keys := by
  rw [keys_step hstep]
  cases before.server.parseRequest action with
  | none => simpa using h
  | some preq =>
      cases halias : preq.requestsAlias with
      | none => simpa [halias] using h
      | some k =>
          simp only [Option.bind_some, halias, Option.toList_some, Option.mem_def,
            Option.some.injEq, forall_eq']
          rw [← List.concat_eq_append, List.nodup_concat, and_iff_left h]

/-- After a step in which an anonymous request asks for an alias of its own, the entries with the
name of a registered user are those of logins. -/
theorem loggedIn_step {before after : Recorded} {action : Action}
    (h : NoImpersonation engine sha1 before) (hstep : before.step engine sha1 action = some after)
    (hsender : action.sender = none) (hown : OwnAlias before action) {path : Path}
    {conn : WheespaConnected} (hget : after.server.tree.node.get? path = some (conn, false))
    (hregistered : conn.key ∈ users after.server.database "Registered") :
    ∃ preq, after.origin path = some preq ∧ LoggedIn engine sha1 preq conn.key := by
  rw [users_registered_step hstep hsender] at hregistered
  rcases Recorded.get?_step hstep hget with ⟨preq, hpreq, _, hgrants, hfind, horigin⟩ |
    ⟨overwrite', hbefore, hlive, horigin⟩
  · refine ⟨preq, horigin, ?_⟩
    rcases loggedIn_or_requestsAlias hgrants with hlogin | halias
    · exact hlogin
    · exact absurd hregistered ((hown preq hpreq _ halias).2 hfind)
  · rw [horigin]
    rw [hlive rfl] at hbefore
    exact h.loggedIn path conn hbefore hregistered

/-- From a state without impersonation, a step leads to another one exactly when an anonymous
request asks for an alias of its own. -/
theorem NoImpersonation.step_iff {before after : Recorded} {action : Action}
    (h : NoImpersonation engine sha1 before) (hstep : before.step engine sha1 action = some after)
    (hsender : action.sender = none) :
    NoImpersonation engine sha1 after ↔ OwnAlias before action := by
  constructor
  · intro hafter preq hpreq k halias
    refine ⟨(nodup_keys_step hstep h.distinct).mp hafter.distinct preq hpreq k halias, ?_⟩
    intro hfind hregistered
    obtain ⟨path, conn, hget, rfl, horigin⟩ := placed_of_requestsAlias hstep hpreq halias hfind
    rw [← users_registered_step hstep hsender] at hregistered
    obtain ⟨preq', horigin', hlogin⟩ := hafter.loggedIn path conn hget hregistered
    obtain rfl := Option.some.inj (horigin.symm.trans horigin')
    exact not_loggedIn_of_requestsAlias halias hlogin
  · intro hown
    refine ⟨fun path conn => loggedIn_step h hstep hsender hown, ?_⟩
    exact (nodup_keys_step hstep h.distinct).mpr fun preq hpreq k halias =>
      (hown preq hpreq k halias).1

/-- A start has no entry. -/
theorem noImpersonation_start (database : Database) :
    NoImpersonation engine sha1 (.start database) := by
  refine ⟨fun path conn hget => ?_, List.nodup_nil⟩
  cases path <;> simp [Recorded.start, Server.start, BinarySearchTree.empty] at hget

/-- In every run of requests and disconnections, nobody is impersonated and no two anonymous
connections are given one key exactly when each anonymous request asks for an alias of its own. -/
theorem noImpersonation_iff {database : Database} {events : List (Event Recorded Action)}
    {finish : Recorded}
    (hrun : Run (Recorded.connectionStep engine sha1) (.start database) events finish) :
    (∀ event ∈ events, NoImpersonation engine sha1 event.after) ↔
      ∀ event ∈ events, OwnAlias event.before event.action := by
  apply hrun.goal_iff (NoImpersonation engine sha1) (noImpersonation_start database)
  · intro before action after hstep hbefore
    obtain ⟨hsender, hstep⟩ := Option.ite_none_right_eq_some.mp hstep
    exact hbefore.step_iff hstep hsender
  · exact fun _ _ _ _ _ hafter => hafter

/-- The request of an anonymous connection with an alias. -/
def anonymousRequest (name : String) : Action :=
  .request 1 ("[WHEESPA_ANONYMOUS]::alias=".toList ++ name.toList ++
    ":::connectto=wAdministrator:::".toList) false false

/-- The request of the default administrator to log in. -/
def administratorLogin : Action :=
  .request 1 "[WHEESPA_LOGIN]::username=wAdministrator:::password=wh33spaAdm1n:::".toList
    false false

/-- The default administrator logs in, and an anonymous connection takes a free name. -/
theorem noImpersonation_own_alias : ∃ events finish,
    Run (Recorded.connectionStep .plain constantSha1) newServer events finish ∧
    events.map Event.action = [administratorLogin, anonymousRequest "ann"] ∧
    ∀ event ∈ events, NoImpersonation .plain constantSha1 event.after := by
  obtain ⟨events, finish, hrun, hactions, hown⟩ := Run.exists_of_trace
    (Recorded.connectionStep .plain constantSha1) newServer
    [administratorLogin, anonymousRequest "ann"]
    (fun event => OwnAlias event.before event.action) (by rw [newServer_eq]; decide +kernel)
  exact ⟨events, finish, hrun, hactions, (noImpersonation_iff hrun).mpr hown⟩

/-- An anonymous connection can take the name of the default administrator while the administrator
is not online, and two anonymous connections that ask for one alias are given one key. -/
theorem anonymous_impersonates :
    (∃ finish, Run (Recorded.connectionStep .plain constantSha1) newServer
        [⟨newServer, anonymousRequest "wAdministrator", finish⟩] finish ∧
      finish.server.tree.node.live.map WheespaConnected.key = ["wAdministrator".toList] ∧
      ¬ NoImpersonation .plain constantSha1 finish) ∧
    ([anonymousRequest "ann", anonymousRequest "ann"].foldlM
      (Recorded.connectionStep .plain constantSha1) newServer).map Recorded.keys =
        some ["ann".toList, "ann".toList] := by
  have hlive : (newServer.connectionStep .plain constantSha1
      (anonymousRequest "wAdministrator")).map (fun finish =>
        finish.server.tree.node.live.map WheespaConnected.key) =
      some ["wAdministrator".toList] := by
    rw [newServer_eq]
    decide +kernel
  have hown : ¬ OwnAlias newServer (anonymousRequest "wAdministrator") := by
    rw [newServer_eq]
    decide +kernel
  obtain ⟨finish, hstep, hlive⟩ := Option.map_eq_some_iff.mp hlive
  refine ⟨⟨finish, .single hstep, hlive, fun h => hown ?_⟩, by rw [newServer_eq]; decide +kernel⟩
  obtain ⟨hsender, hstep⟩ := Option.ite_none_right_eq_some.mp hstep
  exact ((noImpersonation_start _).step_iff hstep hsender).mp h

end Wheespa
