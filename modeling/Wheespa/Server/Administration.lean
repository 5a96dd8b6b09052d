import Wheespa.PrepareDatabase
import Wheespa.Server.Origin

/-!
# Only administrators change accounts

The flag `is_admin` is set by `adminLogin`, copied into the tree and tested when a message arrives.
What is to hold in a run, whatever the messages contain and whatever the members that
`HandleReceived` leaves unassigned hold, is that a text that can alter the accounts is executed only
for a message of a node whose flag is true, and that the flag of a live node is true only where the
request that inserted it authenticated a name of `Administrators` (`OnlyAdministrators`).

A flag that is read from a root that has been deleted is whatever its memory holds by then.
`onlyAdministrators_iff_spares` is the main result: only administrators change accounts in a run,
whatever the memory of the root comes to hold, exactly if no message deletes the root.
-/

namespace Wheespa

open Sql Transition

/-- On some connection the text changes `Registered` or `Administrators`, or loses a row of
`PendingRegistrations`. -/
def CanAlter (engine : Engine) (text : Str) : Prop :=
  ∃ session : Session,
    (engine.exec session text).session.database.table? "Registered".toList ≠
        session.database.table? "Registered".toList ∨
      (engine.exec session text).session.database.table? "Administrators".toList ≠
        session.database.table? "Administrators".toList ∨
      ¬ (session.database.rows "PendingRegistrations".toList).Sublist
        ((engine.exec session text).session.database.rows "PendingRegistrations".toList)

/-- The request authenticated the name with its password. -/
structure Authenticated (engine : Engine) (sha1 : Sha1) (preq : ParseRequest) (k : Str) : Prop where
  user : preq.param "username".toList = some k
  password : ∃ password, preq.param "password".toList = some password ∧
    (preq.authenticate engine k (getOutput sha1 password)).1 = true

/-- The request is the login of an administrator that authenticated the name with its password and
found it in `Administrators`. -/
structure AdminAuthenticated (engine : Engine) (sha1 : Sha1) (preq : ParseRequest) (k : Str) :
    Prop extends Authenticated engine sha1 preq k where
  type : ParseRequest.rtMap preq.reqType = some .adminLogin
  found : (preq.queryExists engine (ParseRequest.administratorQuery k)).1 = true
  member : Prepared preq.wDb.database → k ∈ administrators preq.wDb.database

/-- Only administrators change accounts in a run. -/
structure OnlyAdministrators (engine : Engine) (sha1 : Sha1)
    (events : List (Event Recorded Recorded.Turn)) : Prop where
  executed : ∀ event ∈ Recorded.acts events,
    ∀ reaction ∈ event.before.server.react engine sha1 event.action,
    ∀ text ∈ reaction.executed, CanAlter engine text →
      ∃ path user, event.action.sender = some path ∧
        event.before.server.tree.node.get? path = some (user, false) ∧ user.isAdmin = true
  administrators : ∀ event ∈ events, ∀ path user,
    event.after.server.tree.node.get? path = some (user, false) → user.isAdmin = true →
      ∃ preq, event.after.origin path = some preq ∧ AdminAuthenticated engine sha1 preq user.key
  reused : ∀ event ∈ Recorded.acts events,
    ∀ reaction ∈ event.before.server.react engine sha1 event.action, ∀ conn ∈ reaction.inserted,
      event.after.server.tree.node.get? (event.before.server.tree.node.placeAt conn) =
        some (conn, false) ∧
      ∃ preq, event.before.server.parseRequest event.action = some preq ∧
        (conn.isAdmin = true → AdminAuthenticated engine sha1 preq conn.key) ∧
        (conn.registered = true → Authenticated engine sha1 preq conn.key)

variable {engine : Engine} {sha1 : Sha1}

/-- A harmless text cannot alter the accounts. -/
theorem not_canAlter {text : Str} (h : Harmless text) : ¬ CanAlter engine text := by
  rintro ⟨session, halter⟩
  obtain ⟨htables, hrows⟩ := exec_harmless engine h session
  rcases halter with hregistered | hadministrators | hpending
  · exact hregistered (htables _ (by decide))
  · exact hadministrators (htables _ (by decide))
  · exact hpending hrows.sublist

/-- A login that succeeds has authenticated its name. -/
theorem authenticated_of_login {preq : ParseRequest} {k : Str}
    (huser : preq.param "username".toList = some k) (hlogin : (preq.login engine sha1).1 = true) :
    Authenticated engine sha1 preq k := by
  obtain ⟨username, password, huser', hpassword, hauth, _⟩ := ParseRequest.login_of_true hlogin
  obtain rfl := Option.some.inj (huser.symm.trans huser')
  exact ⟨huser, password, hpassword, hauth⟩

/-- A connection that is granted as registered was authenticated. -/
theorem authenticated_of_grants {preq : ParseRequest} {conn : WheespaConnected}
    (h : preq.Grants engine sha1 conn) (hregistered : conn.registered = true) :
    Authenticated engine sha1 preq conn.key := by
  cases h with
  | login htype huser hlogin => exact authenticated_of_login huser hlogin
  | adminLogin htype huser hlogin hfound => exact authenticated_of_login huser hlogin
  | anonymousConnect => exact absurd hregistered Bool.false_ne_true

/-- A connection that is granted as an administrator was authenticated as one. -/
theorem adminAuthenticated_of_grants {preq : ParseRequest} {conn : WheespaConnected}
    (hvalid : preq.ValidParams) (h : preq.Grants engine sha1 conn) (hadmin : conn.isAdmin = true) :
    AdminAuthenticated engine sha1 preq conn.key := by
  cases h with
  | login => exact absurd hadmin Bool.false_ne_true
  | adminLogin htype huser hlogin hfound =>
      rw [ParseRequest.queryExists_login engine sha1 hvalid] at hfound
      exact ⟨authenticated_of_login huser hlogin, htype, hfound,
        fun hdb => (administrator_iff engine hdb (hvalid _ _ huser)).mp hfound⟩
  | anonymousConnect => exact absurd hadmin Bool.false_ne_true

/-- A text that can alter the accounts is executed only for a message of an administrator's node. -/
theorem sender_of_canAlter {server : Server} {action : Action} {reaction : Reaction} {text : Str}
    (h : server.react engine sha1 action = some reaction) (htext : text ∈ reaction.executed)
    (halter : CanAlter engine text) :
    ∃ path user, action.sender = some path ∧
      server.tree.node.get? path = some (user, false) ∧ user.isAdmin = true := by
  cases action with
  | request ss requestText disconnectRequested registered =>
      simp only [Server.react] at h
      split at h
      · obtain rfl := Option.some.inj h
        simp at htext
      · next preq hpreq =>
          obtain ⟨hvalid, hconn, hdb, _⟩ := Server.parseRequest_eq hpreq
          obtain ⟨_, after, hhandle, hexecuted, _⟩ := Server.handleRequest_cases hconn h
          -- the texts of a request are queries and one insertion, none of which can alter accounts
          obtain ⟨texts, hharmless, hafter, _⟩ :=
            ParseRequest.handle_executes engine sha1 hvalid hhandle
          rw [hexecuted, hafter, hdb] at htext
          exact absurd halter (not_canAlter (hharmless text htext))
  | message path recvd connType adminCmd memory time =>
      simp only [Server.react] at h
      split at h
      · next user huser =>
          refine ⟨path, user, rfl, huser, ?_⟩
          by_contra hadmin
          rw [(Server.handleMessage_executed h (Bool.eq_false_iff.mpr hadmin)).1] at htext
          simp at htext
      · simp at h
  | disconnect path =>
      simp only [Server.react] at h
      split at h
      · obtain rfl := Option.some.inj h
        simp at htext
      · simp at h

/-- In a run that spares the root only administrators change accounts. -/
theorem onlyAdministrators_of_spares {database : Database}
    {events : List (Event Recorded Recorded.Turn)} {finish : Recorded}
    (hrun : Run (Recorded.turn engine sha1) (Recorded.start database) events finish)
    (hspares : ∀ event ∈ events, event.before.Spares event.action) :
    OnlyAdministrators engine sha1 events := by
  obtain ⟨hsteps, _, hevents⟩ := Recorded.run_acts hrun rfl hspares
  constructor
  · intro event _ reaction hreact text htext halter
    exact sender_of_canAlter hreact htext halter
  · rw [hevents, List.forall_mem_map]
    intro event hevent path user huser hadmin
    obtain ⟨preq, horigin, hvalid, hgrants⟩ :=
      ((Recorded.granted_of_run hsteps).2 event hevent).2 path user false huser
    exact ⟨preq, horigin, adminAuthenticated_of_grants hvalid hgrants hadmin⟩
  · intro event hevent reaction hreact conn hinserted
    obtain ⟨reaction', hreact', hafter⟩ := Option.map_eq_some_iff.mp (hsteps.step_eq hevent)
    obtain rfl := Option.some.inj (hreact.symm.trans hreact')
    rcases Server.react_tree hreact with ⟨preq, conn', hpreq, hgrants, _, hinserted', htree⟩ |
      ⟨hnone, _⟩
    · obtain rfl := Option.some.inj (hinserted.symm.trans hinserted')
      refine ⟨?_, preq, hpreq,
        adminAuthenticated_of_grants (Server.parseRequest_eq hpreq).1 hgrants,
        authenticated_of_grants hgrants⟩
      rw [← hafter, htree, Node.get?_place, if_pos rfl]
    · rw [hnone] at hinserted
      simp at hinserted

/-- A name that the request recorded for the root does not have. -/
def Recorded.foreignName (recorded : Recorded) : Str :=
  ' ' :: ((recorded.origin []).bind fun preq => preq.param "username".toList).getD []

/-- An administrator of that name at the root was not authenticated. -/
theorem not_adminAuthenticated_foreignName {recorded : Recorded} {preq : ParseRequest}
    (horigin : recorded.origin [] = some preq) :
    ¬ AdminAuthenticated engine sha1 preq recorded.foreignName := by
  intro h
  have huser := h.user
  rw [Recorded.foreignName, horigin, Option.bind_some] at huser
  cases hname : preq.param "username".toList with
  | none =>
      rw [hname] at huser
      exact absurd huser (by simp)
  | some name =>
      rw [hname] at huser
      exact List.cons_ne_self _ _ (Option.some.inj huser).symm

/-- Once the root has been deleted, its memory can come to hold an administrator whom no request has
authenticated. -/
theorem exists_reuse {recorded : Recorded} (hdeleted : recorded.server.rootDeleted = true)
    (engine : Engine) (sha1 : Sha1) :
    ∃ node after, recorded.turn engine sha1 (.reuse node) = some after ∧
      ∀ events, ¬ OnlyAdministrators engine sha1 (events ++ [⟨recorded, .reuse node, after⟩]) := by
  refine ⟨.new ⟨recorded.foreignName, none, true, true, []⟩, _, if_pos hdeleted,
    fun events h => ?_⟩
  obtain ⟨preq, horigin, hauth⟩ := h.administrators _
    (List.mem_append_right _ (List.mem_singleton_self _)) [] _ rfl rfl
  exact not_adminAuthenticated_foreignName horigin hauth

/-- Only administrators change accounts in a run, whatever the memory of a deleted root then comes
to hold, exactly if no message of the run is handled as the LIST_ONLINE of a registered user. -/
theorem onlyAdministrators_iff_spares {database : Database}
    {events : List (Event Recorded Recorded.Turn)} {finish : Recorded}
    (hrun : Run (Recorded.turn engine sha1) (Recorded.start database) events finish) :
    (∀ rest last, Run (Recorded.turn engine sha1) finish rest last →
      (∀ event ∈ rest, ∃ node, event.action = .reuse node) →
        OnlyAdministrators engine sha1 (events ++ rest)) ↔
      ∀ event ∈ events, event.before.Spares event.action := by
  constructor
  · intro h event hevent
    by_contra hdeletes
    have hdeleted := Recorded.rootDeleted_of_run hrun hevent hdeletes
    obtain ⟨node, after, hreuse, hnot⟩ := exists_reuse hdeleted engine sha1
    refine hnot events (h _ after (.single hreuse) ?_)
    rw [List.forall_mem_singleton]
    exact ⟨node, rfl⟩
  · intro hspares rest last hrest hreuse
    refine onlyAdministrators_of_spares (hrun.append hrest) ?_
    rw [List.forall_mem_append]
    refine ⟨hspares, fun event hevent => ?_⟩
    obtain ⟨node, hnode⟩ := hreuse event hevent
    rw [hnode]
    trivial

/-- The default administrator logs in, a user registers, and the administrator accepts. -/
def administratorSession : List Action :=
  [.request 1 "[WHEESPA_ADMIN_LOGIN]::username=wAdministrator:::password=wh33spaAdm1n:::".toList
      false false,
    .request 2 "[WHEESPA_REGISTER]::username=bob:::password=secret1:::email=b@x.y:::".toList
      false false,
    .message [] "WHEESPA_ADMINISTRATE::ACCEPT_REGISTRATION:::x::::1".toList none none
      (fun _ => []) 0]

/-- A run with an administrator. -/
theorem onlyAdministrators_session : ∃ events finish,
    Run (Recorded.turn .plain constantSha1)
      (Recorded.start (prepareDatabase .plain constantSha1 newFile).database) events finish ∧
    events.map Event.action = administratorSession.map .act ∧
    OnlyAdministrators .plain constantSha1 events := by
  obtain ⟨events, finish, hrun, hactions, hspares⟩ := Run.exists_of_trace
    (Recorded.turn .plain constantSha1)
    (Recorded.start (prepareDatabase .plain constantSha1 newFile).database)
    (administratorSession.map .act) (fun event => event.before.Spares event.action)
    (by rw [database_prepareDatabase]; decide +kernel)
  have honly := (onlyAdministrators_iff_spares hrun).mpr hspares [] finish .refl (by simp)
  rw [List.append_nil] at honly
  exact ⟨events, finish, hrun, hactions, honly⟩

/-- A user who is an administrator without having logged in. -/
def impostor : WheespaConnected :=
  ⟨"mallory".toList, some 9, true, true, []⟩

/-- The default administrator logs in as a registered user and asks who is online, and the memory
of the root comes to hold the impostor. -/
def reusedRootSession : List Recorded.Turn :=
  [.act (.request 1 "[WHEESPA_LOGIN]::username=wAdministrator:::password=wh33spaAdm1n:::".toList
      false false),
    .act (.message [] "WHEESPA_LIST_ONLINE::x:::x::::1".toList none none (fun _ => []) 0),
    .reuse (.new impostor)]

/-- After the root has been reused, it holds the impostor, whom no request has authenticated. -/
def showsImpostor (event : Event Recorded Recorded.Turn) : Bool :=
  match event.action with
  | .reuse _ => event.after.server.tree.node.get? [] == some (impostor, false) &&
      ((event.after.origin []).bind fun preq => preq.param "username".toList) !=
        some impostor.key
  | .act _ => true

/-- In that session a live node is that of an administrator who was not authenticated. -/
theorem reused_root_administrator : ∃ events finish,
    Run (Recorded.turn .plain constantSha1)
      (Recorded.start (prepareDatabase .plain constantSha1 newFile).database) events finish ∧
    events.map Event.action = reusedRootSession ∧
    ¬ OnlyAdministrators .plain constantSha1 events := by
  obtain ⟨events, finish, hrun, hactions, hshows⟩ := Run.exists_of_trace
    (Recorded.turn .plain constantSha1)
    (Recorded.start (prepareDatabase .plain constantSha1 newFile).database) reusedRootSession
    (fun event => showsImpostor event = true) (by rw [database_prepareDatabase]; decide +kernel)
  refine ⟨events, finish, hrun, hactions, fun h => ?_⟩
  have hreuse : .reuse (.new impostor) ∈ events.map Event.action := by
    rw [hactions]
    simp [reusedRootSession]
  obtain ⟨event, hevent, haction⟩ := List.mem_map.mp hreuse
  have hshown := hshows event hevent
  simp only [showsImpostor, haction, Bool.and_eq_true, beq_iff_eq, bne_iff_ne] at hshown
  obtain ⟨preq, horigin, hauth⟩ := h.administrators event hevent [] impostor hshown.1 rfl
  rw [horigin] at hshown
  exact hshown.2 hauth.user

end Wheespa
