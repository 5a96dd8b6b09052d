import Wheespa.PrepareDatabase
import Wheespa.RequestFormat
import Wheespa.WheespaServer

/-!
# Removing a user

A request that succeeds under a key that is online removes the user there if `disconnect_requested`
holds. `disconnectLogin` is the only method that assigns this member, and the constructor does not.
`keepsOthers_iff` says for which values of the member, and for which requests, only a disconnect
request that authenticates a user removes that user.
-/

namespace Wheespa

open Sql

variable {engine : Engine} {sha1 : Sha1}

/-- The name of the request is `k`, and its password is long enough and authenticates `k`. -/
structure Credentials (engine : Engine) (sha1 : Sha1) (preq : ParseRequest) (k : Str) : Prop where
  user : preq.param "username".toList = some k
  password : ∃ password, preq.param "password".toList = some password ∧ 6 ≤ password.length ∧
    (preq.authenticate engine k (getOutput sha1 password)).1 = true

/-- The request is for a connection under `k`, is no disconnect request, and gives what its type
requires. -/
inductive Connects (engine : Engine) (sha1 : Sha1) (preq : ParseRequest) (k : Str) : Prop where
  | login (htype : ParseRequest.rtMap preq.reqType = some .login)
      (hcredentials : Credentials engine sha1 preq k)
  | adminLogin (htype : ParseRequest.rtMap preq.reqType = some .adminLogin)
      (hcredentials : Credentials engine sha1 preq k)
      (hfound : (preq.queryExists engine (ParseRequest.administratorQuery k)).1 = true)
  | anonymousConnect (htype : ParseRequest.rtMap preq.reqType = some .anonymousConnect)
      (halias : preq.param "alias".toList = some k)
      (hconnectTo : (preq.param "connectto".toList).isSome)

/-- The request is a disconnect request that authenticates `k`. -/
structure Disconnects (engine : Engine) (sha1 : Sha1) (preq : ParseRequest) (k : Str) : Prop where
  type : ParseRequest.rtMap preq.reqType = some .disconnectLogin
  credentials : Credentials engine sha1 preq k

/-- A step leaves every live user in place, but for one that the request of the step authenticates
and asks to disconnect. -/
def KeepsOthers (engine : Engine) (sha1 : Sha1) (server : Server) (action : Action) : Prop :=
  ∀ reaction ∈ server.react engine sha1 action, ∀ path user,
    server.tree.node.get? path = some (user, false) →
      reaction.server.tree.node.get? path = some (user, false) ∨
        ∃ preq, server.parseRequest action = some preq ∧ Disconnects engine sha1 preq user.key

/-- A login succeeds under a name exactly when the request has the credentials of that name. -/
theorem credentials_iff {preq : ParseRequest} {k : Str} :
    Credentials engine sha1 preq k ↔
      preq.param "username".toList = some k ∧ (preq.login engine sha1).1 = true := by
  constructor
  · rintro ⟨huser, password, hpassword, hlength, hauth⟩
    refine ⟨huser, ?_⟩
    have hlong : ¬ password.length < 6 := by omega
    simp only [ParseRequest.login, huser, hpassword, hlong, if_false]
    exact hauth
  · rintro ⟨huser, hlogin⟩
    obtain ⟨username, password, huser', hpassword, hauth, _⟩ := ParseRequest.login_of_true hlogin
    obtain rfl := Option.some.inj (huser.symm.trans huser')
    refine ⟨huser, password, hpassword, ?_, hauth⟩
    by_contra hshort
    have hlength : password.length < 6 := by omega
    simp only [ParseRequest.login, huser, hpassword, hlength, if_true] at hlogin
    exact Bool.false_ne_true hlogin

/-- A request that gives what its type requires can be granted a connection. -/
theorem grants_of_connects {preq : ParseRequest} (hvalid : preq.ValidParams) {k : Str}
    (h : Connects engine sha1 preq k) : ∃ conn, preq.Grants engine sha1 conn ∧ conn.key = k := by
  cases h with
  | login htype hcredentials =>
      obtain ⟨huser, hlogin⟩ := credentials_iff.mp hcredentials
      exact ⟨_, .login (.inl htype) huser hlogin, rfl⟩
  | adminLogin htype hcredentials hfound =>
      obtain ⟨huser, hlogin⟩ := credentials_iff.mp hcredentials
      exact ⟨_, .adminLogin htype huser hlogin
        ((preq.queryExists_login engine sha1 hvalid _).trans hfound), rfl⟩
  | anonymousConnect htype halias hconnectTo =>
      obtain ⟨connectTo, hconnectTo⟩ := Option.isSome_iff_exists.mp hconnectTo
      exact ⟨_, .anonymousConnect htype halias hconnectTo, rfl⟩

/-- A disconnect request can be granted a connection under the name that it authenticates. -/
theorem Disconnects.grants {preq : ParseRequest} {k : Str} (h : Disconnects engine sha1 preq k) :
    preq.Grants engine sha1 ⟨k, some preq.ss, false, true, []⟩ := by
  obtain ⟨huser, hlogin⟩ := credentials_iff.mp h.credentials
  exact .login (.inr h.type) huser hlogin

/-- A request that can be granted a connection asks for it or is a disconnect request. -/
theorem connects_or_disconnects {preq : ParseRequest} (hvalid : preq.ValidParams)
    {conn : WheespaConnected} (h : preq.Grants engine sha1 conn) :
    Connects engine sha1 preq conn.key ∨ Disconnects engine sha1 preq conn.key := by
  cases h with
  | login htype huser hlogin =>
      have hcredentials := credentials_iff.mpr ⟨huser, hlogin⟩
      exact htype.imp (.login · hcredentials) (⟨·, hcredentials⟩)
  | adminLogin htype huser hlogin hfound =>
      exact .inl (.adminLogin htype (credentials_iff.mpr ⟨huser, hlogin⟩)
        ((preq.queryExists_login engine sha1 hvalid _).symm.trans hfound))
  | anonymousConnect htype halias hconnectTo =>
      exact .inl (.anonymousConnect htype halias (by rw [hconnectTo]; rfl))

/-- A request for a connection is no disconnect request. -/
theorem Connects.type_ne {preq : ParseRequest} {k : Str} (h : Connects engine sha1 preq k) :
    ParseRequest.rtMap preq.reqType ≠ some .disconnectLogin := by
  cases h with
  | login htype | adminLogin htype | anonymousConnect htype =>
      rw [htype]
      decide

/-- Flagging the node of a key leaves the live nodes of the other keys as they are. -/
theorem get?_markOverwrite_of_ne {tree : WheespaServerTree} {k : Str} {path other : Path}
    {user : WheespaConnected} (hlive : tree.node.get? path = some (user, false))
    (hfind : tree.find k = some other) (hne : user.key ≠ k) :
    (tree.markOverwrite other).node.get? path = some (user, false) := by
  obtain ⟨data, hdata, hkey⟩ := Node.get?_of_find hfind
  have hother : path ≠ other := by
    rintro rfl
    obtain rfl : user = data := by
      rw [hlive] at hdata
      simpa using hdata
    exact hne hkey
  rw [BinarySearchTree.node_markOverwrite, Node.get?_setOverwrite, if_neg hother, hlive]

/-- A request under a key that is online, where `disconnect_requested` holds, flags the node of that
key. -/
theorem handleRequest_removes {server : Server} {preq : ParseRequest} {registered : Bool}
    {after : ParseRequest} (hhandle : preq.handle engine sha1 registered = some (true, after))
    (hstream : after.conn.sockStream.isSome) {path : Path}
    (hfind : server.tree.find after.conn.key = some path)
    (hdisconnect : after.disconnectRequested = true) :
    ∃ reaction, server.handleRequest engine sha1 preq registered = some reaction ∧
      reaction.server.tree = server.tree.markOverwrite path := by
  have hvacant : Server.vacant ⟨server.tree, after.wDb.database, after.anonymousCount,
      server.rootDeleted⟩ after.conn.key = false := by
    rw [Bool.eq_false_iff]
    intro h
    rw [Server.vacant_iff.mp h] at hfind
    simp at hfind
  simp only [Server.handleRequest, hhandle, Bool.true_and, hstream, hvacant, if_true,
    Bool.false_eq_true, if_false, hdisconnect]
  refine ⟨_, rfl, ?_⟩
  simp only [BinarySearchTree.remove, hfind]

/-- The request removes the user of the key, where one is online: it is a disconnect request that
authenticates the key, or it connects under the key where `disconnect_requested` held from the
start. -/
def Removes (engine : Engine) (sha1 : Sha1) (preq : ParseRequest) (k : Str) : Prop :=
  Disconnects engine sha1 preq k ∨
    (preq.disconnectRequested = true ∧ Connects engine sha1 preq k)

/-- A request that removes a user is granted a connection, with `disconnect_requested` holding. -/
theorem Removes.handle {preq : ParseRequest} {k : Str} (hvalid : preq.ValidParams)
    (hconn : preq.conn = .new) (h : Removes engine sha1 preq k) (registered : Bool) :
    ∃ after, preq.handle engine sha1 registered = some (true, after) ∧ after.conn.key = k ∧
      after.conn.sockStream.isSome ∧ after.disconnectRequested = true := by
  rcases h with hdisconnects | ⟨hflag, hconnects⟩
  · have hlogin := (credentials_iff.mp hdisconnects.credentials).2
    obtain ⟨after, hhandle, hafter⟩ :=
      ParseRequest.handle_of_grants hconn hdisconnects.grants registered
    have hdispatch : preq.dispatch engine sha1 registered .disconnectLogin =
        some (true, (preq.disconnectLogin engine sha1).2) := by
      have hret : (preq.disconnectLogin engine sha1).1 = true := hlogin
      rw [ParseRequest.dispatch, ← hret]
    obtain rfl := (Prod.mk.inj (Option.some.inj (hhandle.symm.trans
      (ParseRequest.handle_of_dispatch hdisconnects.type (by decide) hdispatch)))).2
    refine ⟨_, hhandle, by rw [hafter], by rw [hafter]; rfl, ?_⟩
    exact hlogin
  · obtain ⟨conn, hgrants, rfl⟩ := grants_of_connects hvalid hconnects
    obtain ⟨after, hhandle, rfl⟩ := ParseRequest.handle_of_grants hconn hgrants registered
    refine ⟨after, hhandle, rfl, ?_, ?_⟩
    · rw [hgrants.sockStream_eq]
      rfl
    · exact (ParseRequest.handle_disconnectRequested hconnects.type_ne hhandle).trans hflag

/-- A request for a connection under a key that is online, constructed where `disconnect_requested`
holds, flags the node of that key. -/
theorem react_removes {server : Server} {ss : SocketStream} {text : Str} {registered : Bool}
    {preq : ParseRequest} {k : Str} {path : Path}
    (hpreq : server.parseRequest (.request ss text true registered) = some preq)
    (hconnects : Connects engine sha1 preq k) (hfind : server.tree.find k = some path) :
    ∃ reaction, server.react engine sha1 (.request ss text true registered) = some reaction ∧
      reaction.server.tree = server.tree.markOverwrite path := by
  obtain ⟨hvalid, hconn, _⟩ := Server.parseRequest_eq hpreq
  have hremoves : Removes engine sha1 preq k :=
    .inr ⟨(Server.parseRequest_request hpreq).2, hconnects⟩
  obtain ⟨after, hhandle, rfl, hstream, hdisconnect⟩ := hremoves.handle hvalid hconn registered
  obtain ⟨reaction, hreaction, htree⟩ := handleRequest_removes hhandle hstream hfind hdisconnect
  refine ⟨reaction, ?_, htree⟩
  simp only [Server.react, hpreq, hreaction]

/-- What a request does to the tree: it inserts the connection that it is granted, or it removes a
user who is online, or it changes nothing. -/
theorem handleRequest_tree {server : Server} {preq : ParseRequest} {registered : Bool}
    {reaction : Reaction} (hvalid : preq.ValidParams) (hconn : preq.conn = .new)
    (h : server.handleRequest engine sha1 preq registered = some reaction) :
    (∃ conn, preq.Grants engine sha1 conn ∧ server.tree.find conn.key = none ∧
      reaction.inserted = some conn ∧
      reaction.server.tree = { server.tree with node := server.tree.node.place conn }) ∨
    (reaction.inserted = none ∧ (reaction.server.tree = server.tree ∨
      ∃ k path, Removes engine sha1 preq k ∧ server.tree.find k = some path ∧
        reaction.server.tree = server.tree.markOverwrite path)) := by
  obtain ⟨handledProperly, after, hhandle, _, _, ⟨hgrants, hfind, hinserted, htree⟩ |
    ⟨hinserted, htree | ⟨hgrants, rfl, hdisconnect, htree⟩⟩⟩ :=
      Server.handleRequest_cases hconn h
  · exact .inl ⟨after.conn, hgrants, hfind, hinserted, htree⟩
  · exact .inr ⟨hinserted, .inl htree⟩
  · refine .inr ⟨hinserted, ?_⟩
    cases hfind : server.tree.find after.conn.key with
    | none =>
        left
        rw [htree]
        simp only [BinarySearchTree.remove, hfind]
    | some path =>
        right
        refine ⟨after.conn.key, path, ?_, hfind, ?_⟩
        · rcases connects_or_disconnects hvalid hgrants with hconnects | hdisconnects
          · -- no other method has assigned the member, so that it held from the start
            have hflag :=
              ParseRequest.handle_disconnectRequested hconnects.type_ne hhandle
            exact .inr ⟨hflag.symm.trans hdisconnect, hconnects⟩
          · exact .inl hdisconnects
        · rw [htree]
          simp only [BinarySearchTree.remove, hfind]

/-- A request leaves a live user in place unless it is a disconnect request that authenticates the
user, where no request for a connection under a key that is online was constructed with
`disconnect_requested` holding. -/
theorem react_keeps {server : Server} {ss : SocketStream} {text : Str}
    {disconnectRequested registered : Bool} {reaction : Reaction}
    (hcond : disconnectRequested = true → ∀ preq k,
      server.parseRequest (.request ss text disconnectRequested registered) = some preq →
      Connects engine sha1 preq k → server.tree.find k = none)
    (hreact : server.react engine sha1
      (.request ss text disconnectRequested registered) = some reaction)
    {path : Path} {user : WheespaConnected}
    (hlive : server.tree.node.get? path = some (user, false)) :
    reaction.server.tree.node.get? path = some (user, false) ∨
      ∃ preq, server.parseRequest (.request ss text disconnectRequested registered) = some preq ∧
        Disconnects engine sha1 preq user.key := by
  simp only [Server.react] at hreact
  split at hreact
  · obtain rfl := Option.some.inj hreact
    exact .inl hlive
  · next preq hpreq =>
      obtain ⟨hvalid, hconn, _⟩ := Server.parseRequest_eq hpreq
      rcases handleRequest_tree hvalid hconn hreact with ⟨conn, _, _, _, htree⟩ |
        ⟨_, htree | ⟨k, other, hremoves, hfind, htree⟩⟩
      · rw [htree]
        exact .inl (Node.get?_place_of_live hlive conn)
      · rw [htree]
        exact .inl hlive
      · by_cases hkey : user.key = k
        · subst hkey
          rcases hremoves with hdisconnects | ⟨hflag, hconnects⟩
          · exact .inr ⟨preq, hpreq, hdisconnects⟩
          · have hnone :=
              hcond ((Server.parseRequest_request hpreq).2.symm.trans hflag) preq _ hpreq hconnects
            exact absurd (hnone.symm.trans hfind) (Option.some_ne_none _).symm
        · rw [htree]
          exact .inl (get?_markOverwrite_of_ne hlive hfind hkey)

/-- Only a disconnect request that authenticates a user removes that user, exactly where
`disconnect_requested` did not hold from the start, or the request is for no connection under a key
that is online. -/
theorem keepsOthers_iff (engine : Engine) (sha1 : Sha1) (server : Server) (ss : SocketStream)
    (text : Str) (disconnectRequested registered : Bool) :
    KeepsOthers engine sha1 server (.request ss text disconnectRequested registered) ↔
      (disconnectRequested = true → ∀ preq k,
        server.parseRequest (.request ss text disconnectRequested registered) = some preq →
        Connects engine sha1 preq k → server.tree.find k = none) := by
  constructor
  · rintro hkeeps rfl preq k hpreq hconnects
    rw [Option.eq_none_iff_forall_ne_some]
    intro path hfind
    obtain ⟨user, hlive, hkey⟩ := Node.get?_of_find hfind
    obtain ⟨reaction, hreact, htree⟩ := react_removes hpreq hconnects hfind
    rcases hkeeps reaction hreact path user hlive with hkept | ⟨preq', hpreq', hdisconnects⟩
    · rw [htree, BinarySearchTree.node_markOverwrite, Node.get?_setOverwrite, if_pos rfl,
        hlive] at hkept
      simp at hkept
    · obtain rfl := Option.some.inj (hpreq.symm.trans hpreq')
      exact hconnects.type_ne hdisconnects.type
  · intro hcond reaction hreact path user hlive
    exact react_keeps hcond hreact hlive

/-- A server with one user. -/
def aliceServer : Server :=
  ⟨⟨.new ⟨"alice".toList, some 0, false, true, []⟩, []⟩, newFile, 0, false⟩

/-- A request for an anonymous connection under the name of that user, constructed where
`disconnect_requested` happens to hold. -/
def aliasAlice : Action :=
  .request 1 "[WHEESPA_ANONYMOUS]::alias=alice:::connectto=bob:::".toList true false

/-- The anonymous request removes the user. -/
theorem not_keepsOthers_alias : ¬ KeepsOthers .plain constantSha1 aliceServer aliasAlice := by
  have hflagged : (aliceServer.react .plain constantSha1 aliasAlice).map
      (fun reaction => (reaction.server.tree.node.get? []).map Prod.snd) = some (some true) := by
    decide +kernel
  have htype : (aliceServer.parseRequest aliasAlice).map
      (fun preq => ParseRequest.rtMap preq.reqType) = some (some .anonymousConnect) := by
    decide +kernel
  intro hkeeps
  obtain ⟨reaction, hreact, hget⟩ := Option.map_eq_some_iff.mp hflagged
  rcases hkeeps reaction hreact [] _ rfl with hkept | ⟨preq, hpreq, hdisconnects⟩
  · rw [hkept] at hget
    exact absurd hget (by decide)
  · rw [hpreq, Option.map_some, hdisconnects.type] at htype
    exact absurd htype (by decide)

end Wheespa
