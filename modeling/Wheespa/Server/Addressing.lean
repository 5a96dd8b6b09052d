import Wheespa.RequestGrammar
import Wheespa.Server.MessageFormat
import Wheespa.WheespaServer

/-!
# Who can be addressed

A user connects under any value that a request can carry (`canConnect_iff`). The expression of
`HandleReceived` has a class of its own for the recipient of a message, which has fewer characters.
`addressable_iff` says which users a message can be addressed to.
-/

namespace Wheespa

open Sql

/-- Some request puts a connection under the key in the tree. -/
def CanConnect (k : Str) : Prop :=
  ∃ (engine : Engine) (sha1 : Sha1) (server : Server) (action : Action) (reaction : Reaction)
    (conn : WheespaConnected), server.react engine sha1 action = some reaction ∧
    reaction.inserted = some conn ∧ conn.key = k

/-- The constructor splits some text into an internal message of the body to the key, which
`handleInternal` of a registered sender delivers to the key. -/
def Addressable (k b : Str) : Prop :=
  ∃ text, ∀ (user : WheespaConnected) file connType adminCmd, user.sockStream.isSome →
    ∃ self groups, HandleReceived.new text user file connType adminCmd = some self ∧
      self.result = some groups ∧ groups 1 = some "WHEESPA_INTERNAL".toList ∧
      groups 2 = some k ∧ groups 3 = some b ∧
      (user.registered = true →
        ∀ tree time, self.handleInternal tree time = self.deliver tree time k b)

/-! ## Keys -/

/-- What the constructor makes of a type and parameters. -/
theorem parseRequest_render {reqType : Str} {parameters : List Parameter} (hne : reqType ≠ [])
    (hchars : ∀ c ∈ reqType, isTypeChar c = true) (hleast : 2 ≤ parameters.length)
    (hmost : parameters.length ≤ 4) (server : Server) (ss : SocketStream)
    (disconnectRequested registered : Bool) :
    server.parseRequest (.request ss ("[".toList ++ reqType ++ "]::".toList ++
        parameters.flatMap Parameter.render) disconnectRequested registered) =
      some (.new ss reqType (parameters.flatMap Parameter.render) sharedRex server.database
        server.anonymousCount disconnectRequested) := by
  obtain ⟨groups, hmatch, htype, hparameters⟩ := fullMatch_request hne hchars hleast hmost
  rw [Server.parseRequest, hmatch, Option.map_some, htype, hparameters]
  rfl

/-- A parameter of a request is one of the grammar. -/
theorem exists_parameter {server : Server} {action : Action} {preq : ParseRequest}
    (hpreq : server.parseRequest action = some preq) {name value : Str}
    (hvalue : preq.param name = some value) : value ≠ [] ∧ IsValue value := by
  cases action with
  | request ss text disconnectRequested registered =>
      obtain ⟨groups, hmatch, rfl⟩ := Option.map_eq_some_iff.mp hpreq
      obtain ⟨_, parameters, _, _, _, rfl⟩ := matches_rex.mp (Regex.fullMatch_sound hmatch)
      have hparams : ParseRequest.params sharedRex (parameters.flatMap Parameter.render) name =
          some value := by
        simpa [ParseRequest.new] using hvalue
      rw [Parameter.params_render] at hparams
      obtain ⟨parameter, _, rfl⟩ := Option.map_eq_some_iff.mp hparams
      exact ⟨parameter.value_ne_nil, parameter.value_chars⟩
  | message | disconnect => simp [Server.parseRequest] at hpreq

/-- The key of a connection that a request is granted is one of its parameters. -/
theorem param_of_grants {engine : Engine} {sha1 : Sha1} {preq : ParseRequest}
    {conn : WheespaConnected} (h : preq.Grants engine sha1 conn) :
    ∃ name, preq.param name = some conn.key := by
  cases h with
  | login _ huser => exact ⟨_, huser⟩
  | adminLogin _ huser => exact ⟨_, huser⟩
  | anonymousConnect _ halias => exact ⟨_, halias⟩

/-- The parameters of an anonymous request. -/
def anonymousParameters (k : Str) (hne : k ≠ []) (hk : IsValue k) : List Parameter :=
  [⟨"alias".toList, k, by decide, List.all_eq_true.mp (by decide), hne, hk⟩,
    ⟨"connectto".toList, k, by decide, List.all_eq_true.mp (by decide), hne, hk⟩]

/-- A connection is put in the tree under every text that a request can carry, and under no
other. -/
theorem canConnect_iff {k : Str} : CanConnect k ↔ k ≠ [] ∧ IsValue k := by
  constructor
  · rintro ⟨engine, sha1, server, action, reaction, conn, hreact, hinserted, rfl⟩
    rcases Server.react_tree hreact with ⟨preq, conn', hpreq, hgrants, _, hinserted', _⟩ |
      ⟨hnone, _⟩
    · obtain rfl := Option.some.inj (hinserted.symm.trans hinserted')
      obtain ⟨name, hparam⟩ := param_of_grants hgrants
      exact exists_parameter hpreq hparam
    · rw [hinserted] at hnone
      exact absurd hnone (by simp)
  · rintro ⟨hne, hk⟩
    -- an anonymous request under the key, to a server without users
    let server := Server.start fun _ => none
    let preq : ParseRequest := .new 0 "WHEESPA_ANONYMOUS".toList
      ((anonymousParameters k hne hk).flatMap Parameter.render) sharedRex (fun _ => none) 0 false
    have hpreq := @parseRequest_render "WHEESPA_ANONYMOUS".toList (anonymousParameters k hne hk)
      (by decide) (List.all_eq_true.mp (by decide)) (Nat.le_refl 2) (Nat.le_add_right 2 2) server
      0 false false
    have htype : ParseRequest.rtMap "WHEESPA_ANONYMOUS".toList = some .anonymousConnect := by decide
    have halias : preq.param "alias".toList = some k :=
      (Parameter.params_render (anonymousParameters k hne hk) _).trans rfl
    have hconnectTo : preq.param "connectto".toList = some k :=
      (Parameter.params_render (anonymousParameters k hne hk) _).trans rfl
    have hgrants : preq.Grants .plain constantSha1 ⟨k, some 0, false, false, k⟩ :=
      .anonymousConnect htype halias hconnectTo
    obtain ⟨after, hhandle, hafter⟩ := ParseRequest.handle_of_grants rfl hgrants false
    have hstream : after.conn.sockStream.isSome := by
      rw [hafter]
      rfl
    have hreact := @Server.handleRequest_of_find _ _ server _ _ _ hhandle hstream rfl
    exact ⟨_, _, _, _, _, _, (Server.react_request hpreq).trans hreact, rfl, by rw [hafter]⟩

/-! ## Messages -/

/-- The recipient of a message is made of the characters of its class. -/
theorem isRecipientChar_of_fullMatch {text k : Str} {groups : Regex.Groups Char}
    (hmatch : messageRegex.fullMatch text = some groups) (hk : groups 2 = some k) :
    ∀ c ∈ k, isRecipientChar c = true := by
  have hmatches := Regex.fullMatch_sound hmatch
  simp only [messageRegex, Regex.matches_seq, Regex.matches_capture, Regex.matches_plus,
    Regex.matches_star, Regex.matches_text] at hmatches
  obtain ⟨_, _, _, rfl, ⟨_, _, rfl⟩, _, _, _, rfl, ⟨_, rfl⟩, r, _, _, rfl, ⟨_, ⟨hr, rfl⟩, rfl⟩,
    _, _, _, rfl, ⟨_, rfl⟩, _, _, _, rfl, ⟨_, ⟨_, rfl⟩, rfl⟩, _, _, _, rfl, ⟨_, rfl⟩, _,
    ⟨_, _, rfl⟩, rfl⟩ := hmatches
  obtain rfl : r = k := by simpa using hk
  exact hr

/-- A recipient with a body without colons is split off as it was put in. -/
theorem addressable_of_chars {k b : Str} (hne : k ≠ [])
    (hk : ∀ c ∈ k, (c.isAlphanum || c == '.' || c == '_') = true)
    (hb : ∀ c ∈ b, c ≠ ':' ∧ isBodyChar c = true) : Addressable k b := by
  have hseparable : Separable b := by
    constructor
    · intro hhead
      obtain ⟨rest, rfl⟩ := List.head?_eq_some_iff.mp hhead
      exact (hb ':' (List.mem_cons_self ..)).1 rfl
    · intro z _ hprefix
      have hmem : ':' ∈ b := hprefix.subset (by simp)
      exact (hb ':' hmem).1 rfl
  obtain ⟨groups, hmatch, htype, hrecipient, hbody, _⟩ := (fullMatch_parts_iff
    ⟨"WHEESPA_INTERNAL".toList, by decide, List.all_eq_true.mp (by decide)⟩ ⟨k, hne, hk⟩
    ⟨b, fun c hc => (hb c hc).2⟩ ⟨"1".toList, List.all_eq_true.mp (by decide)⟩).mpr
      ⟨hseparable, by decide⟩
  refine ⟨_, fun user file connType adminCmd _ => ⟨_, groups,
    HandleReceived.new_of_internal hmatch htype user file connType adminCmd, rfl, htype,
    hrecipient, hbody, fun _ tree time => ?_⟩⟩
  rw [HandleReceived.handleInternal_eq, HandleReceived.group, HandleReceived.group,
    Option.bind_some, Option.bind_some, hrecipient, hbody]
  rfl

/-- A user who is online can be addressed exactly if the name is made of letters, digits, dots and
underscores. -/
theorem addressable_iff {k b : Str} (hkey : CanConnect k)
    (hb : ∀ c ∈ b, c ≠ ':' ∧ isBodyChar c = true) :
    Addressable k b ↔ ∀ c ∈ k, (c.isAlphanum || c == '.' || c == '_') = true := by
  obtain ⟨hne, hvalue⟩ := canConnect_iff.mp hkey
  constructor
  · rintro ⟨text, h⟩ c hc
    obtain ⟨self, groups, hnew, hresult, _, hk, _⟩ :=
      h { WheespaConnected.new with sockStream := some 0 } (fun _ => none) none none rfl
    have hchar := isRecipientChar_of_fullMatch
      ((HandleReceived.new_eq hnew).1.symm.trans hresult) hk c hc
    -- a colon is in the class of a recipient, but in no value
    have hcolon : c ≠ ':' := by
      rintro rfl
      exact absurd (hvalue ':' hc) (by decide)
    simpa [isRecipientChar, hcolon] using hchar
  · intro hk
    exact addressable_of_chars hne hk hb

/-- A user with a dot in the name can be addressed. -/
theorem addressable_dot : Addressable "a.b".toList "hi".toList := by
  have hconnect : CanConnect "a.b".toList := canConnect_iff.mpr ⟨by decide, by decide⟩
  have hbody : ∀ c ∈ "hi".toList, c ≠ ':' ∧ isBodyChar c = true := by simp [isBodyChar]
  exact (addressable_iff hconnect hbody).mpr (List.all_eq_true.mp (by decide))

/-- A user connects as `a@b`, and no message is addressed to that name. -/
theorem not_addressable_at : CanConnect "a@b".toList ∧ ¬ Addressable "a@b".toList "hi".toList := by
  have hconnect : CanConnect "a@b".toList := canConnect_iff.mpr ⟨by decide, by decide⟩
  refine ⟨hconnect, fun ⟨text, h⟩ => ?_⟩
  obtain ⟨self, groups, hnew, hresult, _, hk, _⟩ :=
    h { WheespaConnected.new with sockStream := some 0 } (fun _ => none) none none rfl
  have hchar := isRecipientChar_of_fullMatch ((HandleReceived.new_eq hnew).1.symm.trans hresult) hk
    '@' (by decide)
  exact absurd hchar (by decide)

end Wheespa
