import Wheespa.Library.Transition
import Wheespa.Server.Replies

/-!
# Who closes a connection

The server with the connections that it has accepted: the accept loop, the handlers, and the service
loop, which closes a connection where a read from it throws. A connection is named by the number of
the `accept` that gave its descriptor. A tree whose root has been deleted holds none.
`owned_iff_kept` is the main result: each connection without a handler is held by a live node of the
tree or closed, and not both, exactly as long as no handshake fails, every `shutdown` of a handler
that ends gives 1, no handler removes a user who is online, and no message deletes the root of the
tree.
-/

namespace Wheespa

open Sql Transition ParseRequest

/-- Where a handler is: in its loop, with its two variables, or past it. -/
inductive HandlerStage where
  | looping (retries : Nat) (handledProperly : Bool)
  | leaving

/-- The handler goes on to the `shutdown`. -/
def HandlerStage.ends : HandlerStage → Bool
  | .looping retries handledProperly => handledProperly || !(retries < 3)
  | .leaving => true

/-- The server, the number of connections accepted, the handlers at work and the connections that
have been closed. -/
structure Connections where
  server : Server
  accepted : Nat
  handlers : SocketStream → Option HandlerStage
  closed : List SocketStream

/-- The node that the service loop visits. -/
def Action.visited : Action → Option Path
  | .message path .. | .disconnect path => some path
  | .request .. => none

namespace Connections

/-- A connection is accepted, with a handshake that succeeds or fails; a handler makes an attempt;
it ends with a value of `shutdown`; or the service loop visits a node. -/
inductive Action where
  | accept (handshake : Bool)
  | attempt (ss : SocketStream) (env : Attempt)
  | finish (ss : SocketStream) (shutdown : Int)
  | visit (action : Wheespa.Action)

/-- A server that has accepted no connection. -/
def start (database : Database) : Connections :=
  ⟨.start database, 0, fun _ => none, []⟩

/-- One step. What other threads do before a read returns are steps of their own. -/
def step (engine : Engine) (sha1 : Sha1) (state : Connections) : Action → Option Connections
  | .accept handshake =>
      -- where the handshake fails, the loop goes on without the descriptor
      let handlers := if handshake then
        Function.update state.handlers state.accepted (some (.looping 0 false)) else state.handlers
      some { state with accepted := state.accepted + 1, handlers }
  | .attempt ss env =>
      match state.handlers ss with
      | some (.looping retries false) =>
          if retries < 3 then do
            -- the flag that is written at the end does not matter here
            let self : ConnectionHandler := ⟨ss, ss, state.server, retries + 1, false, []⟩
            let (self, control) ← self.attempt engine sha1 { env with others := id }
            let stage := match control with
              | .again => some (.looping self.retries self.handledProperly)
              | .thrown => some .leaving
              | .returned => none
            some { state with
              server := self.server
              handlers := Function.update state.handlers ss stage }
          else none
      | _ => none
  | .finish ss shutdown =>
      if (state.handlers ss).any HandlerStage.ends then
        let closed := if shutdown = 1 then state.closed ++ [ss] else state.closed
        some { state with handlers := Function.update state.handlers ss none, closed }
      else none
  | .visit action => do
      let path ← action.visited
      let (user, _) ← state.server.tree.node.get? path
      let reaction ← state.server.react engine sha1 action
      -- an exception is caught where the stream is closed and the node is flagged
      let caught := (reaction.server.tree.node.get? path).any Prod.snd
      let closed := if caught then state.closed ++ user.sockStream.toList else state.closed
      some { state with server := reaction.server, closed }

/-- A live node of the tree holds the connection. Where the root has been deleted, the nodes are
reached through memory that is free. -/
def Held (state : Connections) (ss : SocketStream) : Prop :=
  state.server.rootDeleted = false ∧
    ∃ user ∈ state.server.tree.node.live, user.sockStream = some ss

/-- Each connection that was accepted and has no handler is held by a live node or closed, and not
both. -/
def Owned (state : Connections) : Prop :=
  ∀ ss < state.accepted, state.handlers ss = none →
    (state.Held ss ∧ ss ∉ state.closed) ∨ (¬ state.Held ss ∧ ss ∈ state.closed)

/-- The handshake of a connection that is accepted succeeds; a request does not remove a user who is
online; the `shutdown` of a handler that ends gives 1; and a message is not handled as the
LIST_ONLINE of a registered user. -/
def Kept (engine : Engine) (sha1 : Sha1) (state : Connections) : Action → Prop
  | .accept handshake => handshake = true
  | .attempt ss env => env.opens = true → ∀ request preq k, env.read = some request →
      state.server.parseRequest (.request ss request env.disconnectRequested env.registered) =
        some preq →
      Removes engine sha1 preq k → state.server.tree.find k = none
  | .finish _ shutdown => shutdown = 1
  | .visit action => state.server.deletesRoot action = false

/-- What an owned state relies on: the root has not been deleted, each live node holds a connection
of its own, which has no handler, and what has a handler is not closed. -/
structure Sound (state : Connections) : Prop where
  intact : state.server.rootDeleted = false
  owned : state.Owned
  streams : ∀ user ∈ state.server.tree.node.live, ∃ ss < state.accepted,
    user.sockStream = some ss ∧ state.handlers ss = none
  nodup : (state.server.tree.node.live.map WheespaConnected.sockStream).Nodup
  handled : ∀ ss, state.handlers ss ≠ none → ss < state.accepted ∧ ss ∉ state.closed
  closed : ∀ ss ∈ state.closed, ss < state.accepted

variable {engine : Engine} {sha1 : Sha1}

/-- Nothing has been accepted. -/
theorem sound_start (database : Database) : (start database).Sound where
  intact := rfl
  owned := by simp [Owned, start]
  streams := by simp [start, Server.start, BinarySearchTree.empty]
  nodup := by simp [start, Server.start, BinarySearchTree.empty]
  handled := by simp [start]
  closed := by simp [start]

/-- A connection with a handler is not held. -/
theorem Sound.not_held {state : Connections} (h : state.Sound) {ss : SocketStream}
    (hhandled : state.handlers ss ≠ none) : ¬ state.Held ss := by
  rintro ⟨_, user, hmem, hstream⟩
  obtain ⟨ss', _, hstream', hnone⟩ := h.streams user hmem
  obtain rfl := Option.some.inj (hstream.symm.trans hstream')
  exact hhandled hnone

/-- Flagging a live node takes its connection, and no other, out of what is held. -/
theorem held_mark {state : Connections} (h : state.Sound) {path : Path}
    {user : WheespaConnected} (hlive : state.server.tree.node.get? path = some (user, false)) :
    ∃ ss, user.sockStream = some ss ∧ ss < state.accepted ∧ state.handlers ss = none ∧
      ss ∉ state.closed ∧
      ∀ other, (∃ user ∈ (state.server.tree.node.setOverwrite path).live,
        user.sockStream = some other) ↔ state.Held other ∧ other ≠ ss := by
  have hperm := Node.live_setOverwrite hlive
  have hmem : user ∈ state.server.tree.node.live := Node.mem_live.mpr ⟨path, hlive⟩
  obtain ⟨ss, hlt, hstream, hnone⟩ := h.streams user hmem
  have hnodup := (hperm.map WheespaConnected.sockStream).nodup_iff.mp h.nodup
  rw [List.map_cons, List.nodup_cons] at hnodup
  have hheld : state.Held ss := ⟨h.intact, user, hmem, hstream⟩
  refine ⟨ss, hstream, hlt, hnone, ?_, fun other => ?_⟩
  · rcases h.owned ss hlt hnone with ⟨_, hopen⟩ | ⟨hnot, _⟩
    · exact hopen
    · exact absurd hheld hnot
  · constructor
    · rintro ⟨user', hmem', hstream'⟩
      refine ⟨⟨h.intact, user', hperm.mem_iff.mpr (List.mem_cons_of_mem _ hmem'), hstream'⟩, ?_⟩
      rintro rfl
      refine hnodup.1 ?_
      rw [hstream, ← hstream']
      exact List.mem_map_of_mem hmem'
    · rintro ⟨⟨_, user', hmem', hstream'⟩, hne⟩
      rcases List.mem_cons.mp (hperm.mem_iff.mp hmem') with rfl | hrest
      · exact absurd (Option.some.inj (hstream'.symm.trans hstream)) hne
      · exact ⟨user', hrest, hstream'⟩

/-! ## The accept loop and the end of a handler -/

/-- A connection whose handshake succeeds gets a handler. -/
theorem Sound.accept {before after : Connections} (h : before.Sound)
    (hstep : step engine sha1 before (.accept true) = some after) : after.Sound := by
  obtain rfl := Option.some.inj hstep
  have hne {ss : SocketStream} (hlt : ss < before.accepted) : ss ≠ before.accepted := hlt.ne
  refine ⟨h.intact, fun ss hlt hnone => ?_, fun user hmem => ?_, h.nodup, fun ss hhandled => ?_,
    fun ss hmem => Nat.lt_succ_of_lt (h.closed ss hmem)⟩
  · rcases Nat.lt_succ_iff_lt_or_eq.mp hlt with hold | rfl
    · simp only [if_true, Function.update_of_ne (hne hold)] at hnone
      exact h.owned ss hold hnone
    · simp at hnone
  · obtain ⟨ss, hlt, hstream, hnone⟩ := h.streams user hmem
    refine ⟨ss, Nat.lt_succ_of_lt hlt, hstream, ?_⟩
    simpa only [if_true, Function.update_of_ne (hne hlt)] using hnone
  · by_cases heq : ss = before.accepted
    · subst heq
      exact ⟨Nat.lt_succ_self _, fun hmem => lt_irrefl _ (h.closed _ hmem)⟩
    · simp only [if_true, Function.update_of_ne heq] at hhandled
      exact (h.handled ss hhandled).imp_left Nat.lt_succ_of_lt

/-- A connection whose handshake fails is neither held nor closed. -/
theorem Sound.accept_failed {before after : Connections} (h : before.Sound)
    (hstep : step engine sha1 before (.accept false) = some after) : ¬ after.Owned := by
  obtain rfl := Option.some.inj hstep
  intro howned
  have hnone : before.handlers before.accepted = none := by
    by_contra hhandled
    exact lt_irrefl _ (h.handled _ hhandled).1
  rcases howned before.accepted (Nat.lt_succ_self _) hnone with ⟨⟨_, user, hmem, hstream⟩, _⟩ |
    ⟨_, hclosed⟩
  · obtain ⟨ss, hlt, hstream', _⟩ := h.streams user hmem
    obtain rfl := Option.some.inj (hstream.symm.trans hstream')
    exact lt_irrefl _ hlt
  · exact lt_irrefl _ (h.closed _ hclosed)

/-- A handler that ends closes its connection where `shutdown` gives 1. -/
theorem Sound.finish {before after : Connections} (h : before.Sound) {ss : SocketStream}
    (hstep : step engine sha1 before (.finish ss 1) = some after) : after.Sound := by
  simp only [step, if_true] at hstep
  split at hstep
  · next hends =>
      obtain rfl := Option.some.inj hstep
      have hhandled : before.handlers ss ≠ none := by
        rintro hnone
        simp [hnone] at hends
      refine ⟨h.intact, fun other hlt hnone => ?_, fun user hmem => ?_, h.nodup,
        fun other hother => ?_, fun other hmem => ?_⟩
      · by_cases heq : other = ss
        · subst heq
          exact .inr ⟨h.not_held hhandled, List.mem_append_right _ (List.mem_singleton.mpr rfl)⟩
        · simp only [Function.update_of_ne heq] at hnone
          simpa [heq, Held] using h.owned other hlt hnone
      · obtain ⟨other, hlt, hstream, hnone⟩ := h.streams user hmem
        refine ⟨other, hlt, hstream, ?_⟩
        by_cases heq : other = ss
        · simp [heq]
        · simpa [heq] using hnone
      · by_cases heq : other = ss
        · simp [heq] at hother
        · simp only [Function.update_of_ne heq] at hother
          simpa [heq] using h.handled other hother
      · rcases List.mem_append.mp hmem with hold | hlast
        · exact h.closed other hold
        · obtain rfl := List.mem_singleton.mp hlast
          exact (h.handled _ hhandled).1
  · simp at hstep

/-- A handler that ends leaves its connection open where `shutdown` gives another value. -/
theorem Sound.finish_open {before after : Connections} (h : before.Sound) {ss : SocketStream}
    {shutdown : Int} (hshutdown : shutdown ≠ 1)
    (hstep : step engine sha1 before (.finish ss shutdown) = some after) : ¬ after.Owned := by
  simp only [step, hshutdown, if_false] at hstep
  split at hstep
  · next hends =>
      obtain rfl := Option.some.inj hstep
      have hhandled : before.handlers ss ≠ none := by
        rintro hnone
        simp [hnone] at hends
      intro howned
      rcases howned ss (h.handled ss hhandled).1 (Function.update_self ..) with ⟨hheld, _⟩ |
        ⟨_, hclosed⟩
      · exact h.not_held hhandled hheld
      · exact (h.handled ss hhandled).2 hclosed
  · simp at hstep

/-! ## Attempts -/

/-- What an attempt leaves in the tree: the connection of the handler, which returns then, or the
same, but for a user who is removed. It deletes no node. -/
theorem attempt_tree {server : Server} {ss : SocketStream} {retries : Nat} {env : Attempt}
    {self' : ConnectionHandler} {control : Control}
    (h : (⟨ss, ss, server, retries, false, []⟩ : ConnectionHandler).attempt engine sha1
      { env with others := id } = some (self', control)) :
    self'.server.rootDeleted = server.rootDeleted ∧
    ((control = .returned ∧ ∃ conn : WheespaConnected, conn.sockStream = some ss ∧
      self'.server.tree.node = server.tree.node.place conn) ∨
    (control ≠ .returned ∧ (self'.server.tree = server.tree ∨
      env.opens = true ∧ ∃ request preq k path, env.read = some request ∧
        server.parseRequest (.request ss request env.disconnectRequested env.registered) =
          some preq ∧ Removes engine sha1 preq k ∧ server.tree.find k = some path))) := by
  by_cases hparsed : env.opens = true ∧ ∃ preq, ConnectionHandler.parsed
      ⟨ss, ss, server, retries, false, []⟩ { env with others := id } = some preq
  · obtain ⟨hopens, preq, hparsed⟩ := hparsed
    obtain ⟨self'', control', reaction, hattempt, hreaction, hserver, hinserted, _⟩ :=
      @ConnectionHandler.attempt_parsed engine sha1 ⟨ss, ss, server, retries, false, []⟩
        { env with others := id } preq hopens hparsed rfl
    obtain ⟨rfl, rfl⟩ := Prod.mk.inj (Option.some.inj (h.symm.trans hattempt))
    have hreturned := ConnectionHandler.returned_iff h (List.nil_append _).symm
    rw [hinserted] at hreturned
    obtain ⟨request, hread, hpreq⟩ := Option.bind_eq_some_iff.mp hparsed
    obtain ⟨hvalid, hconn, _⟩ := Server.parseRequest_eq hpreq
    refine ⟨by rw [hserver, Server.handleRequest_rootDeleted hreaction]; rfl, ?_⟩
    rcases handleRequest_tree hvalid hconn hreaction with ⟨conn, hgrants, _, hsome, htree⟩ |
      ⟨hnone, htree⟩
    · left
      refine ⟨hreturned.mpr (by simp [hsome]), conn, ?_, by rw [hserver, htree]; rfl⟩
      rw [hgrants.sockStream_eq, (Server.parseRequest_request hpreq).1]
    · right
      refine ⟨fun heq => hreturned.mp heq (by simp [hnone]), ?_⟩
      rcases htree with hsame | ⟨k, path, hremoves, hfind, _⟩
      · exact .inl (by rw [hserver, hsame]; rfl)
      · exact .inr ⟨hopens, request, preq, k, path, hread, hpreq, hremoves, hfind⟩
  · have hnone : env.opens = true → ConnectionHandler.parsed
        ⟨ss, ss, server, retries, false, []⟩ { env with others := id } = none := by
      intro hopens
      rw [Option.eq_none_iff_forall_ne_some]
      exact fun preq hpreq => hparsed ⟨hopens, preq, hpreq⟩
    obtain ⟨self'', control', hattempt, hcontrol, hserver, -⟩ :=
      @ConnectionHandler.attempt_silent engine sha1 _ { env with others := id } hnone
    obtain ⟨rfl, rfl⟩ := Prod.mk.inj (Option.some.inj (h.symm.trans hattempt))
    exact ⟨by rw [hserver]; rfl, .inr ⟨hcontrol, .inl (by rw [hserver]; rfl)⟩⟩

/-- An attempt that is not kept flags a live node. -/
theorem attempt_flags {state : Connections} {ss : SocketStream} {retries : Nat} {env : Attempt}
    {self' : ConnectionHandler} {control : Control}
    (h : (⟨ss, ss, state.server, retries, false, []⟩ : ConnectionHandler).attempt engine sha1
      { env with others := id } = some (self', control))
    (hkept : ¬ state.Kept engine sha1 (.attempt ss env)) :
    ∃ path user, state.server.tree.node.get? path = some (user, false) ∧
      self'.server.tree.node = state.server.tree.node.setOverwrite path := by
  simp only [Kept, not_forall] at hkept
  obtain ⟨hopens, request, preq, k, hread, hpreq, hremoves, hfound⟩ := hkept
  obtain ⟨path, hfind⟩ := Option.ne_none_iff_exists'.mp hfound
  obtain ⟨user, hlive, _⟩ := Node.get?_of_find hfind
  refine ⟨path, user, hlive, ?_⟩
  have hparsed : ConnectionHandler.parsed ⟨ss, ss, state.server, retries, false, []⟩
      { env with others := id } = some preq :=
    Option.bind_eq_some_iff.mpr ⟨request, hread, hpreq⟩
  obtain ⟨self'', control', reaction, hattempt, hreaction, hserver, _⟩ :=
    @ConnectionHandler.attempt_parsed engine sha1 ⟨ss, ss, state.server, retries, false, []⟩
      { env with others := id } preq hopens hparsed rfl
  obtain ⟨rfl, rfl⟩ := Prod.mk.inj (Option.some.inj (h.symm.trans hattempt))
  obtain ⟨hvalid, hconn, _⟩ := Server.parseRequest_eq hpreq
  obtain ⟨removed, hhandle, rfl, hstream, hdisconnect⟩ :=
    hremoves.handle hvalid hconn env.registered
  obtain ⟨reaction', hreaction', htree⟩ :=
    handleRequest_removes hhandle hstream hfind hdisconnect
  obtain rfl := Option.some.inj (hreaction.symm.trans hreaction')
  rw [hserver, htree]
  rfl

/-- The connection of a handler that returns is held by the node that was placed. -/
theorem Sound.placed {before : Connections} (h : before.Sound) {ss : SocketStream}
    (hhandled : before.handlers ss ≠ none) {server : Server} {conn : WheespaConnected}
    (hstream : conn.sockStream = some ss) (hintact : server.rootDeleted = false)
    (htree : server.tree.node = before.server.tree.node.place conn) :
    Sound { before with server, handlers := Function.update before.handlers ss none } := by
  have hperm : server.tree.node.live.Perm (conn :: before.server.tree.node.live) :=
    htree ▸ Node.live_place before.server.tree.node conn
  have hheld (other : SocketStream) : (∃ user ∈ server.tree.node.live,
      user.sockStream = some other) ↔ other = ss ∨ before.Held other := by
    simp only [hperm.mem_iff, List.mem_cons, exists_eq_or_imp, hstream, Option.some.injEq,
      eq_comm (a := ss), Held, h.intact, true_and]
  refine ⟨hintact, fun other hlt hnone => ?_, fun user hmem => ?_, ?_, fun other hother => ?_,
    h.closed⟩
  · simp only [Held, hintact, true_and, hheld]
    by_cases heq : other = ss
    · subst heq
      exact .inl ⟨.inl rfl, (h.handled _ hhandled).2⟩
    · simp only [Function.update_of_ne heq] at hnone
      simpa only [heq, false_or, Held, h.intact, true_and] using h.owned other hlt hnone
  · rcases List.mem_cons.mp (hperm.mem_iff.mp hmem) with rfl | hold
    · exact ⟨ss, (h.handled _ hhandled).1, hstream, Function.update_self ..⟩
    · obtain ⟨other, hlt, hother, hnone⟩ := h.streams user hold
      refine ⟨other, hlt, hother, ?_⟩
      by_cases heq : other = ss
      · simp [heq]
      · simpa [heq] using hnone
  · rw [(hperm.map WheespaConnected.sockStream).nodup_iff, List.map_cons, List.nodup_cons]
    refine ⟨fun hmem => ?_, h.nodup⟩
    obtain ⟨user, huser, hstream'⟩ := List.mem_map.mp hmem
    exact h.not_held hhandled ⟨h.intact, user, huser, hstream'.trans hstream⟩
  · by_cases heq : other = ss
    · simp [heq] at hother
    · simp only [Function.update_of_ne heq] at hother
      exact h.handled other hother

/-- A handler that goes on keeps its connection. -/
theorem Sound.goes_on {before : Connections} (h : before.Sound) {ss : SocketStream}
    (hhandled : before.handlers ss ≠ none) {server : Server} (stage : HandlerStage)
    (hintact : server.rootDeleted = false) (htree : server.tree = before.server.tree) :
    Sound { before with server, handlers := Function.update before.handlers ss (some stage) } := by
  have hne {other : SocketStream} (hnone : Function.update before.handlers ss (some stage) other =
      none) : before.handlers other = none := by
    by_cases heq : other = ss
    · simp [heq] at hnone
    · rwa [Function.update_of_ne heq] at hnone
  refine ⟨hintact, fun other hlt hnone => ?_, fun user hmem => ?_, ?_, fun other hother => ?_,
    h.closed⟩
  · simpa only [Held, hintact, h.intact, htree] using h.owned other hlt (hne hnone)
  · rw [htree] at hmem
    obtain ⟨other, hlt, hstream, hnone⟩ := h.streams user hmem
    have heq : other ≠ ss := by
      rintro rfl
      exact hhandled hnone
    exact ⟨other, hlt, hstream, (Function.update_of_ne heq ..).trans hnone⟩
  · rw [htree]
    exact h.nodup
  · by_cases heq : other = ss
    · subst heq
      exact h.handled _ hhandled
    · simp only [Function.update_of_ne heq] at hother
      exact h.handled other hother

/-- Where a node is flagged on behalf of another connection, nobody closes its connection. -/
theorem Sound.flagged {before : Connections} (h : before.Sound) {path : Path}
    {user : WheespaConnected} (hlive : before.server.tree.node.get? path = some (user, false))
    {server : Server} (htree : server.tree.node = before.server.tree.node.setOverwrite path)
    {ss : SocketStream} (hhandled : before.handlers ss ≠ none) (stage : Option HandlerStage) :
    ¬ Owned { before with server, handlers := Function.update before.handlers ss stage } := by
  obtain ⟨lost, _, hlt, hnone, hopen, hheld⟩ := held_mark h hlive
  have hne : lost ≠ ss := by
    rintro rfl
    exact hhandled hnone
  intro howned
  rcases howned lost hlt ((Function.update_of_ne hne ..).trans hnone) with ⟨⟨_, hother⟩, _⟩ |
    ⟨_, hclosed⟩
  · simp only [htree, hheld] at hother
    exact hother.2 rfl
  · exact hopen hclosed

/-- What an attempt leads to. -/
theorem step_attempt {before after : Connections} {ss : SocketStream} {env : Attempt}
    (hstep : step engine sha1 before (.attempt ss env) = some after) :
    before.handlers ss ≠ none ∧ ∃ retries self' control,
      (⟨ss, ss, before.server, retries, false, []⟩ : ConnectionHandler).attempt engine sha1
        { env with others := id } = some (self', control) ∧
      ∃ stage, (control = .returned ↔ stage = none) ∧
        after = { before with
          server := self'.server
          handlers := Function.update before.handlers ss stage } := by
  simp only [step] at hstep
  split at hstep
  · next retries hstage =>
      split at hstep
      · obtain ⟨⟨self', control⟩, hattempt, hstep⟩ := Option.bind_eq_some_iff.mp hstep
        obtain rfl := Option.some.inj hstep
        refine ⟨by simp [hstage], retries + 1, self', control, hattempt, _, ?_, rfl⟩
        cases control <;> simp
      · simp at hstep
  · simp at hstep

/-- An attempt that removes nobody who is online keeps the state sound. -/
theorem Sound.attempt {before after : Connections} (h : before.Sound) {ss : SocketStream}
    {env : Attempt} (hkept : before.Kept engine sha1 (.attempt ss env))
    (hstep : step engine sha1 before (.attempt ss env) = some after) : after.Sound := by
  obtain ⟨hhandled, retries, self', control, hattempt, stage, hstage, rfl⟩ := step_attempt hstep
  obtain ⟨hdeleted, ⟨hcontrol, conn, hstream, htree⟩ | ⟨hcontrol, htree⟩⟩ := attempt_tree hattempt
  · obtain rfl := hstage.mp hcontrol
    exact h.placed hhandled hstream (hdeleted.trans h.intact) htree
  · obtain ⟨stage, rfl⟩ := Option.ne_none_iff_exists'.mp fun hnone => hcontrol (hstage.mpr hnone)
    rcases htree with hsame | ⟨hopens, request, preq, k, path, hread, hpreq, hremoves, hfind⟩
    · exact h.goes_on hhandled stage (hdeleted.trans h.intact) hsame
    · rw [hkept hopens request preq k hread hpreq hremoves] at hfind
      exact absurd hfind (by simp)

/-- After an attempt that removes a user who is online nobody owns the connection of that user. -/
theorem Sound.attempt_removes {before after : Connections} (h : before.Sound) {ss : SocketStream}
    {env : Attempt} (hkept : ¬ before.Kept engine sha1 (.attempt ss env))
    (hstep : step engine sha1 before (.attempt ss env) = some after) : ¬ after.Owned := by
  obtain ⟨hhandled, retries, self', control, hattempt, stage, _, rfl⟩ := step_attempt hstep
  obtain ⟨path, user, hlive, htree⟩ := attempt_flags hattempt hkept
  exact h.flagged hlive htree hhandled stage

/-! ## Visits of the service loop -/

/-- A visit is of a live node, which it leaves as it is or flags. -/
theorem visit_tree {server : Server} {action : Wheespa.Action} {path : Path} {reaction : Reaction}
    (hvisited : action.visited = some path)
    (hreact : server.react engine sha1 action = some reaction) :
    ∃ user, server.tree.node.get? path = some (user, false) ∧
      (reaction.server.tree = server.tree ∨
        reaction.server.tree = server.tree.markOverwrite path) := by
  cases action with
  | request => simp [Action.visited] at hvisited
  | message path' =>
      obtain rfl := Option.some.inj hvisited
      simp only [Server.react] at hreact
      split at hreact
      · next user hlive => exact ⟨user, hlive, (Server.handleMessage_tree hreact).2⟩
      · simp at hreact
  | disconnect path' =>
      obtain rfl := Option.some.inj hvisited
      simp only [Server.react] at hreact
      split at hreact
      · next user hlive =>
          obtain rfl := Option.some.inj hreact
          exact ⟨user, hlive, .inr rfl⟩
      · simp at hreact

/-- What a visit leads to. -/
theorem step_visit {before after : Connections} {action : Wheespa.Action}
    (hstep : step engine sha1 before (.visit action) = some after) :
    ∃ path user reaction, before.server.tree.node.get? path = some (user, false) ∧
      before.server.react engine sha1 action = some reaction ∧
      (reaction.server.tree = before.server.tree ∨
        reaction.server.tree = before.server.tree.markOverwrite path) ∧
      after = { before with
        server := reaction.server
        closed := if (reaction.server.tree.node.get? path).any Prod.snd then
          before.closed ++ user.sockStream.toList else before.closed } := by
  obtain ⟨path, hvisited, hstep⟩ := Option.bind_eq_some_iff.mp hstep
  obtain ⟨⟨user, overwrite⟩, hget, hstep⟩ := Option.bind_eq_some_iff.mp hstep
  obtain ⟨reaction, hreact, hstep⟩ := Option.bind_eq_some_iff.mp hstep
  obtain rfl := Option.some.inj hstep
  obtain ⟨user', hlive, htree⟩ := visit_tree hvisited hreact
  obtain ⟨rfl, rfl⟩ := Prod.mk.inj (Option.some.inj (hget.symm.trans hlive))
  exact ⟨path, user, reaction, hlive, hreact, htree, rfl⟩

/-- A visit that does not delete the root closes the connection of a node that it flags. -/
theorem Sound.visit {before after : Connections} (h : before.Sound) {action : Wheespa.Action}
    (hkept : before.Kept engine sha1 (.visit action))
    (hstep : step engine sha1 before (.visit action) = some after) : after.Sound := by
  obtain ⟨path, user, reaction, hlive, hreact, htree, rfl⟩ := step_visit hstep
  have hintact : reaction.server.rootDeleted = false := by
    rw [(Server.react_rootDeleted hreact).1, h.intact, Bool.false_or]
    exact hkept
  rcases htree with hsame | hflagged
  · simp only [hsame, hlive, Option.any_some, Bool.false_eq_true, if_false]
    refine ⟨hintact, ?_, ?_, ?_, h.handled, h.closed⟩
    · simpa only [Owned, Held, hintact, h.intact, hsame] using h.owned
    · simpa only [hsame] using h.streams
    · simpa only [hsame] using h.nodup
  · obtain ⟨ss, hstream, hlt, hnone, hopen, hheld⟩ := held_mark h hlive
    have hcaught : (reaction.server.tree.node.get? path).any Prod.snd = true := by
      rw [hflagged, BinarySearchTree.node_markOverwrite, Node.get?_setOverwrite, if_pos rfl, hlive]
      rfl
    have hsublist := Node.live_setOverwrite_sublist before.server.tree.node path
    simp only [hcaught, if_true, hstream, Option.toList_some]
    refine ⟨hintact, fun other hlt' hnone' => ?_, fun user hmem => ?_, ?_, fun other hother => ?_,
      fun other hmem => ?_⟩
    · simp only [Held, hintact, true_and, hflagged, BinarySearchTree.node_markOverwrite, hheld,
        List.mem_append, List.mem_singleton]
      by_cases heq : other = ss
      · exact .inr ⟨fun hother => hother.2 heq, .inr heq⟩
      · simpa [heq, Held, h.intact] using h.owned other hlt' hnone'
    · rw [hflagged] at hmem
      exact h.streams user (hsublist.subset hmem)
    · rw [hflagged]
      exact h.nodup.sublist (hsublist.map _)
    · obtain ⟨hlt', hnot⟩ := h.handled other hother
      refine ⟨hlt', fun hmem => ?_⟩
      rcases List.mem_append.mp hmem with hold | hlast
      · exact hnot hold
      · obtain rfl := List.mem_singleton.mp hlast
        exact hother hnone
    · rcases List.mem_append.mp hmem with hold | hlast
      · exact h.closed other hold
      · obtain rfl := List.mem_singleton.mp hlast
        exact hlt

/-- After a visit that deletes the root nobody owns the connection of the user who was visited. -/
theorem Sound.visit_deletes {before after : Connections} (h : before.Sound)
    {action : Wheespa.Action} (hkept : ¬ before.Kept engine sha1 (.visit action))
    (hstep : step engine sha1 before (.visit action) = some after) : ¬ after.Owned := by
  obtain ⟨path, user, reaction, hlive, hreact, htree, rfl⟩ := step_visit hstep
  have hdeletes : before.server.deletesRoot action = true := eq_true_of_ne_false hkept
  obtain ⟨hdeleted, hsame⟩ := Server.react_rootDeleted hreact
  rw [hdeletes, Bool.or_true] at hdeleted
  obtain ⟨ss, _, hlt, hnone, hopen, _⟩ := held_mark h hlive
  -- the visit flags nothing, so that it closes nothing
  simp only [hsame hdeletes, hlive, Option.any_some, Bool.false_eq_true, if_false]
  intro howned
  rcases howned ss hlt hnone with ⟨⟨hintact, _⟩, _⟩ | ⟨_, hclosed⟩
  · exact Bool.false_ne_true (hintact.symm.trans hdeleted)
  · exact hopen hclosed

/-! ## Runs -/

/-- A step from a sound state that is kept leads to a sound state. -/
theorem Sound.step {before after : Connections} (h : before.Sound) {action : Action}
    (hkept : before.Kept engine sha1 action)
    (hstep : step engine sha1 before action = some after) : after.Sound := by
  cases action with
  | accept handshake =>
      obtain rfl : handshake = true := hkept
      exact h.accept hstep
  | attempt ss env => exact h.attempt hkept hstep
  | finish ss shutdown =>
      obtain rfl : shutdown = 1 := hkept
      exact h.finish hstep
  | visit action => exact h.visit hkept hstep

/-- A step from a sound state that is not kept leaves a connection that nobody owns. -/
theorem Sound.step_lost {before after : Connections} (h : before.Sound) {action : Action}
    (hkept : ¬ before.Kept engine sha1 action)
    (hstep : Connections.step engine sha1 before action = some after) : ¬ after.Owned := by
  cases action with
  | accept handshake =>
      obtain rfl : handshake = false := Bool.eq_false_iff.mpr hkept
      exact h.accept_failed hstep
  | attempt ss env => exact h.attempt_removes hkept hstep
  | finish ss shutdown => exact h.finish_open hkept hstep
  | visit action => exact h.visit_deletes hkept hstep

/-- In a run of the server each connection without a handler is owned by a live node or closed, and
not both, throughout, exactly if no handshake fails, each `shutdown` gives 1, no request removes a
user who is online and no message is handled as the LIST_ONLINE of a registered user. -/
theorem owned_iff_kept (engine : Engine) (sha1 : Sha1) (database : Database)
    {events : List (Event Connections Action)} {finish : Connections}
    (hrun : Run (Connections.step engine sha1) (start database) events finish) :
    (∀ event ∈ events, event.after.Owned) ↔
      ∀ event ∈ events, event.before.Kept engine sha1 event.action := by
  refine hrun.goal_iff Sound (sound_start database) ?_ ?_
  · intro before action after hstep hbefore
    constructor
    · intro howned
      by_contra hkept
      exact hbefore.step_lost hkept hstep howned
    · intro hkept
      exact (hbefore.step hkept hstep).owned
  · intro before action after hstep hbefore howned
    by_cases hkept : before.Kept engine sha1 action
    · exact hbefore.step hkept hstep
    · exact absurd howned (hbefore.step_lost hkept hstep)

/-- The step is kept, and nobody is online at an attempt. -/
def keptAlone (state : Connections) : Action → Bool
  | .accept handshake => handshake
  | .attempt .. => state.server.tree.node.live.isEmpty
  | .finish _ shutdown => shutdown == 1
  | .visit action => !state.server.deletesRoot action

/-- Where nobody is online, nobody is removed. -/
theorem kept_of_keptAlone (engine : Engine) (sha1 : Sha1) {state : Connections} {action : Action}
    (h : state.keptAlone action = true) : state.Kept engine sha1 action := by
  cases action with
  | accept handshake => exact h
  | attempt ss env =>
      intro _ _ _ k _ _ _
      have hempty : state.server.tree.node.live = [] := List.isEmpty_iff.mp h
      exact Node.find_eq_none_of_not_mem (by simp [hempty])
  | finish ss shutdown => exact beq_iff_eq.mp h
  | visit action => exact (Bool.not_eq_true' _).mp h

/-- A request for an anonymous connection, where the database opens. -/
def anonymousAttempt : Attempt :=
  ⟨id, some "[WHEESPA_ANONYMOUS]::alias=alice:::connectto=bob:::".toList, true, false, false⟩

/-- A message that asks who is online. -/
def listOnlineMessage : Wheespa.Action :=
  .message [] "WHEESPA_LIST_ONLINE::x:::x::::1".toList none none (fun _ => []) 0

/-- One connection is put in the tree, asks who is online without being registered, and is closed
where a read from it throws, and another is closed where its handler ends. -/
theorem owned_two_connections : ∃ events finish,
    Run (Connections.step .plain constantSha1) (start newFile) events finish ∧
    events.map Event.action = [.accept true, .attempt 0 anonymousAttempt, .visit listOnlineMessage,
      .visit (.disconnect []), .accept true, .attempt 1 failedRead, .finish 1 1] ∧
    ∀ event ∈ events, event.after.Owned := by
  obtain ⟨events, finish, hrun, hactions, hkept⟩ := Run.exists_of_trace
    (Connections.step .plain constantSha1) (start newFile)
    [.accept true, .attempt 0 anonymousAttempt, .visit listOnlineMessage, .visit (.disconnect []),
      .accept true, .attempt 1 failedRead, .finish 1 1]
    (fun event => event.before.keptAlone event.action = true) (by decide +kernel)
  refine ⟨events, finish, hrun, hactions, ?_⟩
  exact (owned_iff_kept .plain constantSha1 newFile hrun).mpr fun event hevent =>
    kept_of_keptAlone _ _ (hkept event hevent)

/-- Where no intact tree has a live node and nothing has been closed, the first connection needs a
handler. -/
theorem not_owned_of_lost {state : Connections} (haccepted : 0 < state.accepted)
    (hnone : state.handlers 0 = none)
    (hlive : state.server.rootDeleted = true ∨ state.server.tree.node.live = [])
    (hclosed : state.closed = []) : ¬ state.Owned := by
  intro howned
  rcases howned 0 haccepted hnone with ⟨⟨hintact, user, hmem, _⟩, _⟩ | ⟨_, hmem⟩
  · rcases hlive with hdeleted | hempty
    · exact Bool.false_ne_true (hintact.symm.trans hdeleted)
    · rw [hempty] at hmem
      exact absurd hmem (by simp)
  · rw [hclosed] at hmem
    exact absurd hmem (by simp)

/-- The default administrator logs in, and asks who is online. -/
def listOnlineSession : List Action :=
  [.accept true,
    .attempt 0 (ConnectionHandler.reading
      "[WHEESPA_LOGIN]::username=wAdministrator:::password=wh33spaAdm1n:::"),
    .visit listOnlineMessage]

/-- After a visit the root is deleted, and the only connection has no handler and is not closed. -/
def lostByVisit (event : Event Connections Action) : Bool :=
  match event.action with
  | .visit _ => event.after.accepted == 1 && (event.after.handlers 0).isNone &&
      event.after.server.rootDeleted && event.after.closed.isEmpty
  | .accept _ | .attempt .. | .finish .. => true

/-- After one handshake that fails, after one `shutdown` that gives 0 because the notification of
the peer has not arrived, and after one list of who is online, nobody owns the connection. -/
theorem lost_connections :
    (∃ events finish, Run (Connections.step .plain constantSha1) (start newFile) events finish ∧
      events.map Event.action = [.accept false] ∧ ∃ event ∈ events, ¬ event.after.Owned) ∧
    (∃ events finish, Run (Connections.step .plain constantSha1) (start newFile) events finish ∧
      events.map Event.action = [.accept true, .attempt 0 failedRead, .finish 0 0] ∧
      ∃ event ∈ events, ¬ event.after.Owned) ∧
    ∃ events finish, Run (Connections.step .plain constantSha1)
        (start (preparedFile Engine.plain.toBackend constantSha1)) events finish ∧
      events.map Event.action = listOnlineSession ∧ ∃ event ∈ events, ¬ event.after.Owned := by
  have haccept : Run (Connections.step .plain constantSha1) (start newFile)
      [⟨_, .accept false, _⟩] _ := .single rfl
  have hfinish : Run (Connections.step .plain constantSha1) (start newFile)
      (([] ++ [⟨_, .accept true, _⟩]) ++ [⟨_, .attempt 0 failedRead, _⟩] ++
        [⟨_, .finish 0 0, _⟩]) _ := .snoc (.snoc (.snoc .refl rfl) rfl) rfl
  obtain ⟨events, finish, hrun, hactions, hlost⟩ := Run.exists_of_trace
    (Connections.step .plain constantSha1)
    (start (preparedFile Engine.plain.toBackend constantSha1)) listOnlineSession
    (fun event => lostByVisit event = true) (by decide +kernel)
  refine ⟨⟨_, _, haccept, rfl, _, List.mem_singleton_self _, ?_⟩,
    ⟨_, _, hfinish, rfl, _, List.mem_append_right _ (List.mem_singleton_self _), ?_⟩,
    events, finish, hrun, hactions, ?_⟩
  · exact not_owned_of_lost Nat.one_pos rfl (.inr rfl) rfl
  · exact not_owned_of_lost Nat.one_pos rfl (.inr rfl) rfl
  · have hvisit : .visit listOnlineMessage ∈ events.map Event.action := by
      rw [hactions]
      simp [listOnlineSession]
    obtain ⟨event, hevent, haction⟩ := List.mem_map.mp hvisit
    have hevent' := hlost event hevent
    simp only [lostByVisit, haction, Bool.and_eq_true, beq_iff_eq, Option.isNone_iff_eq_none,
      List.isEmpty_iff] at hevent'
    obtain ⟨⟨⟨haccepted, hnone⟩, hdeleted⟩, hclosed⟩ := hevent'
    exact ⟨event, hevent, not_owned_of_lost (haccepted ▸ Nat.one_pos) hnone (.inl hdeleted) hclosed⟩

end Connections

end Wheespa
