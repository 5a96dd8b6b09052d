import Wheespa.Server.MessageFormat
import Wheespa.Server.Origin
import Wheespa.SocketStream

/-!
# Messages on the stream of their recipient

A user gets messages as texts `key: body::[time]`, between the other texts that the server writes.
`readDelivery` takes such a text apart again. `wire_of_run` is the main result: in every run that
spares the root of the tree, what a user can read as a message on its stream is what was delivered
to it, from whom it was sent, in order, whatever the bodies contain; no body, reply, name or table
passes for a message of someone else.
-/

namespace Wheespa

open Sql Transition Framing

/-! ## Texts -/

/-- A character of a time. -/
def isTimeChar (c : Char) : Bool :=
  c.isDigit || c == '-'

/-- A message as its recipient gets it. -/
structure Delivery where
  sender : Str
  body : Str
  time : Str
  deriving DecidableEq, Repr

namespace Delivery

/-- The text of the message. -/
def text (delivery : Delivery) : Str :=
  delivery.sender ++ ": ".toList ++ delivery.body ++ "::[".toList ++ delivery.time ++ "]".toList

/-- The parts have the characters that the server lets through. -/
structure Valid (delivery : Delivery) : Prop where
  sender : IsValue delivery.sender
  body : ∀ c ∈ delivery.body, isBodyChar c = true
  time : ∀ c ∈ delivery.time, isTimeChar c = true

instance (delivery : Delivery) : Decidable delivery.Valid :=
  @decidable_of_iff _ (IsValue delivery.sender ∧ (∀ c ∈ delivery.body, isBodyChar c = true) ∧
      ∀ c ∈ delivery.time, isTimeChar c = true)
    ⟨fun h => ⟨h.1, h.2.1, h.2.2⟩, fun h => ⟨h.1, h.2, h.3⟩⟩
    (@instDecidableAnd _ _ (List.decidableBAll _ _)
      (@instDecidableAnd _ _ (List.decidableBAll _ _) (List.decidableBAll _ _)))

end Delivery

/-- What a text is as a message: the sender is what stands before the first colon, and the time what
stands in the last brackets. -/
def readDelivery (text : Str) : Option Delivery :=
  let sender := text.takeWhile (· != ':')
  let rest := text.drop (sender.length + 2)
  let time := (rest.dropLast.reverse.takeWhile isTimeChar).reverse
  let body := rest.take (rest.length - (time.length + 4))
  let delivery : Delivery := ⟨sender, body, time⟩
  if delivery.Valid ∧ delivery.text = text then some delivery else none

/-- A value is a line without colons. -/
theorem IsValue.line {value : Str} (h : IsValue value) : ':' ∉ value ∧ '\n' ∉ value :=
  ⟨fun hmem => absurd (h _ hmem) (by decide), fun hmem => absurd (h _ hmem) (by decide)⟩

/-- The text of a message is a line. -/
theorem Delivery.Valid.line {delivery : Delivery} (h : delivery.Valid) :
    '\n' ∉ delivery.text := by
  have hcolon : '\n' ∉ ": ".toList := by decide
  have hopen : '\n' ∉ "::[".toList := by decide
  have hclose : '\n' ∉ "]".toList := by decide
  have hbody : '\n' ∉ delivery.body := fun hmem => absurd (h.body _ hmem) (by decide)
  have htime : '\n' ∉ delivery.time := fun hmem => absurd (h.time _ hmem) (by decide)
  simp only [text, List.mem_append, not_or]
  exact ⟨⟨⟨⟨⟨h.sender.line.2, hcolon⟩, hbody⟩, hopen⟩, htime⟩, hclose⟩

/-- The text of a message is read as that message, and no other text is. -/
theorem readDelivery_eq_some {text : Str} {delivery : Delivery} :
    readDelivery text = some delivery ↔ delivery.Valid ∧ text = delivery.text := by
  constructor
  · intro h
    obtain ⟨⟨hvalid, htext⟩, h⟩ := Option.ite_none_right_eq_some.mp h
    obtain rfl := Option.some.inj h
    exact ⟨hvalid, htext.symm⟩
  · rintro ⟨hvalid, rfl⟩
    obtain ⟨sender, body, time⟩ := delivery
    have hsplit : Delivery.text ⟨sender, body, time⟩ =
        sender ++ ':' :: ' ' :: (body ++ "::[".toList ++ time ++ [']']) := by
      simp [Delivery.text]
    have hsender : (Delivery.text ⟨sender, body, time⟩).takeWhile (· != ':') = sender := by
      rw [hsplit, List.takeWhile_append_of_pos]
      · simp
      · intro c hc
        simpa using ne_of_mem_of_not_mem hc hvalid.sender.line.1
    have hrest : (Delivery.text ⟨sender, body, time⟩).drop (sender.length + 2) =
        body ++ "::[".toList ++ time ++ [']'] := by
      rw [hsplit, ← List.drop_drop, List.drop_left]
      rfl
    have htime : ((body ++ "::[".toList ++ time ++ [']']).dropLast.reverse.takeWhile
        isTimeChar).reverse = time := by
      rw [List.dropLast_concat, List.reverse_append, List.takeWhile_append_of_pos]
      · have hbracket : isTimeChar '[' = false := by decide
        simp [hbracket]
      · intro c hc
        exact hvalid.time c (List.mem_reverse.mp hc)
    have hbody : (body ++ "::[".toList ++ time ++ [']']).take
        ((body ++ "::[".toList ++ time ++ [']']).length - (time.length + 4)) = body := by
      have hlength : (body ++ "::[".toList ++ time ++ [']']).length - (time.length + 4) =
          body.length := by
        simp
      rw [hlength, List.append_assoc, List.append_assoc, List.take_left]
    unfold readDelivery
    simp only [hsender, hrest, htime, hbody]
    exact if_pos ⟨hvalid, trivial⟩

/-- Two messages with the same text are the same. -/
theorem Delivery.text_injective {delivery delivery' : Delivery} (h : delivery.Valid)
    (h' : delivery'.Valid) (htext : delivery.text = delivery'.text) : delivery = delivery' := by
  have hread := readDelivery_eq_some.mpr ⟨h, rfl⟩
  have hread' := readDelivery_eq_some.mpr ⟨h', htext⟩
  exact Option.some.inj (hread.symm.trans hread')

/-- The text is read as no message. -/
def Mute (text : Str) : Prop :=
  readDelivery text = none

/-- A text is read as a message only where a colon and a blank follow the characters of a value. -/
theorem mute_of {text : Str}
    (h : ∀ sender rest, IsValue sender → text ≠ sender ++ ':' :: ' ' :: rest) : Mute text := by
  show readDelivery text = none
  rw [Option.eq_none_iff_forall_ne_some]
  intro delivery hread
  obtain ⟨hvalid, htext⟩ := readDelivery_eq_some.mp hread
  refine h delivery.sender (delivery.body ++ "::[".toList ++ delivery.time ++ "]".toList)
    hvalid.sender (htext.trans ?_)
  simp only [Delivery.text, List.append_assoc]
  rfl

/-- A text without colons is no message. -/
theorem mute_of_not_mem {text : Str} (h : ':' ∉ text) : Mute text := by
  refine mute_of fun sender rest _ htext => h ?_
  rw [htext]
  simp

/-- A text that begins with a blank is no message. -/
theorem mute_of_blank (text : Str) : Mute (' ' :: text) := by
  refine mute_of fun sender rest hsender htext => ?_
  cases sender with
  | nil => simp at htext
  | cons c sender =>
      obtain ⟨rfl, _⟩ := List.cons.inj htext
      exact absurd (hsender ' ' List.mem_cons_self) (by decide)

/-- A text that begins with two colons is no message. -/
theorem mute_of_colons {text : Str} (h : "::".toList <+: text) : Mute text := by
  obtain ⟨text, rfl⟩ := h
  refine mute_of fun sender rest hsender htext => ?_
  cases sender with
  | nil => simp at htext
  | cons c sender =>
      have hcons : "::".toList ++ text = ':' :: ':' :: text := rfl
      rw [hcons] at htext
      obtain ⟨rfl, _⟩ := List.cons.inj htext
      exact absurd (hsender ':' List.mem_cons_self) (by decide)

/-- A time is written in the characters of a time. -/
theorem isTimeChar_of_mem (time : Int) : ∀ c ∈ integerText time, isTimeChar c = true := by
  have hdigits (n : Nat) : ∀ c ∈ Nat.toDigits 10 n, isTimeChar c = true := fun c hc => by
    rw [isTimeChar, Nat.isDigit_of_mem_toDigits (by decide) (by decide) hc, Bool.true_or]
  cases time with
  | ofNat n => exact hdigits n
  | negSucc n =>
      rw [integerText, List.forall_mem_cons]
      exact ⟨by decide, hdigits (n + 1)⟩

theorem not_mem_integerText (n : Int) : ':' ∉ integerText n ∧ '\n' ∉ integerText n :=
  ⟨fun hmem => absurd (isTimeChar_of_mem n _ hmem) (by decide),
    fun hmem => absurd (isTimeChar_of_mem n _ hmem) (by decide)⟩

/-! ## What a step writes -/

/-- What an entry of the writes is as a message, with the stream that it is written to. -/
def readEntry (entry : SocketStream × Str) : Option (SocketStream × Delivery) :=
  (readDelivery entry.2).map fun delivery => (entry.1, delivery)

theorem filterMap_mute {entries : List (SocketStream × Str)} (h : ∀ entry ∈ entries, Mute entry.2) :
    entries.filterMap readEntry = [] := by
  rw [List.filterMap_eq_nil_iff]
  intro entry hentry
  have hmute : readDelivery entry.2 = none := h entry hentry
  rw [readEntry, hmute, Option.map_none]

/-- The message that is delivered, where it is handled as an internal one: its body, from its sender
to the live node of its addressee. -/
def HandleReceived.delivery (self : HandleReceived) (tree : WheespaServerTree) (time : Int) :
    Option (SocketStream × Delivery) :=
  if self.connType = some .internal then do
    let data ← tree.lookup self.addressee
    let ss ← data.sockStream
    some (ss, ⟨self.user.key, self.group 3, integerText time⟩)
  else none

/-- The message that a step delivers. -/
def Server.delivers (server : Server) : Action → Option (SocketStream × Delivery)
  | .message path recvd connType adminCmd _ time =>
      match server.tree.node.get? path with
      | some (user, false) =>
          if recvd.length > 0 then do
            let received ← HandleReceived.new recvd user server.database connType adminCmd
            received.delivery server.tree time
          else none
      | _ => none
  | .request .. | .disconnect _ => none

namespace ParseRequest

/-- What is written in between is one line each, and begins with two colons. -/
def Replies (before after : ParseRequest) : Prop :=
  ∀ text ∈ after.written, text ∈ before.written ∨ ("::".toList <+: text ∧ '\n' ∉ text)

variable {engine : Engine} {sha1 : Sha1} {self : ParseRequest}

theorem Replies.of_eq {after : ParseRequest} (h : after.written = self.written) :
    self.Replies after := by
  intro text htext
  rw [h] at htext
  exact .inl htext

theorem replies_write {text : String} (h : "::".toList <+: text.toList ∧ '\n' ∉ text.toList)
    {middle : ParseRequest} (hmiddle : middle.written = self.written) :
    self.Replies (middle.write text) := by
  intro written hwritten
  rcases List.mem_append.mp hwritten with hold | hnew
  · exact .inl (hmiddle ▸ hold)
  · obtain rfl := List.mem_singleton.mp hnew
    exact .inr h

theorem login_replies (engine : Engine) (sha1 : Sha1) :
    self.Replies (self.login engine sha1).2 := by
  unfold login
  split
  · split
    · exact replies_write (by decide) rfl
    · exact .of_eq rfl
  · exact replies_write (by decide) rfl

/-- The methods reply with lines that begin with two colons. -/
theorem dispatch_replies {type : RequestType} {registered : Bool} {result : Bool × ParseRequest}
    (h : self.dispatch engine sha1 registered type = some result) : self.Replies result.2 := by
  cases type with
  | adminLogin =>
      rcases self.adminLogin_cases engine sha1 with ⟨_, hadmin⟩ | ⟨_, _, _, hadmin⟩ <;>
      · obtain rfl := Option.some.inj (hadmin.symm.trans h)
        exact login_replies engine sha1
  | anonymousConnect =>
      obtain rfl := Option.some.inj h
      unfold anonymousConnect
      split
      · exact .of_eq rfl
      · exact replies_write (by decide) rfl
  | disconnectLogin =>
      obtain rfl := Option.some.inj h
      exact login_replies engine sha1
  | login =>
      obtain rfl := Option.some.inj h
      exact login_replies engine sha1
  | register =>
      obtain rfl := Option.some.inj h
      rcases self.registerUser_spec engine sha1 registered with ⟨_, _, hregister⟩ |
        ⟨_, _, _, _, _, _, hregister⟩
      · rw [hregister]
        exact replies_write (by decide) rfl
      · generalize self.registerUser engine sha1 registered = result at hregister
        cases hregister with
        | invalid _ htext =>
            have hcolons : ∀ text ∈ ["::WHEESPA_INVALID_USERNAME", "::WHEESPA_INVALID_PASSWORD",
                "::WHEESPA_INVALID_EMAIL"], "::".toList <+: text.toList ∧ '\n' ∉ text.toList := by
              decide
            exact replies_write (hcolons _ htext) rfl
        | taken => exact replies_write (by decide) rfl
        | insertion => exact .of_eq rfl

/-- `handle` replies with lines that begin with two colons. -/
theorem handle_replies {registered : Bool} {result : Bool × ParseRequest}
    (h : self.handle engine sha1 registered = some result) : self.Replies result.2 := by
  unfold handle at h
  split at h
  · obtain rfl := Option.some.inj h
    exact replies_write (by decide) rfl
  · next type _ =>
      obtain ⟨middle, hdispatch, rfl⟩ := Option.map_eq_some_iff.mp h
      have hreplies := dispatch_replies hdispatch
      unfold noteStream
      split <;> exact hreplies

end ParseRequest

/-- What the server writes for a request is one line each, and no message. -/
theorem handleRequest_mute {engine : Engine} {sha1 : Sha1} {server : Server} {preq : ParseRequest}
    (hwritten : preq.written = []) {registered : Bool} {reaction : Reaction}
    (h : server.handleRequest engine sha1 preq registered = some reaction) :
    ∀ entry ∈ reaction.written, Mute entry.2 ∧ '\n' ∉ entry.2 := by
  obtain ⟨⟨handledProperly, after⟩, hhandle⟩ :=
    Option.isSome_iff_exists.mp (preq.handle_isSome engine sha1 registered)
  have hreplies : ∀ entry ∈ after.written.map fun text => (after.ss, text),
      Mute entry.2 ∧ '\n' ∉ entry.2 := by
    rw [List.forall_mem_map]
    intro text htext
    rcases ParseRequest.handle_replies hhandle text htext with hold | ⟨hcolons, hline⟩
    · rw [hwritten] at hold
      simp at hold
    · exact ⟨mute_of_colons hcolons, hline⟩
  have hsuccess : Mute "::WHEESPA_CONNECTION_SUCCESS".toList ∧
      '\n' ∉ "::WHEESPA_CONNECTION_SUCCESS".toList := ⟨mute_of_colons (by decide), by decide⟩
  have hexists : Mute "::WHEESPA_CONNECTION_EXISTS".toList ∧
      '\n' ∉ "::WHEESPA_CONNECTION_EXISTS".toList := ⟨mute_of_colons (by decide), by decide⟩
  simp only [Server.handleRequest, hhandle] at h
  split_ifs at h
  · obtain ⟨tree, _, h⟩ := Option.bind_eq_some_iff.mp h
    obtain rfl := Option.some.inj h
    rw [List.forall_mem_append, List.forall_mem_singleton]
    exact ⟨hreplies, hsuccess⟩
  · obtain rfl := Option.some.inj h
    rw [List.forall_mem_append, List.forall_mem_singleton]
    exact ⟨hreplies, hexists⟩
  · obtain rfl := Option.some.inj h
    rw [List.forall_mem_append, List.forall_mem_singleton]
    exact ⟨hreplies, hexists⟩
  · obtain rfl := Option.some.inj h
    exact hreplies

namespace HandleReceived

/-- The entry has several lines only where it goes to the user, who is an administrator. -/
def Lines (user : WheespaConnected) (entry : SocketStream × Str) : Prop :=
  '\n' ∈ entry.2 → user.isAdmin = true ∧ user.sockStream = some entry.1

/-- What is written in between is no message. -/
def WritesMute (before after : HandleReceived) : Prop :=
  ∃ rest, after.written = before.written ++ rest ∧
    ∀ entry ∈ rest, Mute entry.2 ∧ Lines before.user entry

variable {engine : Engine} {memory : Int → Str} {self after : HandleReceived}
  {completion : Completion}

theorem WritesMute.of_eq (h : after.written = self.written) : self.WritesMute after :=
  ⟨[], by rw [h, List.append_nil], by simp⟩

theorem WritesMute.reply {middle : HandleReceived} (hmiddle : middle.written = self.written)
    {ss : SocketStream} {text : Str} (h : Mute text) (hlines : Lines self.user (ss, text))
    (hafter : after.written = middle.written ++ [(ss, text)]) : self.WritesMute after :=
  ⟨[(ss, text)], by rw [hafter, hmiddle], by simpa using ⟨h, hlines⟩⟩

/-- A line is written, without colons. -/
theorem WritesMute.line {ss : SocketStream} {text : Str} (h : ':' ∉ text ∧ '\n' ∉ text)
    (hafter : after.written = self.written ++ [(ss, text)]) : self.WritesMute after :=
  .reply rfl (mute_of_not_mem h.1) (fun hmem => absurd hmem h.2) hafter

/-- The constructor writes no message. -/
theorem new_mute {recvd : Str} {user : WheespaConnected} {file : Database}
    {connType : Option ConnectType} {adminCmd : Option AdminCommand} {received : HandleReceived}
    (h : new recvd user file connType adminCmd = some received) :
    ∀ entry ∈ received.written, Mute entry.2 ∧ '\n' ∉ entry.2 := by
  have hcommand : Mute "WHEESPA_INVALID_COMMAND".toList ∧
      '\n' ∉ "WHEESPA_INVALID_COMMAND".toList := ⟨mute_of_not_mem (by decide), by decide⟩
  have hformat : Mute "WHEESPA_FORMAT_ERROR".toList ∧ '\n' ∉ "WHEESPA_FORMAT_ERROR".toList :=
    ⟨mute_of_not_mem (by decide), by decide⟩
  unfold new at h
  dsimp only at h
  split_ifs at h
  · split at h
    · obtain rfl := Option.some.inj h
      simp
    · obtain ⟨ss, _, rfl⟩ := write_eq_some.mp h
      simpa using hcommand
  · obtain rfl := Option.some.inj h
    simp
  · obtain rfl := Option.some.inj h
    simp
  · obtain rfl := Option.some.inj h
    simp
  · obtain rfl := Option.some.inj h
    simp
  · obtain ⟨ss, _, rfl⟩ := write_eq_some.mp h
    simpa using hformat

/-- A table is no message. -/
theorem mute_drawTable (table : Option TableSt) : Mute (drawTable table) := by
  cases table with
  | none => exact mute_of_not_mem (by simp [drawTable])
  | some table => exact mute_of_blank _

theorem showTable_mute {table : Str} (hadmin : self.user.isAdmin = true)
    (h : self.showTable engine table = some (completion, after)) : self.WritesMute after := by
  unfold showTable at h
  split at h
  · obtain ⟨_, rfl⟩ := Prod.mk.inj (Option.some.inj h)
    exact .of_eq rfl
  · obtain ⟨ss, hstream, _, rfl⟩ := reply_eq_some.mp h
    exact .reply rfl (mute_drawTable _) (fun _ => ⟨hadmin, hstream⟩) rfl

/-- An administrator's command writes no message. -/
theorem handleAdmin_mute (h : self.handleAdmin engine memory = some (completion, after)) :
    self.WritesMute after := by
  unfold handleAdmin at h
  dsimp only at h
  split at h
  · obtain ⟨ss, _, _, rfl⟩ := reply_eq_some.mp h
    exact .line (by decide) rfl
  · next hadmin =>
    have hadmin : self.user.isAdmin = true := by simpa using hadmin
    -- the commands in the order of the `switch`
    split at h
    · obtain ⟨_, rfl⟩ := Prod.mk.inj (Option.some.inj h)
      exact .of_eq rfl
    · obtain ⟨_, rfl⟩ := Prod.mk.inj (Option.some.inj h)
      exact .of_eq rfl
    · exact showTable_mute hadmin h
    · exact showTable_mute hadmin h
    · exact showTable_mute hadmin h
    · obtain ⟨_, rfl⟩ := Prod.mk.inj (Option.some.inj h)
      exact .of_eq rfl
    · obtain ⟨_, rfl⟩ := Prod.mk.inj (Option.some.inj h)
      exact .of_eq rfl
    · obtain ⟨_, rfl⟩ := Prod.mk.inj (Option.some.inj h)
      exact .of_eq rfl
    · obtain ⟨_, rfl⟩ := Prod.mk.inj (Option.some.inj h)
      exact .of_eq rfl

/-- The list of the users online is no message. -/
theorem handleListOnline_mute {tree : WheespaServerTree}
    (hkeys : ∀ user ∈ tree.setDataArray.getDataArray, IsValue user.key)
    (h : self.handleListOnline tree = some (completion, after)) : self.WritesMute after := by
  unfold handleListOnline at h
  split at h
  · obtain ⟨ss, _, _, rfl⟩ := reply_eq_some.mp h
    exact .line (by decide) rfl
  · obtain ⟨first, hcount, h⟩ := Option.bind_eq_some_iff.mp h
    obtain ⟨last, hnames, h⟩ := Option.bind_eq_some_iff.mp h
    obtain ⟨rfl, rfl⟩ := Prod.mk.inj (Option.some.inj h)
    obtain ⟨ss, hstream, rfl⟩ := write_eq_some.mp hcount
    rw [writes_eq_some hnames hstream]
    refine ⟨_, List.append_assoc _ _ _, ?_⟩
    have hline {text : Str} (h : ':' ∉ text ∧ '\n' ∉ text) :
        Mute text ∧ Lines self.user (ss, text) :=
      ⟨mute_of_not_mem h.1, fun hmem => absurd hmem h.2⟩
    have hlength := hline (not_mem_integerText tree.setDataArray.getDataArray.length)
    rw [List.singleton_append, List.forall_mem_cons, List.forall_mem_map]
    exact ⟨hlength, fun user huser => hline (hkeys user huser).line⟩

/-- An internal message is written to its addressee, and nothing else that is a message. -/
theorem handleInternal_reads {tree : WheespaServerTree} {time : Int}
    (htype : self.connType = some .internal) (hkey : IsValue self.user.key)
    (hbody : ∀ c ∈ self.group 3, isBodyChar c = true)
    (h : self.handleInternal tree time = some (completion, after)) :
    ∃ rest, after.written = self.written ++ rest ∧
      rest.filterMap readEntry = (self.delivery tree time).toList ∧
      ∀ entry ∈ rest, Lines self.user entry := by
  have hdelivery : self.delivery tree time = (tree.lookup self.addressee).bind fun data =>
      data.sockStream.map fun ss => (ss, ⟨self.user.key, self.group 3, integerText time⟩) := by
    rw [delivery, if_pos htype]
    simp only [Option.bind_eq_bind, Option.map_eq_bind]
    rfl
  have hinternal : self.deliver tree time (self.group 2) (self.group 3) =
      some (completion, after) := by
    rw [← handleInternal_eq]
    exact h
  unfold deliver at hinternal
  rw [hdelivery, addressee]
  split at hinternal
  · next data hlookup =>
      obtain ⟨middle, hwrite, hafter⟩ := Option.map_eq_some_iff.mp hinternal
      obtain ⟨ss, hstream, rfl⟩ := write_eq_some.mp hwrite
      obtain ⟨_, rfl⟩ := Prod.mk.inj hafter
      have hvalid : Delivery.Valid ⟨self.user.key, self.group 3, integerText time⟩ :=
        ⟨hkey, hbody, isTimeChar_of_mem time⟩
      have hread := readDelivery_eq_some.mpr ⟨hvalid, rfl⟩
      refine ⟨_, rfl, ?_, ?_⟩
      · rw [hlookup, Option.bind_some, hstream, Option.map_some, Option.toList_some]
        exact List.filterMap_cons_some (congrArg (Option.map _) hread)
      · rw [List.forall_mem_singleton]
        exact fun hmem => absurd hmem hvalid.line
  · next hlookup =>
      obtain ⟨middle, hwrite, hafter⟩ := Option.map_eq_some_iff.mp hinternal
      obtain ⟨ss, _, rfl⟩ := write_eq_some.mp hwrite
      obtain ⟨_, rfl⟩ := Prod.mk.inj hafter
      have hoffline : Mute "WHEESPA_USER_OFFLINE".toList := mute_of_not_mem (by decide)
      have hline : '\n' ∉ "WHEESPA_USER_OFFLINE".toList := by decide
      refine ⟨_, rfl, ?_, ?_⟩
      · rw [hlookup, Option.bind_none, Option.toList_none]
        exact filterMap_mute (by simpa using hoffline)
      · rw [List.forall_mem_singleton]
        exact fun hmem => absurd hmem hline

/-- Handling a message writes the message that it delivers, and nothing else that is a message. -/
theorem handle_reads {tree : WheespaServerTree} {time : Int}
    (hkeys : ∀ user ∈ tree.setDataArray.getDataArray, IsValue user.key)
    (hkey : IsValue self.user.key) (hbody : ∀ c ∈ self.group 3, isBodyChar c = true)
    (h : self.handle engine memory tree time = some (completion, after)) :
    ∃ rest, after.written = self.written ++ rest ∧
      rest.filterMap readEntry = (self.delivery tree time).toList ∧
      ∀ entry ∈ rest, Lines self.user entry := by
  have hmute (htype : self.connType ≠ some .internal) (hwrites : self.WritesMute after) :
      ∃ rest, after.written = self.written ++ rest ∧
        rest.filterMap readEntry = (self.delivery tree time).toList ∧
        ∀ entry ∈ rest, Lines self.user entry := by
    obtain ⟨rest, hrest, hentries⟩ := hwrites
    refine ⟨rest, hrest, ?_, fun entry hentry => (hentries entry hentry).2⟩
    rw [filterMap_mute fun entry hentry => (hentries entry hentry).1, delivery, if_neg htype,
      Option.toList_none]
  unfold handle at h
  split at h
  · next htype => exact hmute (by simp [htype]) (handleAdmin_mute h)
  · next htype => exact handleInternal_reads htype hkey hbody h
  · next htype =>
      obtain ⟨_, rfl⟩ := Prod.mk.inj (Option.some.inj h)
      exact hmute (by simp [htype]) (.of_eq rfl)
  · next htype => exact hmute (by simp [htype]) (handleListOnline_mute hkeys h)
  · next htype =>
      obtain ⟨ss, _, _, rfl⟩ := reply_eq_some.mp h
      exact hmute (by simp [htype]) (.line (by decide) rfl)
  · next htype =>
      obtain ⟨_, rfl⟩ := Prod.mk.inj (Option.some.inj h)
      exact hmute (by simp [htype]) (.of_eq rfl)

/-- The body of a message has no line terminator. -/
theorem isBodyChar_of_fullMatch {recvd body : Str} {groups : Regex.Groups Char}
    (hmatch : messageRegex.fullMatch recvd = some groups) (hbody : groups 3 = some body) :
    ∀ c ∈ body, isBodyChar c = true := by
  have hmatches := Regex.fullMatch_sound hmatch
  simp only [messageRegex, Regex.matches_seq, Regex.matches_capture, Regex.matches_plus,
    Regex.matches_star, Regex.matches_text] at hmatches
  obtain ⟨_, _, _, rfl, ⟨_, _, rfl⟩, _, _, _, rfl, ⟨_, rfl⟩, _, _, _, rfl, ⟨_, ⟨_, rfl⟩, rfl⟩,
    _, _, _, rfl, ⟨_, rfl⟩, b, _, _, rfl, ⟨_, ⟨hb, rfl⟩, rfl⟩, _, _, _, rfl, ⟨_, rfl⟩, _,
    ⟨_, _, rfl⟩, rfl⟩ := hmatches
  obtain rfl : b = body := by simpa using hbody
  exact hb

end HandleReceived

/-! ## Runs -/

/-- Every name in the tree is a value that a request can carry, and no list is kept in the tree. -/
structure Named (server : Server) : Prop where
  keys : ∀ path user overwrite, server.tree.node.get? path = some (user, overwrite) →
    IsValue user.key
  array : server.tree.dataArray = []

/-- A connection that is granted has such a name. -/
theorem isValue_of_grants {engine : Engine} {sha1 : Sha1} {preq : ParseRequest}
    {conn : WheespaConnected} (hvalid : preq.ValidParams) (h : preq.Grants engine sha1 conn) :
    IsValue conn.key := by
  cases h with
  | login _ huser _ => exact hvalid _ _ huser
  | adminLogin _ huser _ _ => exact hvalid _ _ huser
  | anonymousConnect _ halias _ => exact hvalid _ _ halias

/-- The users that a list of the users online is made of have such names. -/
theorem Named.listed {server : Server} (h : Named server) :
    ∀ user ∈ server.tree.setDataArray.getDataArray, IsValue user.key := by
  intro user huser
  rw [BinarySearchTree.setDataArray, BinarySearchTree.getDataArray, h.array,
    Node.setDataArray_eq, List.nil_append] at huser
  obtain ⟨path, hget⟩ := Node.mem_live.mp huser
  exact h.keys path user false hget

section Runs

variable {engine : Engine} {sha1 : Sha1}

/-- In every state of a run, the names are values. -/
theorem named_of_run {database : Database} {events : List (Event Recorded Action)}
    {finish : Recorded}
    (hrun : Run (Recorded.step engine sha1) (Recorded.start database) events finish) :
    ∀ event ∈ events, Named event.before.server := by
  have harray := (hrun.invariant (fun recorded => recorded.server.tree.dataArray = []) rfl
    fun event _ hstep hbefore => ?_).2
  · intro event hevent
    refine ⟨fun path user overwrite hget => ?_, (harray event hevent).1⟩
    obtain ⟨preq, _, hvalid, hgrants⟩ :=
      ((Recorded.granted_of_run hrun).2 event hevent).1 path user overwrite hget
    exact isValue_of_grants hvalid hgrants
  · rcases Recorded.step_cases hstep with ⟨_, _, _, _, _, _, htree, _⟩ | ⟨_, htree | ⟨_, htree⟩⟩
    · rw [htree]
      exact hbefore
    · rw [htree]
      exact hbefore
    · rw [htree]
      exact hbefore

/-- The body of what is read is a body. -/
theorem HandleReceived.isBodyChar_group {recvd : Str} {received : HandleReceived}
    (hresult : received.result = messageRegex.fullMatch recvd) :
    ∀ c ∈ received.group 3, isBodyChar c = true := by
  rw [HandleReceived.group, hresult]
  cases hmatch : messageRegex.fullMatch recvd with
  | none => simp
  | some groups =>
      rw [Option.bind_some]
      cases hthree : groups 3 with
      | none => simp
      | some body => exact HandleReceived.isBodyChar_of_fullMatch hmatch hthree

/-- The service loop writes the message that it delivers, and nothing else that is a message. -/
theorem handleMessage_reads {server : Server} (hnamed : Named server) {path : Path}
    {user : WheespaConnected} (hget : server.tree.node.get? path = some (user, false))
    {recvd : Str} {connType : Option ConnectType} {adminCmd : Option AdminCommand}
    {memory : Int → Str} {time : Int} {reaction : Reaction}
    (h : server.handleMessage engine path user recvd connType adminCmd memory time =
      some reaction) :
    reaction.written.filterMap readEntry =
        (server.delivers (.message path recvd connType adminCmd memory time)).toList ∧
      ∀ entry ∈ reaction.written, HandleReceived.Lines user entry := by
  simp only [Server.delivers, hget]
  unfold Server.handleMessage at h
  split at h
  · next hlength =>
      obtain ⟨received, hnew, h⟩ := Option.bind_eq_some_iff.mp h
      obtain ⟨⟨completion, after⟩, hhandle, h⟩ := Option.bind_eq_some_iff.mp h
      obtain rfl := Option.some.inj h
      obtain ⟨hresult, huser, _⟩ := HandleReceived.new_eq hnew
      have hkey : IsValue received.user.key := by
        rw [huser]
        exact hnamed.keys path user false hget
      have hfirst := HandleReceived.new_mute hnew
      obtain ⟨rest, hwritten, hreads, hlines⟩ := HandleReceived.handle_reads hnamed.listed hkey
        (HandleReceived.isBodyChar_group hresult) hhandle
      show after.written.filterMap readEntry = _ ∧ ∀ entry ∈ after.written, _
      rw [hwritten, List.filterMap_append,
        filterMap_mute fun entry hentry => (hfirst entry hentry).1, List.nil_append,
        hreads, if_pos hlength, hnew, List.forall_mem_append]
      refine ⟨rfl, fun entry hentry hmem => ?_, ?_⟩
      · exact absurd hmem (hfirst entry hentry).2
      · rwa [huser] at hlines
  · next hlength =>
      obtain rfl := Option.some.inj h
      rw [if_neg hlength]
      exact ⟨rfl, by simp⟩

/-- A step writes the message that it delivers, and nothing else that is a message; and what it
writes is a line each, unless it goes to an administrator. -/
theorem react_reads {server : Server} (hnamed : Named server) {action : Action}
    {reaction : Reaction} (h : server.react engine sha1 action = some reaction) :
    reaction.written.filterMap readEntry = (server.delivers action).toList ∧
      ∀ entry ∈ reaction.written, '\n' ∈ entry.2 →
        ∃ path user, server.tree.node.get? path = some (user, false) ∧ user.isAdmin = true ∧
          user.sockStream = some entry.1 := by
  cases action with
  | request ss text disconnectRequested registered =>
      simp only [Server.react] at h
      split at h
      · obtain rfl := Option.some.inj h
        exact ⟨rfl, by simp⟩
      · next preq hpreq =>
          have hwritten : preq.written = [] := by
            obtain ⟨_, _, rfl⟩ := Option.map_eq_some_iff.mp hpreq
            rfl
          have hentries := handleRequest_mute hwritten h
          refine ⟨filterMap_mute fun entry hentry => (hentries entry hentry).1, ?_⟩
          intro entry hentry hmem
          exact absurd hmem (hentries entry hentry).2
  | message path recvd connType adminCmd memory time =>
      simp only [Server.react] at h
      split at h
      · next user hget =>
          obtain ⟨hreads, hlines⟩ := handleMessage_reads hnamed hget h
          exact ⟨hreads, fun entry hentry hmem => ⟨path, user, hget, hlines entry hentry hmem⟩⟩
      · simp at h
  | disconnect path =>
      simp only [Server.react] at h
      split at h
      · obtain rfl := Option.some.inj h
        exact ⟨rfl, by simp⟩
      · simp at h

/-- The texts that a step writes to a stream, in order. -/
def textsTo (engine : Engine) (sha1 : Sha1) (ss : SocketStream) (event : Event Recorded Action) :
    List Str :=
  match event.before.server.react engine sha1 event.action with
  | some reaction =>
      reaction.written.filterMap fun entry => if entry.1 = ss then some entry.2 else none
  | none => []

/-- The message that a step delivers to a stream. -/
def deliveredTo (ss : SocketStream) (event : Event Recorded Action) : Option Delivery :=
  (event.before.server.delivers event.action).bind fun entry =>
    if entry.1 = ss then some entry.2 else none

/-- The bytes that a run sends on a stream, after the banner. -/
def wire (engine : Engine) (sha1 : Sha1) (sock : SocketInterface) (ss : SocketStream)
    (events : List (Event Recorded Action)) : Str :=
  (events.flatMap (textsTo engine sha1 ss)).flatMap sock.send

/-- No administrator is online with the stream. -/
def NoAdministrator (ss : SocketStream) (server : Server) : Prop :=
  ∀ path user, server.tree.node.get? path = some (user, false) → user.isAdmin = true →
    user.sockStream ≠ some ss

/-- What is read as messages on a stream: of the texts that are written, of the bytes that are
sent, and of those that have come so far. -/
structure ReadsDeliveries (engine : Engine) (sha1 : Sha1) (sock : SocketInterface)
    (ss : SocketStream) (events : List (Event Recorded Action)) : Prop where
  texts : (events.flatMap (textsTo engine sha1 ss)).filterMap readDelivery =
    events.filterMap (deliveredTo ss)
  bytes : (∀ event ∈ events, NoAdministrator ss event.before.server) →
    (pieces '\n' (wire engine sha1 sock ss events)).filterMap readDelivery =
      events.filterMap (deliveredTo ss)
  begun : (∀ event ∈ events, NoAdministrator ss event.before.server) →
    ∀ come, come <+: wire engine sha1 sock ss events →
      (pieces '\n' come).filterMap readDelivery <+: events.filterMap (deliveredTo ss)

/-- A step of a run, for one stream. -/
theorem textsTo_reads {event : Event Recorded Action} (hnamed : Named event.before.server)
    (hstep : event.before.step engine sha1 event.action = some event.after) (ss : SocketStream) :
    (textsTo engine sha1 ss event).filterMap readDelivery = (deliveredTo ss event).toList ∧
      (NoAdministrator ss event.before.server →
        ∀ text ∈ textsTo engine sha1 ss event, '\n' ∉ text) := by
  obtain ⟨reaction, hreact, _⟩ := Option.map_eq_some_iff.mp hstep
  obtain ⟨hreads, hlines⟩ := react_reads hnamed hreact
  have htexts : textsTo engine sha1 ss event =
      reaction.written.filterMap fun entry => if entry.1 = ss then some entry.2 else none := by
    simp only [textsTo, hreact]
  rw [htexts]
  constructor
  · have hcommute : (fun entry : SocketStream × Str =>
          (if entry.1 = ss then some entry.2 else none).bind readDelivery) =
        fun entry => (readEntry entry).bind fun read =>
          if read.1 = ss then some read.2 else none := by
      funext entry
      unfold readEntry
      split
      · cases hread : readDelivery entry.2 <;> simp_all
      · cases hread : readDelivery entry.2 <;> simp_all
    rw [List.filterMap_filterMap, hcommute, ← List.filterMap_filterMap, hreads, deliveredTo]
    cases event.before.server.delivers event.action with
    | none => rfl
    | some entry =>
        rw [Option.toList_some, Option.bind_some]
        by_cases heq : entry.1 = ss <;> simp [heq]
  · intro hadmin text htext hmem
    obtain ⟨entry, hentry, hto⟩ := List.mem_filterMap.mp htext
    obtain ⟨rfl, rfl⟩ : entry.1 = ss ∧ entry.2 = text := by simpa using hto
    obtain ⟨path, user, hget, hisAdmin, hstream⟩ := hlines entry hentry hmem
    exact hadmin path user hget hisAdmin hstream

/-- What is read as messages on a stream are the messages that the steps of the server delivered to
it. -/
theorem readsDeliveries_of_steps (sock : SocketInterface) {database : Database}
    {events : List (Event Recorded Action)} {finish : Recorded}
    (hrun : Run (Recorded.step engine sha1) (Recorded.start database) events finish)
    (ss : SocketStream) : ReadsDeliveries engine sha1 sock ss events := by
  have hnamed := named_of_run hrun
  have hevents := fun event hevent =>
    textsTo_reads (hnamed event hevent) (hrun.step_eq hevent) ss
  have htexts : (events.flatMap (textsTo engine sha1 ss)).filterMap readDelivery =
      events.filterMap (deliveredTo ss) := by
    rw [List.filterMap_flatMap, List.flatMap_congr fun event hevent => (hevents event hevent).1]
    exact List.filterMap_eq_flatMap_toList .. |>.symm
  have hbytes (hadmin : ∀ event ∈ events, NoAdministrator ss event.before.server) :
      (pieces '\n' (wire engine sha1 sock ss events)).filterMap readDelivery =
        events.filterMap (deliveredTo ss) := by
    have hlines : ∀ text ∈ events.flatMap (textsTo engine sha1 ss), '\n' ∉ text := by
      intro text htext
      obtain ⟨event, hevent, htext⟩ := List.mem_flatMap.mp htext
      exact (hevents event hevent).2 (hadmin event hevent) text htext
    have hsend : sock.send = terminate '\n' := funext sock.send_eq
    rw [wire, hsend, pieces_terminated hlines, htexts]
  refine ⟨htexts, hbytes, fun hadmin come hcome => ?_⟩
  rw [← hbytes hadmin]
  exact (pieces_mono hcome).filterMap _

/-- In every run that spares the root, what is read as messages on a stream are the messages that
were delivered to it. -/
theorem wire_of_run (sock : SocketInterface) {database : Database}
    {events : List (Event Recorded Recorded.Turn)} {finish : Recorded}
    (hrun : Run (Recorded.turn engine sha1) (Recorded.start database) events finish)
    (hspares : ∀ event ∈ events, event.before.Spares event.action) (ss : SocketStream) :
    ReadsDeliveries engine sha1 sock ss (Recorded.acts events) :=
  readsDeliveries_of_steps sock (Recorded.run_acts hrun rfl hspares).1 ss

/-- Ann and bob are connected to one another, and ann writes to bob. -/
def conversation : List Recorded.Turn :=
  [.act (.request 1 "[WHEESPA_ANONYMOUS]::alias=ann:::connectto=bob:::".toList false false),
    .act (.request 2 "[WHEESPA_ANONYMOUS]::alias=bob:::connectto=ann:::".toList false false),
    .act (.message [] "WHEESPA_INTERNAL::x:::hello::::1".toList none none (fun _ => []) 7)]

/-- Bob reads one message, from ann. -/
theorem wire_conversation : ∃ events finish,
    Run (Recorded.turn .plain constantSha1) (Recorded.start fun _ => none) events finish ∧
    events.map Event.action = conversation ∧
    (Recorded.acts events).filterMap (deliveredTo 2) =
      [⟨"ann".toList, "hello".toList, "7".toList⟩] ∧
    ReadsDeliveries .plain constantSha1 .socket 2 (Recorded.acts events) := by
  have htrace : (trace (Recorded.turn .plain constantSha1) (Recorded.start fun _ => none)
      conversation).any fun events =>
        (events.all fun event => event.before.Spares event.action) &&
          (Recorded.acts events).filterMap (deliveredTo 2) ==
            [⟨"ann".toList, "hello".toList, "7".toList⟩] := by
    decide +kernel
  obtain ⟨events, hevents, hall⟩ := Option.any_eq_true _ _ |>.mp htrace
  obtain ⟨⟨finish, hrun⟩, hactions⟩ := Run.of_trace hevents
  rw [Bool.and_eq_true, List.all_eq_true, beq_iff_eq] at hall
  exact ⟨events, finish, hrun, hactions, hall.2,
    wire_of_run .socket hrun (fun event hevent => of_decide_eq_true (hall.1 event hevent)) 2⟩

end Runs

end Wheespa
