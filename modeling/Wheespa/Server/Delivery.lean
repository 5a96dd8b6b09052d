import Mathlib.Data.Set.Basic
import Wheespa.BinaryTree.Live
import Wheespa.HandleReceived

/-!
# Where a message can go

Handling a message writes to the stream of its sender, and otherwise only to the stream of the live
node that `find` returns for one name: the second group of the message for a registered sender, and
the name noted at the login for any other. `message_streams` states this for every message, and that
an unregistered sender can reach both of them and nothing else.
-/

namespace Wheespa

open Sql

/-- The stream of the sender, or of the live node that `find` returns for the name. -/
def Reaches (tree : WheespaServerTree) (user : WheespaConnected) (name : Str) (ss : SocketStream) :
    Prop :=
  user.sockStream = some ss ∨
    ∃ path data, tree.find name = some path ∧ tree.node.get? path = some (data, false) ∧
      data.key = name ∧ data.sockStream = some ss

/-- The name that a message is addressed to: its second group, empty where it does not match, or
the name noted for a sender who is not registered. -/
def addressed (user : WheespaConnected) (recvd : Str) : Str :=
  if user.registered then ((messageRegex.fullMatch recvd).bind fun groups => groups 2).getD []
  else user.connectTo

/-- What is written while a message is handled, up to the first null pointer. -/
def writes (engine : Engine) (tree : WheespaServerTree) (user : WheespaConnected) (file : Database)
    (recvd : Str) (connType : Option ConnectType) (adminCmd : Option AdminCommand)
    (memory : Int → Str) (time : Int) : List (SocketStream × Str) :=
  match HandleReceived.new recvd user file connType adminCmd with
  | none => []
  | some received =>
      match received.handle engine memory tree time with
      | none => received.written
      | some (_, after) => after.written

namespace HandleReceived

variable {engine : Engine} {memory : Int → Str} {tree : WheespaServerTree} {time : Int}

/-- The constructor writes to the sender only. -/
theorem new_written {recvd : Str} {user : WheespaConnected} {file : Database}
    {connType : Option ConnectType} {adminCmd : Option AdminCommand} {self : HandleReceived}
    (h : new recvd user file connType adminCmd = some self) :
    ∀ entry ∈ self.written, user.sockStream = some entry.1 := by
  unfold new at h
  dsimp only at h
  split_ifs at h
  · split at h
    · obtain rfl := Option.some.inj h
      simp
    · obtain ⟨ss, hstream, rfl⟩ := write_eq_some.mp h
      simpa using hstream
  · obtain rfl := Option.some.inj h
    simp
  · obtain rfl := Option.some.inj h
    simp
  · obtain rfl := Option.some.inj h
    simp
  · obtain rfl := Option.some.inj h
    simp
  · obtain ⟨ss, hstream, rfl⟩ := write_eq_some.mp h
    simpa using hstream

/-- An administrator's command writes to the sender only. -/
theorem handleAdmin_written {self after : HandleReceived} {completion : Completion}
    (h : self.handleAdmin engine memory = some (completion, after)) :
    ∃ rest, after.written = self.written ++ rest ∧
      ∀ entry ∈ rest, self.user.sockStream = some entry.1 := by
  have hsilent {db : FlexDB} {rc : Int}
      (h : some (Completion.returned rc, { self with db := db }) = some (completion, after)) :
      ∃ rest, after.written = self.written ++ rest ∧
        ∀ entry ∈ rest, self.user.sockStream = some entry.1 := by
    obtain rfl := (Prod.mk.inj (Option.some.inj h)).2
    exact ⟨[], by simp, by simp⟩
  have hshow {table : Str} (h : self.showTable engine table = some (completion, after)) :
      ∃ rest, after.written = self.written ++ rest ∧
        ∀ entry ∈ rest, self.user.sockStream = some entry.1 := by
    rcases showTable_eq_some h with ⟨_, hwritten⟩ | ⟨ss, text, hstream, _, hwritten⟩
    · exact ⟨[], by simpa using hwritten, by simp⟩
    · exact ⟨[(ss, text)], hwritten, by simpa using hstream⟩
  unfold handleAdmin at h
  dsimp only at h
  split at h
  · obtain ⟨ss, hstream, _, rfl⟩ := reply_eq_some.mp h
    exact ⟨[(ss, _)], rfl, by simpa using hstream⟩
  · -- the commands in the order of the `switch`: those that show a table write its text
    split at h
    · exact hsilent h
    · exact hsilent h
    · exact hshow h
    · exact hshow h
    · exact hshow h
    · exact hsilent h
    · exact hsilent h
    · exact hsilent h
    · exact hsilent h

/-- Every write of `handle` goes to the sender or to the live node of the addressee. -/
theorem handle_written {self after : HandleReceived} {completion : Completion}
    (h : self.handle engine memory tree time = some (completion, after)) :
    ∃ rest, after.written = self.written ++ rest ∧
      ∀ entry ∈ rest, Reaches tree self.user self.addressee entry.1 := by
  unfold handle at h
  split at h
  · obtain ⟨rest, hrest, hstreams⟩ := handleAdmin_written h
    exact ⟨rest, hrest, fun entry hentry => .inl (hstreams entry hentry)⟩
  · obtain ⟨connected, ss, text, rc, hstream, _, rfl, ⟨path, hfind, hget⟩ | rfl⟩ :=
      handleInternal_eq_some h
    · obtain ⟨data, hdata, hkey⟩ := Node.get?_of_find hfind
      obtain rfl : connected = data := by simpa [hget] using hdata
      refine ⟨[(ss, text)], rfl, ?_⟩
      rw [List.forall_mem_singleton]
      exact .inr ⟨path, connected, hfind, hget, hkey, hstream⟩
    · exact ⟨[(ss, text)], rfl, by simpa [Reaches] using .inl hstream⟩
  · obtain rfl := (Prod.mk.inj (Option.some.inj h)).2
    exact ⟨[], by simp, by simp⟩
  · obtain ⟨ss, text, texts, rc, hstream, _, rfl⟩ := handleListOnline_eq_some h
    refine ⟨_, rfl, ?_⟩
    rw [List.forall_mem_map]
    exact fun _ _ => .inl hstream
  · obtain ⟨ss, hstream, _, rfl⟩ := reply_eq_some.mp h
    exact ⟨[(ss, _)], rfl, by simpa [Reaches] using .inl hstream⟩
  · obtain rfl := (Prod.mk.inj (Option.some.inj h)).2
    exact ⟨[], by simp, by simp⟩

end HandleReceived

/-- What is written for a message goes to its sender or to the live node that it is addressed to. -/
theorem reaches_of_mem_writes {engine : Engine} {tree : WheespaServerTree}
    {user : WheespaConnected} {file : Database} {recvd : Str} {connType : Option ConnectType}
    {adminCmd : Option AdminCommand} {memory : Int → Str} {time : Int} {entry : SocketStream × Str}
    (h : entry ∈ writes engine tree user file recvd connType adminCmd memory time) :
    Reaches tree user (addressed user recvd) entry.1 := by
  unfold writes at h
  cases hnew : HandleReceived.new recvd user file connType adminCmd with
  | none => simp [hnew] at h
  | some received =>
      obtain ⟨hresult, huser, _⟩ := HandleReceived.new_eq hnew
      have haddressee : received.addressee = addressed user recvd := by
        rw [HandleReceived.addressee, HandleReceived.group, hresult, huser]
        rfl
      have hfirst := HandleReceived.new_written hnew
      simp only [hnew] at h
      split at h
      · exact .inl (hfirst entry h)
      · next completion after hhandle =>
          obtain ⟨rest, hwritten, hrest⟩ := HandleReceived.handle_written hhandle
          rw [haddressee, huser] at hrest
          rw [hwritten] at h
          rcases List.mem_append.mp h with hold | hnew
          · exact .inl (hfirst entry hold)
          · exact hrest entry hnew

/-- A message that matches nothing is answered to its sender. -/
theorem mem_writes_self {engine : Engine} {tree : WheespaServerTree} {user : WheespaConnected}
    {file : Database} {ss : SocketStream} (hstream : user.sockStream = some ss) :
    (ss, "WHEESPA_FORMAT_ERROR".toList) ∈
      writes engine tree user file "x".toList none none (fun _ => []) 0 := by
  have hmatch : messageRegex.fullMatch "x".toList = none :=
    Option.isNone_iff_eq_none.mp (by decide +kernel)
  rw [writes, HandleReceived.new_of_none hmatch hstream]
  exact List.mem_singleton_self _

/-- A sender who is not registered writes to the live node of the name noted at the login. -/
theorem mem_writes_connectTo {engine : Engine} {tree : WheespaServerTree}
    {user data : WheespaConnected} {file : Database} {path : Path} {ss : SocketStream}
    (huser : user.registered = false) (hfind : tree.find user.connectTo = some path)
    (hget : tree.node.get? path = some (data, false)) (hstream : data.sockStream = some ss) :
    ∃ text, (ss, text) ∈ writes engine tree user file "WHEESPA_INTERNAL::x:::hello::::1".toList
      none none (fun _ => []) 0 := by
  obtain ⟨groups, hmatch⟩ : ∃ groups, messageRegex.fullMatch
      "WHEESPA_INTERNAL::x:::hello::::1".toList = some groups :=
    Option.isSome_iff_exists.mp (by decide +kernel)
  have htype : groups 1 = some "WHEESPA_INTERNAL".toList := by
    have hgroup : (messageRegex.fullMatch "WHEESPA_INTERNAL::x:::hello::::1".toList).map
        (fun groups => groups 1) = some (some "WHEESPA_INTERNAL".toList) := by
      decide +kernel
    rw [hmatch] at hgroup
    exact Option.some.inj hgroup
  rw [writes, HandleReceived.new_of_internal hmatch htype]
  generalize hself :
    HandleReceived.mk (some groups) user (.openFile file) (some .internal) none [] false = self
  have haddressee : self.addressee = user.connectTo := by
    subst hself
    simp [HandleReceived.addressee, huser]
  have hhandle : self.handle engine (fun _ => []) tree 0 = self.handleInternal tree 0 := by
    subst hself
    rfl
  rw [← haddressee] at hfind
  simp only [hhandle, HandleReceived.handleInternal_of_find hfind hget hstream]
  exact ⟨_, List.mem_append_right _ (List.mem_singleton_self _)⟩

/-- For every tree and every sender, what is written while a message is handled goes to the sender
or to the one live node that it is addressed to; and the streams that a sender who is not registered
can cause a write to are its own and that of the live node of the name noted at its login. -/
theorem message_streams (engine : Engine) (tree : WheespaServerTree) (user : WheespaConnected)
    (file : Database) :
    (∀ recvd connType adminCmd memory time,
      ∀ entry ∈ writes engine tree user file recvd connType adminCmd memory time,
        Reaches tree user (addressed user recvd) entry.1) ∧
    (user.registered = false →
      {ss | ∃ recvd connType adminCmd memory time text,
        (ss, text) ∈ writes engine tree user file recvd connType adminCmd memory time} =
      {ss | Reaches tree user user.connectTo ss}) := by
  refine ⟨fun recvd connType adminCmd memory time entry h => reaches_of_mem_writes h,
    fun huser => Set.ext fun ss => ?_⟩
  have haddressed (recvd : Str) : addressed user recvd = user.connectTo := by
    simp [addressed, huser]
  constructor
  · rintro ⟨recvd, connType, adminCmd, memory, time, text, h⟩
    have hreaches := reaches_of_mem_writes h
    rwa [haddressed] at hreaches
  · rintro (hstream | ⟨path, data, hfind, hget, _, hstream⟩)
    · exact ⟨_, _, _, _, _, _, mem_writes_self hstream⟩
    · obtain ⟨text, htext⟩ := mem_writes_connectTo huser hfind hget hstream
      exact ⟨_, _, _, _, _, text, htext⟩

end Wheespa
