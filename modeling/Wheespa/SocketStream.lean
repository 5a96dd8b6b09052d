import Wheespa.Library.Framing
import Wheespa.WheespaTree

/-!
# Sending and receiving messages

`send` and `recv` of `socket.cc` and `secure_socket.cc`. What goes to the transport is a text, and
what comes from it is the answer to one read of at most the size asked for: bytes, none at the end
of the stream, or `none` where the read fails with `-1`.

`recv_messages_iff` says for which cuttings of the stream the messages that were sent are received:
those where every read delivers what one `send` wrote.
-/

namespace Wheespa

open Framing

/-- The text that `send` hands over: `msg` with a newline, unless it ends with one. -/
def withNewline (msg : Str) : Str :=
  if msg.isEmpty || msg.getLast? != some '\n' then msg ++ ['\n'] else msg

/-- The text that `recv` returns: the bytes read, without a newline at their end. -/
def withoutNewline (msg : Str) : Str :=
  if !msg.isEmpty && msg.getLast? == some '\n' then msg.dropLast else msg

/-- What `recv` makes of an answer, or `none` where it throws `ConnectionClosedException`. -/
def received : Option Str → Option Str
  | some [] => none
  | some bytes => some (withoutNewline bytes)
  | none => some (withoutNewline [])

namespace Socket

/-- `Socket::send`. -/
def send (msg : Str) : Str :=
  withNewline msg

/-- `Socket::recv`, with the answer of `::recv`. -/
def recv (answer : Option Str) : Option Str :=
  received answer

end Socket

namespace SecureSocket

/-- `SecureSocket::send`. -/
def send (msg : Str) : Str :=
  withNewline msg

/-- `SecureSocket::recv`, with the answer of `SSL_read`. A null `m_ssl` counts as the end of the
stream. -/
def recv (ssl : Bool) (answer : Option Str) : Option Str :=
  received (if ssl then answer else some [])

end SecureSocket

/-- The classes that implement `SocketInterface`. The `m_ssl` of an accepted connection is not
null. -/
inductive SocketInterface where
  | socket
  | secureSocket
  deriving DecidableEq, Repr

namespace SocketInterface

/-- The virtual method `send`. -/
def send : SocketInterface → Str → Str
  | .socket => Socket.send
  | .secureSocket => SecureSocket.send

/-- The virtual method `recv`. -/
def recv : SocketInterface → Option Str → Option Str
  | .socket => Socket.recv
  | .secureSocket => SecureSocket.recv true

/-- Both classes send the same bytes. -/
theorem send_eq (sock : SocketInterface) (msg : Str) : sock.send msg = terminate '\n' msg := by
  have hsend : withNewline msg = terminate '\n' msg := by
    by_cases hlast : msg.getLast? = some '\n'
    · have hne : msg.isEmpty = false := by
        cases msg with
        | nil => simp at hlast
        | cons => rfl
      simp [withNewline, terminate, hlast, hne]
    · simp [withNewline, terminate, hlast]
  cases sock with
  | socket => exact hsend
  | secureSocket => exact hsend

/-- Both classes return the bytes of a read without the newline at their end. -/
theorem recv_chunk (sock : SocketInterface) {chunk : Str} (h : chunk ≠ []) :
    sock.recv (some chunk) = some (strip '\n' chunk) := by
  have hrecv : received (some chunk) = some (strip '\n' chunk) := by
    obtain ⟨c, rest, rfl⟩ := List.exists_cons_of_ne_nil h
    simp [received, withoutNewline, strip]
  cases sock with
  | socket => exact hrecv
  | secureSocket => exact hrecv

/-- The strings that successive calls of `recv` return. -/
def recvAll (sock : SocketInterface) (reads : List (Read Char)) : Option (List Str) :=
  reads.mapM fun read => sock.recv (some read.chunk)

/-- The calls of `recv` return the chunks of the stream without the newlines at their ends. -/
theorem recvAll_eq (sock : SocketInterface) (reads : List (Read Char)) :
    sock.recvAll reads = some ((reads.map Read.chunk).map (strip '\n')) := by
  induction reads with
  | nil => rfl
  | cons read reads ih =>
      rw [recvAll, List.mapM_cons, recv_chunk sock read.ne_nil]
      show (sock.recvAll reads).bind _ = _
      rw [ih]
      rfl

/-- From a stream of messages, sent one after the other and read in any sizes, `recv` returns the
messages exactly when every read delivers one message with its newline. -/
theorem recv_messages_iff (sender receiver : SocketInterface) {messages : List Str}
    (hmessages : ∀ msg ∈ messages, IsMessage '\n' msg) {reads : List (Read Char)}
    (hstream : (reads.map Read.chunk).flatten = (messages.map sender.send).flatten) :
    receiver.recvAll reads = some messages ↔
      reads.map Read.chunk = messages.map (· ++ ['\n']) := by
  have hsend : messages.map sender.send = messages.map (· ++ ['\n']) := by
    refine List.map_congr_left fun msg hmsg => ?_
    rw [send_eq, (hmessages msg hmsg).terminate_eq]
  have hchunks : ∀ chunk ∈ reads.map Read.chunk, chunk ≠ [] := by
    rw [List.forall_mem_map]
    exact fun read _ => read.ne_nil
  rw [hsend] at hstream
  rw [recvAll_eq, Option.some.injEq]
  exact strip_chunks_iff hchunks hmessages hstream

/-- Two messages that are read one by one. -/
theorem recv_messages_separate :
    socket.recvAll [⟨1024, "hello\n".toList, by decide, by decide⟩,
      ⟨2048, "bye\n".toList, by decide, by decide⟩] = some ["hello".toList, "bye".toList] :=
  (@recv_messages_iff socket socket ["hello".toList, "bye".toList] (by decide) _
    (by decide)).mpr (by decide)

/-- Two messages that one read delivers are received as one. -/
theorem recv_messages_merged : ∃ (messages : List Str) (reads : List (Read Char)),
    (∀ msg ∈ messages, IsMessage '\n' msg) ∧
    (∀ read ∈ reads, read.size = 1024 ∨ read.size = 2048) ∧
    (reads.map Read.chunk).flatten = (messages.map socket.send).flatten ∧
    socket.recvAll reads = some ["hello\nbye".toList] ∧
    socket.recvAll reads ≠ some messages :=
  ⟨["hello".toList, "bye".toList], [⟨1024, "hello\nbye\n".toList, by decide, by decide⟩],
    by decide, by decide, by decide, by decide, by decide⟩

end SocketInterface

end Wheespa
