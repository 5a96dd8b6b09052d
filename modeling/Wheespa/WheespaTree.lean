import Mathlib.Data.List.Lex
import Mathlib.Data.Char
import Wheespa.BinaryTree.Basic

/-!
# The tree of connected users

`WheespaConnected` of `wheespa_tree.hpp`. A `std::string` is the list of its characters, a byte
being the character of the same code, so that keys compare as `std::string` compares them. A
`SocketStream` is named by the number of the connection it writes to.
-/

namespace Wheespa

/-- A `std::string`. -/
abbrev Str := List Char

/-- The connection a `SocketStream` reads from and writes to. -/
abbrev SocketStream := Nat

/-- The data of a connected user. -/
structure WheespaConnected where
  key : Str
  sockStream : Option SocketStream
  isAdmin : Bool
  registered : Bool
  /-- anonymous users can only connect to one registered user or an address -/
  connectTo : Str
  deriving DecidableEq, Repr

namespace WheespaConnected

/-- The constructor `Connected()`. -/
def new : WheespaConnected where
  key := []
  sockStream := none
  isAdmin := false
  registered := false
  connectTo := []

instance : Keyed WheespaConnected Str :=
  ⟨WheespaConnected.key⟩

@[simp] theorem key_eq (connected : WheespaConnected) :
    Keyed.key connected = connected.key := rfl

end WheespaConnected

/-- The typedef `WheespaServerTree`. -/
abbrev WheespaServerTree := BinarySearchTree WheespaConnected

end Wheespa
