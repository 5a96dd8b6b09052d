import Mathlib.Data.Set.Card
import Wheespa.BinaryTree.FiniteMap
import Wheespa.HandleReceived

/-!
# The list of online users

`handleListOnline` sends the number of live nodes and then their keys, in order. The runs are those
of the tree against the map of the users that are online (`History`). `listsOnline_iff_admits` is
the main result: in every state of a run the list is sorted and names every user that is online once
exactly when each insertion of the run that takes over a flagged node has a key between the live
data around that node.
-/

namespace Wheespa

open Sql Transition

/-- The reply that names the given users: their number, and one write for each. -/
def onlineReply (ss : SocketStream) (names : List Str) : List (SocketStream × Str) :=
  (ss, integerText names.length) :: names.map fun name => (ss, name)

/-- The list of online users is right: the live keys are sorted, and a registered user who asks for
the list gets a sorted list of just the users that are online, after their number. The root of the
tree is deleted once the list is written. -/
structure ListsOnline (history : History WheespaConnected Str) : Prop where
  sorted : (history.tree.node.live.map key).Pairwise (· < ·)
  reply : ∀ (self : HandleReceived) (ss : SocketStream), self.user.registered = true →
    self.user.sockStream = some ss →
    ∃ names, self.handleListOnline history.tree =
        some (.returned 0, { self with
          written := self.written ++ onlineReply ss names
          rootDeleted := self.rootDeleted || !history.tree.isEmpty }) ∧
      names.Pairwise (· < ·) ∧ (∀ k, k ∈ names ↔ (history.online k).isSome) ∧
      { k | (history.online k).isSome }.ncard = names.length

/-- What a write to the sender does. -/
theorem write_user {self : HandleReceived} {ss : SocketStream}
    (hss : self.user.sockStream = some ss) (text : Str) :
    self.write self.user text = some { self with written := self.written ++ [(ss, text)] } := by
  rw [HandleReceived.write, hss, Option.map_some]

/-- The writes that name the users of a list. -/
theorem foldlM_write_user (users : List WheespaConnected) {self : HandleReceived}
    {ss : SocketStream} (hss : self.user.sockStream = some ss) :
    users.foldlM (fun self user => self.write self.user user.key) self =
      some { self with written := self.written ++ users.map fun user => (ss, user.key) } := by
  induction users generalizing self with
  | nil => simp
  | cons user users ih =>
      have hrest := @ih { self with written := self.written ++ [(ss, user.key)] } hss
      rw [List.foldlM_cons, write_user hss, Option.bind_eq_bind, Option.bind_some, hrest]
      simp

/-- What `handleListOnline` sends to a registered user. -/
theorem handleListOnline_eq {self : HandleReceived} {tree : WheespaServerTree} {ss : SocketStream}
    (hregistered : self.user.registered = true) (hss : self.user.sockStream = some ss)
    (harray : tree.dataArray = []) :
    self.handleListOnline tree = some (.returned 0, { self with
      written := self.written ++ onlineReply ss (tree.node.live.map WheespaConnected.key)
      rootDeleted := self.rootDeleted || !tree.isEmpty }) := by
  have hlive : tree.setDataArray.getDataArray = tree.node.live := by
    rw [BinarySearchTree.setDataArray, BinarySearchTree.getDataArray, harray,
      Node.setDataArray_eq, List.nil_append]
  have hnames := @foldlM_write_user tree.node.live { self with
    written := self.written ++ [(ss, integerText tree.node.live.length)] } ss hss
  simp only [HandleReceived.handleListOnline, hregistered, Bool.not_true, Bool.false_eq_true,
    if_false, hlive, write_user hss, Option.bind_eq_bind, Option.bind_some, hnames]
  simp [onlineReply, BinarySearchTree.isEmpty, BinarySearchTree.setDataArray]

/-- The tree is ordered and tracks the users that are online, and `setDataArray` has not been called
on it. -/
structure Listed (history : History WheespaConnected Str) : Prop where
  ordered : history.Ordered
  array : history.tree.dataArray = []

/-- A list read off an ordered tree that tracks the users online is right. -/
theorem Listed.listsOnline {history : History WheespaConnected Str} (h : Listed history) :
    ListsOnline history := by
  have hsorted : (history.tree.node.live.map WheespaConnected.key).Pairwise (· < ·) :=
    h.ordered.liveOrdered.sorted
  have hmem (k : Str) : k ∈ history.tree.node.live.map WheespaConnected.key ↔
      (history.online k).isSome := by
    rw [Option.isSome_iff_exists, List.mem_map]
    exact exists_congr fun data => (h.ordered.tracks k data).symm
  refine ⟨hsorted, fun self ss hregistered hss =>
    ⟨_, handleListOnline_eq hregistered hss h.array, hsorted, hmem, ?_⟩⟩
  have hset : { k | (history.online k).isSome } =
      ((history.tree.node.live.map WheespaConnected.key).toFinset : Set Str) := by
    ext k
    simp only [Set.mem_ofPred_eq, List.coe_toFinset, hmem]
  rw [hset, Set.ncard_coe_finset, List.toFinset_card_of_nodup (hsorted.imp ne_of_lt)]

/-- No operation calls `setDataArray` on the tree. -/
theorem dataArray_step {before after : History WheespaConnected Str}
    {operation : History.Operation WheespaConnected Str}
    (hstep : before.step operation = some after) :
    after.tree.dataArray = before.tree.dataArray := by
  obtain ⟨data, rfl, _, rfl⟩ | ⟨k, rfl, rfl⟩ | ⟨path, data, rfl, _, rfl⟩ :=
    History.step_cases hstep
  · rfl
  · simp only [BinarySearchTree.remove]
    split <;> rfl
  · rfl

/-- From a state in which the list is right for its reason, a step leads to a right list exactly
when it is admitted. -/
theorem Listed.listsOnline_iff {before after : History WheespaConnected Str}
    {operation : History.Operation WheespaConnected Str} (h : Listed before)
    (hstep : before.step operation = some after) :
    ListsOnline after ↔ before.Admitted operation := by
  constructor
  · intro hafter
    obtain ⟨data, rfl, _, rfl⟩ | ⟨k, rfl, _⟩ | ⟨path, data, rfl, _, _⟩ := History.step_cases hstep
    · exact Node.admits_of_sorted_place hafter.sorted
    · trivial
    · trivial
  · intro hadmitted
    have hlisted : Listed after := ⟨(History.ordered_iff_admitted hstep h.ordered).mpr hadmitted,
      (dataArray_step hstep).trans h.array⟩
    exact hlisted.listsOnline

/-- The list of online users is right in every state of a run exactly when each insertion of the run
that takes over a flagged node has a key between the live data around that node. -/
theorem listsOnline_iff_admits
    {events : List (Event (History WheespaConnected Str) (History.Operation WheespaConnected Str))}
    {finish : History WheespaConnected Str} (hrun : Run History.step History.start events finish) :
    (∀ event ∈ events, ListsOnline event.after) ↔
      ∀ event ∈ events, event.before.Admitted event.action := by
  apply hrun.goal_iff Listed ⟨History.ordered_start, rfl⟩
  · exact fun _ _ _ hstep hbefore => hbefore.listsOnline_iff hstep
  · intro before operation after hstep hbefore hafter
    exact ⟨(History.ordered_iff_admitted hstep hbefore.ordered).mpr
      ((hbefore.listsOnline_iff hstep).mp hafter), (dataArray_step hstep).trans hbefore.array⟩

/-- A registered user of the name, on a connection of its own. -/
def registeredUser (name : String) : WheespaConnected :=
  ⟨name.toList, some 1, false, true, []⟩

/-- A node that is taken over by a key that fits there. -/
theorem listsOnline_between : ∃ events finish,
    Run History.step (History.start : History WheespaConnected Str) events finish ∧
    events.map Event.action = [.insert (registeredUser "cleo"), .insert (registeredUser "ann"),
      .remove "cleo".toList, .insert (registeredUser "bob")] ∧
    ∀ event ∈ events, ListsOnline event.after := by
  obtain ⟨events, finish, hrun, hactions, hadmitted⟩ := Run.exists_of_trace History.step
    (History.start : History WheespaConnected Str) [.insert (registeredUser "cleo"),
      .insert (registeredUser "ann"), .remove "cleo".toList, .insert (registeredUser "bob")]
    (fun event => event.before.Admitted event.action) (by decide)
  exact ⟨events, finish, hrun, hactions, (listsOnline_iff_admits hrun).mpr hadmitted⟩

/-- After cleo, ann and dan have logged in and cleo has left, eve takes over the root. Then `find`
does not find dan, who logs in again and is listed twice. -/
theorem take_over_lists_twice : ∃ finish,
    [History.Operation.insert (registeredUser "cleo"), .insert (registeredUser "ann"),
      .insert (registeredUser "dan"), .remove "cleo".toList, .insert (registeredUser "eve"),
      .insert (registeredUser "dan")].foldlM History.step
        (History.start : History WheespaConnected Str) = some finish ∧
      finish.tree.node.live.map WheespaConnected.key =
        ["ann".toList, "dan".toList, "eve".toList, "dan".toList] ∧
      ¬ ListsOnline finish := by
  refine ⟨_, rfl, rfl, fun h => ?_⟩
  exact absurd h.sorted (by decide)

end Wheespa
