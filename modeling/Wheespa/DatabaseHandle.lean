import Wheespa.Library.Lifecycle

/-!
# The handle of a database

The member `db_handle` of `FlexDB` over the life of an object. `sqlite3_open` writes it, the queries
and `close` pass it on, `close` leaves it as it is, and the destructor calls `close` again; where
the constructor that opens the file throws, the destructor is not called. `closedOnce_iff` says in
which sequences of calls each handle is closed exactly once and not used after.
-/

namespace Wheespa

open Lifecycle

/-- The member `db_handle`, and what the library has done: the number of handles that it has
returned, which are named in this order, and the calls that were made on them. -/
structure DatabaseHandle where
  dbHandle : Option Nat
  returned : Nat
  calls : Log Nat
  deriving DecidableEq, Repr

namespace DatabaseHandle

/-- What `sqlite3_open` comes to: a handle and `SQLITE_OK`, a handle and an error, or a null pointer
and an error, where there is no memory for a handle. -/
inductive OpenResult where
  | ok
  | failed
  | noMemory
  deriving DecidableEq, Repr

/-- The member functions of `FlexDB` other than `open` and `close`. -/
inductive Query where
  | execQuery
  | createTable
  | insert
  | deleteRecord
  | update
  | dropTable
  | setTableStructure
  | printTable
  | getColumns
  | initializeStmt
  | getColumnCount
  | getStmt
  | getTableStructure
  | getLAT
  | getLastErrMsg
  | printErrMsg
  deriving DecidableEq, Repr

/-- The function passes the handle to the library. The others read members of the object, and
`sqlite3_column_count` is given a statement. -/
def Query.usesHandle : Query → Bool
  | .execQuery | .createTable | .insert | .deleteRecord | .update | .dropTable
  | .setTableStructure | .printTable | .getColumns | .initializeStmt => true
  | .getColumnCount | .getStmt | .getTableStructure | .getLAT | .getLastErrMsg
  | .printErrMsg => false

/-- A call of a member function. -/
inductive Member where
  | open (result : OpenResult)
  | close
  | query (query : Query)
  deriving DecidableEq, Repr

/-- The initialisation `db_handle(nullptr)`. -/
def new : DatabaseHandle :=
  ⟨none, 0, []⟩

/-- `sqlite3_open(file, &db_handle)`. -/
def sqlite3Open (db : DatabaseHandle) : OpenResult → DatabaseHandle
  | .ok | .failed =>
      ⟨some db.returned, db.returned + 1, db.calls ++ [(db.returned, .acquire)]⟩
  | .noMemory => { db with dbHandle := none }

/-- A function of the library on `db_handle`. On a null pointer it does nothing. -/
def onHandle (db : DatabaseHandle) (event : Event) : DatabaseHandle :=
  match db.dbHandle with
  | some h => { db with calls := db.calls ++ [(h, event)] }
  | none => db

/-- A call of a member function. Where `open` throws, the object is as it is after the call of the
library. -/
def step (db : DatabaseHandle) : Member → DatabaseHandle
  | .open result => db.sqlite3Open result
  | .close => db.onHandle .release
  | .query query => if query.usesHandle then db.onHandle .use else db

/-- The two constructors, the second with what its `open` comes to. -/
inductive Constructor where
  | empty
  | file (result : OpenResult)
  deriving DecidableEq, Repr

/-- The calls of the library over the life of an object: its construction, the calls of its member
functions, and the destructor, which calls `close`. An object whose constructor throws is not
destructed. -/
def lifetime : Constructor → List Member → Log Nat
  | .empty, members => ((members.foldl step new).step .close).calls
  | .file .ok, members => ((members.foldl step (new.step (.open .ok))).step .close).calls
  | .file result, _ => (new.step (.open result)).calls

/-- Every handle that `sqlite3_open` has returned is used, then closed once, and then not used any
more. -/
def ClosedOnce (calls : Log Nat) : Prop :=
  ∀ h, (h, .acquire) ∈ calls → Complete (eventsOf calls h)

/-! ## Which sequences of calls are right -/

/-- What `db_handle` points to: nothing, a connection that is open, or one that is closed. -/
inductive Phase where
  | null
  | opened
  | closed
  deriving DecidableEq, Repr

/-- The phase after a call, or `none` where the call is wrong in its phase: opening over an open
connection, and closing or using a closed one. -/
def Phase.next : Phase → Member → Option Phase
  | .opened, .open _ => none
  | _, .open .noMemory => some .null
  | _, .open _ => some .opened
  | .null, .close => some .null
  | .opened, .close => some .closed
  | .closed, .close => none
  | .closed, .query query => if query.usesHandle then none else some .closed
  | phase, .query _ => some phase

/-- No call is wrong in its phase. -/
def Phase.obeys (phase : Phase) (members : List Member) : Prop :=
  (members.foldlM Phase.next phase).isSome

instance (phase : Phase) (members : List Member) : Decidable (phase.obeys members) :=
  inferInstanceAs (Decidable (_ = true))

/-- The calls of an object, with that of the destructor, are right. A constructor that throws must
not have been given a handle. -/
def Disciplined : Constructor → List Member → Prop
  | .empty, members => Phase.null.obeys (members ++ [.close])
  | .file .ok, members => Phase.opened.obeys (members ++ [.close])
  | .file .failed, _ => False
  | .file .noMemory, _ => True

/-- The handle of the object is in the phase, and the others are all closed. -/
structure Tracks (db : DatabaseHandle) (phase : Phase) : Prop where
  fresh : ∀ h, db.returned ≤ h → status db.calls h = .absent
  others : ∀ h < db.returned, db.dbHandle ≠ some h → status db.calls h = .released
  handle : match phase with
    | .null => db.dbHandle = none
    | .opened => ∃ h < db.returned, db.dbHandle = some h ∧ status db.calls h = .held
    | .closed => ∃ h < db.returned, db.dbHandle = some h ∧ status db.calls h = .released

/-- Some handle is beyond repair: it was treated wrongly, or it is lost without having been
closed. -/
def Spoiled (db : DatabaseHandle) : Prop :=
  ∃ h < db.returned, status db.calls h = .violated ∨
    (db.dbHandle ≠ some h ∧ status db.calls h ≠ .released)

theorem tracks_new : new.Tracks .null :=
  ⟨fun _ _ => rfl, fun h hlt => absurd hlt (Nat.not_lt_zero h), rfl⟩

/-! ### What a call does -/

/-- A call of the library on a handle. -/
theorem onHandle_of_some {db : DatabaseHandle} {h : Nat} (hhandle : db.dbHandle = some h)
    (event : Event) : db.onHandle event = { db with calls := db.calls ++ [(h, event)] } := by
  simp only [onHandle, hhandle]

theorem onHandle_of_none {db : DatabaseHandle} (hhandle : db.dbHandle = none) (event : Event) :
    db.onHandle event = db := by
  simp only [onHandle, hhandle]

/-- No other handle is concerned. -/
theorem status_onHandle_of_ne {db : DatabaseHandle} {h : Nat} (hne : db.dbHandle ≠ some h)
    (event : Event) : status (db.onHandle event).calls h = status db.calls h := by
  cases hhandle : db.dbHandle with
  | none => rw [onHandle_of_none hhandle]
  | some h' =>
      have hother : h' ≠ h := fun heq => hne (hhandle.trans (congrArg some heq))
      rw [onHandle_of_some hhandle, status_snoc, if_neg hother]

/-- Opening concerns the handle that it returns, which is a new one. -/
theorem status_sqlite3Open {db : DatabaseHandle} {h : Nat} (hlt : h < db.returned)
    (result : OpenResult) : status (db.sqlite3Open result).calls h = status db.calls h := by
  cases result with
  | ok | failed => exact (status_snoc ..).trans (if_neg (Nat.ne_of_gt hlt))
  | noMemory => rfl

/-! ### What a wrong call leaves -/

/-- A call on the handle of the object repairs no handle. -/
theorem Spoiled.onHandle {db : DatabaseHandle} (h : db.Spoiled) (event : Event) :
    (db.onHandle event).Spoiled := by
  obtain ⟨r, hlt, hspoiled⟩ := h
  have hfields : (db.onHandle event).returned = db.returned ∧
      (db.onHandle event).dbHandle = db.dbHandle := by
    unfold DatabaseHandle.onHandle
    split <;> exact ⟨rfl, rfl⟩
  refine ⟨r, hfields.1 ▸ hlt, ?_⟩
  rw [hfields.2]
  by_cases hcurrent : db.dbHandle = some r
  · have hviolated := hspoiled.resolve_right fun hlost => hlost.1 hcurrent
    left
    rw [onHandle_of_some hcurrent, status_snoc, if_pos rfl, hviolated]
    cases event <;> rfl
  · rwa [status_onHandle_of_ne hcurrent]

/-- Opening repairs no handle: it concerns a new one only. -/
theorem Spoiled.sqlite3Open {db : DatabaseHandle} (h : db.Spoiled) (result : OpenResult) :
    (db.sqlite3Open result).Spoiled := by
  obtain ⟨r, hlt, hspoiled⟩ := h
  have hreturned : db.returned ≤ (db.sqlite3Open result).returned := by
    cases result with
    | ok | failed => exact Nat.le_succ _
    | noMemory => exact Nat.le_refl _
  have hnew : (db.sqlite3Open result).dbHandle ≠ some r := by
    cases result with
    | ok | failed => exact fun heq => Nat.ne_of_gt hlt (Option.some.inj heq)
    | noMemory => exact (Option.some_ne_none r).symm
  refine ⟨r, Nat.lt_of_lt_of_le hlt hreturned, ?_⟩
  rw [status_sqlite3Open hlt]
  exact hspoiled.imp_right fun hlost => ⟨hnew, hlost.2⟩

/-- No call repairs a handle. -/
theorem Spoiled.step {db : DatabaseHandle} (h : db.Spoiled) (member : Member) :
    (db.step member).Spoiled := by
  cases member with
  | «open» result => exact h.sqlite3Open result
  | close => exact h.onHandle .release
  | query query =>
      rw [DatabaseHandle.step]
      split
      · exact h.onHandle .use
      · exact h

theorem Spoiled.foldl {db : DatabaseHandle} (h : db.Spoiled) (members : List Member) :
    (members.foldl DatabaseHandle.step db).Spoiled := by
  induction members generalizing db with
  | nil => exact h
  | cons member members ih => exact ih (h.step member)

/-- A wrong call spoils a handle: one that is open is lost, or one that is closed is called on. -/
theorem Tracks.spoiled {db : DatabaseHandle} {phase : Phase} (h : db.Tracks phase)
    {member : Member} (hnext : phase.next member = none) : (db.step member).Spoiled := by
  have hclosed (hphase : phase = .closed) (event : Event) : (db.onHandle event).Spoiled := by
    subst hphase
    obtain ⟨r, hlt, hcurrent, hstatus⟩ := h.handle
    refine ⟨r, by rwa [onHandle_of_some hcurrent], .inl ?_⟩
    rw [onHandle_of_some hcurrent, status_snoc, if_pos rfl, hstatus]
    cases event <;> rfl
  cases member with
  | «open» result =>
      cases phase with
      | null | closed => cases result <;> cases hnext
      | opened =>
          obtain ⟨r, hlt, hcurrent, hstatus⟩ := h.handle
          have hheld : status (db.sqlite3Open result).calls r ≠ .released := by
            rw [status_sqlite3Open hlt, hstatus]
            exact Status.noConfusion
          cases result with
          | ok | failed =>
              exact ⟨r, Nat.lt_succ_of_lt hlt,
                .inr ⟨fun heq => Nat.ne_of_gt hlt (Option.some.inj heq), hheld⟩⟩
          | noMemory => exact ⟨r, hlt, .inr ⟨(Option.some_ne_none r).symm, hheld⟩⟩
  | close =>
      cases phase with
      | null | opened => cases hnext
      | closed => exact hclosed rfl .release
  | query query =>
      cases phase with
      | null | opened => cases hnext
      | closed =>
          cases huses : query.usesHandle with
          | false => simp [Phase.next, huses] at hnext
          | true =>
              rw [DatabaseHandle.step, huses, if_pos rfl]
              exact hclosed rfl .use

/-! ### What a right call leaves -/

/-- Where no connection is open, all handles are closed. -/
theorem Tracks.released {db : DatabaseHandle} {phase : Phase} (h : db.Tracks phase)
    (hphase : phase ≠ .opened) {r : Nat} (hlt : r < db.returned) :
    status db.calls r = .released := by
  by_cases hcurrent : db.dbHandle = some r
  · cases phase with
    | null => exact absurd (h.handle.symm.trans hcurrent) (Option.some_ne_none r).symm
    | opened => exact (hphase rfl).elim
    | closed =>
        obtain ⟨r', _, hcurrent', hstatus⟩ := h.handle
        obtain rfl := Option.some.inj (hcurrent.symm.trans hcurrent')
        exact hstatus
  · exact h.others r hlt hcurrent

/-- Opening where no connection is open. -/
theorem Tracks.sqlite3Open {db : DatabaseHandle} {phase : Phase} (h : db.Tracks phase)
    (hphase : phase ≠ .opened) (result : OpenResult) :
    (db.sqlite3Open result).Tracks (if result = .noMemory then .null else .opened) := by
  have hacquired : (DatabaseHandle.mk (some db.returned) (db.returned + 1)
      (db.calls ++ [(db.returned, .acquire)])).Tracks .opened := by
    refine ⟨fun r hle => ?_, fun r hlt hne => ?_, db.returned, Nat.lt_succ_self _, rfl, ?_⟩
    · rw [status_snoc, if_neg (Nat.ne_of_lt hle)]
      exact h.fresh r (Nat.le_of_succ_le hle)
    · have hne : db.returned ≠ r := fun heq => hne (congrArg some heq)
      rw [status_snoc, if_neg hne]
      exact h.released hphase (Nat.lt_of_le_of_ne (Nat.le_of_lt_succ hlt) hne.symm)
    · rw [status_snoc, if_pos rfl, h.fresh _ (Nat.le_refl _)]
      rfl
  cases result with
  | ok | failed => exact hacquired
  | noMemory => exact ⟨h.fresh, fun r hlt _ => h.released hphase hlt, rfl⟩

/-- A call of the library on the handle of an open connection. -/
theorem Tracks.onHandle {db : DatabaseHandle} (h : db.Tracks .opened) {event : Event}
    {phase : Phase} (hevent : (event = .use ∧ phase = .opened) ∨
      (event = .release ∧ phase = .closed)) : (db.onHandle event).Tracks phase := by
  obtain ⟨r, hlt, hcurrent, hstatus⟩ := h.handle
  have hself : status (db.calls ++ [(r, event)]) r = Status.held.next event := by
    rw [status_snoc, if_pos rfl, hstatus]
  rw [onHandle_of_some hcurrent]
  refine ⟨fun r' hle => ?_, fun r' hlt' hne => ?_, ?_⟩
  · rw [status_snoc, if_neg (Nat.ne_of_lt (Nat.lt_of_lt_of_le hlt hle))]
    exact h.fresh r' hle
  · rw [status_snoc, if_neg fun heq => hne (hcurrent.trans (congrArg some heq))]
    exact h.others r' hlt' hne
  · rcases hevent with ⟨rfl, rfl⟩ | ⟨rfl, rfl⟩ <;> exact ⟨r, hlt, hcurrent, hself⟩

/-- A right call leads from its phase to the next. -/
theorem Tracks.step {db : DatabaseHandle} {phase phase' : Phase} (h : db.Tracks phase)
    {member : Member} (hnext : phase.next member = some phase') :
    (db.step member).Tracks phase' := by
  cases member with
  | «open» result =>
      have hphase : phase ≠ .opened := by
        rintro rfl
        cases hnext
      have htracks := h.sqlite3Open hphase result
      have hopened : phase' = if result = .noMemory then .null else .opened := by
        cases phase <;> cases result <;> cases hnext <;> rfl
      rwa [hopened]
  | close =>
      cases phase with
      | null =>
          obtain rfl := Option.some.inj hnext
          rwa [DatabaseHandle.step, onHandle_of_none h.handle]
      | opened =>
          obtain rfl := Option.some.inj hnext
          exact h.onHandle (.inr ⟨rfl, rfl⟩)
      | closed => cases hnext
  | query query =>
      rw [DatabaseHandle.step]
      cases huses : query.usesHandle with
      | false =>
          obtain rfl : phase = phase' := by
            cases phase <;> simpa [Phase.next, huses] using hnext
          exact h
      | true =>
          cases phase with
          | null =>
              obtain rfl := Option.some.inj hnext
              rwa [if_pos rfl, onHandle_of_none h.handle]
          | opened =>
              obtain rfl := Option.some.inj hnext
              exact h.onHandle (.inl ⟨rfl, rfl⟩)
          | closed => simp [Phase.next, huses] at hnext

/-- A sequence of calls that are right leads from its phase to another, and any other sequence
spoils a handle. -/
theorem Tracks.foldl {db : DatabaseHandle} {phase : Phase} (h : db.Tracks phase)
    (members : List Member) :
    (∃ phase', members.foldlM Phase.next phase = some phase' ∧
      (members.foldl DatabaseHandle.step db).Tracks phase') ∨
    (members.foldlM Phase.next phase = none ∧
      (members.foldl DatabaseHandle.step db).Spoiled) := by
  induction members generalizing db phase with
  | nil => exact .inl ⟨phase, rfl, h⟩
  | cons member members ih =>
      rw [List.foldlM_cons, List.foldl_cons]
      cases hnext : phase.next member with
      | some phase' => exact ih (h.step hnext)
      | none => exact .inr ⟨rfl, (h.spoiled hnext).foldl members⟩

/-! ### The whole life -/

/-- The handles that have been returned are those that the log has acquired. -/
def Recorded (db : DatabaseHandle) : Prop :=
  ∀ h, (h, .acquire) ∈ db.calls ↔ h < db.returned

theorem recorded_new : new.Recorded := fun h =>
  iff_of_false (List.not_mem_nil) (Nat.not_lt_zero h)

/-- Every call records the handle that it acquires. -/
theorem Recorded.step {db : DatabaseHandle} (h : db.Recorded) (member : Member) :
    (db.step member).Recorded := by
  have honHandle (event : Event) (hevent : event ≠ .acquire) : (db.onHandle event).Recorded := by
    unfold onHandle
    split
    · intro r
      simpa [hevent.symm] using h r
    · exact h
  cases member with
  | «open» result =>
      cases result with
      | ok | failed =>
          intro r
          have hentry : (r, Event.acquire) ∈ db.calls ++ [(db.returned, .acquire)] ↔
              r < db.returned + 1 := by
            rw [List.mem_append, List.mem_singleton, Prod.mk.injEq, and_iff_left rfl, h r]
            omega
          exact hentry
      | noMemory => exact h
  | close => exact honHandle .release (by decide)
  | query query =>
      simp only [DatabaseHandle.step]
      split
      · exact honHandle .use (by decide)
      · exact h

theorem Recorded.foldl {db : DatabaseHandle} (h : db.Recorded) (members : List Member) :
    (members.foldl DatabaseHandle.step db).Recorded := by
  induction members generalizing db with
  | nil => exact h
  | cons member members ih => exact ih (h.step member)

/-- After the last call, that of the destructor, every handle has been closed exactly once exactly
where the calls were right. -/
theorem Tracks.closedOnce_iff {db : DatabaseHandle} {phase : Phase} (h : db.Tracks phase)
    (hrecorded : db.Recorded) (members : List Member) :
    ClosedOnce ((members.foldl DatabaseHandle.step db).step .close).calls ↔
      phase.obeys (members ++ [.close]) := by
  have hlast : (members.foldl DatabaseHandle.step db).step .close =
      (members ++ [Member.close]).foldl DatabaseHandle.step db := by
    rw [List.foldl_append, List.foldl_cons, List.foldl_nil]
  have hacquired := hrecorded.foldl (members ++ [.close])
  rw [hlast, Phase.obeys]
  rcases h.foldl (members ++ [.close]) with ⟨phase', hphase, htracks⟩ | ⟨hphase, r, hlt, hspoiled⟩
  · refine iff_of_true (fun r hr => complete_iff.mpr ?_) (by rw [hphase]; rfl)
    -- the last call leaves no connection open
    have hclosed : phase' ≠ .opened := by
      rintro rfl
      rw [List.foldlM_append] at hphase
      obtain ⟨before, _, hlast⟩ := Option.bind_eq_some_iff.mp hphase
      rw [List.foldlM_cons] at hlast
      obtain ⟨after, hnext, hafter⟩ := Option.bind_eq_some_iff.mp hlast
      obtain rfl := Option.some.inj hafter
      cases before <;> cases hnext
    exact htracks.released hclosed ((hacquired r).mp hr)
  · refine iff_of_false (fun hclosed => ?_) (by rw [hphase]; exact Bool.false_ne_true)
    have hreleased : status _ r = .released :=
      complete_iff.mp (hclosed r ((hacquired r).mpr hlt))
    rcases hspoiled with hviolated | ⟨_, hlost⟩
    · exact Status.noConfusion (hreleased.symm.trans hviolated)
    · exact hlost hreleased

/-- Over every life of an object, each handle that `sqlite3_open` returns is closed exactly once and
not used after, exactly where the calls are right in their phases. -/
theorem closedOnce_lifetime_iff (constructor : Constructor) (members : List Member) :
    ClosedOnce (lifetime constructor members) ↔ Disciplined constructor members := by
  cases constructor with
  | empty => exact tracks_new.closedOnce_iff recorded_new members
  | file result =>
      cases result with
      | ok =>
          exact (tracks_new.step rfl).closedOnce_iff (recorded_new.step (.open .ok)) members
      | failed =>
          refine iff_of_false (fun hclosed => ?_) id
          have hreleased := complete_iff.mp (hclosed 0 (.head _))
          cases hreleased
      | noMemory => exact iff_of_true (fun r hr => by cases hr) trivial

/-! ## The lives that the program makes -/

/-- A life as the program makes it: construction with or without the file, the open where the
constructor does not, queries, possibly an explicit close, and the destructor. -/
structure Life where
  byFile : Bool
  result : OpenResult
  queries : List Query
  closes : Bool
  deriving DecidableEq, Repr

/-- The constructor of a life. -/
def Life.constructor (life : Life) : Constructor :=
  if life.byFile then .file life.result else .empty

/-- The calls of a life. After an `open` that throws there are none. -/
def Life.members (life : Life) : List Member :=
  (if life.byFile then [] else [.open life.result]) ++
    if life.result = .ok then
      life.queries.map .query ++ if life.closes then [.close] else []
    else []

/-- Queries are right on an open connection, and leave it open. -/
theorem obeys_queries (queries : List Query) (members : List Member) :
    Phase.opened.obeys (queries.map .query ++ members) ↔ Phase.opened.obeys members := by
  induction queries with
  | nil => exact Iff.rfl
  | cons query queries ih => exact ih

/-- What is right after an `open` that does not throw, the call of the destructor included. -/
theorem obeys_life (queries : List Query) (closes : Bool) :
    Phase.opened.obeys ((queries.map .query ++ if closes then [.close] else []) ++ [.close]) ↔
      closes = false := by
  rw [List.append_assoc, obeys_queries]
  cases closes with
  | false => exact iff_of_true (by decide) rfl
  | true => exact iff_of_false (by decide) Bool.noConfusion

/-- In the lives that the program makes, each handle is closed exactly once exactly where no open
connection is closed explicitly and the constructor that opens the file is not left with a handle
when it throws. -/
theorem closedOnce_life_iff (life : Life) :
    ClosedOnce (lifetime life.constructor life.members) ↔
      ¬ (life.result = .ok ∧ life.closes = true) ∧
      ¬ (life.byFile = true ∧ life.result = .failed) := by
  obtain ⟨byFile, result, queries, closes⟩ := life
  rw [closedOnce_lifetime_iff]
  have hlife := obeys_life queries closes
  cases byFile with
  | true =>
      cases result with
      | ok =>
          refine hlife.trans ?_
          simp
      | failed => exact iff_of_false id fun h => h.2 ⟨rfl, rfl⟩
      | noMemory => exact iff_of_true trivial (by simp)
  | false =>
      cases result with
      | ok =>
          refine hlife.trans ?_
          simp
      | failed => exact iff_of_true rfl (by simp)
      | noMemory => exact iff_of_true rfl (by simp)

/-- The queries of `prepareDatabase`, which prints the message of each table that is not created. -/
def prepareDatabaseQueries (created created' created'' : Bool) : List Query :=
  let createTable (created : Bool) : List Query :=
    .createTable :: if created then [] else [.printErrMsg]
  .execQuery :: (createTable created ++ createTable created' ++ createTable created'' ++
    [.insert, .insert])

/-- The object of `prepareDatabase`. -/
def prepareDatabaseLife (result : OpenResult) (created created' created'' : Bool) : Life :=
  ⟨false, result, prepareDatabaseQueries created created' created'', true⟩

/-- The member `w_db` of `ParseRequest`. -/
def parseRequestLife (result : OpenResult) (queries : List Query) : Life :=
  ⟨true, result, queries, false⟩

/-- The member `m_db` of `HandleReceived`. -/
def handleReceivedLife (result : OpenResult) (queries : List Query) : Life :=
  ⟨false, result, queries, false⟩

/-- The three users of the class: the one that closes its database goes wrong wherever it can open
it, and one of the other two where the file cannot be opened. -/
theorem closedOnce_users (result : OpenResult) (created created' created'' : Bool)
    (queries : List Query) :
    let closedOnce (life : Life) := ClosedOnce (lifetime life.constructor life.members)
    (closedOnce (prepareDatabaseLife result created created' created'') ↔ result ≠ .ok) ∧
      (closedOnce (parseRequestLife result queries) ↔ result ≠ .failed) ∧
      closedOnce (handleReceivedLife result queries) := by
  refine ⟨(closedOnce_life_iff _).trans ?_, (closedOnce_life_iff _).trans ?_,
    (closedOnce_life_iff _).mpr ?_⟩
  · simp [prepareDatabaseLife]
  · simp [parseRequestLife]
  · simp [handleReceivedLife]

/-- Over every sequence of calls from construction to destruction, each handle that `sqlite3_open`
returns is passed to `sqlite3_close` exactly once and not used after, exactly where no call opens
over an open connection or closes or uses a closed one, the destructor's included, and the
constructor that opens the file does not throw with a handle. Of the lives that the program makes,
these are the ones without an explicit close. -/
theorem handles_closed_iff (constructor : Constructor) (members : List Member) (life : Life) :
    (ClosedOnce (lifetime constructor members) ↔ Disciplined constructor members) ∧
      (ClosedOnce (lifetime life.constructor life.members) ↔
        ¬ (life.result = .ok ∧ life.closes = true) ∧
        ¬ (life.byFile = true ∧ life.result = .failed)) :=
  ⟨closedOnce_lifetime_iff constructor members, closedOnce_life_iff life⟩

/-- The handle of `prepareDatabase` is closed by it and by the destructor. -/
theorem closed_twice :
    let life := prepareDatabaseLife .ok true true true
    eventsOf (lifetime life.constructor life.members) 0 =
        [.acquire, .use, .use, .use, .use, .use, .use, .release, .release] ∧
      ¬ ClosedOnce (lifetime life.constructor life.members) := by
  refine ⟨rfl, fun hclosed => ?_⟩
  have hreleased := complete_iff.mp (hclosed 0 (.head _))
  cases hreleased

end DatabaseHandle

end Wheespa
