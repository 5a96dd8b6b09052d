import Mathlib.Algebra.Group.Int.Defs
import Mathlib.Algebra.Group.Nat.Defs
import Wheespa.Sha

/-!
# The option parser

`Stats` and `Parser` of `optionparser.h`, as `getOpts` calls them: the first word that is not an
option ends the options, a long option is written with two minus signs, and is not abbreviated. Both
pass over the words with `workhorse`; the first pass counts the options, the second one stores them
in arrays of the sizes that the first has found. Whatever the words are, the second pass stays
within these arrays, and stores just the options that the words hold, as long as every descriptor
has an index that an `int` holds; the indices are unsigned, and the sizes wrap around.
-/

namespace Wheespa

/-- `option::ArgStatus`, with the text that a check writes where it is asked for messages. -/
inductive ArgStatus where
  | none
  | ok
  | ignore
  | illegal (text : Str)
  deriving DecidableEq, Repr

/-- `option::Option`: the index of its descriptor, and what `name` and `arg` point to. -/
structure CommandOption where
  index : Nat
  name : Str
  arg : Option Str
  deriving DecidableEq, Repr

/-- `option::Descriptor`. The index is an `unsigned`. A check does the same whether or not it is
asked for messages, apart from its text. -/
structure Descriptor where
  index : Nat
  shortopt : Str
  longopt : Str
  checkArg : CommandOption → ArgStatus

namespace OptionParser

/-- What `optarg` points to: a text within the word of the option, or the next word, if there is
one. -/
inductive Optarg where
  | attached (text : Str)
  | detached (next : Option Str)

/-- What an option has taken: no argument, an argument that ends its word, or one that is the next
word, too. -/
inductive Taken where
  | nothing
  | word
  | nextWord
  deriving DecidableEq, Repr

namespace Optarg

/-- The argument, or none for a null pointer. -/
def text : Optarg → Option Str
  | attached text => some text
  | detached next => next

/-- What an option takes that accepts it. The next word is skipped only if there is one. -/
def taken : Optarg → Taken
  | attached _ | detached none => .word
  | detached (some _) => .nextWord

end Optarg

/-! ## Words and descriptors -/

/-- `streq`. -/
def streq : Str → Str → Bool
  | [], [] => true
  | [], c :: _ => c == '='
  | _ :: _, [] => false
  | a :: st1, b :: st2 => a == b && streq st1 st2

/-- `instr`, which finds the character that ends a string in every string. -/
def instr (ch : Char) (st : Str) : Bool :=
  ch == '\x00' || st.contains ch

/-- The descriptor for unknown options. -/
def dummy (usage : List Descriptor) : Option Descriptor :=
  usage.find? fun descriptor => descriptor.shortopt.isEmpty && descriptor.longopt.isEmpty

/-- The descriptor of a long option. -/
def longDescriptor (usage : List Descriptor) (longoptName : Str) : Option Descriptor :=
  (usage.find? fun descriptor => streq descriptor.longopt longoptName).or (dummy usage)

/-- The descriptor of a short option. -/
def shortDescriptor (usage : List Descriptor) (ch : Char) : Option Descriptor :=
  (usage.find? fun descriptor => instr ch descriptor.shortopt).or (dummy usage)

/-- The argument of a long option: what follows the first `=`, or else the next word. -/
def longOptarg (longoptName : Str) (next : Option Str) : Optarg :=
  match longoptName.dropWhile (· != '=') with
  | [] => .detached next
  | _ :: text => .attached text

/-- The argument of a short option: the rest of the group, or else the next word. -/
def shortOptarg (rest : Str) (next : Option Str) : Optarg :=
  match rest with
  | [] => .detached next
  | _ :: _ => .attached rest

/-- The check of an option by its descriptor: the option that is performed, if there is a
descriptor, and what it has taken; or the text of an error. -/
def checkOption (descriptor : Option Descriptor) (name : Str) (optarg : Optarg) :
    Except Str (Option CommandOption × Taken) :=
  match descriptor with
  | none => .ok (none, .nothing)
  | some descriptor =>
      match descriptor.checkArg ⟨descriptor.index, name, optarg.text⟩ with
      | .illegal text => .error text
      | .ok => .ok (some ⟨descriptor.index, name, optarg.text⟩, optarg.taken)
      | .ignore | .none => .ok (some ⟨descriptor.index, name, none⟩, .nothing)

/-! ## The pass over the words -/

/-- `Parser::Action`: what is kept, and what is done with an option, which says whether the parse
goes on. The result is `none` where an array is left. -/
structure Action (σ : Type) where
  perform : σ → CommandOption → Option (Bool × σ)

/-- What an option, or a group of them, leads to. -/
inductive Handled (σ : Type) where
  | aborted (state : σ) (cerr : Str)
  | handled (state : σ) (taken : Taken)

/-- How a pass ends: it is aborted, or it is finished with the words that are not options. -/
inductive Outcome (σ : Type) where
  | aborted (state : σ) (cerr : Str)
  | finished (state : σ) (nonops : List Str)

section Pass

variable {σ : Type} (usage : List Descriptor) (action : Action σ) (printErrors : Bool)

/-- An option is checked, and performed. -/
def handleOption (descriptor : Option Descriptor) (name : Str) (optarg : Optarg) (state : σ) :
    Option (Handled σ) :=
  match checkOption descriptor name optarg with
  | .error text => some (.aborted state (if printErrors then text else []))
  | .ok (none, taken) => some (.handled state taken)
  | .ok (some option, taken) => do
      let (goesOn, state) ← action.perform state option
      some (if goesOn then .handled state taken else .aborted state [])

/-- The loop over a group of short options. An option that takes an argument ends it. -/
def handleGroup (next : Option Str) : Str → σ → Option (Handled σ)
  | [], state => some (.handled state .nothing)
  | ch :: rest, state => do
      match ← handleOption action printErrors (shortDescriptor usage ch) (ch :: rest)
          (shortOptarg rest next) state with
      | .handled state .nothing => handleGroup next rest state
      | result => some result

/-- The body of the loop over the words, for an option whose second character is `ch`. -/
def handleWord (ch : Char) (rest : Str) (next : Option Str) (state : σ) : Option (Handled σ) :=
  if ch = '-' then
    handleOption action printErrors (longDescriptor usage rest) ('-' :: ch :: rest)
      (longOptarg rest next) state
  else handleGroup usage action printErrors next (ch :: rest) state

/-- `workhorse`. `skipped` says that the first word is the argument of the option before it. -/
def workhorse : Bool → List Str → σ → Option (Outcome σ)
  | _, [], state => some (.finished state [])
  | true, _ :: args, state => workhorse false args state
  | false, param :: args, state =>
      match param with
      | ['-', '-'] => some (.finished state args)
      | '-' :: ch :: rest => do
          match ← handleWord usage action printErrors ch rest args.head? state with
          | .aborted state cerr => some (.aborted state cerr)
          | .handled state taken => workhorse (taken == .nextWord) args state
      | _ => some (.finished state (param :: args))

end Pass

/-! ## The options of the words -/

/-- The options of a group that are performed, and what ends it. -/
def scanGroup (usage : List Descriptor) (next : Option Str) :
    Str → List CommandOption × Except Str Taken
  | [] => ([], .ok .nothing)
  | ch :: rest =>
      match checkOption (shortDescriptor usage ch) (ch :: rest) (shortOptarg rest next) with
      | .error text => ([], .error text)
      | .ok (option, .nothing) =>
          let (options, ending) := scanGroup usage next rest
          (option.toList ++ options, ending)
      | .ok (option, taken) => (option.toList, .ok taken)

/-- The options of a word, `ch` being its second character. -/
def scanWord (usage : List Descriptor) (ch : Char) (rest : Str) (next : Option Str) :
    List CommandOption × Except Str Taken :=
  if ch = '-' then
    match checkOption (longDescriptor usage rest) ('-' :: ch :: rest) (longOptarg rest next) with
    | .error text => ([], .error text)
    | .ok (option, taken) => (option.toList, .ok taken)
  else scanGroup usage next (ch :: rest)

/-- The options of the words, and the words that are not options, or the text of an error. -/
def scan (usage : List Descriptor) : Bool → List Str → List CommandOption × Except Str (List Str)
  | _, [] => ([], .ok [])
  | true, _ :: args => scan usage false args
  | false, param :: args =>
      match param with
      | ['-', '-'] => ([], .ok args)
      | '-' :: ch :: rest =>
          match scanWord usage ch rest args.head? with
          | (options, .error text) => (options, .error text)
          | (options, .ok taken) =>
              let (options', ending) := scan usage (taken == .nextWord) args
              (options ++ options', ending)
      | _ => ([], .ok (param :: args))

/-- The options are performed one after the other, up to one that stops the parse. -/
def Action.performAll {σ : Type} (action : Action σ) : σ → List CommandOption → Option (Bool × σ)
  | state, [] => some (true, state)
  | state, option :: options => do
      let (goesOn, state) ← action.perform state option
      if goesOn then performAll action state options else some (false, state)

section Pass

variable {σ : Type} {usage : List Descriptor} {action : Action σ} {printErrors : Bool}

theorem Action.performAll_append (state : σ) (options options' : List CommandOption) :
    action.performAll state (options ++ options') =
      (action.performAll state options).bind fun result =>
        if result.1 then action.performAll result.2 options' else some result := by
  induction options generalizing state with
  | nil => rfl
  | cons option options ih =>
      simp only [List.cons_append, performAll, Option.bind_eq_bind, Option.bind_assoc]
      congr 1
      funext result
      cases hgoes : result.1 with
      | true => simpa [hgoes] using ih result.2
      | false => simp

/-- How an option, or a group, ends after its options have been performed. -/
def handledAfter (printErrors : Bool) (ending : Except Str Taken) (result : Bool × σ) : Handled σ :=
  if result.1 then
    match ending with
    | .error text => .aborted result.2 (if printErrors then text else [])
    | .ok taken => .handled result.2 taken
  else .aborted result.2 []

/-- How a pass ends after its options have been performed. -/
def outcomeAfter (printErrors : Bool) (ending : Except Str (List Str)) (result : Bool × σ) :
    Outcome σ :=
  if result.1 then
    match ending with
    | .error text => .aborted result.2 (if printErrors then text else [])
    | .ok nonops => .finished result.2 nonops
  else .aborted result.2 []

/-- An option is performed if its check lets it. -/
theorem handleOption_eq (descriptor : Option Descriptor) (name : Str) (optarg : Optarg)
    (state : σ) :
    handleOption action printErrors descriptor name optarg state =
      match checkOption descriptor name optarg with
      | .error text => some (.aborted state (if printErrors then text else []))
      | .ok (option, taken) =>
          (action.performAll state option.toList).map (handledAfter printErrors (.ok taken)) := by
  unfold handleOption
  cases checkOption descriptor name optarg with
  | error text => rfl
  | ok result =>
      obtain ⟨option, taken⟩ := result
      cases option with
      | none => rfl
      | some option =>
          simp only [Option.toList_some, Action.performAll, Option.bind_eq_bind, Option.map_bind]
          congr 1
          funext result
          obtain ⟨_ | _, state⟩ := result <;> rfl

/-- A group performs the options that are read in it. -/
theorem handleGroup_eq (next : Option Str) (param : Str) (state : σ) :
    handleGroup usage action printErrors next param state =
      (action.performAll state (scanGroup usage next param).1).map
        (handledAfter printErrors (scanGroup usage next param).2) := by
  induction param generalizing state with
  | nil => rfl
  | cons ch rest ih =>
      simp only [handleGroup, handleOption_eq, scanGroup]
      cases checkOption (shortDescriptor usage ch) (ch :: rest) (shortOptarg rest next) with
      | error text => rfl
      | ok result =>
          obtain ⟨option, taken⟩ := result
          cases taken with
          | nothing =>
              simp only [Action.performAll_append, Option.bind_eq_bind, Option.bind_map,
                Option.map_bind]
              congr 1
              funext result
              obtain ⟨_ | _, state⟩ := result
              · rfl
              · exact ih state
          | word =>
              simp only [Option.bind_eq_bind, Option.bind_map]
              rw [Option.map_eq_bind]
              congr 1
              funext result
              obtain ⟨_ | _, state⟩ := result <;> rfl
          | nextWord =>
              simp only [Option.bind_eq_bind, Option.bind_map]
              rw [Option.map_eq_bind]
              congr 1
              funext result
              obtain ⟨_ | _, state⟩ := result <;> rfl

/-- A word performs the options that are read in it. -/
theorem handleWord_eq (ch : Char) (rest : Str) (next : Option Str) (state : σ) :
    handleWord usage action printErrors ch rest next state =
      (action.performAll state (scanWord usage ch rest next).1).map
        (handledAfter printErrors (scanWord usage ch rest next).2) := by
  unfold handleWord scanWord
  split
  · rw [handleOption_eq]
    cases checkOption (longDescriptor usage rest) ('-' :: ch :: rest) (longOptarg rest next) <;> rfl
  · exact handleGroup_eq next (ch :: rest) state

/-- A pass performs the options that are read in the words. -/
theorem workhorse_eq (skipped : Bool) (args : List Str) (state : σ) :
    workhorse usage action printErrors skipped args state =
      (action.performAll state (scan usage skipped args).1).map
        (outcomeAfter printErrors (scan usage skipped args).2) := by
  induction args generalizing skipped state with
  | nil => rfl
  | cons param args ih =>
      cases skipped with
      | true => exact ih false state
      | false =>
          simp only [workhorse, scan]
          split
          · rfl
          · next ch rest hne =>
              rw [handleWord_eq]
              cases hword : scanWord usage ch rest args.head? with
              | mk options ending =>
                  cases ending with
                  | error text =>
                      simp only [Option.bind_eq_bind, Option.bind_map]
                      rw [Option.map_eq_bind]
                      congr 1
                      funext result
                      obtain ⟨_ | _, state⟩ := result <;> rfl
                  | ok taken =>
                      simp only [Option.bind_eq_bind, Option.bind_map, Action.performAll_append,
                        Option.map_bind]
                      congr 1
                      funext result
                      obtain ⟨_ | _, state⟩ := result
                      · rfl
                      · exact ih (taken == .nextWord) state
          · rfl

end Pass

/-! ## The two passes -/

/-- The largest number that an `int` counts to. -/
def limit : Nat :=
  0x7fffffff

/-- `Stats::CountOptionsAction`, on `buffer_max`. -/
def countOptions : Action Nat where
  perform bufferMax _ :=
    some (if bufferMax = limit then (false, bufferMax) else (true, bufferMax + 1))

/-- `Stats`. -/
structure Stats where
  bufferMax : Nat
  optionsMax : Nat

/-- `options_max` after one more descriptor. The sums are `unsigned`. -/
def raise (optionsMax : Nat) (descriptor : Descriptor) : Nat :=
  if (descriptor.index + 1) % 2 ^ 32 ≥ optionsMax then (descriptor.index + 1 + 1) % 2 ^ 32
  else optionsMax

/-- The loop of `Stats::add` over the descriptors. -/
def optionsMaxOf (usage : List Descriptor) : Nat :=
  usage.foldl raise 1

/-- What an action has kept when its pass ends. -/
def Outcome.state {σ : Type} : Outcome σ → σ
  | .aborted state _ | .finished state _ => state

/-- `Stats::Stats`. -/
def Stats.new (usage : List Descriptor) (args : List Str) : Stats where
  bufferMax := ((workhorse usage countOptions false false args 1).map Outcome.state).getD 0
  optionsMax := optionsMaxOf usage

/-- The arrays that the options are stored in: for each index the list of its options, and all
options in their order. -/
structure Stored where
  options : List (List CommandOption)
  buffer : List CommandOption
  deriving DecidableEq

/-- `Parser::StoreOptionAction`, on a `buffer` with a number of slots. -/
def storeOption (bufferMax : Nat) : Action Stored where
  perform stored option :=
    -- the index is assigned to an `int`
    let idx := Int.bmod option.index (2 ^ 32)
    if stored.buffer.length = limit then some (false, stored)
    else if stored.buffer.length < bufferMax ∧ 0 ≤ idx ∧ idx < stored.options.length then
      some (true, ⟨stored.options.modify idx.toNat (· ++ [option]), stored.buffer ++ [option]⟩)
    else none

/-- `Parser`, and what it has written. -/
structure Parser where
  stored : Stored
  nonops : List Str
  err : Bool
  cerr : Str
  deriving DecidableEq

/-- `Parser::Parser`, with arrays of the given sizes. The action looks for the first empty slot of
`buffer`, which is its first one. -/
def Parser.new (usage : List Descriptor) (args : List Str) (optionsMax bufferMax : Nat) :
    Option Parser :=
  if bufferMax = 0 then none
  else
    (workhorse usage (storeOption bufferMax) true false args
      ⟨List.replicate optionsMax [], []⟩).map fun
        | .aborted stored cerr => ⟨stored, [], true, cerr⟩
        | .finished stored nonops => ⟨stored, nonops, false, []⟩

/-- The lists of the options in a buffer. -/
def storedOf (optionsMax : Nat) (buffer : List CommandOption) : Stored :=
  ⟨(List.range optionsMax).map fun index => buffer.filter (·.index == index), buffer⟩

/-- The options are counted up to the limit. -/
theorem performAll_countOptions {bufferMax : Nat} (hle : bufferMax ≤ limit)
    (options : List CommandOption) :
    countOptions.performAll bufferMax options =
      some (decide (bufferMax + options.length ≤ limit),
        min (bufferMax + options.length) limit) := by
  induction options generalizing bufferMax with
  | nil => simp [Action.performAll, hle]
  | cons option options ih =>
      simp only [Action.performAll, countOptions, Option.bind_eq_bind, Option.bind_some,
        List.length_cons]
      by_cases hlimit : bufferMax = limit
      · simp [hlimit]
      · rw [if_neg hlimit]
        have hrest := @ih (bufferMax + 1) (by omega)
        simp only [if_true]
        refine hrest.trans ?_
        rw [Nat.add_right_comm, Nat.add_assoc]

/-- An `int` holds what it counts to. -/
theorem bmod_of_le_limit {n : Nat} (h : n ≤ limit) : Int.bmod n (2 ^ 32) = n := by
  rw [limit] at h
  exact Int.bmod_eq_of_le (by omega) (by omega)

/-- Storing one more option. -/
theorem perform_storeOption {optionsMax bufferMax : Nat} {buffer : List CommandOption}
    {option : CommandOption} (hlimit : buffer.length ≠ limit) (hbuffer : buffer.length < bufferMax)
    (hint : option.index ≤ limit) (hindex : option.index < optionsMax) :
    (storeOption bufferMax).perform (storedOf optionsMax buffer) option =
      some (true, storedOf optionsMax (buffer ++ [option])) := by
  have hoptions : ((List.range optionsMax).map fun index =>
        buffer.filter (·.index == index)).modify option.index (· ++ [option]) =
      (List.range optionsMax).map fun index =>
        (buffer ++ [option]).filter (·.index == index) := by
    refine List.ext_getElem (by simp) fun i hi hi' => ?_
    rw [List.getElem_modify]
    simp only [List.getElem_map, List.getElem_range, List.filter_append]
    by_cases heq : option.index = i <;> simp [heq]
  have hlength : option.index < ((List.range optionsMax).map fun index =>
      buffer.filter (·.index == index)).length := by
    simpa using hindex
  simp only [storeOption, storedOf, bmod_of_le_limit hint, Int.toNat_natCast]
  rw [if_neg hlimit, if_pos ⟨hbuffer, Int.natCast_nonneg _, Int.ofNat_lt.mpr hlength⟩, hoptions]

/-- The options are stored up to the limit, where the arrays have room for them. -/
theorem performAll_storeOption {optionsMax bufferMax : Nat} {buffer options : List CommandOption}
    (hle : buffer.length ≤ limit)
    (hbuffer : min (buffer.length + options.length) limit ≤ bufferMax)
    (hindex : ∀ option ∈ options, option.index ≤ limit ∧ option.index < optionsMax) :
    (storeOption bufferMax).performAll (storedOf optionsMax buffer) options =
      some (decide (buffer.length + options.length ≤ limit),
        storedOf optionsMax (buffer ++ options.take (limit - buffer.length))) := by
  induction options generalizing buffer with
  | nil => simp [Action.performAll, hle]
  | cons option options ih =>
      rw [List.forall_mem_cons] at hindex
      rw [List.length_cons] at hbuffer
      by_cases hlimit : buffer.length = limit
      · have hperform : (storeOption bufferMax).perform (storedOf optionsMax buffer) option =
            some (false, storedOf optionsMax buffer) := if_pos hlimit
        simp only [Action.performAll, hperform, Option.bind_eq_bind, Option.bind_some]
        simp [hlimit]
      · have hperform : (storeOption bufferMax).perform (storedOf optionsMax buffer) option =
            some (true, storedOf optionsMax (buffer ++ [option])) :=
          perform_storeOption hlimit (by omega) hindex.1.1 hindex.1.2
        have hlength : (buffer ++ [option]).length = buffer.length + 1 := by simp
        have hrest := @ih (buffer ++ [option]) (by omega) (by omega) hindex.2
        have htake : limit - buffer.length = limit - (buffer.length + 1) + 1 := by omega
        simp only [Action.performAll, hperform, Option.bind_eq_bind, Option.bind_some, if_true]
        refine hrest.trans ?_
        rw [hlength, List.append_assoc, htake, List.take_succ_cons, List.length_cons,
          Nat.add_right_comm, Nat.add_assoc]
        rfl

/-! ## Indices -/

/-- The options have the indices of descriptors. -/
def Described (usage : List Descriptor) (options : List CommandOption) : Prop :=
  ∀ option ∈ options, ∃ descriptor ∈ usage, option.index = descriptor.index

variable {usage : List Descriptor}

/-- The descriptor that is looked up is one of the usage. -/
theorem mem_of_lookup {p : Descriptor → Bool} {descriptor : Descriptor}
    (h : (usage.find? p).or (dummy usage) = some descriptor) : descriptor ∈ usage := by
  rcases Option.or_eq_some_iff.mp h with hfind | ⟨_, hdummy⟩
  · exact List.mem_of_find?_eq_some hfind
  · exact List.mem_of_find?_eq_some hdummy

/-- An option that is performed has the index of its descriptor. -/
theorem described_checkOption {p : Descriptor → Bool} {name : Str} {optarg : Optarg}
    {option : Option CommandOption} {taken : Taken}
    (h : checkOption ((usage.find? p).or (dummy usage)) name optarg = .ok (option, taken)) :
    Described usage option.toList := by
  cases hdescriptor : (usage.find? p).or (dummy usage) with
  | none =>
      rw [hdescriptor] at h
      obtain ⟨rfl, _⟩ := Prod.mk.inj (Except.ok.inj h)
      simp [Described]
  | some descriptor =>
      have hmem := mem_of_lookup hdescriptor
      rw [hdescriptor] at h
      simp only [checkOption] at h
      split at h
      · simp at h
      · obtain ⟨rfl, _⟩ := Prod.mk.inj (Except.ok.inj h)
        simpa [Described] using ⟨descriptor, hmem, rfl⟩
      · obtain ⟨rfl, _⟩ := Prod.mk.inj (Except.ok.inj h)
        simpa [Described] using ⟨descriptor, hmem, rfl⟩
      · obtain ⟨rfl, _⟩ := Prod.mk.inj (Except.ok.inj h)
        simpa [Described] using ⟨descriptor, hmem, rfl⟩

theorem Described.append {options options' : List CommandOption} (h : Described usage options)
    (h' : Described usage options') : Described usage (options ++ options') := by
  rw [Described, List.forall_mem_append]
  exact ⟨h, h'⟩

/-- The options of a group have descriptors. -/
theorem described_scanGroup (next : Option Str) (param : Str) :
    Described usage (scanGroup usage next param).1 := by
  induction param with
  | nil => simp [scanGroup, Described]
  | cons ch rest ih =>
      simp only [scanGroup]
      split
      · simp [Described]
      · next hcheck => exact (described_checkOption hcheck).append ih
      · next hcheck => exact described_checkOption hcheck

/-- The options of a word have descriptors. -/
theorem described_scanWord (ch : Char) (rest : Str) (next : Option Str) :
    Described usage (scanWord usage ch rest next).1 := by
  unfold scanWord
  split
  · split
    · simp [Described]
    · next hcheck => exact described_checkOption hcheck
  · exact described_scanGroup next (ch :: rest)

/-- The options of the words have descriptors. -/
theorem described_scan (skipped : Bool) (args : List Str) :
    Described usage (scan usage skipped args).1 := by
  induction args generalizing skipped with
  | nil => simp [scan, Described]
  | cons param args ih =>
      cases skipped with
      | true => exact ih false
      | false =>
          simp only [scan]
          split
          · simp [Described]
          · next ch rest _ =>
              have hword : Described usage (scanWord usage ch rest args.head?).1 :=
                described_scanWord ch rest args.head?
              split
              · next heq => rwa [heq] at hword
              · next heq =>
                  rw [heq] at hword
                  exact hword.append (ih _)
          · simp [Described]

/-- The loop over the descriptors leaves more than it starts from, and than every index. -/
theorem foldl_raise {usage : List Descriptor}
    (hint : ∀ descriptor ∈ usage, descriptor.index ≤ limit) (start : Nat) :
    start ≤ usage.foldl raise start ∧
      ∀ descriptor ∈ usage, descriptor.index < usage.foldl raise start := by
  induction usage generalizing start with
  | nil => simp
  | cons first usage ih =>
      rw [List.forall_mem_cons] at hint
      obtain ⟨hstart, hrest⟩ := ih hint.2 (raise start first)
      have hfirst : start ≤ raise start first ∧ first.index < raise start first := by
        -- the sums do not wrap around
        have hle := hint.1
        rw [limit] at hle
        unfold raise
        split <;> omega
      rw [List.forall_mem_cons, List.foldl_cons]
      exact ⟨Nat.le_trans hfirst.1 hstart, Nat.lt_of_lt_of_le hfirst.2 hstart, hrest⟩

/-- There is a list for the index of every descriptor. -/
theorem index_lt_optionsMaxOf (hint : ∀ descriptor ∈ usage, descriptor.index ≤ limit)
    {descriptor : Descriptor} (h : descriptor ∈ usage) : descriptor.index < optionsMaxOf usage :=
  (foldl_raise hint 1).2 descriptor h

/-! ## The arrays fit -/

/-- The parser has stored the options of the words, up to the number that an `int` counts to: each
in the list of its index, too. It has failed where the words are in error or there are more. -/
structure Stores (usage : List Descriptor) (args : List Str) (optionsMax : Nat) (parser : Parser) :
    Prop where
  buffer : parser.stored.buffer = (scan usage false args).1.take limit
  options : ∀ index < optionsMax, parser.stored.options[index]? =
    some (parser.stored.buffer.filter (·.index == index))
  err : parser.err = true ↔
    (∃ text, (scan usage false args).2 = .error text) ∨ limit < (scan usage false args).1.length
  nonops : parser.err = false → (scan usage false args).2 = .ok parser.nonops

/-- The second pass stays within arrays that have room for the indices of the descriptors and for
the options of the words. -/
theorem stores_new {args : List Str} {optionsMax bufferMax : Nat}
    (hint : ∀ descriptor ∈ usage, descriptor.index ≤ limit)
    (hoptions : ∀ descriptor ∈ usage, descriptor.index < optionsMax) (hpositive : 0 < bufferMax)
    (hbuffer : min (scan usage false args).1.length limit ≤ bufferMax) :
    ∃ parser, Parser.new usage args optionsMax bufferMax = some parser ∧
      Stores usage args optionsMax parser := by
  have hindex : ∀ option ∈ (scan usage false args).1,
      option.index ≤ limit ∧ option.index < optionsMax := by
    intro option hoption
    obtain ⟨descriptor, hmem, hindex⟩ := described_scan false args option hoption
    rw [hindex]
    exact ⟨hint descriptor hmem, hoptions descriptor hmem⟩
  have hroom : min (([] : List CommandOption).length + (scan usage false args).1.length) limit ≤
      bufferMax := by
    rwa [List.length_nil, Nat.zero_add]
  have hstore := performAll_storeOption (Nat.zero_le _) hroom hindex
  have hempty : storedOf optionsMax [] = ⟨List.replicate optionsMax [], []⟩ := by
    simp [storedOf, List.map_const']
  rw [hempty, List.length_nil, Nat.zero_add, Nat.sub_zero, List.nil_append] at hstore
  rw [Parser.new, if_neg (by omega), workhorse_eq, hstore, Option.map_some, Option.map_some]
  refine ⟨_, rfl, ?_⟩
  have hlists (buffer : List CommandOption) : ∀ index < optionsMax,
      (storedOf optionsMax buffer).options[index]? =
        some (buffer.filter (·.index == index)) := by
    intro index hlt
    simp [storedOf, hlt]
  unfold outcomeAfter
  by_cases hle : (scan usage false args).1.length ≤ limit
  · rw [if_pos (decide_eq_true hle)]
    cases hending : (scan usage false args).2 with
    | error text => exact ⟨rfl, hlists _, by simp [hending], by simp⟩
    | ok nonops => exact ⟨rfl, hlists _, by simp [hending, hle], by simp [hending]⟩
  · rw [if_neg (by simpa using hle)]
    exact ⟨rfl, hlists _, by simp [Nat.lt_of_not_le hle], by simp⟩

/-- The number of slots that the first pass finds. -/
theorem bufferMax_new (usage : List Descriptor) (args : List Str) :
    (Stats.new usage args).bufferMax = min (1 + (scan usage false args).1.length) limit := by
  simp only [Stats.new, workhorse_eq, performAll_countOptions (by decide : 1 ≤ limit),
    Option.map_some, Option.getD_some]
  unfold outcomeAfter
  split
  · split <;> rfl
  · rfl

/-- The first pass finds at least one slot, as many as there are options. -/
theorem fits_bufferMax_new (usage : List Descriptor) (args : List Str) :
    0 < (Stats.new usage args).bufferMax ∧
      min (scan usage false args).1.length limit ≤ (Stats.new usage args).bufferMax := by
  rw [bufferMax_new, limit]
  omega

/-- In arrays of the sizes that the first pass finds, the second pass stores the options of the
words, and stays within the arrays, where an `int` holds the indices of the descriptors. -/
theorem parser_fits_stats (usage : List Descriptor) (args : List Str)
    (hint : ∀ descriptor ∈ usage, descriptor.index ≤ limit) :
    ∃ parser, Parser.new usage args (Stats.new usage args).optionsMax
        (Stats.new usage args).bufferMax = some parser ∧
      Stores usage args (Stats.new usage args).optionsMax parser := by
  obtain ⟨hpositive, hbuffer⟩ := fits_bufferMax_new usage args
  exact stores_new hint (fun _ hmem => index_lt_optionsMaxOf hint hmem) hpositive hbuffer

/-- Descriptors whose indices are far apart. -/
def sparseUsage : List Descriptor :=
  [⟨0, [], [], fun _ => .none⟩, ⟨9, ['v'], "verbose".toList, fun _ => .none⟩,
    ⟨3, ['q'], "size".toList, fun _ => .ok⟩]

/-- Two options in one word, one of them with the rest of the word as its argument. -/
theorem parser_fits_stats_grouped :
    ∃ parser, Parser.new sparseUsage ["-vq7".toList, "name".toList] 11 3 = some parser ∧
      parser.stored.buffer = [⟨9, "vq7".toList, none⟩, ⟨3, "q7".toList, some "7".toList⟩] ∧
      Stores sparseUsage ["-vq7".toList, "name".toList] 11 parser := by
  obtain ⟨parser, hparser, hstores⟩ :=
    parser_fits_stats sparseUsage ["-vq7".toList, "name".toList] (by decide)
  exact ⟨parser, hparser, hstores.buffer, hstores⟩

/-- The index of a descriptor is as large as an `unsigned` can be, so that the sum wraps around, and
an option of it leaves the array. -/
example : optionsMaxOf [⟨2 ^ 32 - 1, ['v'], [], fun _ => .none⟩] = 1 ∧
    Parser.new [⟨2 ^ 32 - 1, ['v'], [], fun _ => .none⟩] ["-v".toList] 1 2 = none :=
  ⟨rfl, rfl⟩

end OptionParser

end Wheespa
