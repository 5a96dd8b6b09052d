import Wheespa.CommandLine

/-!
# What `getOpts` answers

The parser that `getOpts` constructs reads the command lines of the grammar, and no other words.
`getOpts` fails on all others, and where help is asked for. Otherwise it makes the settings in their
order, and asks for an address where the program does not listen.
-/

namespace Wheespa

open OptionParser

/-! ## The parser -/

/-- The parser that `getOpts` constructs. -/
theorem parser_new (args : List Str) :
    ∃ parser, Parser.new desc args (Stats.new desc args).optionsMax
        (Stats.new desc args).bufferMax = some parser ∧
      Stores desc args (Stats.new desc args).optionsMax parser := by
  obtain ⟨hpositive, hbuffer⟩ := fits_bufferMax_new desc args
  exact stores_new desc_index_le_limit
    (fun _ hmem => index_lt_optionsMaxOf desc_index_le_limit hmem) hpositive hbuffer

/-- A parser that has not failed has read a command line. -/
theorem read_of_stores {args : List Str} {optionsMax : Nat} {parser : Parser}
    (h : Stores desc args optionsMax parser) (herr : parser.err = false) :
    ∃ settings, CommandLine args settings parser.nonops ∧ settings.length ≤ limit ∧
      Read parser.stored.buffer settings := by
  have hle : (scan desc false args).1.length ≤ limit := by
    refine Nat.le_of_not_lt fun hlt => ?_
    rw [h.err.mpr (.inr hlt)] at herr
    cases herr
  have hbuffer : parser.stored.buffer = (scan desc false args).1 := by
    rw [h.buffer, List.take_of_length_le hle]
  rw [hbuffer]
  obtain ⟨settings, hread, hline⟩ := scan_sound (Prod.ext rfl (h.nonops herr))
  exact ⟨settings, hline, by rwa [← hread.length_eq], hread⟩

/-- A parser has read a command line if there are not too many settings. -/
theorem stores_of_commandLine {args : List Str} {settings : List Setting} {nonops : List Str}
    (hline : CommandLine args settings nonops) (hle : settings.length ≤ limit) {optionsMax : Nat}
    {parser : Parser} (h : Stores desc args optionsMax parser) :
    parser.err = false ∧ parser.nonops = nonops ∧ Read parser.stored.buffer settings := by
  obtain ⟨options, hscan, hread⟩ := scan_complete hline
  have herr : parser.err = false := by
    rw [Bool.eq_false_iff, Ne, h.err, hscan, not_or]
    exact ⟨by simp, by rw [hread.length_eq]; omega⟩
  have hnonops := h.nonops herr
  have hbuffer := h.buffer
  rw [hscan] at hnonops hbuffer
  rw [List.take_of_length_le (by rwa [hread.length_eq])] at hbuffer
  exact ⟨herr, (Except.ok.inj hnonops).symm, hbuffer ▸ hread⟩

/-- The parser reads the command lines with no more settings than an `int` counts to, and no other
words. -/
theorem parser_reads_commandLine (args : List Str) (settings : List Setting) (nonops : List Str) :
    (∃ parser, Parser.new desc args (Stats.new desc args).optionsMax
        (Stats.new desc args).bufferMax = some parser ∧ parser.err = false ∧
        parser.nonops = nonops ∧ Read parser.stored.buffer settings) ↔
      CommandLine args settings nonops ∧ settings.length ≤ limit := by
  obtain ⟨parser, hparser, hstores⟩ := parser_new args
  constructor
  · rintro ⟨parser', hparser', herr, rfl, hread⟩
    obtain rfl := Option.some.inj (hparser.symm.trans hparser')
    obtain ⟨settings', hline, hle, hread'⟩ := read_of_stores hstores herr
    obtain rfl := hread.unique hread'
    exact ⟨hline, hle⟩
  · intro ⟨hline, hle⟩
    exact ⟨parser, hparser, stores_of_commandLine hline hle hstores⟩

/-! ## `getOpts` -/

namespace WheespaOpts

/-- The options with one setting more. -/
def set (opts : WheespaOpts) : Setting → WheespaOpts
  | .flag .help => opts
  | .flag .verbose => { opts with verbose := true }
  | .flag .listen => { opts with listen := true }
  | .value .certfile text => { opts with certfile := text }
  | .value .logfile text => { opts with logfile := text }
  | .value .basefile text => { opts with dbasefile := text }
  | .value .queuesize text =>
      { opts with listenQueueSize := Int.bmod (((strtol text).map Prod.fst).getD 0) (2 ^ 32) }
  | .value .port text => { opts with port := text }

/-- The options as a command line sets them. The first of the other words is the address. -/
def configured (opts : WheespaOpts) (settings : List Setting) (nonops : List Str) : WheespaOpts :=
  let opts := settings.foldl set opts
  { opts with address := nonops.head?.getD opts.address }

/-- The command line is one that the program may be started with. -/
structure Starts (argv : List Str) (settings : List Setting) (nonops : List Str) : Prop where
  line : CommandLine argv.tail settings nonops
  length : settings.length ≤ limit
  help : .flag .help ∉ settings

/-- The options name files for the certificate and the database, and a port by its number. -/
structure Usable (opts : WheespaOpts) : Prop where
  certfile : opts.certfile ≠ []
  dbasefile : opts.dbasefile ≠ []
  port : IsNumber opts.port

/-- What `getOpts` answers. -/
inductive Answer (opts : WheespaOpts) (argv : List Str) : OptsCode × WheespaOpts × Str → Prop where
  | good {settings : List Setting} {nonops : List Str} : Starts argv settings nonops →
      (opts.configured settings nonops).address ≠ [] ∨
        (opts.configured settings nonops).listen = true →
      Answer opts argv (.optGood, opts.configured settings nonops, [])
  | noClientAddr {settings : List Setting} {nonops : List Str} : Starts argv settings nonops →
      (opts.configured settings nonops).address = [] →
      (opts.configured settings nonops).listen = false →
      Answer opts argv (.noClientAddr, opts.configured settings nonops,
        "[!] ADDRESS cannot be empty in client mode.\n".toList)
  | bad (cerr : Str) : (∀ settings nonops, ¬ Starts argv settings nonops) →
      Answer opts argv (.optBad, opts, cerr)

theorem assign_eq_set {opts : WheespaOpts} {option : CommandOption} {setting : Setting}
    (h : settingOf option = some setting) : opts.assign option = some (opts.set setting) := by
  cases hindex : OptIndex.ofNat? option.index with
  | none => simp [settingOf, hindex] at h
  | some index =>
      simp only [settingOf, hindex] at h
      simp only [assign, hindex]
      cases index with
      | unknown | asAdmin | asAnonymous => cases h
      | help | verbose | listen =>
          obtain rfl := Option.some.inj h
          rfl
      | certfile | logfile | basefile | queuesize | port =>
          obtain ⟨arg, harg, rfl⟩ := Option.map_eq_some_iff.mp h
          rw [harg]
          rfl

/-- The loop over `buffer` makes the settings one after the other. -/
theorem foldlM_assign {options : List CommandOption} {settings : List Setting}
    (h : Read options settings) (opts : WheespaOpts) :
    options.foldlM assign opts = some (settings.foldl set opts) := by
  induction options generalizing settings opts with
  | nil =>
      obtain rfl : settings = [] := List.length_eq_zero_iff.mp h.length_eq.symm
      rfl
  | cons option options ih =>
      cases settings with
      | nil => cases h
      | cons setting settings =>
          obtain ⟨hoption, hrest⟩ := List.cons.inj h
          rw [List.foldlM_cons, assign_eq_set hoption]
          exact ih hrest (opts.set setting)

theorem settingOf_eq_help {option : CommandOption} :
    settingOf option = some (.flag .help) ↔ option.index = OptIndex.help.toNat := by
  constructor
  · intro h
    cases hindex : OptIndex.ofNat? option.index with
    | none => simp [settingOf, hindex] at h
    | some index =>
        have hnumber : option.index = index.toNat := by
          have hfound := List.find?_some hindex
          exact (beq_iff_eq.mp hfound).symm
        simp only [settingOf, hindex] at h
        cases index with
        | help => exact hnumber
        | unknown | asAdmin | asAnonymous | verbose | listen => cases h
        | certfile | logfile | basefile | queuesize | port => simp at h
  · intro h
    rw [settingOf, h, OptIndex.ofNat?_toNat]

/-- The list of the help options is empty if help is not asked for. -/
theorem help_isEmpty {options : List CommandOption} {settings : List Setting}
    (h : Read options settings) :
    (options.filter (·.index == OptIndex.help.toNat)).isEmpty = true ↔
      .flag .help ∉ settings := by
  have hmem : Setting.flag .help ∈ settings ↔
      some (Setting.flag .help) ∈ options.map settingOf := by
    rw [h, List.mem_map_of_injective (fun _ _ => Option.some.inj)]
  rw [hmem, List.isEmpty_iff, List.filter_eq_nil_iff, List.mem_map]
  simp [settingOf_eq_help]

/-- `getOpts`, if the parser is known. -/
theorem getOpts_eq {opts : WheespaOpts} {argv : List Str} {parser : Parser}
    (hparser : Parser.new desc argv.tail (Stats.new desc argv.tail).optionsMax
      (Stats.new desc argv.tail).bufferMax = some parser)
    (hstores : Stores desc argv.tail (Stats.new desc argv.tail).optionsMax parser) :
    opts.getOpts argv =
      if !(parser.stored.buffer.filter (·.index == OptIndex.help.toNat)).isEmpty || parser.err then
        some (.optBad, opts, parser.cerr)
      else (parser.stored.buffer.foldlM assign opts).map fun assigned =>
        let assigned := { assigned with address := parser.nonops.head?.getD assigned.address }
        if assigned.address.isEmpty && !assigned.listen then
          (.noClientAddr, assigned, "[!] ADDRESS cannot be empty in client mode.\n".toList)
        else (.optGood, assigned, []) := by
  have hmem : Flag.help.descriptor ∈ desc := by simp [desc, Flag.descriptor]
  have hlist := hstores.options OptIndex.help.toNat (index_lt_optionsMaxOf desc_index_le_limit hmem)
  simp only [getOpts, hparser, hlist, Option.bind_eq_bind, Option.bind_some]
  split
  · rfl
  · rw [Option.map_eq_bind]
    congr 1
    funext assigned
    cases parser.nonops with
    | nil => exact (apply_ite some _ _ _).symm
    | cons address nonops => exact (apply_ite some _ _ _).symm

theorem usable_new (verbose listen asAdmin asAnonymous : Bool) :
    (new verbose listen asAdmin asAnonymous).Usable :=
  ⟨by simp [new], by simp [new], rfl⟩

/-- A setting keeps the options usable. -/
theorem Usable.set {opts : WheespaOpts} (h : opts.Usable) {setting : Setting}
    (haccepted : setting.Accepted) : (opts.set setting).Usable := by
  cases setting with
  | flag flag => cases flag <;> exact ⟨h.certfile, h.dbasefile, h.port⟩
  | value key text =>
      cases key with
      | certfile => exact ⟨haccepted, h.dbasefile, h.port⟩
      | basefile => exact ⟨h.certfile, haccepted, h.port⟩
      | port => exact ⟨h.certfile, h.dbasefile, haccepted⟩
      | logfile | queuesize => exact ⟨h.certfile, h.dbasefile, h.port⟩

/-- A command line keeps the options usable. -/
theorem Usable.configured {opts : WheespaOpts} (h : opts.Usable) {settings : List Setting}
    (haccepted : ∀ setting ∈ settings, setting.Accepted) (nonops : List Str) :
    (opts.configured settings nonops).Usable := by
  have hset : (settings.foldl WheespaOpts.set opts).Usable := by
    induction settings generalizing opts with
    | nil => exact h
    | cons setting settings ih =>
        rw [List.forall_mem_cons] at haccepted
        exact ih (h.set haccepted.1) haccepted.2
  exact ⟨hset.certfile, hset.dbasefile, hset.port⟩

theorem Answer.usable {opts : WheespaOpts} {argv : List Str} {answer : OptsCode × WheespaOpts × Str}
    (hanswer : Answer opts argv answer) (h : opts.Usable) : answer.2.1.Usable := by
  cases hanswer with
  | good hstarts _ => exact h.configured hstarts.line.accepted _
  | noClientAddr hstarts _ _ => exact h.configured hstarts.line.accepted _
  | bad cerr _ => exact h

/-- `getOpts` answers to every command line, leaves no array and uses no null pointer. It keeps the
options usable. -/
theorem getOpts_answers (opts : WheespaOpts) (argv : List Str) :
    ∃ answer, opts.getOpts argv = some answer ∧ Answer opts argv answer ∧
      (opts.Usable → answer.2.1.Usable) := by
  obtain ⟨parser, hparser, hstores⟩ := parser_new argv.tail
  suffices hanswer : ∃ answer, opts.getOpts argv = some answer ∧ Answer opts argv answer by
    obtain ⟨answer, hget, hanswer⟩ := hanswer
    exact ⟨answer, hget, hanswer, hanswer.usable⟩
  rw [getOpts_eq hparser hstores]
  split
  · next hbad =>
      refine ⟨_, rfl, .bad _ fun settings nonops hstarts => ?_⟩
      obtain ⟨herr, _, hread⟩ := stores_of_commandLine hstarts.line hstarts.length hstores
      have hempty := (help_isEmpty hread).mpr hstarts.help
      rw [hempty, herr] at hbad
      cases hbad
  · next hgood =>
      rw [Bool.not_eq_true, Bool.or_eq_false_iff, Bool.not_eq_false'] at hgood
      obtain ⟨hempty, herr⟩ := hgood
      obtain ⟨settings, hline, hle, hread⟩ := read_of_stores hstores herr
      have hstarts : Starts argv settings parser.nonops :=
        ⟨hline, hle, (help_isEmpty hread).mp hempty⟩
      rw [foldlM_assign hread, Option.map_some]
      refine ⟨_, rfl, ?_⟩
      show Answer opts argv (if (opts.configured settings parser.nonops).address.isEmpty &&
        !(opts.configured settings parser.nonops).listen then _ else _)
      split
      · next haddress =>
          rw [Bool.and_eq_true, List.isEmpty_iff, Bool.not_eq_true'] at haddress
          exact .noClientAddr hstarts haddress.1 haddress.2
      · next haddress =>
          refine .good hstarts ?_
          rw [Bool.and_eq_true, List.isEmpty_iff, Bool.not_eq_true', not_and_or,
            Bool.not_eq_false] at haddress
          exact haddress

end WheespaOpts

end Wheespa
