import Mathlib.Data.List.Find
import Wheespa.WheespaOpts

/-!
# Command lines

What a user may write on the command line, as a grammar of its own: settings, each of which is
spelled by one or two words, and the words that follow them. The options that the parser finds are
what a command line asks for: `scan_sound` and `scan_complete`.
-/

namespace Wheespa

open OptionParser

/-! ## The grammar -/

/-- An option without an argument. -/
inductive Flag where
  | help
  | verbose
  | listen
  deriving DecidableEq, Repr

/-- An option with an argument. -/
inductive Key where
  | certfile
  | logfile
  | basefile
  | queuesize
  | port
  deriving DecidableEq, Repr

/-- The letter of an option. -/
def Flag.letter : Flag → Char
  | help => 'h'
  | verbose => 'v'
  | listen => 'l'

/-- The name of an option. -/
def Flag.word : Flag → Str
  | help => "help".toList
  | verbose => "verbose".toList
  | listen => "listen".toList

/-- The letter of an option, if it has one. -/
def Key.letter? : Key → Option Char
  | certfile | logfile | basefile => none
  | queuesize => some 'q'
  | port => some 'p'

/-- The name of an option. -/
def Key.word : Key → Str
  | certfile => "cert".toList
  | logfile => "logfile".toList
  | basefile => "database".toList
  | queuesize => "size".toList
  | port => "port".toList

/-- The text is a number, with nothing behind it. -/
def IsNumber (text : Str) : Prop :=
  (strtol text).map Prod.snd = some []

/-- The texts that are arguments of an option. -/
def Key.Accepts : Key → Str → Prop
  | certfile, text | logfile, text | basefile, text => text ≠ []
  | queuesize, text | port, text => IsNumber text

/-- What a user asks for. -/
inductive Setting where
  | flag (flag : Flag)
  | value (key : Key) (text : Str)
  deriving DecidableEq, Repr

/-- The letters after a minus sign, with the word that follows them if it is an argument: flags, and
behind them at most one option with its argument. -/
inductive Group : Str → List Str → List Setting → Prop where
  | nil : Group [] [] []
  | flag {flag : Flag} {letters : Str} {words : List Str} {settings : List Setting} :
      Group letters words settings → Group (flag.letter :: letters) words (.flag flag :: settings)
  | attached {key : Key} {letter : Char} {text : Str} :
      key.letter? = some letter → text ≠ [] → key.Accepts text →
      Group (letter :: text) [] [.value key text]
  | detached {key : Key} {letter : Char} {text : Str} :
      key.letter? = some letter → key.Accepts text → Group [letter] [text] [.value key text]

/-- The words that settings are spelled by. What stands behind a flag and `=` is ignored. -/
inductive Spelling : List Str → List Setting → Prop where
  | short {letters : Str} {words : List Str} {settings : List Setting} :
      letters ≠ [] → Group letters words settings → Spelling (('-' :: letters) :: words) settings
  | flag (flag : Flag) : Spelling ["--".toList ++ flag.word] [.flag flag]
  | ignored (flag : Flag) (text : Str) :
      Spelling ["--".toList ++ flag.word ++ '=' :: text] [.flag flag]
  | attached {key : Key} {text : Str} : key.Accepts text →
      Spelling ["--".toList ++ key.word ++ '=' :: text] [.value key text]
  | detached {key : Key} {text : Str} : key.Accepts text →
      Spelling ["--".toList ++ key.word, text] [.value key text]

/-- The word is an option, or stands between the options and the other words. -/
def IsOption (word : Str) : Prop :=
  ∃ ch rest, word = '-' :: ch :: rest

/-- A command line: settings, and the other words. -/
inductive CommandLine : List Str → List Setting → List Str → Prop where
  | nil : CommandLine [] [] []
  | other {word : Str} {args : List Str} : ¬ IsOption word →
      CommandLine (word :: args) [] (word :: args)
  | separator (args : List Str) : CommandLine ("--".toList :: args) [] args
  | spelled {words args : List Str} {settings settings' : List Setting} {nonops : List Str} :
      Spelling words settings → CommandLine args settings' nonops →
      CommandLine (words ++ args) (settings ++ settings') nonops

/-- The argument of a setting is one of its option. -/
def Setting.Accepted : Setting → Prop
  | .flag _ => True
  | .value key text => key.Accepts text

/-- A group has the arguments of its options. -/
theorem Group.accepted {letters : Str} {words : List Str} {settings : List Setting}
    (h : Group letters words settings) : ∀ setting ∈ settings, setting.Accepted := by
  induction h with
  | nil => simp
  | flag _ ih => exact List.forall_mem_cons.mpr ⟨trivial, ih⟩
  | attached _ _ haccepts => exact List.forall_mem_singleton.mpr haccepts
  | detached _ haccepts => exact List.forall_mem_singleton.mpr haccepts

theorem Spelling.accepted {words : List Str} {settings : List Setting}
    (h : Spelling words settings) : ∀ setting ∈ settings, setting.Accepted := by
  cases h with
  | short _ hgroup => exact hgroup.accepted
  | flag | ignored => exact List.forall_mem_singleton.mpr trivial
  | attached haccepts | detached haccepts => exact List.forall_mem_singleton.mpr haccepts

/-- A command line has the arguments of its options. -/
theorem CommandLine.accepted {args : List Str} {settings : List Setting} {nonops : List Str}
    (h : CommandLine args settings nonops) : ∀ setting ∈ settings, setting.Accepted := by
  induction h with
  | nil | other | separator => simp
  | spelled hspelling _ ih => exact List.forall_mem_append.mpr ⟨hspelling.accepted, ih⟩

/-! ## Options and settings -/

/-- The setting that an option is. -/
def settingOf (option : CommandOption) : Option Setting :=
  match OptIndex.ofNat? option.index with
  | some .help => some (.flag .help)
  | some .verbose => some (.flag .verbose)
  | some .listen => some (.flag .listen)
  | some .certfile => option.arg.map (.value .certfile)
  | some .logfile => option.arg.map (.value .logfile)
  | some .basefile => option.arg.map (.value .basefile)
  | some .queuesize => option.arg.map (.value .queuesize)
  | some .port => option.arg.map (.value .port)
  | some .unknown | some .asAdmin | some .asAnonymous | none => none

/-- The options are the settings. -/
def Read (options : List CommandOption) (settings : List Setting) : Prop :=
  options.map settingOf = settings.map some

theorem Read.append {options options' : List CommandOption} {settings settings' : List Setting}
    (h : Read options settings) (h' : Read options' settings') :
    Read (options ++ options') (settings ++ settings') := by
  rw [Read, List.map_append, List.map_append, h, h']

theorem Read.cons {option : CommandOption} {setting : Setting} {options : List CommandOption}
    {settings : List Setting} (h : settingOf option = some setting) (h' : Read options settings) :
    Read (option :: options) (setting :: settings) := by
  rw [Read, List.map_cons, List.map_cons, h, h']

theorem Read.single {option : CommandOption} {setting : Setting}
    (h : settingOf option = some setting) : Read [option] [setting] := by
  rw [Read, List.map_singleton, List.map_singleton, h]

/-- The descriptor of a flag. -/
def Flag.descriptor : Flag → Descriptor
  | help => ⟨OptIndex.help.toNat, ['h'], "help".toList, argNone⟩
  | verbose => ⟨OptIndex.verbose.toNat, ['v'], "verbose".toList, argNone⟩
  | listen => ⟨OptIndex.listen.toNat, ['l'], "listen".toList, argNone⟩

/-- The descriptor of an option with an argument. -/
def Key.descriptor : Key → Descriptor
  | certfile => ⟨OptIndex.certfile.toNat, [], "cert".toList, nonEmpty⟩
  | logfile => ⟨OptIndex.logfile.toNat, [], "logfile".toList, nonEmpty⟩
  | basefile => ⟨OptIndex.basefile.toNat, [], "database".toList, nonEmpty⟩
  | queuesize => ⟨OptIndex.queuesize.toNat, ['q'], "size".toList, numeric⟩
  | port => ⟨OptIndex.port.toNat, ['p'], "port".toList, numeric⟩

/-- The descriptor of an option that is not known. -/
def unknownDescriptor : Descriptor :=
  ⟨OptIndex.unknown.toNat, [], [], unknown⟩

/-- The descriptor of a letter. -/
theorem shortDescriptor_cases (ch : Char) :
    (∃ flag : Flag, ch = flag.letter ∧ shortDescriptor desc ch = some flag.descriptor) ∨
      (∃ key : Key, key.letter? = some ch ∧ shortDescriptor desc ch = some key.descriptor) ∨
      shortDescriptor desc ch = some unknownDescriptor := by
  by_cases hh : ch = 'h'
  · exact .inl ⟨.help, hh, hh ▸ rfl⟩
  by_cases hv : ch = 'v'
  · exact .inl ⟨.verbose, hv, hv ▸ rfl⟩
  by_cases hl : ch = 'l'
  · exact .inl ⟨.listen, hl, hl ▸ rfl⟩
  by_cases hq : ch = 'q'
  · exact .inr (.inl ⟨.queuesize, hq ▸ rfl, hq ▸ rfl⟩)
  by_cases hp : ch = 'p'
  · exact .inr (.inl ⟨.port, hp ▸ rfl, hp ▸ rfl⟩)
  refine .inr (.inr ?_)
  by_cases hnul : ch = '\x00'
  · subst hnul
    rfl
  · simp [shortDescriptor, desc, instr, dummy, hnul, hh, hv, hl, hq, hp, unknownDescriptor]

theorem shortDescriptor_flag (flag : Flag) :
    shortDescriptor desc flag.letter = some flag.descriptor := by
  cases flag <;> rfl

theorem shortDescriptor_key {key : Key} {letter : Char} (h : key.letter? = some letter) :
    shortDescriptor desc letter = some key.descriptor := by
  cases key with
  | certfile | logfile | basefile => cases h
  | queuesize | port =>
      obtain rfl := Option.some.inj h
      rfl

/-- A name agrees with that of an option in what stands before the first `=`. -/
theorem streq_eq {word : Str} (h : '=' ∉ word) (name : Str) :
    streq word name = (name.takeWhile (· != '=') == word) := by
  induction word generalizing name with
  | nil =>
      cases name with
      | nil => rfl
      | cons c name =>
          by_cases hc : c = '='
          · simp [streq, hc]
          · simp [streq, hc]
  | cons a word ih =>
      rw [List.mem_cons, not_or] at h
      cases name with
      | nil => rfl
      | cons c name =>
          by_cases hc : c = '='
          · have hne : (a == '=') = false := by simpa using Ne.symm h.1
            simp [streq, hc, hne]
          · have htake : (c :: name).takeWhile (· != '=') =
                c :: name.takeWhile (· != '=') := by simp [hc]
            rw [streq, ih h.2, htake, List.cons_beq_cons, BEq.comm]

/-- The descriptor of a name depends on what stands before the first `=`. -/
theorem longDescriptor_eq (name : Str) :
    longDescriptor desc name =
      (desc.find? fun descriptor => name.takeWhile (· != '=') == descriptor.longopt).or
        (some unknownDescriptor) := by
  have hnames : ∀ descriptor ∈ desc, '=' ∉ descriptor.longopt := by decide
  have hfind : (desc.find? fun descriptor => streq descriptor.longopt name) =
      desc.find? fun descriptor => name.takeWhile (· != '=') == descriptor.longopt :=
    List.find?_congr fun descriptor hmem => streq_eq (hnames descriptor hmem) name
  rw [longDescriptor, hfind]
  rfl

/-- The descriptor of a name. -/
theorem longDescriptor_cases (name : Str) :
    (∃ flag : Flag, name.takeWhile (· != '=') = flag.word ∧
        longDescriptor desc name = some flag.descriptor) ∨
      (∃ key : Key, name.takeWhile (· != '=') = key.word ∧
        longDescriptor desc name = some key.descriptor) ∨
      longDescriptor desc name = some unknownDescriptor := by
  rw [longDescriptor_eq]
  generalize name.takeWhile (· != '=') = word
  by_cases hhelp : word = "help".toList
  · exact .inl ⟨.help, hhelp, hhelp ▸ rfl⟩
  by_cases hverbose : word = "verbose".toList
  · exact .inl ⟨.verbose, hverbose, hverbose ▸ rfl⟩
  by_cases hlisten : word = "listen".toList
  · exact .inl ⟨.listen, hlisten, hlisten ▸ rfl⟩
  by_cases hcert : word = "cert".toList
  · exact .inr (.inl ⟨.certfile, hcert, hcert ▸ rfl⟩)
  by_cases hlogfile : word = "logfile".toList
  · exact .inr (.inl ⟨.logfile, hlogfile, hlogfile ▸ rfl⟩)
  by_cases hdatabase : word = "database".toList
  · exact .inr (.inl ⟨.basefile, hdatabase, hdatabase ▸ rfl⟩)
  by_cases hsize : word = "size".toList
  · exact .inr (.inl ⟨.queuesize, hsize, hsize ▸ rfl⟩)
  by_cases hport : word = "port".toList
  · exact .inr (.inl ⟨.port, hport, hport ▸ rfl⟩)
  refine .inr (.inr ?_)
  by_cases hempty : word = []
  · subst hempty
    rfl
  · have hfind : desc.find? (fun descriptor => word == descriptor.longopt) = none := by
      rw [List.find?_eq_none]
      simpa [desc, hempty] using
        ⟨hhelp, hverbose, hcert, hlogfile, hdatabase, hsize, hlisten, hport⟩
    rw [hfind, Option.none_or]

theorem longDescriptor_flag {name : Str} {flag : Flag}
    (h : name.takeWhile (· != '=') = flag.word) :
    longDescriptor desc name = some flag.descriptor := by
  rw [longDescriptor_eq, h]
  cases flag <;> rfl

theorem longDescriptor_key {name : Str} {key : Key} (h : name.takeWhile (· != '=') = key.word) :
    longDescriptor desc name = some key.descriptor := by
  rw [longDescriptor_eq, h]
  cases key <;> rfl

/-! ## Checks -/

@[simp] theorem settingOf_flag (flag : Flag) (name : Str) (arg : Option Str) :
    settingOf ⟨flag.descriptor.index, name, arg⟩ = some (.flag flag) := by
  cases flag <;> rfl

@[simp] theorem settingOf_key (key : Key) (name text : Str) :
    settingOf ⟨key.descriptor.index, name, some text⟩ = some (.value key text) := by
  cases key <;> rfl

theorem checkOption_flag (flag : Flag) (name : Str) (optarg : Optarg) :
    checkOption (some flag.descriptor) name optarg =
      .ok (some ⟨flag.descriptor.index, name, none⟩, .nothing) := by
  cases flag <;> rfl

theorem checkOption_unknown (name : Str) (optarg : Optarg) :
    ∃ text, checkOption (some unknownDescriptor) name optarg = .error text :=
  ⟨_, rfl⟩

theorem nonEmpty_eq_ok {option : CommandOption} :
    nonEmpty option = .ok ↔ ∃ text, option.arg = some text ∧ text ≠ [] := by
  obtain ⟨index, name, _ | _ | ⟨c, text⟩⟩ := option <;> simp [nonEmpty]

theorem numeric_eq_ok {option : CommandOption} :
    numeric option = .ok ↔ ∃ text, option.arg = some text ∧ IsNumber text := by
  obtain ⟨index, name, arg⟩ := option
  cases arg with
  | none => simp [numeric]
  | some text =>
      cases hnumber : strtol text with
      | none => simp [numeric, IsNumber, hnumber]
      | some result => obtain ⟨n, _ | ⟨c, rest⟩⟩ := result <;> simp [numeric, IsNumber, hnumber]

/-- The check of an option with an argument. -/
theorem checkArg_key (key : Key) (option : CommandOption) :
    key.descriptor.checkArg option = .ok ∨
      ∃ text, key.descriptor.checkArg option = .illegal text := by
  cases key with
  | certfile | logfile | basefile =>
      show nonEmpty option = .ok ∨ ∃ text, nonEmpty option = .illegal text
      unfold nonEmpty
      split <;> simp
  | queuesize | port =>
      show numeric option = .ok ∨ ∃ text, numeric option = .illegal text
      unfold numeric
      split <;> simp

theorem checkArg_key_eq_ok {key : Key} {option : CommandOption} :
    key.descriptor.checkArg option = .ok ↔ ∃ text, option.arg = some text ∧ key.Accepts text := by
  cases key with
  | certfile | logfile | basefile => exact nonEmpty_eq_ok
  | queuesize | port => exact numeric_eq_ok

theorem checkOption_key {key : Key} {name text : Str} {optarg : Optarg}
    (harg : optarg.text = some text) (haccepts : key.Accepts text) :
    checkOption (some key.descriptor) name optarg =
      .ok (some ⟨key.descriptor.index, name, some text⟩, optarg.taken) := by
  have hcheck : key.descriptor.checkArg ⟨key.descriptor.index, name, some text⟩ = .ok :=
    checkArg_key_eq_ok.mpr ⟨text, rfl, haccepts⟩
  simp only [checkOption, harg, hcheck]

theorem checkOption_key_eq_ok {key : Key} {name : Str} {optarg : Optarg}
    {option : Option CommandOption} {taken : Taken}
    (h : checkOption (some key.descriptor) name optarg = .ok (option, taken)) :
    ∃ text, optarg.text = some text ∧ key.Accepts text ∧ taken = optarg.taken ∧
      option = some ⟨key.descriptor.index, name, some text⟩ := by
  rcases checkArg_key key ⟨key.descriptor.index, name, optarg.text⟩ with hok | ⟨text, herror⟩
  · obtain ⟨text, harg, haccepts⟩ := checkArg_key_eq_ok.mp hok
    rw [checkOption_key harg haccepts] at h
    obtain ⟨rfl, rfl⟩ := Prod.mk.inj (Except.ok.inj h)
    exact ⟨text, harg, haccepts, rfl, rfl⟩
  · simp [checkOption, herror] at h

/-! ## Groups -/

/-- The words that an option takes of those that follow it. -/
def Takes (next : Option Str) (taken : Taken) (words : List Str) : Prop :=
  (taken ≠ .nextWord ∧ words = []) ∨ (taken = .nextWord ∧ ∃ text, next = some text ∧ words = [text])

/-- What is read in a group is spelled there. -/
theorem scanGroup_sound {next : Option Str} {letters : Str} {options : List CommandOption}
    {taken : Taken} (h : scanGroup desc next letters = (options, .ok taken)) :
    ∃ words settings, Group letters words settings ∧ Read options settings ∧
      Takes next taken words := by
  induction letters generalizing options with
  | nil =>
      obtain ⟨rfl, htaken⟩ := Prod.mk.inj h
      obtain rfl := Except.ok.inj htaken
      exact ⟨[], [], .nil, rfl, .inl ⟨by decide, rfl⟩⟩
  | cons ch rest ih =>
      simp only [scanGroup] at h
      rcases shortDescriptor_cases ch with ⟨flag, rfl, hflag⟩ | ⟨key, hletter, hkey⟩ | hunknown
      · rw [hflag, checkOption_flag] at h
        obtain ⟨rfl, hending⟩ := Prod.mk.inj h
        obtain ⟨words, settings, hgroup, hread, htakes⟩ := ih (Prod.ext rfl hending)
        exact ⟨words, .flag flag :: settings, .flag hgroup, hread.cons (settingOf_flag ..), htakes⟩
      · rw [hkey] at h
        cases hcheck : checkOption (some key.descriptor) (ch :: rest) (shortOptarg rest next) with
        | error text => simp [hcheck] at h
        | ok result =>
            obtain ⟨option, taken'⟩ := result
            obtain ⟨text, harg, haccepts, rfl, rfl⟩ := checkOption_key_eq_ok hcheck
            cases rest with
            | nil =>
                obtain rfl : next = some text := harg
                rw [hcheck] at h
                obtain ⟨rfl, htaken⟩ := Prod.mk.inj h
                obtain rfl := Except.ok.inj htaken
                exact ⟨[text], [.value key text], .detached hletter haccepts,
                  Read.single (settingOf_key ..), .inr ⟨rfl, text, rfl, rfl⟩⟩
            | cons c rest =>
                obtain rfl := Option.some.inj harg
                rw [hcheck] at h
                obtain ⟨rfl, htaken⟩ := Prod.mk.inj h
                obtain rfl := Except.ok.inj htaken
                exact ⟨[], [.value key (c :: rest)], .attached hletter (by simp) haccepts,
                  Read.single (settingOf_key ..), .inl ⟨by simp [shortOptarg, Optarg.taken], rfl⟩⟩
      · obtain ⟨text, herror⟩ := checkOption_unknown (ch :: rest) (shortOptarg rest next)
        rw [hunknown, herror] at h
        simp at h

/-- What is spelled in a group is read there. -/
theorem scanGroup_complete {letters : Str} {words : List Str} {settings : List Setting}
    (h : Group letters words settings) {next : Option Str}
    (hnext : words ≠ [] → next = words.head?) :
    ∃ options taken, scanGroup desc next letters = (options, .ok taken) ∧ Read options settings ∧
      Takes next taken words := by
  induction h with
  | nil => exact ⟨[], .nothing, rfl, rfl, .inl ⟨by decide, rfl⟩⟩
  | @flag flag letters words settings hgroup ih =>
      obtain ⟨options, taken, hscan, hread, htakes⟩ := ih hnext
      have hcons : scanGroup desc next (flag.letter :: letters) =
          (⟨flag.descriptor.index, flag.letter :: letters, none⟩ :: options, .ok taken) := by
        simp only [scanGroup, shortDescriptor_flag, checkOption_flag, hscan]
        rfl
      exact ⟨_, taken, hcons, hread.cons (settingOf_flag ..), htakes⟩
  | @attached key letter text hletter hne haccepts =>
      obtain ⟨c, rest, rfl⟩ := List.exists_cons_of_ne_nil hne
      have hscan : scanGroup desc next (letter :: c :: rest) =
          ([⟨key.descriptor.index, letter :: c :: rest, some (c :: rest)⟩], .ok .word) := by
        simp only [scanGroup, shortDescriptor_key hletter,
          @checkOption_key key (letter :: c :: rest) _ (shortOptarg (c :: rest) next) rfl haccepts]
        rfl
      exact ⟨_, .word, hscan, Read.single (settingOf_key ..), .inl ⟨by decide, rfl⟩⟩
  | @detached key letter text hletter haccepts =>
      obtain rfl : next = some text := hnext (by simp)
      have hscan : scanGroup desc (some text) [letter] =
          ([⟨key.descriptor.index, [letter], some text⟩], .ok .nextWord) := by
        simp only [scanGroup, shortDescriptor_key hletter,
          @checkOption_key key [letter] _ (shortOptarg [] (some text)) rfl haccepts]
        rfl
      exact ⟨_, .nextWord, hscan, Read.single (settingOf_key ..), .inr ⟨rfl, text, rfl, rfl⟩⟩

/-! ## Words -/

/-- A name ends at the first `=`, and what follows it is the argument. -/
theorem name_cases (name : Str) (next : Option Str) :
    (name = name.takeWhile (· != '=') ∧ longOptarg name next = .detached next) ∨
      ∃ text, name = name.takeWhile (· != '=') ++ '=' :: text ∧
        longOptarg name next = .attached text := by
  have hname : name.takeWhile (· != '=') ++ name.dropWhile (· != '=') = name :=
    List.takeWhile_append_dropWhile
  cases hdrop : name.dropWhile (· != '=') with
  | nil =>
      rw [hdrop, List.append_nil] at hname
      exact .inl ⟨hname.symm, by rw [longOptarg, hdrop]⟩
  | cons c text =>
      have hhead := List.head?_dropWhile_not (· != '=') name
      rw [hdrop] at hhead
      obtain rfl : c = '=' := by simpa using hhead
      rw [hdrop] at hname
      exact .inr ⟨text, hname.symm, by rw [longOptarg, hdrop]⟩

/-- What is read in a long option is spelled there. -/
theorem scanLong_sound {name param : Str} {next : Option Str} {option : Option CommandOption}
    {taken : Taken}
    (h : checkOption (longDescriptor desc name) param (longOptarg name next) =
      .ok (option, taken)) :
    ∃ words settings, Spelling (('-' :: '-' :: name) :: words) settings ∧
      Read option.toList settings ∧ Takes next taken words := by
  rcases longDescriptor_cases name with ⟨flag, hword, hflag⟩ | ⟨key, hword, hkey⟩ | hunknown
  · rw [hflag, checkOption_flag] at h
    obtain ⟨rfl, rfl⟩ := Prod.mk.inj (Except.ok.inj h)
    refine ⟨[], [.flag flag], ?_, Read.single (settingOf_flag ..), .inl ⟨by decide, rfl⟩⟩
    rcases name_cases name next with ⟨hname, _⟩ | ⟨text, hname, _⟩
    · rw [hname, hword]
      exact .flag flag
    · rw [hname, hword]
      exact .ignored flag text
  · rw [hkey] at h
    obtain ⟨text, harg, haccepts, rfl, rfl⟩ := checkOption_key_eq_ok h
    rcases name_cases name next with ⟨hname, hoptarg⟩ | ⟨text', hname, hoptarg⟩
    · rw [hoptarg] at harg ⊢
      obtain rfl : next = some text := harg
      refine ⟨[text], [.value key text], ?_, Read.single (settingOf_key ..),
        .inr ⟨rfl, text, rfl, rfl⟩⟩
      rw [hname, hword]
      exact .detached haccepts
    · rw [hoptarg] at harg ⊢
      obtain rfl := Option.some.inj harg
      refine ⟨[], [.value key text'], ?_, Read.single (settingOf_key ..),
        .inl ⟨by simp [Optarg.taken], rfl⟩⟩
      rw [hname, hword]
      exact .attached haccepts
  · obtain ⟨text, herror⟩ := checkOption_unknown param (longOptarg name next)
    rw [hunknown, herror] at h
    cases h

/-- What is read in a word is spelled by it. -/
theorem scanWord_sound {ch : Char} {rest : Str} {next : Option Str} {options : List CommandOption}
    {taken : Taken} (h : scanWord desc ch rest next = (options, .ok taken)) :
    ∃ words settings, Spelling (('-' :: ch :: rest) :: words) settings ∧ Read options settings ∧
      Takes next taken words := by
  unfold scanWord at h
  split at h
  · next hch =>
      subst hch
      split at h
      · cases h
      · next hcheck =>
          obtain ⟨rfl, htaken⟩ := Prod.mk.inj h
          obtain rfl := Except.ok.inj htaken
          exact scanLong_sound hcheck
  · obtain ⟨words, settings, hgroup, hread, htakes⟩ := scanGroup_sound h
    exact ⟨words, settings, .short (by simp) hgroup, hread, htakes⟩

theorem Flag.takeWhile_word (flag : Flag) : flag.word.takeWhile (· != '=') = flag.word := by
  cases flag <;> rfl

theorem Flag.takeWhile_word_append (flag : Flag) (text : Str) :
    (flag.word ++ '=' :: text).takeWhile (· != '=') = flag.word := by
  cases flag <;> rfl

theorem Key.takeWhile_word (key : Key) : key.word.takeWhile (· != '=') = key.word := by
  cases key <;> rfl

theorem Key.takeWhile_word_append (key : Key) (text : Str) :
    (key.word ++ '=' :: text).takeWhile (· != '=') = key.word := by
  cases key <;> rfl

theorem longOptarg_word (key : Key) (next : Option Str) :
    longOptarg key.word next = .detached next := by
  cases key <;> rfl

theorem longOptarg_word_append (key : Key) (text : Str) (next : Option Str) :
    longOptarg (key.word ++ '=' :: text) next = .attached text := by
  cases key <;> rfl

/-- A group does not begin with a minus sign. -/
theorem Group.ne_minus {ch : Char} {rest : Str} {words : List Str} {settings : List Setting}
    (h : Group (ch :: rest) words settings) : ch ≠ '-' := by
  have hkey {key : Key} (hletter : key.letter? = some ch) : ch ≠ '-' := by
    intro hch
    subst hch
    cases key <;> cases hletter
  cases h with
  | @flag flag => cases flag <;> decide
  | attached hletter => exact hkey hletter
  | detached hletter => exact hkey hletter

theorem Flag.word_ne_nil (flag : Flag) : flag.word ≠ [] := by
  cases flag <;> decide

theorem Key.word_ne_nil (key : Key) : key.word ≠ [] := by
  cases key <;> decide

theorem ne_separator {name : Str} (h : name ≠ []) : ('-' :: '-' :: name) ≠ "--".toList := by
  intro heq
  exact h (List.cons.inj (List.cons.inj heq).2).2

/-- What is spelled by words is read in the first of them, and takes the others. -/
theorem scanWord_complete {words : List Str} {settings : List Setting} (h : Spelling words settings)
    {next : Option Str} (hnext : words.tail ≠ [] → next = words.tail.head?) :
    ∃ ch rest options taken, words.head? = some ('-' :: ch :: rest) ∧
      ('-' :: ch :: rest) ≠ "--".toList ∧ scanWord desc ch rest next = (options, .ok taken) ∧
      Read options settings ∧ Takes next taken words.tail := by
  cases h with
  | @short letters words settings hne hgroup =>
      obtain ⟨ch, rest, rfl⟩ := List.exists_cons_of_ne_nil hne
      have hch : ch ≠ '-' := hgroup.ne_minus
      obtain ⟨options, taken, hscan, hread, htakes⟩ := scanGroup_complete hgroup hnext
      refine ⟨ch, rest, options, taken, rfl, by simp [hch], ?_, hread, htakes⟩
      rw [scanWord, if_neg hch, hscan]
  | flag flag =>
      have hscan : scanWord desc '-' flag.word next =
          ([⟨flag.descriptor.index, '-' :: '-' :: flag.word, none⟩], .ok .nothing) := by
        simp only [scanWord, longDescriptor_flag flag.takeWhile_word, checkOption_flag]
        rfl
      exact ⟨'-', flag.word, _, .nothing, rfl, ne_separator flag.word_ne_nil, hscan,
        Read.single (settingOf_flag ..), .inl ⟨by decide, rfl⟩⟩
  | ignored flag text =>
      have hscan : scanWord desc '-' (flag.word ++ '=' :: text) next =
          ([⟨flag.descriptor.index, '-' :: '-' :: (flag.word ++ '=' :: text), none⟩],
            .ok .nothing) := by
        simp only [scanWord, longDescriptor_flag (flag.takeWhile_word_append text),
          checkOption_flag]
        rfl
      exact ⟨'-', flag.word ++ '=' :: text, _, .nothing, rfl, ne_separator (by simp),
        hscan, Read.single (settingOf_flag ..), .inl ⟨by decide, rfl⟩⟩
  | @attached key text haccepts =>
      have hscan : scanWord desc '-' (key.word ++ '=' :: text) next =
          ([⟨key.descriptor.index, '-' :: '-' :: (key.word ++ '=' :: text), some text⟩],
            .ok .word) := by
        simp only [scanWord, longDescriptor_key (key.takeWhile_word_append text),
          longOptarg_word_append, @checkOption_key key _ text (.attached text) rfl haccepts]
        rfl
      exact ⟨'-', key.word ++ '=' :: text, _, .word, rfl, ne_separator (by simp),
        hscan, Read.single (settingOf_key ..), .inl ⟨by decide, rfl⟩⟩
  | @detached key text haccepts =>
      obtain rfl : next = some text := hnext (by simp)
      have hscan : scanWord desc '-' key.word (some text) =
          ([⟨key.descriptor.index, '-' :: '-' :: key.word, some text⟩], .ok .nextWord) := by
        simp only [scanWord, longDescriptor_key key.takeWhile_word, longOptarg_word,
          @checkOption_key key _ text (.detached (some text)) rfl haccepts]
        rfl
      exact ⟨'-', key.word, _, .nextWord, rfl, ne_separator key.word_ne_nil, hscan,
        Read.single (settingOf_key ..), .inr ⟨rfl, text, rfl, rfl⟩⟩

/-- The words that are taken are skipped. -/
theorem Takes.skip {next : Option Str} {taken : Taken} {words : List Str}
    (h : Takes next taken words) (args : List Str) :
    scan desc (taken == .nextWord) (words ++ args) = scan desc false args := by
  rcases h with ⟨hne, rfl⟩ | ⟨rfl, text, _, rfl⟩
  · rw [List.nil_append, beq_eq_false_iff_ne.mpr hne]
  · rfl

/-- The words that are taken are among those that follow. -/
theorem Takes.eq_append {args : List Str} {taken : Taken} {words : List Str}
    (h : Takes args.head? taken words) :
    args = words ++ (if taken == .nextWord then args.tail else args) := by
  rcases h with ⟨hne, rfl⟩ | ⟨rfl, text, hhead, rfl⟩
  · rw [beq_eq_false_iff_ne.mpr hne]
    rfl
  · exact (List.cons_head?_tail hhead).symm

theorem scan_option {ch : Char} {rest : Str} (h : ('-' :: ch :: rest) ≠ "--".toList)
    (args : List Str) :
    scan desc false (('-' :: ch :: rest) :: args) =
      match scanWord desc ch rest args.head? with
      | (options, .error text) => (options, .error text)
      | (options, .ok taken) =>
          let (options', ending) := scan desc (taken == .nextWord) args
          (options ++ options', ending) := by
  have hne : ch = '-' → rest = [] → False := by
    intro hch hrest
    rw [hch, hrest] at h
    exact h rfl
  exact scan.eq_4 desc args ch rest hne

theorem scan_other {word : Str} (h : ¬ IsOption word) (args : List Str) :
    scan desc false (word :: args) = ([], .ok (word :: args)) := by
  simp only [scan]
  split
  · exact absurd ⟨'-', [], rfl⟩ h
  · next ch rest _ => exact absurd ⟨ch, rest, rfl⟩ h
  · rfl

/-- What a command line asks for is read in it. -/
theorem scan_complete {args : List Str} {settings : List Setting} {nonops : List Str}
    (h : CommandLine args settings nonops) :
    ∃ options, scan desc false args = (options, .ok nonops) ∧ Read options settings := by
  induction h with
  | nil => exact ⟨[], rfl, rfl⟩
  | other hword => exact ⟨[], scan_other hword _, rfl⟩
  | separator args => exact ⟨[], rfl, rfl⟩
  | @spelled words args settings settings' nonops hspelling _ ih =>
      obtain ⟨options', hscan', hread'⟩ := ih
      have hnext : words.tail ≠ [] → (words.tail ++ args).head? = words.tail.head? := by
        intro hne
        rw [List.head?_append_of_ne_nil _ hne]
      obtain ⟨ch, rest, options, taken, hhead, hne, hscan, hread, htakes⟩ :=
        scanWord_complete hspelling hnext
      refine ⟨options ++ options', ?_, hread.append hread'⟩
      rw [← List.cons_head?_tail hhead, List.cons_append, scan_option hne, hscan]
      simp only [htakes.skip, hscan']

/-- What is read in a command line is what it asks for. -/
theorem scan_sound {skipped : Bool} {args : List Str} {options : List CommandOption}
    {nonops : List Str} (h : scan desc skipped args = (options, .ok nonops)) :
    ∃ settings, Read options settings ∧
      CommandLine (if skipped then args.tail else args) settings nonops := by
  induction args generalizing skipped options with
  | nil =>
      obtain ⟨rfl, hnonops⟩ : [] = options ∧ Except.ok [] = Except.ok nonops := by
        cases skipped <;> exact Prod.mk.inj h
      obtain rfl := Except.ok.inj hnonops
      exact ⟨[], rfl, by cases skipped <;> exact .nil⟩
  | cons word args ih =>
      cases skipped with
      | true => exact @ih false options h
      | false =>
          by_cases hoption : IsOption word
          · obtain ⟨ch, rest, rfl⟩ := hoption
            by_cases hseparator : ('-' :: ch :: rest) = "--".toList
            · rw [hseparator] at h ⊢
              obtain ⟨rfl, hnonops⟩ := Prod.mk.inj h
              obtain rfl := Except.ok.inj hnonops
              exact ⟨[], rfl, .separator args⟩
            · rw [scan_option hseparator] at h
              rcases hword : scanWord desc ch rest args.head? with ⟨read, text | taken⟩
              · simp [hword] at h
              · rw [hword] at h
                obtain ⟨rfl, hrest⟩ := Prod.mk.inj h
                obtain ⟨words, settings, hspelling, hread, htakes⟩ := scanWord_sound hword
                obtain ⟨settings', hread', hline⟩ := ih (Prod.ext rfl hrest)
                refine ⟨settings ++ settings', hread.append hread', ?_⟩
                have hargs : args = words ++ _ := htakes.eq_append
                rw [if_neg Bool.false_ne_true, hargs]
                exact .spelled hspelling hline
          · rw [scan_other hoption] at h
            obtain ⟨rfl, hnonops⟩ := Prod.mk.inj h
            obtain rfl := Except.ok.inj hnonops
            exact ⟨[], rfl, .other hoption⟩


theorem Read.length_eq {options : List CommandOption} {settings : List Setting}
    (h : Read options settings) : options.length = settings.length := by
  rw [← List.length_map settingOf, h, List.length_map]

theorem Read.unique {options : List CommandOption} {settings settings' : List Setting}
    (h : Read options settings) (h' : Read options settings') : settings = settings' :=
  List.map_injective_iff.mpr (fun _ _ => Option.some.inj) (h.symm.trans h')

/-- A command line asks for one thing only. -/
theorem CommandLine.unique {args : List Str} {settings settings' : List Setting}
    {nonops nonops' : List Str} (h : CommandLine args settings nonops)
    (h' : CommandLine args settings' nonops') : settings = settings' ∧ nonops = nonops' := by
  obtain ⟨options, hscan, hread⟩ := scan_complete h
  obtain ⟨options', hscan', hread'⟩ := scan_complete h'
  obtain ⟨rfl, hnonops⟩ := Prod.mk.inj (hscan.symm.trans hscan')
  exact ⟨hread.unique hread', Except.ok.inj hnonops⟩

end Wheespa
