import Wheespa.OptionParser

/-!
# The options of the program

`wheespa_opts.cc`: the checks of arguments, the table of the options and `getOpts`.
-/

namespace Wheespa

open OptionParser

/-! ## Numbers -/

/-- `isspace`, in the locale of the program. -/
def isSpace (c : Char) : Bool :=
  c ∈ [' ', '\t', '\n', '\x0b', '\x0c', '\r']

/-- The sign that a number may begin with, and what follows it. -/
def readSign : Str → Bool × Str
  | '-' :: rest => (true, rest)
  | '+' :: rest => (false, rest)
  | rest => (false, rest)

/-- `strtol(text, &endptr, 10)`: the number, as far as a `long` goes, and the text at `endptr`. The
result is `none` where there are no digits, and `endptr` is `text`. -/
def strtol (text : Str) : Option (Int × Str) :=
  let (negative, rest) := readSign (text.dropWhile isSpace)
  let digits := rest.takeWhile Char.isDigit
  if digits.isEmpty then none
  else
    let n : Int := Nat.ofDigitChars 10 digits 0
    some (max (-2 ^ 63) (min (if negative then -n else n) (2 ^ 63 - 1)),
      rest.dropWhile Char.isDigit)

/-! ## Checks of arguments -/

/-- `option::Arg::None`. -/
def argNone (_ : CommandOption) : ArgStatus :=
  .none

/-- `NonEmpty`. -/
def nonEmpty (option : CommandOption) : ArgStatus :=
  match option.arg with
  | some (_ :: _) => .ok
  | _ => .illegal ("option requires a non-empty argument -- ".toList ++ option.name ++ ['\n'])

/-- `Unknown`. -/
def unknown (option : CommandOption) : ArgStatus :=
  .illegal ("Unknown option -- '".toList ++ option.name ++ "'\n".toList)

/-- `Numeric`. -/
def numeric (option : CommandOption) : ArgStatus :=
  match option.arg.bind strtol with
  | some (_, []) => .ok
  | _ => .illegal ("option requires a numeric argument -- ".toList ++ option.name ++ ['\n'])

/-! ## The table of the options -/

/-- `optIndex`. -/
inductive OptIndex where
  | unknown
  | verbose
  | port
  | certfile
  | logfile
  | basefile
  | queuesize
  | listen
  | asAdmin
  | asAnonymous
  | help
  deriving DecidableEq, Repr

namespace OptIndex

/-- The numbers of the enumeration. -/
def toNat : OptIndex → Nat
  | unknown => 0
  | verbose => 1
  | port => 2
  | certfile => 3
  | logfile => 4
  | basefile => 5
  | queuesize => 6
  | listen => 7
  | asAdmin => 8
  | asAnonymous => 9
  | help => 10

/-- The case of a `switch` that a number is. -/
def ofNat? (n : Nat) : Option OptIndex :=
  [unknown, verbose, port, certfile, logfile, basefile, queuesize, listen, asAdmin, asAnonymous,
    help].find? fun index => index.toNat == n

@[simp] theorem ofNat?_toNat (index : OptIndex) : ofNat? index.toNat = some index := by
  cases index <;> rfl

end OptIndex

/-- `desc`. -/
def desc : List Descriptor :=
  [⟨OptIndex.unknown.toNat, [], [], unknown⟩,
    ⟨OptIndex.help.toNat, ['h'], "help".toList, argNone⟩,
    ⟨OptIndex.verbose.toNat, ['v'], "verbose".toList, argNone⟩,
    ⟨OptIndex.certfile.toNat, [], "cert".toList, nonEmpty⟩,
    ⟨OptIndex.logfile.toNat, [], "logfile".toList, nonEmpty⟩,
    ⟨OptIndex.basefile.toNat, [], "database".toList, nonEmpty⟩,
    ⟨OptIndex.queuesize.toNat, ['q'], "size".toList, numeric⟩,
    ⟨OptIndex.listen.toNat, ['l'], "listen".toList, argNone⟩,
    ⟨OptIndex.port.toNat, ['p'], "port".toList, numeric⟩]

/-- The numbers of the options are small. -/
theorem desc_index_le_limit : ∀ descriptor ∈ desc, descriptor.index ≤ limit := by
  decide

/-! ## The options -/

/-- `WheespaOpts`. -/
structure WheespaOpts where
  verbose : Bool
  listen : Bool
  asAdmin : Bool
  asAnonymous : Bool
  certfile : Str
  logfile : Str
  listenQueueSize : Int
  address : Str
  port : Str
  dbasefile : Str
  deriving DecidableEq, Repr

/-- The constants that `getOpts` returns. -/
inductive OptsCode where
  | optGood
  | optBad
  | noClientAddr
  deriving DecidableEq, Repr

namespace WheespaOpts

/-- The constructor. It leaves the four flags as they happen to be. -/
def new (verbose listen asAdmin asAnonymous : Bool) : WheespaOpts where
  verbose
  listen
  asAdmin
  asAnonymous
  certfile := "certficates/wdomain.inclprivkey.pem".toList
  logfile := []
  listenQueueSize := 1024
  address := []
  port := "2748".toList
  dbasefile := "wbase.db".toList

/-- The `switch` over an option in `buffer`. The result is `none` where a null pointer is used. -/
def assign (self : WheespaOpts) (option : CommandOption) : Option WheespaOpts :=
  match OptIndex.ofNat? option.index with
  | some .verbose => some { self with verbose := true }
  | some .certfile => option.arg.map fun arg => { self with certfile := arg }
  | some .logfile => option.arg.map fun arg => { self with logfile := arg }
  | some .basefile => option.arg.map fun arg => { self with dbasefile := arg }
  | some .queuesize => option.arg.map fun arg =>
      -- a `long` is assigned to an `int`
      { self with listenQueueSize := Int.bmod (((strtol arg).map Prod.fst).getD 0) (2 ^ 32) }
  | some .port => option.arg.map fun arg => { self with port := arg }
  | some .listen => some { self with listen := true }
  | some .asAdmin => some { self with asAdmin := true }
  | some .asAnonymous => some { self with asAnonymous := true }
  | some .unknown | some .help | none => some self

/-- `getOpts`, with what it writes to `std::cerr`. The result is `none` where an array is left or a
null pointer is used. The usage that is printed where the options are bad is left out. -/
def getOpts (self : WheespaOpts) (argv : List Str) : Option (OptsCode × WheespaOpts × Str) := do
  let argv := argv.tail
  let stats := Stats.new desc argv
  let parse ← Parser.new desc argv stats.optionsMax stats.bufferMax
  let help ← parse.stored.options[OptIndex.help.toNat]?
  if !help.isEmpty || parse.err then some (.optBad, self, parse.cerr)
  else
    let opts ← parse.stored.buffer.foldlM assign self
    let opts := match parse.nonops with
      | address :: _ => { opts with address }
      | [] => opts
    if opts.address.isEmpty && !opts.listen then
      some (.noClientAddr, opts, "[!] ADDRESS cannot be empty in client mode.\n".toList)
    else some (.optGood, opts, [])

end WheespaOpts

end Wheespa
