import SortNetwork.Config

/-!
# SortNetwork.CommandLine

The arguments of the benchmark program.

Arguments name strategies, as many as wanted, and may set the number of workers, the segment size and the
wait policy, each once, by a long or a short option.  The value of an option is attached to it or follows as
the next argument; behind `--` every argument names a strategy.

An argument is only checked when the next one of another kind arrives, or at the end.  So an error in an
earlier argument is reported before a later request for help, but an option that does not exist is reported
at once.
-/

namespace SortNetwork.CommandLine

/-- An option that takes a value. -/
inductive Setting where
  | threads
  | segmentSize
  | waitPolicy
  deriving DecidableEq, Repr

/-- The option with a long name. -/
def Setting.ofLong? : String → Option Setting
  | "threads" => some .threads
  | "segment-size" => some .segmentSize
  | "wait-policy" => some .waitPolicy
  | _ => none

/-- The option with a short name. -/
def Setting.ofShort? : Char → Option Setting
  | 't' => some .threads
  | 's' => some .segmentSize
  | 'w' => some .waitPolicy
  | _ => none

/-- Why arguments lead to no run. -/
inductive UsageError where
  /-- a value or a strategy that cannot be read -/
  | badValue
  /-- an option that does not exist -/
  | unknownArgument
  /-- an option that came without its value -/
  | missingValue
  /-- an option that was given twice -/
  | repeatedOption
  /-- a value attached to the request for help -/
  | unexpectedValue
  /-- a request for help -/
  | helpRequested
  deriving DecidableEq, Repr

/-- What the arguments ask for. -/
structure Options where
  strategies : List Strategy := []
  threads : Option Nat := none
  segmentSize : Option Nat := none
  waitPolicy : Option WaitPolicy := none
  deriving DecidableEq, Repr

/-- Reads a number that fits into a word: decimal digits, perhaps after a plus sign. -/
def readWord (text : String) : Option Nat :=
  let digits := match text.toList with
    | '+' :: rest => rest
    | chars => chars
  if digits.isEmpty || !digits.all Char.isDigit then none
  else
    let n := digits.foldl (fun n c => 10 * n + (c.toNat - '0'.toNat)) 0
    if n < Word.capacity then some n else none

/-- Whether an option was given before. -/
def Options.has (options : Options) : Setting → Bool
  | .threads => options.threads.isSome
  | .segmentSize => options.segmentSize.isSome
  | .waitPolicy => options.waitPolicy.isSome

/-- Reads the value of an option. -/
def Options.set (options : Options) (setting : Setting) (value : String) : Except UsageError Options :=
  if options.has setting then .error .repeatedOption
  else
    match setting with
    | .threads =>
      match readWord value with
      | some n => .ok { options with threads := some n }
      | none => .error .badValue
    | .segmentSize =>
      match readWord value with
      | some n => .ok { options with segmentSize := some n }
      | none => .error .badValue
    | .waitPolicy =>
      match Variant.find? WaitPolicy value with
      | some policy => .ok { options with waitPolicy := some policy }
      | none => .error .badValue

/-- Reads the names of strategies. -/
def Options.addStrategies (options : Options) : List String → Except UsageError Options
  | [] => .ok options
  | name :: names =>
    match Variant.find? Strategy name with
    | some strategy =>
      addStrategies { options with strategies := options.strategies ++ [strategy] } names
    | none => .error .badValue

/-- The segment size asked for, or the standard one. -/
def Options.effectiveSegmentSize (options : Options) : Nat :=
  options.segmentSize.getD SortConfig.standardSegmentSize

/-- The wait policy asked for, or the preferred one. -/
def Options.effectiveWaitPolicy (options : Options) : WaitPolicy :=
  options.waitPolicy.getD Variant.preferred

/-! ## reading arguments -/

/-- Arguments that were seen and not yet checked. -/
inductive Pending where
  | nothing
  /-- an option that waits for its value -/
  | awaiting (setting : Setting)
  /-- an option with its value -/
  | option (setting : Setting) (value : String)
  | names (names : List String)
  deriving DecidableEq, Repr

/-- What was read so far. -/
structure Progress where
  options : Options := {}
  pending : Pending := .nothing
  /-- whether `--` was seen -/
  trailing : Bool := false
  deriving DecidableEq, Repr

/-- Checks what is pending. -/
def Progress.flush (progress : Progress) : Except UsageError Options :=
  match progress.pending with
  | .nothing => .ok progress.options
  | .awaiting _ => .error .missingValue
  | .option setting value => progress.options.set setting value
  | .names names => progress.options.addStrategies names

/-- An option, with the value attached to it if there is one. -/
def Progress.takeOption (progress : Progress) (setting : Setting) (attached : Option String) :
    Except UsageError Progress := do
  let options ← progress.flush
  match attached with
  | some value => return { progress with options := ← options.set setting value, pending := .nothing }
  | none => return { progress with options, pending := .awaiting setting }

/-- A request for help, once all before it has been checked. -/
def Progress.takeHelp (progress : Progress) : Except UsageError Progress :=
  match progress.flush with
  | .ok _ => .error .helpRequested
  | .error error => .error error

/-- The name of a strategy. -/
def Progress.takeName (progress : Progress) (name : String) : Except UsageError Progress :=
  match progress.pending with
  | .names names => .ok { progress with pending := .names (names ++ [name]) }
  | _ =>
    match progress.flush with
    | .ok options => .ok { progress with options, pending := .names [name] }
    | .error error => .error error

/-- The text before the first equals sign, and the text after it if there is one. -/
def splitAttached (chars : List Char) : String × Option String :=
  match chars.dropWhile (· != '=') with
  | [] => (String.ofList chars, none)
  | _ :: value => (String.ofList (chars.takeWhile (· != '=')), some (String.ofList value))

/-- What follows two dashes. -/
def Progress.takeLong (progress : Progress) (chars : List Char) : Except UsageError Progress :=
  let (name, attached) := splitAttached chars
  match Setting.ofLong? name with
  | some setting => progress.takeOption setting attached
  | none =>
    if name = "help" then
      match attached with
      | some _ => .error .unexpectedValue
      | none => progress.takeHelp
    else .error .unknownArgument

/-- What follows one dash: the value of a short option is all that comes after its letter, less an equals
sign in front. -/
def Progress.takeShort (progress : Progress) (letter : Char) (rest : List Char) :
    Except UsageError Progress :=
  match Setting.ofShort? letter with
  | some setting =>
    match rest with
    | [] => progress.takeOption setting none
    | '=' :: value => progress.takeOption setting (some (String.ofList value))
    | value => progress.takeOption setting (some (String.ofList value))
  | none => if letter = 'h' then progress.takeHelp else .error .unknownArgument

/-- The value of the option that waits for one, or the name of a strategy. -/
def Progress.takePlain (progress : Progress) (argument : String) : Except UsageError Progress :=
  match progress.pending with
  | .awaiting setting => .ok { progress with pending := .option setting argument }
  | _ => progress.takeName argument

/-- One argument. -/
def Progress.take (progress : Progress) (argument : String) : Except UsageError Progress :=
  if progress.trailing then progress.takeName argument
  else
    match argument.toList with
    | ['-', '-'] => .ok { progress with trailing := true }
    | '-' :: '-' :: chars => progress.takeLong chars
    | '-' :: letter :: rest => progress.takeShort letter rest
    | _ => progress.takePlain argument

/-- Reads all arguments. -/
def parse (arguments : List String) : Except UsageError Options := do
  let progress ← arguments.foldlM Progress.take {}
  progress.flush

end SortNetwork.CommandLine
