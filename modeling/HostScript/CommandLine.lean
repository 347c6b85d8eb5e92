import HostScript.Session
import HostScript.Text.ControlSequence

/-!
# The command line

One script is evaluated and its result printed. This module decides what the arguments mean and what
is written where; reading a file and writing to the terminal are left to the caller.
-/
namespace HostScript.CommandLine

inductive ValueOption where
  | query
  | repeats
deriving Repr, DecidableEq

def ValueOption.usage : ValueOption → String
  | query => "--query <NAME=NUMBER>"
  | repeats => "--repeat <REPEAT>"

inductive Flag where
  | file
  | noCache
  | debug
  | help
  | version
deriving Repr, DecidableEq

def Flag.usage : Flag → String
  | file => "--file"
  | noCache => "--no-cache"
  | debug => "--debug"
  | help => "--help"
  | version => "--version"

inductive Refusal where
  | invalidValue (argument : String) (option : ValueOption) (reason : String)
  | valueRequired (option : ValueOption)
  | unexpectedValue (value : String) (flag : Flag)
  | unexpectedArgument (argument : String)
  | repeatedFlag (flag : Flag)
  | repeatedOption (option : ValueOption)
  | missingContents
deriving Repr, DecidableEq

/-- The wording of a refusal. What was refused and what it was meant for are highlighted. -/
def Refusal.wording : Refusal → List Text.Span
  | invalidValue argument option reason =>
    [.plain "error: invalid value '", .highlighted argument, .plain "' for '",
     .highlighted option.usage, .plain ("': " ++ reason)]
  | valueRequired option =>
    [.plain "error: a value is required for '", .highlighted option.usage,
     .plain "' but none was supplied"]
  | unexpectedValue value flag =>
    [.plain "error: unexpected value '", .highlighted value, .plain "' for '",
     .highlighted flag.usage, .plain "' found; no more were expected"]
  | unexpectedArgument argument =>
    [.plain "error: unexpected argument '", .highlighted argument, .plain "' found"]
  | repeatedFlag flag =>
    [.plain "error: the argument '", .highlighted flag.usage,
     .plain "' cannot be used multiple times"]
  | repeatedOption option =>
    [.plain "error: the argument '", .highlighted option.usage,
     .plain "' cannot be used multiple times"]
  | missingContents => [.plain "error: the following required arguments were not provided:"]

/-- What follows the wording of a refusal. It comes into view only where a control sequence that is left
open in the wording swallows the line end. -/
def hint : List Text.Span :=
  [.plain "\n\nFor more information, try '", .highlighted "--help", .plain "'.\n"]

/-- The message of a refusal: the first line of its wording, without control sequences. -/
def Refusal.message (r : Refusal) : String :=
  String.ofList ((Text.lines (Text.visibleSpans .shown (r.wording ++ hint))).headD [])

/-- Why arguments lead to no evaluation: they are refused, or they ask about the program itself. -/
inductive Stop where
  | refused (refusal : Refusal)
  | help
  | version
deriving Repr, DecidableEq

structure Settings where
  flags : List Flag := []
  queries : List (String × Float) := []
  repeats : Option Nat := none
  contents : Option String := none

/-- Reads `name=number`. White space around both parts does not count. -/
def readQuery (argument : String) : Except String (String × Float) :=
  match Text.splitOnce '=' argument.toList with
  | none => .error ("expected NAME=NUMBER, got '" ++ argument ++ "'")
  | some (name, number) =>
    match Number.read (Text.trimBlanks number) with
    | .ok x => .ok (String.ofList (Text.trimBlanks name), x)
    | .error e => .error ("invalid number for '" ++ String.ofList name ++ "': " ++ e.message)

/-- Reads the remaining digits of a count of which `n` was read so far. The first character that is no
digit is refused, unless a digit before it already took the count beyond 64 bits. -/
def readCountFrom (n : Nat) : List Char → Except String Nat
  | [] => .ok n
  | c :: cs =>
    let longer := Number.appendDigit n c
    if !c.isDigit then .error "invalid digit found in string"
    else if longer < Number.twoTo 64 then readCountFrom longer cs
    else .error "number too large to fit in target type"

/-- Reads a count, which may have a plus sign and has to fit into 64 bits. -/
def readCount (argument : String) : Except String Nat :=
  match argument.toList with
  | [] => .error "cannot parse integer from empty string"
  | ['+'] => .error "invalid digit found in string"
  | '+' :: digits => readCountFrom 0 digits
  | digits => readCountFrom 0 digits

/-- Takes in the value of an option. -/
def Settings.supply (s : Settings) (option : ValueOption) (argument : String) :
    Except Stop Settings :=
  match option with
  | .query =>
    match readQuery argument with
    | .ok q => .ok { s with queries := s.queries ++ [q] }
    | .error reason => .error (.refused (.invalidValue argument .query reason))
  | .repeats =>
    match s.repeats, readCount argument with
    | some _, _ => .error (.refused (.repeatedOption .repeats))
    | none, .ok n => .ok { s with repeats := some n }
    | none, .error reason => .error (.refused (.invalidValue argument .repeats reason))

/-- Takes in a flag. A question about the program is answered at once, whatever follows it. -/
def Settings.raise (s : Settings) (flag : Flag) : Except Stop Settings :=
  match flag with
  | .help => .error .help
  | .version => .error .version
  | _ =>
    if s.flags.contains flag then .error (.refused (.repeatedFlag flag))
    else .ok { s with flags := flag :: s.flags }

/-- The state of reading arguments: the option not yet taken in, and whether `--` was met. -/
structure Reading where
  settings : Settings := {}
  pending : Option (ValueOption × Option String) := none
  trailing : Bool := false

namespace Reading

/-- Takes in the pending option, which must have its value by now. -/
def settle (r : Reading) : Except Stop Reading :=
  match r.pending with
  | none => .ok r
  | some (option, none) => .error (.refused (.valueRequired option))
  | some (option, some argument) => do
    return { r with settings := ← r.settings.supply option argument, pending := none }

/-- Takes in an option, with the value attached to it if there is one. -/
def takeOption (r : Reading) (option : ValueOption) (attached : Option String) :
    Except Stop Reading := do
  let r ← r.settle
  match attached with
  | some argument => return { r with settings := ← r.settings.supply option argument }
  | none => return { r with pending := some (option, none) }

def takeFlag (r : Reading) (flag : Flag) : Except Stop Reading := do
  let r ← r.settle
  return { r with settings := ← r.settings.raise flag }

/-- Takes in an argument that is not an option: the value that an option awaits, or the script. -/
def takePlain (r : Reading) (argument : String) : Except Stop Reading :=
  match r.trailing, r.pending with
  | false, some (option, none) => .ok { r with pending := some (option, some argument) }
  | _, _ =>
    match r.settings.contents with
    | some _ => .error (.refused (.unexpectedArgument argument))
    | none => do
      let r ← r.settle
      return { r with settings := { r.settings with contents := some argument } }

/-- Takes in an option written out, after its two dashes. -/
def takeLong (r : Reading) (written : List Char) : Except Stop Reading :=
  let name := String.ofList (written.takeWhile (· != '='))
  let attached := (Text.splitOnce '=' written).map fun parts => String.ofList parts.2
  let flag (f : Flag) : Except Stop Reading :=
    match attached with
    | some v => .error (.refused (.unexpectedValue v f))
    | none => r.takeFlag f
  match name with
  | "file" => flag .file
  | "no-cache" => flag .noCache
  | "debug" => flag .debug
  | "help" => flag .help
  | "version" => flag .version
  | "query" => r.takeOption .query attached
  | "repeat" => r.takeOption .repeats attached
  | _ => .error (.refused (.unexpectedArgument ("--" ++ name)))

/-- The value that follows the letter of an option in the same argument, after an optional `=`. -/
def attachedValue : List Char → Option String
  | [] => none
  | '=' :: value => some (String.ofList value)
  | value => some (String.ofList value)

/-- Takes in options of one letter each, after their dash. An option with a value takes the rest. -/
def takeShort : List Char → Reading → Except Stop Reading
  | [], r => .ok r
  | c :: cs, r =>
    match c with
    | 'f' => do takeShort cs (← r.takeFlag .file)
    | 'd' => do takeShort cs (← r.takeFlag .debug)
    | 'q' => r.takeOption .query (attachedValue cs)
    | 'r' => r.takeOption .repeats (attachedValue cs)
    | 'h' => do takeShort cs (← r.takeFlag .help)
    | 'V' => do takeShort cs (← r.takeFlag .version)
    | _ => .error (.refused (.unexpectedArgument (String.ofList ['-', c])))

def take (r : Reading) (argument : String) : Except Stop Reading :=
  if r.trailing then r.takePlain argument
  else match argument.toList with
    | ['-', '-'] => .ok { r with trailing := true }
    | '-' :: '-' :: written => r.takeLong written
    | '-' :: c :: cs => takeShort (c :: cs) r
    | _ => r.takePlain argument

end Reading

structure Request where
  file : Bool
  contents : String
  inputs : Inputs
  options : Options
  repeats : Nat

/-- What the arguments ask for. Of two queries with one name the later one counts. -/
def readArguments (arguments : List String) : Except Stop Request := do
  let r ← (arguments.foldlM Reading.take {} : Except Stop Reading)
  let s := (← r.settle).settings
  match s.contents with
  | none => throw (.refused .missingContents)
  | some contents =>
    return {
      file := s.flags.contains .file
      contents
      inputs := { queries := s.queries.foldl (fun m q => m.insert q.1 (.number q.2)) ∅ }
      options := { cache := !s.flags.contains .noCache, debug := s.flags.contains .debug }
      repeats := s.repeats.getD 1 }

structure Outcome where
  code : Nat
  stdout : String := ""
  stderr : String := ""
deriving Repr, DecidableEq

/-- Whether an event is shown: warnings and what the script prints, and everything on request. -/
def isShown (debug : Bool) (e : Event) : Bool :=
  match e with
  | .printed _ => true
  | _ => debug || e.level == .warn

def logText (debug : Bool) (events : Array Event) : String :=
  String.join ((events.toList.filter (isShown debug)).map fun e => e.line ++ "\n")

/-- Evaluates a script several times in one session. The first failure ends the run. -/
def evaluateTimes (fuel : Nat) (script : String) (inputs : Inputs) (options : Options) :
    Nat → Session Unit → String → Outcome
  | 0, _, printed => { code := 0, stdout := printed }
  | times + 1, session, printed =>
    match Session.evaluate fuel script inputs options session with
    | (result, after) =>
      let printed := printed ++ logText options.debug after.world.events
      match result with
      | .error failure => { code := 1, stdout := printed, stderr := failure.message ++ "\n" }
      | .ok evaluation =>
        let value := evaluation.value.render after.world.host
        let next := { after with world := { after.world with events := #[] } }
        evaluateTimes fuel script inputs options times next (printed ++ value ++ "\n")

def unreadable (path : String) : String :=
  "Failed to read the input file '" ++ path ++ "'. Perhaps this file does not exist?\n"

def versionText : String := "ascent 0.1.0\n"

def helpText : String :=
  String.join
    ["An embeddable scripting runtime: context-sensitive lexer, scope splitter, ",
     "precedence-climbing parser and tree-walking evaluator.\n",
     "\n",
     "Usage: ascent [OPTIONS] <CONTENTS>\n",
     "\n",
     "Arguments:\n",
     "  <CONTENTS>  \n",
     "\n",
     "Options:\n",
     "  -f, --file                 Tells ascent to look at a file instead of a script\n",
     "  -q, --query <NAME=NUMBER>  Supplies a query variable, readable as `q.name`. May be repeated\n",
     "      --no-cache             Compiles the script on every run instead of reusing it\n",
     "  -d, --debug                Logs every token and expression while compiling\n",
     "  -r, --repeat <REPEAT>      Evaluates the script this many times [default: 1]\n",
     "  -h, --help                 Print help\n",
     "  -V, --version              Print version\n"]

/-- Runs the program. `readFile` gives the text of a file, if it can be read. -/
def run (fuel : Nat) (arguments : List String) (readFile : String → Option String) : Outcome :=
  match readArguments arguments with
  | .error (.refused refusal) => { code := 2, stderr := refusal.message }
  | .error .help => { code := 0, stdout := helpText }
  | .error .version => { code := 0, stdout := versionText }
  | .ok request =>
    let script := if request.file then readFile request.contents else some request.contents
    match script with
    | none => { code := 1, stderr := unreadable request.contents }
    | some script =>
      evaluateTimes fuel script request.inputs request.options request.repeats
        (Session.start Registry.standard ()) ""

end HostScript.CommandLine
