import Imperativo.Analysis

/-!
# Options

Arguments are read from left to right.  A switch takes no value; `--dot` and `--tab-width` take one,
behind an equals sign or as the next argument; one argument is the file.  A value that was given as
an argument of its own is looked at only when the next switch, option or file has been recognised,
or at the end.  So an argument that is unknown is reported before a bad value in front of it, and
everything else after it.

* `Options.parse` — options from arguments, or the first problem.
* `Options.settings`, `Options.logLevel`, `Options.wantsStandardReports` — what follows from them.
-/

namespace Imperativo

/-- Why arguments are not accepted, or what is wanted instead of a run. -/
inductive OptionsProblem
  | unknown
  | help
  | version
  | valueNotTaken
  | valueMissing
  | valueMalformed
  | conflict
  | fileMissing
  deriving DecidableEq, Repr

/-- A problem in words. -/
def OptionsProblem.text : OptionsProblem → String
  | .unknown => "unknown argument"
  | .help => "usage: FILE [--tokens] [--tree] [--diagnostics] [--dot PATH] [--dot-stdout] [--tui] [-v | -q]"
  | .version => "version 0.1.0"
  | .valueNotTaken => "a value for an argument that takes none"
  | .valueMissing => "a value is missing"
  | .valueMalformed => "a value is malformed"
  | .conflict => "arguments exclude each other or are repeated"
  | .fileMissing => "the file is missing"

/-- The arguments that take no value and may be given once. -/
inductive Switch
  | tokens
  | tree
  | diagnostics
  | dotStdout
  | tui
  | caseSensitive
  deriving DecidableEq, Repr

/-- The places for a value. -/
inductive Slot
  | file
  | dot
  | tabWidth
  deriving DecidableEq, Repr

/-- What a long name stands for. -/
inductive LongName
  | switch (s : Switch)
  | slot (s : Slot)
  | help
  | version
  deriving DecidableEq, Repr

/-- The long names, without the hyphens in front. -/
def longNames : List (String × LongName) :=
  [("tokens", .switch .tokens), ("tree", .switch .tree), ("diagnostics", .switch .diagnostics),
   ("dot", .slot .dot), ("dot-stdout", .switch .dotStdout), ("tui", .switch .tui),
   ("case-sensitive-keywords", .switch .caseSensitive), ("tab-width", .slot .tabWidth),
   ("help", .help), ("version", .version)]

/-- What the program is asked to do. -/
structure Options where
  file : Text
  switches : List Switch
  dot : Option Text
  tabWidth : Nat
  verbose : Nat
  quiet : Nat
  deriving DecidableEq, Repr

/-! ## Reading arguments -/

/-- What has been read of the arguments.  `pending` is a slot whose value, if it has come yet, has
not been looked at. -/
structure Draft where
  file : Option Text
  switches : List Switch
  dot : Option Text
  tabWidth : Option Nat
  verbose : Nat
  quiet : Nat
  pending : Option (Slot × Option Text)
  deriving DecidableEq, Repr

namespace Draft

/-- Nothing has been read. -/
def empty : Draft := ⟨none, [], none, none, 0, 0, none⟩

/-- The greatest tab width that is accepted. -/
def maxWidth : Nat := Nat.pow 2 64 - 1

/-- Reads a tab width: digits, with an optional plus sign in front. -/
def parseWidth? (text : Text) : Option Nat :=
  let digits := if text.head? = some '+' then text.drop 1 else text
  if !digits.isEmpty && digits.all Char.isDigit && Text.ofDigits digits ≤ maxWidth then
    some (Text.ofDigits digits)
  else none

/-- Takes a path, which must not be empty. -/
def takePath (old : Option Text) (path : Text) : Except OptionsProblem (Option Text) :=
  if old.isSome then .error .conflict
  else if path.isEmpty then .error .valueMissing
  else .ok (some path)

/-- Puts a value into its slot, which must be free. -/
def store (d : Draft) (slot : Slot) (value : Text) : Except OptionsProblem Draft :=
  match slot with
  | .file => do return { d with file := ← takePath d.file value }
  | .dot => do return { d with dot := ← takePath d.dot value }
  | .tabWidth =>
    if d.tabWidth.isSome then .error .conflict
    else
      match parseWidth? value with
      | some width => .ok { d with tabWidth := some width }
      | none => .error .valueMalformed

/-- Looks at the pending value, if there is one. -/
def settle (d : Draft) : Except OptionsProblem Draft :=
  match d.pending with
  | none => .ok d
  | some (_, none) => .error .valueMissing
  | some (slot, some value) => { d with pending := none }.store slot value

/-- Turns a switch on, for the first time. -/
def turnOn (d : Draft) (s : Switch) : Except OptionsProblem Draft := do
  let d ← d.settle
  if s ∈ d.switches then .error .conflict else .ok { d with switches := d.switches ++ [s] }

/-- Reads a long name, with the value behind its equals sign if there is one. -/
def readLong (d : Draft) (name : Text) (attached : Option Text) : Except OptionsProblem Draft :=
  match longNames.find? (fun entry => entry.1.toList == name), attached with
  | none, _ => .error .unknown
  | some (_, .slot slot), some value => do (← d.settle).store slot value
  | some (_, .slot slot), none => do
    let d ← d.settle
    return { d with pending := some (slot, none) }
  | some _, some _ => .error .valueNotTaken
  | some (_, .switch s), none => d.turnOn s
  | some (_, .help), none => do
    let _ ← d.settle
    .error .help
  | some (_, .version), none => do
    let _ ← d.settle
    .error .version

/-- Reads the letters behind one hyphen, each on its own; `-v` and `-q` count up to two. -/
def readShort (d : Draft) : Text → Except OptionsProblem Draft
  | [] => .ok d
  | 'v' :: letters => do
    let d ← d.settle
    if d.verbose < 2 then readShort { d with verbose := d.verbose + 1 } letters else .error .valueMalformed
  | 'q' :: letters => do
    let d ← d.settle
    if d.quiet < 2 then readShort { d with quiet := d.quiet + 1 } letters else .error .valueMalformed
  | 'h' :: _ => do
    let _ ← d.settle
    .error .help
  | 'V' :: _ => do
    let _ ← d.settle
    .error .version
  | _ :: _ => .error .unknown

/-- Whether the file has been given, looked at or not. -/
def hasFile (d : Draft) : Bool := d.file.isSome || (d.pending.map Prod.fst) == some .file

/-- Takes an argument as the file; there is only one. -/
def readFile (d : Draft) (argument : Text) : Except OptionsProblem Draft :=
  if d.hasFile then .error .unknown
  else do
    let d ← d.settle
    return { d with pending := some (.file, some argument) }

/-- Reads an argument that names no option: the value that the last option waits for, or the
file. -/
def readPlain (d : Draft) (argument : Text) : Except OptionsProblem Draft :=
  match d.pending with
  | some (slot, none) => .ok { d with pending := some (slot, some argument) }
  | _ => d.readFile argument

/-- The text in front of the first equals sign, and the text behind it. -/
def splitEquals (text : Text) : Text × Option Text :=
  match text.dropWhile (· != '=') with
  | [] => (text, none)
  | _ :: value => (text.takeWhile (· != '='), some value)

/-- Reads one argument in front of `--`. -/
def readArgument (d : Draft) : Text → Except OptionsProblem Draft
  | '-' :: '-' :: name =>
    let (name, attached) := splitEquals name
    d.readLong name attached
  | '-' :: c :: letters => d.readShort (c :: letters)
  | argument => d.readPlain argument

/-- Reads all arguments; behind `--` each one can only be the file. -/
def readAll (d : Draft) : List Text → Except OptionsProblem Draft
  | [] => d.settle
  | argument :: rest =>
    if argument = "--".toList then do
      let d ← rest.foldlM readFile d
      d.settle
    else do
      let d ← d.readArgument argument
      d.readAll rest

/-- Whether two of the arguments exclude each other. -/
def hasConflict (d : Draft) : Bool :=
  (d.verbose != 0 && d.quiet != 0) ||
    (d.dot.isSome && d.switches.contains .dotStdout) ||
    (d.switches.contains .tui &&
      (d.switches.contains .tokens || d.switches.contains .tree || d.switches.contains .diagnostics ||
        d.switches.contains .dotStdout))

end Draft

namespace Options

/-- Options from arguments, or the first problem.  Arguments that exclude each other are looked for
when all have been read, and a missing file last. -/
def parse (arguments : List Text) : Except OptionsProblem Options := do
  let d ← Draft.empty.readAll arguments
  if d.hasConflict then .error .conflict
  else
    match d.file with
    | none => .error .fileMissing
    | some file => .ok ⟨file, d.switches, d.dot, d.tabWidth.getD 4, d.verbose, d.quiet⟩

/-- Whether a switch is on. -/
def has (o : Options) (s : Switch) : Bool := o.switches.contains s

/-- The settings of the analysis. -/
def settings (o : Options) : Settings :=
  (Settings.standard.withCase (if o.has .caseSensitive then .sensitive else .insensitive)).withTabWidth o.tabWidth

/-- Whether no report is asked for by name, so that the usual ones are printed. -/
def wantsStandardReports (o : Options) : Bool :=
  !(o.has .tokens || o.has .tree || o.has .diagnostics || o.has .dotStdout || o.has .tui)

end Options

/-- How much is written about a run besides its reports. -/
inductive LogLevel
  | off
  | error
  | warn
  | info
  | debug
  deriving DecidableEq, Repr

/-- The name of a level. -/
def LogLevel.name : LogLevel → String
  | .off => "off"
  | .error => "error"
  | .warn => "warn"
  | .info => "info"
  | .debug => "debug"

/-- The level that the options ask for: `-v` raises it, `-q` lowers it. -/
def Options.logLevel (o : Options) : LogLevel :=
  match o.verbose, o.quiet with
  | 0, 0 => .warn
  | 0, 1 => .error
  | 0, _ => .off
  | 1, _ => .info
  | _, _ => .debug

end Imperativo
