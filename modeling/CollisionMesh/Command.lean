import CollisionMesh.Editor.Scene
import CollisionMesh.Files.Json
import CollisionMesh.Settings.Toml

namespace CollisionMesh

open Number

/-!
# The command line

Two commands: `simplify` rewrites a document beside itself, `inspect` counts the
triangles of a rewritten one.

* `Options` — the arguments of a command, sorted into options and operands;
* `Options.scan` — the rules by which they are sorted;
* `Request.parse` — what the arguments ask for;
* `Command.run` — what a command answers;
* `Answer.exitCode`, `Answer.output`, `Answer.errors` — how it is reported.
-/

/-! ### Arguments -/

/-- How an option is given. -/
inductive OptionKind where
  /-- By its name alone. -/
  | flag
  /-- With a value that satisfies a test. -/
  | value (accepts : String → Bool)

/-- The arguments of a command. -/
structure Options where
  flags : List String := []
  values : List (String × String) := []
  operand : Option String := none

/-- Why the arguments are not all looked at. -/
inductive Interruption where
  /-- Help was asked for. -/
  | help
  /-- The version was asked for. -/
  | version
  /-- An argument cannot be understood. -/
  | usage
deriving DecidableEq

/-- The name and the value of an argument with an equals sign. -/
def splitEquals (argument : String) : String × Option String :=
  let chars := argument.toList
  match chars.dropWhile (· != '=') with
  | [] => (argument, none)
  | _ :: value => (String.ofList (chars.takeWhile (· != '=')), some (String.ofList value))

namespace Options

/-- The arguments with a flag more. No flag can be given twice. -/
def addFlag (o : Options) (name : String) : Except Interruption Options :=
  if o.flags.contains name then .error .usage else .ok { o with flags := o.flags ++ [name] }

/-- The arguments with an option and its value more. No option can be given
    twice. -/
def addValue (o : Options) (accepts : String → Bool) (name value : String) :
    Except Interruption Options :=
  if (o.values.lookup name).isSome || !accepts value then .error .usage
  else .ok { o with values := o.values ++ [(name, value)] }

/-- The arguments with an operand. There is only one, and it is not empty. -/
def addOperand (o : Options) (operand : String) : Except Interruption Options :=
  if o.operand.isSome || operand.isEmpty then .error .usage
  else .ok { o with operand := some operand }

/-- The arguments with the flags of a single letter in a row. -/
def addLetters (o : Options) (letters : List Char) : Except Interruption Options :=
  letters.foldlM (fun o letter =>
    if letter = 'v' then o.addFlag "verbose"
    else if letter = 'h' then .error .help
    else .error .usage) o

/-- Sorts arguments. Names start with two hyphens and letters with one; two hyphens
    alone end the options, and one alone is an operand. A value follows its name
    after an equals sign, or as the next argument unless that starts with a
    hyphen. -/
def scan (kind? : String → Option OptionKind) (o : Options) :
    List String → Except Interruption Options
  | [] => .ok o
  | argument :: rest =>
    match argument.toList with
    | ['-', '-'] => rest.foldlM addOperand o
    | '-' :: '-' :: name => do
      let (name, value) := splitEquals (String.ofList name)
      if name = "help" ∧ value = none then throw .help
      match kind? name, value with
      | some .flag, none => scan kind? (← o.addFlag name) rest
      | some (.value accepts), some value => scan kind? (← o.addValue accepts name value) rest
      | some (.value accepts), none =>
        match rest with
        | [] => throw .usage
        | value :: rest =>
          if value.startsWith "-" && value != "-" then throw .usage
          else scan kind? (← o.addValue accepts name value) rest
      | _, _ => throw .usage
    | '-' :: letter :: letters => do
      scan kind? (← o.addLetters (letter :: letters)) rest
    | _ => do scan kind? (← o.addOperand argument) rest

/-- Whether a flag was given. -/
def has (o : Options) (name : String) : Bool :=
  o.flags.contains name

/-- The number behind an option. -/
def number? (o : Options) (name : String) : Option Float :=
  o.values.lookup name >>= fun text => real? text.toList

end Options

/-! ### Commands -/

/-- What the program can be asked to do. -/
inductive Command where
  /-- Rewrites a document beside itself. -/
  | simplify (input : String) (options : Options)
  /-- Counts the triangles of a document. -/
  | inspect (file : String) (options : Options)

/-- What the arguments ask for. -/
inductive Request where
  | run (c : Command)
  | help
  | version
  /-- The arguments cannot be understood. -/
  | usage

namespace Request

/-- The options of the command `simplify`. -/
def simplifyOption (name : String) : Option OptionKind :=
  if ["verbose", "strict-keys", "drop-failed", "json"].contains name then some .flag
  else if name = "config" then some (.value fun text => !text.isEmpty)
  else if name = "suffix" then some (.value fun _ => true)
  else if ["weld-distance", "angle"].contains name then
    some (.value fun text => (real? text.toList).isSome)
  else none

/-- The options of the command `inspect`. -/
def inspectOption (name : String) : Option OptionKind :=
  if ["verbose", "json"].contains name then some .flag else none

/-- A command with its operand. -/
def ofOptions (command : String → Options → Command) :
    Except Interruption Options → Request
  | .error .help => help
  | .error .version => version
  | .error .usage => usage
  | .ok o =>
    match o.operand with
    | some operand => run (command operand o)
    | none => usage

/-- The flags of a single letter before a command: whether `v` is among them. -/
def letters : Bool → List Char → Except Interruption Bool
  | verbose, [] => .ok verbose
  | verbose, 'v' :: rest => if verbose then .error .usage else letters true rest
  | _, 'h' :: _ => .error .help
  | _, 'V' :: _ => .error .version
  | _, _ => .error .usage

/-- What the arguments ask for, once it is known whether a flag was given before
    the command. -/
def parseFrom (verbose : Bool) : List String → Request
  | [] => usage
  | argument :: rest =>
    if argument = "simplify" then ofOptions .simplify (Options.scan simplifyOption {} rest)
    else if argument = "inspect" then ofOptions .inspect (Options.scan inspectOption {} rest)
    else if argument = "help" ∨ argument = "--help" then help
    else if argument = "--version" then version
    else if argument = "--verbose" then if verbose then usage else parseFrom true rest
    else match argument.toList with
      | '-' :: letter :: more =>
        match letters verbose (letter :: more) with
        | .ok verbose => parseFrom verbose rest
        | .error .help => help
        | .error .version => version
        | .error .usage => usage
      | _ => usage

/-- What the arguments ask for. -/
def parse (arguments : List String) : Request :=
  parseFrom false arguments

end Request

/-- What a command answers. -/
inductive Answer where
  | printed (text : String)
  /-- What failed, in a sentence, and why. -/
  | failed (context : String) (cause : Error)
  /-- The arguments cannot be understood. -/
  | usage

/-! ### Running -/

/-- The settings with those that options name in their places. -/
def Options.adjust (o : Options) (s : Settings) : Settings :=
  let t := s.tolerances
  let turn := (o.number? "angle").map (· * degree)
  { tolerances := {
      weldDistance := (o.number? "weld-distance").getD t.weldDistance
      splitAngle := turn.getD t.splitAngle
      dissolveAngle := turn.getD t.dissolveAngle }
    keyPolicy := if o.has "strict-keys" then .strict else s.keyPolicy
    outputSuffix := (o.values.lookup "suffix").getD s.outputSuffix
    failurePolicy := if o.has "drop-failed" then .drop else s.failurePolicy }

/-- The counts of a map in lines: all of it, each area, and each type in it. -/
def AreaMap.summary (m : AreaMap) : String :=
  s!"{m.areas.length} areas, {m.triangleCount} triangles\n"
    ++ String.join (m.areas.map areaSummary)
where
  areaSummary (a : Area) : String :=
    s!"{areaTag} {a.level.toNat} {a.number.toNat}: "
      ++ s!"{a.vertices.size} vertices, {a.triangles.size} triangles\n"
      ++ String.join (a.histogram.map fun entry =>
        s!"  {collisionTypeTag} {entry.1.toNat}: {entry.2}\n")

section

variable {m : Type → Type} [Monad m] [FileAccess m]

/-- The settings in a file. -/
def readSettings (path : String) : m (Except Error Settings) := do
  return (← readFile path).bind fun text => Settings.ofToml text (some path)

/-- Processes a document with settings changed by options. -/
def runSimplify (input : String) (o : Options) (s : Settings) : m Answer := do
  match (← processFile (o.adjust s) input (Scene.new : Scene Float)).1 with
  | .error e => return .failed s!"failed to process {input}" e
  | .ok (output, report) =>
    if o.has "json" then return .printed (report.json.text 0 ++ "\n")
    else return .printed s!"{output}: {report.text}\n"

/-- Runs a command. -/
def Command.run : Command → m Answer
  | .simplify input o => do
    match o.values.lookup "config" with
    | none => runSimplify input o Settings.standard
    | some path =>
      match ← readSettings path with
      | .error e => return .failed s!"failed to load config {path}" e
      | .ok s => runSimplify input o s
  | .inspect file o => do
    match ← readMap file with
    | .error e => return .failed s!"failed to read {file}" e
    | .ok map =>
      if o.has "json" then return .printed (map.json.text 0 ++ "\n")
      else return .printed map.summary

/-- The name and the version of the program. -/
def versionText : String := "colcrate 0.1.0\n"

/-- How the program is called. -/
def helpText : String :=
  "Simplify the triangle runs of collision files\n\n"
    ++ "Usage: colcrate [-v] simplify INPUT [--config FILE] [--suffix SUFFIX]\n"
    ++ "                [--weld-distance UNITS] [--angle DEGREES] [--strict-keys]\n"
    ++ "                [--drop-failed] [--json]\n"
    ++ "       colcrate [-v] inspect FILE [--json]\n"

/-- Answers a request. -/
def Request.answer : Request → m Answer
  | .run c => c.run
  | .help => return .printed helpText
  | .version => return .printed versionText
  | .usage => return .usage

end

namespace Answer

/-- The status that the program ends with. -/
def exitCode : Answer → UInt8
  | printed _ => 0
  | failed .. => 1
  | usage => 2

/-- What goes to the standard output. -/
def output : Answer → String
  | printed text => text
  | _ => ""

/-- The causes of an error, the last of them the first in time. -/
def causes (e : Error) : List String :=
  e.message :: match e with
    | .file _ fault => [fault.message]
    | _ => []

/-- What failed in the first line, and the causes below it, numbered if there are
    several. -/
def failureText (context : String) (cause : Error) : String :=
  let lines : List String := match causes cause with
    | [only] => ["    " ++ only]
    | several => several.zipIdx.map fun (text, i) => s!"    {i}: {text}"
  s!"Error: {context}\n\nCaused by:\n" ++ String.join (lines.map (· ++ "\n"))

/-- What goes to the standard error. -/
def errors : Answer → String
  | printed _ => ""
  | failed context cause => failureText context cause
  | usage => helpText

end Answer

end CollisionMesh
