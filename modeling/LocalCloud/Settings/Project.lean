import LocalCloud.Files.Disk
import LocalCloud.Settings.Basic
import LocalCloud.Text.Numeral
import LocalCloud.Yaml.Node

/-!
# The project file

A project file is a YAML mapping in which everything may be left out.  Names and paths are taken as
they are written, whatever kind of scalar they look like; times are whole numbers without quotes.
Keys that mean nothing are passed over, but a key that means something stands there once.

Reading a file says nothing about whether its values make sense; `ProjectSettings.defects` does.
-/

namespace LocalCloud

/-- The usual name of a project file. -/
def projectFile : String := "ldk.yaml"

/-- What a project file says. -/
structure ProjectSettings where
  version : String := "1.0"
  /-- The assembly directory, seen from the project file. -/
  assembly : Path := ⟨"cdk.out"⟩
  orchestrator : OrchestratorSettings := {}
  deriving DecidableEq, Inhabited

/-- Why there are no settings. -/
inductive SettingsFailure where
  | unreadable (path : Path) (fault : ReadFault)
  | malformed
  deriving DecidableEq

def SettingsFailure.message : SettingsFailure → String
  | .unreadable path fault => "failed to read " ++ path.text ++ ": " ++ fault.message
  | .malformed => "YAML parse error: not a project file"

/-! ## Reading values -/

namespace Yaml.Node

/-- The text of a scalar, however it is written. -/
def text? : Node → Option String
  | .scalar text _ _ => some text
  | _ => none

/-- Whether a node is a plain scalar that stands for nothing. -/
def isNothing : Node → Bool
  | .scalar text .plain _ => ["", "~", "null", "Null", "NULL"].contains text
  | _ => false

/-- The whole number of at most 64 bits that a text writes: in decimal digits without leading
zeros, or behind `0x`, `0o` or `0b` in hexadecimal, octal or binary ones; a plus sign may come
first. -/
def readNumber? (text : List Char) : Option Nat :=
  let unsigned := match text with
    | '+' :: rest => rest
    | text => text
  let number? := match unsigned with
    | '0' :: 'x' :: digits => Text.readDigits? 16 digits
    | '0' :: 'o' :: digits => Text.readDigits? 8 digits
    | '0' :: 'b' :: digits => Text.readDigits? 2 digits
    | '0' :: _ :: _ => none
    | digits => Text.readDigits? 10 digits
  number?.filter (· < Text.wordBound)

/-- The whole number of a scalar that is plain, or a literal block with the tag of numbers. -/
def natural? : Node → Option Nat
  | .scalar text .plain _ => readNumber? text.toList
  | .scalar text .literal (some "tag:yaml.org,2002:int") => readNumber? text.toList
  | _ => none

/-- The mode that a scalar names, by a tag of its own before nothing or by its text. -/
def mode? (node : Node) : Option StartupMode :=
  match node with
  | .scalar text _ tag =>
    match (tag.getD "").toList with
    | '!' :: name => if node.isNothing then StartupMode.ofText? (String.ofList name) else none
    | _ => StartupMode.ofText? text
  | _ => none

end Yaml.Node

namespace Yaml.Document

/-- The values of the known keys of a mapping.  Every key is a scalar, and a known one stands there
at most once. -/
def known? (document : Document) (keys : List String) (entries : List (Node × Node)) :
    Option (List (String × Node)) :=
  entries.foldlM (fun found (key, value) => do
    let name ← (document.follow key).text?
    if !keys.contains name then some found
    else if (found.lookup name).isSome then none
    else some (found ++ [(name, document.follow value)])) []

end Yaml.Document

/-- The value of a key as `read` reads it, or the default where the key is left out. -/
def Yaml.valueOr {α : Type} (found : List (String × Yaml.Node)) (key : String)
    (read : Yaml.Node → Option α) (default : α) : Option α :=
  match found.lookup key with
  | some node => read node
  | none => some default

/-! ## Reading settings -/

/-- The orchestrator settings of a node; a node that is left out has the defaults. -/
def OrchestratorSettings.ofNode? (document : Yaml.Document) (node : Yaml.Node) :
    Option OrchestratorSettings :=
  let given : OrchestratorSettings := {}
  match node with
  | .mapping entries => do
    let found ← document.known?
      ["startup", "health_timeout_ms", "health_poll_interval_ms", "stop_timeout_ms"] entries
    let time := fun key default => Yaml.valueOr found key Yaml.Node.natural? default
    let startup ← Yaml.valueOr found "startup" Yaml.Node.mode? given.startup
    let healthTimeout ← time "health_timeout_ms" given.healthTimeout
    let healthPollInterval ← time "health_poll_interval_ms" given.healthPollInterval
    let stopTimeout ← time "stop_timeout_ms" given.stopTimeout
    some { startup, healthTimeout, healthPollInterval, stopTimeout }
  | .scalar "" .plain _ => some given
  | _ => none

namespace ProjectSettings

/-- The settings of a document; an empty document has the defaults. -/
def ofDocument? (document : Yaml.Document) : Option ProjectSettings :=
  let given : ProjectSettings := {}
  match document.root with
  | .mapping entries => do
    let found ← document.known? ["version", "assembly", "orchestrator"] entries
    let version ← Yaml.valueOr found "version" Yaml.Node.text? given.version
    let assembly ← Yaml.valueOr found "assembly" Yaml.Node.text? given.assembly.text
    let orchestrator ← Yaml.valueOr found "orchestrator" (OrchestratorSettings.ofNode? document)
      given.orchestrator
    some { version, assembly := ⟨assembly⟩, orchestrator }
  | .scalar "" .plain _ => some given
  | _ => none

/-- The settings in a text; a blank text has the defaults. -/
def ofText (text : String) : Except SettingsFailure ProjectSettings :=
  if Text.isAllBlank text.toList then .ok {}
  else
    match Yaml.read? text with
    | none => .error .malformed
    | some .nothing => .ok {}
    | some (.document document) =>
      match ofDocument? document with
      | some settings => .ok settings
      | none => .error .malformed

/-- The settings in the file at a path, the defaults if there is none. -/
def load (disk : Disk) (path : Path) : Except SettingsFailure ProjectSettings :=
  if disk.holds path then
    match disk.readText path with
    | .error fault => .error (.unreadable path fault)
    | .ok text => ofText text
  else .ok {}

/-- Whether the settings mean what the defaults mean. -/
def isDefault (s : ProjectSettings) : Bool :=
  let given : ProjectSettings := {}
  s.version == given.version && s.assembly.same given.assembly &&
    s.orchestrator == given.orchestrator

/-! ## Values that make no sense -/

/-- A value that makes no sense. -/
inductive Defect where
  | version (given : String)
  | noAssembly
  | zero (key : String)
  | pollTooLong (interval timeout : Nat)
  deriving DecidableEq

def Defect.message : Defect → String
  | .version given => "version must be \"1.0\", got \"" ++ given ++ "\""
  | .noAssembly => "assembly must not be empty"
  | .zero key => "orchestrator." ++ key ++ " must be greater than 0"
  | .pollTooLong interval timeout =>
    "orchestrator.health_poll_interval_ms (" ++ toString interval ++
      ") must be below health_timeout_ms (" ++ toString timeout ++ ")"

/-- All values that make no sense. -/
def defects (s : ProjectSettings) : List Defect :=
  let o := s.orchestrator
  let zeros :=
    [("health_timeout_ms", o.healthTimeout), ("health_poll_interval_ms", o.healthPollInterval),
      ("stop_timeout_ms", o.stopTimeout)].filter fun (_, time) => time == 0
  (if s.version = "1.0" then [] else [.version s.version]) ++
    (if s.assembly.text = "" then [.noAssembly] else []) ++
    zeros.map (fun (key, _) => .zero key) ++
    if 0 < o.healthTimeout ∧ o.healthTimeout ≤ o.healthPollInterval then
      [.pollTooLong o.healthPollInterval o.healthTimeout]
    else []

/-- A project file with the defaults. -/
def initialText : String :=
  let given : ProjectSettings := {}
  let o := given.orchestrator
  "version: \"" ++ given.version ++ "\"\n" ++
    "assembly: " ++ given.assembly.text ++ "\n" ++
    "orchestrator:\n" ++
    "  # waves | sequential\n" ++
    "  startup: " ++ o.startup.text ++ "\n" ++
    "  health_timeout_ms: " ++ toString o.healthTimeout ++ "\n" ++
    "  health_poll_interval_ms: " ++ toString o.healthPollInterval ++ "\n" ++
    "  stop_timeout_ms: " ++ toString o.stopTimeout ++ "\n"

end ProjectSettings

end LocalCloud
