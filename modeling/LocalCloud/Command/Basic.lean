import LocalCloud.Command.Arguments
import LocalCloud.Settings.Project

/-!
# Commands

What the program can be asked to do, and how it is asked.
-/

namespace LocalCloud

/-- Which project a command is about. -/
structure ProjectChoice where
  /-- The project file. -/
  file : Path := ⟨projectFile⟩
  /-- The assembly directory, where it is not the one of the project file. -/
  assembly? : Option Path := none
  deriving DecidableEq

/-- A command. -/
inductive Command where
  /-- Make a project in a directory. -/
  | init (dir : Path)
  /-- See whether the application can be started. -/
  | validate (project : ProjectChoice)
  /-- Show the application. -/
  | inspect (project : ProjectChoice) (json : Bool)
  /-- Show the startup plan. -/
  | plan (project : ProjectChoice) (sequential : Bool)
  deriving DecidableEq

namespace Command

def verbose : Arguments.Spec := { word := "verbose", letter := some 'v' }

/-- The options by which a project is chosen. -/
def choiceOptions : List Arguments.Spec :=
  [{ word := "file", letter := some 'f', hasValue := true },
    { word := "assembly", letter := some 'a', hasValue := true }, verbose]

/-- The project that the arguments choose; nothing but options may be among them. -/
def choice? (p : Arguments.Parsed) : Option ProjectChoice :=
  let given : ProjectChoice := {}
  if p.operands = [] then
    some
      { file := ⟨(p.value? "file").getD given.file.text⟩
        assembly? := (p.value? "assembly").map Path.mk }
  else none

/-- The command with a name and its arguments. -/
def ofName? (name : String) (args : List String) : Option Command := do
  let read := fun specs => Arguments.read specs {} none args
  match name with
  | "init" =>
    match (← read [verbose]).operands with
    | [] => some (.init ⟨"."⟩)
    | [dir] => if dir = "" then none else some (.init ⟨dir⟩)
    | _ => none
  | "validate" => .validate <$> choice? (← read choiceOptions)
  | "inspect" =>
    let p ← read ({ word := "json" } :: choiceOptions)
    some (.inspect (← choice? p) (p.has "json"))
  | "plan" =>
    let p ← read ({ word := "sequential" } :: choiceOptions)
    some (.plan (← choice? p) (p.has "sequential"))
  | _ => none

/-- The command of a command line.  Options before the name are for all commands. -/
def ofArguments? (args : List String) : Option Command := do
  let before := args.takeWhile fun arg => Text.startsWith "-" arg && arg != "-" && arg != "--"
  let _ ← Arguments.read [verbose] {} none before
  match args.drop before.length with
  | name :: rest => ofName? name rest
  | [] => none

end Command

end LocalCloud
