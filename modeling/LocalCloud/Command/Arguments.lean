/-!
# Command line arguments

An option is a word behind two dashes or a letter behind one.  The value of an option is behind an
equals sign, behind its letter, or the next argument; letters without values may share one dash.
Everything behind `--` is no option.  No option is given twice, and no value is empty.
-/

namespace LocalCloud.Arguments

/-- An option of a command. -/
structure Spec where
  word : String
  letter : Option Char := none
  hasValue : Bool := false

/-- The arguments of a command. -/
structure Parsed where
  /-- The options that were given, by word, with their values. -/
  options : List (String × String) := []
  /-- The arguments that are no options. -/
  operands : List String := []

namespace Parsed

/-- The arguments with one more option, unless it was given before. -/
def add (p : Parsed) (word value : String) : Option Parsed :=
  if (p.options.lookup word).isSome then none
  else some { p with options := p.options ++ [(word, value)] }

/-- The arguments with one more option that has a value. -/
def addValue (p : Parsed) (word value : String) : Option Parsed :=
  if value = "" then none else p.add word value

/-- The value of an option. -/
def value? (p : Parsed) (word : String) : Option String := p.options.lookup word

/-- Whether an option was given. -/
def has (p : Parsed) (word : String) : Bool := (p.value? word).isSome

end Parsed

/-- The text behind an equals sign, or the whole text. -/
def withoutEquals : List Char → List Char
  | '=' :: rest => rest
  | text => text

/-- Reads an option written as a word, perhaps with a value behind an equals sign.  The second
part of the result is the option whose value is still to come. -/
def readWord (specs : List Spec) (p : Parsed) (text : List Char) :
    Option (Parsed × Option String) := do
  let name := text.takeWhile (· ≠ '=')
  let spec ← specs.find? (·.word == String.ofList name)
  match text.drop name.length, spec.hasValue with
  | [], false => some (← p.add spec.word "", none)
  | [], true => some (p, some spec.word)
  | _ :: _, false => none
  | _ :: value, true => some (← p.addValue spec.word (String.ofList value), none)

/-- Reads options written as letters; the first one with a value takes what is behind it. -/
def readLetters (specs : List Spec) (p : Parsed) : List Char → Option (Parsed × Option String)
  | [] => some (p, none)
  | letter :: rest => do
    let spec ← specs.find? (·.letter == some letter)
    if spec.hasValue then
      if rest = [] then some (p, some spec.word)
      else some (← p.addValue spec.word (String.ofList (withoutEquals rest)), none)
    else readLetters specs (← p.add spec.word "") rest

/-- Reads arguments.  `waiting` is the option whose value is still to come; an option or the end
must not come instead. -/
def read (specs : List Spec) (p : Parsed) (waiting : Option String) : List String → Option Parsed
  | [] => if waiting.isSome then none else some p
  | arg :: rest =>
    match arg.toList, waiting with
    | ['-', '-'], none => some { p with operands := p.operands ++ rest }
    | '-' :: '-' :: text, none => do
      let (p, waiting) ← readWord specs p text
      read specs p waiting rest
    | '-' :: letter :: letters, none => do
      let (p, waiting) ← readLetters specs p (letter :: letters)
      read specs p waiting rest
    | '-' :: _ :: _, some _ => none
    | _, some word => do read specs (← p.addValue word arg) none rest
    | _, none => read specs { p with operands := p.operands ++ [arg] } none rest

end LocalCloud.Arguments
