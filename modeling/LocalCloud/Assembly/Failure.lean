import LocalCloud.Graph.Failure
import LocalCloud.Path

/-!
# Why an assembly cannot be read

A file is unreadable, holds no JSON, or holds JSON of the wrong shape; the last case names the
defect.  Reading and ordering together fail for one of these causes or for one of the graph's.
-/

namespace LocalCloud

/-- Why the bytes or the text of a file cannot be had. -/
inductive ReadFault where
  | notFound
  | notADirectory
  | isADirectory
  | tooManyLinks
  | nameTooLong
  | nulInPath
  | alreadyThere
  | notUtf8
  deriving DecidableEq

def ReadFault.message : ReadFault → String
  | .notFound => "no such file or directory"
  | .notADirectory => "not a directory"
  | .isADirectory => "is a directory"
  | .tooManyLinks => "too many symbolic links"
  | .nameTooLong => "name too long"
  | .nulInPath => "a path holds a zero character"
  | .alreadyThere => "already there"
  | .notUtf8 => "not valid UTF-8"

/-- A document that is JSON but not what its place asks for. -/
inductive Defect where
  | templateNotObject
  | sectionNotObject (name : String)
  | resourceNotObject (logicalId : String)
  | resourceWithoutType (logicalId : String)
  | dependsOnShape (logicalId : String)
  | treeMissing
  | constructNotObject (key : String)
  | childrenShape (path : String)
  | filesNotObject
  | manifestShape (place : String)
  deriving DecidableEq

def Defect.message : Defect → String
  | .templateNotObject => "template must be a JSON object"
  | .sectionNotObject name => name ++ " must be an object"
  | .resourceNotObject logicalId => "resource '" ++ logicalId ++ "' is not an object"
  | .resourceWithoutType logicalId => "resource '" ++ logicalId ++ "' has no Type"
  | .dependsOnShape logicalId => "DependsOn of '" ++ logicalId ++ "' must be a string or list"
  | .treeMissing => "missing top-level 'tree'"
  | .constructNotObject key => "construct '" ++ key ++ "' is not an object"
  | .childrenShape path => "children of '" ++ path ++ "' must be a map or list"
  | .filesNotObject => "files must be an object"
  | .manifestShape place => "unexpected value for " ++ place

/-- What is wrong with a file of an assembly. -/
inductive AssemblyFailure where
  | unreadable (path : Path) (fault : ReadFault)
  | invalidJson (path : Path)
  | malformed (path : Path) (defect : Defect)
  deriving DecidableEq

def AssemblyFailure.message : AssemblyFailure → String
  | .unreadable path fault => "cannot read " ++ path.text ++ ": " ++ fault.message
  | .invalidJson path => "invalid JSON in " ++ path.text ++ ": not in the grammar"
  | .malformed path defect => "malformed " ++ path.text ++ ": " ++ defect.message

/-- Why an assembly has no startup plan. -/
inductive IngestFailure where
  | assembly (failure : AssemblyFailure)
  | graph (failure : GraphFailure)
  deriving DecidableEq

def IngestFailure.message : IngestFailure → String
  | .assembly failure => failure.message
  | .graph failure => failure.message

/-- Why an application does not run. -/
inductive RunFailure where
  | ingest (failure : IngestFailure)
  | start (failure : StartFailure)
  deriving DecidableEq

def RunFailure.message : RunFailure → String
  | .ingest failure => failure.message
  | .start failure => failure.message

end LocalCloud
