import LocalCloud.Assembly.Failure
import LocalCloud.Json.Printer

/-!
# Warnings

Nothing in this library is thrown away in silence: where a value is replaced, an entry left out or
a failure passed over, a `Warning` says so.  A computation that may warn gives its value together
with its warnings in order (`Noted`); the value never depends on them.
-/

namespace LocalCloud

/-- The deepest level at which an expression or a condition is still looked into. -/
def nestingLimit : Nat := 64

/-- The longest chain of nested assemblies that is followed. -/
def assemblyNestingLimit : Nat := 8

/-- The optional files of an assembly. -/
inductive OptionalFile where
  | constructTree
  | assetManifest
  deriving DecidableEq

def OptionalFile.text : OptionalFile → String
  | .constructTree => "construct tree"
  | .assetManifest => "asset manifest"

/-- Something worth telling the user. -/
inductive Warning where
  -- expressions and conditions
  | nestedTooDeep
  | unresolvable (intrinsic reason : String) (argument : Json)
  | unresolvedReference (id placeholder : String)
  | selectOutOfRange (index : Nat) (count : Option Nat)
  | unterminatedHole (template : String)
  | conditionTooDeep
  | unknownConditionFunction (name : String)
  | unevaluable (expression : Json)
  | conditionCycle (name : String)
  -- manifests, assets and trees
  | noManifest (dir : Path)
  | nestedTooFar (dir : Path)
  | nestedWithoutManifest (dir : Path)
  | fileMissing (file : OptionalFile) (path : Path)
  | stackWithoutTemplate (name : String)
  | assetManifestWithoutFile (name : String)
  | treeWithoutFile (name : String)
  | nestedWithoutDirectory (name : String)
  | assetWithoutPath (hash : String) (source : Path)
  | assetWithoutHash (path logicalId : String)
  -- the model
  | parentLoop (stack logicalId : String)
  | mappingWithoutFunction (stack logicalId : String)
  | subscriptionWithoutTopic (stack logicalId : String)
  | ruleWithoutBus (stack logicalId bus : String)
  | duplicateNode (id : String)
  -- providers
  | noProvider (nodeType id : String)
  | unscheduled (count : Nat) (node : String)
  | overdueHealth (provider : String) (timeout : Nat)
  | ownStopRefused (provider reason : String)
  | ownStopOverdue (provider : String) (timeout : Nat)
  | waveFailed (number : Nat) (failure : StartFailure)
  | stopFailed (failure : StopFailure)
  | rollbackIncomplete (failure : StopFailure)
  -- digests
  | digestFailed (failure : AssemblyFailure)

namespace Warning

def message : Warning → String
  | .nestedTooDeep =>
    "intrinsic nesting exceeds " ++ toString nestingLimit ++ " levels; substituting empty string"
  | .unresolvable intrinsic reason argument =>
    "unresolvable " ++ intrinsic ++ ": " ++ reason ++ " (got " ++ argument.compact ++ ")"
  | .unresolvedReference id placeholder =>
    "unresolved reference '" ++ id ++ "'; using placeholder " ++ placeholder
  | .selectOutOfRange index none => "Fn::Select index " ++ toString index ++ " out of range"
  | .selectOutOfRange index (some count) =>
    "Fn::Select index " ++ toString index ++ " out of range for " ++ toString count ++ " item(s)"
  | .unterminatedHole template => "unterminated $\x7b in Fn::Sub template: " ++ template
  | .conditionTooDeep =>
    "condition nesting exceeds " ++ toString nestingLimit ++ " levels; assuming true"
  | .unknownConditionFunction name =>
    "cannot evaluate condition function '" ++ name ++ "'; assuming true"
  | .unevaluable expression =>
    "cannot evaluate condition " ++ expression.compact ++ "; assuming true"
  | .conditionCycle name => "condition '" ++ name ++ "' refers to itself; assuming true"
  | .noManifest dir => "no manifest in " ++ dir.text ++ "; application is empty"
  | .nestedTooFar dir =>
    "nested assembly " ++ dir.text ++ " exceeds depth " ++ toString assemblyNestingLimit ++
      "; skipping"
  | .nestedWithoutManifest dir =>
    "nested assembly " ++ dir.text ++ " has no manifest; skipping"
  | .fileMissing file path => file.text ++ " " ++ path.text ++ " not found; skipping"
  | .stackWithoutTemplate name =>
    "stack '" ++ name ++ "' has no templateFile; assuming default name"
  | .assetManifestWithoutFile name =>
    "asset manifest '" ++ name ++ "' has no file property; skipping"
  | .treeWithoutFile name => "tree artifact '" ++ name ++ "' has no file property; skipping"
  | .nestedWithoutDirectory name =>
    "nested assembly '" ++ name ++ "' has no directoryName; skipping"
  | .assetWithoutPath hash source =>
    "asset " ++ hash ++ " in " ++ source.text ++ " has no source path; skipping"
  | .assetWithoutHash path logicalId =>
    "cannot derive asset hash from '" ++ path ++ "' on " ++ logicalId
  | .parentLoop stack logicalId => "ParentId loop at " ++ stack ++ "/" ++ logicalId
  | .mappingWithoutFunction stack logicalId =>
    "event source mapping " ++ stack ++ "/" ++ logicalId ++ " targets no modelled function"
  | .subscriptionWithoutTopic stack logicalId =>
    "subscription " ++ stack ++ "/" ++ logicalId ++ " targets no modelled topic"
  | .ruleWithoutBus stack logicalId bus =>
    "rule " ++ stack ++ "/" ++ logicalId ++ " targets unknown bus '" ++ bus ++ "'; ignoring"
  | .duplicateNode id => "duplicate graph node '" ++ id ++ "'; keeping the first"
  | .noProvider nodeType id => "no provider for " ++ nodeType ++ " node " ++ id ++ "; skipping"
  | .unscheduled count node =>
    toString count ++ " provider(s) for " ++ node ++ " are not in the startup order; skipping"
  | .overdueHealth provider timeout =>
    provider ++ " not healthy after " ++ toString timeout ++ "ms; stopping it"
  | .ownStopRefused provider reason => provider ++ ": " ++ StopFailure.quoteReason reason
  | .ownStopOverdue provider timeout =>
    provider ++ " did not stop within " ++ toString timeout ++ "ms"
  | .waveFailed number failure => "wave " ++ toString number ++ " failed: " ++ failure.message
  | .stopFailed failure => failure.message
  | .rollbackIncomplete failure => "rollback incomplete: " ++ failure.message
  | .digestFailed failure => failure.message

end Warning

/-- A value with the warnings that came up on the way to it. -/
structure Noted (α : Type) where
  value : α
  warnings : List Warning := []

namespace Noted

variable {α β : Type}

/-- A value without a warning. -/
protected def pure (a : α) : Noted α := { value := a }

/-- One computation after another; the warnings of the first come first. -/
protected def bind (x : Noted α) (f : α → Noted β) : Noted β :=
  let y := f x.value
  { value := y.value, warnings := x.warnings ++ y.warnings }

instance : Monad Noted where
  pure := Noted.pure
  bind := Noted.bind

/-- A warning and nothing else. -/
def warn (w : Warning) : Noted Unit := { value := (), warnings := [w] }

/-- A value that stands in for another one, and why. -/
def instead (a : α) (w : Warning) : Noted α := { value := a, warnings := [w] }

@[simp] theorem value_pure (a : α) : (pure a : Noted α).value = a := rfl

@[simp] theorem value_bind (x : Noted α) (f : α → Noted β) :
    (x >>= f).value = (f x.value).value := rfl

@[simp] theorem value_map (f : α → β) (x : Noted α) : (f <$> x).value = f x.value := rfl

@[simp] theorem value_instead (a : α) (w : Warning) : (instead a w).value = a := rfl

@[simp] theorem warnings_pure (a : α) : (pure a : Noted α).warnings = [] := rfl

@[simp] theorem warnings_bind (x : Noted α) (f : α → Noted β) :
    (x >>= f).warnings = x.warnings ++ (f x.value).warnings := rfl

theorem value_foldlM (f : β → α → Noted β) (xs : List α) (b : β) :
    (xs.foldlM f b).value = xs.foldl (fun b x => (f b x).value) b := by
  induction xs generalizing b with
  | nil => rfl
  | cons x xs ih => exact ih _

instance : LawfulMonad Noted :=
  LawfulMonad.mk' Noted
    (fun x => by
      show Noted.bind x (fun a => Noted.pure a) = x
      simp [Noted.bind, Noted.pure])
    (fun a f => by
      show Noted.bind (Noted.pure a) f = f a
      simp [Noted.bind, Noted.pure])
    (fun x f g => by
      show Noted.bind (Noted.bind x f) g = Noted.bind x fun a => Noted.bind (f a) g
      simp [Noted.bind])

theorem value_mapM (f : α → Noted β) (xs : List α) :
    (xs.mapM f).value = xs.map fun x => (f x).value := by
  induction xs with
  | nil => rfl
  | cons x xs ih => simp [ih]

theorem warnings_map (f : α → β) (x : Noted α) : (f <$> x).warnings = x.warnings :=
  List.append_nil _

theorem warnings_mapM (f : α → Noted β) (xs : List α) :
    (xs.mapM f).warnings = xs.flatMap fun x => (f x).warnings := by
  induction xs with
  | nil => rfl
  | cons x xs ih => simp [warnings_map, ih]

/-- Computations are the same when they give the same value with the same warnings. -/
protected theorem ext {x y : Noted α} (hvalue : x.value = y.value)
    (hwarnings : x.warnings = y.warnings) : x = y := by
  cases x
  cases y
  exact congr (congrArg Noted.mk hvalue) hwarnings

end Noted

/-- A computation that may warn and may fail; the warnings stay when it fails. -/
abbrev Attempt (ε : Type) := ExceptT ε Noted

namespace Attempt

variable {ε ε' α β : Type}

/-- A warning on the way of a computation that may fail. -/
def warn (w : Warning) : Attempt ε Unit := ExceptT.lift (Noted.warn w)

theorem value_bind (x : Attempt ε α) (f : α → Attempt ε β) :
    (x >>= f).run.value =
      match x.run.value with
      | .ok a => (f a).run.value
      | .error e => .error e := by
  show (ExceptT.bindCont f x.run.value : Noted (Except ε β)).value = _
  cases x.run.value <;> rfl

/-- What comes of two computations comes of the first one and then of the second one. -/
theorem bind_eq_ok {x : Attempt ε α} {f : α → Attempt ε β} {b : β} :
    (x >>= f).run.value = .ok b ↔ ∃ a, x.run.value = .ok a ∧ (f a).run.value = .ok b := by
  rw [value_bind]
  cases x.run.value <;> simp

theorem value_map (f : α → β) (x : Attempt ε α) : (f <$> x).run.value = x.run.value.map f := by
  show (ExceptT.map f x).run.value = _
  simp only [ExceptT.map, ExceptT.run_mk, Noted.value_bind]
  rw [ExceptT.run]
  cases Noted.value x <;> rfl

theorem value_adapt (f : ε → ε') (x : Attempt ε α) :
    (ExceptT.adapt f x).run.value = x.run.value.mapError f := rfl

end Attempt

end LocalCloud
