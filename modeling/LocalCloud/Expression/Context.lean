/-!
# What an expression is resolved against

A context knows local identifiers and types of resources, values of conditions, and perhaps the
name of the stack.  It only grows: a name that is bound keeps its value (`lookup_bindOnce`).
-/

namespace LocalCloud

/-- The account that everything local belongs to. -/
def localAccount : String := "000000000000"

/-- The region that everything local lies in. -/
def localRegion : String := "local"

/-- The bindings with one more, unless the name is bound already. -/
def bindOnce {α : Type} (name : String) (value : α) (bindings : List (String × α)) :
    List (String × α) :=
  if (bindings.lookup name).isSome then bindings else bindings ++ [(name, value)]

theorem lookup_append_singleton {α : Type} (bindings : List (String × α)) (name other : String)
    (value : α) : (bindings ++ [(name, value)]).lookup other =
      (bindings.lookup other).or (if other = name then some value else none) := by
  induction bindings with
  | nil =>
    by_cases h : other = name
    · subst h; simp
    · have : (other == name) = false := by simpa using h
      simp [List.lookup_cons, this, h]
  | cons b rest ih =>
    obtain ⟨k, v⟩ := b
    simp only [List.cons_append, List.lookup_cons]
    split
    · rfl
    · exact ih

/-- Binding a name changes nothing for other names, and nothing for a name bound before. -/
theorem lookup_bindOnce {α : Type} (bindings : List (String × α)) (name other : String)
    (value : α) : (bindOnce name value bindings).lookup other =
      (bindings.lookup other).or (if other = name then some value else none) := by
  unfold bindOnce
  split
  · next h =>
    by_cases ho : other = name
    · subst ho
      obtain ⟨v, hv⟩ := Option.isSome_iff_exists.1 h
      simp [hv]
    · simp [ho]
  · exact lookup_append_singleton bindings name other value

/-- The known values that an expression may be resolved against. -/
structure Context where
  /-- Local identifiers by logical id. -/
  resources : List (String × String) := []
  /-- Resource types by logical id. -/
  types : List (String × String) := []
  /-- Values of conditions by name. -/
  conditions : List (String × Bool) := []
  /-- The stack that is being resolved. -/
  stack : Option String := none
  deriving DecidableEq, Inhabited

namespace Context

/-- The local identifier bound to a logical id. -/
def resource? (ctx : Context) (id : String) : Option String := ctx.resources.lookup id

/-- The type bound to a logical id. -/
def type? (ctx : Context) (id : String) : Option String := ctx.types.lookup id

/-- The value bound to a condition. -/
def condition? (ctx : Context) (name : String) : Option Bool := ctx.conditions.lookup name

/-- The context with a local identifier, unless the logical id has one. -/
def bindResource (ctx : Context) (id identifier : String) : Context :=
  { ctx with resources := bindOnce id identifier ctx.resources }

/-- The context with a resource type, unless the logical id has one. -/
def bindType (ctx : Context) (id type : String) : Context :=
  { ctx with types := bindOnce id type ctx.types }

/-- The context with the value of a condition, unless the condition has one. -/
def bindCondition (ctx : Context) (name : String) (value : Bool) : Context :=
  { ctx with conditions := bindOnce name value ctx.conditions }

/-- The context of a stack with the given name. -/
def withStack (ctx : Context) (name : String) : Context := { ctx with stack := some name }

/-- How many logical ids have a local identifier. -/
def resourceCount (ctx : Context) : Nat := ctx.resources.length

/-- The value that a condition counts as: one that is not bound is true. -/
def holds (ctx : Context) (name : String) : Bool := (ctx.condition? name).getD true

end Context

end LocalCloud
