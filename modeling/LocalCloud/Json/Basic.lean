/-!
# JSON values

The value type of the whole library.  An object is the list of its fields in the order in which
they were written, because that order can be seen in what is printed.  Whole numbers are kept
apart from real ones: `1` and `1.0` are different values with different texts.
-/

namespace LocalCloud

/-- A number: a whole one, or a real one of double precision. -/
inductive Json.Number where
  | whole (n : Int)
  | real (x : Float)
  deriving Inhabited

/-- A JSON value. -/
inductive Json where
  | null
  | bool (b : Bool)
  | number (n : Json.Number)
  | string (s : String)
  | array (items : List Json)
  | object (fields : List (String × Json))
  deriving Inhabited

namespace Json

/-- Fields in the order of writing, each key once. -/
abbrev Fields := List (String × Json)

/-- The value of a whole number that is not negative. -/
def Number.asNatural? : Number → Option Nat
  | .whole (.ofNat n) => some n
  | _ => none

/-- A natural number as a value. -/
def ofNat (n : Nat) : Json := .number (.whole n)

/-- A text, or `null` for none. -/
def ofString? (s : Option String) : Json :=
  match s with
  | some s => .string s
  | none => .null

/-- A list of texts. -/
def ofStrings (texts : List String) : Json := .array (texts.map .string)

def asString? : Json → Option String
  | .string s => some s
  | _ => none

def asArray? : Json → Option (List Json)
  | .array items => some items
  | _ => none

def asObject? : Json → Option Fields
  | .object fields => some fields
  | _ => none

/-- The value of a field; a value that is no object has no fields. -/
def get? (v : Json) (key : String) : Option Json :=
  match v with
  | .object fields => fields.lookup key
  | _ => none

/-- The value at the end of a chain of fields. -/
def at? (v : Json) (keys : List String) : Option Json :=
  keys.foldlM get? v

/-- The items of the array in a field, none if there is no array. -/
def itemsAt (v : Json) (key : String) : List Json :=
  ((v.get? key).bind asArray?).getD []

mutual

/-- How many levels lie below a value; a scalar has none. -/
def height : Json → Nat
  | .array items => itemsHeight items
  | .object fields => fieldsHeight fields
  | _ => 0

/-- The levels that a list of items adds below its array. -/
def itemsHeight : List Json → Nat
  | [] => 0
  | item :: rest => max (item.height + 1) (itemsHeight rest)

/-- The levels that a list of fields adds below its object. -/
def fieldsHeight : List (String × Json) → Nat
  | [] => 0
  | (_, value) :: rest => max (value.height + 1) (fieldsHeight rest)

end

/-- The fields with one more: a key that is there keeps its place and takes the new value. -/
def Fields.set (key : String) (value : Json) : Fields → Fields
  | [] => [(key, value)]
  | (k, v) :: rest => if k = key then (k, value) :: rest else (k, v) :: Fields.set key value rest

end Json

/-- The size of a field's value is below the size of the fields it is found in. -/
theorem Json.sizeOf_lt_of_lookup {fields : Json.Fields} {key : String} {v : Json}
    (h : fields.lookup key = some v) : sizeOf v < sizeOf fields := by
  induction fields with
  | nil => simp at h
  | cons field rest ih =>
    obtain ⟨k, w⟩ := field
    rw [List.lookup_cons] at h
    split at h
    · simp only [Option.some.injEq] at h
      subst h
      simp only [List.cons.sizeOf_spec, Prod.mk.sizeOf_spec]
      omega
    · have := ih h
      simp only [List.cons.sizeOf_spec]
      omega

/-- A key that is found is among the keys. -/
theorem Json.key_mem_of_lookup {fields : Json.Fields} {key : String} {v : Json}
    (h : fields.lookup key = some v) : key ∈ fields.map (·.1) := by
  induction fields with
  | nil => simp at h
  | cons field rest ih =>
    obtain ⟨k, w⟩ := field
    rw [List.lookup_cons] at h
    split at h
    · next hk => simp [beq_iff_eq.1 hk]
    · simp [ih h]

end LocalCloud
