import Mathlib.Data.List.Basic

/-!
# JSON values

Values as a reader that keeps the order of fields holds them: an object's keys
are distinct, and adding a field puts it last or replaces its value.
-/

inductive JsonValue where
  | null
  | bool (value : Bool)
  | number (text : String)
  | string (text : String)
  | array (items : List JsonValue)
  | object (fields : List (String × JsonValue))
  deriving Repr, Inhabited

namespace JsonValue

abbrev Fields := List (String × JsonValue)

/-- The field of an object; `null` of anything else, and where there is none. -/
def get (key : String) : JsonValue → JsonValue
  | object fields => (fields.lookup key).getD null
  | _ => null

def asStr : JsonValue → Option String
  | string text => some text
  | _ => none

def asBool : JsonValue → Option Bool
  | bool value => some value
  | _ => none

def asArray : JsonValue → Option (List JsonValue)
  | array items => some items
  | _ => none

/-- `insert`: the value replaced where it stands, or put last. -/
def insertField (key : String) (value : JsonValue) : Fields → Fields
  | [] => [(key, value)]
  | (other, held) :: rest =>
    if other = key then (key, value) :: rest else (other, held) :: insertField key value rest

def insert (key : String) (value : JsonValue) : JsonValue → JsonValue
  | object fields => object (insertField key value fields)
  | other => other

/-- `remove`: the last field takes the removed one's place. -/
def removeField (key : String) (fields : Fields) : Fields :=
  match fields.findIdx? (fun field => field.1 = key), fields.getLast? with
  | some position, some last => (fields.set position last).dropLast
  | _, _ => fields

mutual

/-- Equality of values: objects are compared without their order. -/
def same : JsonValue → JsonValue → Bool
  | null, null => true
  | bool value, bool other => value == other
  | number text, number other => text == other
  | string text, string other => text == other
  | array items, array others => sameItems items others
  | object fields, object others =>
    fields.length == others.length && sameFields fields others
  | _, _ => false

def sameItems : List JsonValue → List JsonValue → Bool
  | [], [] => true
  | item :: items, other :: others => item.same other && sameItems items others
  | _, _ => false

def sameFields : Fields → Fields → Bool
  | [], _ => true
  | (key, value) :: rest, others =>
    (match others.lookup key with
      | some other => value.same other
      | none => false) && sameFields rest others

end

@[simp]
theorem get_object (key : String) (fields : Fields) :
    (object fields).get key = (fields.lookup key).getD null := rfl

theorem lookup_cons_eq_ite (key other : String) (value : JsonValue) (fields : Fields) :
    List.lookup other ((key, value) :: fields) =
      if other = key then some value else fields.lookup other := by
  by_cases same : other = key
  · simp [same]
  · rw [List.lookup_cons, beq_eq_false_iff_ne.mpr same, if_neg same]

@[simp]
theorem lookup_insertField (key other : String) (value : JsonValue) (fields : Fields) :
    (insertField key value fields).lookup other =
      if other = key then some value else fields.lookup other := by
  induction fields with
  | nil => exact lookup_cons_eq_ite key other value []
  | cons field rest ih =>
    obtain ⟨held, old⟩ := field
    by_cases here : held = key
    · subst here
      rw [insertField, if_pos rfl, lookup_cons_eq_ite, lookup_cons_eq_ite]
      grind
    · rw [insertField, if_neg here, lookup_cons_eq_ite, lookup_cons_eq_ite, ih]
      grind

end JsonValue
