import Mathlib.Data.List.Basic
import Mathlib.Data.List.Forall2
import Mathlib.Data.Rat.Defs
import Mathlib.Algebra.Group.Nat.Defs

/-! Lazy reading of JSON text: values are looked at where they are asked for,
and each access has its own result or error. -/

inductive Json
  | null
  | bool (value : Bool)
  | integer (negative : Bool) (magnitude : Nat)
  | real (value : Rat)
  | string (text : String)
  | array (items : List Json)
  | object (fields : List (String × Json))

/-- The interface of an on-demand parser. The elements of an array come one by
one, each with its own error. Looking a key up moves the object's read position. -/
structure OnDemand (Error Value Object : Type) where
  iterate : String → Except Error Value
  getObject : Value → Except Error Object
  getArray : Value → Except Error (List (Except Error Value))
  getString : Value → Except Error String
  getUint64 : Value → Except Error Nat
  findField : Object → String → Except Error Value × Object

namespace OnDemand

/-- The types that a field may be asked for. -/
inductive FieldKind
  | uint64
  | string
deriving DecidableEq, Repr

variable {Error Value Object : Type} (json : OnDemand Error Value Object)

/-- `object[key].get_string()`. -/
def readString (object : Object) (key : String) : Except Error String × Object :=
  ((json.findField object key).1 >>= json.getString, (json.findField object key).2)

/-- `object[key].get_uint64()`. -/
def readUint64 (object : Object) (key : String) : Except Error Nat × Object :=
  ((json.findField object key).1 >>= json.getUint64, (json.findField object key).2)

/-- `object[key].get_object()`. -/
def readObject (object : Object) (key : String) : Except Error Object × Object :=
  ((json.findField object key).1 >>= json.getObject, (json.findField object key).2)

/-- `object[key].get_array()`. -/
def readArray (object : Object) (key : String) : Except Error (List (Except Error Value)) × Object :=
  ((json.findField object key).1 >>= json.getArray, (json.findField object key).2)

/-- `item[key]` where the item may be an error itself, and what is read of the value. -/
def lookup {α : Type} (item : Except Error Object) (key : String) (read : Value → Except Error α) :
    Except Error α × Except Error Object :=
  match item with
  | .error error => (.error error, .error error)
  | .ok object => ((json.findField object key).1 >>= read, .ok (json.findField object key).2)

theorem readString_snd (object : Object) (key : String) :
    (json.readString object key).2 = (json.findField object key).2 :=
  rfl

theorem readUint64_snd (object : Object) (key : String) :
    (json.readUint64 object key).2 = (json.findField object key).2 :=
  rfl

/-- The object has the field, with a value of that kind. -/
def Offers (object : Object) (key : String) : FieldKind → Prop
  | .uint64 => ∃ n, (json.readUint64 object key).1 = .ok n
  | .string => ∃ text, (json.readString object key).1 = .ok text

/-- The fields are all there when they are looked up one after another. -/
def OffersAll (object : Object) : List (String × FieldKind) → Prop
  | [] => True
  | (key, kind) :: fields => json.Offers object key kind ∧ OffersAll (json.findField object key).2 fields

/-- What the parser promises of text that is JSON: `writes` relates a document
to its texts, `shows` to the values it is seen through, and `opens` its fields
to an object at any read position. -/
structure Faithful (json : OnDemand Error Value Object) (writes : Json → String → Prop)
    (shows : Json → Value → Prop) (opens : List (String × Json) → Object → Prop) : Prop where
  iterate {document text} : writes document text → ∃ value, json.iterate text = .ok value ∧ shows document value
  string {text value} : shows (.string text) value → json.getString value = .ok text
  uint64 {n value} : shows (.integer false n) value → n < 2 ^ 64 → json.getUint64 value = .ok n
  array {items value} : shows (.array items) value → ∃ elements, json.getArray value = .ok elements ∧
    List.Forall₂ (fun item element => ∃ value, element = .ok value ∧ shows item value) items elements
  object {fields value} : shows (.object fields) value →
    ∃ object, json.getObject value = .ok object ∧ opens fields object
  field {fields object key field} : opens fields object → (fields.map Prod.fst).Nodup →
    (key, field) ∈ fields → ∃ value, (json.findField object key).1 = .ok value ∧ shows field value
  position {fields object} (key : String) : opens fields object → opens fields (json.findField object key).2

variable {json} {writes : Json → String → Prop} {shows : Json → Value → Prop}
  {opens : List (String × Json) → Object → Prop} {fields : List (String × Json)} {object : Object} {key : String}

theorem Faithful.readString (faithful : Faithful json writes shows opens) (opened : opens fields object)
    (distinct : (fields.map Prod.fst).Nodup) {text : String} (member : (key, .string text) ∈ fields) :
    ∃ next, json.readString object key = (.ok text, next) ∧ opens fields next := by
  obtain ⟨value, found, shown⟩ := faithful.field opened distinct member
  refine ⟨_, ?_, faithful.position key opened⟩
  rw [OnDemand.readString, found]
  exact congrArg (·, _) (faithful.string shown)

theorem Faithful.readUint64 (faithful : Faithful json writes shows opens) (opened : opens fields object)
    (distinct : (fields.map Prod.fst).Nodup) {n : Nat} (member : (key, .integer false n) ∈ fields)
    (fits : n < 2 ^ 64) : ∃ next, json.readUint64 object key = (.ok n, next) ∧ opens fields next := by
  obtain ⟨value, found, shown⟩ := faithful.field opened distinct member
  refine ⟨_, ?_, faithful.position key opened⟩
  rw [OnDemand.readUint64, found]
  exact congrArg (·, _) (faithful.uint64 shown fits)

theorem Faithful.readObject (faithful : Faithful json writes shows opens) (opened : opens fields object)
    (distinct : (fields.map Prod.fst).Nodup) {inner : List (String × Json)}
    (member : (key, .object inner) ∈ fields) :
    ∃ child next, json.readObject object key = (.ok child, next) ∧ opens inner child := by
  obtain ⟨value, found, shown⟩ := faithful.field opened distinct member
  obtain ⟨child, got, childOpened⟩ := faithful.object shown
  refine ⟨child, (json.findField object key).2, ?_, childOpened⟩
  rw [OnDemand.readObject, found]
  exact congrArg (·, _) got

theorem Faithful.readArray (faithful : Faithful json writes shows opens) (opened : opens fields object)
    (distinct : (fields.map Prod.fst).Nodup) {items : List Json} (member : (key, .array items) ∈ fields) :
    ∃ elements next, json.readArray object key = (.ok elements, next) ∧
      List.Forall₂ (fun item element => ∃ value, element = .ok value ∧ shows item value) items elements := by
  obtain ⟨value, found, shown⟩ := faithful.field opened distinct member
  obtain ⟨elements, got, same⟩ := faithful.array shown
  refine ⟨elements, (json.findField object key).2, ?_, same⟩
  rw [OnDemand.readArray, found]
  exact congrArg (·, _) got

/-- A parser that has each document as a tree, and for text without one an error. -/
def tree (documents : String → Option Json) : OnDemand Unit Json (List (String × Json)) where
  iterate text := match documents text with
    | some document => .ok document
    | none => .error ()
  getObject
    | .object fields => .ok fields
    | _ => .error ()
  getArray
    | .array items => .ok (items.map .ok)
    | _ => .error ()
  getString
    | .string text => .ok text
    | _ => .error ()
  getUint64
    | .integer false magnitude => if magnitude < 2 ^ 64 then .ok magnitude else .error ()
    | _ => .error ()
  findField fields key := match fields.lookup key with
    | some value => (.ok value, fields)
    | none => (.error (), fields)

theorem tree_findField {documents : String → Option Json} {value : Json}
    (distinct : (fields.map Prod.fst).Nodup) (member : (key, value) ∈ fields) :
    (tree documents).findField fields key = (.ok value, fields) := by
  have found : fields.lookup key = some value := by
    induction fields with
    | nil => exact absurd member List.not_mem_nil
    | cons field fields ih =>
      obtain ⟨absent, distinct⟩ := List.nodup_cons.mp distinct
      rcases List.mem_cons.mp member with rfl | later
      · exact List.lookup_cons_self
      · have other : key ≠ field.1 := fun same => absent (same ▸ List.mem_map_of_mem later)
        rw [List.lookup_cons, beq_eq_false_iff_ne.mpr other]
        exact ih distinct later
  unfold tree
  simp only [found]

theorem tree_faithful (documents : String → Option Json) :
    Faithful (tree documents) (fun document text => documents text = some document)
      (fun document value => value = document) (fun fields object => object = fields) where
  iterate {document text} same := ⟨document, by simp only [tree, same], rfl⟩
  string same := by rw [same]; rfl
  uint64 same fits := by rw [same]; exact if_pos fits
  array {items value} same := by
    refine ⟨_, by rw [same]; rfl, ?_⟩
    rw [List.forall₂_map_right_iff]
    exact List.forall₂_same.mpr fun item _ => ⟨item, rfl, rfl⟩
  object same := ⟨_, by rw [same]; rfl, rfl⟩
  field {fields object key field} same distinct member :=
    ⟨field, by rw [same, tree_findField distinct member], rfl⟩
  position {fields object} key same := by
    rw [same]
    simp only [tree]
    split <;> rfl

end OnDemand
