import DatagramRpc.Fault

/-!
# Types that peers know

How types are read from their names, and the schemas that hold composite types.
-/

namespace DatagramRpc.FieldType

/-! ## Reading type names

The types that the names in the metadata of a frame stand for. A name that is no word for a
primitive and no array descriptor is that of a composite type.
-/

/-- The leaf of an array descriptor, after the brackets. -/
def ofLeafDescriptor : List Char → Option FieldType
  | ['Z'] => some bool
  | ['B'] => some byte
  | ['I'] => some int
  | ['J'] => some long
  | ['D'] => some double
  | 'L' :: rest =>
    if rest.getLast? = some ';' ∧ rest.length ≠ 1 then
      let name := String.ofList rest.dropLast
      some (if name = textName then text else object name)
    else none
  | _ => none

/-- An array descriptor: brackets, at most `nestingLimit` of them, and a leaf. -/
def ofDescriptor (s : String) : Except Fault FieldType :=
  let cs := s.toList
  let depth := (cs.takeWhile (· = '[')).length
  if nestingLimit < depth then .error (.schema (.descriptorTooDeep nestingLimit))
  else match ofLeafDescriptor (cs.drop depth) with
    | some leaf => .ok (nested leaf depth)
    | none => .error (.schema (.malformedDescriptor s))

/-- The type that a name in a frame stands for. -/
def ofWireName (s : String) : Except Fault FieldType :=
  if s = "" then .error (.schema .emptyTypeName)
  else if s = "boolean" then .ok bool
  else if s = "byte" then .ok byte
  else if s = "int" then .ok int
  else if s = "long" then .ok long
  else if s = "double" then .ok double
  else if s = textName then .ok text
  else if s.toList.head? = some '[' then ofDescriptor s
  else .ok (object s)

end DatagramRpc.FieldType

namespace DatagramRpc

/-! ## Schemas

A schema holds the composite types that a peer knows, each with its fields in order. No type in a
schema declares a field name twice. Transient fields live in memory only and never appear in a
frame.
-/

structure FieldDef where
  name : String
  type : FieldType
  transient : Bool
  deriving DecidableEq, Repr

structure TypeDef where
  name : String
  fields : List FieldDef
  deriving DecidableEq, Repr

namespace TypeDef

/-- The place of the first field of that name. -/
def indexOf? (t : TypeDef) (field : String) : Option Nat :=
  t.fields.findIdx? fun f => f.name == field

/-- The fields that appear in frames, with their places among all fields, in order. -/
def persisted (t : TypeDef) : List (FieldDef × Nat) :=
  t.fields.zipIdx.filter fun f => !f.1.transient

def persistedCount (t : TypeDef) : Nat := (t.fields.filter fun f => !f.transient).length

theorem length_persisted (t : TypeDef) : t.persisted.length = t.persistedCount := by
  suffices h : ∀ (fs : List FieldDef) (k : Nat),
      ((fs.zipIdx k).filter fun f => !f.1.transient).length =
        (fs.filter fun f => !f.transient).length from h t.fields 0
  intro fs
  induction fs with
  | nil => intro k; rfl
  | cons f fs ih =>
    intro k
    simp only [List.zipIdx_cons, List.filter_cons]
    split <;> simp [ih]

/-- The names of all fields, in order. -/
def fieldNames (t : TypeDef) : List String := t.fields.map (·.name)

end TypeDef

/-- The first name that an earlier one repeats; `seen` are the names before the list. -/
def firstRepeat (seen : List String) : List String → Option String
  | [] => none
  | x :: xs => if x ∈ seen then some x else firstRepeat (x :: seen) xs

private theorem firstRepeat_eq_none_iff {seen xs : List String} :
    firstRepeat seen xs = none ↔ xs.Nodup ∧ ∀ x ∈ xs, x ∉ seen := by
  induction xs generalizing seen with
  | nil => simp [firstRepeat]
  | cons x xs ih =>
    simp only [firstRepeat]
    split
    · next h =>
      constructor
      · intro hf; simp at hf
      · rintro ⟨_, hs⟩; exact absurd h (hs x (by simp))
    · next h =>
      rw [ih]
      simp only [List.nodup_cons, List.mem_cons]
      constructor
      · rintro ⟨hn, hs⟩
        refine ⟨⟨fun hx => hs x hx (Or.inl rfl), hn⟩, ?_⟩
        rintro y (rfl | hy)
        · exact h
        · exact fun hy' => hs y hy (Or.inr hy')
      · rintro ⟨⟨hx, hn⟩, hs⟩
        refine ⟨hn, ?_⟩
        rintro y hy (rfl | hy')
        · exact hx hy
        · exact hs y (Or.inr hy) hy'

/-- The registered types. The last registration of a name comes first and counts. -/
structure Schema where
  types : List TypeDef
  distinct : ∀ t ∈ types, t.fieldNames.Nodup

namespace Schema

def empty : Schema := ⟨[], by simp⟩

/-- Adds a type, in place of an earlier one of the same name. -/
def register (s : Schema) (t : TypeDef) : Except Fault Schema :=
  match h : firstRepeat [] t.fieldNames with
  | some field => .error (.schema (.fieldDeclaredTwice t.name field))
  | none => .ok ⟨t :: s.types, by
      intro u hu
      rcases List.mem_cons.mp hu with rfl | hu
      · exact (firstRepeat_eq_none_iff.mp h).1
      · exact s.distinct u hu⟩

def get? (s : Schema) (name : String) : Option TypeDef := s.types.find? fun t => t.name == name

def contains (s : Schema) (name : String) : Bool := (s.get? name).isSome

def resolve (s : Schema) (name : String) : Except Fault TypeDef :=
  match s.get? name with
  | some t => .ok t
  | none => .error (.schema (.unknownType name))

theorem name_of_get? {s : Schema} {name : String} {t : TypeDef} (h : s.get? name = some t) :
    t.name = name := by
  simpa using List.find?_some h

theorem mem_of_get? {s : Schema} {name : String} {t : TypeDef} (h : s.get? name = some t) :
    t ∈ s.types := List.mem_of_find?_eq_some h

end Schema

end DatagramRpc
