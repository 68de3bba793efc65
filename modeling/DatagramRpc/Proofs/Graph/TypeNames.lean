import DatagramRpc.Graph.Schema
import DatagramRpc.Proofs.Failure
import Mathlib.Data.List.Basic
import Mathlib.Data.List.TakeWhile
import Mathlib.Tactic.SplitIfs

/-!
# Type names that are read

A type is read from no other name than its own. So the name of a field's type in a frame is settled
by the type that the receiver has read from it.

Not every type is read from its own name. A composite type may be called what a primitive is called,
or what an array is called; inside an array, where primitives have letters, only the empty name and
the name of the text type are taken. Which types are read back is told by `Nameable`, and there are
no others.
-/

namespace DatagramRpc.FieldType

variable {t leaf : FieldType} {s : String} {cs : List Char}

private theorem toList_descriptor_nested (t : FieldType) (n : Nat) :
    (nested t n).descriptor.toList = List.replicate n '[' ++ t.descriptor.toList := by
  induction n with
  | zero => rfl
  | succ n ih =>
    rw [nested, descriptor, String.toList_append, ih, List.replicate_succ, List.cons_append]
    rfl

/-- The descriptor of a leaf is what the leaf was read from. -/
theorem descriptor_of_leaf (h : ofLeafDescriptor cs = some leaf) : leaf.descriptor.toList = cs := by
  unfold ofLeafDescriptor at h
  split at h
  case h_6 rest =>
    split at h
    · next hend =>
      have hrest : rest.dropLast ++ [';'] = rest := List.dropLast_append_getLast? ';' hend.1
      have hname : (String.ofList rest.dropLast).toList = rest.dropLast := String.toList_ofList
      have hobject : ("L" ++ String.ofList rest.dropLast ++ ";").toList = 'L' :: rest := by
        rw [String.toList_append, String.toList_append, hname]
        show 'L' :: (rest.dropLast ++ [';']) = _
        rw [hrest]
      simp only [Option.some_inj] at h
      split at h
      · next htext =>
        subst h
        rw [descriptor, ← htext, hobject]
      · subst h
        rw [descriptor, hobject]
    · cases h
  case h_7 => cases h
  all_goals
    cases h
    rfl

/-- The name of an array type is its descriptor. -/
theorem wireName_nested {n : Nat} (h : 0 < n) (t : FieldType) :
    (nested t n).wireName = (nested t n).descriptor := by
  cases n with
  | zero => exact absurd h (Nat.lt_irrefl 0)
  | succ n => rfl

private theorem wireName_of_ofDescriptor (h : ofDescriptor s = .ok t)
    (hs : s.toList.head? = some '[') : t.wireName = s := by
  obtain ⟨rest, hrest⟩ := List.takeWhile_prefix (fun c : Char => decide (c = '[')) (l := s.toList)
  have hbrackets : ∀ c ∈ s.toList.takeWhile (· = '['), c = '[' := fun c hc => by
    simpa using List.mem_takeWhile_imp hc
  have hone : 0 < (s.toList.takeWhile (· = '[')).length := by
    obtain ⟨cs, hcs⟩ := List.head?_eq_some_iff.mp hs
    rw [hcs, List.takeWhile_cons_of_pos (by simp), List.length_cons]
    exact Nat.succ_pos _
  rw [ofDescriptor] at h
  generalize s.toList.takeWhile (fun c => decide (c = '[')) = brackets at hrest hbrackets hone h
  split at h
  · cases h
  · split at h
    · next leaf hleaf =>
      cases h
      rw [← hrest, List.drop_left] at hleaf
      rw [wireName_nested hone]
      apply String.toList_inj.mp
      rw [toList_descriptor_nested, descriptor_of_leaf hleaf,
        ← List.eq_replicate_of_mem hbrackets, hrest]
    · cases h

/-- **A type is read from its own name only.** -/
theorem wireName_of_ofWireName (h : ofWireName s = .ok t) : t.wireName = s := by
  rw [ofWireName] at h
  split_ifs at h with _ hbool hbyte hint hlong hdouble htext harray
  · cases h
    exact hbool.symm
  · cases h
    exact hbyte.symm
  · cases h
    exact hint.symm
  · cases h
    exact hlong.symm
  · cases h
    exact hdouble.symm
  · cases h
    exact htext.symm
  · exact wireName_of_ofDescriptor h harray
  · cases h
    rfl

/-! ## Types that are read from their own names -/

/-- The names that are words of their own. -/
def words : List String := ["boolean", "byte", "int", "long", "double", textName]

/-- A leaf that its letters in a descriptor tell from all others. -/
def NameableLeaf : FieldType → Prop
  | object name => name ≠ "" ∧ name ≠ textName
  | _ => True

/-- A type that its name tells from all others. -/
def Nameable : FieldType → Prop
  | object name => name ≠ "" ∧ name.toList.head? ≠ some '[' ∧ name ∉ words
  | array element => (array element).nesting ≤ nestingLimit ∧ (array element).leaf.NameableLeaf
  | _ => True

instance : DecidablePred NameableLeaf := fun t =>
  match t with
  | object name => inferInstanceAs (Decidable (name ≠ "" ∧ name ≠ textName))
  | bool | byte | int | long | double | text | array _ => .isTrue trivial

instance : DecidablePred Nameable := fun t =>
  match t with
  | object name =>
    inferInstanceAs (Decidable (name ≠ "" ∧ name.toList.head? ≠ some '[' ∧ name ∉ words))
  | array element =>
    inferInstanceAs (Decidable ((array element).nesting ≤ nestingLimit ∧
      (array element).leaf.NameableLeaf))
  | bool | byte | int | long | double | text => .isTrue trivial

private theorem leaf_ne_array (t element : FieldType) : t.leaf ≠ array element := by
  induction t with
  | array inner ih => exact ih
  | _ => simp [leaf]

/-- No leaf begins with a bracket. -/
theorem descriptor_head (t : FieldType) : ∃ c cs, c ≠ '[' ∧ t.leaf.descriptor.toList = c :: cs := by
  induction t with
  | array element ih => exact ih
  | object name =>
    refine ⟨'L', name.toList ++ [';'], by decide, ?_⟩
    show ("L" ++ name ++ ";").toList = _
    rw [String.toList_append, String.toList_append]
    rfl
  | text => exact ⟨'L', (textName ++ ";").toList, by decide, rfl⟩
  | bool => exact ⟨'Z', [], by decide, rfl⟩
  | byte => exact ⟨'B', [], by decide, rfl⟩
  | int => exact ⟨'I', [], by decide, rfl⟩
  | long => exact ⟨'J', [], by decide, rfl⟩
  | double => exact ⟨'D', [], by decide, rfl⟩

/-- What stands between the letter and the semicolon is the name of a composite type, unless it is
that of the text type. -/
theorem ofLeafDescriptor_object (name : String) : ofLeafDescriptor (object name).descriptor.toList =
    if name = "" then none else some (if name = textName then text else object name) := by
  have hchars : (object name).descriptor.toList = 'L' :: (name.toList ++ [';']) := by
    rw [descriptor, String.toList_append, String.toList_append]
    rfl
  have hlength : (name.toList ++ [';']).length = 1 ↔ name = "" := by
    rw [List.length_append, List.length_singleton, Nat.add_eq_right, List.length_eq_zero_iff,
      String.toList_eq_nil_iff]
  rw [hchars, ofLeafDescriptor]
  simp only [List.getLast?_concat, List.dropLast_concat, String.ofList_toList, ne_eq, hlength,
    true_and, ite_not]

private theorem ofLeafDescriptor_iff (ht : ∀ element, t ≠ array element) :
    ofLeafDescriptor t.descriptor.toList = some t ↔ t.NameableLeaf := by
  cases t with
  | array element => exact absurd rfl (ht element)
  | object name =>
    rw [ofLeafDescriptor_object]
    by_cases hempty : name = ""
    · simp [hempty, NameableLeaf]
    · by_cases htext : name = textName <;> simp [hempty, htext, NameableLeaf]
  | _ => exact ⟨fun _ => trivial, fun _ => rfl⟩

private theorem nested_inj {t t' : FieldType} {n : Nat} : nested t n = nested t' n ↔ t = t' := by
  induction n with
  | zero => exact Iff.rfl
  | succ n ih => exact (array.injEq _ _).to_iff.trans ih

private theorem toList_descriptor (t : FieldType) :
    t.descriptor.toList = List.replicate t.nesting '[' ++ t.leaf.descriptor.toList := by
  rw [← toList_descriptor_nested, nested_leaf]

/-- A descriptor is read back, if there are not too many brackets and the leaf is read back. -/
theorem ofDescriptor_iff (t : FieldType) :
    ofDescriptor t.descriptor = .ok t ↔ t.nesting ≤ nestingLimit ∧ t.leaf.NameableLeaf := by
  obtain ⟨c, cs, hc, hleaf⟩ := descriptor_head t
  have hbrackets : t.descriptor.toList.takeWhile (· = '[') = List.replicate t.nesting '[' := by
    rw [toList_descriptor, hleaf, List.takeWhile_append_of_pos (by simp),
      List.takeWhile_cons_of_neg (by simpa using hc),
      List.append_nil]
  have hrest : t.descriptor.toList.drop t.nesting = t.leaf.descriptor.toList := by
    rw [toList_descriptor]
    exact List.drop_left' List.length_replicate
  have hsame (leaf : FieldType) : nested leaf t.nesting = t ↔ leaf = t.leaf := by
    refine Iff.trans ?_ (nested_inj (n := t.nesting))
    rw [nested_leaf]
  rw [ofDescriptor]
  simp only [hbrackets, List.length_replicate, hrest, ← ofLeafDescriptor_iff (leaf_ne_array t)]
  by_cases hdeep : nestingLimit < t.nesting
  · simp [hdeep, Nat.not_le_of_lt hdeep]
  · cases ofLeafDescriptor t.leaf.descriptor.toList with
    | none => simp [hdeep]
    | some leaf => simp [hdeep, hsame, Nat.le_of_not_lt hdeep]

/-- A name of brackets and a leaf is that of an array type. -/
theorem array_of_ofDescriptor (h : ofDescriptor s = .ok t) (hs : s.toList.head? = some '[') :
    ∃ element, t = array element := by
  obtain ⟨cs, hcs⟩ := List.head?_eq_some_iff.mp hs
  rw [ofDescriptor, hcs, List.takeWhile_cons_of_pos (by simp), List.length_cons] at h
  split at h
  · cases h
  · split at h
    · cases h
      exact ⟨_, rfl⟩
    · cases h

/-- A composite type is read from any name that stands for nothing else. -/
theorem ofWireName_object_iff (name : String) :
    ofWireName name = .ok (object name) ↔
    name ≠ "" ∧ name.toList.head? ≠ some '[' ∧ name ∉ words := by
  have hbracket : name.toList.head? = some '[' → ofDescriptor name ≠ .ok (object name) := by
    intro hs h
    obtain ⟨element, helement⟩ := array_of_ofDescriptor h hs
    cases helement
  simp only [words, List.mem_cons, List.not_mem_nil, or_false, not_or]
  rw [ofWireName]
  split_ifs <;> simp_all

/-- An array type is read from its name if its descriptor is read back. -/
theorem ofWireName_array (element : FieldType) :
    ofWireName (array element).wireName = ofDescriptor (array element).descriptor := by
  have hhead : (array element).descriptor.toList.head? = some '[' := by
    rw [descriptor, String.toList_append]
    rfl
  have hother : ∀ word : String, word.toList.head? ≠ some '[' → (array element).descriptor ≠ word :=
    fun word hword he => hword (he ▸ hhead)
  rw [wireName, ofWireName, if_neg (hother "" (by decide)), if_neg (hother "boolean" (by decide)),
    if_neg (hother "byte" (by decide)), if_neg (hother "int" (by decide)),
    if_neg (hother "long" (by decide)),
    if_neg (hother "double" (by decide)), if_neg (hother textName (by decide)), if_pos hhead]

/-- **A type is read from its own name or not at all**, and those that are read from their own names
are the nameable ones. -/
theorem read_from_own_name (s : String) (t : FieldType) :
    (ofWireName s = .ok t → t.wireName = s) ∧ (ofWireName t.wireName = .ok t ↔ t.Nameable) := by
  refine ⟨wireName_of_ofWireName, ?_⟩
  cases t with
  | object name => exact ofWireName_object_iff name
  | array element =>
    rw [ofWireName_array]
    exact ofDescriptor_iff _
  | _ => exact ⟨fun _ => trivial, fun _ => rfl⟩

/-- A composite type that is called byte can be named in an array, but not by itself. -/
theorem read_from_own_name_sample :
    ofWireName "[[Lbyte;" = .ok (nested (object "byte") 2) ∧
    (nested (object "byte") 2).wireName = "[[Lbyte;" ∧
      (nested (object "byte") 2).Nameable ∧ ofWireName (object "byte").wireName ≠
        .ok (object "byte") := by
  have hread : ofWireName "[[Lbyte;" = .ok (nested (object "byte") 2) :=
    ok_of_toOption (by decide +kernel)
  obtain ⟨hname, harray⟩ := read_from_own_name "[[Lbyte;" (nested (object "byte") 2)
  obtain ⟨-, hself⟩ := read_from_own_name "byte" (object "byte")
  refine ⟨hread, hname hread, harray.mp ?_, fun h => ?_⟩
  · rwa [hname hread]
  · have hnot : ¬ (object "byte").Nameable := by decide +kernel
    exact hnot (hself.mp h)

end DatagramRpc.FieldType
