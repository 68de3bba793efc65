import Mathlib.Data.List.Nodup

/-!
# Looking up by a key

Lists in which every element has a key of its own.
-/

namespace DatagramRpc

variable {α κ : Type} {key : α → κ} {l : List α} {a : α}

/-- Where keys are unique, an element is found by its key. -/
theorem find?_of_nodup [BEq κ] [LawfulBEq κ] (hn : (l.map key).Nodup) (ha : a ∈ l) :
    l.find? (fun x => key x == key a) = some a := by
  induction l with
  | nil => cases ha
  | cons x l ih =>
    obtain ⟨hx, hl⟩ := List.nodup_cons.mp hn
    rcases List.mem_cons.mp ha with rfl | ha
    · exact List.find?_cons_of_pos (by simp)
    · have hne : key x ≠ key a := fun he => hx (he ▸ List.mem_map_of_mem ha)
      rw [List.find?_cons_of_neg (by simpa using hne), ih hl ha]

/-- Keys stay unique when a new one comes after them. -/
theorem nodup_concat_of_notMem {keys : List κ} {k : κ} (hn : keys.Nodup) (hk : k ∉ keys) :
    (keys ++ [k]).Nodup := by
  rw [← List.concat_eq_append]
  exact hn.concat hk

/-- Keys that are unique and not among those seen before, one after another. -/
theorem nodup_unseen_cons_iff {seen : List κ} :
    ((a :: l).map key).Nodup ∧ (∀ b ∈ a :: l, key b ∉ seen) ↔
      key a ∉ seen ∧ (l.map key).Nodup ∧ ∀ b ∈ l, key b ∉ key a :: seen := by
  have hown : key a ∉ l.map key ↔ ∀ b ∈ l, key b ≠ key a := by
    simp only [List.mem_map, not_exists, not_and, ne_eq]
  rw [List.map_cons, List.nodup_cons, List.forall_mem_cons, hown]
  simp only [List.mem_cons, not_or, forall_and]
  constructor
  · rintro ⟨⟨hapart, hnodup⟩, hseen, hothers⟩
    exact ⟨hseen, hnodup, hapart, hothers⟩
  · rintro ⟨hseen, hnodup, hapart, hothers⟩
    exact ⟨⟨hapart, hnodup⟩, hseen, hothers⟩

end DatagramRpc
