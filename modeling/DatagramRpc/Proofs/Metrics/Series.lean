import DatagramRpc.Metrics.Rpc
import DatagramRpc.Proofs.Lookup
import Mathlib.Data.List.Induction
import Mathlib.Data.Prod.Lex
import Mathlib.Data.String.Basic
import Mathlib.Data.UInt

/-!
# Series and their labels

The sorted order of labels does not depend on the order in which they were given, so label lists
share a series exactly if one is a permutation of the other. A series holds what was gathered under
its labels, one thing after another, and there is one for every label set that was ever used.
-/

namespace DatagramRpc.Metrics

/-! ## Labels in order -/

private theorem labelLe_iff {a b : String × String} : labelLe a b = true ↔ toLex a ≤ toLex b := by
  simp [labelLe, Prod.Lex.toLex_le_toLex]

namespace Labels

variable {a b : Labels}

theorem key_perm (a : Labels) : a.key.Perm a := List.mergeSort_perm ..

private theorem key_sorted (a : Labels) : a.key.Pairwise fun l m => toLex l ≤ toLex m := by
  have hsort : a.key.Pairwise fun l m => labelLe l m = true := by
    refine List.pairwise_mergeSort (fun l m n hlm hmn => ?_) (fun l m => ?_) _
    · exact labelLe_iff.mpr ((labelLe_iff.mp hlm).trans (labelLe_iff.mp hmn))
    · simp only [Bool.or_eq_true, labelLe_iff]
      exact le_total _ _
  simpa only [labelLe_iff] using hsort

/-- Sorting makes one list of all permutations. -/
theorem key_eq_iff : a.key = b.key ↔ a.Perm b := by
  constructor
  · intro h
    exact (key_perm a).symm.trans (h ▸ key_perm b)
  · intro h
    have hperm : a.key.Perm b.key := (key_perm a).trans (h.trans (key_perm b).symm)
    refine hperm.eq_of_pairwise (fun l m _ _ hlm hml => ?_) (key_sorted a) (key_sorted b)
    exact toLex.injective (le_antisymm hlm hml)

private theorem key_key (a : Labels) : a.key.key = a.key := key_eq_iff.mpr (key_perm a)

end Labels

/-! ## One more thing under some labels -/

namespace Series

variable {α β : Type} {s : Series α} {labels : Labels} {initial : α}

private theorem any_key_iff {key : Labels} :
    (s.any fun e => e.1 == key) = true ↔ key ∈ s.map (·.1) := by
  simp only [List.any_eq_true, beq_iff_eq, List.mem_map]

private theorem get?_eq_none_iff : s.get? labels = none ↔ labels.key ∉ s.map (·.1) := by
  rw [get?, Option.map_eq_none_iff, List.find?_eq_none, ← any_key_iff, List.any_eq_true, not_exists]
  exact forall_congr' fun e => not_and.symm

private theorem get?_update (s : Series α) (initial : α) (labels other : Labels) (f : α → α) :
    (s.update initial labels f).get? other =
      if labels.Perm other then some (f ((s.get? labels).getD initial)) else s.get? other := by
  rw [← if_congr (Labels.key_eq_iff (a := labels) (b := other)) rfl rfl]
  simp only [update]
  split
  · next hthere =>
    have hkeep : ((fun e : Labels × α => e.1 == other.key) ∘
        fun e => if e.1 = labels.key then (e.1, f e.2) else e) = fun e => e.1 == other.key := by
      funext e
      simp only [Function.comp_apply]
      split <;> rfl
    rw [get?, List.find?_map, hkeep]
    cases hfind : s.find? fun e => e.1 == other.key with
    | none =>
      have hne : labels.key ≠ other.key := by
        intro hkey
        have hmissing : s.get? labels = none := by rw [get?, hkey, hfind]; rfl
        exact get?_eq_none_iff.mp hmissing (any_key_iff.mp hthere)
      rw [if_neg hne, get?, hfind]
      rfl
    | some e =>
      have hkey : e.1 = other.key := by simpa using List.find?_some hfind
      by_cases h : labels.key = other.key
      · rw [if_pos h, get?, h, hfind]
        simp [hkey]
      · rw [if_neg h, get?, hfind]
        simp [hkey, Ne.symm h]
  · next hnew =>
    have hmissing : s.get? labels = none := get?_eq_none_iff.mpr fun h => hnew (any_key_iff.mpr h)
    rw [hmissing, get?, get?, List.find?_append]
    by_cases h : labels.key = other.key
    · have hother : (s.find? fun e => e.1 == other.key) = none := by
        rw [← h]
        exact Option.map_eq_none_iff.mp hmissing
      simp [h, hother]
    · simp [h]

/-- A label set that is new has its series after the others. -/
theorem keys_update (s : Series α) (initial : α) (labels : Labels) (f : α → α) :
    (s.update initial labels f).map (·.1) =
      if labels.key ∈ s.map (·.1) then s.map (·.1) else s.map (·.1) ++ [labels.key] := by
  rw [← if_congr any_key_iff rfl rfl]
  simp only [update]
  split
  · rw [List.map_map]
    refine List.map_congr_left fun e _ => ?_
    simp only [Function.comp_apply]
    split <;> rfl
  · rw [List.map_append, List.map_singleton]

private theorem nodup_update (h : (s.map (·.1)).Nodup) (initial : α) (labels : Labels) (f : α → α) :
    ((s.update initial labels f).map (·.1)).Nodup := by
  rw [keys_update]
  split
  · exact h
  · next hnew => exact nodup_concat_of_notMem h hnew

/-! ## All that is gathered -/

/-- What was used under these labels, in any order of the labels. -/
def under (labels : Labels) (uses : List (Labels × β)) : List β :=
  (uses.filter fun u => decide (u.1.Perm labels)).map (·.2)

/-- The series after some uses, one after another. -/
def gathered (initial : α) (step : α → β → α) (uses : List (Labels × β)) : Series α :=
  uses.foldl (fun s u => s.update initial u.1 (step · u.2)) []

variable {step : α → β → α} {uses : List (Labels × β)}

theorem gathered_concat (initial : α) (step : α → β → α) (uses : List (Labels × β))
    (u : Labels × β) :
    gathered initial step (uses ++ [u]) =
      (gathered initial step uses).update initial u.1 (step · u.2) :=
  List.foldl_concat ..

private theorem under_concat (labels : Labels) (uses : List (Labels × β)) (u : Labels × β) :
    under labels (uses ++ [u]) = under labels uses ++ if u.1.Perm labels then [u.2] else [] := by
  rw [under, List.filter_append, List.map_append, under]
  by_cases h : u.1.Perm labels <;> simp [h]

theorem length_under_le (labels : Labels) (uses : List (Labels × β)) :
    (under labels uses).length ≤ uses.length := by
  rw [under, List.length_map]
  exact List.length_filter_le ..

theorem get?_gathered (initial : α) (step : α → β → α) (uses : List (Labels × β))
    (labels : Labels) :
    (gathered initial step uses).get? labels =
      if under labels uses = [] then none else some ((under labels uses).foldl step initial) := by
  induction uses using List.reverseRecOn with
  | nil => rfl
  | append_singleton uses u ih =>
    rw [gathered_concat, get?_update, under_concat]
    by_cases h : u.1.Perm labels
    · have hsame : (gathered initial step uses).get? u.1 =
          (gathered initial step uses).get? labels := by
        rw [get?, get?, Labels.key_eq_iff.mpr h]
      rw [if_pos h, if_pos h, if_neg (by simp), hsame, ih, List.foldl_append]
      split
      · next hnone => simp [hnone]
      · rfl
    · rw [if_neg h, if_neg h, List.append_nil, ih]

theorem nodup_gathered (initial : α) (step : α → β → α) (uses : List (Labels × β)) :
    ((gathered initial step uses).map (·.1)).Nodup := by
  induction uses using List.reverseRecOn with
  | nil => exact .nil
  | append_singleton uses u ih =>
    rw [gathered_concat]
    exact nodup_update ih _ _ _

/-- There is a series for every label set that was used, and for no other. -/
theorem mem_keys_gathered {key : Labels} :
    key ∈ (gathered initial step uses).map (·.1) ↔ ∃ u ∈ uses, u.1.key = key := by
  induction uses using List.reverseRecOn with
  | nil => simp [gathered]
  | append_singleton uses u ih =>
    have hnext : (∃ v ∈ uses ++ [u], v.1.key = key) ↔
        key ∈ (gathered initial step uses).map (·.1) ∨ u.1.key = key := by
      simp only [List.mem_append, List.mem_singleton, or_and_right, exists_or, exists_eq_left, ih]
    rw [hnext, gathered_concat, keys_update]
    split
    · next hthere => exact (or_iff_left_of_imp fun h => h ▸ hthere).symm
    · rw [List.mem_append, List.mem_singleton, eq_comm (a := key)]

theorem used_iff_key {labels : Labels} : (∃ u ∈ uses, u.1.Perm labels) ↔
    ∃ key ∈ (gathered initial step uses).map (·.1), key.Perm labels := by
  constructor
  · rintro ⟨u, hu, hperm⟩
    exact ⟨u.1.key, mem_keys_gathered.mpr ⟨u, hu, rfl⟩, u.1.key_perm.trans hperm⟩
  · rintro ⟨key, hkey, hperm⟩
    obtain ⟨u, hu, rfl⟩ := mem_keys_gathered.mp hkey
    exact ⟨u, hu, u.1.key_perm.symm.trans hperm⟩

/-- No two series are of the same label set. -/
theorem keys_apart (initial : α) (step : α → β → α) (uses : List (Labels × β)) :
    ((gathered initial step uses).map (·.1)).Pairwise fun a b => ¬ a.Perm b := by
  refine (nodup_gathered initial step uses).imp_of_mem fun ha hb hne hperm => hne ?_
  obtain ⟨u, -, rfl⟩ := mem_keys_gathered.mp ha
  obtain ⟨v, -, rfl⟩ := mem_keys_gathered.mp hb
  rw [← u.1.key_key, ← v.1.key_key]
  exact Labels.key_eq_iff.mpr hperm

/-- A series holds all that was used under its labels. -/
theorem eq_of_mem_gathered {e : Labels × α} (he : e ∈ gathered initial step uses) :
    e.2 = (under e.1 uses).foldl step initial := by
  obtain ⟨u, hu, hkey⟩ := mem_keys_gathered.mp (List.mem_map_of_mem (f := (·.1)) he)
  have hown : e.1.key = e.1 := hkey ▸ Labels.key_key u.1
  have hget : (gathered initial step uses).get? e.1 = some e.2 := by
    rw [get?, hown, find?_of_nodup (nodup_gathered initial step uses) he]
    rfl
  rw [get?_gathered] at hget
  split at hget
  · cases hget
  · exact (Option.some.inj hget).symm

/-- What is added to a series is added to the sum of all. -/
theorem sum_update {s : Series UInt64} (h : (s.map (·.1)).Nodup) (labels : Labels) (n : UInt64) :
    ((s.update 0 labels (· + n)).map (·.2)).sum = (s.map (·.2)).sum + n := by
  simp only [update]
  split
  · next hthere =>
    obtain ⟨e, he, hkey⟩ := List.mem_map.mp (any_key_iff.mp hthere)
    obtain ⟨before, after, rfl⟩ := List.append_of_mem he
    rw [List.map_append, List.map_cons] at h
    have hother : ∀ d ∈ before ++ after, d.1 ≠ labels.key := by
      rintro d hd hd'
      refine (List.nodup_cons.mp (List.nodup_middle.mp h)).1 ?_
      rw [← List.map_append, hkey, ← hd']
      exact List.mem_map_of_mem hd
    have hkeep : ∀ l : Series UInt64, (∀ d ∈ l, d.1 ≠ labels.key) →
        l.map (fun d => if d.1 = labels.key then (d.1, d.2 + n) else d) = l := by
      intro l hl
      refine (List.map_congr_left fun d hd => ?_).trans (List.map_id l)
      rw [if_neg (hl d hd), id]
    rw [List.map_append, List.map_cons, if_pos hkey,
      hkeep before fun d hd => hother d (List.mem_append_left _ hd),
      hkeep after fun d hd => hother d (List.mem_append_right _ hd)]
    simp only [List.map_append, List.map_cons, List.sum_append, List.sum_cons]
    ac_rfl
  · simp

end Series

/-! ## Counters and histograms -/

theorem Counter.get_add (c : Counter) (labels other : Labels) (n : UInt64) :
    (c.add labels n).get other = c.get other + if labels.Perm other then n else 0 := by
  rw [get, add, Series.get?_update, get]
  split
  · next h =>
    have hsame : c.series.get? labels = c.series.get? other := by
      rw [Series.get?, Series.get?, Labels.key_eq_iff.mpr h]
    rw [hsame, Option.getD_some]
  · simp

theorem Rpc.counter_count (m : Rpc) (e f : Event) (labels : Labels) :
    (m.count e labels).counter f = if f = e then (m.counter f).increment labels else m.counter f :=
  m.counter_add e f labels 1

theorem Rpc.dispatchDuration_count (m : Rpc) (e : Event) (labels : Labels) :
    (m.count e labels).dispatchDuration = m.dispatchDuration := m.dispatchDuration_add e labels 1

theorem Counter.nodup_add {c : Counter} (h : (c.series.map (·.1)).Nodup) (labels : Labels)
    (n : UInt64) :
    ((c.add labels n).series.map (·.1)).Nodup := Series.nodup_update h 0 labels (· + n)

theorem Counter.sum_add {c : Counter} (h : (c.series.map (·.1)).Nodup) (labels : Labels)
    (n : UInt64) : ((c.add labels n).series.map (·.2)).sum = (c.series.map (·.2)).sum + n :=
  Series.sum_update h labels n

theorem Histogram.count_observe (h : Histogram) (labels other : Labels) (d : Span) :
    (h.observe labels d).count other = h.count other + if labels.Perm other then 1 else 0 := by
  rw [count, observe, Series.get?_update, count]
  split
  · next hperm =>
    have hsame : h.series.get? labels = h.series.get? other := by
      rw [Series.get?, Series.get?, Labels.key_eq_iff.mpr hperm]
    rw [hsame]
    cases h.series.get? other <;> rfl
  · simp

end DatagramRpc.Metrics
