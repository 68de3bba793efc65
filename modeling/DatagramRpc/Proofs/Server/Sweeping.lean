import DatagramRpc.Proofs.Server.Notification
import Mathlib.Data.List.Nodup

/-!
# Sweeps are not seen

Expired subscriptions are dropped by the next sweep, and until then they are held but do not count.
Since what has expired stays expired, whoever asks at a time that no sweep was after finds all
subscriptions that were ever made and have not expired, as if nothing had been swept. A sweep drops
exactly the expired ones and tells their number. All of this holds as well of subscriptions that are
kept in a list for each resource, where a list that has become empty is dropped and may begin anew.
-/

namespace DatagramRpc

/-- Something that is done to subscriptions. -/
inductive Upkeep where
  | register (r : MonitorRecord)
  | sweep (t : Instant)

namespace Upkeep

/-- All subscriptions that are made, in their order. -/
def registered : List Upkeep → List MonitorRecord
  | [] => []
  | .register r :: later => r :: registered later
  | .sweep _ :: later => registered later

/-- It drops no such subscription. -/
def spares (r : MonitorRecord) : Upkeep → Bool
  | .register _ => true
  | .sweep t => !r.isExpired t

/-- The subscriptions that no later sweep has found expired, in their order. -/
def held : List Upkeep → List MonitorRecord
  | [] => []
  | .register r :: later => if later.all (spares r) then r :: held later else held later
  | .sweep _ :: later => held later

end Upkeep

open Upkeep

/-! ## One list of all subscriptions -/

namespace Registry

variable {g : Registry} {resource : String} {now t : Instant} {uses : List Upkeep}

def upkeep (g : Registry) : Upkeep → Registry
  | .register r => g.register r
  | .sweep t => g.sweep t

def after (g : Registry) (uses : List Upkeep) : Registry := uses.foldl upkeep g

private theorem live_register (g : Registry) (r : MonitorRecord) (resource : String)
    (now : Instant) :
    (g.register r).live resource now =
      g.live resource now ++ [r].filter fun r => r.resource == resource && !r.isExpired now :=
  List.filter_append ..

/-- Sweeps before a time do not change what is live then. -/
theorem live_after (h : ∀ t, Upkeep.sweep t ∈ uses → t.nanos ≤ now.nanos) (g : Registry)
    (resource : String) :
    (g.after uses).live resource now =
      g.live resource now ++ (registered uses).filter fun r => r.resource == resource &&
      !r.isExpired now := by
  induction uses generalizing g with
  | nil => exact (List.append_nil _).symm
  | cons u uses ih =>
    have hrest := ih (fun t ht => h t (List.mem_cons_of_mem _ ht)) (g.upkeep u)
    rw [after] at hrest ⊢
    rw [List.foldl_cons, hrest]
    cases u with
    | register r =>
      rw [upkeep, live_register, registered, List.append_assoc, ← List.filter_append,
        List.singleton_append]
    | sweep t => rw [upkeep, live_sweep (h t List.mem_cons_self), registered]

/-- What is held after some uses is what they have spared. -/
theorem records_after (g : Registry) (uses : List Upkeep) :
    (g.after uses).records = (g.records.filter fun r => uses.all (spares r)) ++ held uses := by
  induction uses generalizing g with
  | nil => simp [after, held]
  | cons u uses ih =>
    have hrest := ih (g.upkeep u)
    rw [after] at hrest ⊢
    rw [List.foldl_cons, hrest]
    cases u with
    | register r =>
      simp only [upkeep, register, held, List.filter_append, List.append_assoc, List.all_cons,
        spares, Bool.true_and]
      rw [List.filter_cons, List.filter_nil]
      by_cases hspared : uses.all (spares r) = true
      · simp only [if_pos hspared, List.singleton_append]
      · simp only [if_neg hspared, List.nil_append]
    | sweep t =>
      simp only [upkeep, sweep, held, List.filter_filter, List.all_cons, spares, Bool.and_comm]

private theorem size_sweep (g : Registry) (t : Instant) :
    (g.sweep t).size + g.expiredCount t = g.size := by
  simp only [size, sweep, expiredCount]
  rw [Nat.add_comm]
  exact (List.length_eq_length_filter_add _).symm

end Registry

/-! ## A list for each resource -/

/-- The subscriptions of each resource, in the order in which they were made. -/
structure Roster where
  lists : List (String × List MonitorRecord)

namespace Roster

variable {resource : String} {lists : List (String × List MonitorRecord)}

def empty : Roster := ⟨[]⟩

/-- The list of a resource among others, empty if there is none. -/
def listIn (lists : List (String × List MonitorRecord)) (resource : String) : List MonitorRecord :=
  ((lists.find? fun e => e.1 == resource).map (·.2)).getD []

/-- Puts a subscription last in the list of its resource, which begins with it if there is none. -/
def add (r : MonitorRecord) :
    List (String × List MonitorRecord) → List (String × List MonitorRecord)
  | [] => [(r.resource, [r])]
  | (resource, rs) :: rest =>
    if resource = r.resource then (resource, rs ++ [r]) :: rest else (resource, rs) :: add r rest

/-- Takes the expired ones out of every list and counts them on the way. Lists that become empty are
dropped. -/
def sweepLists (t : Instant) :
    Nat → List (String × List MonitorRecord) → Nat × List (String × List MonitorRecord)
  | removed, [] => (removed, [])
  | removed, (resource, rs) :: rest =>
    let kept := rs.filter fun r => !r.isExpired t
    let swept := sweepLists t (removed + (rs.length - kept.length)) rest
    (swept.1, if kept.isEmpty then swept.2 else (resource, kept) :: swept.2)

def register (d : Roster) (r : MonitorRecord) : Roster := ⟨add r d.lists⟩

/-- What is left, with the number of subscriptions that were dropped. -/
def sweep (d : Roster) (t : Instant) : Nat × Roster :=
  ((sweepLists t 0 d.lists).1, ⟨(sweepLists t 0 d.lists).2⟩)

def live (d : Roster) (resource : String) (now : Instant) : List MonitorRecord :=
  (listIn d.lists resource).filter fun r => !r.isExpired now

def size (d : Roster) : Nat := d.lists.foldr (fun e n => e.2.length + n) 0

def upkeep (d : Roster) : Upkeep → Roster
  | .register r => d.register r
  | .sweep t => (d.sweep t).2

def after (d : Roster) (uses : List Upkeep) : Roster := uses.foldl upkeep d

/-! ### Lists -/

private theorem listIn_cons (e : String × List MonitorRecord) (resource : String) :
    listIn (e :: lists) resource = if e.1 = resource then e.2 else listIn lists resource := by
  by_cases h : e.1 = resource
  · simp [listIn, h]
  · simp [listIn, h]

private theorem listIn_of_notMem (h : resource ∉ lists.map (·.1)) : listIn lists resource = [] := by
  induction lists with
  | nil => rfl
  | cons e lists ih =>
    rw [List.map_cons, List.mem_cons, not_or] at h
    rw [listIn_cons, if_neg (Ne.symm h.1), ih h.2]

private theorem listIn_add (r : MonitorRecord) (resource : String) :
    listIn (add r lists) resource = listIn lists resource ++
      [r].filter (·.resource == resource) := by
  induction lists with
  | nil =>
    rw [add, listIn_cons]
    by_cases h : r.resource = resource
    · simp [h, listIn]
    · simp [h, listIn]
  | cons e lists ih =>
    rw [add]
    split
    · next he =>
      by_cases h : r.resource = resource
      · simp [listIn_cons, he, h]
      · simp [listIn_cons, he, h]
    · next he =>
      rw [listIn_cons, listIn_cons, ih]
      split
      · next h =>
        have hother : r.resource ≠ resource := fun hr => he (h.trans hr.symm)
        simp [hother]
      · rfl

private theorem keys_add (r : MonitorRecord) : ((add r lists).map (·.1)) =
    if r.resource ∈ lists.map (·.1) then lists.map (·.1) else lists.map (·.1) ++ [r.resource] := by
  induction lists with
  | nil => rfl
  | cons e lists ih =>
    rw [add]
    split
    · next he => simp [he]
    · next he =>
      rw [List.map_cons, ih, List.map_cons]
      have hother : r.resource ≠ e.1 := Ne.symm he
      simp only [List.mem_cons, hother, false_or]
      split <;> rfl

private theorem flatMap_add_perm (r : MonitorRecord) :
    ((add r lists).flatMap (·.2)).Perm (lists.flatMap (·.2) ++ [r]) := by
  induction lists with
  | nil => exact .refl _
  | cons e lists ih =>
    rw [add]
    split
    · rw [List.flatMap_cons, List.flatMap_cons, List.append_assoc, List.append_assoc]
      exact List.perm_append_comm.append_left _
    · rw [List.flatMap_cons, List.flatMap_cons, List.append_assoc]
      exact ih.append_left _

private theorem filled_add (h : ∀ e ∈ lists, e.2 ≠ []) : ∀ e ∈ add r lists, e.2 ≠ [] := by
  induction lists with
  | nil => simp [add]
  | cons e lists ih =>
    obtain ⟨hfirst, hothers⟩ := List.forall_mem_cons.mp h
    rw [add]
    split
    · exact List.forall_mem_cons.mpr ⟨by simp, hothers⟩
    · exact List.forall_mem_cons.mpr ⟨hfirst, ih hothers⟩

/-! ### Swept lists -/

private theorem sweepLists_snd (t : Instant) (removed : Nat)
    (lists : List (String × List MonitorRecord)) :
    (sweepLists t removed lists).2 =
      (lists.map fun e => (e.1, e.2.filter fun r => !r.isExpired t)).filter
        fun e => !e.2.isEmpty := by
  induction lists generalizing removed with
  | nil => rfl
  | cons e lists ih =>
    simp only [sweepLists, List.map_cons, List.filter_cons, ih]
    cases (e.2.filter fun r => !r.isExpired t).isEmpty <;> rfl

/-- The count is that of all expired subscriptions in all lists. -/
theorem sweepLists_fst (t : Instant) (removed : Nat) (lists : List (String × List MonitorRecord)) :
    (sweepLists t removed lists).1 = removed + (lists.flatMap (·.2)).countP (·.isExpired t) := by
  induction lists generalizing removed with
  | nil => rfl
  | cons e lists ih =>
    have hlength : e.2.length =
        e.2.countP (·.isExpired t) + (e.2.filter fun r => !r.isExpired t).length := by
      rw [List.countP_eq_length_filter]
      exact List.length_eq_length_filter_add _
    simp only [sweepLists, ih, List.flatMap_cons, List.countP_append]
    omega

private theorem flatMap_sweepLists (t : Instant) (removed : Nat)
    (lists : List (String × List MonitorRecord)) :
    (sweepLists t removed lists).2.flatMap (·.2) =
      (lists.flatMap (·.2)).filter fun r => !r.isExpired t := by
  induction lists generalizing removed with
  | nil => rfl
  | cons e lists ih =>
    simp only [sweepLists, List.flatMap_cons, List.filter_append]
    split
    · next h => rw [ih, List.isEmpty_iff.mp h, List.nil_append]
    · rw [List.flatMap_cons, ih]

private theorem keys_sweepLists (t : Instant) (removed : Nat)
    (lists : List (String × List MonitorRecord)) :
    ((sweepLists t removed lists).2.map (·.1)).Sublist (lists.map (·.1)) := by
  have hkeys : (lists.map fun e => (e.1, e.2.filter fun r => !r.isExpired t)).map
      (·.1) = lists.map (·.1) := by
    rw [List.map_map]
    rfl
  rw [sweepLists_snd, ← hkeys]
  exact List.filter_sublist.map _

/-- A resource that is there once has the rest of its list, also if nothing is left of it. -/
theorem listIn_sweepLists (hkeys : (lists.map (·.1)).Nodup) (t : Instant) (removed : Nat)
    (resource : String) :
    listIn (sweepLists t removed lists).2 resource =
      (listIn lists resource).filter fun r => !r.isExpired t := by
  induction lists generalizing removed with
  | nil => rfl
  | cons e lists ih =>
    obtain ⟨hnew, hkeys⟩ := List.nodup_cons.mp hkeys
    have hrest := ih hkeys (removed + (e.2.length - (e.2.filter fun r => !r.isExpired t).length))
    simp only [sweepLists]
    split
    · next hnone =>
      rw [hrest, listIn_cons]
      split
      · next he =>
        rw [List.isEmpty_iff.mp hnone, listIn_of_notMem (he ▸ hnew)]
        rfl
      · rfl
    · rw [listIn_cons, listIn_cons, hrest]
      split <;> rfl

/-! ### The same subscriptions -/

/-- The lists hold the subscriptions of a registry, by resource: no resource has two lists, and none
has an empty one. -/
structure Keeps (d : Roster) (g : Registry) : Prop where
  keys : (d.lists.map (·.1)).Nodup
  filled : ∀ e ∈ d.lists, e.2 ≠ []
  lists : ∀ resource, listIn d.lists resource = g.records.filter (·.resource == resource)
  all : (d.lists.flatMap (·.2)).Perm g.records

variable {d : Roster} {g : Registry}

private theorem keeps_empty : empty.Keeps .empty :=
  ⟨.nil, fun _ he => (nomatch he), fun _ => rfl, .refl _⟩

private theorem Keeps.register (h : d.Keeps g) (r : MonitorRecord) :
    (d.register r).Keeps (g.register r) where
  keys := by
    rw [Roster.register, keys_add]
    split
    · exact h.keys
    · next hnew =>
      refine List.nodup_append.mpr ⟨h.keys, List.nodup_singleton _, fun a ha b hb he => hnew ?_⟩
      rw [← List.mem_singleton.mp hb, ← he]
      exact ha
  filled := filled_add h.filled
  lists resource := by
    rw [Roster.register, listIn_add, h.lists]
    exact (List.filter_append ..).symm
  all := (flatMap_add_perm r).trans (h.all.append_right _)

private theorem Keeps.sweep (h : d.Keeps g) (t : Instant) : (d.sweep t).2.Keeps (g.sweep t) where
  keys := h.keys.sublist (keys_sweepLists t 0 d.lists)
  filled _ he := by
    rw [Roster.sweep, sweepLists_snd, List.mem_filter] at he
    simpa using he.2
  lists resource := by
    rw [Roster.sweep, listIn_sweepLists h.keys, h.lists, Registry.sweep, List.filter_filter,
      List.filter_filter]
    exact List.filter_congr fun r _ => Bool.and_comm ..
  all := by
    rw [Roster.sweep, flatMap_sweepLists]
    exact h.all.filter _

private theorem Keeps.after (h : d.Keeps g) (uses : List Upkeep) :
    (d.after uses).Keeps (g.after uses) := by
  induction uses generalizing d g with
  | nil => exact h
  | cons u uses ih =>
    cases u with
    | register r => exact ih (h.register r)
    | sweep t => exact ih (h.sweep t)

private theorem Keeps.live (h : d.Keeps g) (resource : String) (now : Instant) :
    d.live resource now = g.live resource now := by
  rw [Roster.live, h.lists, List.filter_filter, Registry.live]
  exact List.filter_congr fun r _ => Bool.and_comm ..

private theorem size_eq_length (d : Roster) : d.size = (d.lists.flatMap (·.2)).length := by
  unfold Roster.size
  induction d.lists with
  | nil => rfl
  | cons e lists ih => rw [List.foldr_cons, ih, List.flatMap_cons, List.length_append]

private theorem Keeps.size (h : d.Keeps g) : d.size = g.size := by
  rw [size_eq_length, h.all.length_eq, Registry.size]

private theorem Keeps.expiredCount (h : d.Keeps g) (t : Instant) :
    (d.sweep t).1 = g.expiredCount t := by
  rw [Roster.sweep, sweepLists_fst, Nat.zero_add, h.all.countP_eq, Registry.expiredCount,
    List.countP_eq_length_filter]

end Roster

/-! ## What a sweep does, and what it does not show -/

/-- What a sweep does to the subscriptions that are held, in one list or by resource. -/
structure SweepsExactly (held : List MonitorRecord) (g : Registry) (d : Roster) (t : Instant) :
    Prop where
  /-- It tells how many of them have expired. -/
  counts : g.expiredCount t = held.countP (·.isExpired t) ∧
    (d.sweep t).1 = held.countP (·.isExpired t)
  /-- There are that many fewer after it. -/
  sizes : (g.sweep t).size + g.expiredCount t = g.size ∧ (d.sweep t).2.size + (d.sweep t).1 = d.size
  /-- Of every resource the others are left, in their order. -/
  others : ∀ resource, (g.sweep t).records.filter (·.resource == resource) =
      held.filter (fun r => r.resource == resource && !r.isExpired t) ∧
    Roster.listIn (d.sweep t).2.lists resource = held.filter fun r =>
      r.resource == resource && !r.isExpired t
  /-- No resource keeps an empty list. -/
  filled : ∀ e ∈ (d.sweep t).2.lists, e.2 ≠ []

private theorem sweepsExactly {g : Registry} {d : Roster} (h : d.Keeps g) (t : Instant) :
    SweepsExactly g.records g d t := by
  have hswept := h.sweep t
  have hcount : g.expiredCount t = g.records.countP (·.isExpired t) :=
    List.countP_eq_length_filter.symm
  have hothers (resource : String) : (g.sweep t).records.filter (·.resource == resource) =
      g.records.filter fun r => r.resource == resource && !r.isExpired t := by
    rw [Registry.sweep, List.filter_filter]
  refine ⟨⟨hcount, (h.expiredCount t).trans hcount⟩, ⟨g.size_sweep t, ?_⟩,
    fun resource => ⟨hothers resource, ?_⟩, hswept.filled⟩
  · rw [hswept.size, h.expiredCount, g.size_sweep, h.size]
  · rw [hswept.lists, hothers]

/-- **Sweeps are not seen.** Those are live that were ever made for the resource and have not
expired, and a sweep drops exactly what has expired. -/
theorem sweeps_unseen {uses : List Upkeep} {now : Instant}
    (h : ∀ t, Upkeep.sweep t ∈ uses → t.nanos ≤ now.nanos) :
    (∀ resource,
      (Registry.empty.after uses).live resource now =
        (registered uses).filter (fun r => r.resource == resource && !r.isExpired now) ∧
      (Roster.empty.after uses).live resource now =
        (registered uses).filter fun r => r.resource == resource && !r.isExpired now) ∧
      (Registry.empty.after uses).records = held uses ∧
      (Roster.empty.after uses).size = (held uses).length ∧
      ∀ t, SweepsExactly (held uses) (Registry.empty.after uses) (Roster.empty.after uses) t := by
  have hkeeps := Roster.keeps_empty.after uses
  have hheld : (Registry.empty.after uses).records = held uses := Registry.records_after .empty uses
  have hlive (resource : String) : (Registry.empty.after uses).live resource now =
      (registered uses).filter fun r => r.resource == resource && !r.isExpired now :=
    Registry.live_after h .empty resource
  refine ⟨fun resource => ⟨hlive resource, (hkeeps.live resource now).trans (hlive resource)⟩,
    hheld, ?_, fun t => ?_⟩
  · rw [hkeeps.size, Registry.size, hheld]
  · exact hheld ▸ sweepsExactly hkeeps t

/-- A subscription of the resource with that number, made some seconds after the start for some
seconds. -/
def sampleRecord (resource : String) (id : Int32) (start seconds : Nat) : MonitorRecord :=
  ⟨resource, id, ⟨.v4 10 0 0 1, 7000⟩, ⟨start * 1000000000⟩, .ofSeconds seconds⟩

/-- The only subscription to the second resource is swept, and there is a new one, which begins
after the sweep. -/
def sampleUpkeep : List Upkeep :=
  [.register (sampleRecord "Gym" 1 0 1), .register (sampleRecord "Gym" 2 0 60),
    .register (sampleRecord "Pool" 3 0 0), .sweep ⟨5000000000⟩,
    .register (sampleRecord "Pool" 4 10 2)]

theorem sweeps_unseen_sample :
    (Roster.empty.after sampleUpkeep).live "Gym" ⟨12000000000⟩ = [sampleRecord "Gym" 2 0 60] ∧
      (Roster.empty.after sampleUpkeep).live "Pool" ⟨12000000000⟩ = [sampleRecord "Pool" 4 10 2] ∧
      (Roster.empty.after sampleUpkeep).size = 2 ∧
      ((Roster.empty.after sampleUpkeep).sweep ⟨13000000000⟩).1 = 1 ∧
      ((Roster.empty.after sampleUpkeep).sweep ⟨13000000000⟩).2.size = 1 := by
  have hsweeps : ∀ t, Upkeep.sweep t ∈ sampleUpkeep → t.nanos ≤ 12000000000 := by
    simp [sampleUpkeep]
  obtain ⟨hlive, -, hsize, hsweep⟩ := @sweeps_unseen sampleUpkeep ⟨12000000000⟩ hsweeps
  obtain ⟨⟨-, hremoved⟩, ⟨-, hsizes⟩, -, -⟩ := hsweep ⟨13000000000⟩
  have htwo : (held sampleUpkeep).length = 2 := by decide
  have hone : (held sampleUpkeep).countP (·.isExpired ⟨13000000000⟩) = 1 := by decide
  refine ⟨(hlive "Gym").2.trans (by decide), (hlive "Pool").2.trans (by decide), hsize.trans htwo,
    hremoved.trans hone, ?_⟩
  omega

end DatagramRpc
