import DatagramRpc.Graph.ObjectGraph
import Mathlib.Data.List.Nodup

/-!
# Walks through a graph

A node refers to the nodes in its persisted fields. `Visits` gives the order in which a walk comes
upon the nodes for the first time when it goes depth first and follows the fields in the order of
their declaration. There is only one such order, and it consists of the nodes that can be reached.
-/

namespace DatagramRpc

/-- The nodes that a value refers to, in order. -/
def Value.targets : Value → List NodeId
  | .ref target => target.toList
  | .array items => items.flatMap targets
  | _ => []

/-- What a node holds in its persisted fields, in order. -/
def Node.persistedValues (s : Schema) (n : Node) : List Value :=
  match s.get? n.typeName with
  | none => []
  | some t => t.persisted.filterMap fun f => n.fields[f.2]?.map (·.2)

namespace ObjectGraph

/-- The nodes that a node refers to, in order. -/
def successors (s : Schema) (g : ObjectGraph) (id : NodeId) : List NodeId :=
  match g.get? id with
  | none => []
  | some n => (n.persistedValues s).flatMap Value.targets

/-- The nodes that can be reached through persisted fields. -/
inductive Reachable (s : Schema) (g : ObjectGraph) (root : Option NodeId) : NodeId → Prop
  | root {id : NodeId} (start : root = some id) : Reachable s g root id
  | step {id id' : NodeId} (before : Reachable s g root id) (next : id' ∈ g.successors s id) :
      Reachable s g root id'

/-- `Visits s g seen todo after`: a walk that has seen some nodes and goes on with those to do has
seen the nodes `after` when it is done. -/
inductive Visits (s : Schema) (g : ObjectGraph) : List NodeId → List NodeId → List NodeId → Prop
  | done {seen : List NodeId} : Visits s g seen [] seen
  | again {seen rest after : List NodeId} {id : NodeId} (old : id ∈ seen)
      (next : Visits s g seen rest after) : Visits s g seen (id :: rest) after
  | first {seen rest mid after : List NodeId} {id : NodeId} (new : id ∉ seen)
      (below : Visits s g (seen ++ [id]) (g.successors s id) mid)
      (next : Visits s g mid rest after) : Visits s g seen (id :: rest) after

namespace Visits

variable {s : Schema} {g : ObjectGraph} {root : Option NodeId} {seen todo mid after : List NodeId}

/-- There is only one order. -/
theorem unique {after' : List NodeId} (h : Visits s g seen todo after)
    (h' : Visits s g seen todo after') : after' = after := by
  induction h generalizing after' with
  | done =>
    cases h'
    rfl
  | again old _ ih =>
    cases h' with
    | again _ next => exact ih next
    | first new => exact absurd old new
  | first new _ _ ihBelow ih =>
    cases h' with
    | again old => exact absurd old new
    | first _ below next =>
      rw [ihBelow below] at next
      exact ih next

theorem append {rest : List NodeId} (h : Visits s g seen todo mid)
    (h' : Visits s g mid rest after) : Visits s g seen (todo ++ rest) after := by
  induction h with
  | done => exact h'
  | again old _ ih => exact .again old (ih h')
  | first new below _ _ ih => exact .first new below (ih h')

theorem isPrefix (h : Visits s g seen todo after) : seen <+: after := by
  induction h with
  | done => exact List.prefix_rfl
  | again _ _ ih => exact ih
  | first _ _ _ ihBelow ih => exact ((List.prefix_append ..).trans ihBelow).trans ih

theorem nodup (h : Visits s g seen todo after) (hs : seen.Nodup) : after.Nodup := by
  induction h with
  | done => exact hs
  | again _ _ ih => exact ih hs
  | @first seen rest mid after id new _ _ ihBelow ih =>
    refine ih (ihBelow ?_)
    rw [List.nodup_append]
    refine ⟨hs, List.nodup_singleton _, fun a ha b hb he => new ?_⟩
    rw [← List.mem_singleton.mp hb, ← he]
    exact ha

private theorem mem_of_mem (h : Visits s g seen todo after) : ∀ id ∈ todo, id ∈ after := by
  induction h with
  | done => exact fun id hid => nomatch hid
  | again old next ih =>
    intro id hid
    rcases List.mem_cons.mp hid with rfl | hid
    · exact next.isPrefix.subset old
    · exact ih id hid
  | first new below next _ ih =>
    intro id hid
    rcases List.mem_cons.mp hid with rfl | hid
    · refine next.isPrefix.subset (below.isPrefix.subset ?_)
      exact List.mem_append_right _ (List.mem_singleton_self _)
    · exact ih id hid

/-- A walk leaves nothing out. -/
theorem successors_mem (h : Visits s g seen todo after) :
    ∀ id ∈ after, id ∉ seen → ∀ id' ∈ g.successors s id, id' ∈ after := by
  induction h with
  | done => exact fun id hid hnew => absurd hid hnew
  | again _ _ ih => exact ih
  | @first seen rest mid after first new below next ihBelow ih =>
    intro id hid hnew id' hid'
    by_cases hmid : id ∈ mid
    · refine next.isPrefix.subset ?_
      by_cases he : id = first
      · subst he
        exact below.mem_of_mem id' hid'
      · refine ihBelow id hmid (fun hm => ?_) id' hid'
        rcases List.mem_append.mp hm with hm | hm
        · exact hnew hm
        · exact he (List.mem_singleton.mp hm)
    · exact ih id hid hmid id' hid'

/-- A walk comes upon nothing else. -/
theorem reachable (h : Visits s g seen todo after) (hs : ∀ id ∈ seen, Reachable s g root id)
    (ht : ∀ id ∈ todo, Reachable s g root id) : ∀ id ∈ after, Reachable s g root id := by
  induction h with
  | done => exact hs
  | again _ _ ih => exact ih hs fun id hid => ht id (List.mem_cons_of_mem _ hid)
  | @first seen rest mid after first new below next ihBelow ih =>
    have hfirst : Reachable s g root first := ht first List.mem_cons_self
    refine ih (ihBelow (fun id hid => ?_) fun id hid => .step hfirst hid) fun id hid =>
      ht id (List.mem_cons_of_mem _ hid)
    rcases List.mem_append.mp hid with hid | hid
    · exact hs id hid
    · rw [List.mem_singleton.mp hid]
      exact hfirst

/-- The order in which a walk from the root comes upon the nodes is one of the reachable nodes. -/
theorem mem_iff_reachable {order : List NodeId} (h : Visits s g [] root.toList order)
    {id : NodeId} : id ∈ order ↔ Reachable s g root id := by
  refine ⟨h.reachable (fun id hid => nomatch hid) (fun id hid => ?_) id, fun hid => ?_⟩
  · exact .root (Option.mem_toList.mp hid)
  · induction hid with
    | root start => exact h.mem_of_mem _ (Option.mem_toList.mpr start)
    | step _ next ih => exact h.successors_mem _ ih List.not_mem_nil _ next

end Visits

end ObjectGraph

end DatagramRpc
