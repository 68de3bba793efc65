import DatagramRpc.Proofs.Graph.Visits
import Mathlib.Data.Finset.Card
import Mathlib.Data.Set.Card

/-!
# How deep a walk goes

A walk meets references: absent ones, ones to a node that was seen before, and ones to a node that
begins there. Each is met at a depth, which counts the references and arrays around it. A graph may
have cycles, but a walk goes into each node only once. So from every root there is exactly one walk,
and how deep it goes is bounded by the number of nodes.
-/

namespace DatagramRpc

/-- A reference as it is met: what is around it is counted by its depth. -/
structure Link where
  depth : Nat
  target : Option NodeId
  deriving DecidableEq, Repr

namespace Link

/-- The reference with so many more references and arrays around it. -/
def deeper (n : Nat) (l : Link) : Link := { l with depth := l.depth + n }

theorem map_deeper_deeper (m n : Nat) (links : List Link) :
    (links.map (deeper m)).map (deeper n) = links.map (deeper (n + m)) := by
  rw [List.map_map]
  refine List.map_congr_left fun l _ => ?_
  simp only [Function.comp_apply, deeper, Link.mk.injEq, and_true]
  omega

end Link

open Link

/-- The references in a value, in order, with the number of arrays around them. -/
def Value.links : Value → List Link
  | .ref target => [⟨0, target⟩]
  | .array items => (items.flatMap links).map (deeper 1)
  | _ => []

namespace ObjectGraph

/-- The references in the persisted fields of a node that was met at some depth. -/
def linksBelow (s : Schema) (g : ObjectGraph) (depth : Nat) (id : NodeId) : List Link :=
  match g.get? id with
  | none => []
  | some n => ((n.persistedValues s).flatMap Value.links).map (deeper (depth + 1))

/-- `Walk s g seen todo met after`: a walk that has seen some nodes and goes on with the references
to do meets these references, and has seen the nodes `after` when it is done. -/
inductive Walk (s : Schema) (g : ObjectGraph) :
    List NodeId → List Link → List Link → List NodeId → Prop
  | done {seen : List NodeId} : Walk s g seen [] [] seen
  | null {seen after : List NodeId} {depth : Nat} {rest met : List Link}
      (next : Walk s g seen rest met after) :
      Walk s g seen (⟨depth, none⟩ :: rest) (⟨depth, none⟩ :: met) after
  | again {seen after : List NodeId} {depth : Nat} {id : NodeId} {rest met : List Link}
      (old : id ∈ seen)
      (next : Walk s g seen rest met after) :
      Walk s g seen (⟨depth, some id⟩ :: rest) (⟨depth, some id⟩ :: met) after
  | first {seen mid after : List NodeId} {depth : Nat} {id : NodeId} {rest inner met : List Link}
      (new : id ∉ seen)
      (below : Walk s g (seen ++ [id]) (g.linksBelow s depth id) inner mid)
      (next : Walk s g mid rest met after) :
      Walk s g seen (⟨depth, some id⟩ :: rest) (⟨depth, some id⟩ :: (inner ++ met)) after

variable {s : Schema} {g : ObjectGraph} {root : Option NodeId} {seen mid after : List NodeId}
  {todo rest met met' : List Link}

/-- A walk from a root, on which nothing has been seen yet. -/
abbrev WalkFrom (s : Schema) (g : ObjectGraph) (root : Option NodeId) (met : List Link)
    (order : List NodeId) : Prop :=
  Walk s g [] [⟨0, root⟩] met order

namespace Walk

theorem append (h : Walk s g seen todo met mid) (h' : Walk s g mid rest met' after) :
    Walk s g seen (todo ++ rest) (met ++ met') after := by
  induction h with
  | done => exact h'
  | null _ ih => exact .null (ih h')
  | again old _ ih => exact .again old (ih h')
  | first new below _ _ ih =>
    rw [List.cons_append, List.cons_append, List.append_assoc]
    exact .first new below (ih h')

/-- A walk can be taken up anywhere. -/
theorem split (h : Walk s g seen (todo ++ rest) met after) : ∃ met₁ met₂ mid,
    met = met₁ ++ met₂ ∧ Walk s g seen todo met₁ mid ∧ Walk s g mid rest met₂ after := by
  induction todo generalizing seen met with
  | nil => exact ⟨[], met, seen, rfl, .done, h⟩
  | cons l todo ih =>
    cases h with
    | null next =>
      obtain ⟨met₁, met₂, mid, rfl, hfirst, hrest⟩ := ih next
      exact ⟨_ :: met₁, met₂, mid, rfl, .null hfirst, hrest⟩
    | again old next =>
      obtain ⟨met₁, met₂, mid, rfl, hfirst, hrest⟩ := ih next
      exact ⟨_ :: met₁, met₂, mid, rfl, .again old hfirst, hrest⟩
    | @first _ _ _ _ _ _ inner _ new below next =>
      obtain ⟨met₁, met₂, mid, rfl, hfirst, hrest⟩ := ih next
      refine ⟨_ :: (inner ++ met₁), met₂, mid, ?_, .first new below hfirst, hrest⟩
      rw [List.cons_append, List.append_assoc]

/-- There is only one walk. -/
theorem unique {after' : List NodeId} (h : Walk s g seen todo met after)
    (h' : Walk s g seen todo met' after') : met' = met ∧ after' = after := by
  induction h generalizing met' after' with
  | done =>
    cases h'
    exact ⟨rfl, rfl⟩
  | null _ ih =>
    cases h' with
    | null next =>
      obtain ⟨rfl, rfl⟩ := ih next
      exact ⟨rfl, rfl⟩
  | again old _ ih =>
    cases h' with
    | again _ next =>
      obtain ⟨rfl, rfl⟩ := ih next
      exact ⟨rfl, rfl⟩
    | first new => exact absurd old new
  | first new _ _ ihBelow ih =>
    cases h' with
    | again old => exact absurd old new
    | first _ below next =>
      obtain ⟨rfl, rfl⟩ := ihBelow below
      obtain ⟨rfl, rfl⟩ := ih next
      exact ⟨rfl, rfl⟩

end Walk

/-! ## Walks and the order of visits -/

private theorem targets_deeper (n : Nat) (links : List Link) :
    (links.map (deeper n)).filterMap Link.target = links.filterMap Link.target := by
  rw [List.filterMap_map]
  rfl

/-- The references in a value, in the same order, lead to its targets. -/
theorem targets_links (v : Value) : v.links.filterMap Link.target = v.targets := by
  induction v using Value.links.induct with
  | case1 target => cases target <;> simp [Value.links, Value.targets]
  | case2 items ih =>
    rw [Value.links, Value.targets, targets_deeper, List.filterMap_flatMap]
    exact List.flatMap_congr ih
  | case3 v href harray => cases v <;> simp_all [Value.links, Value.targets]

private theorem targets_linksBelow (depth : Nat) (id : NodeId) :
    (g.linksBelow s depth id).filterMap Link.target = g.successors s id := by
  rw [linksBelow, successors]
  cases g.get? id with
  | none => rfl
  | some n =>
    simp only
    rw [targets_deeper, List.filterMap_flatMap]
    exact List.flatMap_congr fun v _ => targets_links v

/-- A walk visits the nodes that its references lead to. -/
theorem Walk.visits (h : Walk s g seen todo met after) :
    g.Visits s seen (todo.filterMap Link.target) after := by
  induction h with
  | done => exact .done
  | null _ ih => exact ih
  | again old _ ih => exact .again old ih
  | first new _ _ ihBelow ih =>
    rw [targets_linksBelow] at ihBelow
    exact .first new ihBelow ih

/-! ## Every walk ends -/

/-- The nodes of the graph that have not been seen. -/
def unseen (g : ObjectGraph) (seen : List NodeId) : Finset Nat :=
  (Finset.range g.size).filter fun i => ⟨i⟩ ∉ seen

private theorem unseen_subset (h : seen ⊆ mid) : g.unseen mid ⊆ g.unseen seen := by
  intro i hi
  obtain ⟨hlt, hnew⟩ := Finset.mem_filter.mp hi
  exact Finset.mem_filter.mpr ⟨hlt, fun hs => hnew (h hs)⟩

private theorem card_unseen_concat {id : NodeId} (hid : id.index < g.size) (hnew : id ∉ seen) :
    (g.unseen (seen ++ [id])).card < (g.unseen seen).card := by
  have hsub : g.unseen (seen ++ [id]) ⊆ g.unseen seen := unseen_subset (List.subset_append_left ..)
  refine Finset.card_lt_card (Finset.ssubset_iff_subset_ne.mpr ⟨hsub, fun he => ?_⟩)
  have hmem : id.index ∈ g.unseen seen := Finset.mem_filter.mpr ⟨Finset.mem_range.mpr hid, hnew⟩
  rw [← he] at hmem
  exact (Finset.mem_filter.mp hmem).2 (List.mem_append_right _ (List.mem_singleton_self id))

/-- **Every walk ends**, in whatever state it is. -/
theorem exists_walk (s : Schema) (g : ObjectGraph) (k : Nat) :
    ∀ (seen : List NodeId) (todo : List Link),
    (g.unseen seen).card ≤ k → ∃ met after, Walk s g seen todo met after := by
  -- Going into a node of the graph leaves fewer nodes unseen; what else is to do is one reference
  -- less.
  induction k using Nat.strongRecOn with
  | ind k ihBelow =>
    intro seen todo hk
    induction todo generalizing seen with
    | nil => exact ⟨[], seen, .done⟩
    | cons l todo ih =>
      obtain ⟨depth, target⟩ := l
      cases target with
      | none =>
        obtain ⟨met, after, hnext⟩ := ih seen hk
        exact ⟨_, after, .null hnext⟩
      | some id =>
        by_cases hold : id ∈ seen
        · obtain ⟨met, after, hnext⟩ := ih seen hk
          exact ⟨_, after, .again hold hnext⟩
        · obtain ⟨inner, mid, hbelow⟩ : ∃ inner mid,
              Walk s g (seen ++ [id]) (g.linksBelow s depth id) inner mid := by
            by_cases hid : id.index < g.size
            · exact ihBelow _ (Nat.lt_of_lt_of_le (card_unseen_concat hid hold) hk) _ _
                (Nat.le_refl _)
            · have hnone : g.get? id = none := Array.getElem?_eq_none (Nat.le_of_not_lt hid)
              rw [linksBelow, hnone]
              exact ⟨[], _, .done⟩
          have hmore : seen ⊆ mid :=
            fun a ha => hbelow.visits.isPrefix.subset (List.mem_append_left _ ha)
          obtain ⟨met, after, hnext⟩ :=
            ih mid (Nat.le_trans (Finset.card_le_card (unseen_subset hmore)) hk)
          exact ⟨_, after, .first hold hbelow hnext⟩

/-! ## How deep it goes -/

private theorem mem_linksBelow {depth : Nat} {id : NodeId} {l : Link}
    (h : l ∈ g.linksBelow s depth id) :
    ∃ n v inner, g.get? id = some n ∧ v ∈ n.persistedValues s ∧ inner ∈ v.links ∧
      l.depth = depth + 1 + inner.depth := by
  rw [linksBelow] at h
  cases hn : g.get? id with
  | none =>
    rw [hn] at h
    cases h
  | some n =>
    rw [hn] at h
    obtain ⟨inner, hinner, rfl⟩ := List.mem_map.mp h
    obtain ⟨v, hv, hinner⟩ := List.mem_flatMap.mp hinner
    exact ⟨n, v, inner, rfl, hv, hinner, Nat.add_comm _ _⟩

/-- Each node adds one reference and its arrays to the depth, and each node is gone into once. -/
theorem Walk.depth_le {a d : Nat} (h : Walk s g seen todo met after)
    (harrays : ∀ id ∈ after, ∀ n, g.get? id = some n →
      ∀ v ∈ n.persistedValues s, ∀ l ∈ v.links, l.depth ≤ a) (htodo : ∀ l ∈ todo, l.depth ≤ d) :
    ∀ l ∈ met, l.depth + seen.length * (1 + a) ≤ d + after.length * (1 + a) := by
  induction h generalizing d with
  | done => exact fun l hl => nomatch hl
  | null next ih =>
    obtain ⟨hhead, hrest⟩ := List.forall_mem_cons.mp htodo
    have hlength := Nat.mul_le_mul_right (1 + a) next.visits.isPrefix.length_le
    exact List.forall_mem_cons.mpr ⟨Nat.add_le_add hhead hlength, ih harrays hrest⟩
  | again _ next ih =>
    obtain ⟨hhead, hrest⟩ := List.forall_mem_cons.mp htodo
    have hlength := Nat.mul_le_mul_right (1 + a) next.visits.isPrefix.length_le
    exact List.forall_mem_cons.mpr ⟨Nat.add_le_add hhead hlength, ih harrays hrest⟩
  | @first seen mid after depth id rest inner met new below next ihBelow ih =>
    obtain ⟨hhead, hrest⟩ := List.forall_mem_cons.mp htodo
    have hseen := below.visits.isPrefix
    have hmid := next.visits.isPrefix
    have hgrown := Nat.mul_le_mul_right (1 + a) hseen.length_le
    have hlength := Nat.mul_le_mul_right (1 + a) hmid.length_le
    rw [List.length_append, List.length_singleton, Nat.succ_mul] at hgrown
    have hbelow : ∀ l ∈ g.linksBelow s depth id, l.depth ≤ depth + (1 + a) := by
      intro l hl
      obtain ⟨n, v, link, hn, hv, hlink, hdepth⟩ := mem_linksBelow hl
      have hid : id ∈ mid := hseen.subset (List.mem_append_right _ (List.mem_singleton_self id))
      have hle := harrays id (hmid.subset hid) n hn v hv link hlink
      omega
    refine List.forall_mem_cons.mpr
      ⟨?_, List.forall_mem_append.mpr ⟨fun l hl => ?_, fun l hl => ?_⟩⟩
    · simp only at hhead ⊢
      omega
    · have hinner := ihBelow (fun id hid => harrays id (hmid.subset hid)) hbelow l hl
      rw [List.length_append, List.length_singleton, Nat.succ_mul] at hinner
      simp only at hhead
      omega
    · have hlater := ih harrays hrest l hl
      omega

/-! ## Walks from a root -/

theorem exists_walkFrom (s : Schema) (g : ObjectGraph) (root : Option NodeId) :
    ∃ met order, WalkFrom s g root met order :=
  exists_walk s g _ [] _ (Nat.le_refl _)

theorem WalkFrom.visits {order : List NodeId} (h : WalkFrom s g root met order) :
    g.Visits s [] root.toList order := by
  have hvisits := Walk.visits h
  cases root <;> exact hvisits

private theorem Visits.ncard_reachable {order : List NodeId} (h : g.Visits s [] root.toList order) :
    {id | g.Reachable s root id}.ncard = order.length := by
  have hset : {id | g.Reachable s root id} = order.toFinset := by
    ext id
    rw [List.coe_toFinset]
    exact h.mem_iff_reachable.symm
  rw [hset, Set.ncard_coe_finset, List.toFinset_card_of_nodup (h.nodup List.nodup_nil)]

/-- No reference stands within more arrays than this, as seen from its node. -/
def ArraysWithin (s : Schema) (g : ObjectGraph) (root : Option NodeId) (a : Nat) : Prop :=
  ∀ id n, g.Reachable s root id → g.get? id = some n →
    ∀ v ∈ n.persistedValues s, ∀ l ∈ v.links, l.depth ≤ a

/-- The number of nodes bounds the depth: on the way to a reference each of them lies at most once,
and leads on within at most so many arrays. -/
theorem WalkFrom.depth_le {order : List NodeId} (h : WalkFrom s g root met order) {a : Nat}
    (harrays : g.ArraysWithin s root a) :
    ∀ l ∈ met, l.depth ≤ {id | g.Reachable s root id}.ncard * (1 + a) := by
  intro l hl
  have hwithin := Walk.depth_le h (d := 0)
    (fun id hid n hn => harrays id n (h.visits.mem_iff_reachable.mp hid) hn) (by simp) l hl
  rw [h.visits.ncard_reachable]
  rwa [List.length_nil, Nat.zero_mul, Nat.add_zero, Nat.zero_add] at hwithin

end ObjectGraph

end DatagramRpc
