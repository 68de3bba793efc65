import DatagramRpc.Proofs.Server.UnboundedHistory
import Mathlib.Data.List.Nodup

/-!
# A history with a bound

A bounded history keeps its records and, apart from them, a queue of keys, and forgets the oldest.
Whoever uses it sees an `OrderedMap`: the entries stand in the order in which their keys came,
writing under a key that is there leaves it in its place, and a new key drops the oldest ones beyond
the bound. So a key is forgotten with the insertion of the last of as many other keys as the bound
allows, and without a bound never.
-/

namespace DatagramRpc

/-! ## Maps in the order of insertion -/

/-- Drops the oldest as long as there are more than the bound. Zero is no bound. -/
def shed {α : Type} (bound : Nat) : List α → List α
  | [] => []
  | a :: rest => if 0 < bound ∧ bound < rest.length + 1 then shed bound rest else a :: rest

/-- Values under keys, the oldest key first, and how many keys there may be. -/
structure OrderedMap (κ ν : Type) where
  bound : Nat
  entries : List (κ × ν)

namespace OrderedMap

variable {κ ν : Type} [DecidableEq κ]

def empty (bound : Nat) : OrderedMap κ ν := ⟨bound, []⟩

def size (m : OrderedMap κ ν) : Nat := m.entries.length

def get? (m : OrderedMap κ ν) (k : κ) : Option ν := (m.entries.find? fun e => e.1 == k).map (·.2)

/-- A key that is there keeps its place, and a new one comes last. -/
def put (m : OrderedMap κ ν) (k : κ) (v : ν) : OrderedMap κ ν :=
  match m.get? k with
  | some _ => { m with entries := m.entries.map fun e => if e.1 = k then (k, v) else e }
  | none => { m with entries := shed m.bound (m.entries ++ [(k, v)]) }

end OrderedMap

/-! ## What is shed -/

section Shed

variable {α β : Type} {bound : Nat}

private theorem shed_zero (l : List α) : shed 0 l = l := by
  cases l <;> simp [shed]

private theorem shed_eq_drop (hb : 0 < bound) (l : List α) :
    shed bound l = l.drop (l.length - bound) := by
  induction l with
  | nil => rw [shed, List.drop_nil]
  | cons a l ih =>
    rw [shed, List.length_cons]
    split
    · next hmore =>
      have hcount : l.length + 1 - bound = (l.length - bound) + 1 := by omega
      rw [ih, hcount, List.drop_succ_cons]
    · next hfits =>
      have hcount : l.length + 1 - bound = 0 := by omega
      rw [hcount, List.drop_zero]

private theorem shed_of_length_le {l : List α} (h : 0 < bound → l.length ≤ bound) :
    shed bound l = l := by
  rcases Nat.eq_zero_or_pos bound with rfl | hb
  · exact shed_zero l
  · have hcount : l.length - bound = 0 := by
      have hle := h hb
      omega
    rw [shed_eq_drop hb, hcount, List.drop_zero]

private theorem length_shed_le (hb : 0 < bound) (l : List α) : (shed bound l).length ≤ bound := by
  rw [shed_eq_drop hb, List.length_drop]
  omega

private theorem shed_sublist (bound : Nat) (l : List α) : (shed bound l).Sublist l := by
  rcases Nat.eq_zero_or_pos bound with rfl | hb
  · rw [shed_zero]
  · rw [shed_eq_drop hb]
    exact List.drop_sublist ..

private theorem map_shed (f : α → β) (bound : Nat) (l : List α) :
    (shed bound l).map f = shed bound (l.map f) := by
  rcases Nat.eq_zero_or_pos bound with rfl | hb
  · rw [shed_zero, shed_zero]
  · rw [shed_eq_drop hb, shed_eq_drop hb, List.map_drop, List.length_map]

/-- Dropping the oldest early makes no difference. -/
theorem shed_shed_append (bound : Nat) (l rest : List α) :
    shed bound (shed bound l ++ rest) = shed bound (l ++ rest) := by
  rcases Nat.eq_zero_or_pos bound with rfl | hb
  · simp only [shed_zero]
  · have hjoin : l.drop (l.length - bound) ++ rest = (l ++ rest).drop (l.length - bound) :=
      (List.drop_append_of_le_length (by omega)).symm
    rw [shed_eq_drop hb, shed_eq_drop hb, shed_eq_drop hb, hjoin, List.drop_drop, List.length_drop,
      List.length_append]
    congr 1
    omega

/-- What is there stays until as many have come after it as there may be. -/
theorem mem_shed_iff {older newer : List α} {a : α} (hb : 0 < bound) (hnew : a ∉ newer) :
    a ∈ shed bound (older ++ a :: newer) ↔ newer.length < bound := by
  rw [shed_eq_drop hb, List.length_append, List.length_cons]
  constructor
  · intro hmem
    by_contra hfull
    have hcount : older.length + (newer.length + 1) - bound =
        (older ++ [a]).length + (newer.length - bound) := by
      rw [List.length_append, List.length_singleton]
      omega
    have hlist : older ++ a :: newer = (older ++ [a]) ++ newer := by
      rw [List.append_assoc, List.singleton_append]
    rw [hcount, hlist, List.drop_length_add_append] at hmem
    exact hnew (List.mem_of_mem_drop hmem)
  · intro hroom
    rw [List.drop_append_of_le_length (by omega)]
    exact List.mem_append_right _ List.mem_cons_self

end Shed

/-! ## Records and queue -/

namespace History

variable {h : History}

/-- The keys that are held, in the order of their records. -/
def keys (h : History) : List CallKey := h.records.map (·.key)

private theorem find?_eq_none_iff {k : CallKey} : h.find? k = none ↔ k ∉ h.keys := by
  simp [find?, keys]

private theorem find?_isSome_iff {k : CallKey} : (h.find? k).isSome ↔ k ∈ h.keys := by
  rw [Option.isSome_iff_ne_none, ne_eq, find?_eq_none_iff, not_not]

/-- What the two parts of a history have in common. -/
structure Consistent (h : History) : Prop where
  nodup : h.keys.Nodup
  queue : 0 < h.limit → h.queue = h.keys
  limited : 0 < h.limit → h.keys.length ≤ h.limit

private theorem consistent_empty (limit : Nat) : (empty limit).Consistent := by
  constructor
  · exact List.nodup_nil
  · intro _
    rfl
  · intro _
    exact Nat.zero_le _

private theorem Consistent.nodup_concat (hc : h.Consistent) {k : CallKey} (hk : k ∉ h.keys) :
    (h.keys ++ [k]).Nodup := by
  rw [← List.concat_eq_append]
  exact hc.nodup.concat hk

private theorem keys_overwrite (r : InvocationRecord) (records : List InvocationRecord) :
    (overwrite r records).map (·.key) = records.map (·.key) := by
  rw [overwrite, List.map_map]
  exact List.map_congr_left fun old _ => key_overwritten r old

/-- Taking out the records of the first keys leaves the others, as no key stands there twice. -/
theorem filter_forgotten {records : List InvocationRecord} (hnodup : (records.map (·.key)).Nodup)
    (n : Nat) :
    records.filter (fun r => !((records.map (·.key)).take n).contains r.key) = records.drop n := by
  induction records generalizing n with
  | nil => rw [List.filter_nil, List.drop_nil]
  | cons r records ih =>
    obtain ⟨hnew, hnodup⟩ := List.nodup_cons.mp hnodup
    cases n with
    | zero => simp
    | succ n =>
      rw [List.map_cons, List.take_succ_cons, List.drop_succ_cons, ← ih hnodup n,
        List.filter_cons_of_neg (by simp)]
      refine List.filter_congr fun x hx => ?_
      have hother : x.key ≠ r.key := fun he => hnew (List.mem_map.mpr ⟨x, hx, he⟩)
      rw [List.contains_cons, beq_eq_false_iff_ne.mpr hother, Bool.false_or]

private theorem insert_of_held {r : InvocationRecord} (hk : r.key ∈ h.keys) :
    h.insert r = { h with records := overwrite r h.records } := by
  obtain ⟨old, hold⟩ := Option.isSome_iff_exists.mp (find?_isSome_iff.mpr hk)
  rw [insert, hold]

/-- A new key comes last, and the oldest beyond the bound go, from the records and from the queue
alike. -/
theorem insert_of_new (hc : h.Consistent) {r : InvocationRecord} (hk : r.key ∉ h.keys) :
    (h.insert r).limit = h.limit ∧ (h.insert r).records = shed h.limit (h.records ++ [r]) ∧
      (0 < h.limit → (h.insert r).queue = shed h.limit (h.keys ++ [r.key])) := by
  have hkeys : (h.records ++ [r]).map (·.key) = h.keys ++ [r.key] := by
    rw [List.map_append, List.map_singleton, keys]
  rw [insert, find?_eq_none_iff.mpr hk]
  simp only [track]
  split
  · next hl =>
    rw [hl, shed_zero]
    exact ⟨rfl, rfl, fun hpos => absurd hpos (Nat.lt_irrefl 0)⟩
  · next hl =>
    have hpos : 0 < h.limit := Nat.pos_of_ne_zero hl
    have hnodup : ((h.records ++ [r]).map (·.key)).Nodup := by
      rw [hkeys]
      exact hc.nodup_concat hk
    have hcount : (h.keys ++ [r.key]).length = (h.records ++ [r]).length := by
      rw [← hkeys, List.length_map]
    simp only [hc.queue hpos, shed_eq_drop hpos, implies_true, and_true, true_and]
    rw [hcount, ← hkeys, filter_forgotten hnodup]

/-- A record that is written leaves the keys in their places, or its own comes last. -/
theorem keys_insert (hc : h.Consistent) (r : InvocationRecord) :
    (h.insert r).keys = shed h.limit (h.keys ++ if r.key ∈ h.keys then [] else [r.key]) := by
  by_cases hk : r.key ∈ h.keys
  · rw [insert_of_held hk, if_pos hk, List.append_nil, shed_of_length_le hc.limited]
    exact keys_overwrite r h.records
  · obtain ⟨-, hrecords, -⟩ := insert_of_new hc hk
    rw [if_neg hk, keys, hrecords, map_shed, List.map_append, List.map_singleton, keys]

private theorem Consistent.insert (hc : h.Consistent) (r : InvocationRecord) :
    (h.insert r).Consistent ∧ (h.insert r).limit = h.limit := by
  have hkeys := keys_insert hc r
  by_cases hk : r.key ∈ h.keys
  · rw [if_pos hk, List.append_nil, shed_of_length_le hc.limited] at hkeys
    rw [insert_of_held hk] at hkeys ⊢
    refine ⟨⟨?_, fun hl => ?_, fun hl => ?_⟩, rfl⟩
    · rw [hkeys]
      exact hc.nodup
    · rw [hkeys]
      exact hc.queue hl
    · rw [hkeys]
      exact hc.limited hl
  · obtain ⟨hlimit, -, hqueue⟩ := insert_of_new hc hk
    rw [if_neg hk] at hkeys
    refine ⟨⟨?_, fun hl => ?_, fun hl => ?_⟩, hlimit⟩
    · rw [hkeys]
      exact (hc.nodup_concat hk).sublist (shed_sublist ..)
    · rw [hkeys, hqueue (hlimit ▸ hl)]
    · rw [hlimit] at hl ⊢
      rw [hkeys]
      exact length_shed_le hl _

/-! ## The uses of a history -/

/-- A use of a history. -/
inductive Access where
  | claim (request : Envelope) (client : Address)
  | begin (request : Envelope) (client : Address)
  | record (request : Envelope) (client : Address) (reply : Envelope)
  | lookup (id : Int32) (client : Address)
  | size
  deriving DecidableEq, Repr

/-- What it tells. -/
inductive Finding where
  | claimed (c : Claim)
  | stored
  | found (r : Option InvocationRecord)
  | counted (n : Nat)
  deriving DecidableEq, Repr

namespace Access

/-- The key under which something may be written. -/
def key? : Access → Option CallKey
  | .claim request client => some ⟨request.id, client⟩
  | .begin request client => some ⟨request.id, client⟩
  | .record request client _ => some ⟨request.id, client⟩
  | .lookup _ _ => none
  | .size => none

/-- Uses one after another, with what they tell. -/
def run {S : Type} (step : S → Access → S × Finding) : S → List Access → S × List Finding
  | s, [] => (s, [])
  | s, a :: accesses =>
    let (s, finding) := step s a
    let (s, findings) := run step s accesses
    (s, finding :: findings)

end Access

def access (h : History) : Access → History × Finding
  | .claim request client => ((h.claim request client).1, .claimed (h.claim request client).2)
  | .begin request client => (h.begin request client, .stored)
  | .record request client reply => (h.record request client reply, .stored)
  | .lookup id client => (h, .found (h.lookup id client))
  | .size => (h, .counted h.size)

end History

/-- What a history is for those who use it. -/
abbrev Memory := OrderedMap CallKey InvocationRecord

namespace Memory

open History

def access (m : Memory) : Access → Memory × Finding
  | .claim request client =>
    match m.get? ⟨request.id, client⟩ with
    | none => (m.put ⟨request.id, client⟩ ⟨request, client, none⟩, .claimed .fresh)
    | some ⟨_, _, none⟩ => (m, .claimed .inFlight)
    | some ⟨_, _, some reply⟩ => (m, .claimed (.done reply))
  | .begin request client => (m.put ⟨request.id, client⟩ ⟨request, client, none⟩, .stored)
  | .record request client reply =>
    (m.put ⟨request.id, client⟩ ⟨request, client, some reply⟩, .stored)
  | .lookup id client => (m, .found (m.get? ⟨id, client⟩))
  | .size => (m, .counted m.size)

end Memory

namespace History

variable {h : History}

/-- The records of a history under their keys. -/
def toMemory (h : History) : Memory := ⟨h.limit, h.records.map fun r => (r.key, r)⟩

@[simp] theorem get?_toMemory (h : History) (k : CallKey) : h.toMemory.get? k = h.find? k := by
  rw [OrderedMap.get?, toMemory, List.find?_map, Option.map_map, find?]
  exact Option.map_id'

private theorem toMemory_insert (hc : h.Consistent) (r : InvocationRecord) :
    (h.insert r).toMemory = h.toMemory.put r.key r := by
  by_cases hk : r.key ∈ h.keys
  · obtain ⟨old, hold⟩ := Option.isSome_iff_exists.mp (find?_isSome_iff.mpr hk)
    rw [insert_of_held hk, OrderedMap.put, get?_toMemory, hold]
    simp only [toMemory, overwrite, List.map_map]
    congr 1
    refine List.map_congr_left fun x _ => ?_
    simp only [Function.comp_apply]
    split <;> rfl
  · obtain ⟨hlimit, hrecords, -⟩ := insert_of_new hc hk
    rw [OrderedMap.put, get?_toMemory, find?_eq_none_iff.mpr hk, toMemory, hlimit,
      hrecords, map_shed, List.map_append]
    rfl

/-- A claim writes a record only under a key that is not there, and then it is as if the request
were begun. -/
theorem claim_cases (h : History) (request : Envelope) (client : Address) :
    (h.find? ⟨request.id, client⟩ = none ∧
      h.claim request client = (h.begin request client, .fresh)) ∨
      ∃ r, h.find? ⟨request.id, client⟩ = some r ∧
        h.claim request client = (h, .ofResponse (some r.response)) := by
  unfold claim
  cases hfind : h.find? ⟨request.id, client⟩ with
  | none => exact .inl ⟨rfl, rfl⟩
  | some r =>
    refine .inr ⟨r, rfl, ?_⟩
    obtain ⟨request', client', response⟩ := r
    cases response <;> rfl

private theorem Consistent.access (hc : h.Consistent) (a : Access) :
    (h.access a).1.Consistent ∧ (h.access a).1.limit = h.limit := by
  cases a with
  | claim request client =>
    rcases claim_cases h request client with ⟨-, hclaim⟩ | ⟨r, -, hclaim⟩
    · rw [History.access, hclaim]
      exact hc.insert _
    · rw [History.access, hclaim]
      exact ⟨hc, rfl⟩
  | begin request client => exact hc.insert _
  | record request client reply => exact hc.insert _
  | lookup id client => exact ⟨hc, rfl⟩
  | size => exact ⟨hc, rfl⟩

/-- Every use of a history tells what the same use of the ordered map tells, and leaves the same
behind. -/
theorem access_toMemory (hc : h.Consistent) (a : Access) :
    Memory.access h.toMemory a = ((h.access a).1.toMemory, (h.access a).2) := by
  cases a with
  | claim request client =>
    rcases claim_cases h request client with ⟨hfind, hclaim⟩ | ⟨r, hfind, hclaim⟩
    · rw [Memory.access, get?_toMemory, hfind, access, hclaim, begin, toMemory_insert hc]
      rfl
    · rw [Memory.access, get?_toMemory, hfind, access, hclaim]
      obtain ⟨request', client', response⟩ := r
      cases response <;> rfl
  | begin request client =>
    rw [Memory.access, access, begin, toMemory_insert hc]
    rfl
  | record request client reply =>
    rw [Memory.access, access, record, toMemory_insert hc]
    rfl
  | lookup id client =>
    rw [Memory.access, get?_toMemory]
    rfl
  | size =>
    rw [Memory.access, OrderedMap.size, toMemory, List.length_map]
    rfl

/-- The history after some uses. -/
def after (h : History) (accesses : List Access) : History :=
  (Access.run History.access h accesses).1

private theorem Consistent.after (hc : h.Consistent) (accesses : List Access) :
    (h.after accesses).Consistent ∧ (h.after accesses).limit = h.limit := by
  induction accesses generalizing h with
  | nil => exact ⟨hc, rfl⟩
  | cons a accesses ih =>
    obtain ⟨hnext, hlimit⟩ := hc.access a
    obtain ⟨hend, hsame⟩ := ih hnext
    exact ⟨hend, hsame.trans hlimit⟩

private theorem run_toMemory (hc : h.Consistent) (accesses : List Access) :
    Access.run Memory.access h.toMemory accesses =
      ((h.after accesses).toMemory, (Access.run History.access h accesses).2) := by
  induction accesses generalizing h with
  | nil => rfl
  | cons a accesses ih =>
    simp only [Access.run, access_toMemory hc a, ih (hc.access a).1]
    rfl

/-! ## Which keys are held -/

/-- The key that a use inserts: the one it writes under, if nothing is held under it. -/
def newKey? (h : History) (a : Access) : Option CallKey := a.key?.filter fun k => (h.find? k).isNone

/-- The keys that are inserted by some uses, in their order. -/
def insertions : History → List Access → List CallKey
  | _, [] => []
  | h, a :: accesses => (h.newKey? a).toList ++ insertions (h.access a).1 accesses

private theorem newKey?_of_key {a : Access} {k : CallKey} (ha : a.key? = some k) :
    (h.newKey? a).toList = if k ∈ h.keys then [] else [k] := by
  rw [newKey?, ha, Option.filter_some]
  by_cases hk : k ∈ h.keys
  · have hheld : (h.find? k).isNone = false := by
      rw [Option.isNone_eq_false_iff]
      exact find?_isSome_iff.mpr hk
    rw [if_pos hk, hheld]
    rfl
  · rw [if_neg hk, find?_eq_none_iff.mpr hk]
    rfl

private theorem keys_access (hc : h.Consistent) (a : Access) :
    (h.access a).1.keys = shed h.limit (h.keys ++ (h.newKey? a).toList) := by
  have hsame : h.keys = shed h.limit (h.keys ++ []) := by
    rw [List.append_nil, shed_of_length_le hc.limited]
  cases a with
  | claim request client =>
    rw [newKey?_of_key rfl]
    rcases claim_cases h request client with ⟨-, hclaim⟩ | ⟨r, hfind, hclaim⟩
    · rw [access, hclaim]
      exact keys_insert hc ⟨request, client, none⟩
    · have hheld : ⟨request.id, client⟩ ∈ h.keys :=
        find?_isSome_iff.mp (by rw [hfind, Option.isSome_some])
      rw [access, hclaim, if_pos hheld]
      exact hsame
  | begin request client =>
    rw [newKey?_of_key rfl]
    exact keys_insert hc ⟨request, client, none⟩
  | record request client reply =>
    rw [newKey?_of_key rfl]
    exact keys_insert hc ⟨request, client, some reply⟩
  | lookup id client => exact hsame
  | size => exact hsame

/-- After any uses the keys that were held and those that were inserted are there, less the
oldest. -/
theorem keys_after (hc : h.Consistent) (accesses : List Access) :
    (h.after accesses).keys = shed h.limit (h.keys ++ h.insertions accesses) := by
  induction accesses generalizing h with
  | nil =>
    rw [insertions, List.append_nil, shed_of_length_le hc.limited]
    rfl
  | cons a accesses ih =>
    obtain ⟨hnext, hlimit⟩ := hc.access a
    have hrest : (h.after (a :: accesses)).keys = ((h.access a).1.after accesses).keys := rfl
    rw [hrest, ih hnext, hlimit, keys_access hc, shed_shed_append, List.append_assoc]
    rfl

/-! ## The main statement -/

/-- What a bound means for the keys of a history. -/
structure ForgetsOldest (h : History) (limit : Nat) : Prop where
  /-- There are no more records than the bound. -/
  limited : 0 < limit → h.size ≤ limit
  /-- The queue lists the keys that are held, each once. -/
  queued : 0 < limit → h.queue.Nodup ∧ ∀ k, k ∈ h.queue ↔ (h.find? k).isSome
  /-- A key that is inserted is not itself forgotten. -/
  inserted : ∀ a k, h.newKey? a = some k → ((h.access a).1.find? k).isSome
  /-- It is held until as many other keys have been inserted as the bound allows, and then no
  longer. -/
  forgotten : 0 < limit → ∀ a k, h.newKey? a = some k →
    ∀ later, k ∉ (h.access a).1.insertions later →
    ((((h.access a).1.after later).find? k).isSome ↔
      ((h.access a).1.insertions later).length < limit)
  /-- Without a bound it is held for good. -/
  permanent : limit = 0 → ∀ k, (h.find? k).isSome → ∀ later, ((h.after later).find? k).isSome

private theorem forgetsOldest (hc : h.Consistent) : h.ForgetsOldest h.limit := by
  have hinserted (a : Access) (k : CallKey) (ha : h.newKey? a = some k) :
      (h.access a).1.keys = shed h.limit (h.keys ++ k :: []) := by
    rw [keys_access hc, ha]
    rfl
  constructor
  case limited =>
    intro hl
    rw [size, ← List.length_map]
    exact hc.limited hl
  case queued =>
    intro hl
    rw [hc.queue hl]
    exact ⟨hc.nodup, fun k => find?_isSome_iff.symm⟩
  case inserted =>
    intro a k ha
    rw [find?_isSome_iff, hinserted a k ha]
    rcases Nat.eq_zero_or_pos h.limit with hl | hl
    · rw [hl, shed_zero]
      exact List.mem_append_right _ (List.mem_singleton_self k)
    · exact (mem_shed_iff hl List.not_mem_nil).mpr hl
  case forgotten =>
    intro hl a k ha later hother
    obtain ⟨hnext, hlimit⟩ := hc.access a
    rw [find?_isSome_iff, keys_after hnext, hinserted a k ha, hlimit, shed_shed_append,
      List.append_assoc, List.cons_append, List.nil_append]
    exact mem_shed_iff hl hother
  case permanent =>
    intro hl k hk later
    rw [find?_isSome_iff, keys_after hc, hl, shed_zero]
    exact List.mem_append_left _ (find?_isSome_iff.mp hk)

/-- **A history is an ordered map that drops its oldest keys.** Whatever is claimed, begun, recorded
and looked up, in whatever order, every answer is that of the map with the same bound. -/
theorem answers_of_orderedMap (limit : Nat) (accesses : List Access) :
    (Access.run History.access (empty limit) accesses).2 =
        (Access.run Memory.access (OrderedMap.empty limit) accesses).2 ∧
      ((empty limit).after accesses).ForgetsOldest limit := by
  have hstart := consistent_empty limit
  obtain ⟨hend, hlimit⟩ := hstart.after accesses
  have hrun : Access.run Memory.access (OrderedMap.empty limit) accesses =
      (((empty limit).after accesses).toMemory,
        (Access.run History.access (empty limit) accesses).2) :=
    run_toMemory hstart accesses
  have hforgets := forgetsOldest hend
  rw [hlimit] at hforgets
  exact ⟨by rw [hrun], hforgets⟩

def sampleKey (id : Int32) : CallKey := ⟨id, ⟨.v4 10 0 0 1, 7000⟩⟩

def sampleClaim (id : Int32) : Access := .claim (.of .read id "") (sampleKey id).client

/-- The first request is recorded, which leaves it in its place, a third one takes the room of the
first, and the first one that of the second when it comes again. -/
def sampleAccesses : List Access :=
  [.record (.of .read 1 "") (sampleKey 1).client (.of .read 1 ""), sampleClaim 3, sampleClaim 1]

/-- With room for two, the second request is forgotten with the second new key after it, and not
before. -/
theorem answers_of_orderedMap_sample :
    let h := ((empty 2).after [sampleClaim 1]).access (sampleClaim 2)
    h.1.insertions sampleAccesses = [sampleKey 3, sampleKey 1] ∧
      ((h.1.after (sampleAccesses.take 2)).find? (sampleKey 2)).isSome ∧
      ¬((h.1.after sampleAccesses).find? (sampleKey 2)).isSome := by
  obtain ⟨-, hforgets⟩ := answers_of_orderedMap 2 [sampleClaim 1]
  have hnew : ((empty 2).after [sampleClaim 1]).newKey?
      (sampleClaim 2) = some (sampleKey 2) := by decide
  have hheld := hforgets.forgotten (by decide) _ _ hnew
  refine ⟨by decide, (hheld (sampleAccesses.take 2) (by decide)).mpr (by decide), fun hstill => ?_⟩
  exact absurd ((hheld sampleAccesses (by decide)).mp hstill) (by decide)

end History

end DatagramRpc
