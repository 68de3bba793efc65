import DatagramRpc.Server.History

/-!
# A history without a bound

What an unbounded history knows of a key is the last thing that was written under it. `claim`,
`begin` and `record` are described through this view alone, so that nothing else depends on how
records are kept.
-/

namespace DatagramRpc

/-- The claim that a known response leads to: none known, none yet, or a reply. -/
def Claim.ofResponse : Option (Option Envelope) → Claim
  | none => .fresh
  | some none => .inFlight
  | some (some reply) => .done reply

namespace History

/-- What is known of the response to a key. -/
def response? (h : History) (key : CallKey) : Option (Option Envelope) :=
  (h.find? key).map (·.response)

/-- Overwriting leaves every key in its place. -/
theorem key_overwritten (r old : InvocationRecord) :
    (if old.key = r.key then r else old).key = old.key := by
  split
  · next h => exact h.symm
  · rfl

private theorem find?_overwrite (r : InvocationRecord) (records : List InvocationRecord)
    (key : CallKey) :
    (overwrite r records).find? (fun x => x.key == key) =
      (records.find? fun x => x.key == key).map fun old => if old.key = r.key then r else old := by
  rw [overwrite, List.find?_map]
  congr 2
  funext old
  simp only [Function.comp_apply, key_overwritten]

/-- Writing a record of an unbounded history is seen under its key only. -/
theorem find?_insert {h : History} (hl : h.limit = 0) (r : InvocationRecord) (key : CallKey) :
    (h.insert r).find? key = if r.key = key then some r else h.find? key := by
  rw [insert]
  cases hf : h.find? r.key with
  | some old =>
    simp only [find?] at hf ⊢
    rw [find?_overwrite]
    by_cases hk : r.key = key
    · have ho : old.key = key := by simpa [hk] using List.find?_some hf
      rw [hk] at hf
      simp [hf, ho, hk]
    · rw [if_neg hk]
      cases hg : h.records.find? fun x => x.key == key with
      | none => rfl
      | some found =>
        have hfound : found.key = key := by simpa using List.find?_some hg
        have hne : found.key ≠ r.key := fun he => hk (he.symm.trans hfound)
        simp [hne]
  | none =>
    simp only [track, hl, if_true, find?, List.find?_append] at hf ⊢
    by_cases hk : r.key = key
    · subst hk
      simp [hf]
    · simp [hk]

theorem limit_insert {h : History} (hl : h.limit = 0) (r : InvocationRecord) :
    (h.insert r).limit = 0 := by
  rw [insert]
  split
  · exact hl
  · simp [track, hl]

theorem response?_record {h : History} (hl : h.limit = 0) (request : Envelope) (client : Address)
    (reply : Envelope) (key : CallKey) :
    (h.record request client reply).response? key =
      if ⟨request.id, client⟩ = key then some (some reply) else h.response? key := by
  rw [response?, record, find?_insert hl, apply_ite (Option.map _)]
  rfl

theorem response?_begin {h : History} (hl : h.limit = 0) (request : Envelope) (client : Address)
    (key : CallKey) :
    (h.begin request client).response? key =
      if ⟨request.id, client⟩ = key then some none else h.response? key := by
  rw [response?, begin, find?_insert hl, apply_ite (Option.map _)]
  rfl

/-- A claim answers with what is known of the key. -/
theorem claim_snd (h : History) (request : Envelope) (client : Address) :
    (h.claim request client).2 = .ofResponse (h.response? ⟨request.id, client⟩) := by
  rw [claim, response?]
  split <;> simp_all [Claim.ofResponse]

/-- A claim writes only if nothing is known of the key. -/
theorem claim_fst (h : History) (request : Envelope) (client : Address) :
    (h.claim request client).1 =
      if h.response? ⟨request.id, client⟩ = none then h.begin request client else h := by
  rw [claim, response?]
  split <;> simp_all [begin]

theorem limit_claim {h : History} (hl : h.limit = 0) (request : Envelope) (client : Address) :
    (h.claim request client).1.limit = 0 := by
  rw [claim_fst]
  split
  · exact limit_insert hl _
  · exact hl

theorem response?_claim {h : History} (hl : h.limit = 0) (request : Envelope) (client : Address)
    (key : CallKey) :
    (h.claim request client).1.response? key =
      if ⟨request.id, client⟩ = key ∧ h.response? key = none then some none
      else h.response? key := by
  rw [claim_fst]
  by_cases hk : ⟨request.id, client⟩ = key
  · subst hk
    split
    · next hn => rw [response?_begin hl, if_pos rfl, if_pos ⟨rfl, hn⟩]
    · next hn => rw [if_neg fun hc => hn hc.2]
  · rw [if_neg fun hc : _ ∧ _ => hk hc.1]
    split
    · rw [response?_begin hl, if_neg hk]
    · rfl

end History

end DatagramRpc
