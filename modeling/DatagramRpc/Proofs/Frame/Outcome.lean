import DatagramRpc.Frame.Decode
import Mathlib.Tactic.SplitIfs

/-!
# What reading can come to

Reading either fails, and then with a fault of the frame, or it has a result and a state of which
something is known. `Ends` says both at once, with one rule for each way in which readers are put
together. A reader that fails otherwise, because a node is missing say, does not end in this sense.
-/

namespace DatagramRpc

open Wire

variable {σ α β : Type} {m : EStateM Fault σ α} {f : α → EStateM Fault σ β} {s : σ}

/-- From this state, the computation fails with a decode error or ends in `Q`. -/
def Ends (m : EStateM Fault σ α) (s : σ) (Q : α → σ → Prop) : Prop :=
  match m s with
  | .ok a s' => Q a s'
  | .error fault _ => fault.isDecodeError = true

namespace Ends

variable {Q Q' : α → σ → Prop} {R : β → σ → Prop}

theorem pure {a : α} (h : Q a s) : Ends (Pure.pure a : EStateM Fault σ α) s Q := h

theorem throw {fault : Fault} (h : fault.isDecodeError = true) :
    Ends (MonadExcept.throw fault : EStateM Fault σ α) s Q := h

theorem bind (h : Ends m s Q) (h' : ∀ a s', Q a s' → Ends (f a) s' R) : Ends (m >>= f) s R := by
  show match EStateM.bind m f s with
    | .ok b s' => R b s'
    | .error fault _ => fault.isDecodeError = true
  rw [EStateM.bind]
  unfold Ends at h
  split at h
  · next a s' hm =>
    rw [hm]
    exact h' a s' h
  · next fault s' hm =>
    rw [hm]
    exact h

theorem mono (h : Ends m s Q) (h' : ∀ a s', Q a s' → Q' a s') : Ends m s Q' := by
  unfold Ends at h ⊢
  split at h
  · exact h' _ _ h
  · exact h

/-- A computation that ends with a failure in between goes no further. -/
theorem throw_bind {fault : Fault} (h : fault.isDecodeError = true) :
    Ends ((MonadExcept.throw fault : EStateM Fault σ α) >>= f) s R :=
  (throw (Q := fun _ _ => False) h).bind fun _ _ hfalse => hfalse.elim

/-- A check, and a result if it is passed. -/
theorem of_check {c : Prop} [Decidable c] {fault : Fault} {a : α} {s₁ s₂ : σ}
    (hm : m s = if c then .error fault s₁ else .ok a s₂) (hf : fault.isDecodeError = true)
    (hq : ¬ c → Q a s₂) : Ends m s Q := by
  rw [Ends, hm]
  by_cases hc : c
  · rw [if_pos hc]
    exact hf
  · rw [if_neg hc]
    exact hq hc

theorem of_ok {a : α} {s' : σ} (h : Ends m s Q) (hm : m s = .ok a s') : Q a s' := by
  rw [Ends, hm] at h
  exact h

theorem of_error {fault : Fault} {s' : σ} (h : Ends m s Q) (hm : m s = .error fault s') :
    fault.isDecodeError = true := by
  rw [Ends, hm] at h
  exact h

end Ends

/-! ## Readers -/

namespace Wire

/-- A reader whose failures are all decode errors. -/
def Honest (r : Reader α) : Prop := ∀ input, Ends r input fun _ _ => True

private theorem Honest.bind {r : Reader α} {f : α → Reader β} (h : Honest r)
    (h' : ∀ a, Honest (f a)) :
    Honest (r >>= f) := fun input => (h input).bind fun a rest _ => h' a rest

private theorem honest_pure (a : α) : Honest (Pure.pure a : Reader α) := fun _ => .pure trivial

private theorem honest_take (n : Nat) (what : String) : Honest (take n what) :=
  fun _ => .of_check rfl rfl fun _ => trivial

theorem honest_getByte : Honest getByte := by
  intro input
  cases input with
  | nil => exact rfl
  | cons b rest => exact trivial

theorem honest_getInt : Honest getInt := (honest_take 4 _).bind fun _ => honest_pure _

theorem honest_getLong : Honest getLong := (honest_take 8 _).bind fun _ => honest_pure _

theorem honest_getDouble : Honest getDouble := (honest_take 8 _).bind fun _ => honest_pure _

theorem honest_getLength (fault : Int32 → FramingCause) : Honest (getLength fault) := by
  refine honest_getInt.bind fun n => ?_
  simp only
  split
  · exact fun _ => .throw_bind rfl
  · exact honest_pure _

theorem honest_getText : Honest getText := by
  refine (honest_getLength _).bind fun n => (honest_take n _).bind fun body => ?_
  split
  · exact honest_pure _
  · exact fun _ => .throw rfl

end Wire

/-! ## Steps of the decoder -/

namespace Frame

variable {st : DecodeState}

/-- Reading from the input leaves the graph alone. -/
theorem ends_read {r : Reader α} (hr : Honest r) :
    Ends (Decoder.read r) st fun _ st' => st'.graph = st.graph := by
  have h := hr st.input
  unfold Ends at h ⊢
  rw [Decoder.read]
  split at h
  · next hrun =>
    rw [hrun]
  · next hrun =>
    rw [hrun]
    exact h

theorem ends_lift {x : Except Fault α}
    (hx : ∀ fault, x = .error fault → fault.isDecodeError = true) :
    Ends (Decoder.lift x) st fun a st' => x = .ok a ∧ st' = st := by
  cases x with
  | ok a => exact ⟨rfl, rfl⟩
  | error fault => exact hx fault rfl

theorem ends_demand (n : Nat) (short : Nat → FramingCause) :
    Ends (Decoder.demand n short) st fun _ st' => st' = st :=
  .of_check rfl rfl fun _ => rfl

theorem ends_ofHandle (handle : Int32) :
    Ends (Decoder.ofHandle handle) st fun id st' => st' = st ∧ id.index < st.graph.size := by
  by_cases hin : 0 ≤ handle.toInt ∧ handle.toInt < st.graph.size
  · have hlt : handle.toInt.toNat < st.graph.size := by omega
    rw [Ends, Decoder.ofHandle, if_pos hin]
    exact ⟨rfl, hlt⟩
  · rw [Ends, Decoder.ofHandle, if_neg hin]
    exact rfl

/-! ## Names and types -/

theorem resolve_error {s : Schema} {name : String} {fault : Fault}
    (h : s.resolve name = .error fault) : fault.isDecodeError = true := by
  unfold Schema.resolve at h
  split at h
  · cases h
  · cases h
    rfl

private theorem ofDescriptor_refused {name : String} {fault : Fault}
    (h : FieldType.ofDescriptor name = .error fault) : ∃ cause, fault = .schema cause := by
  rw [FieldType.ofDescriptor] at h
  split at h
  · cases h
    exact ⟨_, rfl⟩
  · split at h
    · cases h
    · cases h
      exact ⟨_, rfl⟩

/-- A name that stands for no type is a fault of the schema. -/
theorem ofWireName_refused {name : String} {fault : Fault}
    (h : FieldType.ofWireName name = .error fault) : ∃ cause, fault = .schema cause := by
  rw [FieldType.ofWireName] at h
  split_ifs at h
  · cases h
    exact ⟨_, rfl⟩
  · exact ofDescriptor_refused h

theorem ofWireName_error {name : String} {fault : Fault}
    (h : FieldType.ofWireName name = .error fault) : fault.isDecodeError = true := by
  obtain ⟨cause, rfl⟩ := ofWireName_refused h
  rfl

theorem matchField_error {t : TypeDef} {seen : List Nat} {name : String} {sent : FieldType}
    {fault : Fault} (h : matchField t seen name sent = .error fault) :
    fault.isDecodeError = true := by
  unfold matchField at h
  split at h
  · cases h
    rfl
  · split at h
    · cases h
      rfl
    · split at h
      · cases h
        rfl
      · cases h

/-- A field that the receiver accepts is declared and persisted, and was not listed before. -/
theorem matchField_mem {t : TypeDef} {seen : List Nat} {name : String} {sent : FieldType}
    {f : FieldDef × Nat} (h : matchField t seen name sent = .ok f) :
    f ∈ t.persisted ∧ f.2 ∉ seen := by
  unfold matchField at h
  split at h
  · cases h
  · next found =>
    split at h
    · cases h
    · next hnew =>
      split at h
      · cases h
      · cases h
        exact ⟨List.mem_of_find?_eq_some found, hnew⟩

end Frame

end DatagramRpc
