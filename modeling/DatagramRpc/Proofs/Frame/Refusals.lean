import DatagramRpc.Proofs.Frame.Derivations

/-!
# How the encoder refuses a graph

Everything that can be wrong with a graph that is to be written. The encoder checks the shape of a
value against its declared type before it writes it, so that further down a value and its type
cannot differ any more.
-/

namespace DatagramRpc.Frame

open Wire ObjectGraph

variable {α β : Type} {s : Schema} {g : ObjectGraph} {t : TypeDef}

/-- All that can be wrong with a graph. -/
inductive Refusal : Fault → Prop
  | missingNode (id : NodeId) : Refusal (.internal (.danglingNode id))
  | unknownType (typeName : String) : Refusal (.schema (.unknownType typeName))
  | fieldCount (typeName : String) (held declared : Nat) :
      Refusal (.schema (.nodeFieldCount typeName held declared))
  | field (typeName field : String) (declared : FieldType) :
      Refusal (.schema (.fieldMismatch typeName field declared))
  | depth : Refusal (.framing (.nestedTooDeep nestingLimit))
  | handles : Refusal (.framing .tooManyNodes)
  | text (length : Nat) : Refusal (.framing (.textTooLong length))
  | array : Refusal (.framing .arrayTooLong)

/-- Writing fails in no other way. -/
def RefusesOnly (write : Encoder α) : Prop :=
  ∀ seen fault, write seen = .error fault → Refusal fault

namespace RefusesOnly

variable {write : Encoder α} {next : α → Encoder β}

private theorem pure (a : α) : RefusesOnly (Pure.pure a : Encoder α) := fun _ _ h => nomatch h

private theorem throw {fault : Fault} (h : Refusal fault) :
    RefusesOnly (MonadExcept.throw fault : Encoder α) := by
  intro seen fault' hrun
  cases hrun
  exact h

private theorem throw_bind {fault : Fault} (h : Refusal fault) :
    RefusesOnly ((MonadExcept.throw fault : Encoder α) >>= next) := by
  intro seen fault' hrun
  cases hrun
  exact h

private theorem get : RefusesOnly (MonadState.get : Encoder (List NodeId)) := fun _ _ h => nomatch h

private theorem set (seen : List NodeId) : RefusesOnly (MonadStateOf.set seen : Encoder PUnit) :=
  fun _ _ h => nomatch h

private theorem lift {x : Except Fault α} (h : ∀ fault, x = .error fault → Refusal fault) :
    RefusesOnly (liftM x : Encoder α) := by
  intro seen fault hrun
  cases x with
  | error fault' =>
    cases hrun
    exact h _ rfl
  | ok a => cases hrun

private theorem bind (h : RefusesOnly write) (h' : ∀ a, RefusesOnly (next a)) :
    RefusesOnly (write >>= next) := by
  intro seen fault hrun
  cases hfirst : write seen with
  | error fault' =>
    rw [state_bind_error hfirst] at hrun
    cases hrun
    exact h seen _ hfirst
  | ok result =>
    rw [state_bind_run hfirst] at hrun
    exact h' result.1 result.2 fault hrun

/-- A step that leaves the state alone: what it gives is known further on. -/
theorem bind_lift {x : Except Fault α} (h : ∀ fault, x = .error fault → Refusal fault)
    (h' : ∀ a, x = .ok a → RefusesOnly (next a)) : RefusesOnly (liftM x >>= next) := by
  intro seen fault hrun
  cases x with
  | error fault' =>
    cases hrun
    exact h _ rfl
  | ok a => exact h' a rfl seen fault hrun

private theorem mapM {γ : Type} {f : γ → Encoder α} {l : List γ} (h : ∀ c ∈ l, RefusesOnly (f c)) :
    RefusesOnly (l.mapM f) := by
  induction l with
  | nil => exact pure []
  | cons c l ih =>
    rw [List.mapM_cons]
    obtain ⟨hfirst, hothers⟩ := List.forall_mem_cons.mp h
    exact hfirst.bind fun _ => (ih hothers).bind fun _ => pure _

end RefusesOnly

/-! ## Steps that only may fail -/

private theorem putText_refusal {v : String} {fault : Fault} (h : putText v = .error fault) :
    Refusal fault := by
  rw [putText] at h
  split at h
  · cases h
  · cases h
    exact .text _

private theorem slotValue_refusal {f : FieldDef × Nat} {fault : Fault}
    (h : slotValue t n f = .error fault) : Refusal fault := by
  unfold slotValue at h
  split at h
  · split at h
    · cases h
    · cases h
      exact .field ..
  · cases h
    exact .field ..

private theorem encodeFieldMeta_refusal {f : FieldDef} {fault : Fault}
    (h : encodeFieldMeta f = .error fault) : Refusal fault := by
  rcases bind_eq_error.mp h with hname | ⟨_, -, h⟩
  · exact putText_refusal hname
  · rcases bind_eq_error.mp h with htype | ⟨_, -, h⟩
    · exact putText_refusal htype
    · cases h

private theorem refusesOnly_value (type : FieldType) : ∀ {below : List NodeWriter} {v : Value},
    (∀ write ∈ below, ∀ target, RefusesOnly (write target)) → v.conformsTo type = true →
      RefusesOnly (encodeValue type below v) := by
  induction type with
  | array element ih =>
    intro below v hbelow hconforms
    cases v with
    | absentArray =>
      rw [encodeValue]
      exact .pure _
    | array items =>
      rw [encodeValue]
      split
      · exact .throw_bind .array
      · have hitems := List.all_eq_true.mp hconforms
        refine .bind (.mapM fun v hv => ih (fun write hwrite => ?_) (hitems v hv)) fun _ => .pure _
        exact hbelow write (List.mem_of_mem_tail hwrite)
    | _ => cases hconforms
  | object typeName =>
    intro below v hbelow hconforms
    cases v with
    | ref target =>
      cases below with
      | nil => exact .throw .depth
      | cons write below => exact hbelow write List.mem_cons_self target
    | _ => cases hconforms
  | text =>
    intro below v _ hconforms
    cases v with
    | text v =>
      cases v with
      | none =>
        rw [encodeValue]
        exact .pure _
      | some v =>
        rw [encodeValue]
        exact .bind_lift (fun _ => putText_refusal) fun _ _ => .pure _
    | _ => cases hconforms
  | _ =>
    intro below v _ hconforms
    cases v <;> first
      | (cases hconforms; done)
      | (rw [encodeValue]; exact .pure _)

private theorem resolve_refusal {name : String} {fault : Fault}
    (h : s.resolve name = .error fault) : Refusal fault := by
  unfold Schema.resolve at h
  split at h
  · cases h
  · cases h
    exact .unknownType name

private theorem node_refusal {id : NodeId} {fault : Fault} (h : g.node id = .error fault) :
    Refusal fault := by
  unfold ObjectGraph.node at h
  split at h
  · cases h
  · cases h
    exact .missingNode id

private theorem refusesOnly_newNode {below : List NodeWriter}
    (hbelow : ∀ write ∈ below, ∀ target, RefusesOnly (write target)) (n : Node) :
    RefusesOnly (encodeNewNode s below n) := by
  rw [encodeNewNode]
  refine .bind_lift (fun _ => resolve_refusal) fun t _ => ?_
  simp only
  split
  · exact .throw_bind (.fieldCount ..)
  · refine .bind_lift (fun _ => putText_refusal) fun name _ => ?_
    refine .bind (.mapM fun f _ => ?_) fun layout =>
      .bind (.mapM fun f _ => ?_) fun parts => .pure _
    · exact .lift fun _ => encodeFieldMeta_refusal
    · exact .bind_lift (fun _ => slotValue_refusal) fun v hv =>
        refusesOnly_value f.1.type hbelow (slotValue_ok hv).2

private theorem refusesOnly_ref {below : List NodeWriter}
    (hbelow : ∀ write ∈ below, ∀ target, RefusesOnly (write target)) (target : Option NodeId) :
    RefusesOnly (encodeRef s g below target) := by
  cases target with
  | none => exact .pure _
  | some id =>
    rw [encodeRef]
    refine .bind .get fun seen => ?_
    split
    · exact .pure _
    · split
      · exact .throw_bind .handles
      · refine .bind (.set _) fun _ => ?_
        exact .bind_lift (fun _ => node_refusal) fun n _ =>
          (refusesOnly_newNode hbelow n).bind fun _ => .pure _

private theorem refusesOnly_nodeWriters (level : Nat) :
    ∀ write ∈ nodeWriters s g level, ∀ target, RefusesOnly (write target) := by
  induction level with
  | zero => exact fun write hwrite => nomatch hwrite
  | succ level ih => exact List.forall_mem_cons.mpr ⟨refusesOnly_ref ih, ih⟩

theorem encode_refusal {root : Option NodeId} {fault : Fault} (h : encode s g root = .error fault) :
    Refusal fault := by
  rw [encode_eq] at h
  cases hrun : encodeRef s g (nodeWriters s g nestingLimit) root [] with
  | ok result =>
    rw [hrun] at h
    cases h
  | error fault' =>
    rw [hrun] at h
    cases h
    exact refusesOnly_ref (refusesOnly_nodeWriters nestingLimit) root [] _ hrun

end DatagramRpc.Frame
