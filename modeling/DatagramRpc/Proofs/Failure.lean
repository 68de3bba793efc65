/-!
# Computations that may fail

What is known of a computation in several steps once it has succeeded.
-/

namespace DatagramRpc

variable {ε α β : Type}

/-- Steps that succeed together succeed one by one. -/
theorem bind_eq_ok {x : Except ε α} {f : α → Except ε β} {b : β} :
    x >>= f = .ok b ↔ ∃ a, x = .ok a ∧ f a = .ok b := by
  cases x with
  | error e => exact ⟨fun h => (nomatch h), fun ⟨_, h, _⟩ => (nomatch h)⟩
  | ok a =>
    refine ⟨fun h => ⟨a, rfl, h⟩, fun ⟨a', ha, hb⟩ => ?_⟩
    cases ha
    exact hb

/-- Steps fail together if one of them fails after those before it have succeeded. -/
theorem bind_eq_error {x : Except ε α} {f : α → Except ε β} {e : ε} :
    x >>= f = .error e ↔ x = .error e ∨ ∃ a, x = .ok a ∧ f a = .error e := by
  cases x with
  | error e' =>
    refine ⟨fun h => .inl ?_, fun h => ?_⟩
    · cases h
      rfl
    · rcases h with h | ⟨_, h, _⟩
      · cases h
        rfl
      · cases h
  | ok a =>
    refine ⟨fun h => .inr ⟨a, rfl, h⟩, fun h => ?_⟩
    rcases h with h | ⟨a', h, he⟩
    · cases h
    · cases h
      exact he

/-- What refuses under a condition and goes on otherwise succeeds only where the condition does not
hold. -/
theorem unless_throw_eq_ok {c : Prop} [Decidable c] {e : ε} {x : Except ε β} {b : β} :
    (if c then (throw e : Except ε PUnit) >>= fun _ => x else x) = .ok b ↔ ¬ c ∧ x = .ok b := by
  split
  · next h => exact ⟨fun hb => (nomatch hb), fun hb => absurd h hb.1⟩
  · next h => exact (and_iff_right h).symm

theorem ok_of_toOption {x : Except ε α} {a : α} (h : x.toOption = some a) : x = .ok a := by
  cases x with
  | error e => cases h
  | ok b => rw [Option.some.inj h]

/-- What every step keeps holds of the last state. -/
theorem foldlM_ok {P : β → Prop} {f : β → α → Except ε β}
    (step : ∀ b a b', P b → f b a = .ok b' → P b') {l : List α} {b b' : β} (hb : P b)
    (h : l.foldlM f b = .ok b') : P b' := by
  induction l generalizing b with
  | nil =>
    cases h
    exact hb
  | cons a l ih =>
    obtain ⟨b₁, h₁, h⟩ := bind_eq_ok.mp h
    exact ih (step b a b₁ hb h₁) h

/-- Steps for all elements of a list succeed if each of them does by itself. -/
theorem mapM_succeeds_iff {f : α → Except ε β} {l : List α} :
    (∃ bs, l.mapM f = .ok bs) ↔ ∀ a ∈ l, ∃ b, f a = .ok b := by
  induction l with
  | nil => exact ⟨fun _ a ha => (nomatch ha), fun _ => ⟨[], rfl⟩⟩
  | cons a l ih =>
    rw [List.mapM_cons, List.forall_mem_cons, ← ih]
    constructor
    · rintro ⟨bs, h⟩
      obtain ⟨b, hfirst, h⟩ := bind_eq_ok.mp h
      obtain ⟨others, hothers, -⟩ := bind_eq_ok.mp h
      exact ⟨⟨b, hfirst⟩, others, hothers⟩
    · rintro ⟨⟨b, hfirst⟩, others, hothers⟩
      exact ⟨b :: others, bind_eq_ok.mpr ⟨b, hfirst, bind_eq_ok.mpr ⟨others, hothers, rfl⟩⟩⟩

/-- Steps for the elements of a list in another order have the same results in that order. -/
theorem mapM_perm {ε α β : Type} {f : α → Except ε β} {l l' : List α} (hl : l.Perm l') {bs : List β}
    (h : l.mapM f = .ok bs) : ∃ bs', l'.mapM f = .ok bs' ∧ bs.Perm bs' := by
  induction hl generalizing bs with
  | nil => exact ⟨bs, h, .refl _⟩
  | cons a _ ih =>
    rw [List.mapM_cons] at h
    obtain ⟨b, hfirst, h⟩ := bind_eq_ok.mp h
    obtain ⟨rest, hrest, hdone⟩ := bind_eq_ok.mp h
    cases hdone
    obtain ⟨rest', hrest', hperm⟩ := ih hrest
    refine ⟨b :: rest', ?_, hperm.cons b⟩
    rw [List.mapM_cons, hfirst]
    exact bind_eq_ok.mpr ⟨b, rfl, bind_eq_ok.mpr ⟨rest', hrest', rfl⟩⟩
  | swap a a' l =>
    rw [List.mapM_cons, List.mapM_cons] at h
    obtain ⟨b', hfirst, h⟩ := bind_eq_ok.mp h
    obtain ⟨others, hothers, hdone⟩ := bind_eq_ok.mp h
    obtain ⟨b, hsecond, hothers⟩ := bind_eq_ok.mp hothers
    obtain ⟨rest, hrest, hothers⟩ := bind_eq_ok.mp hothers
    cases hothers
    cases hdone
    refine ⟨b :: b' :: rest, ?_, .swap b b' rest⟩
    rw [List.mapM_cons, List.mapM_cons, hsecond, hfirst, hrest]
    rfl
  | trans _ _ ih ih' =>
    obtain ⟨mid, hmid, hperm⟩ := ih h
    obtain ⟨bs', hbs', hperm'⟩ := ih' hmid
    exact ⟨bs', hbs', hperm.trans hperm'⟩

/-! ## Computations that keep a state -/

variable {σ : Type} {s s' : σ} {b : β}

theorem state_bind_ok {x : StateT σ (Except ε) α} {f : α → StateT σ (Except ε) β} :
    (x >>= f) s = .ok (b, s') ↔ ∃ a mid, x s = .ok (a, mid) ∧ f a mid = .ok (b, s') := by
  show Except.bind (x s) (fun p => f p.1 p.2) = _ ↔ _
  refine bind_eq_ok.trans ⟨fun ⟨⟨a, mid⟩, h, h'⟩ => ⟨a, mid, h, h'⟩, fun ⟨a, mid, h, h'⟩ => ?_⟩
  exact ⟨(a, mid), h, h'⟩

/-- The first step is done. -/
theorem state_bind_run {x : StateT σ (Except ε) α} {f : α → StateT σ (Except ε) β} {a : α} {mid : σ}
    (h : x s = .ok (a, mid)) : (x >>= f) s = f a mid := by
  show Except.bind (x s) (fun p => f p.1 p.2) = _
  rw [h]
  rfl

/-- The first step fails, and the others are not taken. -/
theorem state_bind_error {x : StateT σ (Except ε) α} {f : α → StateT σ (Except ε) β} {e : ε}
    (h : x s = .error e) : (x >>= f) s = .error e := by
  show Except.bind (x s) (fun p => f p.1 p.2) = _
  rw [h]
  rfl

theorem state_lift_ok {x : Except ε β} :
    (liftM x : StateT σ (Except ε) β) s = .ok (b, s') ↔ x = .ok b ∧ s' = s := by
  refine bind_eq_ok.trans ⟨fun ⟨a, h, h'⟩ => ?_, fun ⟨h, h'⟩ => ⟨b, h, by rw [h']; rfl⟩⟩
  cases h'
  exact ⟨h, rfl⟩

/-- Steps that only may fail leave the state alone. -/
theorem state_mapM_lift_ok {f : α → Except ε β} {l : List α} {bs : List β}
    (h : l.mapM (fun a => (liftM (f a) : StateT σ (Except ε) β)) s = .ok (bs, s')) :
    l.mapM f = .ok bs ∧ s' = s := by
  induction l generalizing bs s' with
  | nil =>
    cases h
    exact ⟨rfl, rfl⟩
  | cons a l ih =>
    rw [List.mapM_cons] at h ⊢
    obtain ⟨b, mid, hfirst, hothers⟩ := state_bind_ok.mp h
    obtain ⟨hb, rfl⟩ := state_lift_ok.mp hfirst
    obtain ⟨rest, last, hrest, hdone⟩ := state_bind_ok.mp hothers
    obtain ⟨hmap, hlast⟩ := ih hrest
    cases hdone
    exact ⟨bind_eq_ok.mpr ⟨b, hb, bind_eq_ok.mpr ⟨rest, hmap, rfl⟩⟩, hlast⟩

/-! ## Computations that keep a state even when they fail -/

theorem estate_bind_ok {m : EStateM ε σ α} {f : α → EStateM ε σ β} :
    (m >>= f) s = .ok b s' ↔ ∃ a mid, m s = .ok a mid ∧ f a mid = .ok b s' := by
  show EStateM.bind m f s = _ ↔ _
  rw [EStateM.bind]
  cases m s with
  | error e mid => exact ⟨fun h => (nomatch h), fun ⟨_, _, h, _⟩ => (nomatch h)⟩
  | ok a mid =>
    refine ⟨fun h => ⟨a, mid, rfl, h⟩, fun ⟨a', mid', h, h'⟩ => ?_⟩
    cases h
    exact h'

end DatagramRpc
