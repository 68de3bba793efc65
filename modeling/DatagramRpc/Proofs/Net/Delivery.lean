import DatagramRpc.Net.Network
import DatagramRpc.Proofs.Failure

/-!
# What waits at an address

Nothing waits that has not been sent. Each operation of the network adds at most the datagrams that
it is given.
-/

namespace DatagramRpc

namespace Network

variable {n n' : Network} {a b source receiver : Address} {f : List Parcel → List Parcel}
  {p : Parcel} {bytes : List UInt8}

theorem waiting_setWaiting (n : Network) (a b : Address) (f : List Parcel → List Parcel) :
    (n.setWaiting a f).waiting b =
      ((n.sockets.find? fun s => s.address == b).map fun s =>
        if s.address = a then f s.waiting else s.waiting).getD [] := by
  have haddress : ∀ s : Socket,
      (if s.address = a then { s with waiting := f s.waiting } else s).address = s.address := by
    intro s
    split <;> rfl
  have hwaiting : ∀ s : Socket,
      (if s.address = a then { s with waiting := f s.waiting } else s).waiting =
      if s.address = a then f s.waiting else s.waiting := by
    intro s
    split <;> rfl
  rw [waiting, setWaiting, List.find?_map]
  simp only [Function.comp_def, haddress, Option.map_map, hwaiting]

theorem mem_setWaiting (hp : p ∈ (n.setWaiting a f).waiting b) :
    (b = a ∧ p ∈ f (n.waiting a)) ∨ (b ≠ a ∧ p ∈ n.waiting b) := by
  rw [waiting_setWaiting] at hp
  rw [waiting, waiting]
  cases hfind : n.sockets.find? fun s => s.address == b with
  | none =>
    rw [hfind] at hp
    cases hp
  | some s =>
    have hs : s.address = b := by simpa using List.find?_some hfind
    rw [hfind] at hp
    simp only [Option.map_some, Option.getD_some, hs] at hp ⊢
    by_cases hba : b = a
    · subst hba
      rw [if_pos rfl] at hp
      rw [hfind]
      exact .inl ⟨rfl, hp⟩
    · rw [if_neg hba] at hp
      exact .inr ⟨hba, hp⟩

theorem mem_send (h : n.send source receiver bytes = .ok n') (hp : p ∈ n'.waiting a) :
    p ∈ n.waiting a ∨ (a = receiver ∧ p = ⟨source, bytes⟩) := by
  obtain ⟨-, -, hdone⟩ := bind_eq_ok.mp h
  cases hdone
  split at hp
  · rcases mem_setWaiting hp with ⟨rfl, hp⟩ | ⟨-, hp⟩
    · rcases List.mem_append.mp hp with hp | hp
      · exact .inl hp
      · exact .inr ⟨rfl, List.mem_singleton.mp hp⟩
    · exact .inl hp
  · exact .inl hp

end Network

theorem Exchange.mem_sendAll {n : Network} {source a : Address} {out : List (Address × List UInt8)}
    {p : Parcel} (hp : p ∈ (sendAll n source out).waiting a) :
    p ∈ n.waiting a ∨ (p.source = source ∧ (a, p.bytes) ∈ out) := by
  induction out generalizing n with
  | nil => exact .inl hp
  | cons d out ih =>
    rcases ih hp with hp | ⟨hsource, hd⟩
    · replace hp : p ∈ ((n.send source d.1 d.2).toOption.getD n).waiting a := hp
      cases hsend : n.send source d.1 d.2 with
      | error fault =>
        rw [hsend] at hp
        exact .inl hp
      | ok n' =>
        rw [hsend] at hp
        rcases Network.mem_send hsend hp with hp | ⟨rfl, rfl⟩
        · exact .inl hp
        · exact .inr ⟨rfl, List.mem_cons_self⟩
    · exact .inr ⟨hsource, List.mem_cons_of_mem _ hd⟩

end DatagramRpc
