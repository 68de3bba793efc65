import DatagramRpc.Text.Numeral

/-!
# Bytes in hexadecimal

Two digits for each byte, in small letters. Capitals are read as well.
-/

namespace DatagramRpc.Text

def hex (bs : List UInt8) : String := String.join (bs.map hexByte)

/-- The bytes that some digits stand for; `out` are those before them. -/
def hexBytes (out : Array UInt8) : List Char → Option (List UInt8)
  | [] => some out.toList
  | a :: b :: rest =>
    match digitValue 16 a, digitValue 16 b with
    | some h, some l => hexBytes (out.push (UInt8.ofNat (h * 16 + l))) rest
    | _, _ => none
  | _ => none

def ofHex (s : String) : Option (List UInt8) := hexBytes #[] s.toList

private theorem digitValue_digitChar {n : Nat} (h : n < 16) :
    digitValue 16 (Nat.digitChar n) = some n := by
  have : ∀ n : Fin 16, digitValue 16 (Nat.digitChar n) = some n.val := by decide
  exact this ⟨n, h⟩

private theorem toList_hex (bs : List UInt8) :
    (hex bs).toList = bs.flatMap fun b =>
      [Nat.digitChar (b.toNat / 16), Nat.digitChar (b.toNat % 16)] := by
  induction bs with
  | nil => simp [hex]
  | cons b bs ih =>
    simp only [hex, List.map_cons, String.join_cons, String.toList_append,
      List.flatMap_cons] at ih ⊢
    rw [ih, hexByte, String.toList_ofList]

/-- Reading undoes writing. -/
theorem ofHex_hex (bs : List UInt8) : ofHex (hex bs) = some bs := by
  have key : ∀ (out : Array UInt8) (bs : List UInt8),
      hexBytes out
        (bs.flatMap fun b => [Nat.digitChar (b.toNat / 16), Nat.digitChar (b.toNat % 16)]) =
        some (out.toList ++ bs) := by
    intro out bs
    induction bs generalizing out with
    | nil => simp [hexBytes]
    | cons b bs ih =>
      have hb := b.toNat_lt
      have h1 : b.toNat / 16 < 16 := by omega
      have h2 : b.toNat % 16 < 16 := by omega
      have h3 : UInt8.ofNat (b.toNat / 16 * 16 + b.toNat % 16) = b := by
        rw [Nat.div_add_mod']
        exact UInt8.ofNat_toNat
      simp only [List.flatMap_cons, List.cons_append, List.nil_append, hexBytes,
        digitValue_digitChar h1, digitValue_digitChar h2, h3]
      rw [ih]
      simp
  rw [ofHex, toList_hex, key]
  simp

end DatagramRpc.Text
