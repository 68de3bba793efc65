/-!
# UTF-8 and where it goes wrong

`decode` reads UTF-8. When the bytes are no UTF-8 it says where: the first byte that no character
can start at, and how many bytes from there are certainly wrong. The count is missing exactly when
the bytes end inside a character that might still have been completed.
-/

namespace DatagramRpc.Text

/-- The first fault of a byte string that is not UTF-8. -/
structure Utf8Fault where
  /-- Bytes before the fault. -/
  index : Nat
  /-- Bytes that are wrong, none when the text only stops too early. -/
  wrong : Option Nat
  deriving DecidableEq, Repr

namespace Utf8Fault

def message (f : Utf8Fault) : String :=
  match f.wrong with
  | some n => s!"invalid utf-8 sequence of {n} bytes from index {f.index}"
  | none => s!"incomplete utf-8 byte sequence from index {f.index}"

end Utf8Fault

/-- The least and greatest second byte after a first byte, with the number of further bytes that
follow the second. -/
def utf8Second (first : UInt8) : Option (UInt8 × UInt8 × Nat) :=
  if 0xC2 ≤ first && first ≤ 0xDF then some (0x80, 0xBF, 0)
  else if first == 0xE0 then some (0xA0, 0xBF, 1)
  else if first == 0xED then some (0x80, 0x9F, 1)
  else if 0xE1 ≤ first && first ≤ 0xEF then some (0x80, 0xBF, 1)
  else if first == 0xF0 then some (0x90, 0xBF, 2)
  else if first == 0xF4 then some (0x80, 0x8F, 2)
  else if 0xF1 ≤ first && first ≤ 0xF3 then some (0x80, 0xBF, 2)
  else none

/-- What the bytes after a first byte say about the character: its rest (`inl`), or the fault. -/
def utf8Follow (seen : Nat) : Nat → List UInt8 → List UInt8 ⊕ Option Nat
  | 0, rest => .inl rest
  | _ + 1, [] => .inr none
  | n + 1, b :: rest =>
    if 0x80 ≤ b && b ≤ 0xBF then utf8Follow (seen + 1) n rest else .inr (some seen)

/-- The bytes after the first character, or what is wrong with it. -/
def utf8Step : List UInt8 → List UInt8 ⊕ Option Nat
  | [] => .inr none
  | first :: rest =>
    if first < 0x80 then .inl rest
    else match utf8Second first, rest with
      | none, _ => .inr (some 1)
      | some _, [] => .inr none
      | some (lo, hi, more), second :: rest =>
        if lo ≤ second && second ≤ hi then utf8Follow 2 more rest else .inr (some 1)

private theorem utf8Follow_length {seen n : Nat} {bs rest : List UInt8}
    (h : utf8Follow seen n bs = .inl rest) : rest.length ≤ bs.length := by
  induction n generalizing seen bs with
  | zero => simp only [utf8Follow, Sum.inl.injEq] at h; simp [h]
  | succ n ih =>
    cases bs with
    | nil => simp [utf8Follow] at h
    | cons b bs =>
      simp only [utf8Follow] at h
      split at h
      · have := ih h; simp; omega
      · simp at h

private theorem utf8Step_length {bs rest : List UInt8} (h : utf8Step bs = .inl rest) :
    rest.length < bs.length := by
  cases bs with
  | nil => simp [utf8Step] at h
  | cons first bs =>
    simp only [utf8Step] at h
    split at h
    · simp at h; simp [h]
    · split at h
      · simp at h
      · simp at h
      · split at h
        · have := utf8Follow_length h; simp; omega
        · simp at h

/-- The first fault at or after the given index, if any. -/
def utf8FaultFrom (index : Nat) (bs : List UInt8) : Option Utf8Fault :=
  if bs.isEmpty then none
  else match _h : utf8Step bs with
    | .inr wrong => some ⟨index, wrong⟩
    | .inl rest => utf8FaultFrom (index + (bs.length - rest.length)) rest
termination_by bs.length
decreasing_by exact utf8Step_length _h

/-- The text that the bytes spell in UTF-8. -/
def decodeUtf8 (bs : List UInt8) : Except Utf8Fault String :=
  match String.fromUTF8? ⟨bs.toArray⟩ with
  | some s => .ok s
  | none => .error ((utf8FaultFrom 0 bs).getD ⟨0, none⟩)

/-- The UTF-8 bytes of a text. -/
def encodeUtf8 (s : String) : List UInt8 := s.toUTF8.data.toList

theorem decodeUtf8_encodeUtf8 (s : String) : decodeUtf8 (encodeUtf8 s) = .ok s := by
  have h : (⟨(encodeUtf8 s).toArray⟩ : ByteArray) = s.toUTF8 := by
    simp [encodeUtf8]
  have hs : String.fromUTF8? s.toUTF8 = some s := dif_pos s.isValidUTF8
  simp only [decodeUtf8, h, hs]

end DatagramRpc.Text
