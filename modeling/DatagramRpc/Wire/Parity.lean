import DatagramRpc.Fault

/-!
# The parity trailer

A frame is a body and one more byte, which is 1 if the body has an odd number of set bits and 0
otherwise.
-/

namespace DatagramRpc.Wire

/-- The number of set bits among so many low bits of a number. -/
def lowSetBits : Nat → Nat → Nat
  | 0, _ => 0
  | width + 1, n => n % 2 + lowSetBits width (n / 2)

/-- The number of set bits of a byte. -/
def setBits (b : UInt8) : Nat := lowSetBits 8 b.toNat

/-- The number of set bits of all bytes. -/
def totalSetBits (bs : List UInt8) : Nat := bs.foldl (fun acc b => acc + setBits b) 0

/-- Even parity: what makes the total of set bits even. -/
def parity (bs : List UInt8) : UInt8 := UInt8.ofNat (totalSetBits bs % 2)

/-- The body with its trailer. -/
def withTrailer (body : List UInt8) : List UInt8 := body ++ [parity body]

/-- The body of a frame whose trailer is right. -/
def checkTrailer (frame : List UInt8) : Except Fault (List UInt8) :=
  match frame.getLast? with
  | none => .error (.framing .emptyFrame)
  | some received =>
    let body := frame.dropLast
    let computed := parity body
    if computed = received then .ok body else .error (.integrity computed received)

/-- One bit turned over, counted from the lowest bit of the first byte. -/
def flipBit (bs : List UInt8) (i : Nat) : List UInt8 :=
  bs.modify (i / 8) fun b => b ^^^ (1 <<< UInt8.ofNat (i % 8))

@[simp] theorem checkTrailer_withTrailer (body : List UInt8) :
    checkTrailer (withTrailer body) = .ok body := by
  simp [checkTrailer, withTrailer]

end DatagramRpc.Wire
