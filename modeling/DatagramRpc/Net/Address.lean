import DatagramRpc.Text.Numeral

/-!
# Socket addresses

An internet address and a port, with their text. A written address of version 4 has no leading
zeros; one of version 6 stands in brackets, may end in a dotted part and in a scope, and is written
back with its longest run of zero groups left out.
-/

namespace DatagramRpc

/-- An internet address. -/
inductive Host where
  | v4 (a b c d : UInt8)
  | v6 (groups : Vector UInt16 8) (scope : UInt32)
  deriving DecidableEq, Repr

/-- Where datagrams come from and go to. -/
structure Address where
  host : Host
  port : UInt16
  deriving DecidableEq, Repr

namespace Address

/-! ## Reading -/

/-- A step of reading: a value and the characters after it. -/
abbrev Step (α : Type) := List Char → Option (α × List Char)

/-- One given character. -/
def expect (c : Char) : Step Unit
  | d :: rest => if d = c then some ((), rest) else none
  | [] => none

/-- A number of at most `digits` digits and at most `greatest`. -/
def number (base greatest : Nat) (digits : Option Nat) (zeroFirst : Bool) : Step Nat := fun cs =>
  let ds := cs.takeWhile fun c => (Text.digitValue base c).isSome
  let tooLong := digits.any (· < ds.length)
  let zeros := !zeroFirst && ds.head? == some '0' && 1 < ds.length
  if tooLong || zeros then none
  else do
    let n ← (Text.readDigits base ds).filter (· ≤ greatest)
    return (n, cs.drop ds.length)

/-- What follows a separator, which is not there before the first of a series. -/
def after {α : Type} (sep : Char) (first : Bool) (step : Step α) : Step α := fun cs => do
  let cs ← if first then some cs else (expect sep cs).map (·.2)
  step cs

def octet : Step Nat := number 10 255 (some 3) false

def dotted : Step (List Nat) := fun cs => do
  let (a, cs) ← octet cs
  let (b, cs) ← after '.' false octet cs
  let (c, cs) ← after '.' false octet cs
  let (d, cs) ← after '.' false octet cs
  return ([a, b, c, d], cs)

def hexGroup : Step Nat := number 16 0xFFFF (some 4) true

/-- At most `limit` groups between colons, with whether the last two of them were a dotted part. -/
def groups (first : Bool) : Nat → List Char → List Nat × Bool × List Char
  | 0, cs => ([], false, cs)
  | limit + 1, cs =>
    match if limit = 0 then none else after ':' first dotted cs with
    | some ([a, b, c, d], rest) => ([a * 256 + b, c * 256 + d], true, rest)
    | _ =>
      match after ':' first hexGroup cs with
      | some (g, rest) =>
        let (gs, isDotted, rest) := groups false limit rest
        (g :: gs, isDotted, rest)
      | none => ([], false, cs)

/-- The eight groups of an address of version 6. Two colons stand for at least one zero group. -/
def eightGroups : Step (Vector UInt16 8) := fun cs => do
  let (head, isDotted, cs) := groups true 8 cs
  let (all, cs) ← show Option (List Nat × List Char) from
    if head.length = 8 then some (head, cs)
    else if isDotted then none
    else do
      let (_, cs) ← expect ':' cs
      let (_, cs) ← expect ':' cs
      let (tail, _, cs) := groups true (7 - head.length) cs
      return (head ++ List.replicate (8 - head.length - tail.length) 0 ++ tail, cs)
  return (Vector.ofFn fun i => UInt16.ofNat (all.getD i 0), cs)

def portOf : Step UInt16 := fun cs => do
  let (_, cs) ← expect ':' cs
  let (n, cs) ← number 10 65535 none true cs
  return (UInt16.ofNat n, cs)

def version4 : Step Address := fun cs => do
  match ← dotted cs with
  | ([a, b, c, d], cs) =>
    let (port, cs) ← portOf cs
    return (⟨.v4 (UInt8.ofNat a) (UInt8.ofNat b) (UInt8.ofNat c) (UInt8.ofNat d), port⟩, cs)
  | _ => none

def scopeOf : Step Nat := fun cs => do
  let (_, cs) ← expect '%' cs
  number 10 (Text.greatestUnsigned 32) none true cs

def version6 : Step Address := fun cs => do
  let (_, cs) ← expect '[' cs
  let (gs, cs) ← eightGroups cs
  let (scope, cs) := (scopeOf cs).getD (0, cs)
  let (_, cs) ← expect ']' cs
  let (port, cs) ← portOf cs
  return (⟨.v6 gs (UInt32.ofNat scope), port⟩, cs)

/-- The address that a text stands for. -/
def ofText (s : String) : Option Address :=
  let whole (r : Option (Address × List Char)) : Option Address :=
    r.bind fun (a, rest) => if rest.isEmpty then some a else none
  (match version4 s.toList with
    | some r => whole (some r)
    | none => whole (version6 s.toList))

/-! ## Writing -/

def renderDotted (a b c d : Nat) : String := ".".intercalate ([a, b, c, d].map toString)

def renderGroups (gs : List UInt16) : String :=
  ":".intercalate (gs.map fun g => String.ofList (Nat.toDigits 16 g.toNat))

/-- The first longest run of zeros, as its place and length; `best` is the longest run before `i`,
and `run` the length of the run that ends there. -/
def zeroRun : List UInt16 → Nat → Nat → Nat × Nat → Nat × Nat
  | [], _, _, best => best
  | g :: gs, i, run, best =>
    if g = 0 then
      zeroRun gs (i + 1) (run + 1) (if best.2 < run + 1 then (i - run, run + 1) else best)
    else zeroRun gs (i + 1) 0 best

/-- Version 6 without its brackets. An address of version 4 inside one of version 6 keeps its
dots. -/
def renderSix (groups : Vector UInt16 8) : String :=
  match groups.toList with
  | [0, 0, 0, 0, 0, 0xFFFF, x, y] =>
    "::ffff:" ++ renderDotted (x.toNat / 256) (x.toNat % 256) (y.toNat / 256) (y.toNat % 256)
  | gs =>
    let (start, length) := zeroRun gs 0 0 (0, 0)
    if 1 < length then
      renderGroups (gs.take start) ++ "::" ++ renderGroups (gs.drop (start + length))
    else renderGroups gs

/-- The text of an address. -/
def render (a : Address) : String :=
  let port := toString a.port.toNat
  match a.host with
  | .v4 w x y z => renderDotted w.toNat x.toNat y.toNat z.toNat ++ ":" ++ port
  | .v6 groups scope =>
    let zone := if scope = 0 then "" else "%" ++ toString scope.toNat
    "[" ++ renderSix groups ++ zone ++ "]:" ++ port

end Address

end DatagramRpc
