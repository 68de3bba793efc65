import DatagramRpc.Double.Numeral
import DatagramRpc.Text.Numeral
import DatagramRpc.Yaml.Scan

/-!
# Nodes and numbers

The tree that tokens stand for, and the numbers that plain scalars stand for.
-/

namespace DatagramRpc.Yaml

/-! ## Numbers in YAML

The numbers that plain scalars stand for. Whole numbers may be written in base 16, 8 or 2; one in
base 10 has no leading zeros. Both kinds of numbers may have a plus sign.
-/

/-- The text after its first characters, if it starts with them. -/
def after? (start cs : List Char) : Option (List Char) :=
  if start.isPrefixOf cs then some (cs.drop start.length) else none

/-- A whole number after a mark for its base. -/
def basedNumber? (cs : List Char) : Option Nat :=
  let based (mark : String) (base : Nat) : Option Nat :=
    (after? mark.toList cs).bind (Text.readDigits base)
  (based "0x" 16).or ((based "0o" 8).or (based "0b" 2))

/-- A whole number of at most 64 bits, not negative. -/
def unsigned? (text : String) : Option Nat :=
  let cs := text.toList
  let digits := (after? ['+'] cs).getD cs
  let number :=
    if digits.head? = some '0' && 1 < digits.length then basedNumber? digits
    else Text.readDigits 10 digits
  number.filter (· ≤ Text.greatestUnsigned 64)

/-- A double; what is not finite has names of its own that start with a point. -/
def double? (text : String) : Option UInt64 :=
  let cs := text.toList
  let digits := (after? ['+'] cs).getD cs
  let positive := String.ofList digits
  if [".inf", ".Inf", ".INF"].contains positive then some 0x7FF0000000000000
  else if ["-.inf", "-.Inf", "-.INF"].contains text then some 0xFFF0000000000000
  else if [".nan", ".NaN", ".NAN"].contains text then some Double.nanBits
  else if digits.length < cs.length &&
  (digits.head? = some '+' || digits.head? = some '-') then none
  else (Double.readNumeral positive).filter fun bits =>
    bits &&& 0x7FF0000000000000 ≠ 0x7FF0000000000000

/-! ## Documents

The tree of a YAML text, which must hold exactly one document. Short forms of tags are replaced by
the tags. Aliases stay in the tree, and a walk through it follows them. Anchors have numbers: the
number of names given before. A name that is given again counts once and has its last number, so
that nodes may share one; an alias stands for the one of them that begins last, be it before or
after the alias.
-/

inductive Node where
  | scalar (style : Style) (tag : Option Tag) (text : String)
  | sequence (items : List Node)
  | mapping (entries : List (Node × Node))
  /-- What has an anchor of some number. -/
  | alias (number : Nat)
  deriving Repr

/-- What stands where nothing is written. -/
def Node.empty : Node := .scalar .plain none ""

structure Document where
  root : Node
  /-- What stands for each number of an anchor. -/
  targets : Array Node
  deriving Repr

/-- The tokens to come, and what anchors and short forms of tags stand for. -/
structure Composer where
  tokens : List Token
  /-- The number of each anchor. -/
  anchors : List (String × Nat)
  /-- The nodes that have a number, in the order in which they begin; none while a node is not
  complete. -/
  numbered : Array (Nat × Option Node)
  handles : List (String × Tag)

/-- A step of building the tree, which fails where the text has no meaning. -/
abbrev Compose := StateT Composer Option

namespace Compose

def peek : Compose Token := do return (← get).tokens.headD .textEnd

def skip : Compose Unit := modify fun c => { c with tokens := c.tokens.drop 1 }

/-- The next token must be this one. -/
def expect (t : Token) : Compose Unit := do
  if (← peek) ≠ t then failure
  skip

/-- What a step gives, unless one of some tokens comes, which then leaves a place empty. -/
def orEmpty (ends : List Token) (node : Compose Node) : Compose Node := do
  if ends.contains (← peek) then return .empty else node

/-- A tag in full. -/
def resolve (handle : String) (suffix : Tag) : Compose Tag := do
  if handle.isEmpty then return suffix
  let some (_, start) := (← get).handles.find? fun h => h.1 == handle | failure
  return start ++ suffix

def anchor? : Compose (Option String) := do
  match ← peek with
  | .anchor name =>
    skip
    return some name
  | _ => return none

def tag? : Compose (Option Tag) := do
  match ← peek with
  | .tag handle suffix =>
    skip
    return some (← resolve handle suffix)
  | _ => return none

/-- An anchor and a tag, each at most once and in either order. -/
def properties : Compose (Option String × Option Tag) := do
  match ← anchor? with
  | some a => return (some a, ← tag?)
  | none =>
    let t ← tag?
    return (← anchor?, t)

/-- A node with an anchor begins. -/
def beginAnchored (anchor : String) : Compose Unit :=
  modify fun c =>
    let number := c.anchors.length
    { c with
      anchors := (anchor, number) :: c.anchors.filter fun a => a.1 != anchor
      numbered := c.numbered.push (number, none) }

/-- A node, built by a step, with the anchor before it. -/
def anchored (anchor : Option String) (node : Compose Node) : Compose Node := do
  match anchor with
  | none => node
  | some anchor =>
    let place := (← get).numbered.size
    beginAnchored anchor
    let d ← node
    modify fun c => { c with numbered := c.numbered.modify place fun e => (e.1, some d) }
    return d

/-- An alias, whose anchor has to be given before it. -/
def aliased (anchor : String) : Compose Node := do
  let some (_, number) := (← get).anchors.find? fun a => a.1 == anchor | failure
  return .alias number

/-! The parts of the tree call each other, at most three times before a token is read. So `fuel` for
three calls a token and three more is never used up. -/

mutual

/-- A node, in a block or between brackets. Where `bare` holds, the items of a sequence may follow a
key without being indented. -/
def node (inBlock bare : Bool) : Nat → Compose Node
  | 0 => failure
  | fuel + 1 => do
    if let .alias name := ← peek then
      skip
      aliased name
    else
      let (anchor, tag) ← properties
      anchored anchor (content inBlock bare tag (anchor.isSome || tag.isSome) fuel)

/-- What a node consists of besides its properties, which may be all there is. -/
def content (inBlock bare : Bool) (tag : Option Tag) (hasProperties : Bool) : Nat → Compose Node
  | 0 => failure
  | fuel + 1 => do
    match ← peek, inBlock with
    | .scalar style text, _ =>
      skip
      return .scalar style tag text
    | .flowSequenceStart, _ =>
      skip
      return .sequence (← flowItems true fuel)
    | .flowMappingStart, _ =>
      skip
      return .mapping (← flowEntries true fuel)
    | .blockSequenceStart, true =>
      skip
      return .sequence (← blockItems fuel)
    | .blockMappingStart, true =>
      skip
      return .mapping (← blockEntries fuel)
    | next, _ =>
      if bare && next = .blockEntry then return .sequence (← bareItems fuel)
      else if hasProperties then return .scalar .plain tag ""
      else failure

/-- The items of a block sequence. -/
def blockItems : Nat → Compose (List Node)
  | 0 => failure
  | fuel + 1 => do
    if (← peek) = .blockEnd then
      skip
      return []
    expect .blockEntry
    let item ← orEmpty [.blockEntry, .blockEnd] (node true false fuel)
    return item :: (← blockItems fuel)

/-- The items of a sequence that is not indented. It ends where no item follows. -/
def bareItems : Nat → Compose (List Node)
  | 0 => failure
  | fuel + 1 => do
    if (← peek) ≠ .blockEntry then return []
    skip
    let item ← orEmpty [.blockEntry, .key, .value, .blockEnd] (node true false fuel)
    return item :: (← bareItems fuel)

/-- The entries of a block mapping. A key or a value may be empty. -/
def blockEntries : Nat → Compose (List (Node × Node))
  | 0 => failure
  | fuel + 1 => do
    let ends : List Token := [.key, .value, .blockEnd]
    if (← peek) = .blockEnd then
      skip
      return []
    expect .key
    let key ← orEmpty ends (node true true fuel)
    let value ← if (← peek) = .value then do
        skip
        orEmpty ends (node true true fuel)
      else pure .empty
    return (key, value) :: (← blockEntries fuel)

/-- The items between square brackets. An item may be a mapping of one entry. -/
def flowItems (first : Bool) : Nat → Compose (List Node)
  | 0 => failure
  | fuel + 1 => do
    if (← peek) = .flowSequenceEnd then
      skip
      return []
    if !first then expect .flowEntry
    match ← peek with
    | .flowSequenceEnd =>
      skip
      return []
    | .key =>
      skip
      let key ← orEmpty [.value, .flowEntry, .flowSequenceEnd] (node false false fuel)
      let value ← flowValue .flowSequenceEnd fuel
      return .mapping [(key, value)] :: (← flowItems false fuel)
    | _ =>
      let item ← node false false fuel
      return item :: (← flowItems false fuel)

/-- The entries between braces. -/
def flowEntries (first : Bool) : Nat → Compose (List (Node × Node))
  | 0 => failure
  | fuel + 1 => do
    if (← peek) = .flowMappingEnd then
      skip
      return []
    if !first then expect .flowEntry
    match ← peek with
    | .flowMappingEnd =>
      skip
      return []
    | .key =>
      skip
      let key ← orEmpty [.value, .flowEntry, .flowMappingEnd] (node false false fuel)
      let value ← flowValue .flowMappingEnd fuel
      return (key, value) :: (← flowEntries false fuel)
    | _ =>
      let key ← node false false fuel
      return (key, .empty) :: (← flowEntries false fuel)

/-- The value of an entry between brackets, if there is one. -/
def flowValue (closing : Token) : Nat → Compose Node
  | 0 => failure
  | fuel + 1 => do
    if (← peek) ≠ .value then return .empty
    skip
    orEmpty [.flowEntry, closing] (node false false fuel)

end

/-- A node begins later than others with its number, and takes their place. -/
def setTarget (targets : Array Node) : Nat × Option Node → Array Node
  | (number, some n) =>
    if number < targets.size then targets.setIfInBounds number n else targets.push n
  | (_, none) => targets

/-- The handles that are there without being given. -/
def defaultHandles : List (String × Tag) :=
  [("!", Text.encodeUtf8 "!"), ("!!", Text.encodeUtf8 "tag:yaml.org,2002:")]

/-- The directives before a document: one version at most, and no handle twice. -/
def directives (seenVersion : Bool) (given : List (String × Tag)) :
    List Token → Option (List (String × Tag) × List Token)
  | .version major minor :: ts =>
    if seenVersion || major ≠ 1 || !(minor = 1 || minor = 2) then none
    else directives true given ts
  | .tagHandle handle start :: ts =>
    if given.any fun h => h.1 == handle then none
    else directives seenVersion ((handle, start) :: given) ts
  | ts => some (given, ts)

/-- The start of a document: nothing, or directives and a mark. -/
def documentStart (ts : List Token) : Option (List (String × Tag) × List Token) := do
  let (given, rest) ← directives false [] ts
  if rest.head? = some .documentStart then return (given, rest.drop 1)
  if rest.length = ts.length then return ([], ts) else none

end Compose

open Compose in
/-- The document of a text, if there is exactly one. -/
def Document.ofText? (text : String) : Option Document := do
  let ts ← tokens text
  if ts = [.textEnd] then none
  let (given, rest) ← documentStart ts
  let isMarked := rest.length < ts.length
  let root := node true false (3 * rest.length + 3)
  let root := if isMarked then
      orEmpty [.documentStart, .documentEnd, .textEnd] root else root
  let (root, c) ← root.run ⟨rest, [], #[], given ++ defaultHandles⟩
  if (c.tokens.dropWhile (· = .documentEnd)) ≠ [.textEnd] then none
  return ⟨root, c.numbered.foldl setTarget #[]⟩

/-! ## Walks -/

mutual

/-- The number of scalars, aliases, starts and ends in a node. -/
def Node.length : Node → Nat
  | .scalar .. => 1
  | .alias _ => 1
  | .sequence items => itemsLength items + 2
  | .mapping entries => entriesLength entries + 2

def itemsLength : List Node → Nat
  | [] => 0
  | n :: ns => n.length + itemsLength ns

def entriesLength : List (Node × Node) → Nat
  | [] => 0
  | e :: es => entryLength e + entriesLength es

def entryLength : Node × Node → Nat
  | (key, value) => key.length + value.length

end

/-- A walk through a document, with the number of aliases that may still be followed. -/
abbrev Walk := ReaderT Document (StateT Nat Option)

/-- Where a walk goes on from a node: an alias is followed, any other node stands for itself. -/
def Node.follow : Node → Walk Node
  | .alias number => do
    match ← get with
    | 0 => failure
    | left + 1 => set left
    (← read).targets[number]?
  | n => return n

/-- How many aliases may be followed for each scalar, alias, start and end of a document. A short
text may stand for a huge tree. -/
def followRate : Nat := 100

/-- A walk from the root of a document. -/
def Document.walk {α : Type} (d : Document) (start : Node → Walk α) : Option α :=
  ((start d.root).run d).run' (followRate * d.root.length)

end DatagramRpc.Yaml
