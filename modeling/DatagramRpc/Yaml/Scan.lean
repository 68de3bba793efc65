import DatagramRpc.Text.Utf8
import DatagramRpc.Yaml.Scalar

/-!
# Tokens of a text

The tokens that a YAML text consists of, and how they are found.
-/

namespace DatagramRpc.Yaml

/-! ## Tokens

What a YAML text consists of. Blocks have tokens for where they start and end although no character
stands there; the indentation tells.
-/

/-- How a scalar is written. -/
inductive Style where
  | plain
  | quoted
  /-- Lines that are kept. -/
  | literal
  /-- Lines that are joined. -/
  | folded
  deriving DecidableEq, Repr

/-- The bytes of a tag, which need not be text. None of them is zero. -/
abbrev Tag := List UInt8

inductive Token where
  | version (major minor : Nat)
  /-- A short form for the starts of tags. -/
  | tagHandle (handle : String) (start : Tag)
  | documentStart
  | documentEnd
  | textEnd
  | blockSequenceStart
  | blockMappingStart
  | blockEnd
  | flowSequenceStart
  | flowSequenceEnd
  | flowMappingStart
  | flowMappingEnd
  /-- An item of a block sequence follows. -/
  | blockEntry
  /-- A comma between items. -/
  | flowEntry
  | key
  | value
  | anchor (name : String)
  | alias (name : String)
  | tag (handle : String) (suffix : Tag)
  | scalar (style : Style) (text : String)
  deriving DecidableEq, Repr

/-! ## From text to tokens

Blocks start where a token stands further to the right than the block around it, and end where one
stands further to the left. That a scalar is a key shows only at the colon after it; so its place
among the tokens is kept as long as it may turn out to be one, and the key is put there.
-/

/-- A token that is a key if a colon follows it on its line. -/
structure PossibleKey where
  /-- How many brackets are open around it. -/
  level : Nat
  /-- Its place among the tokens. -/
  token : Nat
  index : Nat
  line : Nat
  column : Nat
  /-- It stands where only a key can. -/
  isRequired : Bool
  deriving DecidableEq, Repr

structure Scanner where
  rest : List Cell
  /-- The columns of the blocks that are open, innermost first. -/
  indents : List Nat
  /-- How many brackets are open. -/
  level : Nat
  /-- The possible keys, innermost first, with at most one at each level. -/
  keys : List PossibleKey
  /-- Whether a key may start here. -/
  keyAllowed : Bool
  tokens : Array Token

namespace Scanner

/-- Before the first character. -/
def start (cs : List Cell) : Scanner := ⟨cs, [], 0, [], true, #[]⟩

def inFlow (s : Scanner) : Bool := 0 < s.level

def current (s : Scanner) : Cell := s.rest.headD ⟨endMark, 0, 0, 0⟩

def advance (s : Scanner) (n : Nat) : Scanner := { s with rest := s.rest.drop n }

def emit (s : Scanner) (t : Token) : Scanner := { s with tokens := s.tokens.push t }

def allowKey (s : Scanner) (b : Bool) : Scanner := { s with keyAllowed := b }

/-! ## Keys -/

/-- The possible key at the present level. -/
def key? (s : Scanner) : Option PossibleKey := s.keys.head?.filter fun k => k.level = s.level

/-- The possible key at the present level, replaced. -/
def setKey (s : Scanner) (k : Option PossibleKey) : Scanner :=
  { s with keys := k.toList ++ if s.key?.isSome then s.keys.tail else s.keys }

/-- A key stands on one line and is not too long. -/
def isStale (k : PossibleKey) (here : Cell) : Bool :=
  k.line < here.line || k.index + 1024 < here.index

/-- Gives up keys that can no longer be any. A required one must not be given up. Keys further out
start earlier, so that behind one that is given up no other is kept. -/
def dropStaleKeys (s : Scanner) : Option Scanner :=
  let kept := s.keys.takeWhile fun k => !isStale k s.current
  if (s.keys.drop kept.length).any (·.isRequired) then none else some { s with keys := kept }

/-- Gives up the possible key at the present level. -/
def dropKey (s : Scanner) : Option Scanner :=
  match s.key? with
  | some k => if k.isRequired then none else some (s.setKey none)
  | none => some s

/-- Notes that the next token may be a key. -/
def saveKey (s : Scanner) : Option Scanner :=
  if s.keyAllowed then do
    let here := s.current
    let isRequired := !s.inFlow && s.indents.head? == some here.column
    let s ← s.dropKey
    return s.setKey (some ⟨s.level, s.tokens.size, here.index, here.line, here.column, isRequired⟩)
  else some s

/-! ## Blocks -/

/-- Opens a block at a column if that is further right, with its token at a place. -/
def openBlock (s : Scanner) (column at? : Nat) (t : Token) : Scanner :=
  if s.inFlow || s.indents.head?.any (column ≤ ·) then s
  else { s with
    indents := column :: s.indents
    tokens := s.tokens.insertIdxIfInBounds at? t }

/-- Closes the blocks that are further right than a column; without one, all. -/
def closeBlocks (s : Scanner) (column : Option Nat) : Scanner :=
  if s.inFlow then s
  else
    let isOpen (i : Nat) : Bool := column.all (· < i)
    let closed := (s.indents.takeWhile isOpen).length
    { s with
      indents := s.indents.drop closed
      tokens := s.tokens ++ Array.replicate closed .blockEnd }

/-! ## Brackets -/

def openFlow (s : Scanner) (t : Token) : Option Scanner := do
  let s ← s.saveKey
  let s := (s.advance 1).emit t
  return { s with level := s.level + 1, keyAllowed := true }

def closeFlow (s : Scanner) (t : Token) : Option Scanner := do
  let s ← s.dropKey
  let s := (s.advance 1).emit t
  return { s with level := s.level - 1, keyAllowed := false }

def flowEntry (s : Scanner) : Option Scanner := do
  let s ← s.dropKey
  return ((s.advance 1).emit .flowEntry).allowKey true

/-! ## Dashes, question marks, colons -/

def blockEntry (s : Scanner) : Option Scanner := do
  if !s.inFlow && !s.keyAllowed then none
  let s ← (s.openBlock s.current.column s.tokens.size .blockSequenceStart).dropKey
  return ((s.advance 1).emit .blockEntry).allowKey true

def explicitKey (s : Scanner) : Option Scanner := do
  if !s.inFlow && !s.keyAllowed then none
  let s ← (s.openBlock s.current.column s.tokens.size .blockMappingStart).dropKey
  return ((s.advance 1).emit .key).allowKey !s.inFlow

def value (s : Scanner) : Option Scanner :=
  match s.key? with
  | some k =>
    let s := { s with tokens := s.tokens.insertIdxIfInBounds k.token .key }
    let s := (s.openBlock k.column k.token .blockMappingStart).setKey none
    some (((s.advance 1).emit .value).allowKey false)
  | none =>
    if !s.inFlow && !s.keyAllowed then none
    else
      let s := s.openBlock s.current.column s.tokens.size .blockMappingStart
      some (((s.advance 1).emit .value).allowKey !s.inFlow)

/-! ## Names, tags, directives -/

/-- Letters, digits, dashes and underscores. -/
def isNameChar (c : Char) : Bool := c.isAlphanum || c == '_' || c == '-'

def isUriChar (c : Char) : Bool := isNameChar c || ";/?:@&=+$.!~*'()%".toList.contains c

/-- The cells at the start whose characters satisfy a test, as text, and the cells after them. -/
def spanText (p : Char → Bool) (cs : List Cell) : String × List Cell :=
  let (word, rest) := cs.span fun c => p c.char
  (String.ofList (word.map (·.char)), rest)

/-- The name of an anchor or of an alias. -/
def nameToken (s : Scanner) (make : String → Token) : Option Scanner := do
  let s ← s.saveKey
  let (name, rest) := spanText isNameChar (s.rest.drop 1)
  let next := charAt 0 rest
  if name.isEmpty || !(isGap next || "?:,]\x7d%@`".toList.contains next) then none
  return ({ s with rest }.emit (make name)).allowKey false

/-- How many bytes a character has that starts with a byte; none does where this is zero. -/
def leadWidth (b : UInt8) : Nat :=
  if b < 0x80 then 1
  else if b < 0xC0 then 0
  else if b < 0xE0 then 2
  else if b < 0xF0 then 3
  else if b < 0xF8 then 4
  else 0

/-- The bytes of a tag as it is written. A byte may be a percent sign and two digits; if it starts a
character, the `more` other bytes of it have to follow likewise. -/
def writtenBytes (more : Nat) : List Char → Option (List UInt8)
  | [] => if more = 0 then some [] else none
  | '%' :: a :: b :: cs => do
    let byte := UInt8.ofNat (← Text.readDigits 16 [a, b])
    if more = 0 then
      if leadWidth byte = 0 then none
      return byte :: (← writtenBytes (leadWidth byte - 1) cs)
    else
      if !(0x80 ≤ byte && byte < 0xC0) then none
      return byte :: (← writtenBytes (more - 1) cs)
  | '%' :: _ => none
  | c :: cs => if more = 0 then (writtenBytes 0 cs).map (UInt8.ofNat c.toNat :: ·) else none

/-- A tag as it is written, or a part of one. It ends before a zero byte. -/
def tagOf (text : String) : Option Tag :=
  (writtenBytes 0 text.toList).map fun bytes => bytes.takeWhile (· ≠ 0)

/-- A tag: written out between angle brackets, or a handle and a suffix. -/
def tagToken (s : Scanner) : Option Scanner := do
  let s ← s.saveKey
  let afterMark := s.rest.drop 1
  let (handle, suffix, rest) ← show Option (String × Tag × List Cell) from
    if charAt 0 afterMark = '<' then do
      let (uri, rest) := spanText (fun c => isUriChar c || c == ',' || c == '[' || c == ']')
        (afterMark.drop 1)
      if uri.isEmpty || charAt 0 rest ≠ '>' then none
      return ("", ← tagOf uri, rest.drop 1)
    else do
      let (name, rest) := spanText isNameChar afterMark
      if charAt 0 rest = '!' then do
        let (uri, rest) := spanText isUriChar (rest.drop 1)
        if uri.isEmpty then none
        return ("!" ++ name ++ "!", ← tagOf uri, rest)
      else do
        let (uri, rest) := spanText isUriChar rest
        let suffix ← tagOf (name ++ uri)
        return if suffix.isEmpty then ("", Text.encodeUtf8 "!", rest) else ("!", suffix, rest)
  let next := charAt 0 rest
  if !(isGap next || (s.inFlow && next == ',')) then none
  return ({ s with rest }.emit (.tag handle suffix)).allowKey false

def dropBlanks (cs : List Cell) : List Cell := cs.dropWhile fun c => isSpaceOrTab c.char

/-- A version number of at most nine digits, and the cells after it. -/
def versionPart (cs : List Cell) : Option (Nat × List Cell) := do
  let (digits, rest) := spanText Char.isDigit cs
  if 9 < digits.length then none
  return (← Text.readDigits 10 digits.toList, rest)

/-- A directive. There are two: the version, and a handle for tags. -/
def directive (s : Scanner) : Option Scanner := do
  let s ← (s.closeBlocks none).dropKey
  let (name, rest) := spanText isNameChar (s.rest.drop 1)
  if !isGap (charAt 0 rest) then none
  let (token, rest) ← show Option (Token × List Cell) from
    match name with
    | "YAML" => do
      let (major, rest) ← versionPart (dropBlanks rest)
      if charAt 0 rest ≠ '.' then none
      let (minor, rest) ← versionPart (rest.drop 1)
      return (.version major minor, rest)
    | "TAG" => do
      let rest := dropBlanks rest
      if charAt 0 rest ≠ '!' then none
      let (name, rest) := spanText isNameChar (rest.drop 1)
      let isClosed := charAt 0 rest = '!'
      if !isClosed && !name.isEmpty then none
      let rest := if isClosed then rest.drop 1 else rest
      if !isSpaceOrTab (charAt 0 rest) then none
      let (uri, rest) := spanText (fun c => isUriChar c || c == ',' || c == '[' || c == ']')
        (dropBlanks rest)
      if uri.isEmpty || !isGap (charAt 0 rest) then none
      return (.tagHandle ("!" ++ name ++ if isClosed then "!" else "") (← tagOf uri), rest)
    | _ => none
  let rest ← blankLine rest
  return ({ s with rest }.emit token).allowKey false

/-! ## Documents and scalars -/

def documentMark (s : Scanner) (t : Token) : Option Scanner := do
  let s ← (s.closeBlocks none).dropKey
  return ((s.advance 3).emit t).allowKey false

def quotedToken (s : Scanner)
    (read : Array Char → Between → List Cell → Option Scanned) : Option Scanner := do
  let s ← s.saveKey
  let (text, rest) ← read #[] .nothing (s.rest.drop 1)
  return ({ s with rest }.emit (.scalar .quoted (String.ofList text.toList))).allowKey false

def plainToken (s : Scanner) : Option Scanner := do
  let s ← s.saveKey
  let indent := match s.indents with
    | i :: _ => i + 1
    | [] => 0
  let ((text, rest), endsLine) ← plain s.inFlow indent #[] .nothing s.rest
  return ({ s with rest }.emit (.scalar .plain (String.ofList text.toList))).allowKey endsLine

def blockToken (s : Scanner) (style : Style) : Option Scanner := do
  let s ← s.dropKey
  let (text, rest) ← blockScalar (style = .folded) s.indents.head? (s.rest.drop 1)
  return ({ s with rest }.emit (.scalar style (String.ofList text.toList))).allowKey true

/-! ## All tokens -/

/-- Skips blanks, comments and line ends. After a line end outside of brackets a key may start. A
tab does not count as a blank where a key may start. -/
def skipGaps (inFlow : Bool) (keyAllowed : Bool) (inComment : Bool) :
    List Cell → Bool × List Cell
  | [] => (keyAllowed, [])
  | c :: rest =>
    if isBreak c.char then skipGaps inFlow (keyAllowed || !inFlow) false rest
    else if c.char = endMark then (keyAllowed, c :: rest)
    else if inComment || c.char = ' ' || (c.char = '\t' && (inFlow || !keyAllowed)) ||
        (c.column = 0 && c.char = '\ufeff') then
      skipGaps inFlow keyAllowed inComment rest
    else if c.char = '#' then skipGaps inFlow keyAllowed true rest
    else (keyAllowed, c :: rest)

/-- The characters that a plain scalar does not start with, unless a word follows. -/
def isIndicator (c : Char) : Bool := "-?:,[]\x7b\x7d#&*!|>'\"%@`".toList.contains c

/-- The token at the next character, which is not a blank. -/
def step (s : Scanner) : Option Scanner :=
  let c := s.current.char
  let next := charAt 1 s.rest
  if s.current.column = 0 && c = '%' then s.directive
  else if isDocumentMark s.rest then
    s.documentMark (if c = '-' then .documentStart else .documentEnd)
  else match c with
  | '[' => s.openFlow .flowSequenceStart
  | '\x7b' => s.openFlow .flowMappingStart
  | ']' => s.closeFlow .flowSequenceEnd
  | '\x7d' => s.closeFlow .flowMappingEnd
  | ',' => s.flowEntry
  | '*' => s.nameToken .alias
  | '&' => s.nameToken .anchor
  | '!' => s.tagToken
  | '\'' => s.quotedToken singleQuoted
  | '"' => s.quotedToken doubleQuoted
  | _ =>
    if c = '-' && isGap next then s.blockEntry
    else if c = '?' && (s.inFlow || isGap next) then s.explicitKey
    else if c = ':' && (s.inFlow || isGap next) then s.value
    else if c = '|' && !s.inFlow then s.blockToken .literal
    else if c = '>' && !s.inFlow then s.blockToken .folded
    else if isGap c then none
    else if !isIndicator c || c = '-' || (!s.inFlow && (c = '?' || c = ':')) then s.plainToken
    else none

/-- The tokens from here to the end. Every step reads a character, so `fuel` for one step more than
there are characters is never used up. -/
def run : (fuel : Nat) → Scanner → Option (List Token)
  | 0, _ => none
  | fuel + 1, s => do
    let (keyAllowed, rest) := skipGaps s.inFlow s.keyAllowed false s.rest
    let s ← { s with keyAllowed, rest }.dropStaleKeys
    if s.current.char = endMark then
      let s ← (s.closeBlocks none).dropKey
      return (s.emit .textEnd).tokens.toList
    else run fuel (← (s.closeBlocks (some s.current.column)).step)

end Scanner

/-- The tokens of a text. -/
def tokens (text : String) : Option (List Token) := do
  let cs ← cells text
  Scanner.run (cs.length + 1) (.start cs)

end DatagramRpc.Yaml
