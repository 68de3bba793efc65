import DatagramRpc.Text.Numeral
import DatagramRpc.Yaml.Source

/-!
# Scalars

The texts of plain, quoted and block scalars. In the first two, blanks around a line end are left
out, a single line end becomes a blank, and of more the first is left out.
-/

namespace DatagramRpc.Yaml

/-- A text that was read, and the cells after it. -/
abbrev Scanned := Array Char × List Cell

/-- What was read since the last word. -/
inductive Between where
  | nothing
  | blanks (cs : Array Char)
  /-- Line ends, with the first one apart unless it was escaped. -/
  | breaks (first : Option Char) (more : Array Char)
  deriving DecidableEq, Repr

namespace Between

/-- After another blank. Blanks around line ends are left out. -/
def blank (g : Between) (c : Char) : Between :=
  match g with
  | nothing => blanks #[c]
  | blanks cs => blanks (cs.push c)
  | breaks first more => breaks first more

/-- After another line end. -/
def lineEnd (g : Between) (c : Char) : Between :=
  match g with
  | breaks first more => breaks first (more.push c)
  | _ => breaks (some c) #[]

/-- What it contributes to the text when a word follows. -/
def folded : Between → Array Char
  | nothing => #[]
  | blanks cs => cs
  | breaks (some '\n') more => if more.isEmpty then #[' '] else more
  | breaks (some c) more => #[c] ++ more
  | breaks none more => more

def isOnLine : Between → Bool
  | breaks .. => false
  | _ => true

end Between

/-! ## Quoted -/

/-- Between single quotes, a quote is written twice. -/
def singleQuoted (text : Array Char) (g : Between) : List Cell → Option Scanned
  | [] => none
  | c :: rest =>
    if isSpaceOrTab c.char then singleQuoted text (g.blank c.char) rest
    else if isBreak c.char then singleQuoted text (g.lineEnd c.char) rest
    else if c.char = endMark || isDocumentMark (c :: rest) then none
    else
      let text := text ++ g.folded
      if c.char = '\'' then
        match rest with
        | d :: rest' =>
          if d.char = '\'' then singleQuoted (text.push '\'') .nothing rest' else some (text, rest)
        | [] => some (text, [])
      else singleQuoted (text.push c.char) .nothing rest

/-- What a letter after a backslash stands for. -/
def escapedAs : Char → Option Char
  | '0' => some '\x00'
  | 'a' => some '\x07'
  | 'b' => some '\x08'
  | 't' => some '\t'
  | '\t' => some '\t'
  | 'n' => some '\n'
  | 'v' => some '\x0b'
  | 'f' => some '\x0c'
  | 'r' => some '\r'
  | 'e' => some '\x1b'
  | ' ' => some ' '
  | '"' => some '"'
  | '/' => some '/'
  | '\\' => some '\\'
  | 'N' => some '\x85'
  | '_' => some '\xa0'
  | 'L' => some '\u2028'
  | 'P' => some '\u2029'
  | _ => none

/-- How many hexadecimal digits follow a letter after a backslash. -/
def escapedDigits : Char → Option Nat
  | 'x' => some 2
  | 'u' => some 4
  | 'U' => some 8
  | _ => none

/-- The character with a number, which must be one. -/
def charOf (n : Nat) : Option Char := if n.isValidChar then some (Char.ofNat n) else none

/-- Between double quotes, a backslash starts an escape. Before a line end it takes the line end
out. -/
def doubleQuoted (text : Array Char) (g : Between) (cells : List Cell) : Option Scanned :=
  match cells with
  | [] => none
  | c :: rest =>
    if isSpaceOrTab c.char then doubleQuoted text (g.blank c.char) rest
    else if isBreak c.char then doubleQuoted text (g.lineEnd c.char) rest
    else if c.char = endMark || isDocumentMark (c :: rest) then none
    else
      let text := text ++ g.folded
      if c.char = '"' then some (text, rest)
      else if c.char = '\\' then
        match rest with
        | [] => none
        | d :: rest =>
          if isBreak d.char then doubleQuoted text (.breaks none #[]) rest
          else match escapedAs d.char, escapedDigits d.char with
          | some e, _ => doubleQuoted (text.push e) .nothing rest
          | none, some n =>
            let digits := (rest.take n).map (·.char)
            if digits.length < n then none
            else match (Text.readDigits 16 digits).bind charOf with
            | some e => doubleQuoted (text.push e) .nothing (rest.drop n)
            | none => none
          | none, none => none
      else doubleQuoted (text.push c.char) .nothing rest
termination_by cells.length
decreasing_by all_goals simp_wf <;> omega

/-! ## Plain -/

/-- The characters that have a meaning between brackets. -/
def isFlowMark (c : Char) : Bool := c == ',' || c == '[' || c == ']' || c == '\x7b' || c == '\x7d'

/-- A plain scalar, and whether a line end follows it. It ends before a colon or after a blank
before a number sign, and outside of brackets on a line that is indented less. -/
def plain (inFlow : Bool) (indent : Nat) (text : Array Char) (g : Between) :
    List Cell → Option (Scanned × Bool)
  | [] => some ((text, []), !g.isOnLine)
  | c :: rest =>
    let stop := some ((text, c :: rest), !g.isOnLine)
    if isSpaceOrTab c.char then
      if !g.isOnLine && c.column < indent && c.char = '\t' then none
      else plain inFlow indent text (g.blank c.char) rest
    else if isBreak c.char then plain inFlow indent text (g.lineEnd c.char) rest
    else if c.char = endMark || isDocumentMark (c :: rest) then stop
    else if g ≠ .nothing && (c.char = '#' || (!inFlow && c.column < indent)) then stop
    else
      let next := charAt 0 rest
      if inFlow && c.char = ':' && (isFlowMark next || next = '?') then none
      else if (c.char = ':' && isGap next) || (inFlow && isFlowMark c.char) then stop
      else plain inFlow indent ((text ++ g.folded).push c.char) .nothing rest

/-! ## Blocks -/

/-- What becomes of the line ends at the end of a block. -/
inductive Chomping where
  | strip
  | clip
  | keep
  deriving DecidableEq, Repr

/-- Line ends of empty lines, the widest indentation met on the way, and the cells after them. The
indentation of the block is not yet known while it is zero. A tab cannot indent. -/
def emptyLines (indent : Nat) (breaks : Array Char) (widest : Nat) :
    List Cell → Option (Array Char × Nat × List Cell)
  | [] => some (breaks, widest, [])
  | c :: rest =>
    let widest := max widest c.column
    let before := indent = 0 || c.column < indent
    if before && c.char = ' ' then emptyLines indent breaks widest rest
    else if before && c.char = '\t' then none
    else if isBreak c.char then emptyLines indent (breaks.push c.char) widest rest
    else some (breaks, widest, c :: rest)

private theorem emptyLines_length {indent widest w : Nat} {breaks bs : Array Char}
    {cells rest : List Cell} (h : emptyLines indent breaks widest cells = some (bs, w, rest)) :
    rest.length ≤ cells.length := by
  induction cells generalizing breaks widest with
  | nil => simp_all [emptyLines]
  | cons c cells ih =>
    simp only [emptyLines] at h
    split at h
    · exact Nat.le_succ_of_le (ih h)
    · split at h
      · cases h
      · split at h
        · exact Nat.le_succ_of_le (ih h)
        · simp_all

/-- What was read of a block: the text, the end of the last line, the line ends after it, and
whether the last line started with a blank. -/
structure Block where
  text : Array Char
  last : Array Char
  trailing : Array Char
  blankFirst : Bool

namespace Block

/-- What stands before the next line. Joined lines get a blank between them, unless one of them
starts with a blank or there are empty lines. -/
def beforeLine (b : Block) (joined blankFirst : Bool) : Array Char :=
  if joined && b.last == #['\n'] && !b.blankFirst && !blankFirst then
    if b.trailing.isEmpty then #[' '] else b.trailing
  else b.last ++ b.trailing

/-- The whole text. -/
def finish (b : Block) : Chomping → Array Char
  | .strip => b.text
  | .clip => b.text ++ b.last
  | .keep => b.text ++ b.last ++ b.trailing

end Block

/-- The lines of a block, as long as they are indented like the first one. -/
def blockLines (joined : Bool) (indent : Nat) (b : Block) (cells : List Cell) :
    Option (Block × List Cell) :=
  match cells with
  | [] => some (b, [])
  | c :: rest =>
    if c.column ≠ indent || c.char = endMark then some (b, c :: rest)
    else
      let blankFirst := isSpaceOrTab c.char
      let line := (c :: rest.takeWhile fun d => !isLineEnd d.char).map (·.char)
      let after := dropLine rest
      let last := (after.take 1).filter fun d => isBreak d.char
      match _h : emptyLines indent #[] 0 (after.drop last.length) with
      | none => none
      | some (trailing, _, rest') =>
        blockLines joined indent
          ⟨b.text ++ b.beforeLine joined blankFirst ++ line, (last.map (·.char)).toArray, trailing,
            blankFirst⟩ rest'
termination_by cells.length
decreasing_by
  have h1 := emptyLines_length ‹_›
  have h2 : after.length ≤ rest.length := (List.dropWhile_suffix _).length_le
  have h3 : (after.drop last.length).length ≤ after.length := by simp
  simp only [List.length_cons]
  omega

/-- The header of a block: an indentation and what becomes of the last line ends, in either
order. -/
def blockHeader (cs : List Cell) : Option (Option Nat × Chomping × List Cell) :=
  let chomping (cs : List Cell) : Option (Chomping × List Cell) :=
    match charAt 0 cs with
    | '+' => some (.keep, cs.drop 1)
    | '-' => some (.strip, cs.drop 1)
    | _ => none
  let digit (cs : List Cell) : Option Nat := Text.digitValue 10 (charAt 0 cs)
  let finish (n : Option Nat) (c : Chomping) (cs : List Cell) :=
    if n = some 0 then none else some (n, c, cs)
  match chomping cs with
  | some (c, cs) =>
    match digit cs with
    | some n => finish (some n) c (cs.drop 1)
    | none => finish none c cs
  | none =>
    match digit cs with
    | some n =>
      match chomping (cs.drop 1) with
      | some (c, cs) => finish (some n) c cs
      | none => finish (some n) .clip (cs.drop 1)
    | none => finish none .clip cs

/-- The rest of a line that holds at most blanks and a comment. -/
def blankLine (cs : List Cell) : Option (List Cell) :=
  let cs := cs.dropWhile fun c => isSpaceOrTab c.char
  let cs := if charAt 0 cs = '#' then dropLine cs else cs
  if isBreak (charAt 0 cs) then some (cs.drop 1)
  else if charAt 0 cs = endMark then some cs
  else none

/-- A block scalar after its mark. `parent` is the indentation around it, if there is any. -/
def blockScalar (joined : Bool) (parent : Option Nat) (cs : List Cell) : Option Scanned := do
  let (increment, chomping, cs) ← blockHeader cs
  let cs ← blankLine cs
  let known := match increment with
    | some n => parent.getD 0 + n
    | none => 0
  let (breaks, widest, cs) ← emptyLines known #[] 0 cs
  let least := match parent with
    | some p => p + 1
    | none => 1
  let indent := if known = 0 then max widest least else known
  let (b, cs) ← blockLines joined indent ⟨#[], #[], breaks, false⟩ cs
  return (b.finish chomping, cs)

end DatagramRpc.Yaml
