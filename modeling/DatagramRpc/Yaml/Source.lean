/-!
# Source text

A YAML text as a list of characters with their places. Line ends are one character each, and a final
NUL, which no text contains, stands for the end. Everything that reads a text goes through this
list.
-/

namespace DatagramRpc.Yaml

/-- A character and where it stands, from zero on. -/
structure Cell where
  char : Char
  /-- The number of characters before it. -/
  index : Nat
  line : Nat
  column : Nat
  deriving DecidableEq, Repr

/-- The characters that a text may contain. -/
def isAllowed (c : Char) : Bool :=
  let n := c.toNat
  n == 9 || n == 10 || n == 13 || (32 ≤ n && n ≤ 126) || n == 0x85 || (0xA0 ≤ n && n ≤ 0xFFFD) ||
    0x10000 ≤ n

/-- The character that stands for the end. -/
def endMark : Char := '\x00'

theorem not_isAllowed_endMark : isAllowed endMark = false := by decide

/-- The characters that end a line. -/
def isBreak (c : Char) : Bool :=
  c == '\n' || c == '\r' || c == '\x85' || c == '\u2028' || c == '\u2029'

/-- One character for each end of a line; the last two kinds stay apart from the others. -/
def unifyBreaks : List Char → List Char
  | '\r' :: '\n' :: cs => '\n' :: unifyBreaks cs
  | '\r' :: cs => '\n' :: unifyBreaks cs
  | '\x85' :: cs => '\n' :: unifyBreaks cs
  | c :: cs => c :: unifyBreaks cs
  | [] => []

/-- Gives the characters their places, from one place on, and puts the end after them. -/
def place (index line column : Nat) : List Char → List Cell
  | [] => [⟨endMark, index, line, column⟩]
  | c :: cs =>
    ⟨c, index, line, column⟩ ::
      if isBreak c then place (index + 1) (line + 1) 0 cs else place
        (index + 1) line (column + 1) cs

/-- The cells of a text, unless it contains a character that it may not. -/
def cells (s : String) : Option (List Cell) :=
  let cs := s.toList
  if cs.all isAllowed then some (place 0 0 0 (unifyBreaks cs)) else none

def isSpaceOrTab (c : Char) : Bool := c == ' ' || c == '\t'

/-- Ends of lines and of the text. -/
def isLineEnd (c : Char) : Bool := isBreak c || c == endMark

/-- What separates words. -/
def isGap (c : Char) : Bool := isSpaceOrTab c || isLineEnd c

/-- The character some places ahead. -/
def charAt (n : Nat) (cs : List Cell) : Char := (cs[n]?.map (·.char)).getD endMark

/-- At the start of a line, three dashes or dots that stand alone: a document starts or ends. -/
def isDocumentMark (cs : List Cell) : Bool :=
  match cs with
  | a :: b :: c :: _ =>
    a.column == 0 && (a.char == '-' || a.char == '.') && b.char == a.char && c.char == a.char &&
      isGap (charAt 3 cs)
  | _ => false

/-- The cells of the present line are left out. -/
def dropLine (cs : List Cell) : List Cell := cs.dropWhile fun c => !isLineEnd c.char

end DatagramRpc.Yaml
