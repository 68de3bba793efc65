import DatagramRpc.Text.Pieces

/-!
# Metrics as text

Each metric is a section: a heading and then, for each series, one line of a counter or twelve of a
histogram. The order of the series means nothing. A listing puts the lines of a text into an order
that does not depend on it. A label name can hold line ends, so that a series breaks into more
lines, and some of them may look like headings; a listing goes by the lines alone.
-/

namespace DatagramRpc.Metrics

/-- What every heading begins with. -/
def headingMark : String := "# TYPE "

/-- The line that begins a metric. -/
def heading (metric kind : String) : String := headingMark ++ metric ++ " " ++ kind

def isHeading (line : String) : Bool := headingMark.toList.isPrefixOf line.toList

/-- The lines that each series takes under a heading. -/
def linesPerSeries (heading : String) : Nat :=
  if "histogram".toList.isSuffixOf heading.toList then 12 else 1

/-- Blocks of some lines each, at least one; the last may be shorter. -/
def blocks (size : Nat) : List String → List (List String)
  | [] => []
  | line :: rest => (line :: rest.take (size - 1)) :: blocks size (rest.drop (size - 1))
termination_by lines => lines.length
decreasing_by simp only [List.length_drop, List.length_cons]; omega

theorem flatten_blocks (size : Nat) (lines : List String) :
    (blocks size lines).flatten = lines := by
  fun_induction blocks size lines with
  | case1 => rfl
  | case2 line rest ih => simp [ih]

/-- The order of blocks is that of their lines. -/
def blockLe (a b : List String) : Bool := !List.lex b a fun x y => decide (x < y)

/-- A heading and its blocks in order. -/
def listSection : List String → List String
  | [] => []
  | heading :: lines =>
    heading :: ((blocks (linesPerSeries heading) lines).mergeSort blockLe).flatten

/-- The lines of a text that begins with a heading. -/
def listing (text : String) : List String :=
  let lines := (Text.pieces '\n' text).dropLast
  (lines.splitBy fun _ line => !isHeading line).flatMap listSection

end DatagramRpc.Metrics
