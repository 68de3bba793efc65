import DatagramRpc.Metrics.Listing

/-!
# Counters and their labels

A metric is split into series by labels, and a counter keeps one number for each series.
-/

namespace DatagramRpc.Metrics

/-! ## Labels

The labels of a series, by which one metric is split into many. The order in which labels are given
does not matter: a series is known by its labels in sorted order. In text a value stands in quotes,
and quotes, backslashes and line ends in it are escaped. A name stands as it is.
-/

/-- Names with values. -/
abbrev Labels := List (String × String)

/-- By name, and then by value. -/
def labelLe (a b : String × String) : Bool :=
  decide (a.1 < b.1) || (a.1 == b.1 && decide (a.2 ≤ b.2))

/-- What the series is known by. -/
def Labels.key (labels : Labels) : Labels := labels.mergeSort labelLe

def escapedChar (c : Char) : List Char :=
  match c with
  | '\\' => ['\\', '\\']
  | '"' => ['\\', '"']
  | '\n' => ['\\', 'n']
  | c => [c]

def escaped (value : String) : String := String.ofList (value.toList.flatMap escapedChar)

/-- The labels as they stand between the braces of a line. -/
def Labels.render (key : Labels) : String :=
  ",".intercalate (key.map fun l => l.1 ++ "=\"" ++ escaped l.2 ++ "\"")

/-- A label text between braces; nothing at all when there are no labels. -/
def braced (inside : String) : String := if inside.isEmpty then "" else "\x7b" ++ inside ++ "\x7d"

/-- The series of one metric, each with what was gathered for it. -/
abbrev Series (α : Type) := List (Labels × α)

/-- What was gathered under some labels. -/
def Series.get? {α : Type} (s : Series α) (labels : Labels) : Option α :=
  (s.find? fun e => e.1 == labels.key).map (·.2)

/-- Changes what is gathered under some labels, from `initial` on. -/
def Series.update {α : Type} (s : Series α) (initial : α) (labels : Labels) (f : α → α) :
    Series α :=
  let key := labels.key
  if s.any fun e => e.1 == key then s.map fun e => if e.1 = key then (e.1, f e.2) else e
  else s ++ [(key, f initial)]

/-! ## Counters

A number for each series, which only grows, modulo 2^64.
-/

structure Counter where
  series : Series UInt64
  deriving DecidableEq, Repr

namespace Counter

def empty : Counter := ⟨[]⟩

def add (c : Counter) (labels : Labels) (n : UInt64) : Counter :=
  ⟨c.series.update 0 labels (· + n)⟩

def increment (c : Counter) (labels : Labels) : Counter := c.add labels 1

/-- Zero for a series that was never counted. -/
def get (c : Counter) (labels : Labels) : UInt64 := (c.series.get? labels).getD 0

/-- The heading, and what stands for each series. -/
def render (c : Counter) (name : String) : List String :=
  heading name "counter" :: c.series.map fun e =>
    name ++ braced e.1.render ++ " " ++ toString e.2.toNat

end Counter

end DatagramRpc.Metrics
