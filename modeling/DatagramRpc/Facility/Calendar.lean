import DatagramRpc.Text.Numeral

/-!
# Days and times

The days of the week, weeks with something for each day, and times of the day.
-/

namespace DatagramRpc

/-! ## Days of the week

The seven days, Monday first.
-/

inductive Weekday where
  | monday | tuesday | wednesday | thursday | friday | saturday | sunday
  deriving DecidableEq, Repr

namespace Weekday

/-- All days in the order of the week. -/
def all : List Weekday := [monday, tuesday, wednesday, thursday, friday, saturday, sunday]

def index : Weekday → Fin 7
  | monday => 0
  | tuesday => 1
  | wednesday => 2
  | thursday => 3
  | friday => 4
  | saturday => 5
  | sunday => 6

def name : Weekday → String
  | monday => "MONDAY"
  | tuesday => "TUESDAY"
  | wednesday => "WEDNESDAY"
  | thursday => "THURSDAY"
  | friday => "FRIDAY"
  | saturday => "SATURDAY"
  | sunday => "SUNDAY"

theorem mem_all (d : Weekday) : d ∈ all := by cases d <;> decide

theorem all_nodup : all.Nodup := by decide

private theorem index_injective {a b : Weekday} (h : a.index = b.index) : a = b := by
  cases a <;> cases b <;> first | rfl | exact absurd h (by decide)

end Weekday

/-! ## One thing for each day of the week -/

structure Week (α : Type) where
  days : Vector α 7

namespace Week

variable {α : Type}

/-- The same thing every day. -/
def all (a : α) : Week α := ⟨Vector.replicate 7 a⟩

def get (w : Week α) (d : Weekday) : α := w.days[d.index]

def set (w : Week α) (d : Weekday) (a : α) : Week α := ⟨w.days.set d.index a⟩

@[simp] theorem get_all (a : α) (d : Weekday) : (all a).get d = a := by
  simp [all, get]

@[simp] theorem get_set_self (w : Week α) (d : Weekday) (a : α) : (w.set d a).get d = a := by
  simp [set, get]

theorem get_set_of_ne {w : Week α} {d e : Weekday} {a : α} (h : d ≠ e) :
    (w.set d a).get e = w.get e := by
  have hi : d.index.val ≠ e.index.val := fun hv => h (Weekday.index_injective (Fin.ext hv))
  simp [set, get, Vector.getElem_set_ne _ _ hi]

/-- The days' lists one after another. -/
def flatten (w : Week (List α)) : List α := Weekday.all.flatMap w.get

end Week

/-! ## Times of the day

An hour and a minute. Times are compared by the minutes since midnight.
-/

structure ClockTime where
  hour : Fin 24
  minute : Fin 60
  deriving DecidableEq, Repr

namespace ClockTime

/-- Minutes since midnight. -/
def minutes (t : ClockTime) : Nat := t.hour * 60 + t.minute

instance : LE ClockTime := ⟨fun a b => a.minutes ≤ b.minutes⟩

instance : LT ClockTime := ⟨fun a b => a.minutes < b.minutes⟩

instance (a b : ClockTime) : Decidable (a ≤ b) :=
  inferInstanceAs (Decidable (a.minutes ≤ b.minutes))

instance (a b : ClockTime) : Decidable (a < b) :=
  inferInstanceAs (Decidable (a.minutes < b.minutes))

theorem le_iff {a b : ClockTime} : a ≤ b ↔ a.minutes ≤ b.minutes := Iff.rfl

theorem lt_iff {a b : ClockTime} : a < b ↔ a.minutes < b.minutes := Iff.rfl

theorem minutes_injective {a b : ClockTime} (h : a.minutes = b.minutes) : a = b := by
  obtain ⟨⟨ah, hah⟩, ⟨am, ham⟩⟩ := a
  obtain ⟨⟨bh, hbh⟩, ⟨bm, hbm⟩⟩ := b
  simp only [minutes] at h
  have h1 : ah = bh := by omega
  have h2 : am = bm := by omega
  subst h1 h2
  rfl

/-- The later of two times. -/
def later (a b : ClockTime) : ClockTime := if a ≤ b then b else a

/-- Four digits, without a colon. -/
def render (t : ClockTime) : String := Text.padded 2 t.hour ++ Text.padded 2 t.minute

end ClockTime

end DatagramRpc
