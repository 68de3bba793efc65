import DatagramRpc.Metrics.Counter
import DatagramRpc.Metrics.Listing
import DatagramRpc.Text.Pieces
import Mathlib.Data.List.Basic

/-!
# Labels as text

The text of labels can be read in one way only, whatever the values are, as long as no name holds an
equals sign: a name ends at the first one, and a value ends at the first quote that no backslash
escapes. Such a text stands in one line if no name holds a line end, and so do headings and numbers.
-/

namespace DatagramRpc.Metrics

/-! ## Values -/

/-- A character is escaped, or it stands for itself. -/
theorem escapedChar_cases (c : Char) :
    (c = '\\' ∧ escapedChar c = ['\\', '\\']) ∨ (c = '"' ∧ escapedChar c = ['\\', '"']) ∨
      (c = '\n' ∧ escapedChar c = ['\\', 'n']) ∨
      (c ≠ '\\' ∧ c ≠ '"' ∧ c ≠ '\n') ∧ escapedChar c = [c] := by
  unfold escapedChar
  split
  · exact .inl ⟨rfl, rfl⟩
  · exact .inr (.inl ⟨rfl, rfl⟩)
  · exact .inr (.inr (.inl ⟨rfl, rfl⟩))
  · next hback hquote hline => exact .inr (.inr (.inr ⟨⟨hback, hquote, hline⟩, rfl⟩))

/-- Other characters in the place of one. -/
def replaced (c : Char) (new cs : List Char) : List Char :=
  cs.flatMap fun d => if d = c then new else [d]

/-- Replacing backslashes first, then quotes, and then line ends escapes a value: no replacement
meets what another one has put in. -/
theorem escaped_eq_replaced (cs : List Char) : cs.flatMap escapedChar =
    replaced '\n' ['\\', 'n'] (replaced '"' ['\\', '"'] (replaced '\\' ['\\', '\\'] cs)) := by
  unfold replaced
  rw [List.flatMap_assoc, List.flatMap_assoc]
  refine List.flatMap_congr fun c _ => ?_
  rcases escapedChar_cases c with ⟨rfl, h⟩ | ⟨rfl, h⟩ | ⟨rfl, h⟩ | ⟨⟨hback, hquote, hline⟩, h⟩
  · exact h
  · exact h
  · exact h
  · simp [h, hback, hquote, hline]

/-- The value up to the quote that ends it, and what stands after this quote. -/
def readValue : List Char → Option (List Char × List Char)
  | [] => none
  | '"' :: rest => some ([], rest)
  | '\\' :: c :: rest => (readValue rest).map fun r => ((if c = 'n' then '\n' else c) :: r.1, r.2)
  | c :: rest => (readValue rest).map fun r => (c :: r.1, r.2)

private theorem readValue_escaped (value rest : List Char) :
    readValue (value.flatMap escapedChar ++ '"' :: rest) = some (value, rest) := by
  induction value with
  | nil => rfl
  | cons c value ih =>
    rw [List.flatMap_cons, List.append_assoc]
    rcases escapedChar_cases c with ⟨rfl, h⟩ | ⟨rfl, h⟩ | ⟨rfl, h⟩ | ⟨⟨hback, hquote, -⟩, h⟩
    · simp [h, readValue, ih]
    · simp [h, readValue, ih]
    · simp [h, readValue, ih]
    · rw [h, List.singleton_append, readValue, ih]
      · rfl
      · exact hquote
      · exact fun _ _ hc _ => hback hc

private theorem line_notMem_escaped (value : String) : '\n' ∉ (escaped value).toList := by
  rw [escaped, String.toList_ofList, List.mem_flatMap]
  rintro ⟨c, -, hc⟩
  rcases escapedChar_cases c with ⟨rfl, h⟩ | ⟨rfl, h⟩ | ⟨rfl, h⟩ | ⟨⟨-, -, hline⟩, h⟩
  · simp [h] at hc
  · simp [h] at hc
  · simp [h] at hc
  · rw [h, List.mem_singleton] at hc
    exact hline hc.symm

/-! ## Labels -/

/-- A name that ends before an equals sign and stays in its line. -/
def PlainName (name : String) : Prop := '=' ∉ name.toList ∧ '\n' ∉ name.toList

instance (name : String) : Decidable (PlainName name) := inferInstanceAs (Decidable (_ ∧ _))

namespace Labels

variable {a b : Labels} {l m : String × String} {rest rest' : List Char}

def Plain (labels : Labels) : Prop := ∀ l ∈ labels, PlainName l.1

instance (labels : Labels) : Decidable labels.Plain :=
  inferInstanceAs (Decidable (∀ l ∈ labels, PlainName l.1))

theorem Plain.perm (ha : a.Plain) (h : a.Perm b) : b.Plain := fun l hl => ha l (h.mem_iff.mpr hl)

/-- One label, with its value in quotes. -/
def labelText (l : String × String) : String := l.1 ++ "=\"" ++ escaped l.2 ++ "\""

private theorem toList_labelText_append (l : String × String) (rest : List Char) :
    (labelText l).toList ++ rest = l.1.toList ++
      '=' :: '"' :: (l.2.toList.flatMap escapedChar ++ '"' :: rest) := by
  simp [labelText, escaped]

theorem labelText_ne_nil (l : String × String) : (labelText l).toList ≠ [] := by
  simp [labelText]

/-- Where the text of a label begins, the label can be read, and what follows it is left. -/
theorem labelText_append_inj (hl : '=' ∉ l.1.toList) (hm : '=' ∉ m.1.toList)
    (h : (labelText l).toList ++ rest = (labelText m).toList ++ rest') : l = m ∧ rest = rest' := by
  rw [toList_labelText_append, toList_labelText_append] at h
  obtain ⟨hname, hvalue⟩ := Text.append_cons_inj hl hm h
  have hread := congrArg readValue (List.cons.inj hvalue).2
  rw [readValue_escaped, readValue_escaped, Option.some.injEq, Prod.mk.injEq] at hread
  exact ⟨Prod.ext (String.toList_injective hname) (String.toList_injective hread.1), hread.2⟩

private theorem toList_render (labels : Labels) :
    (render labels).toList = [','].intercalate (labels.map fun l => (labelText l).toList) := by
  have hrender : render labels = ",".intercalate (labels.map labelText) := rfl
  rw [hrender, String.toList_intercalate, List.map_map]
  rfl

/-- The first label, and the others after a comma. -/
theorem toList_render_cons (l : String × String) (labels : Labels) :
    (render (l :: labels)).toList =
      (labelText l).toList ++ if labels = [] then [] else ',' :: (render labels).toList := by
  rw [toList_render, toList_render]
  cases labels with
  | nil => simp
  | cons m labels => simp [List.intercalate_cons_cons]

/-- Different labels have different texts. -/
theorem render_injective (ha : a.Plain) (hb : b.Plain) (h : render a = render b) : a = b := by
  have hne (l : String × String) (labels : Labels) : (render (l :: labels)).toList ≠ [] := by
    rw [toList_render_cons]
    exact List.append_ne_nil_of_left_ne_nil (labelText_ne_nil l) _
  replace h : (render a).toList = (render b).toList := congrArg String.toList h
  induction a generalizing b with
  | nil =>
    cases b with
    | nil => rfl
    | cons m b => exact absurd h.symm (hne m b)
  | cons l a ih =>
    cases b with
    | nil => exact absurd h (hne l a)
    | cons m b =>
      obtain ⟨hl, hothers⟩ := List.forall_mem_cons.mp ha
      obtain ⟨hm, hothers'⟩ := List.forall_mem_cons.mp hb
      rw [toList_render_cons, toList_render_cons] at h
      obtain ⟨rfl, hrest⟩ := labelText_append_inj hl.1 hm.1 h
      split at hrest
      · next hnone =>
        split at hrest
        · next hnone' => rw [hnone, hnone']
        · cases hrest
      · split at hrest
        · cases hrest
        · exact congrArg (l :: ·) (ih hothers hothers' (List.cons.inj hrest).2)

theorem line_notMem_render (ha : a.Plain) : '\n' ∉ (render a).toList := by
  induction a with
  | nil => simp [render]
  | cons l a ih =>
    obtain ⟨hl, hothers⟩ := List.forall_mem_cons.mp ha
    have hvalue := line_notMem_escaped l.2
    have hlabel : '\n' ∉ (labelText l).toList := by simpa [labelText] using ⟨hl.2, hvalue⟩
    rw [toList_render_cons]
    split
    · simpa using hlabel
    · simpa using ⟨hlabel, ih hothers⟩

end Labels

/-! ## Headings and numbers -/

theorem line_notMem_toString (n : Nat) : '\n' ∉ (toString n).toList := by
  intro h
  have hdigit : '\n'.isDigit = true := by
    refine Nat.isDigit_of_mem_toDigits (b := 10) (n := n) (by decide) (by decide) ?_
    simpa [Nat.toString_eq_repr, Nat.repr] using h
  exact absurd hdigit (by decide)

theorem line_notMem_heading {metric kind : String} (hmetric : '\n' ∉ metric.toList)
    (hkind : '\n' ∉ kind.toList) : '\n' ∉ (heading metric kind).toList := by
  have hmark : '\n' ∉ headingMark.toList := by decide
  simp only [heading, String.toList_append, List.mem_append, not_or]
  exact ⟨⟨⟨hmark, hmetric⟩, by decide⟩, hkind⟩

end DatagramRpc.Metrics
