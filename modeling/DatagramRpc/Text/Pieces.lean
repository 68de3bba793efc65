/-!
# Cutting and trimming text

Text is cut at separators, and blanks are taken off its ends.
-/

namespace DatagramRpc.Text

/-! ## Cutting text at a separator

`pieces` cuts at every separator and so always gives one piece more than there are separators;
`cutOnce` cuts at the first one only. Joining the pieces again gives the text back.
-/

/-- The pieces between the separators, empty ones included. -/
def piecesList (sep : Char) (cs : List Char) : List (List Char) :=
  cs.foldr
    (fun c acc =>
      if c = sep then [] :: acc
      else match acc with
        | [] => [[c]]
        | p :: ps => (c :: p) :: ps)
    [[]]

/-- What `piecesList` gives for the characters of a text. -/
def pieces (sep : Char) (s : String) : List String :=
  (piecesList sep s.toList).map String.ofList

/-- The text before and after the first separator. -/
def cutOnce (sep : Char) (s : String) : Option (String × String) :=
  let cs := s.toList
  match cs.dropWhile (· ≠ sep) with
  | [] => none
  | _ :: rest => some (String.ofList (cs.takeWhile (· ≠ sep)), String.ofList rest)

/-- Equality that does not tell ASCII capitals from small letters. -/
def sameFolded (a b : String) : Bool :=
  a.toList.map Char.toLower == b.toList.map Char.toLower

private theorem piecesList_cons (sep c : Char) (cs : List Char) :
    piecesList sep (c :: cs) =
      if c = sep then [] :: piecesList sep cs
      else match piecesList sep cs with
        | [] => [[c]]
        | p :: ps => (c :: p) :: ps := rfl

private theorem piecesList_ne_nil (sep : Char) (cs : List Char) : piecesList sep cs ≠ [] := by
  cases cs with
  | nil => simp [piecesList]
  | cons c cs =>
    simp only [piecesList, List.foldr_cons]
    split
    · simp
    · split <;> simp

/-- Text without a separator is one piece. -/
theorem piecesList_of_notMem {sep : Char} {cs : List Char} (h : sep ∉ cs) :
    piecesList sep cs = [cs] := by
  induction cs with
  | nil => rfl
  | cons c cs ih =>
    rw [List.mem_cons, not_or] at h
    obtain ⟨hne, hrest⟩ := h
    rw [piecesList_cons, if_neg (Ne.symm hne), ih hrest]

/-- The first piece ends at the first separator. -/
theorem piecesList_append_cons {sep : Char} {first : List Char} (h : sep ∉ first)
    (rest : List Char) : piecesList sep (first ++ sep :: rest) = first :: piecesList sep rest := by
  induction first with
  | nil => simp [piecesList]
  | cons c cs ih =>
    rw [List.mem_cons, not_or] at h
    obtain ⟨hne, hrest⟩ := h
    rw [List.cons_append, piecesList_cons, if_neg (Ne.symm hne), ih hrest]

/-- Texts are cut at their first separators in one way only. -/
theorem append_cons_inj {sep : Char} {first other rest rest' : List Char} (hfirst : sep ∉ first)
    (hother : sep ∉ other) (h : first ++ sep :: rest = other ++ sep :: rest') :
    first = other ∧ rest = rest' := by
  have hpieces := congrArg (piecesList sep) h
  rw [piecesList_append_cons hfirst, piecesList_append_cons hother] at hpieces
  obtain ⟨rfl, -⟩ := List.cons.inj hpieces
  exact ⟨rfl, (List.cons.inj (List.append_cancel_left h)).2⟩

/-- Parts that are written one after another, each with a separator after it, are the pieces of the
text. After the last separator there is nothing. -/
theorem pieces_join {sep : Char} {ending : String} (hending : ending.toList = [sep])
    {parts : List String} (h : ∀ part ∈ parts, sep ∉ part.toList) :
    pieces sep (String.join (parts.map (· ++ ending))) = parts ++ [""] := by
  induction parts with
  | nil => rfl
  | cons part parts ih =>
    have hrest := ih fun p hp => h p (List.mem_cons_of_mem part hp)
    have hchars : (String.join ((part :: parts).map (· ++ ending))).toList =
        part.toList ++ sep :: (String.join (parts.map (· ++ ending))).toList := by
      simp [String.toList_join, hending]
    rw [pieces, hchars, piecesList_append_cons (h part List.mem_cons_self), List.map_cons,
      String.ofList_toList]
    exact congrArg (part :: ·) hrest

theorem intercalate_piecesList (sep : Char) (cs : List Char) :
    [sep].intercalate (piecesList sep cs) = cs := by
  induction cs with
  | nil => simp [piecesList, List.intercalate]
  | cons c cs ih =>
    have hne := piecesList_ne_nil sep cs
    rw [piecesList_cons]
    cases hp : piecesList sep cs with
    | nil => exact absurd hp hne
    | cons p ps =>
      rw [hp] at ih
      split
      · next h => simp_all [List.intercalate]
      · cases ps <;> simp_all [List.intercalate]

/-! ## Blank characters and trimming

The characters with the Unicode property White_Space, and the text that is left when they are taken
off both ends.
-/

/-- The property White_Space. -/
def isBlank (c : Char) : Bool :=
  let n := c.toNat
  (9 ≤ n && n ≤ 13) || n == 32 || n == 0x85 || n == 0xA0 || n == 0x1680 ||
    (0x2000 ≤ n && n ≤ 0x200A) || n == 0x2028 || n == 0x2029 || n == 0x202F || n == 0x205F ||
    n == 0x3000

/-- Blanks off both ends. -/
def trimList (cs : List Char) : List Char :=
  ((cs.dropWhile isBlank).reverse.dropWhile isBlank).reverse

/-- The text without the blanks at its ends. -/
def trim (s : String) : String := String.ofList (trimList s.toList)

/-- Text without blanks is left as it is. -/
theorem trim_of_no_blank {s : String} (h : ∀ c ∈ s.toList, isBlank c = false) : trim s = s := by
  have hkept : ∀ cs : List Char, (∀ c ∈ cs, isBlank c = false) → cs.dropWhile isBlank = cs := by
    intro cs hcs
    cases cs with
    | nil => rfl
    | cons c cs => exact List.dropWhile_cons_of_neg (by simp [hcs c List.mem_cons_self])
  rw [trim, trimList, hkept _ h, hkept _ fun c hc => h c (List.mem_reverse.mp hc),
    List.reverse_reverse, String.ofList_toList]

end DatagramRpc.Text
