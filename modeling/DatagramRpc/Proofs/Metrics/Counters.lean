import DatagramRpc.Proofs.Metrics.LabelText
import DatagramRpc.Proofs.Metrics.Series

/-!
# One series for each label set

A counter keeps one number for each label set, in whatever order the labels are given: the sum of
all that was added under it, modulo 2^64. It shows one line for each label set that was ever used.
Values may be any texts; names must hold no equals sign and no line end.
-/

namespace DatagramRpc.Metrics

/-! ## What was added -/

/-- The sum of words is that of their values, modulo 2^64. -/
theorem toNat_foldl_add (l : List UInt64) (start : UInt64) :
    (l.foldl (· + ·) start).toNat = (start.toNat + (l.map (·.toNat)).sum) % 2 ^ 64 := by
  induction l generalizing start with
  | nil =>
    have hlt := start.toNat_lt
    simp only [List.foldl_nil, List.map_nil, List.sum_nil]
    omega
  | cons n l ih =>
    rw [List.foldl_cons, ih, UInt64.toNat_add, List.map_cons, List.sum_cons]
    omega

namespace Counter

variable {uses : List (Labels × UInt64)}

/-- A counter to which these amounts were added, one after another; an increment adds one. -/
def added (uses : List (Labels × UInt64)) : Counter := uses.foldl (fun c u => c.add u.1 u.2) .empty

/-- All that was added under these labels, in any order of the labels. -/
def total (uses : List (Labels × UInt64)) (labels : Labels) : Nat :=
  ((Series.under labels uses).map (·.toNat)).sum

private theorem added_concat (uses : List (Labels × UInt64)) (u : Labels × UInt64) :
    added (uses ++ [u]) = (added uses).add u.1 u.2 := List.foldl_concat ..

private theorem series_added (uses : List (Labels × UInt64)) :
    (added uses).series = Series.gathered 0 (· + ·) uses := by
  induction uses using List.reverseRecOn with
  | nil => rfl
  | append_singleton uses u ih => rw [Series.gathered_concat, ← ih, added_concat, add]

theorem nodup_added (uses : List (Labels × UInt64)) : ((added uses).series.map (·.1)).Nodup :=
  series_added uses ▸ Series.nodup_gathered ..

private theorem toNat_get_added (uses : List (Labels × UInt64)) (labels : Labels) :
    ((added uses).get labels).toNat = total uses labels % 2 ^ 64 := by
  rw [get, series_added, Series.get?_gathered, total]
  split
  · next hnone => simp [hnone]
  · rw [Option.getD_some, toNat_foldl_add]
    simp

/-- A counter that is only incremented tells how often, -/
theorem get_incremented (uses : List Labels) (labels : Labels) :
    (added (uses.map (·, 1))).get labels = .ofNat (uses.countP (·.Perm labels)) := by
  induction uses using List.reverseRecOn with
  | nil => rfl
  | append_singleton uses u ih =>
    rw [List.map_append, List.map_singleton, added_concat, get_add, ih, List.countP_append,
      List.countP_singleton, UInt64.ofNat_add]
    by_cases h : u.Perm labels <;> simp [h]

/-- and all its series together, how often it was used at all. -/
theorem sum_incremented (uses : List Labels) :
    ((added (uses.map (·, 1))).series.map (·.2)).sum = .ofNat uses.length := by
  induction uses using List.reverseRecOn with
  | nil => rfl
  | append_singleton uses u ih =>
    rw [List.map_append, List.map_singleton, added_concat, sum_add (nodup_added _), ih,
      List.length_append, UInt64.ofNat_add]
    rfl

/-! ## What is shown -/

/-- The line of a label set. -/
def line (metric : String) (key : Labels) (value : Nat) : String :=
  metric ++ braced key.render ++ " " ++ toString value

/-- The lines that show a counter: after the heading, one for each of the label sets that were
used. -/
structure Shows (metric : String) (uses : List (Labels × UInt64)) (lines : List String)
    (keys : List Labels) : Prop where
  entries : lines = heading metric "counter" :: keys.map fun key =>
    line metric key (total uses key % 2 ^ 64)
  used : ∀ labels, (∃ u ∈ uses, u.1.Perm labels) ↔ ∃ key ∈ keys, key.Perm labels
  apart : keys.Pairwise fun a b => ¬ a.Perm b
  /-- In a text of these lines, none of them breaks. -/
  single : '\n' ∉ metric.toList →
    Text.pieces '\n' (String.join (lines.map (· ++ "\n"))) = lines ++ [""]

private theorem line_notMem_line {metric : String} {key : Labels} (hmetric : '\n' ∉ metric.toList)
    (hkey : key.Plain) (value : Nat) : '\n' ∉ (line metric key value).toList := by
  have hlabels : '\n' ∉ (braced key.render).toList := by
    unfold braced
    split
    · simp
    · simpa using Labels.line_notMem_render hkey
  have hvalue := line_notMem_toString value
  simp only [line, String.toList_append, List.mem_append, not_or]
  exact ⟨⟨⟨hmetric, hlabels⟩, by decide⟩, hvalue⟩

private theorem shows_added (hplain : ∀ u ∈ uses, u.1.Plain) (metric : String) :
    Shows metric uses ((added uses).render metric) ((added uses).series.map (·.1)) := by
  have hentries : (added uses).render metric = heading metric "counter" ::
      ((added uses).series.map (·.1)).map fun key => line metric key (total uses key % 2 ^ 64) := by
    rw [render, List.map_map]
    refine congrArg (_ :: ·) (List.map_congr_left fun e he => ?_)
    rw [series_added] at he
    have hvalue : e.2.toNat = total uses e.1 % 2 ^ 64 := by
      rw [Series.eq_of_mem_gathered he, toNat_foldl_add, total]
      simp
    rw [hvalue]
    rfl
  refine ⟨hentries, fun labels => ?_, ?_, fun hmetric => Text.pieces_join rfl ?_⟩
  · rw [series_added]
    exact Series.used_iff_key
  · rw [series_added]
    exact Series.keys_apart ..
  · rw [hentries]
    refine List.forall_mem_cons.mpr ⟨line_notMem_heading hmetric (by decide), fun l hl => ?_⟩
    obtain ⟨key, hkey, rfl⟩ := List.mem_map.mp hl
    rw [series_added] at hkey
    obtain ⟨u, hu, hperm⟩ := Series.used_iff_key.mpr ⟨key, hkey, .refl key⟩
    exact line_notMem_line hmetric ((hplain u hu).perm hperm) _

/-- **One series for each label set**, with the sum of what was added under it, and one line that
shows it. -/
theorem one_series_per_label_set (uses : List (Labels × UInt64)) :
    (∀ labels, ((added uses).get labels).toNat = total uses labels % 2 ^ 64) ∧
      ((∀ u ∈ uses, u.1.Plain) →
        ∀ metric, ∃ keys, Shows metric uses ((added uses).render metric) keys) ∧
      ∀ a b : Labels, a.Plain → b.Plain → a.key.render = b.key.render → a.Perm b := by
  refine ⟨toNat_get_added uses, fun hplain metric => ⟨_, shows_added hplain metric⟩,
    fun a b ha hb h => ?_⟩
  exact Labels.key_eq_iff.mp
    (Labels.render_injective (ha.perm a.key_perm.symm) (hb.perm b.key_perm.symm) h)

/-- Two orders of the same labels, with a sum beyond the greatest number; a value of signs that mean
something in the text; and no labels at all. -/
def sampleUses : List (Labels × UInt64) :=
  [([("op", "READ"), ("mode", "x")], 18446744073709551615), ([("op", "\\\"\n,=")], 7),
    ([("mode", "x"), ("op", "READ")], 3), ([], 1)]

theorem one_series_per_label_set_sample :
    ((added sampleUses).get [("op", "READ"), ("mode", "x")]).toNat = 2 ∧
      (∃ keys, Shows "hits" sampleUses ["# TYPE hits counter",
        "hits\x7bmode=\"x\",op=\"READ\"\x7d 2",
        "hits\x7bop=\"\\\\\\\"\\n,=\"\x7d 7", "hits 1"] keys) ∧
      List.Perm [("op", "READ"), ("mode", "x")] [("mode", "x"), ("op", "READ")] := by
  obtain ⟨hget, hshows, htexts⟩ := one_series_per_label_set sampleUses
  have hplain : ∀ u ∈ sampleUses, u.1.Plain := by decide
  have hsame : Labels.key [("mode", "x"), ("op", "READ")] = [("mode", "x"), ("op", "READ")] :=
    List.mergeSort_of_pairwise (by decide)
  have hkey : Labels.key [("op", "READ"), ("mode", "x")] = [("mode", "x"), ("op", "READ")] :=
    (Labels.key_eq_iff.mpr (.swap ..)).trans hsame
  have hsingle (l : String × String) : Labels.key [l] = [l] := List.mergeSort_singleton l
  have hnone : Labels.key [] = [] := List.mergeSort_nil
  have hseries : added sampleUses =
      ⟨[([("mode", "x"), ("op", "READ")], 2), ([("op", "\\\"\n,=")], 7), ([], 1)]⟩ := by
    simp [added, sampleUses, add, Series.update, empty, hkey, hsame, hsingle, hnone]
  refine ⟨(hget _).trans (by decide), ?_, ?_⟩
  · have hlines : (added sampleUses).render "hits" = ["# TYPE hits counter",
        "hits\x7bmode=\"x\",op=\"READ\"\x7d 2",
        "hits\x7bop=\"\\\\\\\"\\n,=\"\x7d 7", "hits 1"] := by
      rw [hseries]
      decide +kernel
    exact hlines ▸ hshows hplain "hits"
  · exact htexts _ _ (by decide) (by decide) (by rw [hkey, hsame])

end Counter

end DatagramRpc.Metrics
