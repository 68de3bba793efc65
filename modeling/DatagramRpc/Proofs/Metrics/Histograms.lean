import DatagramRpc.Proofs.Metrics.LabelText
import DatagramRpc.Proofs.Metrics.Series

/-!
# Buckets are cumulative

A histogram that was used fewer than 2^64 times shows for every label set twelve lines. Each bucket
tells how many of the spans observed under these labels, in any order of the labels, are not above
its bound in whole microseconds. So no bucket holds fewer than the one before it, and none holds
more than there are spans. Only the sum can pass beyond the greatest number; it is kept modulo 2^64,
and a single span adds at most 2^64 - 1 to it.
-/

namespace DatagramRpc.Metrics

/-! ## What is told of some spans -/

/-- How many of the spans have at most so many whole microseconds. -/
def within (spans : List Span) (bound : Nat) : Nat := spans.countP (·.micros ≤ bound)

/-- The whole microseconds of all spans, each counted for at most 2^64 - 1. -/
def totalMicros (spans : List Span) : Nat := (spans.map fun d => min d.micros (2 ^ 64 - 1)).sum

private theorem within_le_within (spans : List Span) {a b : Nat} (h : a ≤ b) :
    within spans a ≤ within spans b := by
  refine List.countP_mono_left fun d _ hd => ?_
  simp only [decide_eq_true_eq] at hd ⊢
  exact hd.trans h

private theorem within_le_length (spans : List Span) (bound : Nat) :
    within spans bound ≤ spans.length := List.countP_le_length

private theorem within_concat (spans : List Span) (d : Span) (bound : Nat) :
    within (spans ++ [d]) bound = within spans bound + if d.micros ≤ bound then 1 else 0 := by
  simp [within, List.countP_append, List.countP_singleton]

private theorem totalMicros_concat (spans : List Span) (d : Span) :
    totalMicros (spans ++ [d]) = totalMicros spans + min d.micros (2 ^ 64 - 1) := by
  simp [totalMicros]

private theorem bucketBounds_sorted : bucketBounds.Pairwise (· ≤ ·) := by decide

/-! ## The numbers of a series -/

namespace Observed

variable {spans : List Span}

/-- What a series gathers when these spans are observed, one after another. -/
def ofSpans (spans : List Span) : Observed := spans.foldl add none

/-- The cap is above every bound, so it does not matter to a bucket. -/
theorem measure_le_iff {d : Span} {bound : Nat} (h : bound ∈ bucketBounds) :
    measure d ≤ bound ↔ d.micros ≤ bound := by
  have hbounds : ∀ bound ∈ bucketBounds, bound < UInt64.size - 1 := by decide
  have hbound := hbounds bound h
  rw [measure]
  omega

/-- One more span adds one to the number and to every bucket that it fits into. -/
theorem add_eq {count sum : UInt64} (n : Nat → Nat) (d : Span) :
    add ⟨count, sum, bucketBounds.map fun bound => .ofNat (n bound)⟩ d =
      ⟨count + 1, sum + .ofNat (min d.micros (2 ^ 64 - 1)),
        bucketBounds.map fun bound => .ofNat (n bound + if d.micros ≤ bound then 1 else 0)⟩ := by
  have hbuckets :
      ((bucketBounds.zip (bucketBounds.map fun bound => UInt64.ofNat (n bound))).map fun b =>
        if measure d ≤ b.1 then b.2 + 1 else b.2) =
      bucketBounds.map fun bound => .ofNat (n bound + if d.micros ≤ bound then 1 else 0) := by
    rw [← List.map_prod_left_eq_zip, List.map_map]
    refine List.map_congr_left fun bound hbound => ?_
    simp only [Function.comp_apply, measure_le_iff hbound]
    split
    · exact (UInt64.ofNat_add ..).symm
    · rfl
  rw [add, hbuckets]
  rfl

/-- Every counter is a number of spans or a sum over them, as far as words go. -/
theorem ofSpans_eq (spans : List Span) : ofSpans spans =
    ⟨.ofNat spans.length, .ofNat (totalMicros spans),
      bucketBounds.map fun bound => .ofNat (within spans bound)⟩ := by
  induction spans using List.reverseRecOn with
  | nil => rfl
  | append_singleton spans d ih =>
    rw [ofSpans, List.foldl_concat, ← ofSpans, ih, add_eq, List.length_append, totalMicros_concat,
      UInt64.ofNat_add, UInt64.ofNat_add]
    simp only [within_concat]
    rfl

/-- The numbers tell of these spans. -/
structure TellsOf (o : Observed) (spans : List Span) : Prop where
  buckets : o.buckets.map (·.toNat) = bucketBounds.map (within spans)
  count : o.count.toNat = spans.length
  sum : o.sum.toNat = totalMicros spans % 2 ^ 64
  /-- From one bound to the next it never gets less, -/
  increasing : o.buckets.Pairwise (· ≤ ·)
  /-- and it never comes to more than all. -/
  bounded : ∀ n ∈ o.buckets, n ≤ o.count

private theorem tellsOf_ofSpans (hfew : spans.length < 2 ^ 64) : (ofSpans spans).TellsOf spans := by
  have hwithin (bound : Nat) : (UInt64.ofNat (within spans bound)).toNat = within spans bound :=
    UInt64.toNat_ofNat_of_lt' ((within_le_length spans bound).trans_lt hfew)
  have hcount : (UInt64.ofNat spans.length).toNat = spans.length := UInt64.toNat_ofNat_of_lt' hfew
  rw [ofSpans_eq]
  constructor
  · rw [List.map_map]
    exact List.map_congr_left fun bound _ => hwithin bound
  · exact hcount
  · exact UInt64.toNat_ofNat'
  · refine List.pairwise_map.mpr (bucketBounds_sorted.imp fun hle => ?_)
    rw [UInt64.le_iff_toNat_le, hwithin, hwithin]
    exact within_le_within spans hle
  · refine List.forall_mem_map.mpr fun bound _ => ?_
    rw [UInt64.le_iff_toNat_le, hwithin, hcount]
    exact within_le_length spans bound

end Observed

/-! ## The lines of a series -/

/-- The line of a bucket: its bound comes after the labels. -/
def bucketLine (metric : String) (key : Labels) (bound : String) (n : Nat) : String :=
  metric ++ "_bucket\x7b" ++ (if key = [] then "" else key.render ++ ",") ++ "le=\"" ++ bound ++
    "\"\x7d " ++ toString n

/-- The line of a number that belongs to no bucket. -/
def totalLine (metric suffix : String) (key : Labels) (n : Nat) : String :=
  metric ++ suffix ++ "\x7b" ++ key.render ++ "\x7d " ++ toString n

/-- The twelve lines that tell of these spans under a label set. -/
def seriesLines (metric : String) (key : Labels) (spans : List Span) : List String :=
  bucketBounds.map (fun bound => bucketLine metric key (toString bound) (within spans bound)) ++
    [bucketLine metric key "+Inf" spans.length,
      totalLine metric "_sum" key (totalMicros spans % 2 ^ 64),
      totalLine metric "_count" key spans.length]

private theorem Labels.render_isEmpty_iff {key : Labels} :
    key.render.isEmpty = true ↔ key = [] := by
  rw [String.isEmpty_iff, ← String.toList_inj]
  cases key with
  | nil => simp [render]
  | cons l key =>
    rw [toList_render_cons]
    exact iff_of_false (List.append_ne_nil_of_left_ne_nil (labelText_ne_nil l) _)
      (List.cons_ne_nil l key)

/-- Where a bound stands, there are always braces. -/
theorem bucketLine_eq (metric : String) (key : Labels) (bound : String) (n : Nat) :
    bucketLine metric key bound n = metric ++ "_bucket" ++
      braced ((if key.render.isEmpty then "" else key.render ++ ",") ++ "le=\"" ++
        bound ++ "\"") ++ " " ++ toString n := by
  rw [braced, if_neg (by simp), bucketLine]
  simp only [Labels.render_isEmpty_iff]
  apply String.toList_injective
  simp

/-- Numbers that tell of some spans make the lines that tell of them. -/
theorem Observed.TellsOf.render_eq {o : Observed} {spans : List Span} (h : o.TellsOf spans)
    (metric : String) (key : Labels) :
    o.render metric key.render = seriesLines metric key spans := by
  -- A line holds a number and not a word, so the words are read first.
  have hbuckets : (bucketBounds.zip o.buckets).map
      (fun b => bucketLine metric key (toString b.1) b.2.toNat) =
      bucketBounds.map fun bound =>
        bucketLine metric key (toString bound) (within spans bound) := calc
    _ = (bucketBounds.zip (o.buckets.map (·.toNat))).map fun b =>
      bucketLine metric key (toString b.1) b.2 := by
      rw [List.zip_map_right, List.map_map]
      rfl
    _ = _ := by
      rw [h.buckets, ← List.map_prod_left_eq_zip, List.map_map]
      rfl
  rw [seriesLines, ← hbuckets, ← h.count, ← h.sum]
  simp only [bucketLine_eq]
  rfl

section

variable {metric : String} {key : Labels}

private theorem line_notMem_bucketLine (hmetric : '\n' ∉ metric.toList) (hkey : key.Plain)
    {bound : String} (hbound : '\n' ∉ bound.toList) (n : Nat) :
    '\n' ∉ (bucketLine metric key bound n).toList := by
  have hopening : '\n' ∉ (if key = [] then "" else key.render ++ ",").toList := by
    split
    · decide
    · simpa using Labels.line_notMem_render hkey
  have hvalue := line_notMem_toString n
  simp only [bucketLine, String.toList_append, List.mem_append, not_or]
  exact ⟨⟨⟨⟨⟨⟨hmetric, by decide⟩, hopening⟩, by decide⟩, hbound⟩, by decide⟩, hvalue⟩

private theorem line_notMem_totalLine (hmetric : '\n' ∉ metric.toList) (hkey : key.Plain)
    {suffix : String} (hsuffix : '\n' ∉ suffix.toList) (n : Nat) :
    '\n' ∉ (totalLine metric suffix key n).toList := by
  have hlabels := Labels.line_notMem_render hkey
  have hvalue := line_notMem_toString n
  simp only [totalLine, String.toList_append, List.mem_append, not_or]
  exact ⟨⟨⟨⟨⟨hmetric, hsuffix⟩, by decide⟩, hlabels⟩, by decide⟩, hvalue⟩

private theorem line_notMem_seriesLines (hmetric : '\n' ∉ metric.toList) (hkey : key.Plain)
    (spans : List Span) : ∀ line ∈ seriesLines metric key spans, '\n' ∉ line.toList := by
  intro line hline
  rcases List.mem_append.mp hline with hline | hline
  · obtain ⟨bound, -, rfl⟩ := List.mem_map.mp hline
    exact line_notMem_bucketLine hmetric hkey (line_notMem_toString bound) _
  · simp only [List.mem_cons, List.not_mem_nil, or_false] at hline
    rcases hline with rfl | rfl | rfl
    · exact line_notMem_bucketLine hmetric hkey (by decide) _
    · exact line_notMem_totalLine hmetric hkey (by decide) _
    · exact line_notMem_totalLine hmetric hkey (by decide) _

end

/-! ## All series together -/

namespace Histogram

variable {observations : List (Labels × Span)}

/-- A histogram in which these spans were observed, one after another. -/
def observed (observations : List (Labels × Span)) : Histogram :=
  observations.foldl (fun h o => h.observe o.1 o.2) .empty

private theorem observed_concat (observations : List (Labels × Span)) (o : Labels × Span) :
    observed (observations ++ [o]) = (observed observations).observe o.1 o.2 := List.foldl_concat ..

private theorem series_observed (observations : List (Labels × Span)) :
    (observed observations).series = Series.gathered .none Observed.add observations := by
  induction observations using List.reverseRecOn with
  | nil => rfl
  | append_singleton observations o ih =>
    rw [Series.gathered_concat, ← ih, observed_concat, observe]

/-- What a histogram shows after these observations. -/
structure Shows (observations : List (Labels × Span)) (h : Histogram) : Prop where
  /-- There is a series for each label set that was used, -/
  used : ∀ labels, (∃ o ∈ observations, o.1.Perm labels) ↔
    ∃ key ∈ h.series.map (·.1), key.Perm labels
  /-- and only one. -/
  apart : (h.series.map (·.1)).Pairwise fun a b => ¬ a.Perm b
  tells : ∀ e ∈ h.series, e.2.TellsOf (Series.under e.1 observations)
  count : ∀ labels, (h.count labels).toNat = (Series.under labels observations).length
  /-- The text has a heading and then the lines of each series. -/
  lines : ∀ metric, h.render metric = heading metric "histogram" :: h.series.flatMap fun e =>
    seriesLines metric e.1 (Series.under e.1 observations)
  /-- Where no name holds an equals sign or a line end, none of the lines breaks. -/
  single : (∀ o ∈ observations, o.1.Plain) → ∀ metric : String, '\n' ∉ metric.toList →
    Text.pieces '\n' (String.join ((h.render metric).map (· ++ "\n"))) = h.render metric ++ [""]

private theorem tellsOf_of_mem (hfew : observations.length < 2 ^ 64) {e : Labels × Observed}
    (he : e ∈ (observed observations).series) : e.2.TellsOf (Series.under e.1 observations) := by
  rw [series_observed] at he
  rw [Series.eq_of_mem_gathered he]
  exact Observed.tellsOf_ofSpans ((Series.length_under_le ..).trans_lt hfew)

private theorem toNat_count_observed (hfew : observations.length < 2 ^ 64) (labels : Labels) :
    ((observed observations).count labels).toNat = (Series.under labels observations).length := by
  rw [count, series_observed, Series.get?_gathered]
  split
  · next hnone =>
    rw [hnone]
    rfl
  · exact (Observed.tellsOf_ofSpans ((Series.length_under_le ..).trans_lt hfew)).count

private theorem render_observed (hfew : observations.length < 2 ^ 64) (metric : String) :
    (observed observations).render metric = heading metric "histogram" ::
      (observed observations).series.flatMap fun e =>
        seriesLines metric e.1 (Series.under e.1 observations) := by
  rw [render]
  exact congrArg (_ :: ·)
    (List.flatMap_congr fun e he => (tellsOf_of_mem hfew he).render_eq metric e.1)

/-- **Buckets are cumulative.** For each label set, its numbers and its lines tell how many spans
are not above each bound, how many there are, and their sum. -/
theorem buckets_cumulative (observations : List (Labels × Span))
    (hfew : observations.length < 2 ^ 64) : Shows observations (observed observations) where
  used labels := by
    rw [series_observed]
    exact Series.used_iff_key
  apart := by
    rw [series_observed]
    exact Series.keys_apart ..
  tells e he := tellsOf_of_mem hfew he
  count := toNat_count_observed hfew
  lines := render_observed hfew
  single hplain metric hmetric := by
    refine Text.pieces_join rfl ?_
    rw [render_observed hfew]
    refine List.forall_mem_cons.mpr ⟨line_notMem_heading hmetric (by decide), fun line hline => ?_⟩
    obtain ⟨e, he, hline⟩ := List.mem_flatMap.mp hline
    have hkey := List.mem_map_of_mem (f := (·.1)) he
    rw [series_observed] at hkey
    obtain ⟨o, ho, hperm⟩ := Series.used_iff_key.mpr ⟨e.1, hkey, .refl e.1⟩
    exact line_notMem_seriesLines hmetric ((hplain o ho).perm hperm) _ line hline

/-- Two orders of the same labels, with a part of a microsecond that does not count; and no labels,
with a span of more than 2^64 microseconds and a sum beyond the greatest number. -/
def sampleObservations : List (Labels × Span) :=
  [([("op", "READ"), ("mode", "x")], ⟨700000⟩), ([], .ofSeconds 18446744073709551615),
    ([("mode", "x"), ("op", "READ")], ⟨100999⟩), ([], ⟨2000⟩)]

theorem buckets_cumulative_sample :
    sampleObservations.length < 2 ^ 64 ∧ Shows sampleObservations (observed sampleObservations) ∧
      (observed sampleObservations).series =
        [([("mode", "x"), ("op", "READ")], ⟨2, 800, [1, 1, 2, 2, 2, 2, 2, 2, 2]⟩),
          ([], ⟨2, 1, [1, 1, 1, 1, 1, 1, 1, 1, 1]⟩)] := by
  have hsame : Labels.key [("mode", "x"), ("op", "READ")] = [("mode", "x"), ("op", "READ")] :=
    List.mergeSort_of_pairwise (by decide)
  have hkey : Labels.key [("op", "READ"), ("mode", "x")] = [("mode", "x"), ("op", "READ")] :=
    (Labels.key_eq_iff.mpr (.swap ..)).trans hsame
  have hnone : Labels.key [] = [] := List.mergeSort_nil
  have hlabelled : (Observed.none.add ⟨700000⟩).add ⟨100999⟩ =
      ⟨2, 800, [1, 1, 2, 2, 2, 2, 2, 2, 2]⟩ := by decide
  have hunlabelled : (Observed.none.add (.ofSeconds 18446744073709551615)).add ⟨2000⟩ =
      ⟨2, 1, [1, 1, 1, 1, 1, 1, 1, 1, 1]⟩ := by decide
  have hseries : (observed sampleObservations).series =
      [([("mode", "x"), ("op", "READ")], ⟨2, 800, [1, 1, 2, 2, 2, 2, 2, 2, 2]⟩),
        ([], ⟨2, 1, [1, 1, 1, 1, 1, 1, 1, 1, 1]⟩)] := by
    simp [observed, sampleObservations, observe, Series.update, empty, hkey, hsame, hnone,
      hlabelled, hunlabelled]
  exact ⟨by decide, buckets_cumulative sampleObservations (by decide), hseries⟩

end Histogram

end DatagramRpc.Metrics
