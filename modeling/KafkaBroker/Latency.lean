import KafkaBroker.LatencyCore
import Mathlib.Data.List.Sort
import Mathlib.Algebra.Order.BigOperators.Group.List

/-!
The latency figures are in order, however the samples lie and whatever is lost in rounding.
-/

namespace KafkaBroker

open Rounding

theorem double_mono {x y : ℚ} (nonneg : 0 ≤ x) (le : x ≤ y) : double x ≤ double y :=
  Format.round_mono nonneg le

theorem double_nonneg {x : ℚ} (nonneg : 0 ≤ x) : 0 ≤ double x :=
  Format.round_nonneg nonneg

/-- The integers that a `double` holds. -/
def Exact (n : Nat) : Prop := n < 2 ^ 53

theorem Exact.of_le {m n : Nat} (exact : Exact n) (le : m ≤ n) : Exact m :=
  le.trans_lt exact

section Exact

variable {x : ℚ} {n : Nat} (exact : Exact n)

include exact

theorem double_natCast : double n = n :=
  Format.round_natCast exact (by decide)

theorem double_le (nonneg : 0 ≤ x) (le : x ≤ n) : double x ≤ n :=
  Format.round_le_natCast exact (by decide) nonneg le

theorem le_double (le : (n : ℚ) ≤ x) : (n : ℚ) ≤ double x :=
  Format.natCast_le_round exact (by decide) le

end Exact

theorem exact_one : Exact 1 :=
  Nat.one_lt_two_pow (by decide)

/-! Interpolation. -/

section Interpolate

variable {lower upper higher : Nat} {weight heavier : ℚ}

theorem interpolate_mono (le : upper ≤ higher) (nonneg : 0 ≤ weight) (weights : weight ≤ heavier) :
    interpolate lower upper weight ≤ interpolate lower higher heavier := by
  have gaps : ((upper - lower : Nat) : ℚ) ≤ (higher - lower : Nat) := by
    exact_mod_cast Nat.sub_le_sub_right le lower
  have gap : double (upper - lower : Nat) ≤ double (higher - lower : Nat) :=
    double_mono (Nat.cast_nonneg _) gaps
  have small : 0 ≤ double (upper - lower : Nat) := double_nonneg (Nat.cast_nonneg _)
  have products : double (upper - lower : Nat) * weight ≤ double (higher - lower : Nat) * heavier :=
    mul_le_mul gap weights nonneg (small.trans gap)
  have product : 0 ≤ double (upper - lower : Nat) * weight := mul_nonneg small nonneg
  have base : 0 ≤ double lower := double_nonneg (Nat.cast_nonneg _)
  exact Nat.floor_mono (double_mono (add_nonneg base (double_nonneg product))
    (add_le_add_right (double_mono product products) _))

theorem le_interpolate (exact : Exact lower) (nonneg : 0 ≤ weight) :
    lower ≤ interpolate lower upper weight := by
  refine Nat.le_floor (le_double exact ?_)
  rw [double_natCast exact]
  exact le_add_of_nonneg_right
    (double_nonneg (mul_nonneg (double_nonneg (Nat.cast_nonneg _)) nonneg))

theorem interpolate_le (exact : Exact upper) (le : lower ≤ upper) (nonneg : 0 ≤ weight)
    (light : weight ≤ 1) : interpolate lower upper weight ≤ upper := by
  have gapExact : Exact (upper - lower) := exact.of_le (Nat.sub_le upper lower)
  have gap : double (upper - lower : Nat) = (upper - lower : Nat) := double_natCast gapExact
  have product : double (double (upper - lower : Nat) * weight) ≤ (upper - lower : Nat) := by
    rw [gap]
    refine double_le gapExact (mul_nonneg (Nat.cast_nonneg _) nonneg) ?_
    exact mul_le_of_le_one_right (Nat.cast_nonneg _) light
  have small : 0 ≤ double (double (upper - lower : Nat) * weight) :=
    double_nonneg (mul_nonneg (double_nonneg (Nat.cast_nonneg _)) nonneg)
  have whole : double lower + double (double (upper - lower : Nat) * weight) ≤ upper := by
    rw [double_natCast (exact.of_le le)]
    calc (lower : ℚ) + double (double (upper - lower : Nat) * weight)
        ≤ lower + (upper - lower : Nat) := add_le_add_right product _
      _ = upper := by rw [← Nat.cast_add, Nat.add_sub_cancel' le]
  have nonnegative : 0 ≤ double lower + double (double (upper - lower : Nat) * weight) :=
    add_nonneg (double_nonneg (Nat.cast_nonneg _)) small
  have bound := double_le exact nonnegative whole
  exact Nat.floor_le_of_le bound

end Interpolate

/-! A rank among the sorted samples. -/

structure Samples (sorted : List Nat) : Prop where
  filled : sorted ≠ []
  ordered : sorted.Pairwise (· ≤ ·)
  exact : ∀ value ∈ sorted, Exact value
  count : Exact sorted.length

def sample (sorted : List Nat) (index : Nat) : Nat := sorted.getD index 0

def rankWeight (rank : ℚ) : ℚ := double (rank - double ⌊rank⌋₊)

section Rank

variable {sorted : List Nat} {rank later : ℚ} {value after : Nat}

theorem getElem?_sample {index : Nat} (inside : index < sorted.length) :
    sorted[index]? = some (sample sorted index) := by
  simp [sample, inside]

theorem sample_mem {index : Nat} (inside : index < sorted.length) :
    sample sorted index ∈ sorted := by
  simp [sample, inside]

theorem Samples.mono (samples : Samples sorted) {first second : Nat} (le : first ≤ second)
    (inside : second < sorted.length) : sample sorted first ≤ sample sorted second := by
  rcases le.lt_or_eq with less | rfl
  · have related := List.pairwise_iff_getElem.mp samples.ordered first second (by omega) inside less
    simpa [sample, inside, less.trans inside] using related
  · exact le_rfl

theorem Samples.ceil (samples : Samples sorted) (room : rank ≤ (sorted.length - 1 : Nat)) :
    ⌈rank⌉₊ < sorted.length := by
  have length := List.length_pos_of_ne_nil samples.filled
  have ceiling := Nat.ceil_le.mpr room
  omega

theorem Samples.floor (samples : Samples sorted) (room : rank ≤ (sorted.length - 1 : Nat)) :
    ⌊rank⌋₊ < sorted.length :=
  (Nat.floor_le_ceil rank).trans_lt (samples.ceil room)

theorem Samples.weight_eq (samples : Samples sorted) (room : rank ≤ (sorted.length - 1 : Nat)) :
    rankWeight rank = double (rank - ⌊rank⌋₊) := by
  rw [rankWeight, double_natCast (samples.count.of_le (samples.floor room).le)]

theorem Samples.weight_bounds (samples : Samples sorted) (nonneg : 0 ≤ rank)
    (room : rank ≤ (sorted.length - 1 : Nat)) : 0 ≤ rankWeight rank ∧ rankWeight rank ≤ 1 := by
  have below : 0 ≤ rank - ⌊rank⌋₊ := sub_nonneg.mpr (Nat.floor_le nonneg)
  have above : rank - ⌊rank⌋₊ ≤ (1 : Nat) := by
    have next := Nat.lt_floor_add_one rank
    push_cast
    linarith
  rw [samples.weight_eq room]
  exact ⟨double_nonneg below, by exact_mod_cast double_le exact_one below above⟩

theorem Samples.valueAtRank_eq (samples : Samples sorted)
    (room : rank ≤ (sorted.length - 1 : Nat)) :
    valueAtRank sorted rank = some (interpolate (sample sorted ⌊rank⌋₊) (sample sorted ⌈rank⌉₊)
      (rankWeight rank)) := by
  simp only [valueAtRank, if_pos (samples.ceil room), getElem?_sample (samples.ceil room),
    getElem?_sample (samples.floor room), Option.bind_some, Option.map_some, rankWeight]

theorem Samples.value_bounds (samples : Samples sorted) (nonneg : 0 ≤ rank)
    (room : rank ≤ (sorted.length - 1 : Nat)) (found : valueAtRank sorted rank = some value) :
    sample sorted ⌊rank⌋₊ ≤ value ∧ value ≤ sample sorted ⌈rank⌉₊ := by
  obtain ⟨nonnegative, light⟩ := samples.weight_bounds nonneg room
  rw [samples.valueAtRank_eq room, Option.some.injEq] at found
  subst found
  constructor
  · exact le_interpolate (samples.exact _ (sample_mem (samples.floor room))) nonnegative
  · exact interpolate_le (samples.exact _ (sample_mem (samples.ceil room)))
      (samples.mono (Nat.floor_le_ceil rank) (samples.ceil room)) nonnegative light

/-- A later rank has no smaller value. -/
theorem Samples.value_mono (samples : Samples sorted) (nonneg : 0 ≤ rank) (le : rank ≤ later)
    (room : later ≤ (sorted.length - 1 : Nat)) (earlier : valueAtRank sorted rank = some value)
    (next : valueAtRank sorted later = some after) : value ≤ after := by
  have inside := le.trans room
  by_cases same : ⌊rank⌋₊ = ⌊later⌋₊
  · -- the same lower sample: the upper one and the weight can only grow
    rw [samples.valueAtRank_eq inside, Option.some.injEq] at earlier
    rw [samples.valueAtRank_eq room, Option.some.injEq] at next
    rw [← earlier, ← next, ← same]
    have weights : rankWeight rank ≤ rankWeight later := by
      rw [samples.weight_eq inside, samples.weight_eq room, ← same]
      have below := Nat.floor_le nonneg
      exact double_mono (by linarith) (by linarith)
    exact interpolate_mono (samples.mono (Nat.ceil_mono le) (samples.ceil room))
      (samples.weight_bounds nonneg inside).1 weights
  · -- all of the earlier interval lies below the later one
    have below := (samples.value_bounds nonneg inside earlier).2
    have above := (samples.value_bounds (nonneg.trans le) room next).1
    have apart : ⌈rank⌉₊ ≤ ⌊later⌋₊ := by
      have floors := Nat.floor_mono le
      have ceiling := Nat.ceil_le_floor_add_one rank
      omega
    exact (below.trans (samples.mono apart (samples.floor room))).trans above

end Rank

/-! Percentiles. -/

section Percentile

variable {values : List Nat} {percentile higher : ℚ}

theorem mem_le_sum {value : Nat} (member : value ∈ values) : value ≤ values.sum :=
  List.single_le_sum (by simp) value member

theorem samples_mergeSort (filled : values ≠ []) (count : Exact values.length)
    (total : Exact values.sum) : Samples (values.mergeSort (· ≤ ·)) := by
  refine ⟨?_, ?_, fun value member => ?_, ?_⟩
  · rwa [ne_eq, ← List.length_eq_zero_iff, List.length_mergeSort, List.length_eq_zero_iff]
  · exact List.pairwise_mergeSort' (· ≤ ·) values
  · exact total.of_le (mem_le_sum (List.mem_mergeSort.mp member))
  · rwa [List.length_mergeSort]

def rankOf (length : Nat) (percentile : ℚ) : ℚ :=
  double (percentile * double (double length - 1))

theorem rankOf_eq {length : Nat} (count : Exact length) (positive : 0 < length) :
    rankOf length percentile = double (percentile * (length - 1 : Nat)) := by
  have less : double (double length - 1) = (length - 1 : Nat) := by
    rw [double_natCast count, ← Nat.cast_pred positive,
      double_natCast (count.of_le (Nat.sub_le length 1))]
  rw [rankOf, less]

theorem Samples.rank_bounds {sorted : List Nat} (samples : Samples sorted)
    (nonneg : 0 ≤ percentile) (bound : percentile ≤ 1) :
    0 ≤ rankOf sorted.length percentile ∧
      rankOf sorted.length percentile ≤ (sorted.length - 1 : Nat) := by
  rw [rankOf_eq samples.count (List.length_pos_of_ne_nil samples.filled)]
  have product : 0 ≤ percentile * (sorted.length - 1 : Nat) :=
    mul_nonneg nonneg (Nat.cast_nonneg _)
  refine ⟨double_nonneg product, ?_⟩
  exact double_le (samples.count.of_le (Nat.sub_le _ 1)) product
    (mul_le_of_le_one_left (Nat.cast_nonneg _) bound)

theorem percentileValue_spec (filled : values ≠ []) (count : Exact values.length)
    (total : Exact values.sum) (nonneg : 0 ≤ percentile) (bound : percentile ≤ 1) :
    ∃ value, percentileValue values percentile = some value ∧ (∃ low ∈ values, low ≤ value) ∧
      ∃ high ∈ values, value ≤ high := by
  have samples := samples_mergeSort filled count total
  simp only [percentileValue, if_neg filled]
  split
  · obtain ⟨value, single⟩ := List.length_eq_one_iff.mp ‹_›
    have listed : value ∈ values.mergeSort (· ≤ ·) := by
      rw [single]
      exact List.mem_singleton_self value
    have member : value ∈ values := List.mem_mergeSort.mp listed
    exact ⟨value, by rw [single]; rfl, ⟨value, member, le_rfl⟩, value, member, le_rfl⟩
  · obtain ⟨above, room⟩ := samples.rank_bounds nonneg bound
    have found := samples.valueAtRank_eq room
    obtain ⟨low, high⟩ := samples.value_bounds above room found
    exact ⟨_, found, ⟨_, List.mem_mergeSort.mp (sample_mem (samples.floor room)), low⟩,
      _, List.mem_mergeSort.mp (sample_mem (samples.ceil room)), high⟩

theorem percentileValue_mono (filled : values ≠ []) (count : Exact values.length)
    (total : Exact values.sum) (nonneg : 0 ≤ percentile) (le : percentile ≤ higher)
    (bound : higher ≤ 1) {value after : Nat}
    (earlier : percentileValue values percentile = some value)
    (next : percentileValue values higher = some after) : value ≤ after := by
  have samples := samples_mergeSort filled count total
  simp only [percentileValue, if_neg filled] at earlier next
  split at earlier
  · rw [if_pos ‹_›, earlier, Option.some.injEq] at next
    exact next.le
  · rw [if_neg ‹_›] at next
    obtain ⟨above, _⟩ := samples.rank_bounds nonneg (le.trans bound)
    obtain ⟨_, room⟩ := samples.rank_bounds (nonneg.trans le) bound
    refine samples.value_mono above ?_ room earlier next
    rw [rankOf_eq samples.count (List.length_pos_of_ne_nil samples.filled),
      rankOf_eq samples.count (List.length_pos_of_ne_nil samples.filled)]
    exact double_mono (mul_nonneg nonneg (Nat.cast_nonneg _))
      (mul_le_mul_of_nonneg_right le (Nat.cast_nonneg _))

theorem percentileValue_perm {others : List Nat} (same : others.Perm values) :
    percentileValue others percentile = percentileValue values percentile := by
  have sorted : others.mergeSort (· ≤ ·) = values.mergeSort (· ≤ ·) :=
    (((List.mergeSort_perm others _).trans same).trans
      (List.mergeSort_perm values _).symm).eq_of_pairwise'
      (List.pairwise_mergeSort' _ others) (List.pairwise_mergeSort' _ values)
  simp only [percentileValue, sorted, ← List.isEmpty_iff, same.isEmpty_eq]

end Percentile

/-! The report. -/

theorem latencyFigures_perm {others values : List Nat} (same : others.Perm values) :
    latencyFigures others = latencyFigures values := by
  have greatest : others.max? = values.max? := by
    refine Option.ext fun most => ?_
    simp only [List.max?_eq_some_iff, same.mem_iff]
  simp only [latencyFigures, percentileValue_perm same, greatest, same.sum_eq, same.length_eq,
    ← List.isEmpty_iff, same.isEmpty_eq]

structure LatencyFigures.Ordered (figures : LatencyFigures) (latencies : List Nat) : Prop where
  p50_le : figures.p50 ≤ figures.p95
  p95_le : figures.p95 ≤ figures.p99
  p99_le : figures.p99 ≤ figures.max
  average_le : figures.average ≤ figures.max
  max : figures.max ∈ latencies ∧ ∀ latency ∈ latencies, latency ≤ figures.max
  least : ∀ least, (∀ latency ∈ latencies, least ≤ latency) →
    least ≤ figures.p50 ∧ least ≤ figures.average

section Figures

variable {latencies : List Nat} (filled : latencies ≠ []) (count : Exact latencies.length)
  (total : Exact latencies.sum)

include filled count total

theorem average_bounds {least most : Nat} (least_le : ∀ latency ∈ latencies, least ≤ latency)
    (le_most : ∀ latency ∈ latencies, latency ≤ most) (exact : Exact most) :
    let average :=
      ⌊double (double (latencies.sum % 2 ^ 64 : Nat) / double latencies.length)⌋₊
    least ≤ average ∧ average ≤ most := by
  intro average
  have positive := List.length_pos_of_ne_nil filled
  have divisor : (0 : ℚ) < latencies.length := by exact_mod_cast positive
  have wraps : latencies.sum % 2 ^ 64 = latencies.sum :=
    Nat.mod_eq_of_lt (total.trans (by decide))
  have value : average = ⌊double ((latencies.sum : ℚ) / latencies.length)⌋₊ := by
    simp only [average, wraps, double_natCast total, double_natCast count]
  have below : (least : ℚ) ≤ latencies.sum / latencies.length := by
    rw [le_div_iff₀ divisor]
    have sums := List.card_nsmul_le_sum latencies least least_le
    rw [nsmul_eq_mul, mul_comm] at sums
    exact_mod_cast sums
  have above : (latencies.sum : ℚ) / latencies.length ≤ most := by
    rw [div_le_iff₀ divisor]
    have sums := List.sum_le_card_nsmul latencies most le_most
    rw [nsmul_eq_mul, mul_comm] at sums
    exact_mod_cast sums
  rw [value]
  constructor
  · refine Nat.le_floor (le_double ?_ below)
    obtain ⟨latency, member⟩ := List.exists_mem_of_ne_nil latencies filled
    exact exact.of_le ((least_le latency member).trans (le_most latency member))
  · exact Nat.floor_le_of_le (double_le exact (by positivity) above)

theorem figures_ordered :
    ∃ figures, latencyFigures latencies = some figures ∧ figures.Ordered latencies := by
  have fifty : (0 : ℚ) ≤ double (50 / 100) := double_nonneg (by norm_num)
  have later : double (50 / 100) ≤ double (95 / 100) := double_mono (by norm_num) (by norm_num)
  have latest : double (95 / 100) ≤ double (99 / 100) := double_mono (by norm_num) (by norm_num)
  have bound : double (99 / 100) ≤ 1 := by
    exact_mod_cast double_le exact_one (by norm_num) (by norm_num : (99 / 100 : ℚ) ≤ (1 : Nat))
  obtain ⟨p50, first, ⟨low, lowMember, lowest⟩, _⟩ :=
    percentileValue_spec filled count total fifty (later.trans (latest.trans bound))
  obtain ⟨p95, second, _⟩ :=
    percentileValue_spec filled count total (fifty.trans later) (latest.trans bound)
  obtain ⟨p99, third, _, high, highMember, highest⟩ :=
    percentileValue_spec filled count total (fifty.trans (later.trans latest)) bound
  obtain ⟨most, greatest⟩ := Option.isSome_iff_exists.mp
    (List.isSome_max?_of_mem (List.exists_mem_of_ne_nil latencies filled).choose_spec)
  obtain ⟨mostMember, le_most⟩ := List.max?_eq_some_iff.mp greatest
  have exact := total.of_le (mem_le_sum mostMember)
  have figures : latencyFigures latencies = some
      { max := most
        average := ⌊double (double (latencies.sum % 2 ^ 64 : Nat) / double latencies.length)⌋₊
        p50, p95, p99 } := by
    simp only [latencyFigures, if_neg filled, first, second, third, greatest, Option.bind_some,
      Option.map_some, Option.getD_some]
  refine ⟨_, figures, ?_⟩
  constructor
  · exact percentileValue_mono filled count total fifty later (latest.trans bound) first second
  · exact percentileValue_mono filled count total (fifty.trans later) latest bound second third
  · exact highest.trans (le_most high highMember)
  · exact (average_bounds filled count total (fun _ _ => Nat.zero_le _) le_most exact).2
  · exact ⟨mostMember, le_most⟩
  · intro least least_le
    exact ⟨(least_le low lowMember).trans lowest,
      (average_bounds filled count total least_le le_most exact).1⟩

/-- As long as fewer than `2 ^ 53` microseconds have been spent on fewer than `2 ^ 53`
requests, no index is out of range, the percentiles are in order between the smallest and
the greatest sample, and so is the average; the order of the samples does not matter. -/
theorem latency_figures_ordered :
    ∃ figures, latencyFigures latencies = some figures ∧ figures.Ordered latencies ∧
      ∀ others, others.Perm latencies → latencyFigures others = some figures := by
  obtain ⟨figures, found, ordered⟩ := figures_ordered filled count total
  exact ⟨figures, found, ordered, fun others same => (latencyFigures_perm same).trans found⟩

end Figures

theorem latency_figures_ordered_few : ∃ figures, latencyFigures [1000, 200, 30] = some figures ∧
    30 ≤ figures.p50 ∧ figures.p99 ≤ 1000 := by
  obtain ⟨figures, found, ordered, _⟩ :=
    latency_figures_ordered (List.cons_ne_nil 1000 [200, 30]) (by norm_num [Exact])
      (by norm_num [Exact])
  have greatest : figures.max ≤ 1000 := by
    have member := ordered.max.1
    simp at member
    omega
  exact ⟨figures, found, (ordered.least 30 (by simp)).1, ordered.p99_le.trans greatest⟩

end KafkaBroker
