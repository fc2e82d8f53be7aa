import Dmi.Rows.Gather

/-!
# The loaded row table

With `total k` the number of rows of the first `k` segments, the prefix that a block has in its
shared memory is `min (total k) upper_rows` (`shared_eq`): the lanes sum their counts, the
shuffles sum the lanes, and every lane writes the running sum from there, saturated.

The sums of the scan are right as long as 256 times the number of rows is an int64.
-/

namespace Dmi.Rows

open List

/-! ### Segments of a table -/

theorem segmentCount_le (table : List Int) : segmentCount table ≤ 256 := by
  unfold segmentCount rowTableSegmentCount gatherMaxSegs
  dsimp only
  split_ifs <;> omega

theorem clampedSegment_spec (table : List Int) {upper : Int} (hupper : 0 ≤ upper) (k : Nat) :
    0 ≤ (clampedSegment table upper k).1 ∧ 0 ≤ (clampedSegment table upper k).2 ∧
      (clampedSegment table upper k).1 + (clampedSegment table upper k).2 ≤ upper := by
  unfold clampedSegment
  dsimp only
  split_ifs <;> omega

/-- The rows of a segment, none past the number of segments. -/
def count (table : List Int) (upper : Int) (k : Nat) : Int :=
  if k < segmentCount table then (clampedSegment table upper k).2 else 0

/-- The rows of the first `k` segments. -/
def total (table : List Int) (upper : Int) (k : Nat) : Int :=
  ∑ i ∈ Finset.range k, count table upper i

section Table

variable (table : List Int) {upper : Int} (hupper : 0 ≤ upper)

include hupper

theorem count_nonneg (k : Nat) : 0 ≤ count table upper k := by
  unfold count
  split
  · exact (clampedSegment_spec table hupper k).2.1
  · exact le_rfl

theorem count_le (k : Nat) : count table upper k ≤ upper := by
  unfold count
  split
  · have := clampedSegment_spec table hupper k
    omega
  · exact hupper

theorem total_mono : Monotone (total table upper) :=
  monotone_sum_range (count_nonneg table hupper)

theorem total_nonneg (k : Nat) : 0 ≤ total table upper k :=
  Finset.sum_nonneg fun i _ => count_nonneg table hupper i

theorem total_le_mul (k : Nat) : total table upper k ≤ k * upper := by
  induction k with
  | zero => simp [total]
  | succ k ih =>
    have := count_le table hupper k
    rw [total, Finset.sum_range_succ]
    rw [total] at ih
    push_cast
    linarith

omit hupper in
theorem total_eq_of_le {k : Nat} (hk : segmentCount table ≤ k) :
    total table upper k = total table upper (segmentCount table) := by
  refine (Finset.sum_subset (Finset.range_subset_range.mpr hk) fun i _ hi => ?_).symm
  rw [count, if_neg]
  simpa using hi

/-- All the rows of a table are at most 256 times the rows of the tensor. -/
theorem total_le (k : Nat) : total table upper k ≤ 256 * upper := by
  have hn := segmentCount_le table
  have hmax : total table upper k ≤ total table upper (segmentCount table) := by
    rcases le_total k (segmentCount table) with h | h
    · exact total_mono table hupper h
    · exact le_of_eq (total_eq_of_le table h)
  have hmul := total_le_mul table hupper (segmentCount table)
  have : (segmentCount table : Int) * upper ≤ 256 * upper :=
    mul_le_mul_of_nonneg_right (by exact_mod_cast hn) hupper
  omega

end Table

/-! ### Loading -/

/-- What the threads write before the first barrier. -/
def loadedPre (table : List Int) (upper : Int) : Nat → Int
  | 0 => 0
  | k + 1 => (clampedSegment table upper k).2

/-- The cells that a thread loads. -/
def loadWrites (table : List Int) (upper : Int) (t : Nat) : List (Nat × Int) :=
  (strided t producerBlockDim (segmentCount table)).map
      (fun k => (k + 1, (clampedSegment table upper k).2)) ++
    if t = 0 then [(0, 0)] else []

theorem store_append {α : Type} (mem : Nat → α) (v w : List (Nat × α)) :
    store mem (v ++ w) = store (store mem v) w := foldl_append

theorem foldl_loadSegment (table : List Int) (upper : Int) (ks : List Nat) (s : Shared) :
    ks.foldl (loadSegment table upper) s =
      { src := store s.src (ks.map fun k => (k, (clampedSegment table upper k).1))
        pre := store s.pre (ks.map fun k => (k + 1, (clampedSegment table upper k).2)) } := by
  induction ks generalizing s with
  | nil => rfl
  | cons k ks ih =>
    rw [foldl_cons, ih]
    rfl

theorem loadThreads_eq (table : List Int) (upper : Int) (threads : List Nat) (s : Shared) :
    threads.foldl (loadThread table upper) s =
      { src := store s.src (threads.flatMap fun t =>
          (strided t producerBlockDim (segmentCount table)).map
            fun k => (k, (clampedSegment table upper k).1))
        pre := store s.pre (threads.flatMap (loadWrites table upper)) } := by
  induction threads generalizing s with
  | nil => rfl
  | cons t threads ih =>
    rw [foldl_cons, ih, loadThread, foldl_loadSegment, flatMap_cons, flatMap_cons,
      store_append, store_append, loadWrites]
    by_cases ht : t = 0
    · simp only [ht, if_true, store_append]
      rfl
    · simp only [ht, if_false, append_nil]

variable {table : List Int} {upper : Int} {threads : List Nat}

variable (table upper) in
theorem loaded (hthreads : threads.Perm (List.range producerBlockDim)) (s : Shared) :
    (∀ k < segmentCount table, (threads.foldl (loadThread table upper) s).src k =
        (clampedSegment table upper k).1) ∧
      ∀ k ≤ segmentCount table, (threads.foldl (loadThread table upper) s).pre k =
        loadedPre table upper k := by
  have hthread : ∀ k < segmentCount table, ∃ t ∈ threads,
      k ∈ strided t producerBlockDim (segmentCount table) := by
    intro k hk
    refine ⟨k % producerBlockDim, ?_, mem_strided_mod (by decide) hk⟩
    rw [hthreads.mem_iff, mem_range]
    exact Nat.mod_lt _ (by decide)
  rw [loadThreads_eq]
  constructor
  · intro k hk
    obtain ⟨t, ht, hmem⟩ := hthread k hk
    have hagree : ∀ w ∈ threads.flatMap fun t =>
        (strided t producerBlockDim (segmentCount table)).map
          (fun k => (k, (clampedSegment table upper k).1)),
        w.2 = (clampedSegment table upper w.1).1 := by
      intro w hw
      obtain ⟨t, _, hw⟩ := mem_flatMap.mp hw
      obtain ⟨k, _, rfl⟩ := mem_map.mp hw
      rfl
    dsimp only
    rw [store_eq (f := fun k => (clampedSegment table upper k).1) hagree, if_pos]
    exact mem_map.mpr ⟨(k, (clampedSegment table upper k).1),
      mem_flatMap.mpr ⟨t, ht, mem_map.mpr ⟨k, hmem, rfl⟩⟩, rfl⟩
  · intro k hk
    have hagree : ∀ w ∈ threads.flatMap (loadWrites table upper),
        w.2 = loadedPre table upper w.1 := by
      intro w hw
      obtain ⟨t, _, hw⟩ := mem_flatMap.mp hw
      rcases mem_append.mp hw with hw | hw
      · obtain ⟨k, _, rfl⟩ := mem_map.mp hw
        rfl
      · split at hw
        · rw [mem_singleton.mp hw]
          rfl
        · exact absurd hw not_mem_nil
    dsimp only
    rw [store_eq hagree, if_pos]
    cases k with
    | zero =>
      have hzero : 0 ∈ threads := hthreads.mem_iff.mpr (mem_range.mpr (by decide))
      exact mem_map.mpr ⟨(0, 0), mem_flatMap.mpr ⟨0, hzero, by simp [loadWrites]⟩, rfl⟩
    | succ k =>
      obtain ⟨t, ht, hmem⟩ := hthread k (by omega)
      exact mem_map.mpr ⟨(k + 1, (clampedSegment table upper k).2),
        mem_flatMap.mpr ⟨t, ht, mem_append_left _ (mem_map.mpr ⟨k, hmem, rfl⟩)⟩,
        rfl⟩

/-! ### The scan -/

theorem add64_adds {bound : Int} (h : bound < 2 ^ 63) : AddsUpTo add64 bound := by
  intro a b hlo hhi
  unfold add64 wrap64
  omega

theorem total_succ (table : List Int) (upper : Int) (k : Nat) :
    total table upper (k + 1) = total table upper k + count table upper k :=
  Finset.sum_range_succ _ k

section Scan

variable (hupper : 0 ≤ upper) (hsmall : 256 * upper < 2 ^ 63) {pre : Nat → Int}

include hupper hsmall

variable (table) in
theorem add64_count {a b : Nat} (hab : a ≤ b) :
    add64 (total table upper b - total table upper a) (count table upper b) =
      total table upper (b + 1) - total table upper a := by
  have hmono : total table upper a ≤ total table upper (b + 1) := total_mono table hupper (by omega)
  have hlow := total_nonneg table hupper a
  have htop := total_le table hupper (b + 1)
  have hsucc := total_succ table upper b
  rw [add64_adds hsmall _ _ (by omega) (by omega)]
  omega

theorem laneLocal_eq
    (hpre : ∀ k < segmentCount table, pre (k + 1) = (clampedSegment table upper k).2)
    (lane : Nat) :
    laneLocal (segmentCount table) pre lane =
      total table upper (lane * 8 + 8) - total table upper (lane * 8) := by
  have hfold : ∀ m, (List.range m).foldl (fun acc j =>
      if lane * 8 + j < segmentCount table then add64 acc (pre (lane * 8 + j + 1)) else acc) 0 =
      total table upper (lane * 8 + m) - total table upper (lane * 8) := by
    intro m
    induction m with
    | zero => simp
    | succ m ih =>
      rw [range_succ, foldl_append, ih, foldl_cons, foldl_nil]
      have hcount : ∀ h : lane * 8 + m < segmentCount table,
          pre (lane * 8 + m + 1) = count table upper (lane * 8 + m) :=
        fun h => by rw [hpre _ h, count, if_pos h]
      split
      · rename_i hlt
        rw [hcount hlt, add64_count table hupper hsmall (by omega), Nat.add_assoc]
      · rename_i hge
        rw [← Nat.add_assoc, total_succ, count, if_neg hge, add_zero]
  exact hfold 8

/-- The shuffles give a lane the rows of all segments up to its own. -/
theorem warpInclusive_eq {lanes : Nat → Int}
    (hlanes : ∀ lane, lanes lane = total table upper (lane * 8 + 8) - total table upper (lane * 8))
    {lane : Nat} (hlane : lane < 32) :
    warpInclusive lanes lane = total table upper (lane * 8 + 8) := by
  have hadds := add64_adds hsmall
  set F : Nat → Int := fun k => total table upper (k * 8) with hF
  have hzero : F 0 = 0 := by simp [hF, total]
  have hmono : Monotone F := fun a b hab => total_mono table hupper (by omega)
  have hbound : ∀ k, F k ≤ 256 * upper := fun k => total_le table hupper _
  have h1 : ∀ lane, lanes lane = F (lane + 1) - F (lane + 1 - 1) := by
    intro lane
    rw [hlanes, Nat.add_sub_cancel]
    simp only [hF, Nat.add_mul, Nat.one_mul]
  have h2 := scanStep_eq hadds hzero hmono hbound h1
  have h4 := scanStep_eq hadds hzero hmono hbound h2
  have h8 := scanStep_eq hadds hzero hmono hbound h4
  have h16 := scanStep_eq hadds hzero hmono hbound h8
  have h32 := scanStep_eq hadds hzero hmono hbound h16 lane
  rw [show lane + 1 - 2 * (2 * (2 * (2 * (2 * 1)))) = 0 by omega, hzero, sub_zero, hF] at h32
  rw [show lane * 8 + 8 = (lane + 1) * 8 by omega]
  exact h32

/-- The prefix, saturated at the rows of the tensor. -/
def saturated (table : List Int) (upper : Int) (k : Nat) : Int := min (total table upper k) upper

/-- A lane writes the prefix of its run and nothing else. -/
theorem laneStore_eq {lane : Nat}
    (hpre : ∀ j < 8, lane * 8 + j < segmentCount table →
      pre (lane * 8 + j + 1) = (clampedSegment table upper (lane * 8 + j)).2) (c : Nat) :
    laneStore upper (segmentCount table) lane (total table upper (lane * 8)) pre (c + 1) =
        (if c / 8 = lane ∧ c < segmentCount table then saturated table upper (c + 1)
          else pre (c + 1)) ∧
      laneStore upper (segmentCount table) lane (total table upper (lane * 8)) pre 0 = pre 0 := by
  have hfold : ∀ m ≤ 8, ∃ mem : Nat → Int,
      (List.range m).foldl (fun (acc : Int × (Nat → Int)) j =>
        if lane * 8 + j < segmentCount table then
          (add64 acc.1 (acc.2 (lane * 8 + j + 1)), Function.update acc.2 (lane * 8 + j + 1)
            (if add64 acc.1 (acc.2 (lane * 8 + j + 1)) < upper then
              add64 acc.1 (acc.2 (lane * 8 + j + 1)) else upper))
        else acc) (total table upper (lane * 8), pre) = (total table upper (lane * 8 + m), mem) ∧
      mem 0 = pre 0 ∧ ∀ c, mem (c + 1) =
        if lane * 8 ≤ c ∧ c < lane * 8 + m ∧ c < segmentCount table then
          saturated table upper (c + 1) else pre (c + 1) := by
    intro m
    induction m with
    | zero => exact fun _ => ⟨pre, by simp, rfl, fun c => by rw [if_neg (by omega)]⟩
    | succ m ih =>
      intro hm
      obtain ⟨mem, hmem, hzero, hcells⟩ := ih (by omega)
      rw [range_succ, foldl_append, hmem, foldl_cons, foldl_nil]
      by_cases hlt : lane * 8 + m < segmentCount table
      · -- the next count has not been overwritten yet
        have hread : mem (lane * 8 + m + 1) = count table upper (lane * 8 + m) := by
          rw [hcells, if_neg (by omega), hpre m (by omega) hlt, count, if_pos hlt]
        have hrun : add64 (total table upper (lane * 8 + m)) (mem (lane * 8 + m + 1)) =
            total table upper (lane * 8 + (m + 1)) := by
          have := add64_count table hupper hsmall (Nat.zero_le (lane * 8 + m))
          have hzero : total table upper 0 = 0 := rfl
          rwa [hzero, sub_zero, sub_zero, ← hread, Nat.add_assoc] at this
        simp only [if_pos hlt, hrun]
        refine ⟨_, rfl, ?_, fun c => ?_⟩
        · rw [Function.update_of_ne (by omega), hzero]
        · by_cases hc : c = lane * 8 + m
          · subst hc
            have hown : lane * 8 ≤ lane * 8 + m ∧ lane * 8 + m < lane * 8 + (m + 1) ∧
              lane * 8 + m < segmentCount table := by omega
            rw [Function.update_self, if_pos hown, saturated, ← Nat.add_assoc]
            split
            · rename_i hin
              exact (min_eq_left (le_of_lt hin)).symm
            · rename_i hout
              exact (min_eq_right (not_lt.mp hout)).symm
          · rw [Function.update_of_ne (by omega), hcells]
            split
            · rw [if_pos (by omega)]
            · rw [if_neg (by omega)]
      · simp only [if_neg hlt]
        refine ⟨mem, ?_, hzero, fun c => ?_⟩
        · rw [← Nat.add_assoc, total_succ, count, if_neg hlt, add_zero]
        · rw [hcells]
          split
          · rw [if_pos (by omega)]
          · rw [if_neg (by omega)]
  obtain ⟨mem, hmem, hzero, hcells⟩ := hfold 8 le_rfl
  have hstore : laneStore upper (segmentCount table) lane (total table upper (lane * 8)) pre =
      mem := congrArg Prod.snd hmem
  rw [hstore]
  refine ⟨?_, hzero⟩
  rw [hcells]
  split
  · rw [if_pos (by omega)]
  · rw [if_neg (by omega)]

/-- **The scan leaves the saturated prefix**, whatever the order of the lanes. -/
theorem scanTable_eq (hthreads : threads.Perm (List.range producerBlockDim))
    (hpre : ∀ k < segmentCount table, pre (k + 1) = (clampedSegment table upper k).2)
    {k : Nat} (hk : k < segmentCount table) :
    scanTable upper (segmentCount table) threads pre (k + 1) = saturated table upper (k + 1) ∧
      scanTable upper (segmentCount table) threads pre 0 = pre 0 := by
  have hlanes := laneLocal_eq hupper hsmall hpre
  set lanes := laneLocal (segmentCount table) pre with hdef
  have hrun : ∀ lane < 32, sub64 (warpInclusive lanes lane) (lanes lane) =
      total table upper (lane * 8) := by
    intro lane hlane
    have hnonneg := total_nonneg table hupper (lane * 8)
    have htop := total_le table hupper (lane * 8)
    rw [warpInclusive_eq hupper hsmall hlanes hlane, hlanes]
    unfold sub64 wrap64
    omega
  have hfold : ∀ (todo done : List Nat) (mem : Nat → Int), (done ++ todo).Nodup →
      (∀ lane ∈ todo, lane < 32) → mem 0 = pre 0 →
      (∀ c, mem (c + 1) = if c / 8 ∈ done ∧ c < segmentCount table then
        saturated table upper (c + 1) else pre (c + 1)) →
      todo.foldl (fun pre lane => laneStore upper (segmentCount table) lane
        (sub64 (warpInclusive lanes lane) (lanes lane)) pre) mem 0 = pre 0 ∧
      ∀ c, todo.foldl (fun pre lane => laneStore upper (segmentCount table) lane
        (sub64 (warpInclusive lanes lane) (lanes lane)) pre) mem (c + 1) =
        if c / 8 ∈ done ++ todo ∧ c < segmentCount table then saturated table upper (c + 1)
          else pre (c + 1) := by
    intro todo
    induction todo with
    | nil => exact fun done mem _ _ hzero hmem => ⟨hzero, by simpa using hmem⟩
    | cons lane todo ih =>
      intro done mem hnodup hlt hzero hmem
      rw [append_cons] at hnodup ⊢
      have hfresh : lane ∉ done := by
        have := (nodup_append.mp hnodup).1
        exact (nodup_concat _ _).mp (by simpa using this) |>.1
      rw [foldl_cons, hrun lane (hlt lane mem_cons_self)]
      have hown : ∀ j < 8, lane * 8 + j < segmentCount table →
          mem (lane * 8 + j + 1) = (clampedSegment table upper (lane * 8 + j)).2 := by
        intro j hj hin
        rw [hmem, if_neg, hpre _ hin]
        rintro ⟨hdone, _⟩
        rw [show (lane * 8 + j) / 8 = lane by omega] at hdone
        exact hfresh hdone
      have hlane := laneStore_eq hupper hsmall hown
      refine ih (done ++ [lane]) _ hnodup (fun l hl => hlt l (.tail _ hl)) ?_ fun c => ?_
      · rw [(hlane 0).2, hzero]
      · rw [(hlane c).1, hmem]
        by_cases hc : c / 8 = lane
        · subst hc
          by_cases hin : c < segmentCount table
          · simp [hin]
          · simp [hin]
        · simp [hc]
  have hnodup : (threads.filter (· < 32)).Nodup :=
    (hthreads.nodup_iff.mpr nodup_range).filter _
  obtain ⟨hzero, hcells⟩ := hfold (threads.filter (· < 32)) [] pre (by simpa using hnodup)
    (fun lane hl => by simpa using (mem_filter.mp hl).2) rfl (by simp)
  refine ⟨?_, hzero⟩
  have hn := segmentCount_le table
  have hlane : k / 8 ∈ [] ++ threads.filter (· < 32) := by
    rw [nil_append, mem_filter, hthreads.mem_iff, mem_range]
    refine ⟨?_, by simpa using (show k / 8 < 32 by omega)⟩
    show k / 8 < 256
    omega
  exact (hcells k).trans (if_pos ⟨hlane, hk⟩)

end Scan

/-! ### The table in shared memory -/

variable (table) in
/-- **The loaded table**: the first rows of the segments and their saturated prefix. -/
theorem shared_eq (hupper : 0 ≤ upper) (hsmall : 256 * upper < 2 ^ 63)
    (hthreads : threads.Perm (List.range producerBlockDim)) (s : Shared) :
    (∀ k < segmentCount table, (loadRowTable table upper threads s).src k =
        (clampedSegment table upper k).1) ∧
      ∀ k ≤ segmentCount table, (loadRowTable table upper threads s).pre k =
        saturated table upper k := by
  obtain ⟨hsrc, hpre⟩ := loaded table upper hthreads s
  have hzero : saturated table upper 0 = 0 := by simpa [saturated, total] using hupper
  unfold loadRowTable
  split
  · refine ⟨hsrc, fun k hk => ?_⟩
    have hload : ∀ k < segmentCount table,
        (threads.foldl (loadThread table upper) s).pre (k + 1) =
          (clampedSegment table upper k).2 := fun k hk => hpre (k + 1) hk
    cases k with
    | zero =>
      have := (scanTable_eq hupper hsmall hthreads hload (k := 0) (by omega)).2
      rw [hzero]
      exact this.trans (hpre 0 (Nat.zero_le _))
    | succ k => exact (scanTable_eq hupper hsmall hthreads hload hk).1
  · refine ⟨hsrc, fun k hk => ?_⟩
    rw [hpre k hk]
    cases k with
    | zero => exact hzero.symm
    | succ k =>
      -- one segment: its count is its prefix
      obtain rfl : k = 0 := by omega
      have hspec := clampedSegment_spec table hupper 0
      have hcount : total table upper 1 = (clampedSegment table upper 0).2 := by
        simp [total, count, show 0 < segmentCount table by omega]
      rw [saturated, hcount, loadedPre, min_eq_left (by omega)]

end Dmi.Rows
