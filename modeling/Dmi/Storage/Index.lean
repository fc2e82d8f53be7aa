import Dmi.Storage.Service

/-!
# An index pass splits its references

However the catalog and the object store answer, `indexBounded` comes to its end and splits its
references into those that were indexed, those that were rejected and those that are left
(`Settled`). A batch that is too large is halved, so the number of turns is bounded by `turns`.
-/

namespace Dmi.Storage

open List

open Proc (Meets Script)

variable {good : (a : Act) → a.Res → Prop} {cfg : Config} {s s' s'' : Service} {β : Type}

theorem meets_ask {a : Act} {f : a.Answer → Method β} {Q : Service → Except Unit β → Prop}
    (h : ∀ r, good a r → Meets good (s.stage r.1) (f r.2) Q) : Meets good s (ask a >>= f) Q := h

theorem stage_stage (packs packs' : List PackRef) :
    (s.stage packs).stage packs' = s.stage (packs ++ packs') := by
  simp only [Service.stage, append_assoc]

/-- The references of a pass: indexed, rejected, or left. -/
structure Settled (s s' : Service) (refs left : List PackRef) : Prop where
  pending : s'.pendingIndex = s.pendingIndex
  uploaded : s'.uploaded = s.uploaded
  reported : s'.reported = s.reported
  staged : ∃ new, s'.spool = s.spool ++ new ∧ s'.history = s.history ++ new
  split : ∃ indexed rejected, s'.committed = s.committed ++ indexed ∧
    s'.rejectedUnreported = s.rejectedUnreported ++ rejected ∧
    refs.Perm (indexed ++ rejected.map Rejection.ref ++ left)

namespace Settled

variable {refs mid left : List PackRef}

theorem refl (s : Service) (refs : List PackRef) : Settled s s refs refs :=
  ⟨rfl, rfl, rfl, ⟨[], (append_nil _).symm, (append_nil _).symm⟩, [], [],
    (append_nil _).symm, (append_nil _).symm, .refl _⟩

theorem reject (s : Service) (ref : PackRef) (reason : Bytes) (left : List PackRef) :
    Settled s (s.reject ref reason) (ref :: left) left :=
  ⟨rfl, rfl, rfl, ⟨[], (append_nil _).symm, (append_nil _).symm⟩, [], [⟨ref, reason⟩],
    (append_nil _).symm, rfl, .refl _⟩

theorem stage (s : Service) (packs refs : List PackRef) : Settled s (s.stage packs) refs refs :=
  ⟨rfl, rfl, rfl, ⟨packs, rfl, rfl⟩, [], [], (append_nil _).symm, (append_nil _).symm,
    .refl _⟩

theorem trans (h : Settled s s' refs mid) (h' : Settled s' s'' mid left) :
    Settled s s'' refs left := by
  obtain ⟨new, hspool, hhistory⟩ := h.staged
  obtain ⟨new', hspool', hhistory'⟩ := h'.staged
  obtain ⟨indexed, rejected, hindexed, hrejected, hperm⟩ := h.split
  obtain ⟨indexed', rejected', hindexed', hrejected', hperm'⟩ := h'.split
  refine ⟨h'.pending.trans h.pending, h'.uploaded.trans h.uploaded,
    h'.reported.trans h.reported, ⟨new ++ new', ?_, ?_⟩, indexed ++ indexed',
    rejected ++ rejected', ?_, ?_, ?_⟩
  · rw [hspool', hspool, append_assoc]
  · rw [hhistory', hhistory, append_assoc]
  · rw [hindexed', hindexed, append_assoc]
  · rw [hrejected', hrejected, append_assoc]
  · refine hperm.trans ((hperm'.append_left _).trans (perm_iff_count.mpr fun p => ?_))
    simp only [map_append, count_append]
    omega

theorem of_perm {refs' : List PackRef} (h : Settled s s' refs' left) (hperm : refs.Perm refs') :
    Settled s s' refs left := by
  obtain ⟨indexed, rejected, hindexed, hrejected, hsplit⟩ := h.split
  exact ⟨h.pending, h.uploaded, h.reported, h.staged, indexed, rejected, hindexed, hrejected,
    hperm.trans hsplit⟩

theorem append (h : Settled s s' refs left) (more : List PackRef) :
    Settled s s' (refs ++ more) (left ++ more) := by
  obtain ⟨indexed, rejected, hindexed, hrejected, hsplit⟩ := h.split
  refine ⟨h.pending, h.uploaded, h.reported, h.staged, indexed, rejected, hindexed, hrejected, ?_⟩
  rw [← append_assoc]
  exact hsplit.append_right more

variable (failed : Dict Bytes Bytes)

theorem settle (x : Service × List PackRef) (ref : PackRef) :
    Settled x.1 (Storage.settle cfg failed x ref).1 (ref :: x.2)
      (Storage.settle cfg failed x ref).2 := by
  have hnone : ∃ new, x.1.spool = x.1.spool ++ new ∧ x.1.history = x.1.history ++ new :=
    ⟨[], (append_nil _).symm, (append_nil _).symm⟩
  rw [Storage.settle]
  cases failed.get? ref.packId with
  | none =>
    exact ⟨rfl, rfl, rfl, hnone, [ref], [], rfl, (append_nil _).symm, .refl _⟩
  | some message =>
    dsimp only
    split_ifs with hattempts
    · exact ⟨rfl, rfl, rfl, hnone, [], [⟨ref, _⟩], (append_nil _).symm, rfl, .refl _⟩
    · refine ⟨rfl, rfl, rfl, hnone, [], [], (append_nil _).symm, (append_nil _).symm, ?_⟩
      exact (perm_append_singleton ref x.2).symm

theorem fold (batch : List PackRef) (x : Service × List PackRef) :
    Settled x.1 (batch.foldl (Storage.settle cfg failed) x).1 (x.2 ++ batch)
      (batch.foldl (Storage.settle cfg failed) x).2 := by
  induction batch generalizing x with
  | nil =>
    rw [append_nil]
    exact .refl x.1 x.2
  | cons ref batch ih =>
    refine ((settle failed x ref).append batch).trans (ih _) |>.of_perm ?_
    exact perm_middle

end Settled

/-! ### The loop -/

/-- A pass ends, and has split its references. -/
def Passed (s : Service) (refs : List PackRef) (s' : Service) (r : Except Unit Pass) : Prop :=
  ∃ pass, r = .ok pass ∧ Settled s s' refs pass.unindexed

theorem Passed.of_settled {refs mid : List PackRef} {r : Except Unit Pass}
    (hfirst : Settled s s' refs mid) (hrest : Passed s' mid s'' r) : Passed s refs s'' r := by
  obtain ⟨pass, hr, hsettled⟩ := hrest
  exact ⟨pass, hr, hfirst.trans hsettled⟩

theorem Passed.meets {refs mid : List PackRef} {m : Method Pass} (hfirst : Settled s s' refs mid)
    (hrest : Meets good s' m (Passed s' mid)) : Meets good s' m (Passed s refs) :=
  hrest.mono fun _ _ => Passed.of_settled hfirst

theorem meets_readsCut (first : Bool) :
    Meets good s (readsCut first) fun s' r => ∃ cut packs, r = .ok cut ∧ s' = s.stage packs := by
  refine meets_ask fun r _ => ?_
  split
  · exact .pure ⟨true, r.1, rfl, rfl⟩
  split
  · exact .pure ⟨false, r.1, rfl, rfl⟩
  exact fun r' _ => ⟨r'.2, r.1 ++ r'.1, rfl, stage_stage r.1 r'.1⟩

theorem one_le_turns (batch : List PackRef) : 1 ≤ turns batch := Nat.le_max_left 1 _

/-- The two halves of a batch take fewer turns than the batch. -/
theorem turns_halves {batch : List PackRef} (h : 2 ≤ batch.length) :
    turns (batch.take (batch.length / 2)) + turns (batch.drop (batch.length / 2)) + 1 ≤
      turns batch := by
  simp only [turns, length_take, length_drop]
  omega

/-- With a turn for each that its batches can take, the loop ends its work. -/
theorem meets_indexLoop (left : Nat) (first : Bool) (work : List (List PackRef))
    (unindexed : List PackRef) (hleft : (work.map turns).sum ≤ left) :
    Meets good s (indexLoop cfg left first work unindexed)
      (Passed s (unindexed ++ work.flatten)) := by
  induction left generalizing s first work unindexed with
  | zero =>
    cases work with
    | nil =>
      rw [flatten_nil, append_nil]
      exact .pure ⟨_, rfl, .refl s unindexed⟩
    | cons batch rest =>
      have hturn := one_le_turns batch
      rw [map_cons, sum_cons] at hleft
      omega
  | succ left ih =>
    cases work with
    | nil =>
      rw [flatten_nil, append_nil]
      exact .pure ⟨_, rfl, .refl s unindexed⟩
    | cons batch rest =>
      have hturn := one_le_turns batch
      rw [map_cons, sum_cons] at hleft
      rw [flatten_cons]
      refine (meets_readsCut first).bind ?_ (by rintro s' e ⟨cut, packs, hr, -⟩; cases hr)
      rintro s' cut ⟨cut', packs, hr, rfl⟩
      split
      · exact .pure ⟨_, rfl, .stage s packs _⟩
      refine meets_ask fun r _ => ?_
      rw [stage_stage]
      have hstage (refs : List PackRef) := Settled.stage s (packs ++ r.1) refs
      cases r.2 with
      | unavailable cancelled | refused lost | failed => exact .pure ⟨_, rfl, hstage _⟩
      | tooLarge what =>
        match batch with
        | [] => exact Passed.meets (hstage _) (ih _ _ _ (by omega))
        | [ref] =>
          refine .modify (Passed.meets ((hstage _).trans ?_) (ih _ _ _ (by omega)))
          exact (Settled.reject _ ref what (unindexed ++ rest.flatten)).of_perm perm_middle
        | ref :: ref' :: batch =>
          have htwo : 2 ≤ (ref :: ref' :: batch).length := by simp
          have hhalves := turns_halves htwo
          refine Passed.meets (hstage _) ((ih _ _ _ ?_).mono fun _ _ hpassed => ?_)
          · rw [map_cons, map_cons, sum_cons, sum_cons]
            omega
          · rwa [flatten_cons, flatten_cons, ← append_assoc (List.take _ _),
              take_append_drop] at hpassed
      | done failures =>
        refine .get (.modify (Passed.meets ((hstage _).trans ?_) (ih _ _ _ (by omega))))
        rw [← append_assoc]
        exact (Settled.fold (failedOf failures) batch (_, unindexed)).append _

/-! ### Chunks -/

section Chunks

variable {α : Type} {n : Nat}

theorem flatten_chunksOf (hn : 1 ≤ n) (left : Nat) (l : List α) (h : l.length ≤ left) :
    (chunksOf n left l).flatten = l := by
  induction left generalizing l with
  | zero => rw [eq_nil_of_length_eq_zero (Nat.le_zero.mp h), chunksOf, flatten_nil]
  | succ left ih =>
    cases l with
    | nil => rw [chunksOf, flatten_nil]
    | cons x xs =>
      rw [chunksOf, flatten_cons, ih, take_append_drop]
      rw [length_drop]
      omega

theorem length_le_of_mem_chunksOf (left : Nat) (l : List α) {c : List α}
    (h : c ∈ chunksOf n left l) : c.length ≤ n := by
  induction left generalizing l with
  | zero => cases h
  | succ left ih =>
    cases l with
    | nil => cases h
    | cons x xs =>
      rcases mem_cons.mp h with rfl | hrest
      · exact length_take_le n _
      · exact ih _ hrest

end Chunks

theorem Config.one_le_chunk (cfg : Config) : 1 ≤ cfg.chunk := by
  simp only [Config.chunk]
  omega

/-- **An index pass ends, and each of its references is indexed, rejected or left.** -/
theorem meets_indexBounded (refs : List PackRef) :
    Meets good s (indexBounded cfg refs) (Passed s refs) := by
  refine (meets_indexLoop _ true _ [] le_rfl).mono fun _ _ hpassed => ?_
  rwa [nil_append, flatten_chunksOf cfg.one_le_chunk _ _ le_rfl] at hpassed

/-- What a pass leaves is owed. -/
def Owed (s : Service) (refs : List PackRef) (s' : Service) : Prop :=
  ∃ mid left, Settled s mid refs left ∧
    s' = { mid with pendingIndex := mid.pendingIndex ++ left }

theorem meets_indexOrOwe (refs : List PackRef) :
    Meets good s (indexOrOwe cfg refs) fun s' _ => Owed s refs s' := by
  refine (meets_indexBounded refs).bind ?_ (by rintro s' e ⟨pass, hr, -⟩; cases hr)
  rintro mid pass ⟨pass', hr, hsettled⟩
  cases hr
  refine .modify ?_
  split
  · exact .raise ⟨mid, pass.unindexed, hsettled, rfl⟩
  · exact .pure ⟨mid, pass.unindexed, hsettled, rfl⟩

end Dmi.Storage
