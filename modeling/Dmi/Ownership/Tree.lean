import Dmi.Ownership.Exclusive

/-!
# What the acts do to the tree

The directories of the tree have inodes of their own (`Tree`). A directory whose lock file is there
cannot be removed, nor can one above it, so the acts of the others leave its path, its inode and its
lock file as they are (`Spares`), and a walk that has yet to report it still has to.
-/

namespace Dmi.Ownership

open World Dict

variable {ι : Type} [DecidableEq ι]

/-- No two paths lead to one directory, and inodes are not used again. -/
structure Tree (w : World ι) : Prop where
  unique : ∀ {p q dir}, w.dirs.get? p = some dir → w.dirs.get? q = some dir → p = q
  fresh : ∀ {p dir}, w.dirs.get? p = some dir → dir < w.fresh

/-- The directory at a path is left as it is, and those above it. A walk, but that of the one named,
keeps it if it was going to report it. -/
structure Spares (walker : Option ι) (w w' : World ι) (path : Path ι) : Prop where
  dir : w'.dirs.get? path = w.dirs.get? path
  file : w'.fileAt path = w.fileAt path
  above : ∀ {outer dir}, World.Inside outer path → w.dirs.get? outer = some dir →
    w'.dirs.get? outer = some dir
  pending : ∀ i, some i ≠ walker → path ∈ w.pending i → path ∈ w'.pending i

theorem Spares.refl (walker : Option ι) (w : World ι) (path : Path ι) : Spares walker w w path :=
  ⟨rfl, rfl, fun _ => id, fun _ _ => id⟩

theorem Spares.of_eq {walker : Option ι} {w w' : World ι} {path : Path ι}
    (hdirs : w'.dirs = w.dirs) (hfile : w'.lockFile = w.lockFile)
    (hpending : ∀ i, some i ≠ walker → w'.pending i = w.pending i) : Spares walker w w' path := by
  refine ⟨by rw [hdirs], by rw [fileAt, fileAt, hdirs, hfile], ?_, ?_⟩
  · intro outer dir _ h
    rw [hdirs]
    exact h
  · intro i hi h
    rw [hpending i hi]
    exact h

namespace World

variable {w : World ι} {p q : Path ι} {file dir : Ino}

theorem dir_of_fileAt (h : w.fileAt q = some file) :
    ∃ dir, w.dirs.get? q = some dir ∧ w.lockFile dir = some file :=
  Option.bind_eq_some_iff.mp h

theorem fileAt_eq (hdir : w.dirs.get? q = some dir) : w.fileAt q = w.lockFile dir := by
  rw [fileAt, hdir]
  rfl

/-! ### `mkdir` -/

theorem makeDir_ok (hok : (w.makeDir p).1 = .ok) : w.dirs.get? p = none ∧
    (w.makeDir p).2 = { w with dirs := w.dirs.set p w.fresh, fresh := w.fresh + 1 } := by
  rw [makeDir] at hok ⊢
  split_ifs at hok ⊢ with hp hparent
  exact ⟨Option.not_isSome_iff_eq_none.mp hp, rfl⟩

theorem makeDir_ne_ok (hok : (w.makeDir p).1 ≠ .ok) : (w.makeDir p).2 = w := by
  rw [makeDir] at hok ⊢
  split_ifs at hok ⊢
  · rfl
  · rfl
  · exact absurd rfl hok

theorem makeDir_tree (h : Tree w) : Tree (w.makeDir p).2 := by
  by_cases hok : (w.makeDir p).1 = .ok
  · obtain ⟨hp, hw⟩ := makeDir_ok hok
    rw [hw]
    constructor
    · intro q₁ q₂ dir h₁ h₂
      simp only [get?_set] at h₁ h₂
      split_ifs at h₁ h₂ with hq₁ hq₂ hq₂
      · exact hq₁.trans hq₂.symm
      · cases h₁
        exact absurd (h.fresh h₂) (Nat.lt_irrefl _)
      · cases h₂
        exact absurd (h.fresh h₁) (Nat.lt_irrefl _)
      · exact h.unique h₁ h₂
    · intro q dir hq
      simp only [get?_set] at hq
      split_ifs at hq with hqp
      · cases hq
        exact Nat.lt_succ_self _
      · exact Nat.lt_succ_of_lt (h.fresh hq)
  · rw [makeDir_ne_ok hok]
    exact h

theorem makeDir_spares (hq : w.dirs.get? q = some dir) :
    Spares none w (w.makeDir p).2 q := by
  by_cases hok : (w.makeDir p).1 = .ok
  · obtain ⟨hp, hw⟩ := makeDir_ok hok
    have hkeep : ∀ {a d}, w.dirs.get? a = some d → (w.dirs.set p w.fresh).get? a = some d := by
      intro a d ha
      rw [get?_set, if_neg, ha]
      rintro rfl
      cases hp.symm.trans ha
    rw [hw]
    refine ⟨(hkeep hq).trans hq.symm, ?_, fun _ => hkeep, fun _ _ => id⟩
    rw [fileAt_eq (hkeep hq), fileAt_eq hq]
  · rw [makeDir_ne_ok hok]
    exact Spares.refl ..

/-! ### `open` of the lock file -/

theorem openFile_cases (w : World ι) (mode : Mode) (p : Path ι) : (w.openFile mode p).2 = w ∨
    ∃ dir, w.dirs.get? p = some dir ∧ w.lockFile dir = none ∧
      w.openFile mode p = (some w.fresh,
        { w with
          lockFile := Function.update w.lockFile dir (some w.fresh)
          fresh := w.fresh + 1 }) := by
  rw [openFile]
  cases hdir : w.dirs.get? p with
  | none => exact .inl rfl
  | some dir =>
    dsimp only
    cases hfile : w.lockFile dir with
    | some file => cases mode <;> exact .inl rfl
    | none =>
      cases mode with
      | read => exact .inl rfl
      | create | excl => exact .inr ⟨dir, rfl, hfile, rfl⟩

theorem openFile_tree (h : Tree w) (mode : Mode) : Tree (w.openFile mode p).2 := by
  rcases openFile_cases w mode p with heq | ⟨dir, hdir, hnone, heq⟩
  · rw [heq]
    exact h
  · rw [heq]
    exact ⟨h.unique, fun hq => Nat.lt_succ_of_lt (h.fresh hq)⟩

theorem openFile_spares (mode : Mode) (hq : w.fileAt q = some file) :
    Spares none w (w.openFile mode p).2 q := by
  rcases openFile_cases w mode p with heq | ⟨dir, hdir, hnone, heq⟩
  · rw [heq]
    exact Spares.refl ..
  · rw [heq]
    refine ⟨rfl, ?_, fun _ => id, fun _ _ => id⟩
    obtain ⟨dir', hdir', hfile⟩ := dir_of_fileAt hq
    have hne : dir' ≠ dir := by
      rintro rfl
      cases hnone.symm.trans hfile
    change (w.dirs.get? q).bind (Function.update w.lockFile dir (some w.fresh)) = _
    rw [fileAt, hdir']
    exact Function.update_of_ne hne ..

theorem fileAt_openFile_excl (h : (w.openFile .excl p).1 = some file) :
    (w.openFile .excl p).2.fileAt p = some file := by
  rcases openFile_cases w .excl p with heq | ⟨dir, hdir, hnone, heq⟩
  · rw [openFile] at h
    cases hdir : w.dirs.get? p with
    | none =>
      rw [hdir] at h
      cases h
    | some dir =>
      cases hfile : w.lockFile dir with
      | some other =>
        simp only [hdir, hfile] at h
        cases h
      | none =>
        rw [openFile, hdir] at heq
        simp only [hfile] at heq
        have := congrArg fresh heq
        exact absurd this (Nat.succ_ne_self _)
  · rw [heq] at h ⊢
    cases h
    change (w.dirs.get? p).bind (Function.update w.lockFile dir (some w.fresh)) = _
    rw [hdir]
    exact Function.update_self ..

/-! ### `unlink` of the lock file -/

theorem unlink_dirs (p : Path ι) : (w.unlink p).dirs = w.dirs := by
  rw [unlink]
  split <;> rfl

theorem unlink_tree (h : Tree w) : Tree (w.unlink p) := by
  have hfresh : (w.unlink p).fresh = w.fresh := by
    rw [unlink]
    split <;> rfl
  constructor
  · rw [unlink_dirs]
    exact h.unique
  · rw [unlink_dirs, hfresh]
    exact h.fresh

theorem unlink_spares (h : Tree w) (hne : q ≠ p) : Spares none w (w.unlink p) q := by
  rw [unlink]
  cases hdir : w.dirs.get? p with
  | none => exact Spares.refl ..
  | some dir =>
    refine ⟨rfl, ?_, fun _ => id, fun i _ hi => ?_⟩
    · change (w.dirs.get? q).bind (Function.update w.lockFile dir none) = _
      rw [fileAt]
      cases hdir' : w.dirs.get? q with
      | none => rfl
      | some dir' =>
        have hdirs : dir' ≠ dir := by
          rintro rfl
          exact hne (h.unique hdir' hdir)
        exact Function.update_of_ne hdirs ..
    · exact List.mem_filter.mpr ⟨hi, decide_eq_true hne⟩

/-! ### `rmdir` -/

theorem removeDir_tree (h : Tree w) : Tree (w.removeDir p) := by
  rw [removeDir]
  split_ifs with hkeep
  · exact h
  · constructor
    · intro q₁ q₂ dir h₁ h₂
      simp only [get?_erase] at h₁ h₂
      split_ifs at h₁ h₂
      exact h.unique h₁ h₂
    · intro q dir hq
      simp only [get?_erase] at hq
      split_ifs at hq
      exact h.fresh hq

/-- Neither a directory with a lock file can be removed nor one above it. -/
theorem removeDir_spares (hq : w.fileAt q = some file) : Spares none w (w.removeDir p) q := by
  obtain ⟨dir, hdir, hfile⟩ := dir_of_fileAt hq
  have hmem : q ∈ w.dirs.keys := by
    by_contra hnot
    cases (get?_eq_none.mpr hnot).symm.trans hdir
  rw [removeDir]
  split_ifs with hkeep
  · exact Spares.refl ..
  · have hqp : q ≠ p := by
      rintro rfl
      exact hkeep (.inl (by rw [hq]; rfl))
    have hget : ∀ {a}, a ≠ p → (w.dirs.erase p).get? a = w.dirs.get? a := by
      intro a ha
      rw [get?_erase, if_neg ha]
    refine ⟨hget hqp, ?_, ?_, fun _ _ => id⟩
    · rw [fileAt_eq hdir]
      exact fileAt_eq ((hget hqp).trans hdir)
    · intro outer dir' hinside houter
      refine (hget ?_).trans houter
      rintro rfl
      exact hkeep (.inr ⟨q, hmem, hinside⟩)

/-! ### `rename` -/

theorem rename_ok (hok : (w.rename p q).1 = .ok) : w.dirs.get? q = none ∧
    ∃ dir, w.dirs.get? p = some dir ∧ (w.rename p q).2 =
      { w with
        dirs := (w.dirs.erase p).set q dir
        pending := fun i => (w.pending i).filter (· ≠ p) } := by
  rw [rename] at hok ⊢
  split_ifs at hok ⊢ with hq
  cases hdir : w.dirs.get? p with
  | none =>
    rw [hdir] at hok
    cases hok
  | some dir => exact ⟨Option.not_isSome_iff_eq_none.mp hq, dir, rfl, rfl⟩

theorem rename_ne_ok (hok : (w.rename p q).1 ≠ .ok) : (w.rename p q).2 = w := by
  rw [rename] at hok ⊢
  split_ifs at hok ⊢ with hq
  · rfl
  · cases hdir : w.dirs.get? p with
    | none => rfl
    | some dir =>
      rw [hdir] at hok
      exact absurd rfl hok

theorem get?_rename {a : Path ι} (d : Dict (Path ι) Ino) :
    ((d.erase p).set q dir).get? a =
      if a = q then some dir else if a = p then none else d.get? a := by
  rw [get?_set, get?_erase]

theorem rename_tree (h : Tree w) : Tree (w.rename p q).2 := by
  by_cases hok : (w.rename p q).1 = .ok
  · obtain ⟨hq, dir, hdir, hw⟩ := rename_ok hok
    rw [hw]
    constructor
    · intro q₁ q₂ dir' h₁ h₂
      simp only [get?_rename] at h₁ h₂
      split_ifs at h₁ h₂ with hq₁ hq₂ hp₂ hp₁ hq₂
      · exact hq₁.trans hq₂.symm
      · cases h₁
        exact absurd (h.unique h₂ hdir) hp₂
      · cases h₂
        exact absurd (h.unique h₁ hdir) hp₁
      · exact h.unique h₁ h₂
    · intro q' dir' h'
      simp only [get?_rename] at h'
      split_ifs at h'
      · cases h'
        exact h.fresh hdir
      · exact h.fresh h'
  · rw [rename_ne_ok hok]
    exact h

/-- The directory that is renamed is not the one, and is not above it. -/
theorem rename_spares {source target : Path ι} (hq : w.dirs.get? q = some dir)
    (hne : q ≠ source) (habove : ∀ outer, Inside outer q → outer ≠ source) :
    Spares none w (w.rename source target).2 q := by
  by_cases hok : (w.rename source target).1 = .ok
  · obtain ⟨htarget, moved, hmoved, hw⟩ := rename_ok hok
    have hkeep : ∀ {a d}, a ≠ source → w.dirs.get? a = some d →
        ((w.dirs.erase source).set target moved).get? a = some d := by
      intro a d ha hd
      have hat : a ≠ target := by
        rintro rfl
        cases htarget.symm.trans hd
      rw [get?_rename, if_neg hat, if_neg ha, hd]
    rw [hw]
    refine ⟨(hkeep hne hq).trans hq.symm, ?_, fun hin => hkeep (habove _ hin), fun i _ hi => ?_⟩
    · rw [fileAt_eq hq]
      exact fileAt_eq (hkeep hne hq)
    · exact List.mem_filter.mpr ⟨hi, decide_eq_true hne⟩
  · rw [rename_ne_ok hok]
    exact Spares.refl ..

/-- What the directory had, it has under its new path. -/
theorem rename_moves (hok : (w.rename p q).1 = .ok) (hdir : w.dirs.get? p = some dir) :
    (w.rename p q).2.dirs.get? q = some dir ∧ (w.rename p q).2.fileAt q = w.fileAt p := by
  obtain ⟨-, dir', hdir', hw⟩ := rename_ok hok
  cases hdir.symm.trans hdir'
  have hget : ((w.dirs.erase p).set q dir).get? q = some dir := by
    rw [get?_rename, if_pos rfl]
  rw [hw]
  refine ⟨hget, ?_⟩
  rw [fileAt_eq hdir]
  exact fileAt_eq hget

end World

/-- The acts on directories and lock files. -/
def Act.Plants : Act ι → Prop
  | .makeDir _ => True
  | .openFile _ _ => True
  | .unlink _ => True
  | .removeDir _ => True
  | .rename _ _ => True
  | _ => False

/-- The owner whose walk goes on. -/
def Act.walker (i : ι) : Act ι → Option ι
  | .walkBegin _ => some i
  | .walkNext _ => some i
  | _ => none

variable {choice : Choice ι} {a : Act ι} {r : a.Res} {i : ι}

/-- Every other act leaves the directories and the lock files alone. -/
theorem answer_tree {w w' : World ι} (ha : ¬ a.Plants) (h : answer i w a choice = some (r, w')) :
    w'.dirs = w.dirs ∧ w'.lockFile = w.lockFile ∧ w'.fresh = w.fresh ∧
      ∀ j, some j ≠ a.walker i → w'.pending j = w.pending j := by
  cases a with
  | makeDir path => exact absurd trivial ha
  | openFile mode path => exact absurd trivial ha
  | unlink path | removeDir path | rename source target => exact absurd trivial ha
  | flock kind ino =>
    cases choice with
    | serve =>
      rw [← world_eq h, flock]
      split <;> exact ⟨rfl, rfl, rfl, fun _ _ => rfl⟩
    | fail => exact world_eq h ▸ ⟨rfl, rfl, rfl, fun _ _ => rfl⟩
    | _ => cases h
  | close kind ino =>
    cases choice with
    | serve =>
      rw [← world_eq h, close]
      split_ifs <;> exact ⟨rfl, rfl, rfl, fun _ _ => rfl⟩
    | _ => cases h
  | walkBegin path | walkNext path =>
    cases choice <;> cases h
    · exact ⟨rfl, rfl, rfl, fun _ _ => rfl⟩
    · exact ⟨rfl, rfl, rfl, fun j hj => Function.update_of_ne (fun e => hj (congrArg some e)) ..⟩
  | walkEnd path => exact (answer_walkEnd h).2 ▸ ⟨rfl, rfl, rfl, fun _ _ => rfl⟩
  | _ => cases choice <;> cases h <;> exact ⟨rfl, rfl, rfl, fun _ _ => rfl⟩

theorem tree_answer {w w' : World ι}
    (h : Tree w) (hanswer : answer i w a choice = some (r, w')) : Tree w' := by
  by_cases ha : a.Plants
  · cases choice with
    | fail => exact answer_fail hanswer ▸ h
    | serve =>
      cases a with
      | makeDir path => exact world_eq hanswer ▸ makeDir_tree h
      | openFile mode path => exact world_eq hanswer ▸ openFile_tree h mode
      | unlink path => exact world_eq hanswer ▸ unlink_tree h
      | removeDir path => exact world_eq hanswer ▸ removeDir_tree h
      | rename source target => exact world_eq hanswer ▸ rename_tree h
      | _ => exact ha.elim
    | _ => cases a <;> first | exact ha.elim | cases hanswer
  · obtain ⟨hdirs, -, hfresh, -⟩ := answer_tree ha hanswer
    exact ⟨hdirs ▸ h.unique, by rw [hdirs, hfresh]; exact h.fresh⟩

/-- **What an act of another owner spares.** A directory whose lock file is there keeps its place,
unless the act unlinks that file, or renames that directory or one above it. -/
theorem spares_answer {w w' : World ι} {path : Path ι} {file : Ino} (htree : Tree w)
    (hpath : w.fileAt path = some file) (hunlink : ∀ p, a = .unlink p → path ≠ p)
    (hrename : ∀ source target, a = .rename source target →
      path ≠ source ∧ ∀ outer, Inside outer path → outer ≠ source)
    (h : answer i w a choice = some (r, w')) : Spares (a.walker i) w w' path := by
  obtain ⟨dir, hdir, -⟩ := dir_of_fileAt hpath
  by_cases ha : a.Plants
  · cases choice with
    | fail => exact answer_fail h ▸ Spares.refl ..
    | serve =>
      cases a with
      | makeDir path' => exact world_eq h ▸ makeDir_spares hdir
      | openFile mode path' => exact world_eq h ▸ openFile_spares mode hpath
      | unlink path' => exact world_eq h ▸ unlink_spares htree (hunlink path' rfl)
      | removeDir path' => exact world_eq h ▸ removeDir_spares hpath
      | rename source target =>
        obtain ⟨hne, habove⟩ := hrename source target rfl
        exact world_eq h ▸ rename_spares hdir hne habove
      | _ => exact ha.elim
    | _ => cases a <;> first | exact ha.elim | cases h
  · obtain ⟨hdirs, hfile, -, hpending⟩ := answer_tree ha h
    exact .of_eq hdirs hfile hpending

end Dmi.Ownership
