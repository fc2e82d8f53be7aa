import Dmi.Ownership.Tree

/-!
# Owners that stand at their path

Of two owners that take a directory and one inside it, each has its locks before it looks for the
other. `Nests` is the invariant: an owner whose object holds its directory and whose check is not
over stands at its path, and when the inner one has left the outer's path behind on its way up, then
the walk of the outer one still has to find it.

What an act of one owner has to show for that is split here by what it does to the owner's
knowledge: nothing (`Nests.act_same`), the place of its file or directory (`Nests.act_loose`), or
the state of its check (`Nests.act`).
-/

namespace Dmi.Ownership

open List

open Function (update update_self update_of_ne)
open World (Inside)
open Proc.Pool (Tracked)

variable {ι : Type} [DecidableEq ι]

/-! ### Paths -/

/-- The path has no hidden names. -/
def Named (path : Path ι) : Prop := ∀ c ∈ path, ∃ n, c = .name n

section Paths

omit [DecidableEq ι]

variable {path outer : Path ι} {i j : ι}

theorem Named.ne_staging (h : Named outer) {k : Nat} : outer ≠ stagingOf i path k := by
  rintro rfl
  obtain ⟨n, hn⟩ := h (.staging i k) (mem_append_right _ (mem_singleton_self _))
  cases hn

/-- The places where an owner can have its lock file. -/
def IsPlace (i : ι) (path p : Path ι) : Prop := p = path ∨ ∃ k, p = stagingOf i path k

theorem named_of_inside {p : Path ι} (hp : IsPlace i path p) (hnamed : Named path)
    (hin : Inside outer p) : Named outer := by
  rcases hp with rfl | ⟨k, rfl⟩
  · exact fun c hc => hnamed c (hin.1.subset hc)
  · have hpre : outer <+: path.dropLast :=
      (prefix_concat_iff.mp hin.1).resolve_left hin.2
    exact fun c hc => hnamed c (dropLast_subset path (hpre.subset hc))

/-- Nobody has its lock file in the staging copy of another. -/
theorem IsPlace.ne_staging {p path' : Path ι} (hp : IsPlace j path p) (hnamed : Named path)
    (hne : j ≠ i) {k : Nat} : p ≠ stagingOf i path' k := by
  rcases hp with rfl | ⟨k', rfl⟩
  · exact hnamed.ne_staging
  · intro h
    have hlast := (append_inj' h rfl).2
    cases hlast
    exact hne rfl

theorem not_inside_self : ¬ Inside path path := fun h => h.2 rfl

end Paths

/-! ### The invariant -/

namespace Check

/-- The owner has looked at the outer directory on its way up. -/
def Past (outer : Path ι) : Check ι → Prop
  | .climbing rest _ => outer ∉ rest
  | .walking _ _ => True
  | .passed => True
  | .ended => False

/-- The owner has yet to find the inner directory. -/
def Finds (w : World ι) (i : ι) (inner : Path ι) : Check ι → Prop
  | .climbing _ _ => True
  | .walking none _ => inner ∈ w.pending i
  | .walking (some looked) dir => inner ∈ w.pending i ∨
      looked = inner ∧ ∀ d, dir = some d → w.dirs.get? inner = some d
  | .passed => False
  | .ended => True

theorem Finds.mono {w w' : World ι} {i : ι} {inner : Path ι} {c : Check ι} {walker : Option ι}
    (h : c.Finds w i inner) (hs : Spares walker w w' inner) (hi : some i ≠ walker) :
    c.Finds w' i inner := by
  cases c with
  | climbing rest dir => trivial
  | passed => exact h
  | ended => trivial
  | walking looked dir =>
    cases looked with
    | none => exact hs.pending i hi h
    | some looked =>
      rcases h with hpending | ⟨heq, hdir⟩
      · exact .inl (hs.pending i hi hpending)
      · exact .inr ⟨heq, fun d hd => hs.dir.trans (hdir d hd)⟩

end Check

/-- What an owner knows of the tree is so. -/
structure Own (task : Task ι) (w : World ι) (i : ι) (s : Agent ι) : Prop where
  place : ∀ {p file}, s.place = some (p, file) → w.fileAt p = some file ∧
    (p = task.path ∧ s.file = some file ∨ ∃ k, p = stagingOf i task.path k)
  opened : ∀ {p file q dir}, s.place = some (p, file) → s.opened = some (q, dir) →
    q = p ∧ w.dirs.get? p = some dir
  standing : s.check ≠ .ended → ∃ h, s = .holding h s.check ∧ h.path = task.path
  climbs : ∀ {rest dir}, s.check = .climbing rest dir → (∀ outer ∈ rest, Inside outer task.path) ∧
    ∀ d, dir = some d → ∃ outer, rest.head? = some outer ∧ w.dirs.get? outer = some d
  live : w.live i = true → (∃ path, task = .acquire path) → s.check = .passed

namespace Own

variable {task : Task ι} {w w' : World ι} {i : ι} {s s' : Agent ι}

theorem isPlace (h : Own task w i s) {p : Path ι} {file : Ino} (hp : s.place = some (p, file)) :
    IsPlace i task.path p :=
  (h.place hp).2.imp_left And.left

theorem stands (h : Own task w i s) (hs : s.check ≠ .ended) : ∃ held, s.held = some held ∧
    s.file = some held.file ∧ s.dir = some held.dir ∧ s.opened = some (task.path, held.dir) ∧
    s.place = some (task.path, held.file) ∧ w.fileAt task.path = some held.file ∧
    w.dirs.get? task.path = some held.dir := by
  obtain ⟨held, hheld, hpath⟩ := h.standing hs
  have hplace : s.place = some (task.path, held.file) := by
    rw [hheld, ← hpath]
    rfl
  have hopened : s.opened = some (task.path, held.dir) := by
    rw [hheld, ← hpath]
    rfl
  refine ⟨held, ?_, ?_, ?_, hopened, hplace, (h.place hplace).1, (h.opened hplace hopened).2⟩
  all_goals
    rw [hheld]
    rfl

omit [DecidableEq ι] in
theorem past_ne_over {c : Check ι} {outer : Path ι} (h : c.Past outer) : c ≠ .ended := by
  rintro rfl
  exact h

/-- Others leave what an owner knows as it is. -/
theorem spared (h : Own task w i s) {walker : Option ι}
    (hs : ∀ {p file}, s.place = some (p, file) → Spares walker w w' p)
    (hlive : w'.live i = true → (∃ path, task = .acquire path) → s.check = .passed) :
    Own task w' i s := by
  refine ⟨fun hp => ?_, fun hp ho => ?_, h.standing, fun hc => ?_, hlive⟩
  · rw [(hs hp).file]
    exact h.place hp
  · rw [(hs hp).dir]
    exact h.opened hp ho
  · obtain ⟨hrest, hdir⟩ := h.climbs hc
    refine ⟨hrest, fun d hd => ?_⟩
    have hover : s.check ≠ .ended := by
      rw [hc]
      exact nofun
    obtain ⟨held, -, -, -, -, hplace, -⟩ := h.stands hover
    obtain ⟨outer, houter, hat⟩ := hdir d hd
    exact ⟨outer, houter, (hs hplace).above (hrest outer (mem_of_mem_head? houter)) hat⟩

/-- An owner whose check is over knows no more than the place of its file and directory. -/
theorem of_over (hover : s.check = .ended)
    (place : ∀ {p file}, s.place = some (p, file) → w.fileAt p = some file ∧
      (p = task.path ∧ s.file = some file ∨ ∃ k, p = stagingOf i task.path k))
    (opened : ∀ {p file q dir}, s.place = some (p, file) → s.opened = some (q, dir) →
      q = p ∧ w.dirs.get? p = some dir)
    (live : w.live i = true → ¬ ∃ path, task = .acquire path) : Own task w i s := by
  refine ⟨place, opened, fun h => absurd hover h, fun h => ?_, fun h h' => absurd h' (live h)⟩
  rw [hover] at h
  cases h

theorem not_live (h : Own task w i s) (hover : s.check = .ended) (hlive : w.live i = true) :
    ¬ ∃ path, task = .acquire path := by
  intro htask
  have hpassed := h.live hlive htask
  rw [hover] at hpassed
  cases hpassed

end Own

/-- The invariant of all owners. -/
structure Nests (task : ι → Task ι) (w : World ι) (agent : ι → Agent ι) : Prop where
  tree : Tree w
  locked : Locked w agent
  own : ∀ i, Own (task i) w i (agent i)
  finds : ∀ {i j}, Inside (task i).path (task j).path → (agent j).check.Past (task i).path →
    (agent i).check.Finds w i (task j).path

namespace Nests

variable {task : ι → Task ι} {w w' : World ι} {agent : ι → Agent ι} {k : ι} {s : Agent ι}

/-- What one owner does: it spares the others, knows what it should, and it and they find each
other as before. -/
theorem of_owner (h : Nests task w agent) (htree : Tree w') (hlocked : Locked w' (update agent k s))
    (hspares : ∀ {j p file}, j ≠ k → (agent j).place = some (p, file) →
      Spares (some k) w w' p)
    (hlive : ∀ j, j ≠ k → w'.live j = w.live j) (hown : Own (task k) w' k s)
    (hout : ∀ {j}, j ≠ k → Inside (task k).path (task j).path →
      (agent j).check.Past (task k).path → s.check.Finds w' k (task j).path)
    (hin : ∀ {i}, i ≠ k → Inside (task i).path (task k).path → s.check.Past (task i).path →
      (agent i).check.Finds w' i (task k).path) :
    Nests task w' (update agent k s) := by
  refine ⟨htree, hlocked, fun j => ?_, fun {i j} hinside hpast => ?_⟩
  · by_cases hj : j = k
    · subst hj
      rw [update_self]
      exact hown
    · rw [update_of_ne hj]
      exact (h.own j).spared (hspares hj) fun hl => (h.own j).live (hlive j hj ▸ hl)
  · by_cases hj : j = k
    · subst hj
      have hi : i ≠ j := by
        rintro rfl
        exact not_inside_self hinside
      rw [update_self] at hpast
      rw [update_of_ne hi]
      exact hin hi hinside hpast
    · rw [update_of_ne hj] at hpast
      by_cases hi : i = k
      · subst hi
        rw [update_self]
        exact hout hj hinside hpast
      · rw [update_of_ne hi]
        obtain ⟨held, -, -, -, -, hplace, -⟩ := (h.own j).stands (Own.past_ne_over hpast)
        exact (h.finds hinside hpast).mono (hspares hj hplace) fun e => hi (Option.some.inj e)

end Nests

/-! ### The acts of an owner -/

variable {choice : Choice ι} {i : ι}

/-- An owner becomes live, or ceases to be, by its own acts. -/
theorem answer_live {w w' : World ι} {a : Act ι} {r : a.Res}
    (h : answer i w a choice = some (r, w')) : w'.live = w.live ∨
      (∃ status, a = .return_ status ∧ w'.live = update w.live i (decide (status = .ok))) ∨
      a = .removes ∧ w'.live = update w.live i false := by
  by_cases ha : a.Owns
  · cases a with
    | flock kind ino =>
      left
      cases choice with
      | serve =>
        rw [← world_eq h, World.flock]
        split <;> rfl
      | fail => exact world_eq h ▸ rfl
      | _ => cases h
    | close kind ino =>
      left
      cases choice with
      | serve =>
        rw [← world_eq h, World.close]
        split_ifs <;> rfl
      | _ => cases h
    | hold held | unhold =>
      cases choice <;> cases h
      exact .inl rfl
    | return_ status =>
      cases choice <;> cases h
      exact .inr (.inl ⟨status, rfl, rfl⟩)
    | removes =>
      cases choice <;> cases h
      exact .inr (.inr ⟨rfl, rfl⟩)
    | _ => exact ha.elim
  · exact .inl (answer_owners ha h).live

/-- The acts that move no lock file, begin or end nothing, and are no walk. -/
def Act.Plain : Act ι → Prop
  | .unlink _ => False
  | .rename _ _ => False
  | .return_ _ => False
  | .removes => False
  | .walkBegin _ => False
  | .walkNext _ => False
  | _ => True

omit [DecidableEq ι] in
theorem Act.Plain.walker {a : Act ι} (ha : a.Plain) (i : ι) : a.walker i = none := by
  cases a <;> first | rfl | exact ha.elim

theorem Act.Plain.live {w w' : World ι} {a : Act ι} {r : a.Res}
    (ha : a.Plain) (h : answer i w a choice = some (r, w')) : w'.live = w.live := by
  rcases answer_live h with hlive | ⟨status, rfl, -⟩ | ⟨rfl, -⟩
  · exact hlive
  · exact ha.elim
  · exact ha.elim

/-- They spare the place of the owner's own lock file too. -/
theorem Act.Plain.spares {w w' : World ι} {a : Act ι} {r : a.Res} (ha : a.Plain) (htree : Tree w)
    (h : answer i w a choice = some (r, w')) {path : Path ι}
    {file : Ino} (hpath : w.fileAt path = some file) : Spares none w w' path := by
  rw [← ha.walker i]
  refine spares_answer htree hpath ?_ ?_ h
  · rintro p rfl
    exact ha.elim
  · rintro source target rfl
    exact ha.elim

namespace Nests

variable {task : ι → Task ι} {w w' : World ι} {agent : ι → Agent ι} {k : ι}
  {a : Act ι} {choice : Choice ι} {r : a.Res}

theorem spares_walker {p : Path ι} (h : Spares (a.walker k) w w' p) : Spares (some k) w w' p := by
  refine ⟨h.dir, h.file, h.above, fun i hi => h.pending i fun e => hi ?_⟩
  cases a <;> first | exact e | cases e

/-- An owner that does not hold both locks in its object has no check. -/
theorem over_of (h : Nests task w agent) (hnone : (agent k).file = none ∨ (agent k).dir = none ∨
    (agent k).opened = none ∨ (agent k).held = none) : (agent k).check = .ended := by
  by_contra hover
  obtain ⟨held, hheld, hfile, hdir, hopened, -⟩ := (h.own k).stands hover
  rcases hnone with hn | hn | hn | hn
  · cases hn.symm.trans hfile
  · cases hn.symm.trans hdir
  · cases hn.symm.trans hopened
  · cases hn.symm.trans hheld

/-! #### What an act has to show -/

/-- An owner does an act that the protocol allows, where the invariant holds. -/
structure Acting (task : ι → Task ι) (w : World ι) (agent : ι → Agent ι) (k : ι) (a : Act ι)
    (choice : Choice ι) (r : a.Res) (w' : World ι) : Prop where
  named : ∀ i, Named (task i).path
  nests : Nests task w agent
  allowed : (agent k).allowed k (task k) a
  answered : answer k w a choice = some (r, w')

namespace Acting

variable (h : Acting task w agent k a choice r w')

include h

/-- Where others have their lock files, an owner neither unlinks nor renames. -/
theorem spares {j : ι} {p : Path ι} {file : Ino} (hj : j ≠ k)
    (hp : (agent j).place = some (p, file)) :
    Spares (a.walker k) w w' p := by
  have hfile := ((h.nests.own j).place hp).1
  have hplace := (h.nests.own j).isPlace hp
  refine spares_answer h.nests.tree hfile ?_ ?_ h.answered
  · rintro p' rfl rfl
    rcases h.allowed.2 with ⟨file', hk⟩ | ⟨m, hm⟩
    · obtain ⟨hfile', hor⟩ := (h.nests.own k).place hk
      rcases hor with ⟨hpath, hlock⟩ | ⟨m, hm⟩
      · rcases ((h.nests.own j).place hp).2 with ⟨-, hlock'⟩ | ⟨m, hm⟩
        · cases hfile.symm.trans hfile'
          have hsame := (h.nests.locked.file hlock').symm.trans (h.nests.locked.file hlock)
          exact hj (congrArg Desc.owner (Option.some.inj hsame))
        · exact (h.named k).ne_staging (hpath.symm.trans hm)
      · exact hplace.ne_staging (h.named j) hj hm
    · exact hplace.ne_staging (h.named j) hj hm
  · rintro source target rfl
    obtain ⟨-, ⟨m, rfl⟩, -⟩ := h.allowed
    exact ⟨hplace.ne_staging (h.named j) hj, fun outer hin =>
      (named_of_inside hplace (h.named j) hin).ne_staging⟩

/-- An act by which an owner knows what it should, and it and the others find each other as
before. -/
theorem act (hown : Own (task k) w' k ((agent k).next (task k) a r))
    (hout : ∀ {j}, j ≠ k → Inside (task k).path (task j).path →
      (agent j).check.Past (task k).path →
      ((agent k).next (task k) a r).check.Finds w' k (task j).path)
    (hin : ∀ {i}, i ≠ k → Inside (task i).path (task k).path →
      ((agent k).next (task k) a r).check.Past (task i).path →
      (agent i).check.Finds w' i (task k).path) :
    Nests task w' (update agent k ((agent k).next (task k) a r)) := by
  refine h.nests.of_owner (tree_answer h.nests.tree h.answered) ?_ ?_ ?_ hown hout hin
  · exact Locked.keeps k w agent a choice r w' h.nests.locked h.allowed h.answered
  · exact fun hj hp => spares_walker (h.spares hj hp)
  · intro j hj
    rcases answer_live h.answered with hl | ⟨_, _, hl⟩ | ⟨_, hl⟩
    · rw [hl]
    · rw [hl, update_of_ne hj]
    · rw [hl, update_of_ne hj]

theorem ended (hover : ((agent k).next (task k) a r).check = .ended)
    (hown : Own (task k) w' k ((agent k).next (task k) a r)) :
    Nests task w' (update agent k ((agent k).next (task k) a r)) := by
  refine h.act hown (fun _ _ _ => ?_) fun _ _ hpast => ?_
  · rw [hover]
    trivial
  · rw [hover] at hpast
    exact hpast.elim

/-- The inner directory of an owner that has passed the outer one. -/
theorem spares_inner {j : ι} {outer : Path ι} (hj : j ≠ k) (hpast : (agent j).check.Past outer) :
    Spares (a.walker k) w w' (task j).path := by
  obtain ⟨held, -, -, -, -, hplace, -⟩ := (h.nests.own j).stands (Own.past_ne_over hpast)
  exact h.spares hj hplace

theorem same (hsame : (agent k).next (task k) a r = agent k) (hwalker : a.walker k = none)
    (hspares : ∀ {p file}, (agent k).place = some (p, file) → Spares none w w' p)
    (hlive : w'.live k = true → (∃ path, task k = .acquire path) → (agent k).check = .passed) :
    Nests task w' (update agent k ((agent k).next (task k) a r)) := by
  have hne : ∀ {j : ι}, some j ≠ a.walker k := by
    rw [hwalker]
    exact nofun
  refine h.act ?_ ?_ ?_ <;> rw [hsame]
  · exact (h.nests.own k).spared hspares hlive
  · intro j hj hinside hpast
    exact (h.nests.finds hinside hpast).mono (h.spares_inner hj hpast) hne
  · intro i hi hinside hpast
    obtain ⟨held, -, -, -, -, hplace, -⟩ := (h.nests.own k).stands (Own.past_ne_over hpast)
    exact (h.nests.finds hinside hpast).mono (hspares hplace) nofun

theorem plain (hplain : a.Plain) (hsame : (agent k).next (task k) a r = agent k) :
    Nests task w' (update agent k ((agent k).next (task k) a r)) := by
  refine h.same hsame (hplain.walker k) (fun hp => ?_) ?_
  · exact hplain.spares h.nests.tree h.answered ((h.nests.own k).place hp).1
  · rw [hplain.live h.answered]
    exact (h.nests.own k).live

/-- The owner learns or forgets where its lock file and its directory are. -/
theorem loose (hover : (agent k).check = .ended)
    (hover' : ((agent k).next (task k) a r).check = .ended) (hlive : w'.live = w.live)
    (hplace : ∀ {p file}, ((agent k).next (task k) a r).place = some (p, file) →
      w'.fileAt p = some file ∧ (p = (task k).path ∧
        ((agent k).next (task k) a r).file = some file ∨ ∃ m, p = stagingOf k (task k).path m))
    (hopened : ∀ {p file q dir}, ((agent k).next (task k) a r).place = some (p, file) →
      ((agent k).next (task k) a r).opened = some (q, dir) →
      q = p ∧ w'.dirs.get? p = some dir) :
    Nests task w' (update agent k ((agent k).next (task k) a r)) := by
  refine h.ended hover' (.of_over hover' hplace hopened fun hl => ?_)
  rw [hlive] at hl
  exact (h.nests.own k).not_live hover hl

/-- The owner keeps its lock file and its directory where it has them. -/
theorem kept (hplain : a.Plain) (hover : (agent k).check = .ended)
    (hover' : ((agent k).next (task k) a r).check = .ended)
    (hplace : ((agent k).next (task k) a r).place = (agent k).place)
    (hopened : ∀ x, ((agent k).next (task k) a r).opened = some x → (agent k).opened = some x)
    (hfile : ∀ file, (agent k).file = some file →
      ((agent k).next (task k) a r).file = some file) :
    Nests task w' (update agent k ((agent k).next (task k) a r)) := by
  have hspares : ∀ {p file}, (agent k).place = some (p, file) → Spares none w w' p :=
    fun hp => hplain.spares h.nests.tree h.answered ((h.nests.own k).place hp).1
  refine h.loose hover hover' (hplain.live h.answered) ?_ ?_ <;> rw [hplace]
  · intro p file hp
    rw [(hspares hp).file]
    exact (h.nests.own k).place hp |>.imp_right (Or.imp_left (And.imp_right (hfile file)))
  · intro p file q dir hp ho
    rw [(hspares hp).dir]
    exact (h.nests.own k).opened hp (hopened _ ho)

end Acting

end Nests

end Dmi.Ownership
