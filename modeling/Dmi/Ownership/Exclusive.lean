import Dmi.Ownership.Protocol

/-!
# One owner for a directory

An owner that believes in its lock has the `flock` of the directory that it opened, whatever has
become of the lock file since (`Locked`). Locks are on inodes, so at most one owner believes that it
owns the directory which is found under its path (`owners_exclusive`).
-/

namespace Dmi.Ownership

open Function (update update_self update_of_ne)
open Proc.Pool (Tracked)
open World

variable {ι : Type} [DecidableEq ι]

/-! ### What the acts leave alone -/

/-- The locks, the lock objects and the owners that are live are the same. -/
structure SameOwners (w w' : World ι) : Prop where
  locks : w'.locks = w.locks
  held : w'.held = w.held
  live : w'.live = w.live

omit [DecidableEq ι] in
theorem SameOwners.refl (w : World ι) : SameOwners w w := ⟨rfl, rfl, rfl⟩

namespace World

variable (w : World ι) (path : Path ι)

theorem makeDir_owners : SameOwners w (w.makeDir path).2 := by
  rw [makeDir]
  split_ifs <;> exact ⟨rfl, rfl, rfl⟩

theorem openFile_owners (mode : Mode) (path : Path ι) : SameOwners w (w.openFile mode path).2 := by
  rw [openFile]
  split
  · exact .refl w
  · split <;> exact ⟨rfl, rfl, rfl⟩

theorem unlink_owners : SameOwners w (w.unlink path) := by
  rw [unlink]
  split <;> exact ⟨rfl, rfl, rfl⟩

theorem removeDir_owners : SameOwners w (w.removeDir path) := by
  rw [removeDir]
  split_ifs <;> exact ⟨rfl, rfl, rfl⟩

theorem rename_owners (source target : Path ι) : SameOwners w (w.rename source target).2 := by
  rw [rename]
  split_ifs
  · exact .refl w
  · split <;> exact ⟨rfl, rfl, rfl⟩

end World

/-- The acts on locks, on the lock object and on what the owner is. -/
def Act.Owns : Act ι → Prop
  | .flock _ _ => True
  | .close _ _ => True
  | .hold _ => True
  | .unhold => True
  | .return_ _ => True
  | .removes => True
  | _ => False

omit [DecidableEq ι] in
theorem world_eq {R : Type} {x : R × World ι} {r : R} {w : World ι} (h : some x = some (r, w)) :
    x.2 = w :=
  congrArg Prod.snd (Option.some.inj h)

theorem answer_fail {i : ι} {w w' : World ι} {a : Act ι} {r : a.Res}
    (h : answer i w a .fail = some (r, w')) : w = w' := by
  cases a <;> cases h <;> rfl

theorem answer_walkEnd {i : ι} {w w' : World ι} {path : Path ι} {choice : Choice ι} {r : Unit}
    (h : answer i w (.walkEnd path) choice = some (r, w')) : w.pending i = [] ∧ w' = w := by
  cases choice with
  | serve =>
    by_cases hend : w.pending i = []
    · rw [answer, if_pos hend] at h
      exact ⟨hend, (world_eq h).symm⟩
    · rw [answer, if_neg hend] at h
      cases h
  | _ => cases h

/-- Every other act leaves the owners alone. -/
theorem answer_owners {i : ι} {w w' : World ι} {a : Act ι} {choice : Choice ι} {r : a.Res}
    (ha : ¬ a.Owns) (h : answer i w a choice = some (r, w')) : SameOwners w w' := by
  cases choice with
  | fail => exact answer_fail h ▸ .refl w
  | serve =>
    cases a with
    | flock kind ino => exact absurd trivial ha
    | close kind ino | hold held | unhold | return_ status => exact absurd trivial ha
    | makeDir path => exact world_eq h ▸ w.makeDir_owners path
    | openFile mode path => exact world_eq h ▸ w.openFile_owners mode path
    | unlink path => exact world_eq h ▸ w.unlink_owners path
    | removeDir path => exact world_eq h ▸ w.removeDir_owners path
    | rename source target => exact world_eq h ▸ w.rename_owners source target
    | walkEnd path => exact (answer_walkEnd h).2 ▸ .refl w
    | _ => cases h <;> exact .refl w
  | _ =>
    cases a with
    | removes => exact absurd trivial ha
    | _ => cases h <;> exact ⟨rfl, rfl, rfl⟩

/-- So it does with what the owner knows of them. -/
theorem next_locks {task : Task ι} {s : Agent ι} {a : Act ι} {r : a.Res} (ha : ¬ a.Owns) :
    (s.next task a r).file = s.file ∧ (s.next task a r).dir = s.dir ∧
      (s.next task a r).held = s.held := by
  cases a with
  | flock kind ino => exact absurd trivial ha
  | close kind ino | hold held | unhold | return_ status | removes => exact absurd trivial ha
  | openFile mode path =>
    match r with
    | none => exact ⟨rfl, rfl, rfl⟩
    | some file => cases mode <;> exact ⟨rfl, rfl, rfl⟩
  | openDir kind path =>
    match r with
    | none | some dir => cases kind <;> exact ⟨rfl, rfl, rfl⟩
  | fileAt path =>
    match r with
    | none => exact ⟨rfl, rfl, rfl⟩
    | some file =>
      change (if s.file = some file then _ else s : Agent ι).file = _ ∧
        (if s.file = some file then _ else s : Agent ι).dir = _ ∧
        (if s.file = some file then _ else s : Agent ι).held = _
      split_ifs <;> exact ⟨rfl, rfl, rfl⟩
  | walkNext path =>
    match r with
    | none => exact ⟨rfl, rfl, rfl⟩
    | some inner =>
      change (if inner = path then s else _ : Agent ι).file = _ ∧
        (if inner = path then s else _ : Agent ι).dir = _ ∧
        (if inner = path then s else _ : Agent ι).held = _
      split_ifs <;> exact ⟨rfl, rfl, rfl⟩
  | lockFileExists path | rename source target | walkBegin path => cases r <;> exact ⟨rfl, rfl, rfl⟩
  | _ => exact ⟨rfl, rfl, rfl⟩

/-! ### The locks of an owner -/

/-- What an owner knows of its locks is so, and what its lock object holds are its locks. -/
structure Locked (w : World ι) (agent : ι → Agent ι) : Prop where
  file : ∀ {i file}, (agent i).file = some file → w.locks file = some ⟨i, .file⟩
  dir : ∀ {i dir}, (agent i).dir = some dir → w.locks dir = some ⟨i, .dir⟩
  held : ∀ i, w.held i = (agent i).held
  both : ∀ {i h}, (agent i).held = some h →
    (agent i).file = some h.file ∧ (agent i).dir = some h.dir

namespace Locked

variable {w w' : World ι} {agent : ι → Agent ι} {i : ι} {s : Agent ι}

/-- An owner that holds the locks of its object as it says, and no other. -/
theorem of_owner (h : Locked w agent) (hfile : ∀ file, s.file = some file →
      w'.locks file = some ⟨i, .file⟩)
    (hdir : ∀ dir, s.dir = some dir → w'.locks dir = some ⟨i, .dir⟩)
    (hheld : w'.held = update w.held i s.held)
    (hboth : ∀ h, s.held = some h → s.file = some h.file ∧ s.dir = some h.dir)
    (hothers : ∀ ino (desc : Desc ι), desc.owner ≠ i → w.locks ino = some desc →
      w'.locks ino = some desc) :
    Locked w' (update agent i s) := by
  constructor
  case file =>
    intro j file hj
    by_cases hji : j = i
    · subst hji
      rw [update_self] at hj
      exact hfile file hj
    · rw [update_of_ne hji] at hj
      exact hothers file ⟨j, .file⟩ hji (h.file hj)
  case dir =>
    intro j dir hj
    by_cases hji : j = i
    · subst hji
      rw [update_self] at hj
      exact hdir dir hj
    · rw [update_of_ne hji] at hj
      exact hothers dir ⟨j, .dir⟩ hji (h.dir hj)
  case held =>
    intro j
    rw [hheld]
    by_cases hji : j = i
    · subst hji
      rw [update_self, update_self]
    · rw [update_of_ne hji, update_of_ne hji]
      exact h.held j
  case both =>
    intro j hj
    by_cases hji : j = i
    · subst hji
      rw [update_self]
      exact hboth hj
    · rw [update_of_ne hji]
      exact h.both

theorem same (h : Locked w agent) (hlocks : w'.locks = w.locks) (hheld : w'.held = w.held)
    (hs : s.file = (agent i).file ∧ s.dir = (agent i).dir ∧ s.held = (agent i).held) :
    Locked w' (update agent i s) := by
  obtain ⟨hfile, hdir, hheld'⟩ := hs
  refine h.of_owner ?_ ?_ ?_ ?_ ?_
  · intro file hf
    rw [hlocks]
    exact h.file (hfile ▸ hf)
  · intro dir hd
    rw [hlocks]
    exact h.dir (hdir ▸ hd)
  · rw [hheld, hheld', ← h.held i, Function.update_eq_self]
  · rw [hfile, hdir, hheld']
    exact fun _ => h.both
  · intro ino desc _ hdesc
    rw [hlocks]
    exact hdesc

/-! #### `flock` and `close` -/

variable {ino : Ino} {desc : Desc ι}

/-- A lock that is taken was free, or the owner's already. -/
theorem flock_ok (h : (w.flock desc ino).1 = .ok) :
    (w.flock desc ino).2.locks ino = some desc ∧
      ∀ ino' desc', w.locks ino' = some desc' → (w.flock desc ino).2.locks ino' = some desc' := by
  rw [flock] at h ⊢
  cases hlock : w.locks ino with
  | none =>
    refine ⟨update_self .., fun ino' desc' h' => ?_⟩
    have hne : ino' ≠ ino := by
      rintro rfl
      cases hlock.symm.trans h'
    exact (update_of_ne hne ..).trans h'
  | some holder =>
    rw [hlock] at h
    by_cases hholder : holder = desc
    · subst hholder
      exact ⟨hlock, fun _ _ => id⟩
    · simp only [if_neg hholder] at h
      cases h

theorem flock_ne_ok (h : (w.flock desc ino).1 ≠ .ok) : (w.flock desc ino).2 = w := by
  rw [flock] at h ⊢
  cases hlock : w.locks ino with
  | none =>
    rw [hlock] at h
    exact absurd rfl h
  | some holder => rfl

theorem flock_held (desc : Desc ι) (ino : Ino) : (w.flock desc ino).2.held = w.held := by
  rw [flock]
  split <;> rfl

theorem close_held (desc : Desc ι) (ino : Ino) : (w.close desc ino).held = w.held := by
  rw [close]
  split_ifs <;> rfl

theorem close_locks {desc' : Desc ι} {ino' : Ino} (hne : desc' ≠ desc)
    (h : w.locks ino' = some desc') : (w.close desc ino).locks ino' = some desc' := by
  rw [close]
  split_ifs with hlock
  · have hino : ino' ≠ ino := by
      rintro rfl
      exact hne (Option.some.inj (h.symm.trans hlock))
    exact (update_of_ne hino ..).trans h
  · exact h

variable {kind : Kind}

theorem flock (h : Locked w agent) {task : Task ι}
    (ha : (agent i).allowed i task (.flock kind ino)) :
    Locked (w.flock ⟨i, kind⟩ ino).2
      (update agent i ((agent i).afterFlock ino kind (w.flock ⟨i, kind⟩ ino).1)) := by
  by_cases hok : (w.flock ⟨i, kind⟩ ino).1 = .ok
  · obtain ⟨hlock, hkeep⟩ := flock_ok hok
    have hheld : (w.flock ⟨i, kind⟩ ino).2.held = update w.held i (agent i).held := by
      rw [flock_held, ← h.held i, Function.update_eq_self]
    rw [hok]
    refine h.of_owner ?_ ?_ ?_ ?_ fun ino' desc' _ h' => hkeep ino' desc' h'
    all_goals cases kind
    -- What a lock object holds is there already: then no lock would be allowed.
    case refine_1.file => exact fun file hfile => Option.some.inj hfile ▸ hlock
    case refine_1.dir => exact fun file hfile => hkeep _ _ (h.file hfile)
    case refine_1.probe => exact fun file hfile => hkeep _ _ (h.file hfile)
    case refine_2.file => exact fun dir hdir => hkeep _ _ (h.dir hdir)
    case refine_2.dir => exact fun dir hdir => Option.some.inj hdir ▸ hlock
    case refine_2.probe => exact fun dir hdir => hkeep _ _ (h.dir hdir)
    case refine_4.file =>
      intro held hheld
      cases (show (agent i).file = none from ha).symm.trans (h.both hheld).1
    case refine_4.dir =>
      intro held hheld
      cases (show (agent i).dir = none from ha.1).symm.trans (h.both hheld).2
    case refine_4.probe => exact fun held hheld => h.both hheld
    all_goals exact hheld
  · have hworld := flock_ne_ok hok
    have hs : ((agent i).afterFlock ino kind (w.flock ⟨i, kind⟩ ino).1).file = (agent i).file ∧
        ((agent i).afterFlock ino kind (w.flock ⟨i, kind⟩ ino).1).dir = (agent i).dir ∧
        ((agent i).afterFlock ino kind (w.flock ⟨i, kind⟩ ino).1).held = (agent i).held := by
      cases hr : (w.flock ⟨i, kind⟩ ino).1 with
      | ok => exact absurd hr hok
      | busy | error => cases kind <;> exact ⟨rfl, rfl, rfl⟩
    exact h.same (congrArg locks hworld) (congrArg World.held hworld) hs

theorem flock_error (h : Locked w agent) :
    Locked w (update agent i ((agent i).afterFlock ino kind .error)) := by
  cases kind <;> exact h.same rfl rfl ⟨rfl, rfl, rfl⟩

/-- A lock goes that the lock object does not hold. -/
theorem close (h : Locked w agent) {task : Task ι}
    (ha : (agent i).allowed i task (.close kind ino)) :
    Locked (w.close ⟨i, kind⟩ ino) (update agent i ((agent i).afterClose kind)) := by
  have hheld : (w.close ⟨i, kind⟩ ino).held = update w.held i (agent i).held := by
    rw [close_held, ← h.held i, Function.update_eq_self]
  have hothers : ∀ ino' (desc : Desc ι), desc.owner ≠ i → w.locks ino' = some desc →
      (w.close ⟨i, kind⟩ ino).locks ino' = some desc := by
    intro ino' desc hne hdesc
    exact close_locks (fun hd => hne (congrArg Desc.owner hd)) hdesc
  cases kind with
  | file =>
    refine h.of_owner nofun (fun dir hdir => ?_) hheld (fun held hsome => ?_) hothers
    · exact close_locks nofun (h.dir hdir)
    · cases (show (agent i).held = none from ha).symm.trans hsome
  | dir =>
    refine h.of_owner (fun file hfile => ?_) nofun hheld (fun held hsome => ?_) hothers
    · exact close_locks nofun (h.file hfile)
    · cases (show (agent i).held = none from ha).symm.trans hsome
  | probe =>
    refine h.of_owner (fun file hfile => ?_) (fun dir hdir => ?_) hheld (fun _ => h.both) hothers
    · exact close_locks nofun (h.file hfile)
    · exact close_locks nofun (h.dir hdir)

theorem keeps {task : ι → Task ι} :
    Proc.Pool.Keeps answer (fun i => protocol i (task i)) Locked := by
  intro i w agent a choice r w' h ha hanswer
  by_cases howns : a.Owns
  · cases a with
    | flock kind ino =>
      cases choice with
      | serve =>
        obtain ⟨rfl, rfl⟩ := Prod.mk.inj (Option.some.inj hanswer).symm
        exact h.flock ha
      | fail =>
        cases hanswer
        exact h.flock_error
      | _ => cases hanswer
    | close kind ino =>
      cases choice <;> cases hanswer
      exact h.close ha
    | hold held =>
      cases choice <;> cases hanswer
      obtain ⟨-, hfile, hdir, -⟩ := ha
      refine h.of_owner (fun _ => h.file) (fun _ => h.dir) rfl ?_ fun _ _ _ => id
      rintro _ ⟨⟩
      exact ⟨hfile, hdir⟩
    | unhold =>
      cases choice <;> cases hanswer
      exact h.of_owner (fun _ => h.file) (fun _ => h.dir) rfl nofun fun _ _ _ => id
    | return_ status | removes =>
      cases choice <;> cases hanswer
      exact h.same rfl rfl ⟨rfl, rfl, rfl⟩
    | _ => exact howns.elim
  · have hsame := answer_owners howns hanswer
    exact h.same hsame.locks hsame.held (next_locks howns)

/-- A crash closes the descriptors of one owner. -/
theorem kill (h : Locked w agent) : Locked (w.kill i) (update agent i {}) := by
  refine h.of_owner nofun nofun rfl nofun ?_
  intro ino desc hne hdesc
  change (w.locks ino).filter _ = _
  rw [hdesc, Option.filter_some, if_pos (decide_eq_true hne)]

end Locked

/-! ### Runs -/

/-- Nobody has begun: there are no locks and no owners. The directories are as they are. -/
structure Unowned (w : World ι) : Prop where
  locks : ∀ ino, w.locks ino = none
  held : ∀ i, w.held i = none

theorem locked_start {w : World ι} (h : Unowned w) (task : ι → Task ι) :
    Tracked (fun i => protocol i (task i)) (fun _ _ _ => True) Locked (start w task) :=
  ⟨fun _ => {}, ⟨nofun, nofun, h.held, nofun⟩, fun i => obeys_body i (task i)⟩

theorem locked_step {task : ι → Task ι} {s s' : System ι} {label : Label ι}
    (h : Tracked (fun i => protocol i (task i)) (fun _ _ _ => True) Locked s)
    (hstep : step s label = some s') :
    Tracked (fun i => protocol i (task i)) (fun _ _ _ => True) Locked s' := by
  cases label with
  | act i choice =>
    have hact : Proc.Pool.step answer s (i, choice) = some s' := hstep
    exact h.step Locked.keeps hact
  | crash i =>
    cases hstep
    exact h.stop (fun _ hI => hI.kill) trivial
  | remove path =>
    cases hstep
    obtain ⟨agent, hI, hobeys⟩ := h
    obtain ⟨hlocks, hheld, -⟩ := s.world.unlink_owners path
    refine ⟨agent, ⟨?_, ?_, ?_, hI.both⟩, hobeys⟩
    · intro i file hi
      exact hlocks ▸ hI.file hi
    · intro i dir hi
      exact hlocks ▸ hI.dir hi
    · intro i
      exact hheld ▸ hI.held i

/-- An owner believes that it owns the directory under a path, and that directory is the one found
there. -/
def Owns (w : World ι) (i : ι) (path : Path ι) : Prop :=
  ∃ h, w.held i = some h ∧ h.path = path ∧ w.dirs.get? path = some h.dir

instance (w : World ι) (i : ι) (path : Path ι) : Decidable (Owns w i path) :=
  match hheld : w.held i with
  | none => .isFalse fun ⟨_, h, _⟩ => by cases hheld.symm.trans h
  | some held =>
    decidable_of_iff (held.path = path ∧ w.dirs.get? path = some held.dir)
      ⟨fun h => ⟨held, hheld, h⟩, fun ⟨_, h', h⟩ => Option.some.inj (hheld.symm.trans h') ▸ h⟩

/-- **At most one owner of a directory.** Any number of owners take directories, adopt them, give
them up and crash, in any order and with any failure of any call, while lock files are removed from
outside at any time. At no time do two of them believe that they own the directory that is found
under one path. -/
theorem owners_exclusive {w : World ι} (hw : Unowned w) (task : ι → Task ι)
    {labels : List (Label ι)} {s : System ι} (hrun : Lts.run step (start w task) labels = some s)
    {path : Path ι} {i j : ι} (hi : Owns s.world i path) (hj : Owns s.world j path) : i = j := by
  obtain ⟨agent, hI, -⟩ := Lts.run_preserves locked_step (locked_start hw task) hrun
  obtain ⟨h, hheld, -, hdir⟩ := hi
  obtain ⟨h', hheld', -, hdir'⟩ := hj
  have hsame : h.dir = h'.dir := Option.some.inj (hdir.symm.trans hdir')
  have hlock := hI.dir (hI.both ((hI.held i).symm.trans hheld)).2
  have hlock' := hI.dir (hI.both ((hI.held j).symm.trans hheld')).2
  rw [hsame, hlock'] at hlock
  exact (congrArg Desc.owner (Option.some.inj hlock)).symm

/-- A directory with another in it, both without lock files. -/
def demoWorld : World Bool where
  dirs := ((Dict.empty.set [] 0).set [.name 1] 1).set [.name 1, .name 2] 2
  lockFile _ := none
  fresh := 3
  locks _ := none
  held _ := none
  live _ := false
  pending _ := []

def demoServe (i : Bool) (n : Nat) : List (Label Bool) := .replicate n (.act i .serve)

/-- An owner takes a directory that is there and has `n` directories above it. -/
def demoTake (i : Bool) (n : Nat) : List (Label Bool) :=
  demoServe i 1 ++ [.act i (.status .ok)] ++ demoServe i (7 + n) ++ [.act i (.number 0)] ++
    demoServe i 2

/-- The lock file of an owner is removed, and another makes a new one, three times over. It meets
the lock of the directory. -/
theorem owners_exclusive_replaced : ∃ s, Lts.run step
    (start demoWorld fun _ => .acquire [.name 1])
    (demoTake false 1 ++ [.remove [.name 1]] ++ demoServe true 1 ++ [.act true (.status .ok)] ++
      demoServe true 22) = some s ∧
    Owns s.world false [.name 1] ∧ s.world.fileAt [.name 1] = some 4 ∧
      ¬ Owns s.world true [.name 1] := by
  have hrun : ∃ s, Lts.run step (start demoWorld fun _ => .acquire [.name 1])
      (demoTake false 1 ++ [.remove [.name 1]] ++ demoServe true 1 ++ [.act true (.status .ok)] ++
        demoServe true 22) = some s ∧
      (Owns s.world false [.name 1] ∧ s.world.fileAt [.name 1] = some 4) :=
    Lts.exists_of_run (by decide +kernel)
  obtain ⟨s, hrun, howns, hfile⟩ := hrun
  refine ⟨s, hrun, howns, hfile, fun h => ?_⟩
  cases owners_exclusive ⟨fun _ => rfl, fun _ => rfl⟩ _ hrun howns h

end Dmi.Ownership
