import Dmi.Ownership.Acquire

/-!
# What an owner knows

`Agent` is what the answers so far tell an owner: the locks that it has, the place where it found
its lock file under its name while it had the lock (`place`), the directory it opened there, what
its lock object holds, and how far its look for nested spools is (`Check`). Every owner locks only
what it has opened, puts both locks into its object together, closes nothing that its object holds,
and unlinks a lock file only where it has its own (`obeys_body`).
-/

namespace Dmi.Ownership

open Proc (Prog Protocol Obeys)

variable {ι : Type} [DecidableEq ι]

/-- How far the look for nested spools is. -/
inductive Check (ι : Type) where
  /-- The directories above that are left, the first of them being looked at, and its inode once it
  is open. -/
  | climbing (rest : List (Path ι)) (dir : Option Ino)
  /-- The directory below that is being looked at, and its inode once it is open. -/
  | walking (inner : Option (Path ι)) (dir : Option Ino)
  | passed
  /-- Not begun, or refused, or given up. -/
  | ended

namespace Check

/-- The directory has been looked at. -/
def done : Check ι → Check ι
  | .climbing rest _ => .climbing rest.tail none
  | .walking _ _ => .walking none none
  | c => c

/-- The directory that is being looked at is open. -/
def opened (dir : Ino) : Check ι → Check ι
  | .climbing rest _ => .climbing rest (some dir)
  | .walking inner _ => .walking inner (some dir)
  | c => c

/-- The inode of the directory that is being looked at. -/
def dir : Check ι → Option Ino
  | .climbing _ dir => dir
  | .walking _ dir => dir
  | _ => none

/-- The directory is the one that is being looked at. -/
def Looks (path : Path ι) : Check ι → Prop
  | .climbing rest dir => rest.head? = some path ∧ dir = none
  | .walking inner dir => inner = some path ∧ dir = none
  | _ => False

/-- A directory is being looked at. -/
def Active : Check ι → Prop
  | .climbing _ _ => True
  | .walking _ _ => True
  | _ => False

/-- A probe was answered. The directory's own lock is the last to be probed. -/
def probed (c : Check ι) : Flock → Check ι
  | .busy => .ended
  | _ => if c.dir.isSome then c.done else c

end Check

structure Agent (ι : Type) where
  file : Option Ino := none
  dir : Option Ino := none
  place : Option (Path ι × Ino) := none
  opened : Option (Path ι × Ino) := none
  held : Option (Held ι) := none
  check : Check ι := .ended

namespace Agent

def afterOpenFile (s : Agent ι) (mode : Mode) (path : Path ι) : Option Ino → Agent ι
  | none => s
  | some file => if mode = .excl then { s with place := some (path, file) } else s

def afterOpenDir (s : Agent ι) (path : Path ι) : Kind → Option Ino → Agent ι
  | .dir, some dir => { s with opened := some (path, dir) }
  | .probe, some dir => { s with check := s.check.opened dir }
  | .probe, none => { s with check := s.check.done }
  | _, _ => s

def afterFlock (s : Agent ι) (ino : Ino) : Kind → Flock → Agent ι
  | .file, .ok => { s with file := some ino }
  | .dir, .ok => { s with dir := some ino }
  | .probe, r => { s with check := s.check.probed r }
  | _, _ => s

def afterClose (s : Agent ι) : Kind → Agent ι
  | .file => { s with file := none, place := none }
  | .dir => { s with dir := none, opened := none }
  | .probe => s

def afterFileAt (s : Agent ι) (path : Path ι) : Option Ino → Agent ι
  | none => s
  | some file => if s.file = some file then { s with place := some (path, file) } else s

def afterExists (s : Agent ι) : Bool → Agent ι
  | true => s
  | false => { s with check := s.check.done }

/-- The staging copy has the path now. -/
def afterRename (s : Agent ι) (target : Path ι) : Made → Agent ι
  | .ok =>
    { s with
      place := s.place.map fun x => (target, x.2)
      opened := s.opened.map fun x => (target, x.2) }
  | _ => s

def afterWalkBegin (s : Agent ι) : Option Nat → Agent ι
  | none => { s with check := .passed }
  | some _ => { s with check := .walking none none }

def afterWalkNext (s : Agent ι) (path : Path ι) : Option (Path ι) → Agent ι
  | none => { s with check := .passed }
  | some inner => if inner = path then s else { s with check := .walking (some inner) none }

end Agent

/-- What an owner looks at once it holds its directory. -/
def Task.check : Task ι → Check ι
  | .acquire path => .climbing (ancestors path) none
  | .tryAdopt _ => .ended

def Agent.next (task : Task ι) (s : Agent ι) : (a : Act ι) → a.Res → Agent ι
  | .openFile mode path, r => s.afterOpenFile mode path r
  | .openDir kind path, r => s.afterOpenDir path kind r
  | .flock kind ino, r => s.afterFlock ino kind r
  | .close kind _, _ => s.afterClose kind
  | .fileAt path, r => s.afterFileAt path r
  | .lockFileExists _, r => s.afterExists r
  | .unlink _, _ => { s with place := none }
  | .rename _ target, r => s.afterRename target r
  | .hold h, _ => { s with held := some h, check := task.check }
  | .unhold, _ => { s with held := none, check := .ended }
  | .walkBegin _, r => s.afterWalkBegin r
  | .walkNext path, r => s.afterWalkNext path r
  | .walkEnd _, _ => { s with check := .passed }
  | .removes, _ => { s with check := .ended }
  | _, _ => s

def Agent.allowed (me : ι) (task : Task ι) (s : Agent ι) : Act ι → Prop
  | .makeDir path => World.Inside path task.path ∨ ∃ k, path = stagingOf me task.path k
  | .openFile .create path => path = task.path
  | .openFile .excl path => s = {} ∧ ∃ k, path = stagingOf me task.path k
  | .openDir .dir path => s.opened = none ∧ ∃ file, s.place = some (path, file)
  | .openDir .probe path => s.check.Looks path
  | .flock .file _ => s.file = none
  | .flock .dir dir => s.dir = none ∧ ∃ path, s.opened = some (path, dir)
  | .flock .probe ino => s.check.Active ∧ ∀ dir, s.check.dir = some dir → ino = dir
  | .close .file _ => s.held = none
  | .close .dir _ => s.held = none
  | .fileAt path => path = task.path ∧ s.opened = none
  | .lockFileExists path => s.check = .ended ∨ ∃ rest, s.check = .climbing (path :: rest) none
  | .unlink path => s.check = .ended ∧
      ((∃ file, s.place = some (path, file)) ∨ ∃ k, path = stagingOf me task.path k)
  | .rename source target => target = task.path ∧ (∃ k, source = stagingOf me task.path k) ∧
      s.check = .ended ∧ ∃ file dir, s.file = some file ∧ s.place = some (source, file) ∧
        s.opened = some (source, dir)
  | .hold h => h.path = task.path ∧ s.file = some h.file ∧ s.dir = some h.dir ∧
      s.place = some (h.path, h.file) ∧ s.opened = some (h.path, h.dir) ∧ s.check = .ended
  | .unhold => s.check = .ended
  | .walkBegin path => path = task.path ∧ s.check = .climbing [] none
  | .walkNext path => path = task.path ∧ s.check = .walking none none
  | .walkEnd path => path = task.path ∧ s.check = .walking none none
  | .return_ status => status = .ok → (∃ path, task = .acquire path) → s.check = .passed
  | _ => True

def protocol (me : ι) (task : Task ι) : Protocol (Act ι) Act.Res Empty (Agent ι) :=
  .following {} (Agent.allowed me task) (Agent.next task)

/-! ### The states between the acts -/

namespace Agent

/-- The lock file is found where it should be, and locked. -/
def placed (path : Path ι) (file : Ino) : Agent ι :=
  { file := some file, place := some (path, file) }

/-- Both locks are there. -/
def both (path : Path ι) (file dir : Ino) : Agent ι :=
  { file := some file, dir := some dir, place := some (path, file), opened := some (path, dir) }

/-- Both locks are in the lock object. -/
def holding (h : Held ι) (check : Check ι) : Agent ι :=
  { both h.path h.file h.dir with held := some h, check }

end Agent

section Obeys

variable {me : ι} {task : Task ι} {s : Agent ι} {α : Type} {Q : Agent ι → α → Prop}

theorem obeys_pure {x : α} (h : Q s x) :
    Obeys (protocol me task) s (pure x : Call ι α) Q := h

theorem obeys_bind {β : Type} {m : Call ι α} {f : α → Call ι β} {R : Agent ι → β → Prop}
    (hm : Obeys (protocol me task) s m Q)
    (hf : ∀ s' x, Q s' x → Obeys (protocol me task) s' (f x) R) :
    Obeys (protocol me task) s (m >>= f) R :=
  Obeys.bind hm hf

theorem obeys_perform {a : Act ι} {Q : Agent ι → a.Res → Prop} (ha : s.allowed me task a)
    (h : ∀ r, Q (s.next task a r) r) : Obeys (protocol me task) s (perform a) Q :=
  ⟨ha, h⟩

theorem obeys_act {a : Act ι} {f : a.Res → Call ι α} {R : Agent ι → α → Prop}
    (ha : s.allowed me task a) (h : ∀ r, Obeys (protocol me task) (s.next task a r) (f r) R) :
    Obeys (protocol me task) s (perform a >>= f) R :=
  ⟨ha, h⟩

/-! ### The look for nested spools -/

section Looking

variable {h : Held ι} {c : Check ι} {path : Path ι}

omit [DecidableEq ι] in
theorem Check.Looks.dir_eq_none (hc : c.Looks path) : c.dir = none := by
  cases c with
  | climbing rest dir | walking inner dir => exact hc.2
  | passed | ended => exact hc.elim

omit [DecidableEq ι] in
theorem Check.Looks.active (hc : c.Looks path) : c.Active := by
  cases c with
  | climbing rest dir | walking inner dir => trivial
  | passed | ended => exact hc.elim

omit [DecidableEq ι] in
/-- The lock file's lock alone does not settle it. -/
theorem Check.Looks.probed_ok (hc : c.Looks path) : c.probed .ok = c := by
  change (if c.dir.isSome then c.done else c) = c
  rw [hc.dir_eq_none]
  rfl

omit [DecidableEq ι] in
/-- The directory's own lock does. -/
theorem Check.Looks.probed_opened (hc : c.Looks path) (dir : Ino) :
    (c.opened dir).Active ∧ (c.opened dir).dir = some dir ∧
      (c.opened dir).probed .ok = c.done := by
  cases c with
  | climbing rest dir | walking inner dir => exact ⟨trivial, rfl, rfl⟩
  | passed | ended => exact hc.elim

theorem obeys_flockHeld {ino : Ino} (hc : c.Active)
    (hino : ∀ dir, c.dir = some dir → ino = dir) :
    Obeys (protocol me task) (.holding h c) (flockHeld ino) fun s held =>
      s = .holding h (if held then .ended else c.probed .ok) := by
  refine obeys_act ⟨hc, hino⟩ fun r => ?_
  match r with
  | .ok => exact obeys_act trivial fun _ => obeys_pure rfl
  | .busy | .error => exact obeys_pure rfl

theorem obeys_fileHeld (hc : c.Looks path) :
    Obeys (protocol me task) (.holding h c) (fileHeld path) fun s held =>
      s = .holding h (if held then .ended else c) := by
  refine obeys_act trivial fun r => ?_
  match r with
  | none => exact obeys_pure rfl
  | some file =>
    have hino : ∀ dir, c.dir = some dir → file = dir := by
      intro dir hdir
      rw [hc.dir_eq_none] at hdir
      cases hdir
    have hheld : Obeys (protocol me task) (.holding h c) (flockHeld file) fun s held =>
        s = .holding h (if held then .ended else c.probed .ok) := obeys_flockHeld hc.active hino
    rw [hc.probed_ok] at hheld
    exact hheld

theorem obeys_dirHeld (hc : c.Looks path) :
    Obeys (protocol me task) (.holding h c) (dirHeld path) fun s held =>
      s = .holding h (if held then .ended else c.done) := by
  refine obeys_act hc fun r => ?_
  match r with
  | none => exact obeys_pure rfl
  | some dir =>
    obtain ⟨hactive, hdir, hdone⟩ := hc.probed_opened dir
    rw [← hdone]
    exact obeys_flockHeld hactive fun dir' h' => Option.some.inj (hdir.symm.trans h')

theorem obeys_readSpoolOwner (hc : c.Looks path) :
    Obeys (protocol me task) (.holding h c) (readSpoolOwner path) fun s held =>
      s = .holding h (if held then .ended else c.done) := by
  refine obeys_bind (obeys_fileHeld hc) ?_
  rintro s held rfl
  match held with
  | true => exact obeys_pure rfl
  | false => exact obeys_dirHeld hc

theorem obeys_heldAbove (rest : List (Path ι)) :
    Obeys (protocol me task) (.holding h (.climbing rest none)) (heldAbove rest) fun s held =>
      s = .holding h (if held then .ended else .climbing [] none) := by
  induction rest with
  | nil => exact obeys_pure rfl
  | cons ancestor rest ih =>
    refine obeys_act (.inr ⟨rest, rfl⟩) fun found => ?_
    match found with
    | false => exact ih
    | true =>
      refine obeys_bind (obeys_readSpoolOwner ⟨rfl, rfl⟩) ?_
      rintro s held rfl
      match held with
      | true => exact obeys_pure rfl
      | false => exact ih

theorem obeys_heldBelow (n : Nat) :
    Obeys (protocol me task) (.holding h (.walking none none)) (heldBelow task.path n)
      fun s held => s = .holding h (if held then .ended else .passed) := by
  induction n with
  | zero => exact obeys_act ⟨rfl, rfl⟩ fun _ => obeys_pure rfl
  | succ n ih =>
    refine obeys_act ⟨rfl, rfl⟩ fun r => ?_
    match r with
    | none => exact obeys_pure rfl
    | some inner =>
      dsimp only [Agent.next, Agent.afterWalkNext]
      by_cases hinner : inner = task.path
      · rw [if_pos hinner, if_pos hinner]
        exact ih
      · rw [if_neg hinner, if_neg hinner]
        refine obeys_bind (obeys_readSpoolOwner (c := .walking (some inner) none) ⟨rfl, rfl⟩) ?_
        rintro s held rfl
        match held with
        | true => exact obeys_pure rfl
        | false => exact ih

theorem obeys_heldInside :
    Obeys (protocol me task) (.holding h (.climbing [] none)) (heldInside task.path)
      fun s held => s = .holding h (if held then .ended else .passed) := by
  refine obeys_act ⟨rfl, rfl⟩ fun r => ?_
  match r with
  | none => exact obeys_pure rfl
  | some n => exact obeys_heldBelow n

theorem obeys_checkNotNested :
    Obeys (protocol me task) (.holding h (.climbing (ancestors task.path) none))
      (checkNotNested task.path) fun s passed =>
        s = .holding h (if passed then .passed else .ended) := by
  refine obeys_bind (obeys_heldAbove _) ?_
  rintro s held rfl
  match held with
  | true => exact obeys_pure rfl
  | false =>
    refine obeys_bind obeys_heldInside ?_
    rintro s below rfl
    match below with
    | true | false => exact obeys_pure rfl

end Looking

/-! ### Locks -/

/-- Both locks are there, if a program that takes them says so. -/
def BothLocked (path : Path ι) (s : Agent ι) : Except Status (Ino × Ino) → Prop
  | .ok x => s = .both path x.1 x.2
  | .error status => status ≠ .ok

omit [DecidableEq ι] in
theorem bothLocked_io {path : Path ι} : BothLocked path s (.error .io) := by
  intro h
  cases h

theorem obeys_lockDirectory {path : Path ι} {file : Ino} :
    Obeys (protocol me task) (.placed path file) (lockDirectory path) fun s r =>
      match r with
      | .ok dir => s = .both path file dir
      | .error status => s = .placed path file ∧ status ≠ .ok := by
  refine obeys_act ⟨rfl, file, rfl⟩ fun r => ?_
  match r with
  | none => exact obeys_pure ⟨rfl, by decide⟩
  | some dir =>
    refine obeys_act ⟨rfl, path, rfl⟩ fun r => ?_
    match r with
    | .ok => exact obeys_pure rfl
    | .busy | .error => exact obeys_act rfl fun _ => obeys_pure ⟨rfl, by decide⟩

/-- After a turn of the loop the owner has both locks, or it goes on with none, or gives up. -/
def TurnSeen (path : Path ι) (s : Agent ι) : Turn → Prop
  | .locked file dir => s = .both path file dir
  | .again => s = {}
  | .failed status => status ≠ .ok

omit [DecidableEq ι] in
theorem turnSeen_retry {path : Path ι} {p : Prop} [Decidable p] {status : Status}
    (hstatus : status ≠ .ok) :
    TurnSeen path ({} : Agent ι) (if p then .again else .failed status) := by
  by_cases h : p
  · rw [if_pos h]
    rfl
  · rw [if_neg h]
    exact hstatus

variable {attempt : Nat}

theorem obeys_lockBoth {path : Path ι} {file : Ino} :
    Obeys (protocol me task) (.placed path file) (lockBoth path attempt file)
      (TurnSeen path) := by
  refine obeys_bind obeys_lockDirectory ?_
  intro s r hs
  match r with
  | .ok dir =>
    subst hs
    exact obeys_pure rfl
  | .error status =>
    obtain ⟨rfl, hstatus⟩ := hs
    exact obeys_act rfl fun _ => obeys_pure (turnSeen_retry hstatus)

theorem obeys_recheck {file : Ino} :
    Obeys (protocol me task) { file := some file } (recheck task.path attempt file)
      (TurnSeen task.path) := by
  refine obeys_act ⟨rfl, rfl⟩ fun r => ?_
  by_cases hr : r = some file
  · subst hr
    have hnext : Agent.next task { file := some file } (.fileAt task.path) (some file) =
        .placed task.path file := if_pos rfl
    rw [hnext, if_pos rfl]
    exact obeys_lockBoth
  · have hnext : Agent.next task { file := some file } (.fileAt task.path) r =
        { file := some file } := by
      match r with
      | none => rfl
      | some file' => exact if_neg fun h => hr h.symm
    rw [hnext, if_neg hr]
    refine obeys_act rfl fun _ => obeys_act trivial fun found => ?_
    match found with
    | true => exact obeys_pure rfl
    | false => exact obeys_pure (nofun : Status.io ≠ .ok)

theorem obeys_lockTurn :
    Obeys (protocol me task) {} (lockTurn task.path attempt) (TurnSeen task.path) := by
  refine obeys_act rfl fun r => ?_
  match r with
  | none => exact obeys_pure (nofun : Status.io ≠ .ok)
  | some file =>
    refine obeys_act rfl fun r => ?_
    match r with
    | .ok => exact obeys_recheck
    | .busy => exact obeys_act rfl fun _ => obeys_pure (turnSeen_retry nofun)
    | .error => exact obeys_act rfl fun _ => obeys_pure (nofun : Status.io ≠ .ok)

theorem obeys_lockInPlace (left : Nat) :
    Obeys (protocol me task) {} (lockInPlace task.path left) (BothLocked task.path) := by
  induction left with
  | zero => exact obeys_pure bothLocked_io
  | succ left ih =>
    refine obeys_bind obeys_lockTurn ?_
    intro s r hs
    match r with
    | .locked file dir | .failed status => exact obeys_pure hs
    | .again =>
      subst hs
      exact ih

variable {k : Nat}

theorem obeys_removeStaging :
    Obeys (protocol me task) {} (removeStaging (stagingOf me task.path k)) fun s _ => s = {} :=
  obeys_act ⟨rfl, .inr ⟨k, rfl⟩⟩ fun _ => obeys_perform trivial fun _ => rfl

theorem obeys_publish {file dir : Ino} :
    Obeys (protocol me task) (.both (stagingOf me task.path k) file dir)
      (publish (stagingOf me task.path k) task.path file dir) (BothLocked task.path) := by
  refine obeys_act ⟨rfl, ⟨k, rfl⟩, rfl, file, dir, rfl, rfl, rfl⟩ fun r => ?_
  match r with
  | .ok => exact obeys_pure rfl
  | .exists_ =>
    refine obeys_act rfl fun _ => obeys_act rfl fun _ => obeys_bind obeys_removeStaging ?_
    rintro s _ rfl
    exact obeys_lockInPlace 8
  | .error =>
    refine obeys_act rfl fun _ => obeys_act rfl fun _ => obeys_bind obeys_removeStaging ?_
    exact fun _ _ _ => obeys_pure bothLocked_io

/-- Nothing is kept of a staging copy that could not be locked. -/
theorem obeys_dropStaging {s : Agent ι} {file : Ino} (hs : s.afterClose .file = {})
    (hheld : s.held = none) :
    Obeys (protocol me task) s
      (do
        perform (.close .file file)
        removeStaging (stagingOf me task.path k)
        pure (.error .io)) (BothLocked task.path) := by
  refine obeys_act hheld fun _ => ?_
  change Obeys _ (s.afterClose .file) _ _
  rw [hs]
  exact obeys_bind obeys_removeStaging fun _ _ _ => obeys_pure bothLocked_io

theorem obeys_lockStaging {file : Ino} :
    Obeys (protocol me task) { place := some (stagingOf me task.path k, file) }
      (lockStaging (stagingOf me task.path k) task.path file) (BothLocked task.path) := by
  refine obeys_act rfl fun r => ?_
  match r with
  | .ok =>
    refine obeys_bind obeys_lockDirectory ?_
    intro s r hs
    match r with
    | .ok dir =>
      subst hs
      exact obeys_publish
    | .error status =>
      obtain ⟨rfl, -⟩ := hs
      exact obeys_dropStaging rfl rfl
  | .busy | .error => exact obeys_dropStaging rfl rfl

theorem obeys_createLocked (left : Nat) :
    Obeys (protocol me task) {} (createLocked me task.path left) (BothLocked task.path) := by
  induction left with
  | zero => exact obeys_pure bothLocked_io
  | succ left ih =>
    refine obeys_act trivial fun k => obeys_act (.inr ⟨k, rfl⟩) fun r => ?_
    match r with
    | .exists_ => exact ih
    | .error => exact obeys_pure bothLocked_io
    | .ok =>
      refine obeys_act ⟨rfl, k, rfl⟩ fun r => ?_
      match r with
      | none => exact obeys_bind obeys_removeStaging fun _ _ _ => obeys_pure bothLocked_io
      | some file => exact obeys_lockStaging

/-! ### Giving up -/

theorem obeys_release (hs : s.check = .ended) :
    Obeys (protocol me task) s release fun _ _ => True := by
  refine obeys_act hs fun r => ?_
  match r with
  | none => exact obeys_pure trivial
  | some h => exact obeys_act rfl fun _ => obeys_perform rfl fun _ => trivial

theorem obeys_removeDirs (paths : List (Path ι)) :
    Obeys (protocol me task) s (removeDirs paths) fun s' _ => s' = s := by
  induction paths with
  | nil => exact obeys_pure rfl
  | cons path rest ih => exact obeys_act trivial fun _ => ih

theorem obeys_releaseAndRemoveIfEmpty {h : Held ι} (hpath : h.path = task.path) :
    Obeys (protocol me task) (.holding h .ended) (releaseAndRemoveIfEmpty task.path)
      fun _ _ => True := by
  refine obeys_act trivial fun r => ?_
  match r with
  | .left | .error => exact obeys_release rfl
  | .empty subdirectories =>
    refine obeys_bind (obeys_removeDirs subdirectories) ?_
    rintro s _ rfl
    refine obeys_act ⟨rfl, .inl ⟨h.file, by rw [← hpath]; rfl⟩⟩ fun _ => ?_
    exact obeys_act trivial fun _ => obeys_release rfl

theorem obeys_undoTake {h : Held ι} {existed hadLockFile : Bool} (hpath : h.path = task.path) :
    Obeys (protocol me task) (.holding h .ended) (undoTake task.path existed hadLockFile)
      fun _ _ => True := by
  match existed, hadLockFile with
  | false, _ => exact obeys_releaseAndRemoveIfEmpty hpath
  | true, true => exact obeys_release rfl
  | true, false =>
    exact obeys_act ⟨rfl, .inl ⟨h.file, by rw [← hpath]; rfl⟩⟩ fun _ => obeys_release rfl

/-! ### Taking -/

/-- A call that returns success holds its directory, and has looked for nested spools if it was to
do that. -/
def Taken (task : Task ι) (s : Agent ι) (status : Status) : Prop :=
  status = .ok → ∃ h c, s = .holding h c ∧ h.path = task.path ∧
    ((∃ path, task = .acquire path) → c = .passed)

omit [DecidableEq ι] in
theorem taken_of_ne {status : Status} (h : status ≠ .ok) : Taken task s status :=
  fun hok => absurd hok h

theorem obeys_acquired {path : Path ι} {existed hadLockFile : Bool}
    {r : Except Status (Ino × Ino)} (hs : BothLocked path s r) :
    Obeys (protocol me (.acquire path)) s (acquired path existed hadLockFile r)
      (Taken (.acquire path)) := by
  match r with
  | .error status => exact obeys_pure (taken_of_ne hs)
  | .ok (file, dir) =>
    subst hs
    refine obeys_act ⟨rfl, rfl, rfl, rfl, rfl, rfl⟩ fun _ => ?_
    have hcheck : Obeys (protocol me (.acquire path))
        (.holding ⟨path, file, dir⟩ (.climbing (ancestors path) none)) (checkNotNested path)
        fun s passed => s = .holding ⟨path, file, dir⟩ (if passed then .passed else .ended) :=
      obeys_checkNotNested
    refine obeys_bind hcheck ?_
    rintro s passed rfl
    match passed with
    | true => exact obeys_pure fun _ => ⟨⟨path, file, dir⟩, _, rfl, rfl, fun _ => rfl⟩
    | false => exact obeys_bind (obeys_undoTake rfl) fun _ _ _ => obeys_pure (taken_of_ne nofun)

theorem obeys_acquireExisting {path : Path ι} :
    Obeys (protocol me (.acquire path)) {} (acquireExisting path) (Taken (.acquire path)) := by
  refine obeys_act trivial fun status => ?_
  match status with
  | .badArgument | .io | .owned => exact obeys_pure (taken_of_ne nofun)
  | .ok =>
    refine obeys_act (.inl rfl) fun hadLockFile => ?_
    have hrest : Obeys (protocol me (.acquire path)) {}
        (lockInPlace path 8 >>= acquired path true hadLockFile) (Taken (.acquire path)) :=
      obeys_bind (obeys_lockInPlace 8) fun _ _ hs => obeys_acquired hs
    match hadLockFile with
    | true | false => exact hrest

theorem obeys_makeParents {paths : List (Path ι)} (h : ∀ path ∈ paths, path ∈ ancestors task.path) :
    Obeys (protocol me task) s (makeParents paths) fun s' _ => s' = s := by
  induction paths with
  | nil => exact obeys_pure rfl
  | cons path rest ih =>
    refine obeys_act (.inl (mem_ancestors.mp (h path List.mem_cons_self))) fun r => ?_
    match r with
    | .error => exact obeys_pure rfl
    | .ok | .exists_ => exact ih fun path' h' => h path' (List.mem_cons_of_mem path h')

theorem obeys_acquireNew {path : Path ι} :
    Obeys (protocol me (.acquire path)) {} (acquireNew me path) (Taken (.acquire path)) := by
  refine obeys_bind (obeys_makeParents fun _ h => List.mem_reverse.mp h) ?_
  rintro s made rfl
  match made with
  | false => exact obeys_pure (taken_of_ne nofun)
  | true =>
    refine obeys_act trivial fun status => ?_
    match status with
    | .badArgument | .io | .owned => exact obeys_pure (taken_of_ne nofun)
    | .ok => exact obeys_bind (obeys_createLocked 8) fun _ _ hs => obeys_acquired hs

theorem obeys_tryAdopt {path : Path ι} :
    Obeys (protocol me (.tryAdopt path)) {} (tryAdopt path) (Taken (.tryAdopt path)) := by
  refine obeys_act trivial fun found => ?_
  match found with
  | false => exact obeys_pure (taken_of_ne nofun)
  | true =>
    refine obeys_bind (obeys_lockInPlace 8) ?_
    intro s r hs
    match r with
    | .error status => exact obeys_pure (taken_of_ne hs)
    | .ok (file, dir) =>
      subst hs
      refine obeys_act ⟨rfl, rfl, rfl, rfl, rfl, rfl⟩ fun _ => obeys_pure fun _ => ?_
      exact ⟨⟨path, file, dir⟩, .ended, rfl, rfl, fun ⟨_, h⟩ => by cases h⟩

theorem obeys_take : Obeys (protocol me task) {} (task.take me) (Taken task) := by
  cases task with
  | tryAdopt path => exact obeys_tryAdopt
  | acquire path =>
    refine obeys_act trivial fun found => ?_
    match found with
    | true => exact obeys_acquireExisting
    | false => exact obeys_acquireNew

theorem obeys_giveUp {h : Held ι} {c : Check ι} (hpath : h.path = task.path) :
    Obeys (protocol me task) (.holding h c) (giveUp task.path) fun _ _ => True := by
  refine obeys_act trivial fun removes => ?_
  match removes with
  | true => exact obeys_releaseAndRemoveIfEmpty hpath
  | false => exact obeys_release rfl

/-- **Every owner goes by the protocol, whatever the file system answers.** -/
theorem obeys_body (me : ι) (task : Task ι) :
    Obeys (protocol me task) {} (task.body me) fun _ _ => True := by
  refine obeys_bind obeys_take ?_
  intro s status hs
  by_cases hok : status = .ok
  · obtain ⟨h, c, rfl, hpath, hc⟩ := hs hok
    refine obeys_act (fun _ => hc) fun _ => ?_
    rw [if_pos hok]
    exact obeys_giveUp hpath
  · refine obeys_act (fun h => absurd h hok) fun _ => ?_
    rw [if_neg hok]
    exact obeys_pure trivial

end Obeys

end Dmi.Ownership
