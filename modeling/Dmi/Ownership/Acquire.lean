import Dmi.Ownership.World

/-!
# Taking and giving up a spool directory

`Acquire`, `TryAdopt`, `Release` and `ReleaseAndRemoveIfEmpty` as programs over the system calls
they make, with every retry and every way out. The record that an owner writes into its lock file
is not read by any of them.

`Release` closes two descriptors and then forgets them. Nothing in the process asks the lock object
meanwhile, so here it forgets them first: an owner that has begun to release does not believe any
more that it owns the directory.
-/

namespace Dmi.Ownership

open List

open Proc (Prog)

variable {ι : Type} [DecidableEq ι]

/-- The directories above, nearest first. -/
def ancestors (path : Path ι) : List (Path ι) :=
  ((List.range path.length).map fun n => path.take n).reverse

omit [DecidableEq ι] in
theorem mem_ancestors {path outer : Path ι} : outer ∈ ancestors path ↔ World.Inside outer path := by
  rw [ancestors, mem_reverse, mem_map]
  constructor
  · rintro ⟨n, hn, rfl⟩
    rw [mem_range] at hn
    refine ⟨List.take_prefix n path, fun h => ?_⟩
    have hlength := congrArg List.length h
    rw [length_take] at hlength
    omega
  · rintro ⟨hpre, hne⟩
    refine ⟨outer.length, mem_range.mpr ?_, (prefix_iff_eq_take.mp hpre).symm⟩
    exact Nat.lt_of_le_of_ne hpre.length_le fun h => hne (hpre.eq_of_length h)

/-! ### Probes -/

/-- `FlockHeld`. -/
def flockHeld (ino : Ino) : Call ι Bool := do
  match ← perform (.flock .probe ino) with
  | .ok => do
    perform (.close .probe ino)
    pure false
  | .busy => pure true
  | .error => pure false

/-- The lock file's lock, if the file can be opened. -/
def fileHeld (path : Path ι) : Call ι Bool := do
  match ← perform (.openFile .read path) with
  | none => pure false
  | some file => flockHeld file

/-- The directory's own lock, if it can be opened. -/
def dirHeld (path : Path ι) : Call ι Bool := do
  match ← perform (.openDir .probe path) with
  | none => pure false
  | some dir => flockHeld dir

/-- `ReadSpoolOwner`, but for the record. -/
def readSpoolOwner (path : Path ι) : Call ι Bool := do
  if ← fileHeld path then pure true else dirHeld path

/-- Whether a directory above is held. -/
def heldAbove : List (Path ι) → Call ι Bool
  | [] => pure false
  | ancestor :: rest => do
    if ← perform (.lockFileExists ancestor) then
      if ← readSpoolOwner ancestor then pure true else heldAbove rest
    else heldAbove rest

/-- Whether one of the lock files that the walk still reports is held. A walk that fails is over. -/
def heldBelow (path : Path ι) : Nat → Call ι Bool
  | 0 => do
    perform (.walkEnd path)
    pure false
  | n + 1 => do
    match ← perform (.walkNext path) with
    | none => pure false
    | some inner =>
      if inner = path then heldBelow path n
      else if ← readSpoolOwner inner then pure true
      else heldBelow path n

/-- The walk down. One that cannot begin is over. -/
def heldInside (path : Path ι) : Call ι Bool := do
  match ← perform (.walkBegin path) with
  | none => pure false
  | some n => heldBelow path n

/-- `CheckNotNested`. -/
def checkNotNested (path : Path ι) : Call ι Bool := do
  if ← heldAbove (ancestors path) then pure false
  else do
    let below ← heldInside path
    pure (!below)

/-! ### Locks -/

/-- `LockDirectory`. -/
def lockDirectory (path : Path ι) : Call ι (Except Status Ino) := do
  match ← perform (.openDir .dir path) with
  | none => pure (.error .io)
  | some dir =>
    match ← perform (.flock .dir dir) with
    | .ok => pure (.ok dir)
    | .busy => do
      perform (.close .dir dir)
      pure (.error .owned)
    | .error => do
      perform (.close .dir dir)
      pure (.error .io)

/-- One turn of `LockInPlace` from the point where the file is known to be at its path. -/
inductive Turn where
  | locked (file dir : Ino)
  | again
  | failed (status : Status)

/-- The directory's lock beside the file's. -/
def lockBoth (path : Path ι) (attempt : Nat) (file : Ino) : Call ι Turn := do
  match ← lockDirectory path with
  | .ok dir => pure (.locked file dir)
  | .error status => do
    perform (.close .file file)
    pure (if status = .owned ∧ attempt < 2 then .again else .failed status)

/-- The file is locked: is it still at its path? -/
def recheck (path : Path ι) (attempt : Nat) (file : Ino) : Call ι Turn := do
  if (← perform (.fileAt path)) = some file then lockBoth path attempt file
  else do
    perform (.close .file file)
    if ← perform (.isDirectory path) then pure .again else pure (.failed .io)

/-- One turn of the loop of `LockInPlace`. -/
def lockTurn (path : Path ι) (attempt : Nat) : Call ι Turn := do
  match ← perform (.openFile .create path) with
  | none => pure (.failed .io)
  | some file =>
    match ← perform (.flock .file file) with
    | .ok => recheck path attempt file
    | .busy => do
      perform (.close .file file)
      pure (if attempt < 2 then .again else .failed .owned)
    | .error => do
      perform (.close .file file)
      pure (.failed .io)

/-- `LockInPlace`, with the turns that are left. -/
def lockInPlace (path : Path ι) : Nat → Call ι (Except Status (Ino × Ino))
  | 0 => pure (.error .io)
  | left + 1 => do
    match ← lockTurn path (7 - left) with
    | .locked file dir => pure (.ok (file, dir))
    | .again => lockInPlace path left
    | .failed status => pure (.error status)

/-- The staging copy goes. -/
def removeStaging (staging : Path ι) : Call ι Unit := do
  perform (.unlink staging)
  perform (.removeDir staging)

/-- `CreateLocked` once both locks of the staging copy are held. -/
def publish (staging path : Path ι) (file dir : Ino) : Call ι (Except Status (Ino × Ino)) := do
  match ← perform (.rename staging path) with
  | .ok => pure (.ok (file, dir))
  | .exists_ => do
    perform (.close .dir dir)
    perform (.close .file file)
    removeStaging staging
    lockInPlace path 8
  | .error => do
    perform (.close .dir dir)
    perform (.close .file file)
    removeStaging staging
    pure (.error .io)

/-- `CreateLocked` once the lock file of the staging copy is open. -/
def lockStaging (staging path : Path ι) (file : Ino) : Call ι (Except Status (Ino × Ino)) := do
  match ← perform (.flock .file file) with
  | .ok =>
    match ← lockDirectory staging with
    | .ok dir => publish staging path file dir
    | .error _ => do
      perform (.close .file file)
      removeStaging staging
      pure (.error .io)
  | _ => do
    perform (.close .file file)
    removeStaging staging
    pure (.error .io)

/-- The hidden name beside the target. -/
def stagingOf (me : ι) (path : Path ι) (k : Nat) : Path ι := path.dropLast ++ [.staging me k]

/-- `CreateLocked`, with the turns that are left. -/
def createLocked (me : ι) (path : Path ι) : Nat → Call ι (Except Status (Ino × Ino))
  | 0 => pure (.error .io)
  | left + 1 => do
    let k ← perform .random
    match ← perform (.makeDir (stagingOf me path k)) with
    | .exists_ => createLocked me path left
    | .error => pure (.error .io)
    | .ok =>
      match ← perform (.openFile .excl (stagingOf me path k)) with
      | none => do
        removeStaging (stagingOf me path k)
        pure (.error .io)
      | some file => lockStaging (stagingOf me path k) path file

/-! ### Giving up -/

/-- `Release`. -/
def release : Call ι Unit := do
  match ← perform .unhold with
  | none => pure ()
  | some h => do
    perform (.close .dir h.dir)
    perform (.close .file h.file)

def removeDirs : List (Path ι) → Call ι Unit
  | [] => pure ()
  | path :: rest => do
    perform (.removeDir path)
    removeDirs rest

/-- `ReleaseAndRemoveIfEmpty` of a directory that is held. -/
def releaseAndRemoveIfEmpty (path : Path ι) : Call ι Unit := do
  match ← perform (.list path) with
  | .left => release
  | .error => release
  | .empty subdirectories => do
    removeDirs subdirectories
    perform (.unlink path)
    perform (.removeDir path)
    release

/-! ### Taking -/

/-- `create_directories`. -/
def makeParents : List (Path ι) → Call ι Bool
  | [] => pure true
  | path :: rest => do
    match ← perform (.makeDir path) with
    | .error => pure false
    | _ => makeParents rest

/-- What a refused take leaves behind: nothing. -/
def undoTake (path : Path ι) (existed hadLockFile : Bool) : Call ι Unit :=
  if existed then
    if hadLockFile then release
    else do
      perform (.unlink path)
      release
  else releaseAndRemoveIfEmpty path

/-- `Acquire` from the point where its locks are held. -/
def acquired (path : Path ι) (existed hadLockFile : Bool) :
    Except Status (Ino × Ino) → Call ι Status
  | .error status => pure status
  | .ok (file, dir) => do
    perform (.hold ⟨path, file, dir⟩)
    if ← checkNotNested path then pure .ok
    else do
      undoTake path existed hadLockFile
      pure .badArgument

/-- `Acquire` of a directory that is there. -/
def acquireExisting (path : Path ι) : Call ι Status := do
  match ← perform .nodeLocal with
  | .ok => do
    let hadLockFile ← perform (.lockFileExists path)
    let locked ← lockInPlace path 8
    acquired path true hadLockFile locked
  | status => pure status

/-- `Acquire` of a directory that is not there. -/
def acquireNew (me : ι) (path : Path ι) : Call ι Status := do
  if ← makeParents (ancestors path).reverse then
    match ← perform .nodeLocal with
    | .ok => do
      let locked ← createLocked me path 8
      acquired path false false locked
    | status => pure status
  else pure .io

/-- `Acquire`. -/
def acquire (me : ι) (path : Path ι) : Call ι Status := do
  if ← perform (.isDirectory path) then acquireExisting path else acquireNew me path

/-- `TryAdopt`. -/
def tryAdopt (path : Path ι) : Call ι Status := do
  if ← perform (.isDirectory path) then
    match ← lockInPlace path 8 with
    | .error status => pure status
    | .ok (file, dir) => do
      perform (.hold ⟨path, file, dir⟩)
      pure .ok
  else pure .badArgument

/-! ### Owners -/

inductive Task (ι : Type) where
  | acquire (path : Path ι)
  | tryAdopt (path : Path ι)

def Task.path : Task ι → Path ι
  | .acquire path => path
  | .tryAdopt path => path

def Task.take (me : ι) : Task ι → Call ι Status
  | .acquire path => Ownership.acquire me path
  | .tryAdopt path => Ownership.tryAdopt path

/-- The owner gives the directory up, in one of the two ways. -/
def giveUp (path : Path ι) : Call ι Unit := do
  if ← perform .removes then releaseAndRemoveIfEmpty path else release

/-- An owner takes its directory, and gives it up some time. -/
def Task.body (me : ι) (task : Task ι) : Call ι Unit := do
  let status ← task.take me
  perform (.return_ status)
  if status = .ok then giveUp task.path else pure ()

/-- Any files, and owners that have not begun. -/
def start (w : World ι) (task : ι → Task ι) : System ι := ⟨w, fun i => (task i).body i⟩

end Dmi.Ownership
