import Dmi.Lib.Dict
import Dmi.Lib.Proc.Atomic

/-!
# Files, directories and locks

What the owner locks of spool directories see of the file system: the directories by their path,
the lock file in each, and who holds the `flock` of a file or directory. A lock is on an inode,
through a descriptor of one owner; an unlinked file keeps its inode for those who have it open.

Every system call is one act, answered at once (`answer`); where it may fail, that is a choice of
the environment. Outside the calls, an owner may crash, which closes its descriptors, and a lock
file may be removed (`Label`).
-/

namespace Dmi.Ownership

open Proc (Prog Pool)

/-- A component of a path: a name, or the hidden name of the copy that an owner builds beside its
target, which is random and so no other's. -/
inductive Comp (ι : Type) where
  | name (n : Nat)
  | staging (owner : ι) (k : Nat)
  deriving DecidableEq

abbrev Path (ι : Type) := List (Comp ι)

abbrev Ino := Nat

/-- What a descriptor is for. A probe looks whether others hold a lock. -/
inductive Kind where
  | file | dir | probe
  deriving DecidableEq

structure Desc (ι : Type) where
  owner : ι
  kind : Kind
  deriving DecidableEq

/-- What a `SpoolOwnerLock` holds: the directory's path, and the inodes of the lock file and the
directory that its two descriptors are on. -/
structure Held (ι : Type) where
  path : Path ι
  file : Ino
  dir : Ino
  deriving DecidableEq

inductive Status where
  | ok | badArgument | io | owned
  deriving DecidableEq

structure World (ι : Type) where
  dirs : Dict (Path ι) Ino
  /-- The lock file in a directory. -/
  lockFile : Ino → Option Ino
  /-- The next inode to be used. -/
  fresh : Ino
  locks : Ino → Option (Desc ι)
  /-- The lock object of each owner. -/
  held : ι → Option (Held ι)
  /-- The owners whose call has returned success and that have not begun to give up. -/
  live : ι → Bool
  /-- Of the walk of each owner: the directories it has not reported whose lock file has been
  there since it began. -/
  pending : ι → List (Path ι)

/-! ### Acts -/

inductive Mode where
  | read | create | excl
  deriving DecidableEq

inductive Act (ι : Type) where
  | isDirectory (path : Path ι)
  | makeDir (path : Path ι)
  /-- `CheckNodeLocal`. -/
  | nodeLocal
  | random
  /-- `open` of the lock file of a directory. -/
  | openFile (mode : Mode) (path : Path ι)
  | openDir (kind : Kind) (path : Path ι)
  /-- `flock(LOCK_EX | LOCK_NB)`. -/
  | flock (kind : Kind) (ino : Ino)
  /-- `close`, or for a probe `flock(LOCK_UN)`. -/
  | close (kind : Kind) (ino : Ino)
  /-- `stat` of the lock file of a directory. -/
  | fileAt (path : Path ι)
  | lockFileExists (path : Path ι)
  | unlink (path : Path ι)
  | removeDir (path : Path ι)
  /-- `renameat2(RENAME_NOREPLACE)`. -/
  | rename (source target : Path ι)
  | hold (h : Held ι)
  /-- The descriptors are taken out of the lock object. -/
  | unhold
  /-- The nested lock files that the walk of the directory is going to report. -/
  | walkBegin (path : Path ι)
  | walkNext (path : Path ι)
  | walkEnd (path : Path ι)
  /-- The walk of `ReleaseAndRemoveIfEmpty`. -/
  | list (path : Path ι)
  | return_ (status : Status)
  /-- The owner begins to give the directory up, and may want to remove it. -/
  | removes

inductive Made where
  | ok | exists_ | error
  deriving DecidableEq

inductive Flock where
  | ok | busy | error
  deriving DecidableEq

/-- The outcome of the walk of `ReleaseAndRemoveIfEmpty`. -/
inductive Listing (ι : Type) where
  | left | error
  | empty (subdirectories : List (Path ι))

@[reducible] def Act.Res {ι : Type} : Act ι → Type
  | .isDirectory _ => Bool
  | .makeDir _ => Made
  | .nodeLocal => Status
  | .random => Nat
  | .openFile _ _ => Option Ino
  | .openDir _ _ => Option Ino
  | .flock _ _ => Flock
  | .close _ _ => Unit
  | .fileAt _ => Option Ino
  | .lockFileExists _ => Bool
  | .unlink _ => Unit
  | .removeDir _ => Unit
  | .rename _ _ => Made
  | .hold _ => Unit
  | .unhold => Option (Held ι)
  | .walkBegin _ => Option Nat
  | .walkNext _ => Option (Path ι)
  | .walkEnd _ => Unit
  | .list _ => Listing ι
  | .return_ _ => Unit
  | .removes => Bool

/-- How a system call comes out, where that is not for the file system to say. -/
inductive Choice (ι : Type) where
  | serve
  | fail
  | number (n : Nat)
  | flag (b : Bool)
  | status (status : Status)
  | report (path : Path ι)
  | listing (l : Listing ι)

/-! ### What the acts do -/

namespace World

variable {ι : Type} [DecidableEq ι]

/-- The lock file at the path of a directory. -/
def fileAt (w : World ι) (path : Path ι) : Option Ino := (w.dirs.get? path).bind w.lockFile

/-- A directory is inside another. -/
def Inside (outer inner : Path ι) : Prop := outer <+: inner ∧ outer ≠ inner

instance (outer inner : Path ι) : Decidable (Inside outer inner) :=
  inferInstanceAs (Decidable (_ ∧ _))

def openFile (w : World ι) (mode : Mode) (path : Path ι) : Option Ino × World ι :=
  match w.dirs.get? path with
  | none => (none, w)
  | some dir =>
    match w.lockFile dir, mode with
    | some _, .excl => (none, w)
    | some file, _ => (some file, w)
    | none, .read => (none, w)
    | none, _ =>
      (some w.fresh,
        { w with
          lockFile := Function.update w.lockFile dir (some w.fresh)
          fresh := w.fresh + 1 })

def flock (w : World ι) (desc : Desc ι) (ino : Ino) : Flock × World ι :=
  match w.locks ino with
  | none => (.ok, { w with locks := Function.update w.locks ino (some desc) })
  | some holder => (if holder = desc then .ok else .busy, w)

/-- The descriptor is closed; a lock that is held through it goes. -/
def close (w : World ι) (desc : Desc ι) (ino : Ino) : World ι :=
  if w.locks ino = some desc then { w with locks := Function.update w.locks ino none } else w

def makeDir (w : World ι) (path : Path ι) : Made × World ι :=
  if (w.dirs.get? path).isSome then (.exists_, w)
  else if (w.dirs.get? path.dropLast).isNone then (.error, w)
  else (.ok, { w with dirs := w.dirs.set path w.fresh, fresh := w.fresh + 1 })

/-- The lock file of the directory goes; no walk can have seen it throughout. -/
def unlink (w : World ι) (path : Path ι) : World ι :=
  match w.dirs.get? path with
  | none => w
  | some dir =>
    { w with
      lockFile := Function.update w.lockFile dir none
      pending := fun i => (w.pending i).filter (· ≠ path) }

/-- A directory can be removed that is empty; one with other files is left to the choice. -/
def removeDir (w : World ι) (path : Path ι) : World ι :=
  if (w.fileAt path).isSome ∨ ∃ inner ∈ w.dirs.keys, Inside path inner then w
  else { w with dirs := w.dirs.erase path }

/-- The directory gets another path. It has no subdirectories: its name is a hidden one. -/
def rename (w : World ι) (source target : Path ι) : Made × World ι :=
  if (w.dirs.get? target).isSome then (.exists_, w)
  else
    match w.dirs.get? source with
    | none => (.error, w)
    | some dir =>
      (.ok,
        { w with
          dirs := (w.dirs.erase source).set target dir
          pending := fun i => (w.pending i).filter (· ≠ source) })

/-- The lock files inside a directory. -/
def nested (w : World ι) (path : Path ι) : List (Path ι) :=
  w.dirs.keys.filter fun inner => Inside path inner ∧ (w.fileAt inner).isSome

/-- A crash closes every descriptor of the owner. -/
def kill (w : World ι) (i : ι) : World ι :=
  { w with
    locks := fun ino => (w.locks ino).filter fun desc => desc.owner ≠ i
    held := Function.update w.held i none
    live := Function.update w.live i false
    pending := Function.update w.pending i [] }

end World

variable {ι : Type} [DecidableEq ι]

/-- The answer to an act of an owner, and the world after it. -/
def answer (i : ι) (w : World ι) : (a : Act ι) → Choice ι → Option (a.Res × World ι)
  | .isDirectory path, .serve => some ((w.dirs.get? path).isSome, w)
  | .isDirectory _, .fail => some (false, w)
  | .makeDir path, .serve => some (w.makeDir path)
  | .makeDir _, .fail => some (.error, w)
  | .nodeLocal, .status status => some (status, w)
  | .random, .number k => some (k, w)
  | .openFile mode path, .serve => some (w.openFile mode path)
  | .openFile _ _, .fail => some (none, w)
  | .openDir _ path, .serve => some (w.dirs.get? path, w)
  | .openDir _ _, .fail => some (none, w)
  | .flock kind ino, .serve => some (w.flock ⟨i, kind⟩ ino)
  | .flock _ _, .fail => some (.error, w)
  | .close kind ino, .serve => some ((), w.close ⟨i, kind⟩ ino)
  | .fileAt path, .serve => some (w.fileAt path, w)
  | .fileAt _, .fail => some (none, w)
  | .lockFileExists path, .serve => some ((w.fileAt path).isSome, w)
  | .lockFileExists _, .fail => some (false, w)
  | .unlink path, .serve => some ((), w.unlink path)
  | .unlink _, .fail => some ((), w)
  | .removeDir path, .serve => some ((), w.removeDir path)
  | .removeDir _, .fail => some ((), w)
  | .rename source target, .serve => some (w.rename source target)
  | .rename _ _, .fail => some (.error, w)
  | .hold h, .serve => some ((), { w with held := Function.update w.held i (some h) })
  | .unhold, .serve => some (w.held i, { w with held := Function.update w.held i none })
  | .walkBegin path, .number n =>
    some (some n, { w with pending := Function.update w.pending i (w.nested path) })
  | .walkBegin _, .fail => some (none, w)
  | .walkNext _, .report inner =>
    some (some inner,
      { w with pending := Function.update w.pending i ((w.pending i).filter (· ≠ inner)) })
  | .walkNext _, .fail => some (none, w)
  -- A walk comes to its end when nothing is left that was there throughout.
  | .walkEnd _, .serve => if w.pending i = [] then some ((), w) else none
  | .list _, .listing l => some (l, w)
  | .return_ status, .serve =>
    some ((), { w with live := Function.update w.live i (decide (status = .ok)) })
  | .removes, .flag b => some (b, { w with live := Function.update w.live i false })
  | _, _ => none

/-! ### Runs -/

/-- A program over these acts. -/
abbrev Call (ι : Type) := Prog (Act ι) Act.Res Empty

def perform (a : Act ι) : Call ι a.Res := Prog.perform a

abbrev System (ι : Type) := Pool ι (Act ι) Act.Res (World ι) Unit

inductive Label (ι : Type) where
  | act (i : ι) (choice : Choice ι)
  | crash (i : ι)
  /-- A lock file is removed from outside. -/
  | remove (path : Path ι)

def step (s : System ι) : Label ι → Option (System ι)
  | .act i choice => Pool.step answer s (i, choice)
  | .crash i => some ⟨s.world.kill i, Function.update s.prog i (.ret ())⟩
  | .remove path => some ⟨s.world.unlink path, s.prog⟩

end Dmi.Ownership
