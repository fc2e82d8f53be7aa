import Dmi.Catalog.Indexer
import Dmi.Lib.Proc.System

/-!
# Any number of writers on one catalog

The system: a ClickHouse cluster and any number of writers, each running one operation after
the other, with threads of one process sharing a writer. Every interleaving is a run, with
any stall (a step need never be taken), any crash, any exception of the client and any
landing time the server allows.

`Call` follows one call of `allocate_version` from the outside, by the statements it makes:
it is bookkeeping for stating what the calls return, and no step depends on it.
-/

namespace Dmi.Catalog

open Function

/-! ### Calls of `allocate_version` -/

/-- What was true when a call began: the versions returned before, and the published head. -/
structure Begin where
  returned : List Nat
  published : Nat
  deriving DecidableEq

/-- The state of a call; `β` is what is remembered of its beginning. -/
inductive Call (β : Type) where
  | idle
  | begun (b : β)
  /-- It has read the highest claim. -/
  | claimFloor (b : β) (highest : Nat)
  /-- It has read the published head too: its floor is the larger of the two. -/
  | floor (b : β) (floor : Nat)
  /-- Its claim was sent. -/
  | claiming (b : β) (version : Nat) (claimId : Id)
  /-- Its claim was acknowledged. -/
  | claimed (b : β) (version : Nat) (claimId : Id)
  /-- The read-back showed its claim alone. -/
  | sole (b : β) (version : Nat) (claimId : Id)
  deriving DecidableEq

namespace Call

variable {β : Type}

def begin? : Call β → Option β
  | .idle => none
  | .begun b | .claimFloor b _ | .floor b _ => some b
  | .claiming b .. | .claimed b .. | .sole b .. => some b

/-- The call's next state when one of its statements is sent. -/
def issue (call : Call β) : Act → Call β
  | .write (.claimVersion row) =>
    match call with
    | .floor b _ => .claiming b row.version row.claimId
    | _ => .idle
  | _ => call

/-- The published head was read: it completes the floor. -/
def readPublished : Call β → Option Nat → Call β
  | .claimFloor b highest, some published => .floor b (max highest published)
  | .claimFloor .., none => .idle
  | call, _ => call

def acknowledge : Call β → Bool → Call β
  | .claiming b version claimId, true => .claimed b version claimId
  | _, _ => .idle

/-- The read-back of a claim: alone, contested, or failed. -/
def readBack : Call β → Nat → Option (List Id) → Call β
  | .claimed b v claimId, version, some owners =>
    if version = v ∧ owners ≠ [] ∧ ∀ owner ∈ owners, owner = claimId then .sole b v claimId
    else .begun b
  | _, _, _ => .idle

/-- The call's next state when a statement is answered. -/
def complete (call : Call β) (begin_ : β) : (a : Act) → a.Res → Call β
  | .allocating, _ => .begun begin_
  | .allocated _, _ => .idle
  | .read .maxClaim, highest =>
    (highest : Option Nat).elim .idle fun m =>
      call.begin?.elim .idle fun b => .claimFloor b m
  | .read .maxWatermark, published => call.readPublished published
  | .read (.claimOwners version), owners => call.readBack version owners
  | .write (.claimVersion _), ok => call.acknowledge ok
  | _, _ => call

end Call

/-- A version that `allocate_version` returned, with what was true when the call began. -/
structure Returned where
  version : Nat
  claimId : Id
  begun : Begin
  deriving DecidableEq

/-! ### The machine -/

/-- The server, and what the calls of `allocate_version` and `index` did so far. -/
structure World (n : Nat) where
  server : Server n
  call : Nat → Call Begin := fun _ => .idle
  returned : List Returned := []
  skipped : List PackIdentity := []

/-- How an act is answered: on which host, with an exception, or with which number. -/
inductive Choice (n : Nat) where
  | answer (host : Fin n)
  | done
  | fails
  | value (x : Nat)
  | time (t : Int)

namespace World

variable {n : Nat} (w : World n)

def begin_ : Begin := ⟨w.returned.map (·.version), w.server.db.published⟩

def issue (writer : Nat) (a : Act) : World n :=
  { w with
    server := match a with
      | .write stmt => w.server.submit writer stmt
      | _ => w.server
    call := update w.call writer ((w.call writer).issue a) }

/-- The answer to an act, and the server afterwards. A `uuid` was never drawn before. -/
def answer (writer : Nat) : (a : Act) → Choice n → Option (a.Res × Server n)
  | .read q, .answer host => some (some (q.eval w.server.db (w.server.clock host)), w.server)
  | .read _, .fails => some (none, w.server)
  | .write _, .done =>
    if w.server.settled (w.server.current writer) then some (true, w.server) else none
  | .write _, .fails => some (false, w.server)
  | .uuid, .value x =>
    if (w.server.drawnBy x).isSome then none
    else some (x, { w.server with drawnBy := update w.server.drawnBy x (some writer) })
  | .randbelow bound, .value x => if x < bound then some (x, w.server) else none
  | .monotonic, .time t => some (t, w.server)
  | .timeNs, .time t => some (t, w.server)
  | .sleep _, .done => some ((), w.server)
  | .allocating, .done => some ((), w.server)
  | .allocated _, .done => some ((), w.server)
  | .skipping _, .done => some ((), w.server)
  | _, _ => none

/-- A call that ends returns the version it alone claims. -/
def record (writer : Nat) : Act → List Returned
  | .allocated version =>
    match w.call writer with
    | .sole b _ claimId => w.returned ++ [⟨version, claimId, b⟩]
    | _ => w.returned
  | _ => w.returned

/-- The packs that calls of `index` skipped. -/
def skips : Act → List PackIdentity
  | .skipping identities => w.skipped ++ identities
  | _ => w.skipped

def complete (writer : Nat) (a : Act) (choice : Choice n) : Option (a.Res × World n) :=
  (w.answer writer a choice).map fun x =>
    (x.1,
      { server := x.2
        call := update w.call writer ((w.call writer).complete w.begin_ a x.1)
        returned := w.record writer a
        skipped := w.skips a })

def evolve (cfg : Config) (e : Event n) : Option (World n) :=
  (w.server.evolve cfg e).map fun server => { w with server }

def crash (writer : Nat) : World n := { w with call := update w.call writer .idle }

end World

/-- What a user of a writer may call. -/
inductive Task where
  | acquirePublisherLease (holder : String)
  | renewPublisherLease
  | releasePublisherLease
  | publishSnapshot (p : Publish)
  | allocateVersion
  | collectGarbage
  | index (cfg : IndexerConfig) (store : Store) (cached : Option Nat)
      (refs : List Dmi.Capture.PackRef)

def Task.body (cfg : Config) : Task → Local → Proc.Prog Act Act.Res Local Local
  | .acquirePublisherLease holder => (Catalog.acquirePublisherLease cfg holder).toProg
  | .renewPublisherLease => (Catalog.renewPublisherLease cfg).toProg
  | .releasePublisherLease => Catalog.releasePublisherLease.toProg
  | .publishSnapshot p => (Catalog.publishSnapshot cfg p).toProg
  | .allocateVersion => (Catalog.allocateVersion cfg).toProg
  | .collectGarbage => (Catalog.collectGarbage cfg).toProg
  | .index icfg store cached refs => (Catalog.index cfg icfg store cached refs).toProg

/-- The writers of a cluster. -/
def machine (cl : Cluster) :
    Proc.Machine Act Act.Res Local (World cl.hosts) (Choice cl.hosts) (Event cl.hosts) Task where
  world := { server := { clock := cl.clock } }
  loc := {}
  issue w writer a := some (w.issue writer a)
  complete := World.complete
  evolve w e := w.evolve cl.toConfig e
  crash := World.crash
  body := Task.body cl.toConfig

abbrev State (cl : Cluster) := Proc.System Act Act.Res Local (World cl.hosts)

/-- One step of the system to another, whatever it is. -/
abbrev Steps (cl : Cluster) : State cl → State cl → Prop :=
  Proc.Reaches (machine cl) fun _ _ => True

def Reachable (cl : Cluster) (s : State cl) : Prop := Steps cl (machine cl).init s

theorem exists_steps_of_run {cl : Cluster} (s₀ : State cl) {Q : State cl → Prop} [DecidablePred Q]
    (ls : List (Proc.Label (Choice cl.hosts) (Event cl.hosts) Task))
    (h : (Proc.run (machine cl) s₀ ls).any (fun s => decide (Q s)) = true) :
    ∃ s, Steps cl s₀ s ∧ Q s :=
  Proc.exists_reaches_of_run (machine cl) s₀ (fun _ => True) ls (fun _ _ _ _ _ _ => trivial)
    (fun _ _ _ _ => trivial) trivial h

/-! ### Schedules

Pieces of schedules for two or more writers on one host, from which runs are put together. -/

/-- One host with the default configuration. -/
def oneHost : Cluster where
  hosts := 1
  clock _ := 0
  skew := by decide

namespace Schedule

abbrev Labels := List (Proc.Label (Choice oneHost.hosts) (Event oneHost.hosts) Task)

def host : Fin oneHost.hosts := ⟨0, Nat.one_pos⟩

def ask (c : Nat) : Labels := [.issue c, .complete c (.answer host)]

def draw (c x : Nat) : Labels := [.issue c, .complete c (.value x)]

def note (c : Nat) : Labels := [.issue c, .complete c .done]

def clock (c : Nat) : Labels := [.issue c, .complete c (.time 0)]

/-- A statement, the `sid`-th of all, lands and is acknowledged. -/
def put (c sid : Nat) : Labels :=
  [.issue c, .evolve (.accept sid host), .evolve (.land sid), .complete c .done]

/-- The lock is given up and taken again. -/
def pass (c : Nat) : Labels := [.park c, .resume c 0]

/-- A claim of the lease: the head, the claim and its read-back. -/
def claim (c sid : Nat) : Labels := ask c ++ put c sid ++ ask c

def acquire (c : Nat) (leaseId : Id) (sid : Nat) : Labels :=
  [.start c (.acquirePublisherLease "w")] ++ draw c leaseId ++ claim c sid ++ [.finish c]

/-- The second half of an allocation in one attempt: the claim above the floor and its
read-back. -/
def claimVersion (c : Nat) (claimId : Id) (sid : Nat) : Labels :=
  draw c claimId ++ clock c ++ put c sid ++ ask c ++ note c

def allocate (c : Nat) (claimId : Id) (sid : Nat) : Labels :=
  note c ++ ask c ++ ask c ++ claimVersion c claimId sid

/-- A publish without members up to its watermark statement: it renews the lease first. -/
def renewed (c version : Nat) (publishId : Id) (sid : Nat) : Labels :=
  [.start c (.publishSnapshot ⟨version, [], 0, 0, 0⟩)] ++ claim c sid ++ draw c publishId

/-- A writer takes the lease, allocates version 1 and publishes it without members. -/
def firstVersion (c : Nat) (id : Id) : Labels :=
  acquire c id 0 ++ [.start c .allocateVersion] ++ allocate c (id + 1) 1 ++ [.finish c] ++
    renewed c 1 (id + 2) 2 ++ put c 3 ++ ask c ++ [.finish c]

/-- A garbage collection that finds claims and lease rows to delete. -/
def collect (c sid : Nat) : Labels :=
  [.start c .collectGarbage] ++ ask c ++ ask c ++ ask c ++ ask c ++ put c sid ++ ask c ++
    put c (sid + 1) ++ [.finish c]

/-- A publish of one chunk of members, from statement `sid` on. -/
def publishOne (c : Nat) (publishId : Id) (sid : Nat) : Labels :=
  claim c sid ++ draw c publishId ++ put c (sid + 1) ++ ask c ++ claim c (sid + 2) ++
    put c (sid + 3) ++ ask c ++ ask c

/-- A call of `index` for one pack without captures, up to what it skips. -/
def index (c : Nat) (ref : Dmi.Capture.PackRef) : Labels :=
  [.start c (.index {} (fun _ => .ok ([], 0)) none [ref])] ++ ask c ++ pass c ++ note c

/-- The rest of the call if the pack was not skipped. -/
def indexed (c : Nat) (claimId publishId : Id) (sid : Nat) : Labels :=
  allocate c claimId sid ++ pass c ++ ask c ++ pass c ++ clock c ++
    publishOne c publishId (sid + 1) ++ pass c ++ put c (sid + 5) ++ pass c ++ [.finish c]

/-- The rest of the call if the writer dies behind its manifest, and then its lease runs out. -/
def orphaned (c : Nat) (claimId publishId : Id) (sid : Nat) : Labels :=
  allocate c claimId sid ++ pass c ++ ask c ++ pass c ++ clock c ++ claim c (sid + 1) ++
    draw c publishId ++ put c (sid + 2) ++ [.crash c, .evolve (.tick fun _ => 1000000000000)]

/-- A garbage collection that finds an orphan too. -/
def collectOrphan (c sid : Nat) : Labels :=
  [.start c .collectGarbage] ++ ask c ++ ask c ++ ask c ++ note c ++ ask c ++ ask c ++ put c sid ++
    ask c ++ put c (sid + 1) ++ ask c ++ put c (sid + 2) ++ [.finish c]

end Schedule

end Dmi.Catalog
