import Dmi.Catalog.System

/-!
# What a writer may do next, and what it knows

The protocol that the methods of a writer follow, as an automaton that watches the writer's
acts and their answers. It has four parts that do not look at each other.

* `LeaseView`: which lease the writer holds at which term, and whether a fenced statement
  was already sent under that term. A claim needs a head read that leaves the lease free. A
  fenced statement needs a claim that was read back alone and has not been used yet. After an
  exception of a claim or a fenced statement the lease id is never used again.
* `PublishView`: the chunks of a publish are written and read back one by one, and only then
  its watermark. The members of a publish count as visible once its watermark was read back,
  and so do the packs found in the inventory. Only visible packs may enter the inventory or
  be skipped.
* `CollectView`: rows are deleted below bounds that were read before.
* `Call`: a version is claimed above both floors, and returned after a read-back.

The automaton is not part of the code. Every method is shown to follow it, and everything
about the whole system is then proved from the automaton alone.
-/

namespace Dmi.Catalog

open Dmi.Capture (PackRef)

/-! ### Leases -/

/-- The answer to a head read: the term, its leases with their expiry, and the clock. -/
structure Seen where
  term : Nat
  leases : List (Id × Int)
  now : Int

def Seen.ofRows (rows : List HeadRow) : Seen :=
  { term := (LeaseHead.ofRows rows).term
    leases := rows.map fun r => (r.leaseId, r.expiresAtNs)
    now := (LeaseHead.ofRows rows).nowNs }

/-- Every lease at the head is over, or the only one is `id`. -/
def Seen.Free (s : Seen) (id : Id) : Prop :=
  (∀ x ∈ s.leases, x.2 ≤ s.now) ∨ s.leases.map (·.1) = [id]

inductive Phase where
  | vacant
  /-- A claim was sent. -/
  | inserting (id : Id) (term : Nat)
  /-- The claim was acknowledged. -/
  | inserted (id : Id) (term : Nat)
  /-- The claim was read back alone; `fresh` if no fenced statement was sent since. -/
  | held (id : Id) (term : Nat) (fresh : Bool)
  /-- A fenced statement was sent. -/
  | fencing (id : Id) (term : Nat)
  /-- The tombstone was sent. -/
  | releasing (id : Id) (term : Nat)

structure LeaseView where
  fresh : List Id := []
  seen : Option Seen := none
  phase : Phase := .vacant
  confirmed : List (Nat × Id) := []

namespace LeaseView

variable (v : LeaseView)

/-- The writer's own lease: one it drew and never used, or the one it holds. -/
def Mine (id : Id) : Prop := id ∈ v.fresh ∨ ∃ term fresh, v.phase = .held id term fresh

def Allowed : Write → Prop
  | .claimLease term id _ =>
    v.Mine id ∧ ∃ s, v.seen = some s ∧ term = s.term + 1 ∧ s.Free id
  | .releaseLease term id _ => ∃ fresh, v.phase = .held id term fresh
  | .manifest _ _ _ id => ∃ term, v.phase = .held id term true
  | .watermark _ id => ∃ term, v.phase = .held id term true
  | _ => True

def fence : LeaseView :=
  match v.phase with
  | .held id term _ => { v with phase := .fencing id term }
  | _ => v

def start : Act → LeaseView
  | .write (.claimLease term id _) =>
    { v with phase := .inserting id term, fresh := v.fresh.filter (· ≠ id) }
  | .write (.releaseLease term id _) => { v with phase := .releasing id term }
  | .write (.manifest ..) => v.fence
  | .write (.watermark ..) => v.fence
  | _ => v

/-- The read-back of a claim. The head read before it is of no use for the next claim. -/
def readBack (term : Nat) (rows : List LeaseClaim) : LeaseView :=
  match v.phase with
  | .inserted id t =>
    if t = term ∧ rows ≠ [] ∧ ∀ r ∈ rows, r.leaseId = id then
      { v with phase := .held id t true, confirmed := (t, id) :: v.confirmed, seen := none }
    else { v with phase := .vacant }
  | _ => v

/-- A statement of the lease was answered. -/
def acknowledge (ok : Bool) : LeaseView :=
  match v.phase, ok with
  | .inserting id term, true => { v with phase := .inserted id term }
  | .inserting .., false => { v with phase := .vacant }
  | .fencing id term, true => { v with phase := .held id term false }
  | .fencing .., false => { v with phase := .vacant }
  | .releasing .., true => { v with phase := .vacant }
  | .releasing id term, false => { v with phase := .held id term false }
  | _, _ => v

def finish : (a : Act) → a.Res → LeaseView
  | .uuid, id => { v with fresh := id :: v.fresh }
  | .read .leaseHead, rows => { v with seen := (rows : Option (List HeadRow)).map Seen.ofRows }
  | .read (.leaseClaims term), rows => v.readBack term ((rows : Option (List LeaseClaim)).getD [])
  | .write (.claimLease ..), ok => v.acknowledge ok
  | .write (.releaseLease ..), ok => v.acknowledge ok
  | .write (.manifest ..), ok => v.acknowledge ok
  | .write (.watermark ..), ok => v.acknowledge ok
  | _, _ => v

end LeaseView

/-! ### Publishes -/

/-- One attempt to publish, with the members that were read back. -/
structure Attempt where
  version : Nat
  publishId : Id
  members : List PackIdentity

inductive PublishStage where
  | none
  /-- Every chunk that was written was also read back. -/
  | opened (a : Attempt)
  | writing (a : Attempt) (chunk : List PackIdentity)
  | written (a : Attempt) (chunk : List PackIdentity)
  | announcing (a : Attempt)
  | announced (a : Attempt)

structure PublishView where
  fresh : List Id := []
  stage : PublishStage := .none
  visible : List PackIdentity := []

namespace PublishView

variable (v : PublishView)

/-- A publish that may go on: every chunk so far was read back, or it is a new one. -/
def Publishing (a : Attempt) : Prop :=
  v.stage = .opened a ∨ v.stage = .none ∧ a.members = [] ∧ a.publishId ∈ v.fresh

/-- The attempt that a statement of publish `(version, publishId)` belongs to. -/
def attempt (version : Nat) (publishId : Id) : Attempt :=
  match v.stage with
  | .opened a => a
  | _ => ⟨version, publishId, []⟩

theorem attempt_eq {v : PublishView} {a : Attempt} (h : v.Publishing a) :
    v.attempt a.version a.publishId = a := by
  rcases h with h | ⟨h, hnil, -⟩
  · simp only [attempt, h]
  · simp only [attempt, h, ← hnil]

def Allowed : Write → Prop
  | .manifest version publishId _ _ => ∃ members, v.Publishing ⟨version, publishId, members⟩
  | .watermark row _ => ∃ members, v.Publishing ⟨row.indexVersion, row.publishId, members⟩
  | .inventory refs _ => ∀ ref ∈ refs, identity ref ∈ v.visible
  | _ => True

def start : Act → PublishView
  | .write (.manifest version publishId members _) =>
    { v with
      stage := .writing (v.attempt version publishId) members
      fresh := v.fresh.filter (· ≠ publishId) }
  | .write (.watermark row _) =>
    { v with
      stage := .announcing (v.attempt row.indexVersion row.publishId)
      fresh := v.fresh.filter (· ≠ row.publishId) }
  | _ => v

def acknowledge (ok : Bool) : PublishView :=
  match v.stage, ok with
  | .writing a chunk, true => { v with stage := .written a chunk }
  | .announcing a, true => { v with stage := .announced a }
  | _, _ => { v with stage := .none }

/-- The read-back of a chunk: the count of its distinct members that are there. -/
def readChunk (version : Nat) (publishId : Id) (members : List PackIdentity)
    (count : Option Nat) : PublishView :=
  match v.stage with
  | .written a chunk =>
    if a.version = version ∧ a.publishId = publishId ∧ chunk = members ∧
        count = some members.dedup.length then
      { v with stage := .opened { a with members := a.members ++ members } }
    else { v with stage := .none }
  | _ => v

/-- The read-back of the watermark. -/
def readOwners (version : Nat) (owners : List Id) : PublishView :=
  match v.stage with
  | .announced a =>
    if a.version = version ∧ a.publishId ∈ owners then
      { v with stage := .none, visible := v.visible ++ a.members }
    else { v with stage := .none }
  | _ => v

/-- The packs found in the inventory. -/
def readCommitted (rows : List PackIdentity) : PublishView :=
  { v with visible := v.visible ++ rows }

def finish : (a : Act) → a.Res → PublishView
  | .uuid, id => { v with fresh := id :: v.fresh, stage := .none }
  | .write (.manifest ..), ok => v.acknowledge ok
  | .write (.watermark ..), ok => v.acknowledge ok
  | .read (.manifestCount version publishId (some members)), count =>
    v.readChunk version publishId members count
  | .read (.watermarkOwners version), owners =>
    v.readOwners version ((owners : Option (List Id)).getD [])
  | .read (.committed _), rows =>
    v.readCommitted ((rows : Option (List PackIdentity)).getD [])
  | _, _ => v

end PublishView

/-! ### Garbage collection -/

structure CollectView where
  published : Nat := 0
  headTerm : Nat := 0
  orphans : List (Nat × Id) := []

namespace CollectView

variable (v : CollectView)

def Allowed : Write → Prop
  | .deleteManifest pairs => ∀ p ∈ pairs, p ∈ v.orphans
  | .deleteLeases term => term ≤ v.headTerm
  | .deleteClaims published => published ≤ v.published
  | _ => True

def finish : (a : Act) → a.Res → CollectView
  | .read .maxWatermark, some published => { v with published := max v.published published }
  | .read .leaseHead, some rows =>
    { v with headTerm := max v.headTerm (LeaseHead.ofRows rows).term }
  | .read (.orphans published), some pairs =>
    if published ≤ v.published then { v with orphans := pairs } else v
  | _, _ => v

end CollectView

/-! ### The protocol -/

/-- What the protocol knows of one writer; `claimIds` are ids it drew and never claimed
with. -/
structure Agent where
  lease : LeaseView := {}
  publish : PublishView := {}
  collect : CollectView := {}
  call : Call Unit := .idle
  claimIds : List Id := []

namespace Agent

variable (a : Agent)

/-- A claim of a version is above the floor and has a fresh id; a version is returned after
its claim was read back alone. -/
def CallAllowed : Act → Prop
  | .write (.claimVersion row) =>
    (∃ floor, a.call = .floor () floor ∧ floor < row.version) ∧ row.claimId ∈ a.claimIds
  | .allocated version => ∃ claimId, a.call = .sole () version claimId
  | _ => True

def Allowed : Act → Prop
  | .write stmt =>
    a.lease.Allowed stmt ∧ a.publish.Allowed stmt ∧ a.collect.Allowed stmt ∧
      a.CallAllowed (.write stmt)
  | .skipping identities => ∀ m ∈ identities, m ∈ a.publish.visible
  | act => a.CallAllowed act

def start (act : Act) : Agent :=
  { a with
    lease := a.lease.start act
    publish := a.publish.start act
    call := a.call.issue act
    claimIds := match act with
      | .write (.claimVersion row) => a.claimIds.filter (· ≠ row.claimId)
      | _ => a.claimIds }

def finish (act : Act) (r : act.Res) : Agent :=
  { lease := a.lease.finish act r
    publish := a.publish.finish act r
    collect := a.collect.finish act r
    call := a.call.complete () act r
    claimIds := match act, r with
      | .uuid, id => id :: a.claimIds
      | _, _ => a.claimIds }

/-- A new process starts from what its writer object holds: nothing. -/
def reset : Agent :=
  { a with
    lease := { a.lease with phase := .vacant, seen := none }
    publish := { a.publish with stage := .none }
    collect := {}
    call := .idle }

end Agent

/-- The lease a writer object holds is one its agent holds, at the same term. -/
def Local.Fits (l : Local) (a : Agent) : Prop :=
  ∀ lease, l.lease = some lease → ∃ fresh, a.lease.phase = .held lease.leaseId lease.term fresh

theorem PublishView.visible_start (v : PublishView) (act : Act) :
    (v.start act).visible = v.visible := by
  unfold start
  split <;> rfl

theorem PublishView.visible_finish (v : PublishView) (act : Act) (r : act.Res) :
    ∀ m ∈ v.visible, m ∈ (v.finish act r).visible := by
  intro m hm
  unfold finish
  split
  · exact hm
  · unfold acknowledge
    split <;> exact hm
  · unfold acknowledge
    split <;> exact hm
  · unfold readChunk
    split
    · split <;> exact hm
    · exact hm
  · unfold readOwners
    split
    · split
      · exact List.mem_append_left _ hm
      · exact hm
    · exact hm
  · exact List.mem_append_left _ hm
  · exact hm

/-- The writers' protocol. While the lock is free another thread may do anything, but what
was visible stays visible. -/
def protocol : Proc.Protocol Act Act.Res Local Agent where
  init := {}
  allowed := Agent.Allowed
  start := Agent.start
  finish := Agent.finish
  reset := Agent.reset
  fits := Local.Fits
  later a a' := ∀ m ∈ a.publish.visible, m ∈ a'.publish.visible
  later_refl _ _ hm := hm
  later_trans h h' m hm := h' m (h m hm)
  later_start a act m hm := by
    show m ∈ (a.publish.start act).visible
    rw [PublishView.visible_start]
    exact hm
  later_finish a act r m hm := PublishView.visible_finish a.publish act r m hm

end Dmi.Catalog
