import Dmi.Catalog.Methods
import Dmi.Catalog.Tables

/-!
# What one move can do

The moves of the protocol, case by case and once for all: a statement is sent, an act is
answered, the server moves on its own, or a process dies. Every invariant of the catalog is
proved from `Change`, or from `Turn` if it is about what calls returned, and none of those
proofs looks at the machine again.
-/

namespace Dmi.Catalog

open Function

variable {n : Nat}

/-- What an act may be answered with, and the server after it. -/
inductive Answered (s : Server n) (c : Nat) : (a : Act) → a.Res → Server n → Prop
  | read (q : Query) (host : Fin n) :
    Answered s c (.read q) (some (q.eval s.db (s.clock host))) s
  | readFails (q : Query) : Answered s c (.read q) none s
  | reply (stmt : Write) (h : s.settled (s.current c) = true) : Answered s c (.write stmt) true s
  | raises (stmt : Write) : Answered s c (.write stmt) false s
  | uuid (x : Id) (h : s.drawnBy x = none) :
    Answered s c .uuid x { s with drawnBy := update s.drawnBy x (some c) }
  | randbelow (bound : Nat) (x : Nat) : Answered s c (.randbelow bound) x s
  | monotonic (t : Int) : Answered s c .monotonic t s
  | timeNs (t : Int) : Answered s c .timeNs t s
  | sleep (ns : Nat) : Answered s c (.sleep ns) () s
  | allocating : Answered s c .allocating () s
  | allocated (version : Nat) : Answered s c (.allocated version) () s
  | skipping (identities : List PackIdentity) : Answered s c (.skipping identities) () s

/-- What an admitted statement writes, with the test it passed. -/
inductive Admits (cfg : Config) (db : Db) (now : Int) : Write → Effect → Prop
  | claimLease (term : Nat) (id : Id) (holder : String) :
    Admits cfg db now (.claimLease term id holder)
      (.lease ⟨term, id, holder, now, now + cfg.leaseTtlNs⟩)
  | releaseLease (term : Nat) (id : Id) (holder : String) :
    Admits cfg db now (.releaseLease term id holder) (.lease ⟨term, id, holder, now, now⟩)
  | manifest (version : Nat) (publishId : Id) (members : List PackIdentity) (id : Id)
      (hfence : fence cfg db now id = true) :
    Admits cfg db now (.manifest version publishId members id)
      (.manifest (members.map fun m => ⟨version, publishId, m⟩))
  | watermark (row : WatermarkRow) (id : Id) (hbarrier : db.published < row.indexVersion)
      (hfence : fence cfg db now id = true) :
    Admits cfg db now (.watermark row id) (.watermark row)
  | claimVersion (row : ClaimRow) : Admits cfg db now (.claimVersion row) (.claim row)
  | captures (rows : List Dmi.Capture.CaptureDescriptor) (version : Nat) :
    Admits cfg db now (.captures rows version) (.captures (rows.map fun d => (d, version)))
  | inventory (refs : List Dmi.Capture.PackRef) (version : Nat) :
    Admits cfg db now (.inventory refs version) (.inventory (refs.map fun r => (r, version)))
  | deleteManifest (pairs : List (Nat × Id)) :
    Admits cfg db now (.deleteManifest pairs) (.deleteManifest pairs)
  | deleteLeases (term : Nat) : Admits cfg db now (.deleteLeases term) (.deleteLeases term)
  | deleteClaims (published : Nat) :
    Admits cfg db now (.deleteClaims published) (.deleteClaims published)

variable {cfg : Config}

theorem admits_of_accept {db : Db} {now : Int} {stmt : Write} {effect : Effect}
    (h : stmt.accept cfg db now = some effect) : Admits cfg db now stmt effect := by
  cases stmt with (simp only [Write.accept] at h; try split at h) <;> cases h
  | manifest version publishId members id =>
    next hfence => exact .manifest version publishId members id hfence
  | watermark row id => next hwhere => exact .watermark row id hwhere.1 hwhere.2
  | _ => constructor

/-- What the server does on its own. -/
inductive Evolves (cfg : Config) (s : Server n) : Server n → Prop
  | tick (clock : Fin n → Int) (hle : ∀ h, s.clock h ≤ clock h)
      (hskew : ∀ h h', clock h ≤ clock h' + cfg.clockSkewNs) : Evolves cfg s { s with clock }
  | accept (sid : Nat) (host : Fin n) (writer : Nat) (stmt : Write) (effect : Effect)
      (hf : s.flights sid = some ⟨writer, stmt, .sent⟩)
      (he : Admits cfg s.db (s.clock host) stmt effect) :
      Evolves cfg s { s with
        flights := update s.flights sid
          (some ⟨writer, stmt, .admitted host (s.clock host) effect⟩) }
  | refuse (sid : Nat) : Evolves cfg s (s.drop sid)
  | land (sid : Nat) (writer : Nat) (stmt : Write) (host : Fin n) (at_ : Int) (effect : Effect)
      (hf : s.flights sid = some ⟨writer, stmt, .admitted host at_ effect⟩)
      (hmay : s.mayLand cfg stmt host at_ = true) :
      Evolves cfg s { s.drop sid with db := effect.apply s.db }
  | abort (sid : Nat) :
      Evolves cfg s { s.drop sid with aborted := update s.aborted sid true }

theorem answered_of_answer {w : World n} {c : Nat} {a : Act} {choice : Choice n} {r : a.Res}
    {s' : Server n} (h : w.answer c a choice = some (r, s')) : Answered w.server c a r s' := by
  unfold World.answer at h
  repeat' (split at h <;> try cases h)
  · exact .read _ _
  · exact .readFails _
  · exact .reply _ ‹_›
  · exact .raises _
  · next hfresh => exact .uuid _ (Option.not_isSome_iff_eq_none.mp hfresh)
  · exact .randbelow _ _
  · exact .monotonic _
  · exact .timeNs _
  · exact .sleep _
  · exact .allocating
  · exact .allocated _
  · exact .skipping _

theorem evolves_of_evolve {s s' : Server n} {e : Event n}
    (h : s.evolve cfg e = some s') : Evolves cfg s s' := by
  cases e with (simp only [Server.evolve] at h; repeat' (split at h <;> try cases h))
  | tick clock => next hc => exact .tick clock hc.1 hc.2
  | accept sid host =>
    -- admitted, or dropped
    first
    | exact .refuse sid
    | next hf _ effect he => exact .accept sid host _ _ effect hf (admits_of_accept he)
  | land sid => next hf hmay => exact .land sid _ _ _ _ _ hf hmay
  | abort sid => exact .abort sid

/-- One move, as far as the server, the agents and the pending acts are concerned. -/
inductive Change (cfg : Config) (s : Server n) (ag : Nat → Agent) (p : Nat → Option Act) :
    Server n → (Nat → Agent) → (Nat → Option Act) → Prop
  | submit (c : Nat) (stmt : Write) (hidle : p c = none)
      (hallowed : (ag c).Allowed (.write stmt)) :
      Change cfg s ag p (s.submit c stmt) (update ag c ((ag c).start (.write stmt)))
        (update p c (some (.write stmt)))
  | ask (c : Nat) (a : Act) (hidle : p c = none) (hallowed : (ag c).Allowed a)
      (ha : ∀ stmt, a ≠ .write stmt) : Change cfg s ag p s ag (update p c (some a))
  | answer (c : Nat) (a : Act) (r : a.Res) (s' : Server n) (hpending : p c = some a)
      (h : Answered s c a r s') :
      Change cfg s ag p s' (update ag c ((ag c).finish a r)) (update p c none)
  | evolve (s' : Server n) (h : Evolves cfg s s') : Change cfg s ag p s' ag p
  | crash (c : Nat) : Change cfg s ag p s (update ag c (ag c).reset) (update p c none)

/-- One move, with what the calls of `allocate_version` and `index` did. -/
inductive Turn (cfg : Config) (G : World n → Event n → Prop) (w : World n) (ag : Nat → Agent)
    (p : Nat → Option Act) : World n → (Nat → Agent) → (Nat → Option Act) → Prop
  | issue (c : Nat) (a : Act) (hidle : p c = none) (hallowed : (ag c).Allowed a) :
      Turn cfg G w ag p (w.issue c a) (update ag c ((ag c).start a)) (update p c (some a))
  | answer (c : Nat) (a : Act) (r : a.Res) (s' : Server n) (hpending : p c = some a)
      (h : Answered w.server c a r s') :
      Turn cfg G w ag p
        { server := s', call := update w.call c ((w.call c).complete w.begin_ a r)
          returned := w.record c a, skipped := w.skips a }
        (update ag c ((ag c).finish a r)) (update p c none)
  | evolve (e : Event n) (s' : Server n) (hG : G w e) (h : w.server.evolve cfg e = some s') :
      Turn cfg G w ag p { w with server := s' } ag p
  | crash (c : Nat) : Turn cfg G w ag p (w.crash c) (update ag c (ag c).reset) (update p c none)

/-- A configuration of the protocol for the writers of a cluster. -/
abbrev Conf (cl : Cluster) := Proc.Conf (World cl.hosts) Agent Act

abbrev Move (cl : Cluster) (G : World cl.hosts → Event cl.hosts → Prop) :
    Conf cl → Conf cl → Prop :=
  Proc.Move (machine cl) protocol G

theorem Move.turn {cl : Cluster} {G : World cl.hosts → Event cl.hosts → Prop} {g g' : Conf cl}
    (h : Move cl G g g') :
    Turn cl.toConfig G g.world g.agent g.pending g'.world g'.agent g'.pending := by
  cases h with
  | issue c a w hidle hallowed hw =>
    obtain rfl : g.world.issue c a = w := Option.some.inj hw
    exact .issue c a hidle hallowed
  | complete c a choice r w hpending hw =>
    obtain ⟨⟨r', s'⟩, hx, heq⟩ := Option.map_eq_some_iff.mp hw
    obtain ⟨rfl, rfl⟩ := Prod.mk.inj heq
    exact .answer c a r' s' hpending (answered_of_answer hx)
  | evolve e w hG hw =>
    obtain ⟨s', hs', rfl⟩ := Option.map_eq_some_iff.mp hw
    exact .evolve e s' hG hs'
  | crash c => exact .crash c

theorem Agent.start_of_not_write (a : Agent) {act : Act} (h : ∀ stmt, act ≠ .write stmt) :
    a.start act = a := by
  cases act with
  | write stmt => exact absurd rfl (h stmt)
  | _ => rfl

theorem Turn.change {G : World n → Event n → Prop} {w w' : World n} {ag ag' : Nat → Agent}
    {p p' : Nat → Option Act} (h : Turn cfg G w ag p w' ag' p') :
    Change cfg w.server ag p w'.server ag' p' := by
  cases h with
  | issue c a hidle hallowed =>
    by_cases ha : ∃ stmt, a = .write stmt
    · obtain ⟨stmt, rfl⟩ := ha
      exact .submit c stmt hidle hallowed
    · have ha' : ∀ stmt, a ≠ .write stmt := fun stmt h => ha ⟨stmt, h⟩
      have hserver : (w.issue c a).server = w.server := by
        cases a with
        | write stmt => exact absurd rfl (ha' stmt)
        | _ => rfl
      rw [hserver, Agent.start_of_not_write _ ha', update_eq_self]
      exact .ask c a hidle hallowed ha'
  | answer c a r s' hpending hr => exact .answer c a r s' hpending hr
  | evolve e s' hG hs => exact .evolve s' (evolves_of_evolve hs)
  | crash c => exact .crash c

/-- **Every move is one of these changes.** -/
theorem Move.change {cl : Cluster} {G : World cl.hosts → Event cl.hosts → Prop} {g g' : Conf cl}
    (h : Move cl G g g') :
    Change cl.toConfig g.world.server g.agent g.pending g'.world.server g'.agent g'.pending :=
  (Move.turn h).change

end Dmi.Catalog
