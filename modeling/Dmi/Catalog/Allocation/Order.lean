import Dmi.Catalog.Publish.Membership

/-!
# Versions are allocated above everything that was there before

A version that a call returned is secured: its claim row stands, or the published head has
reached it. Garbage collection deletes claim rows, but only at or below the head, so it moves
a secured version from one table to the other and never loses it. A call reads the claims
first and the head second. Whatever was secured when the call began is below one of the two
numbers it read, wherever the collection runs in between (`Calls`).
-/

namespace Dmi.Catalog

open Function List Call

variable {n : Nat} {cfg : Config} {s s' : Server n} {ag ag' : Nat → Agent}
variable {p p' : Nat → Option Act} {db db' : Db}

/-! ### Secured versions -/

/-- The version is claimed, or the published head has reached it. -/
def Db.Secured (db : Db) (version : Nat) : Prop :=
  (∃ r ∈ db.claims, r.version = version) ∨ version ≤ db.published

theorem Db.Secured.le {version : Nat} (h : db.Secured version) :
    version ≤ db.claimed ∨ version ≤ db.published := by
  refine h.imp_left ?_
  rintro ⟨r, hr, rfl⟩
  exact le_maxOf hr

/-- What a step may do to the claims: it deletes none above the head. -/
structure ClaimsKept (db db' : Db) : Prop where
  published_le : db.published ≤ db'.published
  claims : ∀ r ∈ db.claims, r ∈ db'.claims ∨ r.version ≤ db.published

theorem PublishInv.claimsKept (h : PublishInv cfg s ag p) (hc : Change cfg s ag p s' ag' p') :
    ClaimsKept s.db s'.db := by
  refine ⟨(h.grows hc).watermarks.published_le, fun r hr => ?_⟩
  cases hc with
  | answer c a r s' hpending hr =>
    obtain ⟨drawnBy, rfl⟩ := hr.server
    exact .inl ‹_›
  | submit | ask | crash => exact .inl hr
  | evolve s' hs =>
    cases hs with
    | tick | accept | refuse | abort => exact .inl hr
    | land sid writer stmt host at_ effect hf hmay =>
      obtain ⟨db, hadmits⟩ := h.lease.traffic.admits hf
      cases hadmits with
      | claimVersion => exact .inl (mem_append_left _ hr)
      | deleteClaims published =>
        by_cases hle : r.version ≤ published
        · exact .inr (Nat.le_trans hle (h.bounds.claims ⟨_, hf⟩))
        · exact .inl (mem_filter.mpr ⟨hr, decide_eq_true hle⟩)
      | _ => exact .inl hr

theorem Db.Secured.kept {version : Nat} (h : db.Secured version) (hdb : ClaimsKept db db') :
    db'.Secured version := by
  rcases h with ⟨r, hr, rfl⟩ | hle
  · rcases hdb.claims r hr with hr | hle
    · exact .inl ⟨r, hr, rfl⟩
    · exact .inr (Nat.le_trans hle hdb.published_le)
  · exact .inr (Nat.le_trans hle hdb.published_le)

/-! ### Calls -/

/-- Everything that was there when the call began is below `version`. -/
def Begin.Below (b : Begin) (version : Nat) : Prop :=
  (∀ v ∈ b.returned, v < version) ∧ b.published < version

def Begin.Secured (b : Begin) (db : Db) : Prop :=
  (∀ v ∈ b.returned, db.Secured v) ∧ b.published ≤ db.published

/-- What a call has read leaves nothing of its beginning above it. -/
def Call.Floors (db : Db) : Call Begin → Prop
  | .claimFloor b highest => ∀ v ∈ b.returned, v ≤ highest ∨ v ≤ db.published
  | .floor b f => b.Below (f + 1)
  | .claiming b version _ => b.Below version
  | .claimed b version _ => b.Below version
  | .sole b version _ => b.Below version ∧ db.Secured version
  | _ => True

theorem Begin.Below.mono {b : Begin} {v v' : Nat} (h : b.Below v) (hle : v ≤ v') : b.Below v' :=
  ⟨fun x hx => Nat.lt_of_lt_of_le (h.1 x hx) hle, Nat.lt_of_lt_of_le h.2 hle⟩

theorem Begin.Secured.kept {b : Begin} (h : b.Secured db) (hdb : ClaimsKept db db') :
    b.Secured db' :=
  ⟨fun v hv => (h.1 v hv).kept hdb, Nat.le_trans h.2 hdb.published_le⟩

theorem Call.Floors.kept {call : Call Begin} (h : call.Floors db) (hdb : ClaimsKept db db') :
    call.Floors db' := by
  cases call with
  | claimFloor b highest =>
    exact fun v hv => (h v hv).imp_right fun hle => Nat.le_trans hle hdb.published_le
  | sole b version claimId => exact ⟨h.1, h.2.kept hdb⟩
  | _ => exact h

/-- A call without what is remembered of its beginning. -/
def Call.forget {β : Type} : Call β → Call Unit
  | .idle => .idle
  | .begun _ => .begun ()
  | .claimFloor _ highest => .claimFloor () highest
  | .floor _ f => .floor () f
  | .claiming _ version claimId => .claiming () version claimId
  | .claimed _ version claimId => .claimed () version claimId
  | .sole _ version claimId => .sole () version claimId

variable {β : Type} (call : Call β)

theorem Call.forget_issue (a : Act) : (call.issue a).forget = call.forget.issue a := by
  unfold issue
  split
  · cases call <;> rfl
  · rfl

theorem Call.forget_readPublished (published : Option Nat) :
    (call.readPublished published).forget = call.forget.readPublished published := by
  cases call <;> cases published <;> rfl

theorem Call.forget_acknowledge (ok : Bool) :
    (call.acknowledge ok).forget = call.forget.acknowledge ok := by
  cases call <;> cases ok <;> rfl

theorem Call.forget_readBack (version : Nat) (owners : Option (List Id)) :
    (call.readBack version owners).forget = call.forget.readBack version owners := by
  cases call with
  | claimed b v claimId =>
    cases owners with
    | none => rfl
    | some owners => exact apply_ite forget _ _ _
  | _ => rfl

theorem Call.forget_complete (b : β) (a : Act) (r : a.Res) :
    (call.complete b a r).forget = call.forget.complete () a r := by
  unfold complete
  split
  · rfl
  · rfl
  · rename_i highest
    cases (highest : Option Nat) with
    | none => rfl
    | some m => cases call <;> rfl
  · exact call.forget_readPublished _
  · exact call.forget_readBack _ _
  · exact call.forget_acknowledge _
  · rfl

/-! ### What happens to a call -/

/-- What an answer does to a call. -/
inductive CallStep (db : Db) (now : Begin) (call : Call Begin) : Call Begin → Prop
  | same : CallStep db now call call
  | stop : CallStep db now call .idle
  | start : CallStep db now call (.begun now)
  | claims (b : Begin) (h : b ∈ call.begin?) : CallStep db now call (.claimFloor b db.claimed)
  | head (b : Begin) (highest : Nat) (h : call = .claimFloor b highest) :
    CallStep db now call (.floor b (max highest db.published))
  | acknowledged (b : Begin) (v : Nat) (x : Id) (h : call = .claiming b v x) :
    CallStep db now call (.claimed b v x)
  | contested (b : Begin) (v : Nat) (x : Id) (h : call = .claimed b v x) :
    CallStep db now call (.begun b)
  | alone (b : Begin) (v : Nat) (x : Id) (h : call = .claimed b v x)
      (hrow : ∃ r ∈ db.claims, r.version = v ∧ r.claimId = x)
      (honly : ∀ r ∈ db.claims, r.version = v → r.claimId = x) :
    CallStep db now call (.sole b v x)

theorem Call.readBack_step {now : Begin} {b : Begin} {v version : Nat} {x : Id} {owners : List Id}
    (howners : owners = (db.claims.filter (·.version = version)).map (·.claimId)) :
    CallStep db now (.claimed b v x) ((claimed b v x).readBack version (some owners)) := by
  by_cases hsole : version = v ∧ owners ≠ [] ∧ ∀ owner ∈ owners, owner = x
  · rw [show (claimed b v x).readBack version (some owners) = .sole b v x from if_pos hsole]
    obtain ⟨rfl, hne, hall⟩ := hsole
    have honly : ∀ r ∈ db.claims, r.version = version → r.claimId = x := by
      intro r hr hv
      refine hall _ ?_
      rw [howners]
      exact mem_map_of_mem (mem_filter.mpr ⟨hr, decide_eq_true hv⟩)
    obtain ⟨owner, howner⟩ := exists_mem_of_ne_nil _ hne
    rw [howners] at howner
    obtain ⟨r, hr, -⟩ := mem_map.mp howner
    obtain ⟨hmem, hv⟩ := mem_filter.mp hr
    have hv := of_decide_eq_true hv
    exact .alone b version x rfl ⟨r, hmem, hv, honly r hmem hv⟩ honly
  · rw [show (claimed b v x).readBack version (some owners) = .begun b from if_neg hsole]
    exact .contested b v x rfl

theorem Answered.callStep {c : Nat} {a : Act} {r : a.Res} (hr : Answered s c a r s')
    (now : Begin) (call : Call Begin) : CallStep s.db now call (call.complete now a r) := by
  cases hr with
  | allocating => exact .start
  | allocated => exact .stop
  | read q host =>
    cases q with
    | maxClaim =>
      cases hb : call.begin? with
      | none =>
        have heq : call.complete now (.read .maxClaim) (some s.db.claimed) = .idle := by
          simp only [complete, hb]
          rfl
        exact heq ▸ .stop
      | some b =>
        have heq : call.complete now (.read .maxClaim) (some s.db.claimed)
            = .claimFloor b s.db.claimed := by
          simp only [complete, hb]
          rfl
        exact heq ▸ .claims b hb
    | maxWatermark =>
      cases call with
      | claimFloor b highest => exact .head b highest rfl
      | _ => exact .same
    | claimOwners version =>
      cases call with
      | claimed b v x => exact readBack_step rfl
      | _ => exact .stop
    | _ => exact .same
  | readFails q =>
    cases q with
    | maxClaim => exact .stop
    | maxWatermark =>
      cases call with
      | claimFloor => exact .stop
      | _ => exact .same
    | claimOwners version => cases call <;> exact .stop
    | _ => exact .same
  | reply stmt =>
    cases stmt with
    | claimVersion row =>
      cases call with
      | claiming b v x => exact .acknowledged b v x rfl
      | _ => exact .stop
    | _ => exact .same
  | raises stmt =>
    cases stmt with
    | claimVersion row => cases call <;> exact .stop
    | _ => exact .same
  | _ => exact .same

/-- What sending a statement does to a call: nothing, or it claims a version above its floor. -/
theorem Call.issue_cases {call : Call Begin} {agent : Agent} (hforget : agent.call = call.forget)
    {a : Act} (hallowed : agent.Allowed a) :
    call.issue a = call ∨ ∃ b f row, (a = .write (.claimVersion row) ∧ call = .floor b f) ∧
      f < row.version ∧ call.issue a = .claiming b row.version row.claimId := by
  by_cases ha : ∃ row, a = .write (.claimVersion row)
  · obtain ⟨row, rfl⟩ := ha
    obtain ⟨⟨f, hcall, hlt⟩, -⟩ := hallowed.2.2.2
    cases call with
    | floor b f' =>
      cases hforget.symm.trans hcall
      exact .inr ⟨b, f, row, ⟨rfl, rfl⟩, hlt, rfl⟩
    | _ => cases hforget.symm.trans hcall
  · unfold issue
    split
    · exact absurd ⟨_, rfl⟩ ha
    · exact .inl rfl

theorem Call.sole_of_allowed {call : Call Begin} {agent : Agent}
    (hforget : agent.call = call.forget) {version : Nat}
    (hallowed : agent.Allowed (.allocated version)) : ∃ b x, call = .sole b version x := by
  obtain ⟨x, hcall⟩ := hallowed
  cases call with
  | sole b v y =>
    cases hforget.symm.trans hcall
    exact ⟨b, x, rfl⟩
  | _ => cases hforget.symm.trans hcall

/-! ### The invariant -/

structure Calls (w : World n) (ag : Nat → Agent) (p : Nat → Option Act) : Prop where
  forget : ∀ c, (ag c).call = (w.call c).forget
  secured : ∀ c, ∀ b ∈ (w.call c).begin?, b.Secured w.server.db
  floors : ∀ c, (w.call c).Floors w.server.db
  returning : ∀ {c version}, p c = some (.allocated version) →
    ∃ b x, w.call c = .sole b version x
  returned : ∀ r ∈ w.returned, r.begun.Below r.version ∧ w.server.db.Secured r.version

theorem CallStep.floors {now : Begin} {call call' : Call Begin} (h : CallStep db now call call')
    (hnow : now.Secured db) (hsecured : ∀ b ∈ call.begin?, b.Secured db)
    (hfloors : call.Floors db) : (∀ b ∈ call'.begin?, b.Secured db) ∧ call'.Floors db := by
  cases h with
  | same => exact ⟨hsecured, hfloors⟩
  | stop => exact ⟨nofun, trivial⟩
  | start =>
    refine ⟨fun b hb => ?_, trivial⟩
    cases hb
    exact hnow
  | claims b hb =>
    refine ⟨fun b' hb' => ?_, fun v hv => ((hsecured b hb).1 v hv).le⟩
    cases hb'
    exact hsecured b hb
  | head b highest heq =>
    subst heq
    refine ⟨hsecured, fun v hv => Nat.lt_succ_of_le (le_max_iff.mpr (hfloors v hv)), ?_⟩
    exact Nat.lt_succ_of_le (Nat.le_trans (hsecured b rfl).2 (Nat.le_max_right _ _))
  | acknowledged b v x heq =>
    subst heq
    exact ⟨hsecured, hfloors⟩
  | contested b v x heq =>
    subst heq
    exact ⟨hsecured, trivial⟩
  | alone b v x heq hrow honly =>
    subst heq
    obtain ⟨r, hr, hv, -⟩ := hrow
    exact ⟨hsecured, hfloors, .inl ⟨r, hr, hv⟩⟩

variable {w : World n}

section

variable (h : Calls w ag p)
include h

theorem Calls.view {c : Nat} {a : Agent} {call : Call Begin} {q : Option Act}
    {server : Server n} {skipped : List PackIdentity} (hdb : server.db = w.server.db)
    (hforget : a.call = call.forget) (hsecured : ∀ b ∈ call.begin?, b.Secured w.server.db)
    (hfloors : call.Floors w.server.db)
    (hreturning : ∀ {version}, q = some (.allocated version) → ∃ b x, call = .sole b version x) :
    Calls { server, call := update w.call c call, returned := w.returned, skipped }
      (update ag c a) (update p c q) := by
  refine ⟨fun d => ?_, fun d => ?_, fun d => ?_, fun {d version} hd => ?_, ?_⟩
  · show (update ag c a d).call = (update w.call c call d).forget
    by_cases hdc : d = c
    · subst hdc
      rw [update_self, update_self]
      exact hforget
    · rw [update_of_ne hdc, update_of_ne hdc]
      exact h.forget d
  · rw [hdb]
    exact (forall_update_iff w.call fun _ call => ∀ b ∈ call.begin?, b.Secured w.server.db).mpr
      ⟨hsecured, fun d _ => h.secured d⟩ d
  · rw [hdb]
    exact (forall_update_iff w.call fun _ call => call.Floors w.server.db).mpr
      ⟨hfloors, fun d _ => h.floors d⟩ d
  · show ∃ b x, update w.call c call d = .sole b version x
    by_cases hdc : d = c
    · subst hdc
      rw [update_self] at hd ⊢
      exact hreturning hd
    · rw [update_of_ne hdc] at hd ⊢
      exact h.returning hd
  · rw [hdb]
    exact h.returned

theorem Calls.begin_ : w.begin_.Secured w.server.db := by
  refine ⟨fun v hv => ?_, Nat.le_refl _⟩
  obtain ⟨r, hr, rfl⟩ := mem_map.mp hv
  exact (h.returned r hr).2

theorem Calls.record {c : Nat} {a : Act} (hp : p c = some a) :
    ∀ r ∈ w.record c a, r.begun.Below r.version ∧ w.server.db.Secured r.version := by
  cases a with
  | allocated version =>
    obtain ⟨b, x, hcall⟩ := h.returning hp
    have hfloors := h.floors c
    rw [hcall] at hfloors
    intro r hr
    simp only [World.record, hcall] at hr
    rcases mem_append.mp hr with hr | hr
    · exact h.returned r hr
    · obtain rfl := mem_singleton.mp hr
      exact hfloors
  | _ => exact h.returned

theorem Calls.turn {G : World n → Event n → Prop} {w' : World n}
    (hkept : ClaimsKept w.server.db w'.server.db) (ht : Turn cfg G w ag p w' ag' p') :
    Calls w' ag' p' := by
  cases ht with
  | issue c a hidle hallowed =>
    have hdb : (w.issue c a).server.db = w.server.db := by
      cases a <;> rfl
    refine h.view hdb ?_ ?_ ?_ ?_
    · show (ag c).call.issue a = _
      rw [h.forget c, forget_issue]
    · rcases issue_cases (h.forget c) hallowed with heq | ⟨b, f, row, ⟨-, hcall⟩, -, heq⟩ <;>
        rw [heq]
      · exact h.secured c
      · have hsecured := h.secured c
        rw [hcall] at hsecured
        exact hsecured
    · rcases issue_cases (h.forget c) hallowed with heq | ⟨b, f, row, ⟨-, hcall⟩, hlt, heq⟩ <;>
        rw [heq]
      · exact h.floors c
      · have hfloors := h.floors c
        rw [hcall] at hfloors
        exact hfloors.mono hlt
    · intro version heq
      cases heq
      exact sole_of_allowed (h.forget c) hallowed
  | answer c a r s' hpending hr =>
    obtain ⟨hsecured, hfloors⟩ :=
      (hr.callStep w.begin_ (w.call c)).floors h.begin_ (h.secured c) (h.floors c)
    have hrecord := h.record hpending
    obtain ⟨drawnBy, rfl⟩ := hr.server
    have hforget : ((ag c).finish a r).call = ((w.call c).complete w.begin_ a r).forget := by
      show (ag c).call.complete () a r = _
      rw [h.forget c, forget_complete]
    have hview : Calls
        { server := { w.server with drawnBy }, call := update w.call c _, returned := w.returned
          skipped := w.skips a } (update ag c _) (update p c none) :=
      h.view rfl hforget hsecured hfloors nofun
    exact ⟨hview.forget, hview.secured, hview.floors, hview.returning, hrecord⟩
  | evolve e s' hG hs =>
    exact ⟨h.forget, fun c b hb => (h.secured c b hb).kept hkept,
      fun c => (h.floors c).kept hkept, h.returning,
      fun r hr => ⟨(h.returned r hr).1, (h.returned r hr).2.kept hkept⟩⟩
  | crash c => exact h.view rfl rfl nofun trivial nofun

end

/-! ### Every run -/

/-- What holds of the calls in every reachable state. -/
structure Conf.CallInv {cl : Cluster} (g : Conf cl) : Prop where
  publish : g.PublishInv
  calls : Calls g.world g.agent g.pending

theorem Conf.CallInv.init (cl : Cluster) : Conf.CallInv ((machine cl).conf protocol) where
  publish := PublishInv.init cl
  calls := ⟨fun _ => rfl, fun _ => nofun, fun _ => trivial, nofun, nofun⟩

theorem Conf.CallInv.move {cl : Cluster} {G : World cl.hosts → Event cl.hosts → Prop}
    {g g' : Conf cl} (h : g.CallInv) (hmove : Move cl G g g') : g'.CallInv where
  publish := h.publish.change (Move.change hmove)
  calls := h.calls.turn (h.publish.claimsKept (Move.change hmove)) (Move.turn hmove)

/-- **A call of `allocate_version` returns a version above every version that was returned, and
above the published head, when it began.** -/
theorem allocation_is_above {cl : Cluster} {s : State cl} (hs : Reachable cl s) :
    ∀ r ∈ s.world.returned,
      (∀ v ∈ r.begun.returned, v < r.version) ∧ r.begun.published < r.version := by
  obtain ⟨g, htracks, hinv⟩ := Proc.reaches_invariant (machine_sound cl) (Conf.CallInv.init cl)
    (fun _ _ hinv hmove => hinv.move hmove) hs
  rw [htracks.world]
  exact fun r hr => (hinv.calls.returned r hr).1

open Schedule in
/-- Version 1 is returned and published, and its claim is collected between the two reads of the
second call. -/
theorem allocation_is_above_collected : ∃ s : State oneHost, Reachable oneHost s ∧
    s.world.returned.map (·.version) = [1, 2] ∧
    ∀ r ∈ s.world.returned,
      (∀ v ∈ r.begun.returned, v < r.version) ∧ r.begun.published < r.version := by
  obtain ⟨s, hs, hreturned⟩ := exists_steps_of_run (machine oneHost).init
    (Q := fun s => s.world.returned.map (·.version) = [1, 2])
    (firstVersion 1 100 ++ [.start 0 .allocateVersion] ++ note 0 ++ ask 0 ++ collect 1 4 ++
      ask 0 ++ claimVersion 0 103 6)
    (by decide +kernel)
  exact ⟨s, hs, hreturned, allocation_is_above hs⟩

end Dmi.Catalog
