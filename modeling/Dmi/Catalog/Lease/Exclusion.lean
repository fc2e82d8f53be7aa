import Dmi.Catalog.Lease.Heads

/-!
# One lease at a time

While a fenced statement may still land, its lease is the one confirmed at the head term, it
expires later than the statement can land on any host, and no claim above the head is on its
way (`Windows`). So the head stays where it is until the statement has landed or cannot land
any more, and no statement of another lease passes the fence meanwhile
(`one_lease_at_a_time`).

`LeaseInv` puts the invariants of the lease together. Every move keeps it.
-/

namespace Dmi.Catalog

open Function Schedule

variable {n : Nat} {cfg : Config} {s s' : Server n} {ag ag' : Nat → Agent}
variable {p p' : Nat → Option Act}

/-- A statement of lease `A` that was admitted at `t` is covered: the head is its own, for
longer than the statement can take. -/
structure Covered (cfg : Config) (s : Server n) (conf : List (Nat × Id)) (t : Int) (A : Id) :
    Prop where
  confirmed : (s.db.headTerm, A) ∈ conf
  row : s.db.HasLease s.db.headTerm A
  expiry : t + cfg.publishTimeoutNs + cfg.clockSkewNs < s.db.expiry s.db.headTerm A
  claim : ∀ {sid c T B h}, s.Sent sid c (.claimLease T B h) → T ≤ s.db.headTerm

structure Windows (cfg : Config) (s : Server n) (ag : Nat → Agent) : Prop where
  skew : ∀ h h', s.clock h ≤ s.clock h' + cfg.clockSkewNs
  covered : ∀ {sid c stmt h t e A}, s.flights sid = some ⟨c, stmt, .admitted h t e⟩ →
    stmt.fencedOn = some A → s.clock h ≤ t + cfg.publishTimeoutNs →
    Covered cfg s (ag c).lease.confirmed t A

/-- What holds of the leases in every reachable state. -/
structure LeaseInv (cfg : Config) (s : Server n) (ag : Nat → Agent) (p : Nat → Option Act) :
    Prop where
  traffic : Traffic cfg s p
  owned : Owned leaseIds s ag
  life : Life s ag p
  heads : Heads s ag
  windows : Windows cfg s ag

variable {A : Id} {t : Int} {c : Nat}

/-- A claim that rests on a head read cannot be above the head while the lease of the head
lasts, unless it is a renewal of that lease. -/
theorem SeenOk.claim_le {sn : Seen} (hsn : SeenOk s.db s.clock (Confirmed ag) sn) {B : Id}
    {host : Fin n} (hskew : ∀ h h', s.clock h ≤ s.clock h' + cfg.clockSkewNs)
    (hconf : (s.db.headTerm, A) ∈ (ag c).lease.confirmed)
    (hexp : t + cfg.publishTimeoutNs + cfg.clockSkewNs < s.db.expiry s.db.headTerm A)
    (hclock : s.clock host ≤ t + cfg.publishTimeoutNs) (hfree : sn.Free B) (hne : B ≠ A) :
    sn.term + 1 ≤ s.db.headTerm := by
  refine Nat.lt_of_le_of_ne hsn.term_le fun heq => ?_
  have hhead := heq.symm
  rw [hhead] at hconf hexp
  obtain ⟨e, hmem⟩ := hsn.confirmed hhead ⟨c, hconf⟩
  rcases hfree with hover | hsole
  · obtain ⟨host', hnow⟩ := hsn.now_le (List.ne_nil_of_mem hmem)
    have hread : s.db.expiry sn.term A ≤ e := (hsn.rows hhead _ hmem).2
    have hexpired := hover _ hmem
    have := hskew host' host
    omega
  · have hfst := List.mem_map_of_mem (f := Prod.fst) hmem
    rw [hsole] at hfst
    exact hne (List.mem_singleton.mp hfst).symm

/-! ### Admission -/

variable {stmt : Write} {sid : Nat}

/-- A fenced statement belongs to the head, if its lease does: its lease has no other row at
or above the term it was confirmed at. -/
theorem LeaseInv.confirmed_head (h : LeaseInv cfg s ag p) (hsent : s.Sent sid c stmt)
    (hA : stmt.fencedOn = some A) (hrow : s.db.HasLease s.db.headTerm A) :
    (s.db.headTerm, A) ∈ (ag c).lease.confirmed ∧ Quiet s s.db.headTerm A := by
  obtain ⟨T, ⟨hconf, hquiet⟩, -⟩ := h.life.fenced hsent hA
  have hT : T = s.db.headTerm :=
    Nat.le_antisymm (h.heads.confirmed ⟨c, hconf⟩).1.2 (hquiet.row hrow)
  subst hT
  exact ⟨hconf, hquiet⟩

theorem LeaseInv.covered_accept (h : LeaseInv cfg s ag p) {host : Fin n} (hsent : s.Sent sid c stmt)
    (hA : stmt.fencedOn = some A) (hfence : fence cfg s.db (s.clock host) A = true) :
    Covered cfg s (ag c).lease.confirmed (s.clock host) A := by
  obtain ⟨hrow, hexp⟩ := fence_eq_true hfence
  obtain ⟨hconf, hquiet⟩ := h.confirmed_head hsent hA hrow
  refine ⟨hconf, hrow, hexp, fun {sid' d T B holder} hclaim => ?_⟩
  obtain ⟨sn, hsn, rfl, hfree⟩ := h.heads.claim hclaim
  have hclock : s.clock host ≤ s.clock host + cfg.publishTimeoutNs := by omega
  refine hsn.claim_le h.windows.skew hconf hexp hclock hfree ?_
  rintro rfl
  exact hquiet.claim hclaim

theorem Admits.fence {db : Db} {now : Int} {e : Effect} (h : Admits cfg db now stmt e)
    (hA : stmt.fencedOn = some A) : Catalog.fence cfg db now A = true := by
  cases h with
  | manifest version publishId members id hfence =>
    cases hA
    exact hfence
  | watermark row id hbarrier hfence =>
    cases hA
    exact hfence
  | _ => cases hA

/-! ### The windows are kept -/

section

variable (h : LeaseInv cfg s ag p) (hs : Evolves cfg s s') (hsent : s.Sent sid c stmt)
  (hA : stmt.fencedOn = some A) (hcov : Covered cfg s (ag c).lease.confirmed t A)
include h hs hsent hA hcov

theorem LeaseInv.rows_evolves :
    s'.db.headTerm = s.db.headTerm ∧
      ∀ r, r.term = s.db.headTerm → r.leaseId = A → (r ∈ s'.db.leases ↔ r ∈ s.db.leases) := by
  have hstep := hs.leasesStep h.traffic h.heads
  obtain ⟨-, hquiet⟩ := h.confirmed_head hsent hA hcov.row
  -- A row that lands belongs to a claim or a tombstone, neither above the head nor of `A` at it.
  have hnew : ∀ r ∈ s'.db.leases, r ∈ s.db.leases ∨
      r.term ≤ s.db.headTerm ∧ ¬ (r.term = s.db.headTerm ∧ r.leaseId = A) := by
    intro r hr
    refine (hs.leaseRow h.traffic hr).imp_right ?_
    rintro ⟨sid', d, holder, hclaim | hrelease⟩
    · refine ⟨hcov.claim hclaim, ?_⟩
      rintro ⟨-, rfl⟩
      exact hquiet.claim hclaim
    · refine ⟨(h.heads.release hrelease).2, ?_⟩
      rintro ⟨hterm, rfl⟩
      exact Nat.ne_of_lt (hquiet.release hrelease) hterm
  refine ⟨Nat.le_antisymm (maxOf_le fun r hr => ?_) hstep.headTerm_le, fun r hT hid => ⟨?_, ?_⟩⟩
  · rcases hnew r hr with hr | hr
    · exact le_maxOf hr
    · exact hr.1
  · intro hr
    exact (hnew r hr).resolve_right fun hr => hr.2 ⟨hT, hid⟩
  · exact fun hr => hstep.mem_of_headTerm_le hr (Nat.le_of_eq hT.symm)

theorem LeaseInv.covered_evolves : Covered cfg s' (ag c).lease.confirmed t A := by
  obtain ⟨hhead, hrows⟩ := h.rows_evolves hs hsent hA hcov
  have hstep := hs.leasesStep h.traffic h.heads
  refine ⟨hhead ▸ hcov.confirmed, ?_, ?_, fun hclaim => ?_⟩
  · rw [hhead]
    exact hstep.hasLease (Nat.le_refl _) hcov.row
  · rw [hhead, Db.expiry_congr hcov.row hrows]
    exact hcov.expiry
  · rw [hhead]
    exact hcov.claim (hs.sent hclaim)

end

theorem LeaseInv.windows_evolves (h : LeaseInv cfg s ag p) (hs : Evolves cfg s s') :
    Windows cfg s' ag := by
  have hskew : ∀ h h', s'.clock h ≤ s'.clock h' + cfg.clockSkewNs := by
    cases hs with
    | tick clock hle hskew => exact hskew
    | _ => exact h.windows.skew
  refine ⟨hskew, fun {sid c stmt host t e A} hf hA hclock => ?_⟩
  have hsent : s.Sent sid c stmt := hs.sent ⟨_, hf⟩
  refine h.covered_evolves hs hsent hA ?_
  have hclock' : s.clock host ≤ t + cfg.publishTimeoutNs := le_trans (hs.clock_le host) hclock
  cases hs with
  | tick clock hle hskew => exact h.windows.covered hf hA hclock'
  | refuse | abort | land => exact h.windows.covered (Server.flights_of_drop hf) hA hclock'
  | accept sid' host' writer stmt' effect hf' he =>
    by_cases hsid : sid = sid'
    · subst hsid
      simp only [update_self] at hf
      cases hf
      exact h.covered_accept hsent hA (he.fence hA)
    · simp only [update_of_ne hsid] at hf
      exact h.windows.covered hf hA hclock'

/-- The writers learn something, or send a statement that claims nothing above the head. -/
theorem Windows.writers (h : Windows cfg s ag) (hdb : s'.db = s.db) (hclock : s'.clock = s.clock)
    (hflights : ∀ {sid c stmt h t e}, s'.flights sid = some ⟨c, stmt, .admitted h t e⟩ →
      s.flights sid = some ⟨c, stmt, .admitted h t e⟩)
    (hconf : ∀ c, ∀ x ∈ (ag c).lease.confirmed, x ∈ (ag' c).lease.confirmed)
    (hclaim : ∀ {sid c stmt h t e A}, s.flights sid = some ⟨c, stmt, .admitted h t e⟩ →
      stmt.fencedOn = some A → s.clock h ≤ t + cfg.publishTimeoutNs →
      ∀ {sid' d T B holder}, s'.Sent sid' d (.claimLease T B holder) → T ≤ s.db.headTerm) :
    Windows cfg s' ag' := by
  refine ⟨hclock ▸ h.skew, fun hf hA hle => ?_⟩
  rw [hclock] at hle
  have hcov := h.covered (hflights hf) hA hle
  refine ⟨?_, ?_, ?_, ?_⟩ <;> rw [hdb]
  · exact hconf _ _ hcov.confirmed
  · exact hcov.row
  · exact hcov.expiry
  · exact hclaim (hflights hf) hA hle

theorem confirmed_update {a : Agent} (h : ∀ x ∈ (ag c).lease.confirmed, x ∈ a.lease.confirmed)
    (d : Nat) : ∀ x ∈ (ag d).lease.confirmed, x ∈ (update ag c a d).lease.confirmed := by
  by_cases hd : d = c
  · subst hd
    rwa [update_self]
  · rw [update_of_ne hd]
    exact fun x hx => hx

theorem LeaseInv.windows_submit (h : LeaseInv cfg s ag p) (hp : p c = none)
    (hallowed : (ag c).Allowed (.write stmt)) :
    Windows cfg (s.submit c stmt) (update ag c ((ag c).start (.write stmt))) := by
  refine h.windows.writers rfl rfl ?_ (confirmed_update ?_) ?_
  · exact Server.admitted_submit
  · intro x hx
    show x ∈ ((ag c).lease.start _).confirmed
    rwa [((ag c).lease.start_eq _).2]
  · intro sid d st host t e A hf hA hle sid' d' T B holder hsent
    have hcov := h.windows.covered hf hA hle
    rcases Server.sent_submit hsent with hsent | ⟨-, -, rfl⟩
    · exact hcov.claim hsent
    · -- The lease is the claimant's own, so no fenced statement of it is on its way.
      obtain ⟨hmine, sn, hseen, rfl, hfree⟩ := hallowed.1
      refine (h.heads.seen hseen).claim_le h.windows.skew hcov.confirmed hcov.expiry hle hfree ?_
      rintro rfl
      have hidle : (ag c).lease.phase.Idle := (h.life.pending c).idle (by rw [hp]; exact nofun)
      exact h.life.no_fence_of_mine h.owned hidle hmine ⟨_, hf⟩ hA

/-! ### The invariant -/

theorem LeaseInv.init (cl : Cluster) :
    LeaseInv cl.toConfig (n := cl.hosts) { clock := cl.clock } (fun _ => {}) fun _ => none := by
  have hsent : ∀ {sid c stmt}, ¬ ({ clock := cl.clock } : Server cl.hosts).Sent sid c stmt :=
    Server.not_sent_init cl.clock
  have hrow : ∀ {T A}, ¬ ({} : Db).HasLease T A := by
    rintro T A ⟨r, hr, -⟩
    cases hr
  have hconf : ∀ {T A}, ¬ Confirmed (fun _ => {}) T A := by
    rintro T A ⟨c, hc⟩
    cases hc
  exact
    { traffic := ⟨fun h => absurd h hsent, nofun, nofun, nofun⟩
      owned := ⟨nofun, nofun, fun h => absurd h hsent, fun ⟨_, h⟩ => absurd h hrow, nofun, nofun,
        nofun⟩
      life :=
        { pending := fun _ => nofun
          rowLe := nofun
          releaseLe := nofun
          claimCurrent := nofun
          fenceCurrent := nofun
          fenced := fun h => absurd h hsent }
      heads :=
        { rowPos := fun h => absurd h hrow
          claim := fun h => absurd h hsent
          release := fun h => absurd h hsent
          collect := fun h => absurd h hsent
          headTerm_le := fun _ => Nat.le_refl 0
          seen := nofun
          confirmed := fun h => absurd h hconf
          sole := fun h => absurd h hconf
          held := nofun }
      windows := ⟨cl.skew, nofun⟩ }

/-- **Every move keeps the invariants of the leases.** -/
theorem LeaseInv.change (h : LeaseInv cfg s ag p) (hc : Change cfg s ag p s' ag' p') :
    LeaseInv cfg s' ag' p' := by
  have hwriters : ∀ {c a} (drawnBy), (∀ x ∈ (ag c).lease.confirmed, x ∈ a.lease.confirmed) →
      Windows cfg { s with drawnBy } (update ag c a) := fun _ hconf =>
    h.windows.writers rfl rfl id (confirmed_update hconf) fun hf hA hle _ _ _ _ _ hsent =>
      (h.windows.covered hf hA hle).claim hsent
  refine ⟨h.traffic.change hc, h.owned.change h.traffic hc, ?_, ?_, ?_⟩
  · cases hc with
    | submit c stmt hidle hallowed =>
      refine h.life.submit h.owned hallowed (h.life.starts h.owned hidle hallowed.1 ?_ ?_)
      · rintro T A holder T₀ fresh rfl hphase
        obtain ⟨-, sn, hseen, rfl, -⟩ := hallowed.1
        exact Nat.lt_succ_of_le ((h.heads.held (by rw [hphase]; rfl)).2 hseen)
      · intro T A fresh hphase
        exact (h.heads.held (by rw [hphase]; rfl)).1
    | ask c a hidle hallowed ha =>
      have hphase : (ag c).lease.phase.Idle := (h.life.pending c).idle (by rw [hidle]; exact nofun)
      have hrelax := h.life.relax (c := c) (a := ag c) (q := some a)
        (h.life.relaxes_keep (fun _ hx => hx) hphase rfl id (.inr hphase.ne))
        fun stmt heq => ha stmt (Option.some.inj heq)
      rwa [update_eq_self] at hrelax
    | answer c a r s' hpending hr =>
      have hrelax := h.life.relax (c := c) (a := (ag c).finish a r) (q := none)
        (h.life.relaxes_finish hpending hr) nofun
      obtain ⟨drawnBy, rfl⟩ := hr.server
      exact hrelax.drawnBy drawnBy
    | evolve s' hs => exact h.life.evolves h.traffic hs
    | crash c => exact h.life.relax (relaxes_vacant (fun _ hx => hx) rfl) nofun
  · cases hc with
    | submit c stmt hidle hallowed => exact h.heads.submit hallowed
    | ask => exact h.heads
    | answer c a r s' hpending hr =>
      have hlearn := h.heads.learn (h.heads.learns hr)
      obtain ⟨drawnBy, rfl⟩ := hr.server
      exact hlearn.drawnBy drawnBy
    | evolve s' hs => exact h.heads.evolves h.traffic hs
    | crash c => exact h.heads.learn ⟨Nat.zero_le _, nofun, fun _ hx => hx, .inl, nofun⟩
  · cases hc with
    | submit c stmt hidle hallowed => exact h.windows_submit hidle hallowed
    | ask => exact h.windows
    | answer c a r s' hpending hr =>
      have hkept := (h.heads.learns hr).kept
      obtain ⟨drawnBy, rfl⟩ := hr.server
      exact hwriters drawnBy hkept
    | evolve s' hs => exact h.windows_evolves hs
    | crash c => exact hwriters s.drawnBy fun _ hx => hx

/-- At most one fenced statement may still land, whoever sent it. -/
theorem LeaseInv.window_unique (h : LeaseInv cfg s ag p) {sid' c' : Nat} {stmt' : Write}
    {host host' : Fin n} {t' : Int} {e e' : Effect} {A' : Id}
    (hf : s.flights sid = some ⟨c, stmt, .admitted host t e⟩) (hA : stmt.fencedOn = some A)
    (hle : s.clock host ≤ t + cfg.publishTimeoutNs)
    (hf' : s.flights sid' = some ⟨c', stmt', .admitted host' t' e'⟩)
    (hA' : stmt'.fencedOn = some A') (hle' : s.clock host' ≤ t' + cfg.publishTimeoutNs) :
    sid' = sid := by
  have hcov := h.windows.covered hf hA hle
  have hcov' := h.windows.covered hf' hA' hle'
  obtain rfl := h.heads.sole ⟨c, hcov.confirmed⟩ ⟨c', hcov'.confirmed⟩ rfl
  obtain ⟨T, -, -, huniq⟩ := h.life.fenced ⟨_, hf⟩ hA
  exact huniq ⟨_, hf'⟩ hA'

/-! ### Every run -/

abbrev Conf.LeaseInv {cl : Cluster} (g : Conf cl) : Prop :=
  Catalog.LeaseInv cl.toConfig g.world.server g.agent g.pending

theorem Change.clock_le (hc : Change cfg s ag p s' ag' p') (h : Fin n) :
    s.clock h ≤ s'.clock h := by
  cases hc with
  | answer c a r s' hpending hr => cases hr <;> exact le_refl _
  | evolve s' hs => exact hs.clock_le h
  | _ => exact le_refl _

theorem clock_le_of_steps {cl : Cluster} {s s' : State cl} (hs : Reachable cl s)
    (hs' : Steps cl s s') (h : Fin cl.hosts) (ht : t < s.world.server.clock h) :
    t < s'.world.server.clock h :=
  Proc.reaches_carries (machine_sound cl) (I := fun _ => True) trivial (fun _ _ _ _ => trivial)
    (R := fun w => t < w.server.clock h)
    (fun _ _ _ hmove ht => lt_of_lt_of_le ht ((Move.change hmove).clock_le h)) hs hs' ht

/-- **One lease at a time.** When a statement of lease `B` passes its fence, an admitted
statement of another lease `A` that has not landed will never land. -/
theorem one_lease_at_a_time {cl : Cluster} {s : State cl} (hs : Reachable cl s)
    {sid sid' c c' : Nat} {stmt stmt' : Write} {h h' : Fin cl.hosts} {t : Int} {e e' : Effect}
    {A B : Id} (hA : s.world.server.flights sid = some ⟨c, stmt, .admitted h t e⟩)
    (hfA : stmt.fencedOn = some A) (hB : s.world.server.flights sid' = some ⟨c', stmt', .sent⟩)
    (hfB : stmt'.fencedOn = some B)
    (hadmits : stmt'.accept cl.toConfig s.world.server.db (s.world.server.clock h') = some e')
    (hne : A ≠ B) :
    ∀ s', Steps cl s s' → s'.world.server.mayLand cl.toConfig stmt h t = false := by
  intro s' hs'
  obtain ⟨g, htracks, hinv⟩ := Proc.reaches_invariant (machine_sound cl)
    (I := Conf.LeaseInv) (LeaseInv.init cl) (fun _ _ hinv hmove => hinv.change (Move.change hmove))
    hs
  have hlate : t + cl.publishTimeoutNs < s.world.server.clock h := by
    rw [htracks.world] at hA hB hadmits ⊢
    by_contra hle
    have hcovA := hinv.windows.covered hA hfA (not_lt.mp hle)
    have hcovB := hinv.covered_accept ⟨_, hB⟩ hfB ((admits_of_accept hadmits).fence hfB)
    exact hne (hinv.heads.sole ⟨c, hcovA.confirmed⟩ ⟨c', hcovB.confirmed⟩ rfl)
  have hlater := clock_le_of_steps hs hs' h hlate
  simp [Server.mayLand, hfA, hlater]

/-- Writer `0` stalls after its watermark was admitted, its lease runs out, and writer `1` takes
over. -/
theorem one_lease_at_a_time_takeover : ∃ s : State oneHost,
    s.world.server.flights 2 = some ⟨0, .watermark ⟨1, 101, 0, 0, 0⟩ 100,
      .admitted Schedule.host 0 (.watermark ⟨1, 101, 0, 0, 0⟩)⟩ ∧
    ∀ s', Steps oneHost s s' → s'.world.server.mayLand oneHost.toConfig
      (.watermark ⟨1, 101, 0, 0, 0⟩ 100) Schedule.host 0 = false := by
  obtain ⟨s, hs, hA, hB, hadmits⟩ := exists_steps_of_run (machine oneHost).init
    (Q := fun s : State oneHost =>
      s.world.server.flights 2 = some ⟨0, .watermark ⟨1, 101, 0, 0, 0⟩ 100,
        .admitted host 0 (.watermark ⟨1, 101, 0, 0, 0⟩)⟩ ∧
      s.world.server.flights 5 = some ⟨1, .watermark ⟨1, 201, 0, 0, 0⟩ 200, .sent⟩ ∧
      (Write.watermark ⟨1, 201, 0, 0, 0⟩ 200).accept oneHost.toConfig s.world.server.db
        (s.world.server.clock host) = some (.watermark ⟨1, 201, 0, 0, 0⟩))
    (Schedule.acquire 0 100 0 ++ renewed 0 1 101 1 ++
      [.issue 0, .evolve (.accept 2 host), .evolve (.tick fun _ => 40000000000)] ++
      Schedule.acquire 1 200 3 ++ renewed 1 1 201 4 ++ [.issue 1]) (by decide +kernel)
  exact ⟨s, hA, one_lease_at_a_time hs hA rfl hB rfl hadmits (by decide)⟩

end Dmi.Catalog
