import Dmi.Catalog.Flights

/-!
# The life of a lease id

A lease id belongs to the writer that drew it, and that writer uses it in one way at a time:
it has at most one claim on its way, then at most one fenced statement, and after an
exception of either it never uses the id again. Only a tombstone may stay behind, and only at
a term below the next claim. `Life` says so for all ids at once, and every move keeps it
(`LeaseInv.change`).
-/

namespace Dmi.Catalog

open Function List LeaseView

variable {n : Nat} {cfg : Config} {s s' : Server n} {ag : Nat → Agent} {p : Nat → Option Act}

/-- The lease a statement is about. -/
def Write.lease? : Write → Option Id
  | .claimLease _ id _ => some id
  | .releaseLease _ id _ => some id
  | .manifest _ _ _ id => some id
  | .watermark _ id => some id
  | _ => none

theorem Write.lease?_of_fencedOn {stmt : Write} {A : Id} (h : stmt.fencedOn = some A) :
    stmt.lease? = some A := by
  cases stmt <;> first | exact h | cases h

/-- The term and id of the lease in play. -/
def Phase.lease? : Phase → Option (Nat × Id)
  | .vacant => none
  | .inserting id term => some (term, id)
  | .inserted id term => some (term, id)
  | .held id term _ => some (term, id)
  | .fencing id term => some (term, id)
  | .releasing id term => some (term, id)

/-- A tombstone may have been sent at the term. -/
def Phase.Spent : Phase → Prop
  | .held _ _ fresh => fresh = false
  | .releasing .. => True
  | _ => False

/-- The pending act is the lease statement that the phase waits for, or none. -/
def PendingOk (p : Option Act) : Phase → Prop
  | .inserting id term => ∃ holder, p = some (.write (.claimLease term id holder))
  | .releasing id term => ∃ holder, p = some (.write (.releaseLease term id holder))
  | .fencing id _ => ∃ stmt, p = some (.write stmt) ∧ stmt.fencedOn = some id
  | _ => ∀ stmt, p = some (.write stmt) → stmt.lease? = none

/-- Nothing of lease `A` is at term `T` but its claim, and no claim is on its way. -/
structure Quiet (s : Server n) (T : Nat) (A : Id) : Prop where
  row : ∀ {T'}, s.db.HasLease T' A → T' ≤ T
  claim : ∀ {sid c T' h}, ¬ s.Sent sid c (.claimLease T' A h)
  release : ∀ {sid c T' h}, s.Sent sid c (.releaseLease T' A h) → T' < T

structure Life (s : Server n) (ag : Nat → Agent) (p : Nat → Option Act) : Prop where
  pending : ∀ c, PendingOk (p c) (ag c).lease.phase
  rowLe : ∀ {c T A T'}, (ag c).lease.phase.lease? = some (T, A) → s.db.HasLease T' A → T' ≤ T
  releaseLe : ∀ {c T A sid d T' h}, (ag c).lease.phase.lease? = some (T, A) →
    s.Sent sid d (.releaseLease T' A h) → T' ≤ T ∧ (T' = T → (ag c).lease.phase.Spent)
  claimCurrent : ∀ {c T A sid d T' h}, (ag c).lease.phase.lease? = some (T, A) →
    s.Sent sid d (.claimLease T' A h) → (ag c).lease.phase = .inserting A T ∧ sid = s.current c
  fenceCurrent : ∀ {c T A sid d stmt}, (ag c).lease.phase.lease? = some (T, A) →
    s.Sent sid d stmt → stmt.fencedOn = some A →
    (ag c).lease.phase = .fencing A T ∧ sid = s.current c
  fenced : ∀ {sid c stmt A}, s.Sent sid c stmt → stmt.fencedOn = some A →
    ∃ T, ((T, A) ∈ (ag c).lease.confirmed ∧ Quiet s T A) ∧
      ((ag c).lease.phase = .fencing A T ∨ ∀ T', (ag c).lease.phase.lease? ≠ some (T', A)) ∧
      ∀ {sid' d stmt'}, s.Sent sid' d stmt' → stmt'.fencedOn = some A → sid' = sid

/-! ### The ids of the leases -/

theorem LeaseView.lease?_finish (v : LeaseView) (act : Act) (r : act.Res) :
    (v.finish act r).phase.lease? = none ∨
      (v.finish act r).phase.lease? = v.phase.lease? := by
  have hack : ∀ ok, (v.acknowledge ok).phase.lease? = none ∨
      (v.acknowledge ok).phase.lease? = v.phase.lease? := by
    intro ok
    unfold acknowledge
    split
    all_goals first
      | exact .inr rfl
      | exact .inl rfl
      | (rename_i hphase; rw [hphase]; exact .inr rfl)
  unfold finish
  split
  · exact .inr rfl
  · exact .inr rfl
  · unfold readBack
    split
    · rename_i hphase
      split
      · rw [hphase]
        exact .inr rfl
      · exact .inl rfl
    · exact .inr rfl
  · exact hack _
  · exact hack _
  · exact hack _
  · exact hack _
  · exact .inr rfl

theorem LeaseView.fresh_finish (v : LeaseView) {act : Act} (hact : act ≠ .uuid) (r : act.Res) :
    (v.finish act r).fresh = v.fresh := by
  have hack : ∀ ok, (v.acknowledge ok).fresh = v.fresh := by
    intro ok
    unfold acknowledge
    split <;> rfl
  unfold finish
  split
  · exact absurd rfl hact
  · rfl
  · unfold readBack
    split
    · split <;> rfl
    · rfl
  · exact hack _
  · exact hack _
  · exact hack _
  · exact hack _
  · rfl

theorem LeaseView.lease?_start {v : LeaseView} {stmt : Write} {x : Nat × Id}
    (h : (v.start (.write stmt)).phase.lease? = some x) :
    v.phase.lease? = some x ∨ stmt.lease? = some x.2 := by
  have hfence : v.fence.phase.lease? = v.phase.lease? := by
    unfold fence
    split
    · rename_i hphase
      rw [hphase]
      rfl
    · rfl
  cases stmt with
  | claimLease | releaseLease =>
    cases h
    exact .inr rfl
  | manifest | watermark => exact .inl (hfence ▸ h)
  | _ => exact .inl h

/-- The ids of leases. -/
def leaseIds : IdKind where
  used := Write.lease?
  row db A := ∃ T, db.HasLease T A
  fresh a := a.lease.fresh
  inUse a A := ∃ T, a.lease.phase.lease? = some (T, A)
  row_apply := by
    rintro cfg db₀ db t stmt e A hadmits ⟨T, r, hr, hT, hA⟩
    cases hadmits with
    | claimLease | releaseLease =>
      rcases List.mem_append.mp hr with hr | hr
      · exact .inl ⟨T, r, hr, hT, hA⟩
      · obtain rfl := List.mem_singleton.mp hr
        exact .inr (congrArg some hA)
    | deleteLeases => exact .inl ⟨T, r, List.mem_of_mem_filter hr, hT, hA⟩
    | _ => exact .inl ⟨T, r, hr, hT, hA⟩
  own := by
    intro a stmt A hallowed hA
    cases stmt with
    | claimLease T B holder =>
      cases hA
      rcases hallowed.1.1 with hfresh | ⟨T₀, fresh, hphase⟩
      · exact .inl hfresh
      · exact .inr ⟨T₀, by rw [hphase]; rfl⟩
    | releaseLease T B holder =>
      cases hA
      obtain ⟨fresh, hphase⟩ := hallowed.1
      exact .inr ⟨T, by rw [hphase]; rfl⟩
    | manifest | watermark =>
      cases hA
      obtain ⟨T, hphase⟩ := hallowed.1
      exact .inr ⟨T, by rw [hphase]; rfl⟩
    | _ => cases hA
  fresh_start := by
    intro a stmt A hallowed hA
    have hfence : a.lease.fence.fresh = a.lease.fresh := by
      unfold LeaseView.fence
      split <;> rfl
    cases stmt with
    | claimLease T B holder =>
      obtain ⟨hmem, hne⟩ := List.mem_filter.mp hA
      exact ⟨hmem, fun heq => absurd (Option.some.inj heq).symm (of_decide_eq_true hne)⟩
    | releaseLease T B holder =>
      obtain ⟨fresh, hphase⟩ := hallowed.1
      refine ⟨hA, fun heq => ⟨T, ?_⟩⟩
      cases heq
      rw [hphase]
      rfl
    | manifest | watermark =>
      obtain ⟨T, hphase⟩ := hallowed.1
      refine ⟨hfence ▸ hA, fun heq => ⟨T, ?_⟩⟩
      cases heq
      rw [hphase]
      rfl
    | _ => exact ⟨hA, nofun⟩
  inUse_start := by
    rintro a stmt A hallowed ⟨T, hT⟩
    exact (LeaseView.lease?_start hT).imp_left fun h => ⟨T, h⟩
  fresh_uuid h := (List.mem_cons.mp h).symm
  fresh_finish := by
    intro a act r A hact hA
    rwa [← a.lease.fresh_finish hact r]
  inUse_finish := by
    rintro a act r A ⟨T, hT⟩
    rcases a.lease.lease?_finish act r with hnone | heq
    · exact nomatch hnone.symm.trans hT
    · exact ⟨T, heq ▸ hT⟩
  fresh_reset h := h
  inUse_reset := by
    rintro a A ⟨T, hT⟩
    cases hT

/-! ### The server moves on its own -/

theorem Evolves.leaseRow (ht : Traffic cfg s p) (hs : Evolves cfg s s') {r : LeaseRow}
    (hr : r ∈ s'.db.leases) :
    r ∈ s.db.leases ∨ ∃ sid c holder, s.Sent sid c (.claimLease r.term r.leaseId holder) ∨
      s.Sent sid c (.releaseLease r.term r.leaseId holder) := by
  cases hs with
  | tick | accept | refuse | abort => exact .inl hr
  | land sid writer stmt host at_ effect hf hmay =>
    obtain ⟨db, hadmits⟩ := ht.admits hf
    cases hadmits with
    | claimLease term id holder =>
      refine (mem_append.mp hr).imp_right fun hr => ?_
      obtain rfl := mem_singleton.mp hr
      exact ⟨sid, writer, holder, .inl ⟨_, hf⟩⟩
    | releaseLease term id holder =>
      refine (mem_append.mp hr).imp_right fun hr => ?_
      obtain rfl := mem_singleton.mp hr
      exact ⟨sid, writer, holder, .inr ⟨_, hf⟩⟩
    | deleteLeases term => exact .inl (mem_of_mem_filter hr)
    | _ => exact .inl hr

theorem Evolves.hasLease (ht : Traffic cfg s p) (hs : Evolves cfg s s') {T : Nat} {A : Id}
    (h : s'.db.HasLease T A) :
    s.db.HasLease T A ∨ ∃ sid c holder, s.Sent sid c (.claimLease T A holder) ∨
      s.Sent sid c (.releaseLease T A holder) := by
  obtain ⟨r, hr, rfl, rfl⟩ := h
  exact (hs.leaseRow ht hr).imp_left fun hr => ⟨r, hr, rfl, rfl⟩

theorem Quiet.evolves {T : Nat} {A : Id} (h : Quiet s T A) (ht : Traffic cfg s p)
    (hs : Evolves cfg s s') : Quiet s' T A where
  row hrow := by
    rcases hs.hasLease ht hrow with hrow | ⟨sid, c, holder, hsent | hsent⟩
    · exact h.row hrow
    · exact absurd hsent h.claim
    · exact Nat.le_of_lt (h.release hsent)
  claim hsent := h.claim (hs.sent hsent)
  release hsent := h.release (hs.sent hsent)

theorem Life.evolves (h : Life s ag p) (ht : Traffic cfg s p) (hs : Evolves cfg s s') :
    Life s' ag p where
  pending := h.pending
  rowLe := by
    intro c T A T' hphase hrow
    rcases hs.hasLease ht hrow with hrow | ⟨sid, d, holder, hsent | hsent⟩
    · exact h.rowLe hphase hrow
    · -- The claim that landed is the one the writer waits for.
      obtain ⟨heq, rfl⟩ := h.claimCurrent hphase hsent
      have hp := h.pending c
      rw [heq] at hp
      obtain ⟨holder', hp⟩ := hp
      have hstmt := ht.current hp hsent
      cases hstmt
      exact Nat.le_refl T
    · exact (h.releaseLe hphase hsent).1
  releaseLe hphase hsent := h.releaseLe hphase (hs.sent hsent)
  claimCurrent hphase hsent := hs.fixed.2.1 ▸ h.claimCurrent hphase (hs.sent hsent)
  fenceCurrent hphase hsent hA := hs.fixed.2.1 ▸ h.fenceCurrent hphase (hs.sent hsent) hA
  fenced hsent hA := by
    obtain ⟨T, ⟨hconf, hquiet⟩, hphase, huniq⟩ := h.fenced (hs.sent hsent) hA
    exact ⟨T, ⟨hconf, hquiet.evolves ht hs⟩, hphase, fun hsent' => huniq (hs.sent hsent')⟩

/-! ### An answer arrives, or the process dies -/

/-- The view `w` may replace the view of writer `c`, which then waits for nothing: it has the
same lease or none. -/
structure Relaxes (s : Server n) (v w : LeaseView) : Prop where
  confirmed : ∀ x ∈ v.confirmed, x ∈ w.confirmed
  idle : ∀ q, (∀ stmt, q ≠ some (Act.write stmt)) → PendingOk q w.phase
  lease : w.phase.lease? = none ∨ w.phase.lease? = v.phase.lease? ∧ (v.phase.Spent → w.phase.Spent)
  claim : ∀ {T A}, w.phase.lease? = some (T, A) → ∀ {sid d T' h},
    ¬ s.Sent sid d (.claimLease T' A h)
  fence : ∀ {T A}, w.phase.lease? = some (T, A) → ∀ {sid d stmt}, s.Sent sid d stmt →
    stmt.fencedOn ≠ some A

theorem Relaxes.lease_eq {v w : LeaseView} (h : Relaxes s v w) {x : Nat × Id}
    (hx : w.phase.lease? = some x) : v.phase.lease? = some x ∧ (v.phase.Spent → w.phase.Spent) := by
  rcases h.lease with hnone | ⟨heq, hspent⟩
  · rw [hnone] at hx
    cases hx
  · exact ⟨heq ▸ hx, hspent⟩

variable {q : Option Act} {c : Nat}

theorem Life.relax (h : Life s ag p) {a : Agent} (hw : Relaxes s (ag c).lease a.lease)
    (hq : ∀ stmt, q ≠ some (.write stmt)) : Life s (update ag c a) (update p c q) := by
  -- Any lease of the new views is one of the old ones, in the same phase or settled.
  have hlease : ∀ {d x}, (update ag c a d).lease.phase.lease? = some x →
      (ag d).lease.phase.lease? = some x ∧
        ((ag d).lease.phase.Spent → (update ag c a d).lease.phase.Spent) := by
    intro d x hx
    by_cases hd : d = c
    · subst hd
      rw [update_self] at hx ⊢
      exact hw.lease_eq hx
    · rw [update_of_ne hd] at hx ⊢
      exact ⟨hx, fun h => h⟩
  refine
    { pending := fun d => ?_
      rowLe := fun hx hrow => h.rowLe (hlease hx).1 hrow
      releaseLe := fun hx hsent => ?_
      claimCurrent := fun {d _ _ _ _ _ _} hx hsent => ?_
      fenceCurrent := fun {d _ _ _ _ _} hx hsent hA => ?_
      fenced := fun {_ d _ _} hsent hA => ?_ }
  · by_cases hd : d = c
    · subst hd
      rw [update_self, update_self]
      exact hw.idle q hq
    · rw [update_of_ne hd, update_of_ne hd]
      exact h.pending d
  · obtain ⟨hle, hspent⟩ := h.releaseLe (hlease hx).1 hsent
    exact ⟨hle, fun heq => (hlease hx).2 (hspent heq)⟩
  · by_cases hd : d = c
    · subst hd
      rw [update_self] at hx
      exact absurd hsent (hw.claim hx)
    · rw [update_of_ne hd] at hx ⊢
      exact h.claimCurrent hx hsent
  · by_cases hd : d = c
    · subst hd
      rw [update_self] at hx
      exact absurd hA (hw.fence hx hsent)
    · rw [update_of_ne hd] at hx ⊢
      exact h.fenceCurrent hx hsent hA
  · obtain ⟨T, ⟨hconf, hquiet⟩, hphase, huniq⟩ := h.fenced hsent hA
    by_cases hd : d = c
    · subst hd
      rw [update_self]
      refine ⟨T, ⟨hw.confirmed _ hconf, hquiet⟩, .inr fun T' hx => ?_, huniq⟩
      exact hw.fence hx hsent hA
    · rw [update_of_ne hd]
      exact ⟨T, ⟨hconf, hquiet⟩, hphase, huniq⟩

/-- A phase in which the writer waits for no statement of its lease. -/
def Phase.Idle : Phase → Prop
  | .vacant => True
  | .inserted .. => True
  | .held .. => True
  | _ => False

variable {phase : Phase}

theorem PendingOk.idle (h : PendingOk q phase)
    (hq : ∀ stmt, q = some (.write stmt) → stmt.lease? = none) : phase.Idle := by
  cases phase with
  | inserting id term | releasing id term =>
    obtain ⟨holder, rfl⟩ := h
    cases hq _ rfl
  | fencing id term =>
    obtain ⟨stmt, rfl, hid⟩ := h
    have := Write.lease?_of_fencedOn hid
    rw [hq _ rfl] at this
    cases this
  | _ => trivial

theorem Phase.Idle.pendingOk (h : phase.Idle)
    (hq : ∀ stmt, q = some (.write stmt) → stmt.lease? = none) : PendingOk q phase := by
  cases phase <;> first | exact hq | exact h.elim

theorem relaxes_vacant {v w : LeaseView}
    (hconf : ∀ x ∈ v.confirmed, x ∈ w.confirmed) (hphase : w.phase = .vacant) :
    Relaxes s v w := by
  have hnone : ∀ {x}, w.phase.lease? ≠ some x := by
    rw [hphase]
    exact nofun
  refine ⟨hconf, fun q hq => ?_, .inl (by rw [hphase]; rfl), fun hx => absurd hx hnone,
    fun hx => absurd hx hnone⟩
  rw [hphase]
  exact fun stmt h => absurd h (hq stmt)

/-- To a phase without a statement on its way and with the same lease: there was none before,
or it was a tombstone, or it is settled. -/
theorem Life.relaxes_keep (h : Life s ag p) {w : LeaseView}
    (hconf : ∀ x ∈ (ag c).lease.confirmed, x ∈ w.confirmed) (hidle : w.phase.Idle)
    (hlease : w.phase.lease? = (ag c).lease.phase.lease?)
    (hspent : (ag c).lease.phase.Spent → w.phase.Spent)
    (hsettled : s.settled (s.current c) = true ∨ ∀ id term,
      (ag c).lease.phase ≠ .inserting id term ∧ (ag c).lease.phase ≠ .fencing id term) :
    Relaxes s (ag c).lease w := by
  refine ⟨hconf, fun q hq => hidle.pendingOk fun stmt h => absurd h (hq stmt),
    .inr ⟨hlease, hspent⟩, ?_, ?_⟩
  · intro T A hx sid d T' holder hsent
    obtain ⟨hphase, rfl⟩ := h.claimCurrent (hlease ▸ hx) hsent
    rcases hsettled with hsettled | hother
    · exact Server.not_sent_of_settled hsettled hsent
    · exact (hother A T).1 hphase
  · intro T A hx sid d stmt hsent hA
    obtain ⟨hphase, rfl⟩ := h.fenceCurrent (hlease ▸ hx) hsent hA
    rcases hsettled with hsettled | hother
    · exact Server.not_sent_of_settled hsettled hsent
    · exact (hother A T).2 hphase

theorem Phase.Idle.ne (h : phase.Idle) (id : Id) (term : Nat) :
    phase ≠ .inserting id term ∧ phase ≠ .fencing id term := by
  constructor <;> rintro rfl <;> exact h

/-- A lease statement was answered: it is settled, or the id is dropped, or it was the
tombstone. -/
theorem Life.relaxes_acknowledge (h : Life s ag p) {stmt : Write} {ok : Bool}
    (hp : p c = some (.write stmt)) (hlease : stmt.lease? ≠ none)
    (hok : ok = true → s.settled (s.current c) = true) :
    Relaxes s (ag c).lease ((ag c).lease.acknowledge ok) := by
  have hpend := h.pending c
  rw [hp] at hpend
  have hbusy : ¬ (ag c).lease.phase.Idle := by
    intro hidle
    generalize (ag c).lease.phase = phase at hpend hidle
    cases phase <;> first | exact hlease (hpend _ rfl) | exact hidle
  cases hphase : (ag c).lease.phase with
  | inserting id term | fencing id term =>
    cases ok with
    | false => refine relaxes_vacant ?_ ?_ <;> simp [acknowledge, hphase]
    | true =>
      refine h.relaxes_keep ?_ ?_ ?_ ?_ (.inl (hok rfl)) <;>
        simp [acknowledge, hphase, Phase.Idle, Phase.lease?, Phase.Spent]
  | releasing id term =>
    cases ok with
    | true => refine relaxes_vacant ?_ ?_ <;> simp [acknowledge, hphase]
    | false =>
      refine h.relaxes_keep ?_ ?_ ?_ ?_ (.inr ?_) <;>
        simp [acknowledge, hphase, Phase.Idle, Phase.lease?, Phase.Spent]
  | _ =>
    rw [hphase] at hbusy
    exact absurd trivial hbusy

theorem Life.relaxes_readBack (h : Life s ag p) {term : Nat} {rows : List LeaseClaim}
    (hidle : (ag c).lease.phase.Idle) :
    Relaxes s (ag c).lease ((ag c).lease.readBack term rows) := by
  unfold readBack
  split
  · rename_i id t hphase
    split
    · refine h.relaxes_keep (fun x hx => .tail _ hx) trivial ?_ ?_ (.inr hidle.ne) <;>
        simp [hphase, Phase.lease?, Phase.Spent]
    · exact relaxes_vacant (fun x hx => hx) rfl
  · exact h.relaxes_keep (fun x hx => hx) hidle rfl id (.inr hidle.ne)

theorem Life.relaxes_finish (h : Life s ag p) {a : Act} {r : a.Res} (hp : p c = some a)
    (hr : Answered s c a r s') : Relaxes s (ag c).lease ((ag c).lease.finish a r) := by
  have hidle : (∀ stmt, a = .write stmt → stmt.lease? = none) → (ag c).lease.phase.Idle :=
    fun hstmt => (h.pending c).idle fun stmt hs => hstmt stmt (Option.some.inj (hp.symm.trans hs))
  have hkeep : (∀ stmt, a = .write stmt → stmt.lease? = none) → ∀ {w : LeaseView},
      w.phase = (ag c).lease.phase → w.confirmed = (ag c).lease.confirmed →
      Relaxes s (ag c).lease w := by
    intro hstmt w hphase hconf
    refine h.relaxes_keep (fun x hx => hconf ▸ hx) ?_ ?_ ?_ (.inr (hidle hstmt).ne) <;> rw [hphase]
    · exact hidle hstmt
    · exact id
  cases hr with
  | reply stmt hsettled =>
    cases stmt with
    | claimLease | releaseLease | manifest | watermark =>
      exact h.relaxes_acknowledge hp nofun fun _ => hsettled
    | _ => exact hkeep (fun stmt hs => by cases hs; rfl) rfl rfl
  | raises stmt =>
    cases stmt with
    | claimLease | releaseLease | manifest | watermark =>
      exact h.relaxes_acknowledge hp nofun nofun
    | _ => exact hkeep (fun stmt hs => by cases hs; rfl) rfl rfl
  | read q host =>
    cases q with
    | leaseClaims term => exact h.relaxes_readBack (hidle nofun)
    | _ => exact hkeep nofun rfl rfl
  | readFails q =>
    cases q with
    | leaseClaims term => exact h.relaxes_readBack (hidle nofun)
    | _ => exact hkeep nofun rfl rfl
  | _ => exact hkeep nofun rfl rfl

theorem Life.drawnBy (h : Life s ag p) (drawnBy : Id → Option Nat) :
    Life { s with drawnBy } ag p where
  pending := h.pending
  rowLe := h.rowLe
  releaseLe := h.releaseLe
  claimCurrent := h.claimCurrent
  fenceCurrent := h.fenceCurrent
  fenced hsent hA := by
    obtain ⟨T, ⟨hconf, hquiet⟩, hphase, huniq⟩ := h.fenced hsent hA
    exact ⟨T, ⟨hconf, hquiet.row, hquiet.claim, hquiet.release⟩, hphase, huniq⟩

end Dmi.Catalog
