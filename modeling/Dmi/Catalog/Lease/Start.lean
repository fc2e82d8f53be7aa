import Dmi.Catalog.Lease.Life

/-!
# A writer sends a statement of its lease

What the protocol allows a writer to send keeps the life of its lease id in order: a claim is
sent for an unused id or for the one that is held, the tombstone and the fenced statements for
the one that is held, and nothing else of that id is on its way but tombstones of earlier
terms.
-/

namespace Dmi.Catalog

open Function Server Write

variable {n : Nat} {cfg : Config} {s s' : Server n} {ag : Nat → Agent} {p : Nat → Option Act}

/-- What has to hold of the statement that writer `c` sends and of the view `w` it gets. The
statement is about the writer's own lease, and no other statement of that lease is on its way
but tombstones of earlier terms. -/
structure Starts (s : Server n) (c : Nat) (v w : LeaseView) (stmt : Write) : Prop where
  confirmed : w.confirmed = v.confirmed
  pending : PendingOk (some (.write stmt)) w.phase
  rowLe : ∀ {T A T'}, w.phase.lease? = some (T, A) → s.db.HasLease T' A → T' ≤ T
  releaseOld : ∀ {T A sid d T' h}, w.phase.lease? = some (T, A) →
    s.Sent sid d (.releaseLease T' A h) → T' ≤ T ∧ (T' = T → w.phase.Spent)
  releaseNew : ∀ {T A T' h}, w.phase.lease? = some (T, A) →
    stmt = .releaseLease T' A h → T' ≤ T ∧ (T' = T → w.phase.Spent)
  claim : ∀ {T A}, w.phase.lease? = some (T, A) →
    (∀ {sid d T' h}, ¬ s.Sent sid d (.claimLease T' A h)) ∧
      ∀ {T' h}, stmt = .claimLease T' A h → w.phase = .inserting A T
  fence : ∀ {T A}, w.phase.lease? = some (T, A) →
    (∀ {sid d st}, s.Sent sid d st → st.fencedOn ≠ some A) ∧
      (stmt.fencedOn = some A → w.phase = .fencing A T)
  abandoned : ∀ {sid st A}, s.Sent sid c st → st.fencedOn = some A →
    stmt.lease? ≠ some A
  fenced : ∀ {A}, stmt.fencedOn = some A → ∃ T, ((T, A) ∈ w.confirmed ∧ Quiet s T A) ∧
    w.phase = .fencing A T

variable {stmt : Write} {c T : Nat} {A : Id}

theorem Quiet.submit (h : Quiet s T A) (hclaim : ∀ T' holder, stmt ≠ .claimLease T' A holder)
    (hrelease : ∀ T' holder, stmt ≠ .releaseLease T' A holder) :
    Quiet (s.submit c stmt) T A where
  row := h.row
  claim hsent := by
    rcases sent_submit hsent with hsent | ⟨-, -, heq⟩
    · exact h.claim hsent
    · exact hclaim _ _ heq.symm
  release hsent := by
    rcases sent_submit hsent with hsent | ⟨-, -, heq⟩
    · exact h.release hsent
    · exact absurd heq.symm (hrelease _ _)

section

variable (h : Life s ag p)
include h

theorem Life.submit (hown : Owned leaseIds s ag) {a : Agent}
    (hallowed : (ag c).Allowed (.write stmt))
    (hw : Starts s c (ag c).lease a.lease stmt) :
    Life (s.submit c stmt) (update ag c a) (update p c (some (.write stmt))) := by
  -- The statement is not about a lease that another writer uses.
  have hother : ∀ {d T A}, d ≠ c → (ag d).lease.phase.lease? = some (T, A) →
      stmt.lease? ≠ some A := fun hd hT => hown.ne_of_ne hallowed hd (hown.inUse ⟨_, hT⟩)
  refine
    { pending := fun d => ?_
      rowLe := fun {d T A T'} hT hrow => ?_
      releaseLe := fun {d T A sid e T' holder} hT hsent => ?_
      claimCurrent := fun {d T A sid e T' holder} hT hsent => ?_
      fenceCurrent := fun {d T A sid e st} hT hsent hA => ?_
      fenced := fun {sid d st A} hsent hA => ?_ }
  · by_cases hd : d = c
    · subst hd
      rw [update_self, update_self]
      exact hw.pending
    · rw [update_of_ne hd, update_of_ne hd]
      exact h.pending d
  · by_cases hd : d = c
    · subst hd
      rw [update_self] at hT
      exact hw.rowLe hT hrow
    · rw [update_of_ne hd] at hT
      exact h.rowLe hT hrow
  · by_cases hd : d = c
    · subst hd
      rw [update_self] at hT ⊢
      rcases sent_submit hsent with hsent | ⟨-, -, heq⟩
      · exact hw.releaseOld hT hsent
      · exact hw.releaseNew hT heq.symm
    · rw [update_of_ne hd] at hT ⊢
      rcases sent_submit hsent with hsent | ⟨-, -, heq⟩
      · exact h.releaseLe hT hsent
      · exact absurd (by rw [← heq]; rfl) (hother hd hT)
  · show _ ∧ sid = update s.current c s.next d
    by_cases hd : d = c
    · subst hd
      rw [update_self] at hT ⊢
      rw [update_self]
      rcases sent_submit hsent with hsent | ⟨rfl, -, heq⟩
      · exact absurd hsent (hw.claim hT).1
      · exact ⟨(hw.claim hT).2 heq.symm, rfl⟩
    · rw [update_of_ne hd] at hT ⊢
      rw [update_of_ne hd]
      rcases sent_submit hsent with hsent | ⟨-, -, heq⟩
      · exact h.claimCurrent hT hsent
      · exact absurd (by rw [← heq]; rfl) (hother hd hT)
  · show _ ∧ sid = update s.current c s.next d
    by_cases hd : d = c
    · subst hd
      rw [update_self] at hT ⊢
      rw [update_self]
      rcases sent_submit hsent with hsent | ⟨rfl, -, rfl⟩
      · exact absurd hA ((hw.fence hT).1 hsent)
      · exact ⟨(hw.fence hT).2 hA, rfl⟩
    · rw [update_of_ne hd] at hT ⊢
      rw [update_of_ne hd]
      rcases sent_submit hsent with hsent | ⟨-, -, rfl⟩
      · exact h.fenceCurrent hT hsent hA
      · exact absurd (lease?_of_fencedOn hA) (hother hd hT)
  · rcases sent_submit hsent with hold | ⟨rfl, rfl, rfl⟩
    · -- A fenced statement from before: the new one is not about its lease.
      have hne : stmt.lease? ≠ some A := by
        by_cases hd : d = c
        · subst hd
          exact hw.abandoned hold hA
        · exact hown.ne_of_ne hallowed hd (hown.sent hold (lease?_of_fencedOn hA))
      obtain ⟨T, ⟨hconf, hquiet⟩, hphase, huniq⟩ := h.fenced hold hA
      have hquiet' : Quiet (s.submit c stmt) T A :=
        hquiet.submit (by rintro T' holder rfl; exact hne rfl)
          (by rintro T' holder rfl; exact hne rfl)
      refine ⟨T, ⟨?_, hquiet'⟩, ?_, fun hsent' hA' => ?_⟩
      · by_cases hd : d = c
        · subst hd
          rwa [update_self, hw.confirmed]
        · rwa [update_of_ne hd]
      · by_cases hd : d = c
        · subst hd
          rw [update_self]
          exact .inr fun T' hT => (hw.fence hT).1 hold hA
        · rwa [update_of_ne hd]
      · rcases sent_submit hsent' with hsent' | ⟨-, -, rfl⟩
        · exact huniq hsent' hA'
        · exact absurd (lease?_of_fencedOn hA') hne
    · -- The new statement itself.
      obtain ⟨T, ⟨hconf, hquiet⟩, hphase⟩ := hw.fenced hA
      have hT : a.lease.phase.lease? = some (T, A) := by
        rw [hphase]
        rfl
      refine ⟨T, ⟨?_, hquiet.submit ?_ ?_⟩, .inl ?_, fun hsent' hA' => ?_⟩
      · rwa [update_self]
      · rintro T' holder rfl
        cases hA
      · rintro T' holder rfl
        cases hA
      · rwa [update_self]
      · rcases sent_submit hsent' with hsent' | ⟨rfl, -, -⟩
        · exact absurd hA' ((hw.fence hT).1 hsent')
        · rfl

theorem Life.no_claim (hidle : (ag c).lease.phase.Idle)
    (hT : (ag c).lease.phase.lease? = some (T, A)) {sid d T' : Nat} {holder : String} :
    ¬ s.Sent sid d (.claimLease T' A holder) :=
  fun hsent => (hidle.ne A T).1 (h.claimCurrent hT hsent).1

theorem Life.no_fence (hidle : (ag c).lease.phase.Idle)
    (hT : (ag c).lease.phase.lease? = some (T, A)) {sid d : Nat} {st : Write}
    (hsent : s.Sent sid d st) : st.fencedOn ≠ some A :=
  fun hA => (hidle.ne A T).2 (h.fenceCurrent hT hsent hA).1

theorem Life.no_fence_of_mine (hown : Owned leaseIds s ag)
    (hidle : (ag c).lease.phase.Idle) (hmine : (ag c).lease.Mine A) {sid d : Nat} {st : Write}
    (hsent : s.Sent sid d st) : st.fencedOn ≠ some A := by
  intro hA
  rcases hmine with hfresh | ⟨T, fresh, hphase⟩
  · exact hown.unsent hfresh hsent (lease?_of_fencedOn hA)
  · exact h.no_fence hidle (by rw [hphase]; rfl) hsent hA

theorem Life.starts_claim (hown : Owned leaseIds s ag) {holder : String}
    (hidle : (ag c).lease.phase.Idle) (hmine : (ag c).lease.Mine A)
    (hterm : ∀ T₀ fresh, (ag c).lease.phase = .held A T₀ fresh → T₀ < T) :
    Starts s c (ag c).lease ((ag c).lease.start (.write (.claimLease T A holder)))
      (.claimLease T A holder) := by
  have hheld : ∀ {T₀ fresh}, (ag c).lease.phase = .held A T₀ fresh →
      (ag c).lease.phase.lease? = some (T₀, A) := by
    intro T₀ fresh hphase
    rw [hphase]
    rfl
  have hfence : ∀ {sid d st}, s.Sent sid d st → st.fencedOn ≠ some A :=
    h.no_fence_of_mine hown hidle hmine
  refine
    { confirmed := rfl
      pending := ⟨holder, rfl⟩
      rowLe := fun hT hrow => ?_
      releaseOld := fun hT hsent => ?_
      releaseNew := fun _ heq => nomatch heq
      claim := fun hT => ⟨fun hsent => ?_, fun _ => ?_⟩
      fence := fun hT => ⟨fun hsent => ?_, nofun⟩
      abandoned := fun hsent hB hA => ?_
      fenced := nofun } <;> try cases hT
  · rcases hmine with hfresh | ⟨T₀, fresh, hphase⟩
    · exact absurd ⟨_, hrow⟩ (hown.noRow hfresh)
    · exact Nat.le_trans (h.rowLe (hheld hphase) hrow) (Nat.le_of_lt (hterm _ _ hphase))
  · rcases hmine with hfresh | ⟨T₀, fresh, hphase⟩
    · exact absurd rfl (hown.unsent hfresh hsent)
    · have hlt := Nat.lt_of_le_of_lt (h.releaseLe (hheld hphase) hsent).1 (hterm _ _ hphase)
      exact ⟨Nat.le_of_lt hlt, fun heq => absurd heq (Nat.ne_of_lt hlt)⟩
  · rcases hmine with hfresh | ⟨T₀, fresh, hphase⟩
    · exact hown.unsent hfresh hsent rfl
    · exact h.no_claim hidle (hheld hphase) hsent
  · rfl
  · exact hfence hsent
  · cases hA
    exact hfence hsent hB

theorem Life.starts_held {fresh : Bool} {phase : Phase}
    (hphase : (ag c).lease.phase = .held A T fresh) (hstmt : stmt.lease? = some A)
    (hclaim : ∀ T' holder, stmt ≠ .claimLease T' A holder) (hlease : phase.lease? = some (T, A))
    (hpending : PendingOk (some (.write stmt)) phase) (hspent : phase.Spent ∨ fresh = true)
    (hrelease : ∀ {T' holder}, stmt = .releaseLease T' A holder → T' ≤ T ∧ phase.Spent)
    (hfenced : stmt.fencedOn = some A → phase = .fencing A T ∧ fresh = true)
    (hconf : (T, A) ∈ (ag c).lease.confirmed) :
    Starts s c (ag c).lease { (ag c).lease with phase } stmt := by
  have hidle : (ag c).lease.phase.Idle := by
    rw [hphase]
    trivial
  have hT : (ag c).lease.phase.lease? = some (T, A) := by
    rw [hphase]
    rfl
  have hrel : ∀ {sid d T' holder}, s.Sent sid d (.releaseLease T' A holder) →
      T' ≤ T ∧ (T' = T → fresh = false) := by
    intro sid d T' holder hsent
    have hle := h.releaseLe hT hsent
    rw [hphase] at hle
    exact hle
  have hsame : ∀ {T' A'}, phase.lease? = some (T', A') → T' = T ∧ A' = A := fun hx =>
    (Prod.mk.inj (Option.some.inj (hlease.symm.trans hx))).imp Eq.symm Eq.symm
  refine
    { confirmed := rfl
      pending := hpending
      rowLe := fun hx hrow => ?_
      releaseOld := fun hx hsent => ?_
      releaseNew := fun hx heq => ?_
      claim := fun hx => ⟨fun hsent => ?_, fun heq => ?_⟩
      fence := fun hx => ⟨fun hsent => ?_, fun hA => ?_⟩
      abandoned := fun hsent hB hA => ?_
      fenced := fun hA => ?_ } <;> try obtain ⟨rfl, rfl⟩ := hsame hx
  · exact h.rowLe hT hrow
  · obtain ⟨hle, hspent'⟩ := hrel hsent
    refine ⟨hle, fun heq => hspent.resolve_right fun htrue => ?_⟩
    rw [hspent' heq] at htrue
    cases htrue
  · exact ⟨(hrelease heq).1, fun _ => (hrelease heq).2⟩
  · exact h.no_claim hidle hT hsent
  · exact absurd heq (hclaim _ _)
  · exact h.no_fence hidle hT hsent
  · exact (hfenced hA).1
  · obtain rfl := Option.some.inj (hstmt.symm.trans hA)
    exact h.no_fence hidle hT hsent hB
  · obtain rfl := Option.some.inj (hstmt.symm.trans (lease?_of_fencedOn hA))
    refine ⟨T, ⟨hconf, ?_, ?_, ?_⟩, (hfenced hA).1⟩
    · exact h.rowLe hT
    · exact h.no_claim hidle hT
    · intro sid d T' holder hsent
      obtain ⟨hle, hspent'⟩ := hrel hsent
      refine Nat.lt_of_le_of_ne hle fun heq => ?_
      have := hspent' heq
      rw [(hfenced hA).2] at this
      cases this

theorem Life.starts_other (hidle : (ag c).lease.phase.Idle)
    (hstmt : stmt.lease? = none) : Starts s c (ag c).lease (ag c).lease stmt := by
  have hne : ∀ {A}, stmt.lease? ≠ some A := by
    rw [hstmt]
    exact nofun
  exact
    { confirmed := rfl
      pending := hidle.pendingOk fun st hst => by cases hst; exact hstmt
      rowLe := h.rowLe
      releaseOld := h.releaseLe
      releaseNew := fun _ heq => absurd (by rw [heq]; rfl) hne
      claim := fun hT => ⟨h.no_claim hidle hT, fun heq => absurd (by rw [heq]; rfl) hne⟩
      fence := fun hT => ⟨h.no_fence hidle hT,
        fun hA => absurd (lease?_of_fencedOn hA) hne⟩
      abandoned := fun _ _ hA => hne hA
      fenced := fun hA => absurd (lease?_of_fencedOn hA) hne }

/-- **Every statement the protocol allows keeps the life of its lease in order**, given that
a claim is above the term held before and a lease that is held was confirmed. -/
theorem Life.starts (hown : Owned leaseIds s ag) (hp : p c = none)
    (hallowed : (ag c).lease.Allowed stmt)
    (hterm : ∀ {T A holder T₀ fresh}, stmt = .claimLease T A holder →
      (ag c).lease.phase = .held A T₀ fresh → T₀ < T)
    (hconf : ∀ {T A fresh}, (ag c).lease.phase = .held A T fresh →
      (T, A) ∈ (ag c).lease.confirmed) :
    Starts s c (ag c).lease ((ag c).lease.start (.write stmt)) stmt := by
  have hidle : (ag c).lease.phase.Idle := by
    refine (h.pending c).idle ?_
    rw [hp]
    intros
    contradiction
  cases stmt with
  | claimLease T A holder =>
    exact h.starts_claim hown hidle hallowed.1 fun T₀ fresh hphase => hterm rfl hphase
  | releaseLease T A holder =>
    obtain ⟨fresh, hphase⟩ := hallowed
    refine h.starts_held hphase rfl (by rintro _ _ ⟨⟩) rfl ⟨holder, rfl⟩ (.inl trivial)
      ?_ (by intros; contradiction) (hconf hphase)
    intro T' holder' heq
    cases heq
    exact ⟨Nat.le_refl T, trivial⟩
  | manifest version publishId members A | watermark row A =>
    obtain ⟨T, hphase⟩ := hallowed
    simp only [LeaseView.start, LeaseView.fence, hphase]
    exact h.starts_held hphase rfl (by rintro _ _ ⟨⟩) rfl ⟨_, rfl, rfl⟩ (.inr rfl)
      (by intros; contradiction) (fun _ => ⟨rfl, rfl⟩) (hconf hphase)
  | _ => exact h.starts_other hidle rfl

end

end Dmi.Catalog
