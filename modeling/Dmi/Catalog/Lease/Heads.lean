import Dmi.Catalog.Lease.Start

/-!
# Terms and what a head read is worth later

A writer claims one term above the head it read. Between the read and the moment the claim
counts, the table moves on: terms rise, rows of the head land late, old terms are collected.
`SeenOk` is what stays true of a head read through all of this, as long as the head is still
at the term that was read: its leases are still there, they expire no later than was read,
and every claim that was confirmed at that term is among them. `Heads` says so for every read
a writer holds and every claim that is on its way.
-/

namespace Dmi.Catalog

open Function List LeaseHead Db

variable {n : Nat} {cfg : Config} {s s' : Server n} {ag : Nat → Agent} {p : Nat → Option Act}
variable {db db' : Db} {clock clock' : Fin n → Int} {conf conf' : Nat → Id → Prop} {sn : Seen}

/-! ### Head reads -/

structure SeenOk (db : Db) (clock : Fin n → Int) (conf : Nat → Id → Prop) (sn : Seen) : Prop where
  term_le : sn.term ≤ db.headTerm
  now_le : sn.leases ≠ [] → ∃ h, sn.now ≤ clock h
  nonempty : sn.term ≠ 0 → sn.leases ≠ []
  rows : db.headTerm = sn.term → ∀ x ∈ sn.leases,
    db.HasLease sn.term x.1 ∧ db.expiry sn.term x.1 ≤ x.2
  confirmed : db.headTerm = sn.term → ∀ {A}, conf sn.term A → ∃ e, (A, e) ∈ sn.leases

theorem SeenOk.step (h : SeenOk db clock conf sn) (hdb : LeasesStep db db')
    (hclock : ∀ h, clock h ≤ clock' h) : SeenOk db' clock' conf sn where
  term_le := Nat.le_trans h.term_le hdb.headTerm_le
  now_le hne := by
    obtain ⟨host, hnow⟩ := h.now_le hne
    exact ⟨host, le_trans hnow (hclock host)⟩
  nonempty := h.nonempty
  rows heq x hx := by
    have hhead : db.headTerm = sn.term :=
      Nat.le_antisymm (heq ▸ hdb.headTerm_le) h.term_le
    obtain ⟨hrow, hexp⟩ := h.rows hhead x hx
    have hle : db.headTerm ≤ sn.term := Nat.le_of_eq hhead
    exact ⟨hdb.hasLease hle hrow, le_trans (hdb.expiry_le hle hrow) hexp⟩
  confirmed heq := h.confirmed (Nat.le_antisymm (heq ▸ hdb.headTerm_le) h.term_le)

/-- `A` is alone at a term. -/
structure Alone (db : Db) (T : Nat) (A : Id) : Prop where
  pos : 0 < T
  row : db.HasLease T A
  only : ∀ {B}, db.HasLease T B → B = A

/-- A claim that is confirmed is among the leases of every read of its term, since they are
still there and it is alone. -/
theorem SeenOk.confirm (h : SeenOk db clock conf sn)
    (hconf : ∀ {T A}, conf' T A → conf T A ∨ Alone db T A) : SeenOk db clock conf' sn where
  term_le := h.term_le
  now_le := h.now_le
  nonempty := h.nonempty
  rows := h.rows
  confirmed heq {A} hA := by
    rcases hconf hA with hA | halone
    · exact h.confirmed heq hA
    · obtain ⟨⟨B, e⟩, hmem⟩ := exists_mem_of_ne_nil _ (h.nonempty (Nat.ne_of_gt halone.pos))
      obtain rfl := halone.only (h.rows heq _ hmem).1
      exact ⟨e, hmem⟩

theorem LeaseHead.term_ofRows_headRows (now : Int) :
    (ofRows (db.headRows now)).term = db.headTerm := by
  cases hl : db.leases with
  | nil =>
    have hhead : db.headTerm = 0 := by
      rw [headTerm, hl]
      rfl
    have hrows : db.headRows now = [] := by
      simp [headRows, leasesAt, leaseRows, hl]
    rw [hrows, hhead]
    rfl
  | cons r rs =>
    have hne : db.leasesAt db.headTerm ≠ [] := by
      refine leasesAt_headTerm_ne_nil ?_
      rw [hl]
      exact cons_ne_nil r rs
    obtain ⟨A, rest, heq⟩ := exists_cons_of_ne_nil hne
    simp only [headRows, heq, map_cons, ofRows]

theorem Seen.leases_ofRows_headRows (now : Int) :
    (Seen.ofRows (db.headRows now)).leases
      = (db.leasesAt db.headTerm).map fun A => (A, db.expiry db.headTerm A) := by
  simp only [Seen.ofRows, headRows, map_map, Function.comp_def]

theorem SeenOk.read (host : Fin n)
    (hconf : ∀ {T A}, conf T A → db.headTerm = T → db.HasLease T A) :
    SeenOk db clock conf (Seen.ofRows (db.headRows (clock host))) := by
  have hterm : (Seen.ofRows (db.headRows (clock host))).term = db.headTerm :=
    term_ofRows_headRows _
  refine ⟨Nat.le_of_eq hterm, fun hne => ⟨host, ?_⟩, fun hne => ?_, fun _ x hx => ?_,
    fun _ {A} hA => ?_⟩
  · rw [Seen.leases_ofRows_headRows] at hne
    obtain ⟨A, rest, heq⟩ := exists_cons_of_ne_nil (map_eq_nil_iff.not.mp hne)
    simp only [Seen.ofRows, headRows, heq, map_cons, ofRows]
    exact le_refl _
  · rw [Seen.leases_ofRows_headRows]
    intro hnil
    refine absurd (map_eq_nil_iff.mp hnil) (leasesAt_headTerm_ne_nil fun hl => hne ?_)
    rw [hterm, headTerm, hl]
    rfl
  · rw [Seen.leases_ofRows_headRows] at hx
    obtain ⟨A, hA, rfl⟩ := mem_map.mp hx
    rw [hterm]
    exact ⟨mem_leasesAt.mp hA, le_refl _⟩
  · rw [hterm] at hA
    rw [Seen.leases_ofRows_headRows]
    exact ⟨_, mem_map.mpr ⟨A, mem_leasesAt.mpr (hconf hA rfl), rfl⟩⟩

/-! ### The invariant -/

/-- Some writer read its claim of term `T` back alone. -/
def Confirmed (ag : Nat → Agent) (T : Nat) (A : Id) : Prop :=
  ∃ c, (T, A) ∈ (ag c).lease.confirmed

/-- The lease a writer took to be its own. -/
def Phase.held? : Phase → Option (Nat × Id)
  | .held id term _ => some (term, id)
  | .fencing id term => some (term, id)
  | .releasing id term => some (term, id)
  | _ => none

structure Heads (s : Server n) (ag : Nat → Agent) : Prop where
  rowPos : ∀ {T A}, s.db.HasLease T A → 0 < T
  claim : ∀ {sid c T A h}, s.Sent sid c (.claimLease T A h) →
    ∃ sn, SeenOk s.db s.clock (Confirmed ag) sn ∧ T = sn.term + 1 ∧ sn.Free A
  release : ∀ {sid c T A h}, s.Sent sid c (.releaseLease T A h) → 0 < T ∧ T ≤ s.db.headTerm
  collect : ∀ {sid c T}, s.Sent sid c (.deleteLeases T) → T ≤ s.db.headTerm
  headTerm_le : ∀ c, (ag c).collect.headTerm ≤ s.db.headTerm
  seen : ∀ {c sn}, (ag c).lease.seen = some sn → SeenOk s.db s.clock (Confirmed ag) sn
  confirmed : ∀ {T A}, Confirmed ag T A →
    (0 < T ∧ T ≤ s.db.headTerm) ∧ (s.db.headTerm = T → s.db.HasLease T A)
  sole : ∀ {T A B}, Confirmed ag T A → Confirmed ag T B → s.db.headTerm = T → A = B
  held : ∀ {c T A}, (ag c).lease.phase.held? = some (T, A) →
    (T, A) ∈ (ag c).lease.confirmed ∧ ∀ {sn}, (ag c).lease.seen = some sn → T ≤ sn.term

theorem Heads.drawnBy (h : Heads s ag) (drawnBy : Id → Option Nat) : Heads { s with drawnBy } ag :=
  ⟨h.rowPos, h.claim, h.release, h.collect, h.headTerm_le, h.seen, h.confirmed, h.sole, h.held⟩

/-! ### The server moves on its own -/

theorem Evolves.leasesStep (ht : Traffic cfg s p) (h : Heads s ag) (hs : Evolves cfg s s') :
    LeasesStep s.db s'.db := by
  cases hs with
  | tick | accept | refuse | abort => exact .same rfl
  | land sid writer stmt host at_ effect hf hmay =>
    obtain ⟨db, hadmits⟩ := ht.admits hf
    cases hadmits with
    | claimLease | releaseLease => exact .insert _ rfl
    | deleteLeases term => exact .collect term (h.collect ⟨_, hf⟩) rfl
    | _ => exact .same rfl

theorem Evolves.clock_le (hs : Evolves cfg s s') (h : Fin n) : s.clock h ≤ s'.clock h := by
  cases hs with
  | tick clock hle hskew => exact hle h
  | _ => exact le_refl _

theorem Heads.evolves (h : Heads s ag) (ht : Traffic cfg s p) (hs : Evolves cfg s s') :
    Heads s' ag := by
  have hstep := hs.leasesStep ht h
  have hle := hstep.headTerm_le
  refine
    { rowPos := fun hrow => ?_
      claim := fun hsent => ?_
      release := fun hsent => ?_
      collect := fun hsent => Nat.le_trans (h.collect (hs.sent hsent)) hle
      headTerm_le := fun c => Nat.le_trans (h.headTerm_le c) hle
      seen := fun hsn => (h.seen hsn).step hstep hs.clock_le
      confirmed := fun hA => ?_
      sole := fun hA hB heq => ?_
      held := h.held }
  · rcases hs.hasLease ht hrow with hrow | ⟨sid, c, holder, hsent | hsent⟩
    · exact h.rowPos hrow
    · obtain ⟨sn, -, rfl, -⟩ := h.claim hsent
      exact Nat.succ_pos _
    · exact (h.release hsent).1
  · obtain ⟨sn, hsn, hT, hfree⟩ := h.claim (hs.sent hsent)
    exact ⟨sn, hsn.step hstep hs.clock_le, hT, hfree⟩
  · obtain ⟨hpos, hT⟩ := h.release (hs.sent hsent)
    exact ⟨hpos, Nat.le_trans hT hle⟩
  · obtain ⟨⟨hpos, hT⟩, hrow⟩ := h.confirmed hA
    refine ⟨⟨hpos, Nat.le_trans hT hle⟩, fun heq => ?_⟩
    have hhead := Nat.le_antisymm (heq ▸ hle) hT
    exact hstep.hasLease (Nat.le_of_eq hhead) (hrow hhead)
  · exact h.sole hA hB (Nat.le_antisymm (heq ▸ hle) (h.confirmed hA).1.2)

/-! ### A writer learns or sends something -/

/-- The agent `a` may replace an agent: what is new in it is right at this moment. -/
structure Learns (s : Server n) (conf : Nat → Id → Prop) (a₀ a : Agent) : Prop where
  headTerm_le : a.collect.headTerm ≤ s.db.headTerm
  seen : ∀ {sn}, a.lease.seen = some sn → SeenOk s.db s.clock conf sn
  kept : ∀ x ∈ a₀.lease.confirmed, x ∈ a.lease.confirmed
  confirmed : ∀ {T A}, (T, A) ∈ a.lease.confirmed →
    (T, A) ∈ a₀.lease.confirmed ∨ Alone s.db T A
  held : ∀ {T A}, a.lease.phase.held? = some (T, A) →
    (T, A) ∈ a.lease.confirmed ∧ ∀ {sn}, a.lease.seen = some sn → T ≤ sn.term

variable {c : Nat} {a : Agent}

theorem Heads.learn (h : Heads s ag)
    (ha : Learns s (Confirmed ag) (ag c) a) : Heads s (update ag c a) := by
  have hconf : ∀ {T A}, Confirmed (update ag c a) T A → Confirmed ag T A ∨ Alone s.db T A := by
    rintro T A ⟨d, hd⟩
    by_cases hdc : d = c
    · subst hdc
      rw [update_self] at hd
      exact (ha.confirmed hd).imp_left fun hd => ⟨d, hd⟩
    · rw [update_of_ne hdc] at hd
      exact .inl ⟨d, hd⟩
  -- Two claims confirmed at the head term are the same, whichever was confirmed last.
  have hsole : ∀ {T A B}, Confirmed ag T A ∨ Alone s.db T A → Confirmed ag T B ∨ Alone s.db T B →
      s.db.headTerm = T → A = B := by
    intro T A B hA hB heq
    have hrow : ∀ {X}, Confirmed ag T X ∨ Alone s.db T X → s.db.HasLease T X := by
      rintro X (hX | hX)
      · exact (h.confirmed hX).2 heq
      · exact hX.row
    rcases hA with hA | halone
    · rcases hB with hB | halone
      · exact h.sole hA hB heq
      · exact halone.only (hrow (.inl hA))
    · exact (halone.only (hrow hB)).symm
  refine
    { rowPos := h.rowPos
      claim := fun hsent => ?_
      release := h.release
      collect := h.collect
      headTerm_le := fun d => ?_
      seen := fun {d sn} hsn => ?_
      confirmed := fun hA => ?_
      sole := fun hA hB heq => hsole (hconf hA) (hconf hB) heq
      held := fun {d T A} hheld => ?_ }
  · obtain ⟨sn, hsn, hT, hfree⟩ := h.claim hsent
    exact ⟨sn, hsn.confirm hconf, hT, hfree⟩
  · by_cases hd : d = c
    · subst hd
      rw [update_self]
      exact ha.headTerm_le
    · rw [update_of_ne hd]
      exact h.headTerm_le d
  · by_cases hd : d = c
    · subst hd
      rw [update_self] at hsn
      exact (ha.seen hsn).confirm hconf
    · rw [update_of_ne hd] at hsn
      exact (h.seen hsn).confirm hconf
  · rcases hconf hA with hA | halone
    · exact h.confirmed hA
    · exact ⟨⟨halone.pos, halone.row.le⟩, fun _ => halone.row⟩
  · by_cases hd : d = c
    · subst hd
      rw [update_self] at hheld ⊢
      exact ha.held hheld
    · rw [update_of_ne hd] at hheld ⊢
      exact h.held hheld

theorem Heads.alone (h : Heads s ag) {T : Nat} {A : Id} {rows : List LeaseClaim} {now : Int}
    (hrows : (Query.leaseClaims T).eval s.db now = rows) (hne : rows ≠ [])
    (hall : ∀ r ∈ rows, r.leaseId = A) : Alone s.db T A := by
  subst hrows
  have honly : ∀ {B}, s.db.HasLease T B → B = A := by
    rintro B ⟨r, hr, hT, rfl⟩
    exact hall _ (mem_map.mpr ⟨r, mem_leaseRows.mpr ⟨hr, hT⟩, rfl⟩)
  obtain ⟨r, hr⟩ := exists_mem_of_ne_nil _ hne
  obtain ⟨row, hrow, -⟩ := mem_map.mp hr
  obtain ⟨hmem, hT⟩ := mem_leaseRows.mp hrow
  have hlease : s.db.HasLease T row.leaseId := ⟨row, hmem, hT, rfl⟩
  have heq := honly hlease
  exact ⟨h.rowPos hlease, heq ▸ hlease, honly⟩

theorem Heads.learns_nothing (h : Heads s ag)
    (hcollect : a.collect.headTerm = (ag c).collect.headTerm)
    (hseen : ∀ {sn}, a.lease.seen = some sn → (ag c).lease.seen = some sn)
    (hconf : a.lease.confirmed = (ag c).lease.confirmed)
    (hheld : ∀ {x}, a.lease.phase.held? = some x → (ag c).lease.phase.held? = some x) :
    Learns s (Confirmed ag) (ag c) a where
  headTerm_le := hcollect ▸ h.headTerm_le c
  seen hsn := h.seen (hseen hsn)
  kept x hx := hconf ▸ hx
  confirmed hx := .inl (hconf ▸ hx)
  held hx := by
    obtain ⟨hmem, hle⟩ := h.held (hheld hx)
    exact ⟨hconf ▸ hmem, fun hsn => hle (hseen hsn)⟩

theorem LeaseView.held_acknowledge {v : LeaseView} {ok : Bool} {x : Nat × Id}
    (h : (v.acknowledge ok).phase.held? = some x) : v.phase.held? = some x := by
  unfold acknowledge at h
  split at h <;> first | exact h | (rename_i hphase; rw [hphase]; exact h) | cases h

theorem LeaseView.acknowledge_eq (v : LeaseView) (ok : Bool) :
    (v.acknowledge ok).seen = v.seen ∧ (v.acknowledge ok).confirmed = v.confirmed := by
  unfold acknowledge
  split <;> exact ⟨rfl, rfl⟩

theorem LeaseView.start_eq (v : LeaseView) (act : Act) :
    (v.start act).seen = v.seen ∧ (v.start act).confirmed = v.confirmed := by
  have hfence : v.fence.seen = v.seen ∧ v.fence.confirmed = v.confirmed := by
    unfold fence
    split <;> exact ⟨rfl, rfl⟩
  unfold start
  split <;> first | exact ⟨rfl, rfl⟩ | exact hfence

theorem LeaseView.held_start {v : LeaseView} {stmt : Write} (hallowed : v.Allowed stmt)
    {x : Nat × Id} (h : (v.start (.write stmt)).phase.held? = some x) :
    v.phase.held? = some x := by
  have hfence : v.fence.phase.held? = v.phase.held? := by
    unfold fence
    split
    · rename_i hphase
      rw [hphase]
      rfl
    · rfl
  cases stmt with
  | claimLease => cases h
  | releaseLease T A holder =>
    obtain ⟨fresh, hphase⟩ := hallowed
    rw [hphase]
    exact h
  | manifest | watermark => exact hfence ▸ h
  | _ => exact h

theorem Heads.learns_head (h : Heads s ag) (c : Nat) (host : Fin n) :
    Learns s (Confirmed ag) (ag c) ((ag c).finish (.read .leaseHead)
      (some (Query.leaseHead.eval s.db (s.clock host)))) where
  headTerm_le := by
    refine Nat.max_le.mpr ⟨h.headTerm_le c, Nat.le_of_eq ?_⟩
    exact term_ofRows_headRows _
  seen hsn := by
    obtain rfl := Option.some.inj hsn
    exact .read host fun hA heq => (h.confirmed hA).2 heq
  kept x hx := hx
  confirmed hx := .inl hx
  held hx := by
    obtain ⟨hmem, -⟩ := h.held hx
    refine ⟨hmem, fun hsn => ?_⟩
    obtain rfl := Option.some.inj hsn
    calc _ ≤ s.db.headTerm := (h.confirmed ⟨c, hmem⟩).1.2
      _ = _ := (term_ofRows_headRows _).symm

theorem Heads.learns_readBack (h : Heads s ag) {T : Nat} {rows : List LeaseClaim}
    (hcollect : a.collect = (ag c).collect) (hlease : a.lease = (ag c).lease.readBack T rows)
    (hrows : rows = [] ∨ ∃ now, (Query.leaseClaims T).eval s.db now = rows) :
    Learns s (Confirmed ag) (ag c) a := by
  unfold LeaseView.readBack at hlease
  split at hlease
  · split at hlease
    · rename_i hsole
      obtain ⟨rfl, hne, hall⟩ := hsole
      obtain ⟨now, hnow⟩ := hrows.resolve_left hne
      refine ⟨hcollect ▸ h.headTerm_le c, ?_, ?_, ?_, ?_⟩ <;> rw [hlease]
      · exact nofun
      · exact fun x hx => .tail _ hx
      · intro T A hx
        rcases mem_cons.mp hx with heq | hx
        · cases heq
          exact .inr (h.alone hnow hne hall)
        · exact .inl hx
      · intro T A hx
        cases hx
        exact ⟨.head _, nofun⟩
    · refine h.learns_nothing (by rw [hcollect]) ?_ ?_ ?_ <;> rw [hlease]
      · exact id
      · exact nofun
  · refine h.learns_nothing (by rw [hcollect]) ?_ ?_ ?_ <;> rw [hlease] <;> exact id

/-- **Every answer teaches a writer only what is right at that moment.** -/
theorem Heads.learns (h : Heads s ag) {a : Act} {r : a.Res} (hr : Answered s c a r s') :
    Learns s (Confirmed ag) (ag c) ((ag c).finish a r) := by
  have hack : ∀ {a : Agent} {ok}, a.collect = (ag c).collect →
      a.lease = (ag c).lease.acknowledge ok → Learns s (Confirmed ag) (ag c) a := by
    intro a ok hcollect hlease
    refine h.learns_nothing (by rw [hcollect]) ?_ ?_ ?_ <;> rw [hlease]
    · rw [((ag c).lease.acknowledge_eq ok).1]
      exact id
    · exact ((ag c).lease.acknowledge_eq ok).2
    · exact LeaseView.held_acknowledge
  cases hr with
  | reply stmt hsettled =>
    cases stmt with
    | claimLease | releaseLease | manifest | watermark => exact hack rfl rfl
    | _ => exact h.learns_nothing rfl id rfl id
  | raises stmt =>
    cases stmt with
    | claimLease | releaseLease | manifest | watermark => exact hack rfl rfl
    | _ => exact h.learns_nothing rfl id rfl id
  | read q host =>
    cases q with
    | leaseHead => exact h.learns_head c host
    | leaseClaims T => exact h.learns_readBack rfl rfl (.inr ⟨s.clock host, rfl⟩)
    | orphans published =>
      refine h.learns_nothing ?_ id rfl id
      simp only [Agent.finish, CollectView.finish]
      split <;> rfl
    | _ => exact h.learns_nothing rfl id rfl id
  | readFails q =>
    cases q with
    | leaseHead => exact h.learns_nothing rfl (by intros; contradiction) rfl id
    | leaseClaims T => exact h.learns_readBack rfl rfl (.inl rfl)
    | _ => exact h.learns_nothing rfl id rfl id
  | _ => exact h.learns_nothing rfl id rfl id

/-- A statement is sent: a claim rests on a head read, a tombstone and a collection stay at or
below the head. -/
theorem Heads.submit (h : Heads s ag) {stmt : Write} (hallowed : (ag c).Allowed (.write stmt)) :
    Heads (s.submit c stmt) (update ag c ((ag c).start (.write stmt))) := by
  have hlease : Heads (s.submit c stmt) ag := by
    refine
      { rowPos := h.rowPos
        claim := fun hsent => ?_
        release := fun hsent => ?_
        collect := fun hsent => ?_
        headTerm_le := h.headTerm_le
        seen := h.seen
        confirmed := h.confirmed
        sole := h.sole
        held := h.held } <;>
      rcases Server.sent_submit hsent with hsent | ⟨-, -, rfl⟩
    · exact h.claim hsent
    · obtain ⟨-, sn, hseen, hT, hfree⟩ := hallowed.1
      exact ⟨sn, h.seen hseen, hT, hfree⟩
    · exact h.release hsent
    · obtain ⟨fresh, hphase⟩ := hallowed.1
      exact (h.confirmed ⟨c, (h.held (by rw [hphase]; rfl)).1⟩).1
    · exact h.collect hsent
    · exact Nat.le_trans hallowed.2.2.1 (h.headTerm_le c)
  have hstart := (ag c).lease.start_eq (.write stmt)
  refine hlease.learn (hlease.learns_nothing rfl ?_ hstart.2 ?_)
  · exact fun hsn => hstart.1 ▸ hsn
  · exact LeaseView.held_start hallowed.1

end Dmi.Catalog
