import Dmi.Catalog.Moves

/-!
# Statements on their way, and the UUIDs in them

`Traffic` is the bookkeeping of the statements that are on their way: they are numbered in the
order they were sent, a writer that waits for a statement waits for the last one it sent, and
what an admitted statement will do was computed from the statement.

A UUID belongs to the writer that drew it. The lease ids, the publish ids and the claim ids
are used alike: a writer draws an id, sends it for the first time, goes on using it for a
while and then never again, and nobody else ever sends it. An `IdKind` says where the ids of
one kind occur, and `Owned` is what every move keeps of them.
-/

namespace Dmi.Catalog

open Function Server

variable {n : Nat} {cfg : Config} {s s' : Server n} {ag ag' : Nat → Agent}
variable {p p' : Nat → Option Act}

/-! ### Statements on their way -/

/-- Statement `sid` of writer `c` is on its way. -/
def Server.Sent (s : Server n) (sid c : Nat) (stmt : Write) : Prop :=
  ∃ stage, s.flights sid = some ⟨c, stmt, stage⟩

variable {stmt : Write}

theorem Server.not_sent_init (clock : Fin n → Int) {sid c : Nat} :
    ¬ ({ clock } : Server n).Sent sid c stmt := by
  rintro ⟨stage, hf⟩
  cases hf

theorem Server.flights_of_drop {sid sid' : Nat} {f : Flight n}
    (h : (s.drop sid).flights sid' = some f) : s.flights sid' = some f := by
  change update s.flights sid none sid' = some f at h
  by_cases hsid : sid' = sid
  · subst hsid
    rw [update_self] at h
    cases h
  · rwa [update_of_ne hsid] at h

theorem Server.flights_submit {c sid : Nat} {f : Flight n}
    (h : (s.submit c stmt).flights sid = some f) :
    s.flights sid = some f ∨ sid = s.next ∧ f = ⟨c, stmt, .sent⟩ := by
  change update s.flights s.next _ sid = _ at h
  by_cases hsid : sid = s.next
  · subst hsid
    rw [update_self] at h
    exact .inr ⟨rfl, (Option.some.inj h).symm⟩
  · rw [update_of_ne hsid] at h
    exact .inl h

theorem Server.sent_submit {c sid d : Nat} {st : Write} (h : (s.submit c stmt).Sent sid d st) :
    s.Sent sid d st ∨ sid = s.next ∧ d = c ∧ st = stmt := by
  obtain ⟨stage, h⟩ := h
  rcases flights_submit h with h | ⟨hsid, heq⟩
  · exact .inl ⟨stage, h⟩
  · cases heq
    exact .inr ⟨hsid, rfl, rfl⟩

theorem Server.admitted_submit {c sid d : Nat} {st : Write} {h : Fin n} {t : Int} {e : Effect}
    (hf : (s.submit c stmt).flights sid = some ⟨d, st, .admitted h t e⟩) :
    s.flights sid = some ⟨d, st, .admitted h t e⟩ := by
  rcases flights_submit hf with hf | ⟨-, heq⟩
  · exact hf
  · cases heq

theorem Server.not_sent_of_settled {sid c : Nat} (h : s.settled sid = true) :
    ¬ s.Sent sid c stmt := by
  rintro ⟨stage, hf⟩
  simp [settled, hf] at h

theorem Evolves.sent (h : Evolves cfg s s') {sid c : Nat}
    (hsent : s'.Sent sid c stmt) : s.Sent sid c stmt := by
  cases h with
  | tick => exact hsent
  | refuse | abort | land => exact hsent.imp fun _ => flights_of_drop
  | accept sid' host writer stmt' effect hf he =>
    obtain ⟨stage, h⟩ := hsent
    by_cases hsid : sid = sid'
    · subst hsid
      simp only [update_self] at h
      cases h
      exact ⟨.sent, hf⟩
    · simp only [update_of_ne hsid] at h
      exact ⟨stage, h⟩

theorem Evolves.fixed (h : Evolves cfg s s') :
    s'.next = s.next ∧ s'.current = s.current ∧ s'.drawnBy = s.drawnBy := by
  cases h <;> exact ⟨rfl, rfl, rfl⟩

/-- An answer changes nothing of the server but which UUIDs were drawn. -/
theorem Answered.server {c : Nat} {a : Act} {r : a.Res} (h : Answered s c a r s') :
    ∃ drawnBy, s' = { s with drawnBy } := by
  cases h <;> exact ⟨_, rfl⟩

theorem pending_of_update {c d : Nat} {q : Option Act} {a : Act}
    (h : update p c q d = some a) : d = c ∧ q = some a ∨ p d = some a := by
  by_cases hd : d = c
  · subst hd
    rw [update_self] at h
    exact .inl ⟨rfl, h⟩
  · rw [update_of_ne hd] at h
    exact .inr h

structure Traffic (cfg : Config) (s : Server n) (p : Nat → Option Act) : Prop where
  sid_lt : ∀ {sid c stmt}, s.Sent sid c stmt → sid < s.next
  current_lt : ∀ {c stmt}, p c = some (.write stmt) → s.current c < s.next
  current : ∀ {c d stmt stmt'}, p c = some (.write stmt) → s.Sent (s.current c) d stmt' →
    stmt' = stmt
  admits : ∀ {sid c stmt h t e}, s.flights sid = some ⟨c, stmt, .admitted h t e⟩ →
    ∃ db, Admits cfg db t stmt e

section

variable (h : Traffic cfg s p)
include h

theorem Traffic.keep (drawnBy : Id → Option Nat)
    (hp : ∀ {c stmt}, p' c = some (.write stmt) → p c = some (.write stmt)) :
    Traffic cfg { s with drawnBy } p' where
  sid_lt := h.sid_lt
  current_lt hq := h.current_lt (hp hq)
  current hq hsent := h.current (hp hq) hsent
  admits := h.admits

theorem Traffic.evolves (hs : Evolves cfg s s') : Traffic cfg s' p := by
  obtain ⟨hnext, hcurrent, -⟩ := hs.fixed
  refine ⟨fun hsent => ?_, fun hp => ?_, fun hp hsent => ?_, fun hf => ?_⟩
  · rw [hnext]
    exact h.sid_lt (hs.sent hsent)
  · rw [hnext, hcurrent]
    exact h.current_lt hp
  · rw [hcurrent] at hsent
    exact h.current hp (hs.sent hsent)
  · cases hs with
    | tick => exact h.admits hf
    | refuse | abort | land => exact h.admits (flights_of_drop hf)
    | accept sid host writer stmt effect hf' he =>
      rename_i sid' _ _ _ _ _
      by_cases hsid : sid' = sid
      · subst hsid
        simp only [update_self] at hf
        cases hf
        exact ⟨s.db, he⟩
      · simp only [update_of_ne hsid] at hf
        exact h.admits hf

theorem Traffic.submit (c : Nat) (stmt : Write) :
    Traffic cfg (s.submit c stmt) (update p c (some (.write stmt))) := by
  refine ⟨fun hsent => ?_, fun {d st} hp => ?_, fun {d e st st'} hp hsent => ?_, fun hf => ?_⟩
  · rcases sent_submit hsent with hsent | ⟨rfl, -, -⟩
    · exact Nat.lt_succ_of_lt (h.sid_lt hsent)
    · exact Nat.lt_succ_self _
  · show update s.current c s.next d < s.next + 1
    by_cases hd : d = c
    · subst hd
      rw [update_self]
      exact Nat.lt_succ_self _
    · rw [update_of_ne hd] at hp ⊢
      exact Nat.lt_succ_of_lt (h.current_lt hp)
  · change (s.submit c stmt).Sent (update s.current c s.next d) e st' at hsent
    by_cases hd : d = c
    · subst hd
      rw [update_self] at hp hsent
      rcases sent_submit hsent with hsent | ⟨-, -, rfl⟩
      · exact absurd rfl (Nat.ne_of_lt (h.sid_lt hsent))
      · cases hp
        rfl
    · rw [update_of_ne hd] at hp hsent
      rcases sent_submit hsent with hsent | ⟨heq, -, -⟩
      · exact h.current hp hsent
      · exact absurd heq (Nat.ne_of_lt (h.current_lt hp))
  · exact h.admits (admitted_submit hf)

theorem Traffic.change (hc : Change cfg s ag p s' ag' p') : Traffic cfg s' p' := by
  have hkeep : ∀ {c q} (drawnBy), (∀ stmt, q ≠ some (Act.write stmt)) →
      Traffic cfg { s with drawnBy } (update p c q) := by
    intro c q drawnBy hq
    refine h.keep drawnBy fun hp => ?_
    rcases pending_of_update hp with ⟨-, heq⟩ | hp
    · exact absurd heq (hq _)
    · exact hp
  cases hc with
  | submit c stmt => exact h.submit c stmt
  | ask c a hidle hallowed ha => exact hkeep s.drawnBy fun stmt heq => ha stmt (Option.some.inj heq)
  | answer c a r s' hpending hr =>
    obtain ⟨drawnBy, rfl⟩ := hr.server
    exact hkeep drawnBy nofun
  | evolve s' hs => exact h.evolves hs
  | crash c => exact hkeep s.drawnBy nofun

end

/-! ### The UUIDs of one kind -/

/-- Where the ids of one kind occur: in a statement, in the tables, and with a writer, unused
or in use. The laws say that a writer sends an id that is unused or in use, that afterwards it
is not unused, and that an id enters the tables in a statement. -/
structure IdKind where
  used : Write → Option Id
  row : Db → Id → Prop
  fresh : Agent → List Id
  inUse : Agent → Id → Prop
  row_apply : ∀ {cfg : Config} {db₀ db : Db} {t : Int} {stmt : Write} {e : Effect} {x : Id},
    Admits cfg db₀ t stmt e → row (e.apply db) x → row db x ∨ used stmt = some x
  own : ∀ {a : Agent} {stmt : Write} {x : Id}, a.Allowed (.write stmt) → used stmt = some x →
    x ∈ fresh a ∨ inUse a x
  fresh_start : ∀ {a : Agent} {stmt : Write} {x : Id}, a.Allowed (.write stmt) →
    x ∈ fresh (a.start (.write stmt)) → x ∈ fresh a ∧ (used stmt = some x → inUse a x)
  inUse_start : ∀ {a : Agent} {stmt : Write} {x : Id}, a.Allowed (.write stmt) →
    inUse (a.start (.write stmt)) x → inUse a x ∨ used stmt = some x
  fresh_uuid : ∀ {a : Agent} {x y : Id}, x ∈ fresh (a.finish .uuid y) → x ∈ fresh a ∨ x = y
  fresh_finish : ∀ {a : Agent} {act : Act} {r : act.Res} {x : Id}, act ≠ .uuid →
    x ∈ fresh (a.finish act r) → x ∈ fresh a
  inUse_finish : ∀ {a : Agent} {act : Act} {r : act.Res} {x : Id},
    inUse (a.finish act r) x → inUse a x
  fresh_reset : ∀ {a : Agent} {x : Id}, x ∈ fresh a.reset → x ∈ fresh a
  inUse_reset : ∀ {a : Agent} {x : Id}, inUse a.reset x → inUse a x

structure Owned (k : IdKind) (s : Server n) (ag : Nat → Agent) : Prop where
  fresh : ∀ {c x}, x ∈ k.fresh (ag c) → s.drawnBy x = some c
  inUse : ∀ {c x}, k.inUse (ag c) x → s.drawnBy x = some c
  sent : ∀ {sid c stmt x}, s.Sent sid c stmt → k.used stmt = some x → s.drawnBy x = some c
  row : ∀ {x}, k.row s.db x → s.drawnBy x ≠ none
  unused : ∀ {c x}, x ∈ k.fresh (ag c) → ¬ k.inUse (ag c) x
  unsent : ∀ {c sid d stmt x}, x ∈ k.fresh (ag c) → s.Sent sid d stmt → k.used stmt ≠ some x
  noRow : ∀ {c x}, x ∈ k.fresh (ag c) → ¬ k.row s.db x

variable {k : IdKind} {x : Id}

theorem IdKind.row_evolves (ht : Traffic cfg s p) (hs : Evolves cfg s s') (h : k.row s'.db x) :
    k.row s.db x ∨ ∃ sid c stmt, s.Sent sid c stmt ∧ k.used stmt = some x := by
  cases hs with
  | tick | accept | refuse | abort => exact .inl h
  | land sid writer stmt host at_ effect hf hmay =>
    obtain ⟨db, hadmits⟩ := ht.admits hf
    exact (k.row_apply hadmits h).imp_right fun hx => ⟨sid, writer, stmt, ⟨_, hf⟩, hx⟩

section

variable (h : Owned k s ag)
include h

theorem Owned.evolves (ht : Traffic cfg s p) (hs : Evolves cfg s s') : Owned k s' ag := by
  have hdrawn := hs.fixed.2.2
  refine ⟨fun hx => ?_, fun hx => ?_, fun hsent hx => ?_, fun hrow => ?_, h.unused,
    fun hx hsent => h.unsent hx (hs.sent hsent), fun hx hrow => ?_⟩
  · rw [hdrawn]
    exact h.fresh hx
  · rw [hdrawn]
    exact h.inUse hx
  · rw [hdrawn]
    exact h.sent (hs.sent hsent) hx
  · rw [hdrawn]
    rcases IdKind.row_evolves ht hs hrow with hrow | ⟨sid, c, stmt, hsent, hused⟩
    · exact h.row hrow
    · exact Option.ne_none_iff_exists'.mpr ⟨c, h.sent hsent hused⟩
  · rcases IdKind.row_evolves ht hs hrow with hrow | ⟨sid, c, stmt, hsent, hused⟩
    · exact h.noRow hx hrow
    · exact h.unsent hx hsent hused

theorem Owned.view {c : Nat} {a : Agent} (hfresh : ∀ {x}, x ∈ k.fresh a → x ∈ k.fresh (ag c))
    (hinUse : ∀ {x}, k.inUse a x → k.inUse (ag c) x) : Owned k s (update ag c a) := by
  have hf : ∀ d x, x ∈ k.fresh (update ag c a d) → x ∈ k.fresh (ag d) :=
    (forall_update_iff ag fun d b => ∀ x, x ∈ k.fresh b → x ∈ k.fresh (ag d)).mpr
      ⟨fun _ => hfresh, fun _ _ _ hx => hx⟩
  have hu : ∀ d x, k.inUse (update ag c a d) x → k.inUse (ag d) x :=
    (forall_update_iff ag fun d b => ∀ x, k.inUse b x → k.inUse (ag d) x).mpr
      ⟨fun _ => hinUse, fun _ _ _ hx => hx⟩
  exact ⟨fun hx => h.fresh (hf _ _ hx), fun hx => h.inUse (hu _ _ hx), h.sent, h.row,
    fun hx hy => h.unused (hf _ _ hx) (hu _ _ hy), fun hx => h.unsent (hf _ _ hx),
    fun hx => h.noRow (hf _ _ hx)⟩

theorem Owned.uuid {c x : Nat} (hx : s.drawnBy x = none) :
    Owned k { s with drawnBy := update s.drawnBy x (some c) }
      (update ag c ((ag c).finish .uuid x)) := by
  have hdrawn : ∀ {y d}, s.drawnBy y = some d → update s.drawnBy x (some c) y = some d := by
    intro y d hy
    rw [update_of_ne, hy]
    rintro rfl
    rw [hx] at hy
    cases hy
  have hf : ∀ d y, y ∈ k.fresh (update ag c ((ag c).finish .uuid x) d) →
      y ∈ k.fresh (ag d) ∨ y = x ∧ d = c :=
    (forall_update_iff ag fun d b => ∀ y, y ∈ k.fresh b → y ∈ k.fresh (ag d) ∨ y = x ∧ d = c).mpr
      ⟨fun _ hy => (k.fresh_uuid hy).imp_right fun hy => ⟨hy, rfl⟩, fun _ _ _ hy => .inl hy⟩
  have hu : ∀ d y, k.inUse (update ag c ((ag c).finish .uuid x) d) y → k.inUse (ag d) y :=
    (forall_update_iff ag fun d b => ∀ y, k.inUse b y → k.inUse (ag d) y).mpr
      ⟨fun _ => k.inUse_finish, fun _ _ _ hy => hy⟩
  refine ⟨fun hy => ?_, fun hy => hdrawn (h.inUse (hu _ _ hy)),
    fun hsent hy => hdrawn (h.sent hsent hy), fun hrow => ?_, fun hy hz => ?_,
    fun hy hsent hz => ?_, fun hy hrow => ?_⟩
  · rcases hf _ _ hy with hy | ⟨rfl, rfl⟩
    · exact hdrawn (h.fresh hy)
    · exact update_self ..
  · obtain ⟨d, hd⟩ := Option.ne_none_iff_exists'.mp (h.row hrow)
    exact Option.ne_none_iff_exists'.mpr ⟨d, hdrawn hd⟩
  · rcases hf _ _ hy with hy | ⟨rfl, rfl⟩
    · exact h.unused hy (hu _ _ hz)
    · exact nomatch hx.symm.trans (h.inUse (hu _ _ hz))
  · rcases hf _ _ hy with hy | ⟨rfl, rfl⟩
    · exact h.unsent hy hsent hz
    · exact nomatch hx.symm.trans (h.sent hsent hz)
  · rcases hf _ _ hy with hy | ⟨rfl, rfl⟩
    · exact h.noRow hy hrow
    · exact h.row hrow hx

theorem Owned.own {c : Nat} (hallowed : (ag c).Allowed (.write stmt))
    (hx : k.used stmt = some x) : s.drawnBy x = some c :=
  (k.own hallowed hx).elim h.fresh h.inUse

theorem Owned.submit {c : Nat} (hallowed : (ag c).Allowed (.write stmt)) :
    Owned k (s.submit c stmt) (update ag c ((ag c).start (.write stmt))) := by
  have hf : ∀ d x, x ∈ k.fresh (update ag c ((ag c).start (.write stmt)) d) →
      x ∈ k.fresh (ag d) ∧ k.used stmt ≠ some x := by
    refine (forall_update_iff ag fun d b => ∀ x, x ∈ k.fresh b →
      x ∈ k.fresh (ag d) ∧ k.used stmt ≠ some x).mpr ⟨fun x hx => ?_, fun d hd x hx => ⟨hx, ?_⟩⟩
    · obtain ⟨hx, hused⟩ := k.fresh_start hallowed hx
      exact ⟨hx, fun heq => h.unused hx (hused heq)⟩
    · intro hused
      have heq := (h.fresh hx).symm.trans (h.own hallowed hused)
      exact hd (Option.some.inj heq)
  have hu : ∀ d x, k.inUse (update ag c ((ag c).start (.write stmt)) d) x →
      k.inUse (ag d) x ∨ d = c ∧ k.used stmt = some x :=
    (forall_update_iff ag fun d b => ∀ x, k.inUse b x →
      k.inUse (ag d) x ∨ d = c ∧ k.used stmt = some x).mpr
      ⟨fun x hx => (k.inUse_start hallowed hx).imp_right fun hx => ⟨rfl, hx⟩,
        fun _ _ _ hx => .inl hx⟩
  refine ⟨fun hx => h.fresh (hf _ _ hx).1, fun hx => ?_, fun hsent hx => ?_, h.row,
    fun hx hy => ?_, fun hx hsent => ?_, fun hx => h.noRow (hf _ _ hx).1⟩
  · rcases hu _ _ hx with hinUse | ⟨rfl, hused⟩
    · exact h.inUse hinUse
    · exact h.own hallowed hused
  · rcases sent_submit hsent with hsent | ⟨-, rfl, rfl⟩
    · exact h.sent hsent hx
    · exact h.own hallowed hx
  · rcases hu _ _ hy with hy | ⟨-, hy⟩
    · exact h.unused (hf _ _ hx).1 hy
    · exact (hf _ _ hx).2 hy
  · rcases sent_submit hsent with hsent | ⟨-, -, rfl⟩
    · exact h.unsent (hf _ _ hx).1 hsent
    · exact (hf _ _ hx).2

/-- **Every move keeps the ownership of the ids of a kind.** -/
theorem Owned.change (ht : Traffic cfg s p)
    (hc : Change cfg s ag p s' ag' p') : Owned k s' ag' := by
  cases hc with
  | submit c stmt hidle hallowed => exact h.submit hallowed
  | ask => exact h
  | answer c a r s' hpending hr =>
    by_cases ha : a = .uuid
    · subst ha
      cases hr with
      | uuid x hx => exact h.uuid hx
    · obtain rfl : s' = s := by
        cases hr <;> first | rfl | exact absurd rfl ha
      exact h.view (k.fresh_finish ha) k.inUse_finish
  | evolve s' hs => exact h.evolves ht hs
  | crash c => exact h.view k.fresh_reset k.inUse_reset

theorem Owned.ne_of_ne {c d : Nat} (hallowed : (ag c).Allowed (.write stmt))
    (hd : d ≠ c) (hx : s.drawnBy x = some d) : k.used stmt ≠ some x := by
  intro hused
  exact hd (Option.some.inj (hx.symm.trans (h.own hallowed hused)))

end

/-- The id was drawn, and no writer will send it again. -/
structure Spent (k : IdKind) (s : Server n) (ag : Nat → Agent) (x : Id) : Prop where
  drawn : s.drawnBy x ≠ none
  not_fresh : ∀ c, x ∉ k.fresh (ag c)
  not_inUse : ∀ c, ¬ k.inUse (ag c) x

theorem Spent.view (h : Spent k s ag x) {c : Nat} {a : Agent} (hfresh : x ∉ k.fresh a)
    (hinUse : ¬ k.inUse a x) : Spent k s (update ag c a) x where
  drawn := h.drawn
  not_fresh := (forall_update_iff ag fun _ b => x ∉ k.fresh b).mpr
    ⟨hfresh, fun d _ => h.not_fresh d⟩
  not_inUse := (forall_update_iff ag fun _ b => ¬ k.inUse b x).mpr
    ⟨hinUse, fun d _ => h.not_inUse d⟩

theorem Spent.uuid {y : Id} (h : Spent k s ag x) {c : Nat} (hy : s.drawnBy y = none) :
    Spent k { s with drawnBy := update s.drawnBy y (some c) }
      (update ag c ((ag c).finish .uuid y)) x := by
  have hne : x ≠ y := by
    rintro rfl
    exact h.drawn hy
  have hview : Spent k s (update ag c ((ag c).finish .uuid y)) x :=
    h.view (fun hx => (k.fresh_uuid hx).elim (h.not_fresh c) hne)
      fun hx => h.not_inUse c (k.inUse_finish hx)
  refine ⟨?_, hview.not_fresh, hview.not_inUse⟩
  show update s.drawnBy y (some c) x ≠ none
  rw [update_of_ne hne]
  exact h.drawn

/-- **A spent id stays spent.** -/
theorem Spent.change (h : Spent k s ag x) (hc : Change cfg s ag p s' ag' p') :
    Spent k s' ag' x := by
  cases hc with
  | submit c stmt hidle hallowed =>
    have hview : Spent k s (update ag c ((ag c).start (.write stmt))) x := by
      refine h.view (fun hx => h.not_fresh c (k.fresh_start hallowed hx).1) fun hx => ?_
      rcases k.inUse_start hallowed hx with hinUse | hused
      · exact h.not_inUse c hinUse
      · exact (k.own hallowed hused).elim (h.not_fresh c) (h.not_inUse c)
    exact ⟨hview.drawn, hview.not_fresh, hview.not_inUse⟩
  | ask => exact h
  | answer c a r s' hpending hr =>
    by_cases ha : a = .uuid
    · subst ha
      cases hr with
      | uuid y hy => exact h.uuid hy
    · obtain rfl : s' = s := by
        cases hr <;> first | rfl | exact absurd rfl ha
      exact h.view (fun hx => h.not_fresh c (k.fresh_finish ha hx))
        fun hx => h.not_inUse c (k.inUse_finish hx)
  | evolve s' hs =>
    refine ⟨?_, h.not_fresh, h.not_inUse⟩
    rw [hs.fixed.2.2]
    exact h.drawn
  | crash c =>
    exact h.view (fun hx => h.not_fresh c (k.fresh_reset hx))
      fun hx => h.not_inUse c (k.inUse_reset hx)

theorem Owned.spent (h : Owned k s ag) {c : Nat} (hx : k.inUse (ag c) x) {a : Agent}
    (hfresh : ∀ y, y ∈ k.fresh a → y ∈ k.fresh (ag c)) (hinUse : ¬ k.inUse a x) :
    Spent k s (update ag c a) x := by
  have hother : ∀ d, s.drawnBy x = some d → d = c := fun d hd =>
    Option.some.inj (hd.symm.trans (h.inUse hx))
  refine ⟨Option.ne_none_iff_exists'.mpr ⟨c, h.inUse hx⟩, ?_, ?_⟩
  · refine (forall_update_iff ag fun _ b => x ∉ k.fresh b).mpr
      ⟨fun hy => h.unused (hfresh x hy) hx, fun d hd hy => hd (hother d (h.fresh hy))⟩
  · refine (forall_update_iff ag fun _ b => ¬ k.inUse b x).mpr
      ⟨hinUse, fun d hd hy => hd (hother d (h.inUse hy))⟩

end Dmi.Catalog
