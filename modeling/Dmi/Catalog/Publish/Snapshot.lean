import Dmi.Catalog.Publish.Membership

/-!
# A snapshot never changes

The watermark of a publish is sent after every statement of its manifest is over, and nothing
of the publish is sent later (`Drafts`). So no manifest row lands beside a watermark row that
already stands. New watermark rows are above the head and collected rows belong to orphans,
so the rows inside the snapshot at an observed head stay the same (`snapshot_is_fixed`).
-/

namespace Dmi.Catalog

open Function List PublishView Server

variable {n : Nat} {cfg : Config} {s s' : Server n} {ag ag' : Nat → Agent}
variable {p p' : Nat → Option Act} {db db' : Db}

/-! ### The ids of publishes -/

def Write.publishId? : Write → Option Id
  | .manifest _ publishId _ _ => some publishId
  | .watermark row _ => some row.publishId
  | _ => none

/-- The attempt of a stage, but for its members. -/
def PublishStage.publishId? (stage : PublishStage) : Option Id := stage.attempt?.map (·.publishId)

theorem PublishView.publishId?_acknowledge (v : PublishView) (ok : Bool) :
    (v.acknowledge ok).stage.publishId? = none ∨
      (v.acknowledge ok).stage.publishId? = v.stage.publishId? := by
  unfold acknowledge
  split
  · rename_i hstage
    exact .inr (by rw [hstage]; rfl)
  · rename_i hstage
    exact .inr (by rw [hstage]; rfl)
  · exact .inl rfl

theorem PublishView.publishId?_finish (v : PublishView) (act : Act) (r : act.Res) :
    (v.finish act r).stage.publishId? = none ∨
      (v.finish act r).stage.publishId? = v.stage.publishId? := by
  unfold finish
  split
  · exact .inl rfl
  · exact v.publishId?_acknowledge _
  · exact v.publishId?_acknowledge _
  · unfold readChunk
    split
    · rename_i hstage
      split
      · exact .inr (by rw [hstage]; rfl)
      · exact .inl rfl
    · exact .inr rfl
  · unfold readOwners
    split
    · split <;> exact .inl rfl
    · exact .inr rfl
  · exact .inr rfl
  · exact .inr rfl

theorem PublishView.fresh_finish (v : PublishView) {act : Act} (hact : act ≠ .uuid) (r : act.Res) :
    (v.finish act r).fresh = v.fresh := by
  have hack : ∀ ok, (v.acknowledge ok).fresh = v.fresh := by
    intro ok
    unfold acknowledge
    split <;> rfl
  unfold finish
  split
  · exact absurd rfl hact
  · exact hack _
  · exact hack _
  · unfold readChunk
    split
    · split <;> rfl
    · rfl
  · unfold readOwners
    split
    · split <;> rfl
    · rfl
  · rfl
  · rfl

theorem PublishView.Publishing.own {v : PublishView} {a : Attempt} (h : v.Publishing a) :
    a.publishId ∈ v.fresh ∨ v.stage.publishId? = some a.publishId := by
  rcases h with hstage | ⟨-, -, hfresh⟩
  · exact .inr (by rw [hstage]; rfl)
  · exact .inl hfresh

/-- The ids of publishes. -/
def publishIds : IdKind where
  used := Write.publishId?
  row db x := ∃ r ∈ db.watermarks, r.publishId = x
  fresh a := a.publish.fresh
  inUse a x := a.publish.stage.publishId? = some x
  row_apply := by
    rintro cfg db₀ db t stmt e x hadmits ⟨r, hr, hx⟩
    cases hadmits with
    | watermark row A =>
      rcases List.mem_append.mp hr with hr | hr
      · exact .inl ⟨r, hr, hx⟩
      · obtain rfl := List.mem_singleton.mp hr
        exact .inr (congrArg some hx)
    | _ => exact .inl ⟨r, hr, hx⟩
  own := by
    intro a stmt x hallowed hx
    cases stmt with
    | manifest | watermark =>
      cases hx
      obtain ⟨ms, hpub⟩ := hallowed.2.1
      exact hpub.own
    | _ => cases hx
  fresh_start := by
    intro a stmt x hallowed hx
    cases stmt with
    | manifest | watermark =>
      obtain ⟨hmem, hne⟩ := List.mem_filter.mp hx
      exact ⟨hmem, fun heq => absurd (Option.some.inj heq).symm (of_decide_eq_true hne)⟩
    | _ => exact ⟨hx, nofun⟩
  inUse_start := by
    intro a stmt x hallowed hx
    cases stmt with
    | manifest | watermark =>
      obtain ⟨ms, hpub⟩ := hallowed.2.1
      refine .inr (Eq.trans ?_ hx)
      exact congrArg (fun a : Attempt => some a.publishId) (PublishView.attempt_eq hpub).symm
    | _ => exact .inl hx
  fresh_uuid h := (List.mem_cons.mp h).symm
  fresh_finish := by
    intro a act r x hact hx
    rwa [← a.publish.fresh_finish hact r]
  inUse_finish := by
    intro a act r x hx
    rcases a.publish.publishId?_finish act r with hnone | heq
    · exact nomatch hnone.symm.trans hx
    · exact heq ▸ hx
  fresh_reset h := h
  inUse_reset := nofun

/-! ### Drafts -/

/-- The id of a publish whose watermark was not sent yet. -/
def PublishStage.draft? : PublishStage → Option Id
  | .opened a => some a.publishId
  | .writing a _ => some a.publishId
  | .written a _ => some a.publishId
  | _ => Option.none

def PublishStage.Writing : PublishStage → Prop
  | .writing .. => True
  | _ => False

/-- Nothing of the watermark of a publish was sent. -/
structure Unsealed (s : Server n) (x : Id) : Prop where
  sent : ∀ {sid c row A}, s.Sent sid c (.watermark row A) → row.publishId ≠ x
  row : ∀ r ∈ s.db.watermarks, r.publishId ≠ x

structure Drafts (s : Server n) (ag : Nat → Agent) (p : Nat → Option Act) : Prop where
  pending : ∀ {c}, (ag c).publish.stage.Writing →
    ∃ v x ms A, p c = some (.write (.manifest v x ms A))
  unsealed : ∀ {c x}, (ag c).publish.stage.draft? = some x → Unsealed s x
  current : ∀ {c x sid d v ms A}, (ag c).publish.stage.draft? = some x →
    s.Sent sid d (.manifest v x ms A) → (ag c).publish.stage.Writing ∧ sid = s.current c
  manifest : ∀ {sid c v x ms A}, s.Sent sid c (.manifest v x ms A) → Unsealed s x

theorem PublishStage.publishId?_of_draft {stage : PublishStage} {x : Id}
    (h : stage.draft? = some x) : stage.publishId? = some x := by
  cases stage <;> first | exact h | cases h

theorem Unsealed.evolves {x : Id} (h : Unsealed s x) (ht : Traffic cfg s p)
    (hs : Evolves cfg s s') : Unsealed s' x where
  sent hsent := h.sent (hs.sent hsent)
  row r hr hx := by
    cases hs with
    | tick | accept | refuse | abort => exact h.row r hr hx
    | land sid writer stmt host at_ effect hf hmay =>
      obtain ⟨db, hadmits⟩ := ht.admits hf
      cases hadmits with
      | watermark row A =>
        rcases mem_append.mp hr with hr | hr
        · exact h.row r hr hx
        · obtain rfl := mem_singleton.mp hr
          exact h.sent ⟨_, hf⟩ hx
      | _ => exact h.row r hr hx

variable {c : Nat} {stmt : Write}

theorem Unsealed.submit {x : Id} (h : Unsealed s x)
    (hne : ∀ row A, stmt = .watermark row A → row.publishId ≠ x) :
    Unsealed (s.submit c stmt) x where
  sent hsent := by
    rcases sent_submit hsent with hsent | ⟨-, -, heq⟩
    · exact h.sent hsent
    · exact hne _ _ heq.symm
  row := h.row

theorem Drafts.evolves (h : Drafts s ag p) (ht : Traffic cfg s p) (hs : Evolves cfg s s') :
    Drafts s' ag p where
  pending := h.pending
  unsealed hx := (h.unsealed hx).evolves ht hs
  current hx hsent := hs.fixed.2.1 ▸ h.current hx (hs.sent hsent)
  manifest hsent := (h.manifest (hs.sent hsent)).evolves ht hs

/-- What the writer of a publish may send next: nothing of its watermark was sent, and no
manifest statement of it is on its way. -/
theorem Drafts.publishing (h : Drafts s ag p) (hown : Owned publishIds s ag) {a : Attempt}
    (hpub : (ag c).publish.Publishing a) :
    Unsealed s a.publishId ∧
      ∀ {sid d v ms A}, ¬ s.Sent sid d (.manifest v a.publishId ms A) := by
  rcases hpub with hstage | ⟨-, -, hfresh⟩
  · have hdraft : (ag c).publish.stage.draft? = some a.publishId := by rw [hstage]; rfl
    refine ⟨h.unsealed hdraft, fun hsent => ?_⟩
    have hwriting := (h.current hdraft hsent).1
    rw [hstage] at hwriting
    exact hwriting
  · refine ⟨⟨fun hsent hx => hown.unsent hfresh hsent (congrArg some hx),
      fun r hr hx => hown.noRow hfresh ⟨r, hr, hx⟩⟩, fun hsent => hown.unsent hfresh hsent rfl⟩

/-- A writer's draft after an answer or a crash: it is an earlier one, and no statement of it
is on its way. -/
theorem Drafts.view (h : Drafts s ag p) {a : Agent} {q : Option Act}
    (hwriting : ¬ a.publish.stage.Writing)
    (hdraft : ∀ {x}, a.publish.stage.draft? = some x → (ag c).publish.stage.draft? = some x ∧
      ∀ {sid d v ms A}, ¬ s.Sent sid d (.manifest v x ms A)) :
    Drafts s (update ag c a) (update p c q) where
  pending := by
    intro d hd
    by_cases hdc : d = c
    · subst hdc
      rw [update_self] at hd
      exact absurd hd hwriting
    · rw [update_of_ne hdc] at hd ⊢
      exact h.pending hd
  unsealed := by
    intro d x hx
    by_cases hdc : d = c
    · subst hdc
      rw [update_self] at hx
      exact h.unsealed (hdraft hx).1
    · rw [update_of_ne hdc] at hx
      exact h.unsealed hx
  current := by
    intro d x sid e v ms A hx hsent
    by_cases hdc : d = c
    · subst hdc
      rw [update_self] at hx
      exact absurd hsent (hdraft hx).2
    · rw [update_of_ne hdc] at hx ⊢
      exact h.current hx hsent
  manifest := h.manifest

theorem PublishView.draft_acknowledge (v : PublishView) (ok : Bool) :
    ¬ (v.acknowledge ok).stage.Writing ∧ ∀ {x}, (v.acknowledge ok).stage.draft? = some x →
      v.stage.draft? = some x ∧ ok = true := by
  unfold acknowledge
  split
  · rename_i hstage
    exact ⟨id, fun hx => ⟨by rw [hstage]; exact hx, rfl⟩⟩
  · exact ⟨id, nofun⟩
  · exact ⟨id, nofun⟩

theorem PublishView.draft_finish {v : PublishView} {act : Act} {r : act.Res}
    (hact : ∀ stmt, act ≠ .write stmt) :
    ((v.finish act r).stage.Writing → v.stage.Writing) ∧
      ∀ {x}, (v.finish act r).stage.draft? = some x → v.stage.draft? = some x := by
  unfold finish
  split
  · exact ⟨False.elim, nofun⟩
  · exact absurd rfl (hact _)
  · exact absurd rfl (hact _)
  · unfold readChunk
    split
    · rename_i hstage
      split
      · exact ⟨False.elim, fun hx => by rw [hstage]; exact hx⟩
      · exact ⟨False.elim, nofun⟩
    · exact ⟨id, id⟩
  · unfold readOwners
    split
    · split <;> exact ⟨False.elim, nofun⟩
    · exact ⟨id, id⟩
  · exact ⟨id, id⟩
  · exact ⟨id, id⟩

theorem Drafts.finish (h : Drafts s ag p) {act : Act} {r : act.Res} (hp : p c = some act)
    (hr : Answered s c act r s') :
    Drafts s (update ag c ((ag c).finish act r)) (update p c none) := by
  -- Without a manifest statement to wait for, no statement of the draft is on its way.
  have hidle : (∀ v x ms A, act ≠ .write (.manifest v x ms A)) →
      ¬ (ag c).publish.stage.Writing := by
    intro hact hwriting
    obtain ⟨v, x, ms, A, heq⟩ := h.pending hwriting
    exact hact v x ms A (Option.some.inj (hp.symm.trans heq))
  have hkeep : (∀ v x ms A, act ≠ .write (.manifest v x ms A)) →
      ∀ {b : Agent}, (b.publish.stage.Writing → (ag c).publish.stage.Writing) →
      (∀ {x}, b.publish.stage.draft? = some x → (ag c).publish.stage.draft? = some x) →
      Drafts s (update ag c b) (update p c none) := by
    intro hact b hwriting hdraft
    refine h.view (fun hb => hidle hact (hwriting hb)) fun hx => ⟨hdraft hx, fun hsent => ?_⟩
    exact hidle hact (h.current (hdraft hx) hsent).1
  have hack : ∀ {b : Agent} {ok}, b.publish = (ag c).publish.acknowledge ok →
      (ok = true → s.settled (s.current c) = true) →
      Drafts s (update ag c b) (update p c none) := by
    intro b ok hb hsettled
    obtain ⟨hwriting, hdraft⟩ := (ag c).publish.draft_acknowledge ok
    refine h.view (hb ▸ hwriting) fun hx => ?_
    rw [hb] at hx
    obtain ⟨hx, hok⟩ := hdraft hx
    refine ⟨hx, fun hsent => ?_⟩
    obtain ⟨-, rfl⟩ := h.current hx hsent
    exact not_sent_of_settled (hsettled hok) hsent
  by_cases hwrite : ∃ stmt, act = .write stmt
  · obtain ⟨stmt, rfl⟩ := hwrite
    have hok : r = true → s.settled (s.current c) = true := by
      cases hr with
      | reply stmt hsettled => exact fun _ => hsettled
      | raises => exact nofun
    cases stmt with
    | manifest | watermark => exact hack rfl hok
    | _ => exact hkeep nofun id id
  · have hnot : ∀ stmt, act ≠ .write stmt := fun stmt heq => hwrite ⟨stmt, heq⟩
    have hdraft := draft_finish (v := (ag c).publish) (r := r) hnot
    exact hkeep (fun v x ms A => hnot _) hdraft.1 hdraft.2

/-- The draft of a writer that sends a statement: the one it had, with another id than the
statement, or that of the statement. -/
theorem PublishView.draft_start {v : PublishView} (hallowed : v.Allowed stmt) {x : Id}
    (hx : (v.start (.write stmt)).stage.draft? = some x) :
    (v.stage.draft? = some x ∧ ∀ y, stmt.publishId? ≠ some y) ∨
      stmt.publishId? = some x ∧ ∀ row A, stmt ≠ .watermark row A := by
  cases stmt with
  | manifest v x ms A =>
    obtain ⟨ms, hpub⟩ := hallowed
    refine .inr ⟨Eq.trans ?_ hx, nofun⟩
    exact congrArg (fun a : Attempt => some a.publishId) (attempt_eq hpub).symm
  | watermark => cases hx
  | _ => exact .inl ⟨hx, nofun⟩

theorem Drafts.submit (h : Drafts s ag p) (hown : Owned publishIds s ag) (hp : p c = none)
    (hallowed : (ag c).Allowed (.write stmt)) :
    Drafts (s.submit c stmt) (update ag c ((ag c).start (.write stmt)))
      (update p c (some (.write stmt))) := by
  have hnotWriting : ¬ (ag c).publish.stage.Writing := by
    intro hwriting
    obtain ⟨v, x, ms, A, heq⟩ := h.pending hwriting
    rw [hp] at heq
    cases heq
  -- The statement's own publish: nothing of its watermark was sent, and nothing of its manifest
  -- is on its way.
  have hpub : ∀ {x}, stmt.publishId? = some x → Unsealed s x ∧
      ∀ {sid d v ms A}, ¬ s.Sent sid d (.manifest v x ms A) := by
    intro x hx
    cases stmt with
    | manifest | watermark =>
      cases hx
      obtain ⟨ms, hpub⟩ := hallowed.2.1
      exact h.publishing hown hpub
    | _ => cases hx
  have hsealed : ∀ {x}, (stmt.publishId? = some x → ∀ row A, stmt ≠ .watermark row A) →
      ∀ row A, stmt = .watermark row A → row.publishId ≠ x := by
    rintro x hne row A rfl rfl
    exact hne rfl row A rfl
  -- A draft of another writer has another id.
  have hother : ∀ {d x}, d ≠ c → (ag d).publish.stage.draft? = some x →
      stmt.publishId? ≠ some x := fun hd hx =>
    hown.ne_of_ne hallowed hd (hown.inUse (PublishStage.publishId?_of_draft hx))
  refine
    { pending := fun {d} hd => ?_
      unsealed := fun {d x} hx => ?_
      current := fun {d x sid e v ms A} hx hsent => ?_
      manifest := fun {sid d v x ms A} hsent => ?_ }
  · by_cases hdc : d = c
    · subst hdc
      rw [update_self] at hd ⊢
      cases stmt with
      | manifest v x ms A => exact ⟨v, x, ms, A, rfl⟩
      | watermark => exact hd.elim
      | _ => exact absurd hd hnotWriting
    · rw [update_of_ne hdc] at hd ⊢
      exact h.pending hd
  · by_cases hdc : d = c
    · subst hdc
      rw [update_self] at hx
      rcases draft_start hallowed.2.1 hx with ⟨hx, hne⟩ | ⟨hx, hne⟩
      · exact (h.unsealed hx).submit (hsealed fun heq => absurd heq (hne x))
      · exact (hpub hx).1.submit (hsealed fun _ => hne)
    · rw [update_of_ne hdc] at hx
      exact (h.unsealed hx).submit (hsealed fun heq => absurd heq (hother hdc hx))
  · show _ ∧ sid = update s.current c s.next d
    by_cases hdc : d = c
    · subst hdc
      rw [update_self] at hx ⊢
      rw [update_self]
      rcases sent_submit hsent with hsent | ⟨rfl, -, heq⟩
      · rcases draft_start hallowed.2.1 hx with ⟨hx, -⟩ | ⟨hx, -⟩
        · exact absurd (h.current hx hsent).1 hnotWriting
        · exact absurd hsent (hpub hx).2
      · subst heq
        exact ⟨trivial, rfl⟩
    · rw [update_of_ne hdc] at hx ⊢
      rw [update_of_ne hdc]
      rcases sent_submit hsent with hsent | ⟨-, -, heq⟩
      · exact h.current hx hsent
      · exact absurd (by rw [← heq]; rfl) (hother hdc hx)
  · rcases sent_submit hsent with hsent | ⟨-, -, heq⟩
    · refine (h.manifest hsent).submit (hsealed fun hx => ?_)
      exact absurd hsent (hpub hx).2
    · subst heq
      exact (hpub rfl).1.submit nofun

theorem Drafts.change (h : Drafts s ag p) (hown : Owned publishIds s ag) (ht : Traffic cfg s p)
    (hc : Change cfg s ag p s' ag' p') : Drafts s' ag' p' := by
  cases hc with
  | submit c stmt hidle hallowed => exact h.submit hown hidle hallowed
  | ask c a hidle hallowed ha =>
    refine ⟨fun {d} hd => ?_, h.unsealed, h.current, h.manifest⟩
    obtain ⟨v, x, ms, A, hp⟩ := h.pending hd
    by_cases hdc : d = c
    · subst hdc
      rw [hidle] at hp
      cases hp
    · rw [update_of_ne hdc]
      exact ⟨v, x, ms, A, hp⟩
  | answer c a r s' hpending hr =>
    have hfinish := h.finish hpending hr
    obtain ⟨drawnBy, rfl⟩ := hr.server
    exact ⟨hfinish.pending, fun hx => ⟨(hfinish.unsealed hx).sent, (hfinish.unsealed hx).row⟩,
      hfinish.current, fun hsent => ⟨(hfinish.manifest hsent).sent, (hfinish.manifest hsent).row⟩⟩
  | evolve s' hs => exact h.evolves ht hs
  | crash c => exact h.view id nofun

/-! ### The snapshot -/

/-- What holds of the snapshots in every reachable state. -/
structure SnapshotInv (cfg : Config) (s : Server n) (ag : Nat → Agent) (p : Nat → Option Act) :
    Prop where
  publish : PublishInv cfg s ag p
  owned : Owned publishIds s ag
  drafts : Drafts s ag p

theorem SnapshotInv.change (h : SnapshotInv cfg s ag p) (hc : Change cfg s ag p s' ag' p') :
    SnapshotInv cfg s' ag' p' where
  publish := h.publish.change hc
  owned := h.owned.change h.publish.lease.traffic hc
  drafts := h.drafts.change h.owned h.publish.lease.traffic hc

theorem SnapshotInv.init (cl : Cluster) :
    SnapshotInv cl.toConfig (n := cl.hosts) { clock := cl.clock } (fun _ => {}) fun _ => none where
  publish := PublishInv.init cl
  owned := ⟨nofun, nofun, fun hsent => absurd hsent (not_sent_init cl.clock),
    fun ⟨_, hr, _⟩ => (not_mem_nil hr).elim, nofun, nofun, nofun⟩
  drafts := ⟨False.elim, nofun, nofun, fun hsent => absurd hsent (not_sent_init cl.clock)⟩

theorem WatermarksStep.filter_eq (h : WatermarksStep db db') {W : Nat} (hW : W ≤ db.published) :
    db'.watermarks.filter (·.indexVersion ≤ W) = db.watermarks.filter (·.indexVersion ≤ W) := by
  cases h with
  | same h => rw [h]
  | insert row habove h =>
    have hnot : ¬ row.indexVersion ≤ W := Nat.not_le.mpr (Nat.lt_of_le_of_lt hW habove)
    rw [h, filter_append, filter_cons_of_neg (by simpa using hnot), filter_nil,
      append_nil]

theorem Db.mem_publishes_of_le {W : Nat} {pair : Nat × Id}
    (h : pair ∈ (db.watermarks.filter (·.indexVersion ≤ W)).map (·.publish)) :
    pair ∈ db.publishes := by
  obtain ⟨r, hr, rfl⟩ := mem_map.mp h
  exact mem_map_of_mem (mem_of_mem_filter hr)

/-- **No step changes the manifest rows inside an observed snapshot.** -/
theorem SnapshotInv.rows_eq (h : SnapshotInv cfg s ag p) (hc : Change cfg s ag p s' ag' p')
    {W : Nat} (hW : W ≤ s.db.published) :
    s'.db.publishedManifestRows W = s.db.publishedManifestRows W := by
  have hpubs := (h.publish.grows hc).watermarks.filter_eq hW
  unfold Db.publishedManifestRows
  rw [hpubs]
  cases hc with
  | submit | ask | crash => rfl
  | answer c a r s' hpending hr =>
    obtain ⟨drawnBy, rfl⟩ := hr.server
    rfl
  | evolve s' hs =>
    cases hs with
    | tick | accept | refuse | abort => rfl
    | land sid writer stmt host at_ effect hf hmay =>
      obtain ⟨db, hadmits⟩ := h.publish.lease.traffic.admits hf
      cases hadmits with
      | manifest version publishId members A =>
        -- No watermark row of this publish stands yet.
        have hunsealed := h.drafts.manifest ⟨_, hf⟩
        refine (filter_append ..).trans ((congrArg _ ?_).trans (append_nil _))
        refine filter_eq_nil_iff.mpr fun r hr hin => ?_
        obtain ⟨m, -, rfl⟩ := mem_map.mp hr
        obtain ⟨row, hrow, heq⟩ := mem_map.mp
          (Db.mem_publishes_of_le (of_decide_eq_true hin).2)
        exact hunsealed.row row hrow (congrArg Prod.snd heq)
      | deleteManifest pairs =>
        -- Only rows of orphans go, and those are not inside.
        refine (filter_filter ..).trans (filter_congr fun r hr => ?_)
        rw [Bool.and_eq_left_iff_imp]
        intro hin
        refine decide_eq_true fun hpair => ?_
        exact (h.publish.bounds.manifest ⟨_, hf⟩ _ hpair).2
          (Db.mem_publishes_of_le (of_decide_eq_true hin).2)
      | _ => rfl

abbrev Conf.SnapshotInv {cl : Cluster} (g : Conf cl) : Prop :=
  Catalog.SnapshotInv cl.toConfig g.world.server g.agent g.pending

/-- **A snapshot never changes.** Once `W` was the published head, the members and member
versions at `W` stay the same. -/
theorem snapshot_is_fixed {cl : Cluster} {s s' : State cl} (hs : Reachable cl s)
    (hs' : Steps cl s s') :
    s'.world.server.db.memberVersions s.world.server.db.published
      = s.world.server.db.memberVersions s.world.server.db.published := by
  generalize hW : s.world.server.db.published = W
  have hcarry := Proc.reaches_carries (machine_sound cl) (I := Conf.SnapshotInv)
    (SnapshotInv.init cl) (fun _ _ hinv hmove => hinv.change (Move.change hmove))
    (R := fun w => W ≤ w.server.db.published ∧
      w.server.db.publishedManifestRows W = s.world.server.db.publishedManifestRows W)
    (fun g g' hinv hmove hR => ⟨?_, ?_⟩) hs hs' ⟨Nat.le_of_eq hW.symm, rfl⟩
  · unfold Db.memberVersions
    rw [hcarry.2]
  · exact Nat.le_trans hR.1 (hinv.publish.grows (Move.change hmove)).watermarks.published_le
  · exact (hinv.rows_eq (Move.change hmove) hR.1).trans hR.2

/-- A second publish leaves the snapshot of the first one alone. -/
theorem snapshot_is_fixed_second_publish : ∃ s s' : State oneHost,
    (s.world.server.db.published = 1 ∧ s'.world.server.db.published = 2) ∧
      s'.world.server.db.memberVersions 1 = [(("store", "a"), 1)] := by
  let second : Schedule.Labels := Schedule.index 0 ⟨"b", "store", "key", 0, "", 0⟩ ++
    Schedule.indexed 0 103 104 7
  obtain ⟨s, hs, hhead, hmembers, hrun⟩ := exists_steps_of_run (machine oneHost).init
    (Q := fun s : State oneHost => s.world.server.db.published = 1 ∧
      s.world.server.db.memberVersions 1 = [(("store", "a"), 1)] ∧
      (Proc.run (machine oneHost) s second).any
        (fun s' => decide (s'.world.server.db.published = 2)) = true)
    (Schedule.acquire 0 100 0 ++ Schedule.index 0 ⟨"a", "store", "key", 0, "", 0⟩ ++
      Schedule.indexed 0 101 102 1) (by decide +kernel)
  obtain ⟨s', hs', hhead'⟩ := exists_steps_of_run s second hrun
  have hfixed := snapshot_is_fixed hs hs'
  rw [hhead] at hfixed
  exact ⟨s, s', ⟨hhead, hhead'⟩, hfixed.trans hmembers⟩

/-- **What is published stays published**; the head never goes back. -/
theorem catalog_only_grows {cl : Cluster} {s s' : State cl} (hs : Reachable cl s)
    (hs' : Steps cl s s') : s.world.server.db.published ≤ s'.world.server.db.published ∧
      ∀ m, s.world.server.db.Member m → s'.world.server.db.Member m :=
  Proc.reaches_carries (machine_sound cl) (I := Conf.SnapshotInv) (SnapshotInv.init cl)
    (fun _ _ hinv hmove => hinv.change (Move.change hmove))
    (R := fun w => s.world.server.db.published ≤ w.server.db.published ∧
      ∀ m, s.world.server.db.Member m → w.server.db.Member m)
    (fun _ _ hinv hmove hR =>
      have hgrows := hinv.publish.grows (Move.change hmove)
      ⟨hR.1.trans hgrows.watermarks.published_le, fun m hm => (hR.2 m hm).grows hgrows⟩)
    hs hs' ⟨le_rfl, fun _ hm => hm⟩

/-- Pack `a` is published. The writer dies in its publish of `b`, publishes it anew and collects the
rows of the publish that failed. -/
theorem catalog_only_grows_collected : ∃ s s' : State oneHost,
    (s.world.server.db.published = 1 ∧
      s'.world.server.db.manifest.map (·.publish) = [(1, 102), (3, 107)]) ∧
    1 ≤ s'.world.server.db.published ∧ s'.world.server.db.Member ("store", "a") := by
  let b : Schedule.Labels := Schedule.index 0 ⟨"b", "store", "key", 0, "", 0⟩
  let rest := b ++ Schedule.orphaned 0 103 104 7 ++ Schedule.acquire 0 105 10 ++ b ++
    Schedule.indexed 0 106 107 11 ++ Schedule.collectOrphan 0 17
  obtain ⟨s, hs, hhead, hmember, hrun⟩ := exists_steps_of_run (machine oneHost).init
    (Q := fun s : State oneHost => s.world.server.db.published = 1 ∧
      (∃ r ∈ s.world.server.db.manifest, r.publish ∈ s.world.server.db.publishes ∧
        r.member = ("store", "a")) ∧
      (Proc.run (machine oneHost) s rest).any (fun s' =>
        decide (s'.world.server.db.manifest.map (·.publish) = [(1, 102), (3, 107)])) = true)
    (Schedule.acquire 0 100 0 ++ Schedule.index 0 ⟨"a", "store", "key", 0, "", 0⟩ ++
      Schedule.indexed 0 101 102 1) (by decide +kernel)
  obtain ⟨s', hs', hcollected⟩ := exists_steps_of_run s rest hrun
  obtain ⟨hle, hkept⟩ := catalog_only_grows hs hs'
  exact ⟨s, s', ⟨hhead, hcollected⟩, hhead ▸ hle, hkept _ hmember⟩

end Dmi.Catalog
