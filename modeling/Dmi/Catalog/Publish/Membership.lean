import Dmi.Catalog.Publish.Watermark
import Mathlib.Data.List.Perm.Subperm

/-!
# The inventory holds only packs that a snapshot contains

A publish writes the members of its manifest chunk by chunk and reads every chunk back. From
then on the rows are there, or the publish has become an orphan: only orphans are collected.
So once the watermark row stands, all its members have their rows, and keep them for ever
(`Members`). A writer commits a pack to the inventory only after it has seen the watermark
row, and `index` skips a pack only if it found it in the inventory.
-/

namespace Dmi.Catalog

open Function List

variable {n : Nat} {cfg : Config} {s s' : Server n} {ag ag' : Nat → Agent}
variable {p p' : Nat → Option Act} {db db' : Db}

/-- A publish that reached the watermark log has a manifest row for the pack. -/
def Db.Member (db : Db) (m : PackIdentity) : Prop :=
  ∃ r ∈ db.manifest, r.publish ∈ db.publishes ∧ r.member = m

/-- The members of an attempt have their rows, unless it is an orphan. -/
def Db.Written (db : Db) (a : Attempt) : Prop :=
  ∀ m ∈ a.members, ⟨a.version, a.publishId, m⟩ ∈ db.manifest ∨ db.Orphan (a.version, a.publishId)

/-! ### How the two tables change -/

/-- Nothing is lost of the watermarks, and of the manifest only rows of orphans. -/
structure Grows (db db' : Db) : Prop where
  watermarks : WatermarksStep db db'
  manifest : ∀ r ∈ db.manifest, r ∈ db'.manifest ∨ db.Orphan r.publish

theorem Grows.refl (db : Db) : Grows db db := ⟨.same rfl, fun _ hr => .inl hr⟩

theorem Grows.keeps (h : Grows db db') {r : ManifestRow} (hr : r ∈ db.manifest)
    (hpub : r.publish ∈ db.publishes) : r ∈ db'.manifest ∧ r.publish ∈ db'.publishes :=
  ⟨(h.manifest r hr).resolve_right fun horphan => horphan.2 hpub, h.watermarks.publishes hpub⟩

theorem Db.Member.grows {m : PackIdentity} (h : db.Member m) (hdb : Grows db db') :
    db'.Member m := by
  obtain ⟨r, hr, hpub, hm⟩ := h
  obtain ⟨hr', hpub'⟩ := hdb.keeps hr hpub
  exact ⟨r, hr', hpub', hm⟩

theorem Db.Written.grows {a : Attempt} (h : db.Written a) (hdb : Grows db db') :
    db'.Written a := by
  intro m hm
  rcases h m hm with hr | horphan
  · exact (hdb.manifest _ hr).imp_right fun horphan => horphan.step hdb.watermarks
  · exact .inr (horphan.step hdb.watermarks)

theorem Evolves.grows (ht : Traffic cfg s p) (hb : Bounds s ag)
    (hwm : WatermarksStep s.db s'.db) (hs : Evolves cfg s s') : Grows s.db s'.db := by
  refine ⟨hwm, fun r hr => ?_⟩
  cases hs with
  | tick | accept | refuse | abort => exact .inl hr
  | land sid writer stmt host at_ effect hf hmay =>
    obtain ⟨db, hadmits⟩ := ht.admits hf
    cases hadmits with
    | manifest => exact .inl (mem_append_left _ hr)
    | deleteManifest pairs =>
      by_cases hpair : r.publish ∈ pairs
      · exact .inr (hb.manifest ⟨_, hf⟩ _ hpair)
      · exact .inl (mem_filter.mpr ⟨hr, decide_eq_true hpair⟩)
    | _ => exact .inl hr

/-! ### Read-backs -/

variable {version : Nat}

theorem Db.mem_of_manifestCount {publishId : Id} {members : List PackIdentity}
    (h : db.manifestCount version publishId (some members) = members.dedup.length) :
    ∀ m ∈ members, ⟨version, publishId, m⟩ ∈ db.manifest := by
  intro m hm
  unfold manifestCount at h
  generalize hrows : (db.manifest.filter fun r => decide (r.indexVersion = version ∧
    r.publishId = publishId ∧ ∀ ms ∈ some members, r.member ∈ ms)) = rows at h
  have hrow : ∀ r ∈ rows, r ∈ db.manifest ∧ r.indexVersion = version ∧ r.publishId = publishId ∧
      r.member ∈ members := by
    intro r hr
    rw [← hrows, mem_filter] at hr
    obtain ⟨hr, hv, hid, hmem⟩ := hr.1, of_decide_eq_true hr.2
    exact ⟨hr, hv, hid, hmem members rfl⟩
  have hsub : (rows.map (·.member)).dedup.Subperm members.dedup := by
    refine (nodup_dedup _).subperm fun x hx => mem_dedup.mpr ?_
    obtain ⟨r, hr, rfl⟩ := mem_map.mp (mem_dedup.mp hx)
    exact (hrow r hr).2.2.2
  have hperm := hsub.perm_of_length_le (Nat.le_of_eq h.symm)
  have hmem := hperm.symm.subset (mem_dedup.mpr hm)
  obtain ⟨r, hr, rfl⟩ := mem_map.mp (mem_dedup.mp hmem)
  obtain ⟨hr, rfl, rfl, -⟩ := hrow r hr
  exact hr

/-! ### The invariant -/

def PublishStage.attempt? : PublishStage → Option Attempt
  | .none => Option.none
  | .opened a => some a
  | .writing a _ => some a
  | .written a _ => some a
  | .announcing a => some a
  | .announced a => some a

/-- What a writer knows of its own publish and of the visible packs is right. -/
structure PublishView.Right (v : PublishView) (db : Db) : Prop where
  attempt : ∀ {a}, v.stage.attempt? = some a → db.Written a
  visible : ∀ m ∈ v.visible, db.Member m

structure Members (s : Server n) (ag : Nat → Agent) (p : Nat → Option Act) : Prop where
  right : ∀ c, (ag c).publish.Right s.db
  sent : ∀ {sid c refs v}, s.Sent sid c (.inventory refs v) →
    ∀ ref ∈ refs, s.db.Member (identity ref)
  inventory : ∀ x ∈ s.db.inventory, s.db.Member (identity x.1)
  skipping : ∀ {c ids}, p c = some (.skipping ids) → ∀ m ∈ ids, s.db.Member m

variable {v : PublishView}

section

variable (h : v.Right db)
include h

theorem PublishView.Right.grows (hdb : Grows db db') : v.Right db' :=
  ⟨fun ha => (h.attempt ha).grows hdb, fun m hm => (h.visible m hm).grows hdb⟩

theorem PublishView.Right.stage {w : PublishView} (hvisible : w.visible = v.visible)
    (hstage : w.stage.attempt? = none ∨ w.stage.attempt? = v.stage.attempt?) : w.Right db := by
  refine ⟨fun ha => ?_, hvisible ▸ h.visible⟩
  rcases hstage with hnone | heq
  · exact nomatch hnone.symm.trans ha
  · exact h.attempt (heq ▸ ha)

theorem PublishView.Right.acknowledge (ok : Bool) : (v.acknowledge ok).Right db := by
  unfold PublishView.acknowledge
  split
  · rename_i a chunk hstage
    exact h.stage rfl (.inr (by rw [hstage]; rfl))
  · rename_i a hstage
    exact h.stage rfl (.inr (by rw [hstage]; rfl))
  · exact h.stage rfl (.inl rfl)

theorem PublishView.Right.readChunk {publishId : Id} {members : List PackIdentity}
    {count : Option Nat}
    (hcount : ∀ k, count = some k → k = db.manifestCount version publishId (some members)) :
    (v.readChunk version publishId members count).Right db := by
  unfold PublishView.readChunk
  split
  · rename_i a chunk hstage
    split
    · rename_i hfull
      obtain ⟨rfl, rfl, rfl, hk⟩ := hfull
      have hold : db.Written a := h.attempt (by rw [hstage]; rfl)
      refine ⟨fun ha m hm => ?_, h.visible⟩
      cases ha
      rcases mem_append.mp hm with hm | hm
      · exact hold m hm
      · exact .inl (Db.mem_of_manifestCount (hcount _ hk).symm m hm)
    · exact h.stage rfl (.inl rfl)
  · exact h

theorem PublishView.Right.readOwners {owners : List Id}
    (howners : ∀ id ∈ owners, (version, id) ∈ db.publishes) :
    (v.readOwners version owners).Right db := by
  unfold PublishView.readOwners
  split
  · rename_i a hstage
    split
    · rename_i hown
      obtain ⟨rfl, hmem⟩ := hown
      refine ⟨nofun, fun m hm => ?_⟩
      rcases mem_append.mp hm with hm | hm
      · exact h.visible m hm
      · -- The watermark row stands, so the attempt is no orphan and its rows are there.
        have hpub := howners _ hmem
        have hr := (h.attempt (by rw [hstage]; rfl) m hm).resolve_right fun ho => ho.2 hpub
        exact ⟨_, hr, hpub, rfl⟩
    · exact h.stage rfl (.inl rfl)
  · exact h

end

theorem Db.publishes_of_owner {id : Id}
    (h : id ∈ (db.watermarks.filter (·.indexVersion = version)).map (·.publishId)) :
    (version, id) ∈ db.publishes := by
  obtain ⟨r, hr, rfl⟩ := mem_map.mp h
  obtain ⟨hmem, hv⟩ := mem_filter.mp hr
  obtain rfl := of_decide_eq_true hv
  exact mem_map_of_mem hmem

/-- **Every answer teaches a writer only what is right.** -/
theorem PublishView.Right.finish (h : v.Right s.db) {c : Nat} {a : Act} {r : a.Res}
    (hinv : ∀ x ∈ s.db.inventory, s.db.Member (identity x.1))
    (hr : Answered s c a r s') : (v.finish a r).Right s.db := by
  cases hr with
  | read q host =>
    cases q with
    | manifestCount version publishId members =>
      cases members with
      | none => exact h
      | some members =>
        refine h.readChunk fun k hk => ?_
        exact (Option.some.inj hk).symm
    | watermarkOwners version => exact h.readOwners fun id hid => Db.publishes_of_owner hid
    | committed ids =>
      refine ⟨h.attempt, fun m hm => ?_⟩
      rcases mem_append.mp hm with hm | hm
      · exact h.visible m hm
      · obtain ⟨x, hx, rfl⟩ := mem_map.mp (mem_dedup.mp (mem_of_mem_filter hm))
        exact hinv x hx
    | _ => exact h
  | readFails q =>
    cases q with
    | manifestCount version publishId members =>
      cases members with
      | none => exact h
      | some members => exact h.readChunk nofun
    | watermarkOwners version => exact h.readOwners nofun
    | committed ids =>
      refine ⟨h.attempt, fun m hm => ?_⟩
      rcases mem_append.mp hm with hm | hm
      · exact h.visible m hm
      · cases hm
    | _ => exact h
  | reply stmt =>
    cases stmt with
    | manifest | watermark => exact h.acknowledge _
    | _ => exact h
  | raises stmt =>
    cases stmt with
    | manifest | watermark => exact h.acknowledge _
    | _ => exact h
  | uuid => exact h.stage rfl (.inl rfl)
  | _ => exact h

theorem PublishView.Right.publishing (h : v.Right db) {a : Attempt}
    (ha : v.Publishing a) : db.Written a := by
  rcases ha with hstage | ⟨-, hnil, -⟩
  · exact h.attempt (by rw [hstage]; rfl)
  · intro m hm
    rw [hnil] at hm
    cases hm

theorem PublishView.Right.start (h : v.Right db) {stmt : Write}
    (hallowed : v.Allowed stmt) : (v.start (.write stmt)).Right db := by
  cases stmt with
  | manifest version publishId members A | watermark row A =>
    obtain ⟨ms, hpub⟩ := hallowed
    refine ⟨fun ha => ?_, h.visible⟩
    cases ha
    exact (PublishView.attempt_eq hpub).symm ▸ h.publishing hpub
  | _ => exact h

/-! ### The members through every move -/

theorem Members.evolves (h : Members s ag p) (ht : Traffic cfg s p) (hs : Evolves cfg s s')
    (hdb : Grows s.db s'.db) : Members s' ag p := by
  refine ⟨fun c => (h.right c).grows hdb,
    fun hsent ref href => (h.sent (hs.sent hsent) ref href).grows hdb, fun x hx => ?_,
    fun hp m hm => (h.skipping hp m hm).grows hdb⟩
  suffices s.db.Member (identity x.1) from this.grows hdb
  cases hs with
  | tick | accept | refuse | abort => exact h.inventory x hx
  | land sid writer stmt host at_ effect hf hmay =>
    obtain ⟨db, hadmits⟩ := ht.admits hf
    cases hadmits with
    | inventory refs version =>
      rcases mem_append.mp hx with hx | hx
      · exact h.inventory x hx
      · obtain ⟨ref, href, rfl⟩ := mem_map.mp hx
        exact h.sent ⟨_, hf⟩ ref href
    | _ => exact h.inventory x hx

theorem Members.change (h : Members s ag p) (ht : Traffic cfg s p) (hdb : Grows s.db s'.db)
    (hc : Change cfg s ag p s' ag' p') : Members s' ag' p' := by
  have hview : ∀ {c a}, a.publish.Right s.db →
      ∀ d, (update ag c a d).publish.Right s.db := fun ha =>
    (forall_update_iff ag fun _ b => b.publish.Right s.db).mpr ⟨ha, fun d _ => h.right d⟩
  cases hc with
  | submit c stmt hidle hallowed =>
    refine ⟨hview ((h.right c).start hallowed.2.1), fun hsent ref href => ?_, h.inventory,
      fun hp => ?_⟩
    · rcases Server.sent_submit hsent with hsent | ⟨-, -, rfl⟩
      · exact h.sent hsent ref href
      · exact (h.right c).visible _ (hallowed.2.1 ref href)
    · rcases pending_of_update hp with ⟨-, heq⟩ | hp
      · cases heq
      · exact h.skipping hp
  | ask c a hidle hallowed ha =>
    refine ⟨h.right, h.sent, h.inventory, fun hp m hm => ?_⟩
    rcases pending_of_update hp with ⟨-, heq⟩ | hp
    · cases heq
      exact (h.right c).visible m (hallowed m hm)
    · exact h.skipping hp m hm
  | answer c a r s' hpending hr =>
    have hright := hview (c := c) (a := (ag c).finish a r) ((h.right c).finish h.inventory hr)
    obtain ⟨drawnBy, rfl⟩ := hr.server
    refine ⟨hright, h.sent, h.inventory, fun hp => ?_⟩
    rcases pending_of_update hp with ⟨-, heq⟩ | hp
    · cases heq
    · exact h.skipping hp
  | evolve s' hs => exact h.evolves ht hs hdb
  | crash c =>
    refine ⟨hview ((h.right c).stage rfl (.inl rfl)), h.sent, h.inventory, fun hp => ?_⟩
    rcases pending_of_update hp with ⟨-, heq⟩ | hp
    · cases heq
    · exact h.skipping hp

/-- What holds of the publishes in every reachable state. -/
structure PublishInv (cfg : Config) (s : Server n) (ag : Nat → Agent) (p : Nat → Option Act) :
    Prop where
  lease : LeaseInv cfg s ag p
  barrier : Barrier cfg s
  bounds : Bounds s ag
  members : Members s ag p

section

variable (h : PublishInv cfg s ag p) (hc : Change cfg s ag p s' ag' p')
include h hc

theorem PublishInv.grows : Grows s.db s'.db := by
  cases hc with
  | answer c a r s' hpending hr =>
    obtain ⟨drawnBy, rfl⟩ := hr.server
    exact .refl _
  | evolve s' hs => exact hs.grows h.lease.traffic h.bounds (hs.watermarks h.lease h.barrier)
  | submit | ask | crash => exact .refl _

theorem PublishInv.change :
    PublishInv cfg s' ag' p' where
  lease := h.lease.change hc
  barrier := h.barrier.change h.lease hc
  bounds := h.bounds.change (h.grows hc).watermarks hc
  members := h.members.change h.lease.traffic (h.grows hc) hc

end

theorem PublishInv.init (cl : Cluster) :
    PublishInv cl.toConfig (n := cl.hosts) { clock := cl.clock } (fun _ => {}) fun _ => none where
  lease := LeaseInv.init cl
  barrier := ⟨nofun⟩
  bounds := ⟨fun _ => Nat.le_refl 0, fun _ => nofun,
    fun hsent => absurd hsent (Server.not_sent_init cl.clock),
    fun hsent => absurd hsent (Server.not_sent_init cl.clock)⟩
  members := ⟨fun _ => ⟨nofun, nofun⟩, fun hsent => absurd hsent (Server.not_sent_init cl.clock),
    nofun, nofun⟩

/-! ### Every run -/

/-- A publish that reached the watermark log has a manifest row for the pack, in this state and
in all later ones. -/
def State.Contains {cl : Cluster} (s : State cl) (m : PackIdentity) : Prop :=
  ∃ r : ManifestRow, r.member = m ∧ ∀ s', Steps cl s s' →
    r ∈ s'.world.server.db.manifest ∧ r.publish ∈ s'.world.server.db.publishes

abbrev Conf.PublishInv {cl : Cluster} (g : Conf cl) : Prop :=
  Catalog.PublishInv cl.toConfig g.world.server g.agent g.pending

theorem State.contains_of_member {cl : Cluster} {s : State cl} (hs : Reachable cl s)
    {m : PackIdentity} (h : s.world.server.db.Member m) : s.Contains m := by
  obtain ⟨r, hr, hpub, rfl⟩ := h
  refine ⟨r, rfl, fun s' hs' => ?_⟩
  exact Proc.reaches_carries (machine_sound cl) (I := Conf.PublishInv) (PublishInv.init cl)
    (fun _ _ hinv hmove => hinv.change (Move.change hmove))
    (R := fun w => r ∈ w.server.db.manifest ∧ r.publish ∈ w.server.db.publishes)
    (fun _ _ hinv hmove h => (hinv.grows (Move.change hmove)).keeps h.1 h.2) hs hs' ⟨hr, hpub⟩

theorem Turn.skipped {G : World n → Event n → Prop} {w w' : World n}
    (h : Turn cfg G w ag p w' ag' p') {m : PackIdentity} (hm : m ∈ w'.skipped) :
    m ∈ w.skipped ∨ ∃ c ids, p c = some (.skipping ids) ∧ m ∈ ids := by
  cases h with
  | answer c a r s' hpending hr =>
    cases a with
    | skipping ids =>
      exact (mem_append.mp hm).imp_right fun hm => ⟨c, ids, hpending, hm⟩
    | _ => exact .inl hm
  | issue | evolve | crash => exact .inl hm

/-- **The inventory holds only packs of a visible publish**, whose membership is never deleted
afterwards. So a pack that `index` skips is in a snapshot. -/
theorem inventory_is_published {cl : Cluster} {s : State cl} (hs : Reachable cl s) :
    (∀ x ∈ s.world.server.db.inventory, s.Contains (identity x.1)) ∧
      ∀ m ∈ s.world.skipped, s.Contains m := by
  have hmove : ∀ g g' : Conf cl,
      g.PublishInv ∧ (∀ m ∈ g.world.skipped, g.world.server.db.Member m) →
      Move cl (fun _ _ => True) g g' →
      g'.PublishInv ∧ ∀ m ∈ g'.world.skipped, g'.world.server.db.Member m := by
    rintro g g' ⟨hinv, hskipped⟩ hmove
    refine ⟨hinv.change (Move.change hmove), fun m hm => ?_⟩
    have hgrows := hinv.grows (Move.change hmove)
    rcases (Move.turn hmove).skipped hm with hm | ⟨c, ids, hp, hm⟩
    · exact (hskipped m hm).grows hgrows
    · exact (hinv.members.skipping hp m hm).grows hgrows
  obtain ⟨g, htracks, hinv, hskipped⟩ := Proc.reaches_invariant (machine_sound cl)
    ⟨PublishInv.init cl, nofun⟩ hmove hs
  have hinventory := hinv.members.inventory
  rw [← htracks.world] at hinventory hskipped
  exact ⟨fun x hx => State.contains_of_member hs (hinventory x hx),
    fun m hm => State.contains_of_member hs (hskipped m hm)⟩

/-- `index` commits a pack, and skips it the next time. -/
theorem inventory_is_published_replay : ∃ s : State oneHost,
    (s.world.server.db.inventory.map (identity ·.1) = [("store", "pack")] ∧
      s.world.skipped = [("store", "pack")]) ∧ s.Contains ("store", "pack") := by
  obtain ⟨s, hs, hinventory, hskipped⟩ := exists_steps_of_run (machine oneHost).init
    (Q := fun s : State oneHost =>
      s.world.server.db.inventory.map (identity ·.1) = [("store", "pack")] ∧
        s.world.skipped = [("store", "pack")])
    (Schedule.acquire 0 100 0 ++ Schedule.index 0 ⟨"pack", "store", "key", 0, "", 0⟩ ++
      Schedule.indexed 0 101 102 1 ++ Schedule.index 0 ⟨"pack", "store", "key", 0, "", 0⟩)
    (by decide +kernel)
  refine ⟨s, ⟨hinventory, hskipped⟩, (inventory_is_published hs).2 _ ?_⟩
  rw [hskipped]
  exact .head _

end Dmi.Catalog
