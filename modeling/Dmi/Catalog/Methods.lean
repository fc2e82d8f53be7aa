import Dmi.Catalog.Protocol

/-!
# Every method follows the protocol

One specification for each method of the writer and the indexer, in the logic of
`Lib/Proc/Prog`: from an agent state that fits the writer's local state the method only does
what the protocol allows, whatever the server answers and wherever an exception strikes, and
it ends in a state that fits again. `machine_sound` collects them.
-/

namespace Dmi.Catalog

open List PublishView

open Dmi.Capture (PackRef CaptureDescriptor)
open Proc (Script Spec)

variable {a : Agent} {l : Local}

/-- How a method ends: with a value in `ok`, or with an exception in `err`. -/
def Ends {α : Type} (ok : Agent → Local → α → Prop) (err : Agent → Local → Exc → Prop)
    (a : Agent) (l : Local) : Except Exc α → Prop
  | .ok x => ok a l x
  | .error e => err a l e

theorem Ends.imp {α : Type} {ok ok' : Agent → Local → α → Prop}
    {err err' : Agent → Local → Exc → Prop} (hok : ∀ a l x, ok a l x → ok' a l x)
    (herr : ∀ a l e, err a l e → err' a l e) (a : Agent) (l : Local) (r : Except Exc α)
    (h : Ends ok err a l r) : Ends ok' err' a l r := by
  cases r with
  | ok x => exact hok a l x h
  | error e => exact herr a l e h

/-- Nothing more is known than that the local state fits. -/
abbrev Fitting {α : Type} (a : Agent) (l : Local) (_ : α) : Prop := l.Fits a

/-! ### Single acts -/

section Acts

variable {β : Type} {Q : Agent → Local → Except Exc β → Prop}

theorem perform_bind {act : Act} {f : act.Res → Py β} (hallowed : a.Allowed act)
    (h : ∀ r, Spec protocol ((a.start act).finish act r) l (f r) Q) :
    Spec protocol a l (perform act >>= f) Q :=
  ⟨hallowed, h⟩

theorem execute_bind {q : Query} {f : q.Result → Py β}
    (hok : ∀ r, Spec protocol (a.finish (.read q) (some r)) l (f r) Q)
    (herr : Q (a.finish (.read q) none) l (.error .client)) :
    Spec protocol a l (execute q >>= f) Q :=
  ⟨trivial, fun r => match r with
    | some r => hok r
    | none => herr⟩

variable {f : Unit → Py β}

theorem submit_bind {stmt : Write} (hallowed : a.Allowed (.write stmt))
    (hok : Spec protocol ((a.start (.write stmt)).finish (.write stmt) true) l (f ()) Q)
    (herr : Q ((a.start (.write stmt)).finish (.write stmt) false) l (.error .client)) :
    Spec protocol a l (submit stmt >>= f) Q :=
  ⟨hallowed, fun r => match r with
    | true => hok
    | false => herr⟩

theorem check_bind {ok : Bool} {e : Exc} (hok : ok = true → Spec protocol a l (f ()) Q)
    (herr : Q a l (.error e)) : Spec protocol a l (check ok e >>= f) Q := by
  cases ok with
  | true => exact hok rfl
  | false => exact herr

theorem setLease_bind {lease : Option PublisherLease}
    (h : Spec protocol a { l with lease } (f ()) Q) :
    Spec protocol a l (setLease lease >>= f) Q := h

theorem get_bind {f : Local → Py β} (h : Spec protocol a l (f l) Q) :
    Spec protocol a l (Script.get >>= f) Q := h

theorem head_bind {f : LeaseHead → Py β}
    (hok : ∀ rows,
      Spec protocol (a.finish (.read .leaseHead) (some rows)) l (f (LeaseHead.ofRows rows)) Q)
    (herr : Q (a.finish (.read .leaseHead) none) l (.error .client)) :
    Spec protocol a l (head >>= f) Q :=
  ⟨trivial, fun r => match r with
    | some rows => hok rows
    | none => herr⟩

theorem rejectLive_bind {h : LeaseHead} {id : Id}
    (hok : h.free id = true → Spec protocol a l (f ()) Q)
    (herr : Q a { l with lease := none } (.error .publisherLeaseHeld)) :
    Spec protocol a l (rejectLive h id >>= f) Q := by
  unfold rejectLive
  split
  next hfree =>
    exact hok hfree
  · exact herr

theorem fits_bind {α : Type} {m : Py α} {f : α → Py β} (h : Spec protocol a l m Fitting)
    (hok : ∀ a' l' x, l'.Fits a' → Spec protocol a' l' (f x) Fitting) :
    Spec protocol a l (m >>= f) Fitting :=
  Spec.bind h hok fun _ _ _ h => h

theorem submit_fits {stmt : Write} (hallowed : a.Allowed (.write stmt))
    (hfits : ∀ r, l.Fits ((a.start (.write stmt)).finish (.write stmt) r)) :
    Spec protocol a l (submit stmt) Fitting :=
  ⟨hallowed, fun r => match r with
    | true => hfits true
    | false => hfits false⟩

end Acts

/-! ### Leases -/

theorem foldl_max_le {rows : List HeadRow} {m bound : Int}
    (h : rows.foldl (fun m r => max m r.expiresAtNs) m ≤ bound) :
    m ≤ bound ∧ ∀ r ∈ rows, r.expiresAtNs ≤ bound := by
  induction rows generalizing m with
  | nil => exact ⟨h, fun r hr => absurd hr not_mem_nil⟩
  | cons r rows ih =>
    obtain ⟨hm, hrows⟩ := ih h
    refine ⟨le_trans (le_max_left _ _) hm, fun x hx => ?_⟩
    rcases mem_cons.mp hx with rfl | hx
    · exact le_trans (le_max_right _ _) hm
    · exact hrows x hx

variable {id : Id}

/-- `_reject_live` lets pass only what the protocol calls free. -/
theorem Seen.free_of_head {rows : List HeadRow}
    (h : (LeaseHead.ofRows rows).free id = true) : (Seen.ofRows rows).Free id := by
  cases rows with
  | nil => exact .inl fun x hx => absurd hx not_mem_nil
  | cons row rows =>
    simp only [LeaseHead.free, LeaseHead.ofRows, Bool.or_eq_true,
      Bool.and_eq_true, beq_iff_eq, length_cons, Option.some.injEq] at h
    rcases h with h | ⟨hlen, hid⟩
    · obtain ⟨hrow, hrows⟩ := foldl_max_le (of_decide_eq_true h)
      refine .inl fun x hx => ?_
      obtain ⟨r, hr, rfl⟩ := mem_map.mp hx
      rcases mem_cons.mp hr with rfl | hr
      · exact hrow
      · exact hrows r hr
    · have hnil : rows = [] := length_eq_zero_iff.mp (by omega)
      subst hnil
      exact .inr (by simp [Seen.ofRows, hid])

theorem fits_of_none (h : l.lease = none) : l.Fits a := by
  intro lease hlease
  rw [h] at hlease
  cases hlease

theorem fits_of_held {lease : PublisherLease} {fresh : Bool} (hl : l.lease = some lease)
    (hphase : a.lease.phase = .held lease.leaseId lease.term fresh) : l.Fits a := by
  intro lease' hlease'
  obtain rfl := Option.some.inj (hl.symm.trans hlease')
  exact ⟨fresh, hphase⟩

theorem Local.Fits.congr {l' : Local} (h : l.Fits a) (hl : l'.lease = l.lease) : l'.Fits a :=
  fun lease hlease => h lease (hl ▸ hlease)

/-- A lease-bearing method failed: with an exception of the client, which will quarantine
the writer, or in a state that fits. Nothing was found in conflict. -/
structure Failed (a : Agent) (l : Local) (e : Exc) : Prop where
  noConflict : e ≠ .publishConflict
  settled : e = .client ∨ l.Fits a

theorem failed_client : Failed a l .client := ⟨nofun, .inl rfl⟩

/-- The lease is held, at a term under which no fenced statement was sent. -/
structure Holds (a : Agent) (l : Local) (lease : PublisherLease) : Prop where
  local_ : l.lease = some lease
  phase : a.lease.phase = .held lease.leaseId lease.term true

theorem Holds.fits {lease : PublisherLease} (h : Holds a l lease) : l.Fits a :=
  fits_of_held h.local_ h.phase

variable {holder : String} {term : Nat}

theorem granted_eq_some {rows : List LeaseClaim} {lease : PublisherLease}
    (h : granted term id holder rows = some lease) :
    lease.leaseId = id ∧ lease.term = term ∧ rows ≠ [] ∧ ∀ r ∈ rows, r.leaseId = id := by
  cases rows with
  | nil => cases h
  | cons row rows =>
    simp only [granted] at h
    split at h
    · rename_i hall
      obtain rfl := Option.some.inj h
      refine ⟨rfl, rfl, cons_ne_nil _ _, fun r hr => ?_⟩
      exact beq_iff_eq.mp (all_eq_true.mp hall r hr)
    · cases h

/-- A claim of the writer's own lease does not touch the publish in progress. -/
theorem claim_spec (hmine : a.lease.Mine id) (hfits : l.Fits a) :
    Spec protocol a l (claim holder id)
      (Ends (fun a' l' lease => a'.publish = a.publish ∧ Holds a' l' lease)
        fun a' l' e => a'.publish = a.publish ∧ Failed a' l' e) := by
  refine head_bind (fun rows => ?_) ⟨rfl, failed_client⟩
  refine rejectLive_bind (fun hfree => ?_) ⟨rfl, nofun, .inr (fits_of_none rfl)⟩
  refine check_bind (fun _ => ?_) ⟨rfl, nofun, .inr hfits⟩
  -- The head was just read and found free, so the claim is allowed.
  refine submit_bind ⟨⟨hmine, _, rfl, rfl, Seen.free_of_head hfree⟩, trivial, trivial, trivial⟩
    ?_ ⟨rfl, failed_client⟩
  refine execute_bind (fun claims => ?_) ⟨rfl, failed_client⟩
  split
  · rename_i lease hgranted
    obtain ⟨rfl, hterm, hne, hall⟩ := granted_eq_some hgranted
    refine ⟨rfl, rfl, ?_⟩
    rw [hterm]
    exact congrArg LeaseView.phase (if_pos ⟨rfl, hne, hall⟩)
  · -- Contested: the lease is dropped, whatever the second head read says.
    refine setLease_bind (head_bind (fun rows => ?_) ⟨rfl, failed_client⟩)
    refine rejectLive_bind (fun _ => ?_) ⟨rfl, nofun, .inr (fits_of_none rfl)⟩
    exact ⟨rfl, nofun, .inr (fits_of_none rfl)⟩

theorem renew_spec (hfits : l.Fits a) :
    Spec protocol a l renew
      (Ends (fun a' l' lease => a'.publish = a.publish ∧ Holds a' l' lease)
        fun a' l' e => a'.publish = a.publish ∧ Failed a' l' e) := by
  refine get_bind ?_
  cases hl : l.lease with
  | none => exact ⟨rfl, nofun, .inr hfits⟩
  | some lease =>
    obtain ⟨fresh, hphase⟩ := hfits lease hl
    exact claim_spec (.inr ⟨_, _, hphase⟩) hfits

theorem acquire_spec (hfits : l.Fits a) :
    Spec protocol a l (acquire holder) (Ends (fun a' l' lease => Holds a' l' lease) Failed) := by
  refine check_bind (fun _ => get_bind ?_) ⟨nofun, .inr hfits⟩
  cases hl : l.lease with
  | some held =>
    obtain ⟨fresh, hphase⟩ := hfits held hl
    exact (claim_spec (.inr ⟨_, _, hphase⟩) hfits).mono
      (Ends.imp (fun _ _ _ h => h.2) fun _ _ _ h => h.2)
  | none =>
    refine perform_bind trivial fun id => ?_
    exact (claim_spec (.inl (mem_cons_self ..)) (fits_of_none hl)).mono
      (Ends.imp (fun _ _ _ h => h.2) fun _ _ _ h => h.2)

/-- After an exception the lease is still held: the tombstone may land or not. -/
theorem release_spec (hfits : l.Fits a) :
    Spec protocol a l release Fitting := by
  refine get_bind ?_
  cases hl : l.lease with
  | none => exact hfits
  | some lease =>
    obtain ⟨fresh, hphase⟩ := hfits lease hl
    refine submit_bind ⟨⟨fresh, hphase⟩, trivial, trivial, trivial⟩ (fits_of_none rfl) ?_
    exact fits_of_held hl rfl

/-- The check at the end of a failed publish: the lease is still at the head, or it is
dropped. -/
theorem rejectIfGone_bind {β : Type} {Q : Agent → Local → Except Exc β → Prop}
    {lease : PublisherLease} {f : Unit → Py β}
    (hok : ∀ rows, Spec protocol (a.finish (.read .leaseHead) (some rows)) l (f ()) Q)
    (hgone : ∀ rows, Q (a.finish (.read .leaseHead) (some rows)) { l with lease := none }
      (.error .publisherLease))
    (herr : Q (a.finish (.read .leaseHead) none) l (.error .client)) :
    Spec protocol a l (rejectIfGone lease >>= f) Q := by
  refine Spec.bind (Q := Ends
    (fun a' l' _ => ∃ rows, a' = a.finish (.read .leaseHead) (some rows) ∧ l' = l)
    fun a' l' e => Q a' l' (.error e)) (head_bind (fun rows => ?_) herr) ?_ fun _ _ _ h => h
  · split
    · exact ⟨rows, rfl, rfl⟩
    · exact hgone rows
  · rintro a' l' x ⟨rows, rfl, rfl⟩
    exact hok rows

/-! ### Quarantine -/

section Quarantine

variable {α : Type} {m : Py α} {cfg : Config}

theorem requireNotQuarantined_bind {β : Type} {Q : Agent → Local → Except Exc β → Prop}
    {f : Unit → Py β} (hok : ∀ l' : Local, l'.lease = l.lease → Spec protocol a l' (f ()) Q)
    (herr : Q a l (.error .publisherLease)) :
    Spec protocol a l (requireNotQuarantined >>= f) Q := by
  refine Spec.bind (Q := Ends (fun a' l' _ => a' = a ∧ l'.lease = l.lease)
    fun a' l' e => a' = a ∧ l' = l ∧ e = .publisherLease) (get_bind ?_) ?_ ?_
  · cases hq : l.quarantinedUntil with
    | none => exact ⟨rfl, rfl⟩
    | some deadline =>
      refine perform_bind trivial fun (now : Int) => ?_
      split
      · exact ⟨rfl, rfl⟩
      · exact ⟨rfl, rfl, rfl⟩
  · rintro a' l' - ⟨rfl, hl'⟩
    exact hok l' hl'
  · rintro a' l' e ⟨rfl, rfl, rfl⟩
    exact herr

/-- An exception of the client drops the lease, so whatever state the agent is in then fits. -/
theorem quarantining_spec {K : Agent → Local → α → Prop} {F : Agent → Exc → Prop}
    (hfits : l.Fits a) (hrefused : F a .publisherLease)
    (hm : ∀ l' : Local, l'.lease = l.lease → Spec protocol a l' m
      (Ends K fun a' l'' e => F a' e ∧ (e = .client ∨ l''.Fits a'))) :
    Spec protocol a l (quarantining cfg m) (Ends K fun a' l'' e => F a' e ∧ l''.Fits a') := by
  refine requireNotQuarantined_bind (fun l' hl' => ?_) ⟨hrefused, hfits⟩
  refine Spec.attempt (hm l' hl') (fun _ _ _ h => h) fun a' l'' e h => ?_
  split
  · exact perform_bind trivial fun now => ⟨h.1, fits_of_none rfl⟩
  next he =>
    exact ⟨h.1, h.2.resolve_left he⟩

end Quarantine

variable {cfg : Config}

theorem acquirePublisherLease_spec (hfits : l.Fits a) :
    Spec protocol a l (acquirePublisherLease cfg holder) Fitting := by
  refine (quarantining_spec (K := Fitting) (F := fun _ _ => True)
    hfits trivial fun l' hl' => (acquire_spec (hfits.congr hl')).mono ?_).mono ?_
  · exact Ends.imp (fun _ _ _ h => h.fits) fun _ _ _ h => ⟨trivial, h.settled⟩
  · rintro a' l'' (e | lease) h
    · exact h.2
    · exact h

theorem renewPublisherLease_spec (hfits : l.Fits a) :
    Spec protocol a l (renewPublisherLease cfg)
      (Ends (fun a' l' lease => a'.publish = a.publish ∧ Holds a' l' lease)
        fun a' l' e => (a'.publish = a.publish ∧ e ≠ .publishConflict) ∧ l'.Fits a') := by
  refine quarantining_spec (F := fun a' e => a'.publish = a.publish ∧ e ≠ .publishConflict)
    hfits ⟨rfl, nofun⟩ fun l' hl' => (renew_spec (hfits.congr hl')).mono ?_
  exact Ends.imp (fun _ _ _ h => h) fun _ _ _ h => ⟨⟨h.1, h.2.noConflict⟩, h.2.settled⟩

/-! ### Publishing -/

theorem flatten_inlineChunksFrom {α : Type} (itemBytes : α → Nat) (items : List α)
    (chunk : List α) (size : Nat) (h : (inlineChunksFrom itemBytes items chunk size).2 = true) :
    (inlineChunksFrom itemBytes items chunk size).1.flatten = chunk ++ items := by
  induction items generalizing chunk size with
  | nil =>
    cases chunk with
    | nil => rfl
    | cons x xs => simp [inlineChunksFrom]
  | cons item items ih =>
    simp only [inlineChunksFrom] at h ⊢
    split at h
    · cases h
    · split at h
      · rename_i hbudget hfull
        rw [if_neg hbudget, if_pos hfull, flatten_cons, ih _ _ h]
        rfl
      · rename_i hbudget hfull
        rw [if_neg hbudget, if_neg hfull, ih _ _ h, append_assoc]
        rfl

theorem flatten_inlineChunks {α : Type} {itemBytes : α → Nat} {items : List α}
    (h : (inlineChunks itemBytes items).2 = true) :
    (inlineChunks itemBytes items).1.flatten = items :=
  flatten_inlineChunksFrom itemBytes items [] 2 h

theorem LeaseView.phase_acknowledge_fence {v : LeaseView} {fresh : Bool}
    (h : v.phase = .held id term fresh) :
    (v.fence.acknowledge true).phase = .held id term false := by
  simp only [fence, h, acknowledge]

variable {version : Nat} (chunks : List (List PackIdentity))

theorem publishChunks_spec {publishId : Id} {lease : PublisherLease} {members : List PackIdentity}
    (hl : Holds a l lease) (hpub : a.publish.Publishing ⟨version, publishId, members⟩) :
    Spec protocol a l (publishChunks cfg version publishId chunks lease)
      (Ends (fun a' l' lease' => Holds a' l' lease' ∧
        a'.publish.Publishing ⟨version, publishId, members ++ chunks.flatten⟩) Failed) := by
  induction chunks generalizing a l lease members with
  | nil =>
    refine ⟨hl, ?_⟩
    rwa [flatten_nil, append_nil]
  | cons chunk chunks ih =>
    refine submit_bind ⟨⟨_, hl.phase⟩, ⟨members, hpub⟩, trivial, trivial⟩ ?_ failed_client
    generalize ha : Agent.finish _ (.write (.manifest version publishId chunk lease.leaseId))
      true = a₁
    have hphase : a₁.lease.phase = .held lease.leaseId lease.term false := by
      rw [← ha]
      exact LeaseView.phase_acknowledge_fence hl.phase
    have hstage : a₁.publish.stage = .written ⟨version, publishId, members⟩ chunk := by
      rw [← ha]
      exact congrArg (PublishStage.written · chunk) (attempt_eq hpub)
    refine execute_bind (fun (count : Nat) => ?_) failed_client
    split
    next hcount =>
      -- The chunk is there: it joins the members, and the lease is renewed.
      refine Spec.bind (renewPublisherLease_spec (fits_of_held hl.local_ hphase)) ?_
        fun a' l' e h => ⟨h.1.2, .inr h.2⟩
      rintro a₂ l₂ lease₂ ⟨hpub₂, hl₂⟩
      have hstage₂ : a₂.publish.stage = .opened ⟨version, publishId, members ++ chunk⟩ := by
        rw [hpub₂]
        show (a₁.publish.readChunk version publishId chunk (some count)).stage = _
        simp only [readChunk, hstage, hcount]
        rfl
      rw [flatten_cons, ← append_assoc]
      exact ih hl₂ (.inl hstage₂)
    · exact rejectIfGone_bind (fun rows => ⟨nofun, .inr (fits_of_held hl.local_ hphase)⟩)
        (fun rows => ⟨nofun, .inr (fits_of_none rfl)⟩) failed_client

variable {p : Publish}

/-- What the read-backs after the watermark statement tell: on success, and also in a
conflict, the members are visible. -/
theorem confirmPublish_spec {publishId : Id} {lease : PublisherLease} {members : List PackIdentity}
    (hfits : l.Fits a)
    (hstage : a.publish.stage = .announced ⟨p.indexVersion, publishId, members⟩) :
    Spec protocol a l (confirmPublish p publishId lease)
      (Ends (fun a' l' _ => (∀ m ∈ members, m ∈ a'.publish.visible) ∧ l'.Fits a')
        fun a' l' e => (e = .publishConflict → ∀ m ∈ members, m ∈ a'.publish.visible) ∧
          (e = .client ∨ l'.Fits a')) := by
  refine execute_bind (fun (owners : List Id) => ?_) ⟨nofun, .inl rfl⟩
  split
  · exact rejectIfGone_bind (fun rows => ⟨nofun, .inr hfits⟩)
      (fun rows => ⟨nofun, .inr (fits_of_none rfl)⟩) ⟨nofun, .inl rfl⟩
  next howner =>
    have hvisible : ∀ m ∈ members, m ∈ (a.finish (.read (.watermarkOwners p.indexVersion))
        (some owners)).publish.visible := by
      intro m hm
      show m ∈ (a.publish.readOwners p.indexVersion owners).visible
      simp only [readOwners, hstage]
      rw [if_pos ⟨trivial, not_not.mp howner⟩]
      exact mem_append_right _ hm
    by_cases hforeign : ∃ owner ∈ owners, owner ≠ publishId
    · rw [if_pos hforeign]
      exact ⟨fun _ => hvisible, .inr hfits⟩
    · rw [if_neg hforeign]
      by_cases hrefs : p.refs = []
      · rw [if_pos hrefs]
        exact ⟨hvisible, hfits⟩
      · rw [if_neg hrefs]
        refine execute_bind (fun (count : Nat) => ?_) ⟨nofun, .inl rfl⟩
        unfold check
        split
        · exact ⟨hvisible, hfits⟩
        · exact ⟨nofun, .inr hfits⟩

theorem publishSnapshotSerialised_spec (hfits : l.Fits a) :
    Spec protocol a l (publishSnapshotSerialised cfg p)
      (Ends (fun a' l' _ => (∀ m ∈ p.members, m ∈ a'.publish.visible) ∧ l'.Fits a')
        fun a' l' e => (e = .publishConflict → ∀ m ∈ p.members, m ∈ a'.publish.visible) ∧
          (e = .client ∨ l'.Fits a')) := by
  refine check_bind (fun _ => ?_) ⟨nofun, .inr hfits⟩
  refine check_bind (fun _ => ?_) ⟨nofun, .inr hfits⟩
  refine Spec.bind (renewPublisherLease_spec hfits) ?_
    fun a' l' e h => ⟨fun he => absurd he h.1.2, .inr h.2⟩
  rintro a₁ l₁ lease₁ ⟨-, hl₁⟩
  refine perform_bind trivial fun (publishId : Id) => ?_
  have hnew : Agent.finish a₁ .uuid publishId |>.publish.Publishing
      ⟨p.indexVersion, publishId, []⟩ := .inr ⟨rfl, rfl, mem_cons_self ..⟩
  refine Spec.bind (publishChunks_spec _ ⟨hl₁.local_, hl₁.phase⟩ hnew) ?_
    fun a' l' e h => ⟨fun he => absurd he h.noConflict, h.settled⟩
  rintro a₂ l₂ lease₂ ⟨hl₂, hpub⟩
  refine check_bind (fun hchunks => ?_) ⟨nofun, .inr hl₂.fits⟩
  rw [nil_append, flatten_inlineChunks hchunks] at hpub
  refine submit_bind ⟨⟨lease₂.term, hl₂.phase⟩, ⟨p.members, hpub⟩, trivial, trivial⟩ ?_
    ⟨nofun, .inl rfl⟩
  refine confirmPublish_spec ?_ ?_
  · exact fits_of_held hl₂.local_ (LeaseView.phase_acknowledge_fence hl₂.phase)
  · exact congrArg PublishStage.announced (attempt_eq hpub)

/-- **A publish that returns, or that reports a conflict, has made its members visible.** -/
theorem publishSnapshot_spec (hfits : l.Fits a) :
    Spec protocol a l (publishSnapshot cfg p)
      (Ends (fun a' l' _ => (∀ m ∈ p.members, m ∈ a'.publish.visible) ∧ l'.Fits a')
        fun a' l' e => (e = .publishConflict → ∀ m ∈ p.members, m ∈ a'.publish.visible) ∧
          l'.Fits a') :=
  quarantining_spec (F := fun a' e => e = .publishConflict →
      ∀ m ∈ p.members, m ∈ a'.publish.visible) hfits nofun
    fun _ hl' => publishSnapshotSerialised_spec (hfits.congr hl')

/-! ### Versions -/

theorem randomSkip_bind {β : Type} {Q : Agent → Local → Except Exc β → Prop} {attempt : Nat}
    {f : Nat → Py β} (h : ∀ skip, Spec protocol a l (f skip) Q) :
    Spec protocol a l (randomSkip attempt >>= f) Q := by
  cases attempt with
  | zero => exact h 0
  | succ attempt => exact ⟨trivial, h⟩

theorem allocateLoop_spec (left attempt : Nat) (hfits : l.Fits a)
    (hcall : a.call.begin? = some ()) :
    Spec protocol a l (allocateLoop left attempt)
      (Ends (fun a' l' version => l'.Fits a' ∧ ∃ claimId, a'.call = .sole () version claimId)
        Fitting) := by
  induction left generalizing a l attempt with
  | zero => exact hfits
  | succ left ih =>
    refine execute_bind (fun (highest : Nat) => ?_) hfits
    refine execute_bind (fun (published : Nat) => ?_) hfits
    generalize ha : Agent.finish _ (.read .maxWatermark) (some published) = a₁
    have hfits₁ : l.Fits a₁ := ha ▸ hfits
    have hfloor : a₁.call = .floor () (max highest published) := by
      rw [← ha]
      show Call.readPublished (a.call.begin?.elim .idle fun b => .claimFloor b highest) _ = _
      rw [hcall]
      rfl
    refine randomSkip_bind fun skip => ?_
    refine check_bind (fun _ => ?_) hfits₁
    refine perform_bind trivial fun (claimId : Id) => perform_bind trivial fun now => ?_
    refine submit_bind ⟨trivial, trivial, trivial, ⟨_, hfloor, ?_⟩, mem_cons_self ..⟩
      ?_ hfits₁
    · show max highest published < max highest published + 1 + skip
      omega
    refine execute_bind (fun (owners : List Id) => ?_) hfits₁
    generalize ha₂ : Agent.finish _ (.read (.claimOwners _)) (some owners) = a₂
    have hfits₂ : l.Fits a₂ := ha₂ ▸ hfits₁
    have hback : a₂.call = Call.readBack (.claimed () (max highest published + 1 + skip) claimId)
        (max highest published + 1 + skip) (some owners) := by
      rw [← ha₂]
      simp only [Agent.finish, Agent.start, Call.complete, Call.issue, hfloor,
        Call.acknowledge]
      rfl
    simp only [Call.readBack, true_and] at hback
    by_cases hsole : owners ≠ [] ∧ ∀ owner ∈ owners, owner = claimId
    · rw [if_pos hsole] at hback ⊢
      exact ⟨hfits₂, claimId, hback⟩
    · rw [if_neg hsole] at hback ⊢
      exact ih (attempt + 1) hfits₂ (by rw [hback]; rfl)

theorem allocateVersion_spec (hfits : l.Fits a) :
    Spec protocol a l (allocateVersion cfg) Fitting := by
  refine perform_bind trivial fun _ => ?_
  refine Spec.bind (allocateLoop_spec _ 0 hfits rfl) ?_ fun _ _ _ h => h
  rintro a' l' version ⟨hfits', hsole⟩
  exact perform_bind hsole fun _ => hfits'

/-! ### Garbage collection -/

theorem mem_inlineChunksFrom {α : Type} {itemBytes : α → Nat} {items chunk xs : List α}
    {size : Nat} {x : α} (hxs : xs ∈ (inlineChunksFrom itemBytes items chunk size).1)
    (hx : x ∈ xs) : x ∈ chunk ++ items := by
  induction items generalizing chunk size with
  | nil =>
    cases chunk with
    | nil => cases hxs
    | cons y ys =>
      obtain rfl : xs = y :: ys := by simpa [inlineChunksFrom] using hxs
      rwa [append_nil]
  | cons item items ih =>
    simp only [inlineChunksFrom] at hxs
    split at hxs
    · cases hxs
    · split at hxs
      · rcases mem_cons.mp hxs with rfl | hxs
        · exact mem_append_left _ hx
        · exact mem_append_right _ (ih hxs)
      · simpa using ih hxs

theorem mem_of_mem_inlineChunks {α : Type} {itemBytes : α → Nat} {items xs : List α} {x : α}
    (hxs : xs ∈ (inlineChunks itemBytes items).1) (hx : x ∈ xs) : x ∈ items :=
  mem_inlineChunksFrom hxs hx

/-- Counting and deleting leave what the collector knows, and the lease, as they are. -/
theorem deleteRows_spec {count : Py Nat} {delete : Write}
    (hcount : Spec protocol a l count fun a' l' _ => a' = a ∧ l' = l)
    (hallowed : a.Allowed (.write delete))
    (hkeeps : ∀ ok, ((a.start (.write delete)).finish (.write delete) ok).collect = a.collect ∧
      ((a.start (.write delete)).finish (.write delete) ok).lease = a.lease) (hfits : l.Fits a) :
    Spec protocol a l (deleteRows count delete) fun a' l' _ =>
      a'.collect = a.collect ∧ l'.Fits a' := by
  have hfits' : ∀ ok, l.Fits ((a.start (.write delete)).finish (.write delete) ok) := by
    intro ok lease hl
    rw [(hkeeps ok).2]
    exact hfits lease hl
  refine Spec.bind hcount ?_ ?_
  · rintro a' l' matched ⟨rfl, rfl⟩
    split
    · exact ⟨rfl, hfits⟩
    · exact submit_bind hallowed ⟨(hkeeps true).1, hfits' true⟩ ⟨(hkeeps false).1, hfits' false⟩
  · rintro a' l' e ⟨rfl, rfl⟩
    exact ⟨rfl, hfits⟩

theorem deleteOldLeases_spec (hterm : term ≤ a.collect.headTerm) (hfits : l.Fits a) :
    Spec protocol a l (deleteOldLeases term) fun a' l' _ =>
      a'.collect = a.collect ∧ l'.Fits a' := by
  unfold deleteOldLeases
  split
  · exact ⟨rfl, hfits⟩
  next h =>
    refine Spec.bind (deleteRows_spec ⟨trivial, ?_⟩ ⟨trivial, trivial, hterm, trivial⟩
      (fun _ => ⟨rfl, rfl⟩) hfits) (fun _ _ _ h => h) fun _ _ _ h => h
    rintro (_ | n) <;> exact ⟨rfl, rfl⟩

theorem deleteManifestPublishes_spec (chunks : List (List (Nat × Id)))
    (horphans : ∀ pairs ∈ chunks, ∀ p ∈ pairs, p ∈ a.collect.orphans) (hfits : l.Fits a) :
    Spec protocol a l (deleteManifestPublishes chunks) fun a' l' _ =>
      a'.collect = a.collect ∧ l'.Fits a' := by
  induction chunks generalizing a l with
  | nil => exact ⟨rfl, hfits⟩
  | cons pairs chunks ih =>
    refine Spec.bind (deleteRows_spec ⟨trivial, ?_⟩
      ⟨trivial, trivial, horphans pairs (.head _), trivial⟩ (fun _ => ⟨rfl, rfl⟩) hfits) ?_
      fun _ _ _ h => h
    · rintro (_ | n) <;> exact ⟨rfl, rfl⟩
    · rintro a₁ l₁ removed ⟨hcollect, hfits₁⟩
      have horphans₁ : ∀ pairs ∈ chunks, ∀ p ∈ pairs, p ∈ a₁.collect.orphans := by
        rw [hcollect]
        exact fun pairs hpairs => horphans pairs (.tail _ hpairs)
      refine Spec.bind (ih horphans₁ hfits₁) ?_ fun _ _ _ h => ⟨h.1.trans hcollect, h.2⟩
      rintro a₂ l₂ rest ⟨hcollect₂, hfits₂⟩
      exact ⟨hcollect₂.trans hcollect, hfits₂⟩

theorem settledOrphanPublishes_spec {published : Nat} (hpublished : published ≤ a.collect.published)
    (hfits : l.Fits a) :
    Spec protocol a l (settledOrphanPublishes cfg published)
      (Ends (fun a' l' pairs => (a'.collect.published = a.collect.published ∧
          a'.collect.headTerm = a.collect.headTerm ∧ ∀ p ∈ pairs, p ∈ a'.collect.orphans) ∧
          l'.Fits a')
        Fitting) := by
  refine execute_bind (fun (first : List (Nat × Id)) => ?_) hfits
  generalize ha : a.finish (.read (.orphans published)) (some first) = a₁
  have hcollect : a₁.collect = { a.collect with orphans := first } := by
    rw [← ha]
    exact if_pos hpublished
  have hfits₁ : l.Fits a₁ := ha ▸ hfits
  split
  · refine ⟨⟨by rw [hcollect], by rw [hcollect], fun p hp => absurd hp not_mem_nil⟩, hfits₁⟩
  · refine perform_bind trivial fun _ => execute_bind (fun (second : List (Nat × Id)) => ?_) hfits₁
    have hcollect₂ : (a₁.finish (.read (.orphans published)) (some second)).collect
        = { a₁.collect with orphans := second } :=
      if_pos (by rw [hcollect]; exact hpublished)
    refine ⟨⟨?_, ?_, fun p hp => ?_⟩, hfits₁⟩
    · exact (congrArg CollectView.published hcollect₂).trans (by rw [hcollect])
    · exact (congrArg CollectView.headTerm hcollect₂).trans (by rw [hcollect])
    · have hmem := of_decide_eq_true (mem_filter.mp hp).2
      exact (congrArg CollectView.orphans hcollect₂).symm ▸ hmem

theorem collectGarbage_spec (hfits : l.Fits a) :
    Spec protocol a l (collectGarbage cfg) Fitting := by
  refine execute_bind (fun (published : Nat) => ?_) hfits
  refine head_bind (fun rows => ?_) hfits
  generalize ha : Agent.finish _ (.read .leaseHead) (some rows) = a₁
  have hpublished : published ≤ a₁.collect.published := ha ▸ Nat.le_max_right _ _
  have hterm : (LeaseHead.ofRows rows).term ≤ a₁.collect.headTerm := ha ▸ Nat.le_max_right _ _
  have hfits₁ : l.Fits a₁ := ha ▸ hfits
  refine Spec.bind (settledOrphanPublishes_spec hpublished hfits₁) ?_ fun _ _ _ h => h
  rintro a₂ l₂ pairs ⟨⟨hp₂, ht₂, horphans⟩, hfits₂⟩
  refine Spec.bind (deleteManifestPublishes_spec _
    (fun chunk hchunk p hp => horphans p (mem_of_mem_inlineChunks hchunk hp)) hfits₂) ?_
    fun _ _ _ h => h.2
  rintro a₃ l₃ manifest ⟨hcollect₃, hfits₃⟩
  refine check_bind (fun _ => ?_) hfits₃
  have hterm₃ : (LeaseHead.ofRows rows).term ≤ a₃.collect.headTerm := by
    rw [hcollect₃, ht₂]
    exact hterm
  refine Spec.bind (deleteOldLeases_spec hterm₃ hfits₃) ?_ fun _ _ _ h => h.2
  rintro a₄ l₄ leases ⟨hcollect₄, hfits₄⟩
  refine Spec.bind (deleteRows_spec ⟨trivial, ?_⟩ ⟨trivial, trivial, ?_, trivial⟩
    (fun _ => ⟨rfl, rfl⟩) hfits₄) (fun _ _ _ h => h.2) fun _ _ _ h => h.2
  · rintro (_ | n) <;> exact ⟨rfl, rfl⟩
  · show published ≤ a₄.collect.published
    rw [hcollect₄, hcollect₃, hp₂]
    exact hpublished

/-! ### The indexer -/

section Released

variable {α : Type} {m : Py α}

/-- A locked call from outside the lock: what it established must survive the other threads. -/
theorem released_spec {K : Agent → α → Prop} {F : Agent → Exc → Prop}
    (hok : ∀ x a' a'', protocol.later a' a'' → K a' x → K a'' x)
    (herr : ∀ e a' a'', protocol.later a' a'' → F a' e → F a'' e)
    (h : Spec protocol a l m
      (Ends (fun a' l' x => K a' x ∧ l'.Fits a') fun a' l' e => F a' e ∧ l'.Fits a')) :
    Spec protocol a l (released m)
      (Ends (fun a' l' x => K a' x ∧ l'.Fits a') fun a' l' e => F a' e ∧ l'.Fits a') := by
  refine Spec.bind (Spec.attempt h (fun _ _ _ h => h) ?_) ?_ fun _ _ _ h => h
  · intro a' l' e h
    refine Spec.bind (Spec.pause (Q := Ends (fun a'' l'' _ => F a'' e ∧ l''.Fits a'')
      fun _ _ _ => False) h.2 fun a'' l'' hlater hfits => ⟨herr e _ _ hlater h.1, hfits⟩)
      (fun _ _ _ h => h) fun _ _ _ h => h.elim
  · intro a' l' x h
    refine Spec.bind (Spec.pause (Q := Ends (fun a'' l'' _ => K a'' x ∧ l''.Fits a'')
      fun _ _ _ => False) h.2 fun a'' l'' hlater hfits => ⟨hok x _ _ hlater h.1, hfits⟩)
      (fun _ _ _ h => h) fun _ _ _ h => h.elim

theorem released_fits (h : Spec protocol a l m Fitting) :
    Spec protocol a l (released m) Fitting := by
  refine (released_spec (K := fun _ _ => True) (F := fun _ _ => True) (by intros; trivial)
    (by intros; trivial) (h.mono ?_)).mono ?_
  · rintro a' l' (e | x) h <;> exact ⟨trivial, h⟩
  · rintro a' l' (e | x) h <;> exact h.2

end Released

theorem lastPublishedVersion_spec (hfits : l.Fits a) :
    Spec protocol a l lastPublishedVersion Fitting :=
  ⟨trivial, fun r => match r with
    | some _ => hfits
    | none => hfits⟩

variable {cached : Option Nat}

theorem knownHead_spec (hfits : l.Fits a) :
    Spec protocol a l (knownHead cached) Fitting := by
  cases cached with
  | some published => exact hfits
  | none => exact released_fits (lastPublishedVersion_spec hfits)

theorem allocateAbove_spec (hfits : l.Fits a) :
    Spec protocol a l (allocateAbove cfg cached) Fitting := by
  refine fits_bind (released_fits (allocateVersion_spec hfits)) fun a₁ l₁ version hfits₁ => ?_
  refine check_bind (fun _ => ?_) hfits₁
  refine fits_bind (knownHead_spec hfits₁) fun a₂ l₂ published hfits₂ => ?_
  exact check_bind (fun _ => hfits₂) hfits₂

variable {descriptors : List CaptureDescriptor}

theorem writeDescriptors_spec (hfits : l.Fits a) :
    Spec protocol a l (writeDescriptors descriptors version) Fitting := by
  unfold writeDescriptors
  split
  · exact hfits
  · refine check_bind (fun _ => ?_) hfits
    exact submit_fits ⟨trivial, trivial, trivial, trivial⟩ fun _ => hfits

theorem writeBatches_spec (batches : List (List CaptureDescriptor)) (hfits : l.Fits a) :
    Spec protocol a l (writeBatches version batches) Fitting := by
  induction batches generalizing a l with
  | nil => exact hfits
  | cons batch batches ih =>
    refine fits_bind (released_fits (writeDescriptors_spec hfits)) fun a₁ l₁ _ hfits₁ => ?_
    exact fits_bind (ih hfits₁) fun _ _ _ h => h

variable {refs : List PackRef}

theorem commitPacks_spec (hvisible : ∀ ref ∈ refs, identity ref ∈ a.publish.visible)
    (hfits : l.Fits a) :
    Spec protocol a l (commitPacks refs version) Fitting := by
  unfold commitPacks
  split
  · exact hfits
  · refine check_bind (fun _ => ?_) hfits
    exact submit_fits ⟨trivial, hvisible, trivial, trivial⟩ fun _ => hfits

/-- The references of a batch are visible. -/
def RefsVisible (refs : List PackRef) (a : Agent) : Prop :=
  ∀ ref ∈ refs, identity ref ∈ a.publish.visible

theorem tryPublish_spec (hfits : l.Fits a) :
    Spec protocol a l (tryPublish cfg p)
      (Ends (fun a' l' r => (r = none ∨ r = some .publishConflict → RefsVisible p.refs a') ∧
          l'.Fits a') Fitting) := by
  have hmembers : ∀ a' : Agent, (∀ m ∈ p.members, m ∈ a'.publish.visible) →
      RefsVisible p.refs a' :=
    fun a' h ref href => h _ (mem_map_of_mem href)
  have hpublish := released_spec
    (K := fun a' _ => ∀ m ∈ p.members, m ∈ a'.publish.visible)
    (F := fun a' e => e = .publishConflict → ∀ m ∈ p.members, m ∈ a'.publish.visible)
    (fun _ _ _ hlater h m hm => hlater m (h m hm))
    (fun _ _ _ hlater h he m hm => hlater m (h he m hm)) (@publishSnapshot_spec a l cfg p hfits)
  refine Spec.attempt (Q := Ends (fun a' l' r => (r = none ∧ RefsVisible p.refs a') ∧ l'.Fits a')
    fun a' l' e => (e = .publishConflict → RefsVisible p.refs a') ∧ l'.Fits a') ?_ ?_ ?_
  · refine Spec.bind hpublish ?_ ?_
    · intro a' l' _ h
      exact ⟨⟨rfl, hmembers a' h.1⟩, h.2⟩
    · intro a' l' e h
      exact ⟨fun he => hmembers a' (h.1 he), h.2⟩
  · intro a' l' r h
    exact ⟨fun _ => h.1.2, h.2⟩
  · intro a' l' e h
    split
    · refine ⟨fun hr => h.1 ?_, h.2⟩
      rcases hr with hr | hr
      · cases hr
      · exact Option.some.inj hr
    · exact h.2

theorem commitConflicting_spec (hvisible : RefsVisible refs a) (hfits : l.Fits a) :
    Spec protocol a l (commitConflicting refs version) Fitting :=
  Spec.attempt (released_fits (commitPacks_spec hvisible hfits)) (fun _ _ _ h => h)
    fun _ _ _ h => h

variable {icfg : IndexerConfig}

theorem publishLoop_spec (left : Nat) {inserts : Nat} (hfits : l.Fits a) :
    Spec protocol a l (publishLoop cfg icfg refs descriptors left version inserts)
      (Ends (fun a' l' _ => RefsVisible refs a' ∧ l'.Fits a') Fitting) := by
  induction left generalizing a l version inserts with
  | zero => exact hfits
  | succ left ih =>
    refine perform_bind trivial fun (publishedAtNs : Int) => check_bind (fun _ => ?_) hfits
    refine Spec.bind (tryPublish_spec hfits) ?_ fun _ _ _ h => h
    rintro a₁ l₁ outcome ⟨hvisible, hfits₁⟩
    split
    · exact ⟨hvisible (.inl rfl), hfits₁⟩
    · exact Spec.bind (commitConflicting_spec (hvisible (.inr rfl)) hfits₁)
        (fun _ _ _ h => h) fun _ _ _ h => h
    · split
      · exact hfits₁
      · refine Spec.bind (allocateAbove_spec hfits₁) ?_ fun _ _ _ h => h
        intro a₂ l₂ version₂ hfits₂
        refine Spec.bind (writeBatches_spec _ hfits₂) ?_ fun _ _ _ h => h
        intro a₃ l₃ rewritten hfits₃
        exact ih hfits₃

section

variable (hfits : l.Fits a)
include hfits

theorem indexPacks_spec {scan : Scan} :
    Spec protocol a l (indexPacks cfg icfg cached scan) Fitting := by
  refine get_bind ?_
  cases l.lease with
  | none => exact hfits
  | some lease =>
    refine fits_bind (allocateAbove_spec hfits) fun a₁ l₁ version hfits₁ => ?_
    refine fits_bind (writeBatches_spec _ hfits₁) fun a₂ l₂ inserts hfits₂ => ?_
    refine Spec.bind (publishLoop_spec _ hfits₂) ?_ fun _ _ _ h => h
    rintro a₃ l₃ published ⟨hvisible, hfits₃⟩
    exact fits_bind (released_fits (commitPacks_spec hvisible hfits₃)) fun _ _ _ h => h

theorem indexScanned_spec {scan : Scan} :
    Spec protocol a l (indexScanned cfg icfg cached scan) Fitting := by
  unfold indexScanned
  split
  · exact hfits
  · exact indexPacks_spec hfits

theorem committedChunks_spec :
    Spec protocol a l (committedChunks chunks)
      (Ends (fun a' l' committed => (protocol.later a a' ∧
        ∀ m ∈ committed, m ∈ a'.publish.visible) ∧ l'.Fits a') Fitting) := by
  induction chunks generalizing a l with
  | nil => exact ⟨⟨fun _ hm => hm, fun m hm => absurd hm not_mem_nil⟩, hfits⟩
  | cons chunk chunks ih =>
    refine execute_bind (fun (rows : List PackIdentity) => ?_) hfits
    generalize ha : a.finish (.read (.committed chunk)) (some rows) = a₁
    have hvisible : a₁.publish.visible = a.publish.visible ++ rows := by
      rw [← ha]
      rfl
    have hfits₁ : l.Fits a₁ := ha ▸ hfits
    refine Spec.bind (ih hfits₁) ?_ fun _ _ _ h => h
    rintro a₂ l₂ rest ⟨⟨hlater, hrest⟩, hfits₂⟩
    refine ⟨⟨fun m hm => hlater m ?_, fun m hm => ?_⟩, hfits₂⟩
    · rw [hvisible]
      exact mem_append_left _ hm
    · rcases mem_append.mp hm with hm | hm
      · refine hlater m ?_
        rw [hvisible]
        exact mem_append_right _ hm
      · exact hrest m hm

theorem committedPackIds_spec {identities : List PackIdentity} :
    Spec protocol a l (committedPackIds cfg identities)
      (Ends (fun a' l' committed => (∀ m ∈ committed, m ∈ a'.publish.visible) ∧ l'.Fits a')
        fun a' l' _ => True ∧ l'.Fits a') := by
  unfold committedPackIds
  split
  · exact ⟨fun m hm => absurd hm not_mem_nil, hfits⟩
  next h =>
    refine check_bind (fun _ => ?_) ⟨trivial, hfits⟩
    refine Spec.bind (committedChunks_spec _ hfits) ?_ fun _ _ _ h => ⟨trivial, h⟩
    rintro a₁ l₁ committed ⟨⟨-, hvisible⟩, hfits₁⟩
    exact check_bind (fun _ => ⟨hvisible, hfits₁⟩) ⟨trivial, hfits₁⟩

theorem index_spec {store : Store} :
    Spec protocol a l (index cfg icfg store cached refs) Fitting := by
  refine check_bind (fun _ => ?_) hfits
  refine Spec.bind (released_spec
    (fun _ _ _ hlater h m hm => hlater m (h m hm)) (fun _ _ _ _ h => h)
    (committedPackIds_spec hfits)) ?_ fun _ _ _ h => h.2
  rintro a₁ l₁ committed ⟨hvisible, hfits₁⟩
  refine perform_bind (fun m hm => ?_) fun _ => ?_
  · obtain ⟨ref, href, rfl⟩ := mem_map.mp hm
    exact hvisible _ (of_decide_eq_true (mem_filter.mp href).2)
  · split
    · exact hfits₁
    · exact fits_bind (indexScanned_spec hfits₁) fun _ _ _ h => h

end

/-- **Every operation of a writer obeys the protocol.** -/
theorem machine_sound (cl : Cluster) : (machine cl).Sound protocol where
  init := fits_of_none rfl
  reset _ := fits_of_none rfl
  body t a l hfits := by
    cases t with
    | acquirePublisherLease holder =>
      exact (acquirePublisherLease_spec hfits).toProg fun _ _ _ h => h
    | renewPublisherLease =>
      refine (renewPublisherLease_spec hfits).toProg ?_
      rintro a' l' (e | lease) h
      · exact h.2
      · exact h.2.fits
    | releasePublisherLease => exact (release_spec hfits).toProg fun _ _ _ h => h
    | publishSnapshot p =>
      refine (publishSnapshot_spec hfits).toProg ?_
      rintro a' l' (e | x) h <;> exact h.2
    | allocateVersion => exact (allocateVersion_spec hfits).toProg fun _ _ _ h => h
    | collectGarbage => exact (collectGarbage_spec hfits).toProg fun _ _ _ h => h
    | index icfg store cached refs => exact (index_spec hfits).toProg fun _ _ _ h => h

end Dmi.Catalog
