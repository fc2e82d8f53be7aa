import Dmi.Storage.Index

/-!
# An uploaded pack is accounted for

Between uploads and index passes some references are in flight; `Inv` accounts for every pack that
has left the spool, those in flight included. Each method keeps it (`Keeps`), however the spool, the
object store and the catalog answer. If the listings are complete (`strict`), no pack leaves the
spool otherwise than by its upload.
-/

namespace Dmi.Storage

open List Settled

open Proc (Meets Script)

variable {strict : Prop} {cfg : Config} {s s' s'' : Service} {α β : Type}
variable {refs left : List PackRef} {p : PackRef}

/-- The packs that are in the catalog, or were rejected and reported. -/
def Service.done (s : Service) : List PackRef := s.committed ++ s.reported.map Rejection.ref

/-- The packs that are not to be indexed any more. -/
def Service.accounts (s : Service) : List PackRef :=
  s.done ++ s.rejectedUnreported.map Rejection.ref

/-- A listing can open the root, and no staged pack fails its validation. -/
def Sees (strict : Prop) : (a : Act) → a.Res → Prop
  | .listPending, r => strict → r.2.opens = true ∧ r.2.bad = []
  | _, _ => True

/-- The books of the service, with `flying` uploaded and not yet indexed or owed. -/
structure Inv (strict : Prop) (cfg : Config) (flying : List PackRef) (s : Service) : Prop where
  accounted : ∀ p ∈ s.uploaded, p ∈ s.accounts ∨ p ∈ s.pendingIndex ∨ p ∈ flying
  bound : s.pendingIndex.length + flying.length ≤ cfg.chunk
  kept : strict → ∀ p ∈ s.history, p ∈ s.spool ∨ p ∈ s.uploaded

/-- No staged pack is forgotten, and nothing that has been done is undone. -/
structure Later (s s' : Service) : Prop where
  history : s.history ⊆ s'.history
  uploaded : s.uploaded ⊆ s'.uploaded
  done : s.done ⊆ s'.done

theorem Later.refl (s : Service) : Later s s := ⟨fun _ => id, fun _ => id, fun _ => id⟩

theorem Later.trans (h : Later s s') (h' : Later s' s'') : Later s s'' :=
  ⟨fun _ hp => h'.history (h.history hp), fun _ hp => h'.uploaded (h.uploaded hp),
    fun _ hp => h'.done (h.done hp)⟩

/-! ### Index passes -/

namespace Settled

section

variable (h : Settled s s' refs left)
include h

theorem later : Later s s' := by
  obtain ⟨new, -, hhistory⟩ := h.staged
  obtain ⟨indexed, rejected, hindexed, -, -⟩ := h.split
  refine ⟨by simp [hhistory], by simp [h.uploaded], fun p hp => ?_⟩
  simp only [Service.done, hindexed, h.reported, mem_append] at hp ⊢
  exact hp.imp_left .inl

theorem accounts : s.accounts ⊆ s'.accounts := by
  obtain ⟨indexed, rejected, hindexed, hrejected, -⟩ := h.split
  intro p hp
  simp only [Service.accounts, hrejected, map_append, mem_append] at hp ⊢
  exact hp.imp (h.later.done ·) .inl

theorem mem (hp : p ∈ refs) : p ∈ s'.accounts ∨ p ∈ left := by
  obtain ⟨indexed, rejected, hindexed, hrejected, hperm⟩ := h.split
  have hsplit := hperm.mem_iff.mp hp
  simp only [Service.accounts, Service.done, hindexed, hrejected, map_append,
    mem_append] at hsplit ⊢
  tauto

theorem length_le : left.length ≤ refs.length := by
  obtain ⟨indexed, rejected, -, -, hperm⟩ := h.split
  rw [hperm.length_eq, length_append]
  exact Nat.le_add_left _ _

theorem kept (hkept : strict → ∀ p ∈ s.history, p ∈ s.spool ∨
    p ∈ s.uploaded) : strict → ∀ p ∈ s'.history, p ∈ s'.spool ∨ p ∈ s'.uploaded := by
  obtain ⟨new, hspool, hhistory⟩ := h.staged
  intro hstrict p hp
  rw [hspool, h.uploaded, mem_append]
  rw [hhistory, mem_append] at hp
  have hold := hkept hstrict p
  tauto

theorem inv {flying : List PackRef} (hinv : Inv strict cfg flying s) :
    Inv strict cfg flying s' := by
  refine ⟨fun p hp => ?_, by rw [h.pending]; exact hinv.bound, h.kept hinv.kept⟩
  rw [h.uploaded] at hp
  rw [h.pending]
  exact (hinv.accounted p hp).imp_left (h.accounts ·)

end

end Settled

theorem Owed.inv (h : Owed s refs s') (hinv : Inv strict cfg refs s) :
    Inv strict cfg [] s' ∧ Later s s' := by
  obtain ⟨mid, left, hsettled, rfl⟩ := h
  refine ⟨⟨fun p hp => ?_, ?_, hsettled.kept hinv.kept⟩, hsettled.later.history,
    hsettled.later.uploaded, hsettled.later.done⟩
  · rw [hsettled.pending, mem_append]
    rcases hinv.accounted p (hsettled.uploaded ▸ hp) with hdone | hpending | hflying
    · exact .inl (hsettled.accounts hdone)
    · exact .inr (.inl (.inl hpending))
    · exact (hsettled.mem hflying).imp_right fun hleft => .inl (.inr hleft)
  · have hbound := hinv.bound
    have hleft := hsettled.length_le
    simp only [hsettled.pending, length_append, length_nil]
    omega

/-! ### Methods -/

/-- The method keeps the books. -/
def Keeps (strict : Prop) (cfg : Config) (s : Service) (m : Method α) : Prop :=
  Inv strict cfg [] s → Meets (Sees strict) s m fun s' _ => Inv strict cfg [] s' ∧ Later s s'

namespace Keeps

variable {m : Method α} {f : α → Method β}

theorem pure (x : α) : Keeps strict cfg s (Pure.pure x) := fun h => .pure ⟨h, .refl s⟩

theorem raise : Keeps strict cfg s (Script.raise () : Method α) := fun h => .raise ⟨h, .refl s⟩

theorem after {m : Method β} (h : Keeps strict cfg s' m) (hinv : Inv strict cfg [] s')
    (hlater : Later s s') :
    Meets (Sees strict) s' m fun s'' _ => Inv strict cfg [] s'' ∧ Later s s'' :=
  (h hinv).mono fun _ _ hend => ⟨hend.1, hlater.trans hend.2⟩

theorem bind (h : Keeps strict cfg s m) (hf : ∀ s' x, Keeps strict cfg s' (f x)) :
    Keeps strict cfg s (m >>= f) := fun hinv =>
  (h hinv).bind (fun s' x hmid => (hf s' x).after hmid.1 hmid.2) fun _ _ hend => hend

theorem get {f : Service → Method β} (h : Keeps strict cfg s (f s)) :
    Keeps strict cfg s (Script.get >>= f) := fun hinv => .get (h hinv)

theorem modify {g : Service → Service} {f : Unit → Method β}
    (hg : Inv strict cfg [] s → Inv strict cfg [] (g s) ∧ Later s (g s))
    (hf : Keeps strict cfg (g s) (f ())) : Keeps strict cfg s (Script.modify g >>= f) :=
  fun hinv => .modify (hf.after (hg hinv).1 (hg hinv).2)

theorem ask {a : Act} {f : a.Answer → Method β} (h : ∀ s' x, Keeps strict cfg s' (f x)) :
    Keeps strict cfg s (ask a >>= f) := fun hinv =>
  meets_ask fun r _ =>
    (h _ _).after ((stage s r.1 []).inv hinv) (stage s r.1 []).later

/-- The state of an adoption is not in the books. -/
theorem adopt {x : Service → Option Adoption} {y : Service → List Nat} {z : Service → Bool}
    {f : Unit → Method β} (h : ∀ s', Keeps strict cfg s' (f ())) :
    Keeps strict cfg s (Script.modify (fun s => { s with
      adopting := x s, adoptionQueue := y s, adoptionScanOwed := z s }) >>= f) :=
  .modify (fun hinv => ⟨⟨hinv.accounted, hinv.bound, hinv.kept⟩, fun _ => id, fun _ => id,
    fun _ => id⟩) (h _)

theorem ite {c : Prop} [Decidable c] {m' : Method α} (h : c → Keeps strict cfg s m)
    (h' : ¬c → Keeps strict cfg s m') : Keeps strict cfg s (if c then m else m') := by
  split
  next hc =>
    exact h hc
  next hc =>
    exact h' hc

end Keeps

theorem keeps_indexOrOwe (hinv : Inv strict cfg refs s) :
    Meets (Sees strict) s (indexOrOwe cfg refs) fun s' _ => Inv strict cfg [] s' ∧ Later s s' :=
  (meets_indexOrOwe refs).mono fun _ _ howed => howed.inv hinv

/-! ### Uploads -/

theorem mem_picked {chunk : List PackRef} (outcome : Nat → Upload) (hp : p ∈ chunk) :
    p ∈ picked outcome (· = .uploaded) chunk ∨ p ∈ picked outcome (· = .cancelled) chunk ∨
      p ∈ picked outcome (· = .failed true) chunk ∨
        p ∈ picked outcome (· = .failed false) chunk := by
  obtain ⟨i, hget⟩ := mem_iff_getElem?.mp hp
  have hi : (p, i) ∈ chunk.zipIdx := mk_mem_zipIdx_iff_getElem?.mpr hget
  have hpicked (kind : Upload → Bool) (h : kind (outcome i) = true) :
      p ∈ picked outcome kind chunk :=
    mem_map.mpr ⟨(p, i), mem_filter.mpr ⟨hi, h⟩, rfl⟩
  cases hout : outcome i with
  | uploaded => exact .inl (hpicked _ (by rw [hout]; rfl))
  | cancelled => exact .inr (.inl (hpicked _ (by rw [hout]; rfl)))
  | failed retryable =>
    cases retryable with
    | true => exact .inr (.inr (.inl (hpicked _ (by rw [hout]; rfl))))
    | false => exact .inr (.inr (.inr (hpicked _ (by rw [hout]; rfl))))

theorem length_picked_le (outcome : Nat → Upload) (kind : Upload → Bool) (chunk : List PackRef) :
    (picked outcome kind chunk).length ≤ chunk.length := by
  rw [picked, length_map]
  exact (length_filter_le _ _).trans_eq length_zipIdx

/-- What an upload of a chunk has put in flight. -/
def flyingOf : Except Unit Sent → List PackRef
  | .ok sent => sent.toIndex
  | .error _ => []

/-- A chunk that may start when nothing is owed. -/
theorem meets_uploadChunk (own : Bool) {chunk : List PackRef} (hinv : Inv strict cfg [] s)
    (hpending : s.pendingIndex = []) (hchunk : chunk.length ≤ cfg.chunk) :
    Meets (Sees strict) s (uploadChunk own chunk) fun s' r =>
      (Inv strict cfg (flyingOf r) s' ∧ Later s s') ∧ ∀ sent, r = .ok sent → ∀ p ∈ chunk,
        p ∈ s'.uploaded ∨ p ∈ sent.cancelled ∨ p ∈ sent.retryable ∨ p ∈ sent.refused := by
  refine meets_ask fun r _ => ?_
  have hstage := stage s r.1 []
  have hstaged := hstage.inv hinv
  cases r.2 with
  | none => exact .raise ⟨⟨hstaged, hstage.later⟩, by rintro sent h; cases h⟩
  | some outcome =>
    refine .modify (.pure ⟨⟨⟨fun p hp => ?_, ?_, fun hstrict p hp => ?_⟩, ?_, ?_, ?_⟩, ?_⟩)
    · rcases mem_append.mp hp with hold | hnew
      · rcases hstaged.accounted p hold with hdone | howed | hnone
        · exact .inl hdone
        · exact .inr (.inl howed)
        · cases hnone
      · exact .inr (.inr hnew)
    · simp only [flyingOf, Service.stage, hpending, length_nil, Nat.zero_add]
      exact (length_picked_le outcome _ chunk).trans hchunk
    · have hkept := hstaged.kept hstrict p hp
      by_cases hsent : p ∈ picked outcome (· = .uploaded) chunk
      · exact .inr (mem_append_right _ hsent)
      · refine hkept.imp (fun hspool => ?_) (mem_append_left _)
        split_ifs with hown
        · exact mem_filter.mpr ⟨hspool, by simpa using hsent⟩
        · exact hspool
    · exact hstage.later.history
    · exact fun p hp => mem_append_left _ (hstage.later.uploaded hp)
    · exact hstage.later.done
    · rintro sent hsent p hp
      cases hsent
      exact (mem_picked outcome hp).imp_left (mem_append_right _)

theorem meets_stopsChunks (first : Bool) (hfirst : first = true → s.pendingIndex = []) :
    Meets (Sees strict) s (stopsChunks first) fun s' r => Settled s s' [] [] ∧
      ∃ stop, r = .ok stop ∧ (stop = none → s'.pendingIndex = []) := by
  refine .get ?_
  split
  next h =>
    exact .pure ⟨.refl s [], _, rfl, fun _ => hfirst h⟩
  by_cases hpending : s.pendingIndex = []
  · rw [if_neg (not_not_intro hpending)]
    refine meets_ask fun r _ => ?_
    split_ifs
    · exact .pure ⟨.stage s r.1 [], _, rfl, by rintro ⟨⟩⟩
    · refine meets_ask fun r' _ => ?_
      have hstage := (stage s r.1 []).trans (.stage _ r'.1 [])
      split_ifs
      · exact .pure ⟨hstage, _, rfl, fun _ => hpending⟩
      · exact .pure ⟨hstage, _, rfl, by rintro ⟨⟩⟩
  · rw [if_pos hpending]
    exact .pure ⟨.refl s [], _, rfl, by rintro ⟨⟩⟩

/-- **The loop over the chunks.** If it uploads all of them and none is cut short, nothing of the
listing stays behind. -/
theorem meets_uploadChunks (first : Bool) (chunks : List (List PackRef)) (done : Phase)
    (hinv : Inv strict cfg [] s) (hfirst : first = true → s.pendingIndex = [])
    (hchunks : ∀ c ∈ chunks, c.length ≤ cfg.chunk) (hdone : done.uploadedAll = false) :
    Meets (Sees strict) s (uploadChunks cfg first chunks done) fun s' r =>
      (Inv strict cfg [] s' ∧ Later s s') ∧ ∀ phase, r = .ok phase → phase.uploadedAll = true →
        phase.cutShort = false →
          done.failures = 0 ∧ done.cutShort = false ∧ chunks.flatten ⊆ s'.uploaded := by
  induction chunks generalizing s first done with
  | nil =>
    refine .pure ⟨⟨hinv, .refl s⟩, ?_⟩
    rintro phase hphase hall hcut
    cases hphase
    exact ⟨of_decide_eq_true hall, hcut, fun p hp => by cases hp⟩
  | cons chunk rest ih =>
    refine (meets_stopsChunks first hfirst).bind ?_
      (by rintro s' e ⟨-, stop, hr, -⟩; cases hr)
    rintro s₁ stop ⟨hstage, stop', hr, hpending⟩
    cases hr
    cases stop with
    | some stop =>
      refine .pure ⟨⟨hstage.inv hinv, hstage.later⟩, ?_⟩
      rintro phase hphase hall -
      cases hphase
      exact absurd hall (by rw [hdone]; exact Bool.false_ne_true)
    | none =>
      refine (meets_uploadChunk true (hstage.inv hinv) (hpending rfl)
        (hchunks _ mem_cons_self)).bind ?_ ?_
      · rintro s₂ sent ⟨⟨hsent, hlater⟩, hcover⟩
        refine (keeps_indexOrOwe hsent).bind ?_ ?_
        · rintro s₃ deferred ⟨hinv₃, hlater₃⟩
          refine Meets.mono (ih false _ hinv₃ (by rintro ⟨⟩)
            (fun c hc => hchunks c (mem_cons_of_mem _ hc)) (by exact hdone)) ?_
          rintro s₄ r ⟨⟨hinv₄, hlater₄⟩, hall₄⟩
          refine ⟨⟨hinv₄, hstage.later.trans (hlater.trans (hlater₃.trans hlater₄))⟩, ?_⟩
          intro phase hphase hall hcut
          obtain ⟨hfail, hcut', hrest⟩ := hall₄ phase hphase hall hcut
          rw [Nat.add_eq_zero_iff, length_eq_zero_iff, append_eq_nil_iff] at hfail
          rw [Bool.or_eq_false_iff, decide_eq_false_iff_not, not_not] at hcut'
          refine ⟨hfail.1, hcut'.1, fun p hp => ?_⟩
          rcases mem_append.mp hp with hhere | hlast
          · have hp' := hcover sent rfl p hhere
            rw [hfail.2.1, hfail.2.2, hcut'.2] at hp'
            have hup : p ∈ s₂.uploaded := by simpa using hp'
            exact hlater₄.uploaded (hlater₃.uploaded hup)
          · exact hrest hlast
        · rintro s₃ e ⟨hinv₃, hlater₃⟩
          exact ⟨⟨hinv₃, hstage.later.trans (hlater.trans hlater₃)⟩, by rintro phase ⟨⟩⟩
      · rintro s₂ e ⟨⟨hinv₂, hlater₂⟩, -⟩
        exact ⟨⟨hinv₂, hstage.later.trans hlater₂⟩, by rintro phase ⟨⟩⟩

/-! ### Adoption -/

theorem keeps_beginAdoption (directory : Nat) (queue : List Nat) :
    Keeps strict cfg s (beginAdoption directory queue) := by
  refine .adopt fun s' => .ask fun s'' taken => ?_
  cases taken with
  | opened => exact .adopt fun _ => .pure ()
  | owned | gone | blocked => exact .pure ()

variable (adoption : Adoption)

theorem keeps_continueRecovery : Keeps strict cfg s (continueRecovery adoption) := by
  refine .ask fun s' valid => ?_
  cases valid with
  | some valid => exact .adopt fun _ => .pure ()
  | none => exact .pure ()

theorem Config.round_le_chunk (cfg : Config) : cfg.round ≤ cfg.chunk := by
  simp only [Config.round, Config.chunk]
  omega

theorem keeps_uploadAdoptedRound (hpending : s.pendingIndex = []) :
    Keeps strict cfg s (uploadAdoptedRound cfg adoption) := by
  intro hinv
  refine .modify ?_
  have hround : (adoption.remaining.take cfg.round).length ≤ cfg.chunk :=
    (length_take_le _ _).trans cfg.round_le_chunk
  have hinv₁ : Inv strict cfg [] { s with
      adopting := some { adoption with remaining := adoption.remaining.drop cfg.round } } :=
    ⟨hinv.accounted, hinv.bound, hinv.kept⟩
  refine (meets_uploadChunk false hinv₁ hpending hround).bind ?_ ?_
  · rintro s₂ sent ⟨⟨hsent, hlater⟩, -⟩
    have hinv₂ (x : Option Adoption) : Inv strict cfg sent.toIndex { s₂ with adopting := x } :=
      ⟨hsent.accounted, hsent.bound, hsent.kept⟩
    refine .modify ((keeps_indexOrOwe (hinv₂ _)).bind ?_ ?_)
    all_goals
      rintro s₃ _ ⟨hinv₃, hlater₃⟩
      have hlater' : Later s s₃ := .trans ⟨hlater.history, hlater.uploaded, hlater.done⟩
        ⟨hlater₃.history, hlater₃.uploaded, hlater₃.done⟩
      exact ⟨hinv₃, hlater'⟩
  · rintro s₂ e ⟨⟨hinv₂, hlater⟩, -⟩
    exact ⟨hinv₂, hlater.history, hlater.uploaded, hlater.done⟩

theorem keeps_adoptRound (done : Adopted) : Keeps strict cfg s (adoptRound cfg adoption done) := by
  refine .ask fun s' held => .get (.ite (fun _ => .pure _) fun hfree => ?_)
  have hpending : s'.pendingIndex = [] := not_not.mp (not_or.mp hfree).2
  refine (keeps_uploadAdoptedRound adoption hpending).bind fun _ round => ?_
  refine .ite (fun _ => .pure _) fun _ => .ite (fun _ => .pure _) fun _ => ?_
  exact .ask fun _ _ => .pure _

theorem keeps_adoptTurn (done : Adopted) : Keeps strict cfg s (adoptTurn cfg done) := by
  refine .get ?_
  cases s.adopting with
  | none =>
    cases s.adoptionQueue with
    | nil => exact .pure _
    | cons directory queue => exact (keeps_beginAdoption directory queue).bind fun _ _ => .pure _
  | some adoption =>
    refine .ite (fun _ => ?_) fun _ => .ite (fun _ => ?_) fun _ => keeps_adoptRound adoption done
    · exact (keeps_continueRecovery adoption).bind fun _ _ => .ask fun _ _ => .pure _
    · exact .adopt fun _ => .ask fun _ _ => .pure _

theorem keeps_adoptLoop (left : Nat) (stepped : Bool) (done : Adopted) :
    Keeps strict cfg s (adoptLoop cfg left stepped done) := by
  induction left generalizing s stepped done with
  | zero => exact .pure _
  | succ left ih =>
    refine .ask fun _ _ => .ite (fun _ => .pure _) fun _ => ?_
    refine .ask fun _ _ => .ite (fun _ => .pure _) fun _ => ?_
    refine .ask fun _ _ => .ite (fun _ => .pure _) fun _ => ?_
    exact (keeps_adoptTurn done).bind fun _ turn => .ite (fun _ => ih _ _) fun _ => .pure _

theorem keeps_scanSiblings (from_ : Service) : Keeps strict cfg s (scanSiblings from_) := by
  refine .ite (fun _ => .ask fun _ _ => ?_) fun _ => .pure _
  refine .ite (fun _ => .ask fun _ dead => ?_) fun _ => .pure _
  cases dead with
  | none => exact .pure _
  | some dead => exact .adopt fun _ => .pure _

theorem keeps_adoptStep : Keeps strict cfg s (adoptStep cfg) := by
  refine .get ((keeps_scanSiblings s).bind fun _ scanned => ?_)
  cases scanned with
  | some done => exact .pure _
  | none => exact .ask fun _ steps => keeps_adoptLoop steps false _

theorem keeps_adoptSiblings (loop uploadedAll : Bool) :
    Keeps strict cfg s (adoptSiblings cfg loop uploadedAll) := by
  refine .get (.ite (fun _ => .ask fun _ _ => ?_) fun _ => .pure _)
  exact .ite (fun _ => .pure _) fun _ => keeps_adoptStep

/-! ### Cycles -/

theorem keeps_reconcile (pages : Nat) : Keeps strict cfg s (reconcile cfg pages) := by
  induction pages generalizing s with
  | zero => exact .pure _
  | succ pages ih =>
    refine .ask fun s' page => ?_
    cases page with
    | cut => exact .pure _
    | error => exact .raise
    | missing refs =>
      have hpass : Keeps strict cfg s' (indexBounded cfg refs) := fun hinv =>
        (meets_indexBounded refs).mono fun _ _ ⟨_, _, hsettled⟩ =>
          ⟨hsettled.inv hinv, hsettled.later⟩
      exact hpass.bind fun _ _ => .ite (fun _ => .raise) fun _ => ih

theorem keeps_reconcileIfDue (loop catalog : Bool) :
    Keeps strict cfg s (reconcileIfDue cfg loop catalog) := by
  refine .ite (fun _ => .ask fun _ _ => .ask fun _ _ => ?_) fun _ => .pure _
  exact .ite (fun _ => .ask fun _ pages => keeps_reconcile pages) fun _ => .pure _

theorem keeps_retryOwed (catalog : Bool) : Keeps strict cfg s (retryOwed cfg catalog) := by
  refine .get (.ite (fun _ hinv => .modify ?_) fun _ => .pure _)
  have hflying : Inv strict cfg s.pendingIndex { s with pendingIndex := [] } := by
    refine ⟨fun p hp => ?_, ?_, hinv.kept⟩
    · rcases hinv.accounted p hp with hdone | howed | hnone
      · exact .inl hdone
      · exact .inr (.inr howed)
      · cases hnone
    · rw [length_nil, Nat.zero_add]
      exact hinv.bound
  exact (keeps_indexOrOwe hflying).mono
    fun _ _ hend => ⟨hend.1, hend.2.history, hend.2.uploaded, hend.2.done⟩

/-- The upload phase. If it uploads all that it has listed, and the listing was complete, then
nothing that was staged before it stays behind. -/
theorem meets_uploadStaged (catalog : Bool) (hinv : Inv strict cfg [] s) :
    Meets (Sees strict) s (uploadStaged cfg catalog) fun s' r =>
      (Inv strict cfg [] s' ∧ Later s s') ∧ ∀ phase, r = .ok phase → phase.uploadedAll = true →
        phase.cutShort = false → strict → s.history ⊆ s'.uploaded := by
  refine .get ?_
  split
  next hstart =>
    refine meets_ask fun r hsees => .get (.modify ?_)
    have hstage := stage s r.1 []
    have hstaged := hstage.inv hinv
    have hvalid (hstrict : strict) : r.2.valid (s.stage r.1).spool = (s.stage r.1).spool := by
      simp [Listing.valid, (hsees hstrict).1, (hsees hstrict).2]
    set s₁ : Service := { s.stage r.1 with spool := _ } with hs₁
    have hinv₁ : Inv strict cfg [] s₁ := by
      refine ⟨hstaged.accounted, hstaged.bound, fun hstrict p hp => ?_⟩
      have hspool : s₁.spool = (s.stage r.1).spool := by
        simp only [hs₁, (hsees hstrict).1, if_true, hvalid hstrict]
      rw [hspool]
      exact hstaged.kept hstrict p hp
    have hlater₁ : Later s s₁ := ⟨hstage.later.history, hstage.later.uploaded, hstage.later.done⟩
    by_cases hcut : (r.2.opens && r.2.cut) = true
    · rw [if_pos hcut]
      refine .pure ⟨⟨hinv₁, hlater₁⟩, ?_⟩
      rintro phase hphase hall
      cases hphase
      cases hall
    · rw [if_neg hcut]
      refine (meets_uploadChunks true _ {} hinv₁ (fun _ => hstart.2)
        (fun c hc => length_le_of_mem_chunksOf _ _ hc) rfl).mono ?_
      rintro s₂ r₂ ⟨⟨hinv₂, hlater₂⟩, hall₂⟩
      refine ⟨⟨hinv₂, hlater₁.trans hlater₂⟩, fun phase hphase hall hcut' hstrict p hp => ?_⟩
      obtain ⟨-, -, hlisted⟩ := hall₂ phase hphase hall hcut'
      rw [flatten_chunksOf cfg.one_le_chunk _ _ le_rfl, hvalid hstrict] at hlisted
      rcases hstaged.kept hstrict p (hstage.later.history hp) with hspool | hup
      · exact hlisted hspool
      · exact hlater₂.uploaded hup
  · refine .pure ⟨⟨hinv, .refl s⟩, ?_⟩
    rintro phase hphase hall
    cases hphase
    cases hall

/-- What it means that a cycle has drained the spool. -/
def Drains (strict : Prop) (s s' : Service) (o : Outcome) : Prop :=
  o.drained = true → o.failed = false ∧ o.cutShort = false ∧ s'.pendingIndex = [] ∧
    (strict → s.history ⊆ s'.uploaded)

theorem meets_cycleBody (loop catalog : Bool) (hinv : Inv strict cfg [] s) :
    Meets (Sees strict) s (cycleBody cfg loop catalog) fun s' r =>
      (Inv strict cfg [] s' ∧ Later s s') ∧ ∀ o, r = .ok o → Drains strict s s' o := by
  refine (keeps_retryOwed catalog hinv).bind ?_ fun _ _ hend => ⟨hend, by rintro o ⟨⟩⟩
  rintro s₁ owed ⟨hinv₁, hlater₁⟩
  refine (meets_uploadStaged catalog hinv₁).bind ?_ ?_
  · rintro s₂ phase ⟨⟨hinv₂, hlater₂⟩, hall⟩
    have hlater := hlater₁.trans hlater₂
    refine (keeps_adoptSiblings loop phase.uploadedAll hinv₂).bind ?_
      fun _ _ hend => ⟨⟨hend.1, hlater.trans hend.2⟩, by rintro o ⟨⟩⟩
    rintro s₃ adopted ⟨hinv₃, hlater₃⟩
    refine (keeps_reconcileIfDue loop catalog hinv₃).bind ?_
      fun _ _ hend => ⟨⟨hend.1, hlater.trans (hlater₃.trans hend.2)⟩, by rintro o ⟨⟩⟩
    rintro s₄ _ ⟨hinv₄, hlater₄⟩
    refine .get (.pure ⟨⟨hinv₄, hlater.trans (hlater₃.trans hlater₄)⟩, ?_⟩)
    rintro o ho hdrained
    cases ho
    simp only [Bool.and_eq_true, Bool.not_eq_true', Bool.or_eq_false_iff, decide_eq_false_iff_not,
      not_not, not_lt] at hdrained ⊢
    obtain ⟨⟨hdone, hfailed⟩, hcut⟩ := hdrained
    refine ⟨hfailed, hcut, ?_, fun hstrict p hp => ?_⟩
    · have hlength := hfailed.2
      rw [hcut.2, Nat.le_zero, length_eq_zero_iff] at hlength
      exact hlength
    · have hup := hall phase rfl hdone hcut.1.1 hstrict (hlater₁.history hp)
      exact hlater₄.uploaded (hlater₃.uploaded hup)
  · rintro s₂ e ⟨⟨hinv₂, hlater₂⟩, -⟩
    exact ⟨⟨hinv₂, hlater₁.trans hlater₂⟩, by rintro o ⟨⟩⟩

theorem meets_runCycle (loop : Bool) (hinv : Inv strict cfg [] s) :
    Meets (Sees strict) s (runCycle cfg loop) fun s' r =>
      (Inv strict cfg [] s' ∧ Later s s') ∧ ∀ o, r = .ok o → Drains strict s s' o := by
  refine meets_ask fun r _ => ?_
  have hstage := stage s r.1 []
  split
  · refine .pure ⟨⟨hstage.inv hinv, hstage.later⟩, ?_⟩
    rintro o ho hdrained
    cases ho
    cases hdrained
  refine meets_ask fun r' _ => ?_
  have hstage' := hstage.trans (.stage _ r'.1 [])
  refine (meets_cycleBody loop r'.2 (hstage'.inv hinv)).attempt ?_ ?_
  · rintro s' o ⟨⟨hinv', hlater'⟩, hdrains⟩
    refine ⟨⟨hinv', hstage'.later.trans hlater'⟩, ?_⟩
    rintro o' ho' hdrained
    cases ho'
    obtain ⟨hfailed, hcut, hpending, hall⟩ := hdrains o rfl hdrained
    exact ⟨hfailed, hcut, hpending, fun hstrict p hp => hall hstrict (hstage'.later.history hp)⟩
  · rintro s' e ⟨⟨hinv', hlater'⟩, -⟩
    refine .pure ⟨⟨hinv', hstage'.later.trans hlater'⟩, ?_⟩
    rintro o ho hdrained
    cases ho
    cases hdrained

end Dmi.Storage
