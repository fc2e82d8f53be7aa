import Dmi.Objects.Immutable

/-!
# When an upload leaves an object that the reconciler accepts

`UploadOne` removes the staged copy when the store holds the pack. A crash may come before the pack
is indexed; then the reconciler must find it by the object alone. The preflight of `UploadOne`
compares the size, the checksum text and the content of an object that is there already, and not
the other metadata that the reconciler asks for; and it uploads a pack whose identifier is not in
its canonical text, or whose number of records is out of range. Nothing else can go wrong:
`upload_leaves_indexable` says exactly when every object for which a staged copy is removed is
accepted.
-/

namespace Dmi.Objects

open Native (lit)
open Proc (Prog Pool Protocol Obeys)
open Function World

section Upload

variable {cfg : UploaderConfig} {p : StagedPack} {objects : Bytes → Option Object}
  {copy : Option Bytes}

def StagedPack.claim (p : StagedPack) : Claim :=
  ⟨p.objectKey, p.objectBytes.toNat, p.checksum, p.metadata, true⟩

/-- One `UploadOne` at its start. -/
def upload (cfg : UploaderConfig) (p : StagedPack) (objects : Bytes → Option Object)
    (copy : Option Bytes) : Calls Unit :=
  calls (fun _ => .native cfg p) objects fun _ => copy

/-- The staged copy is removed now. -/
def Removes (s : Calls Unit) (p : StagedPack) : Prop := ∃ k, s.prog () = .act (.remove p) k

/-- The object under the key is accepted by `reconcile` and has the staged content. -/
def Accepted (cfg : UploaderConfig) (p : StagedPack) (w : World Unit) : Prop :=
  ∃ o ∈ w.objects p.objectKey, (reconcileRef cfg.storeId p.objectKey o.head).isSome ∧
    p.claim.Carries o.bytes

/-- In every run, whatever fails in it, the staged copy is removed, and success reported, only with
an accepted object in the store. -/
def LeavesIndexable (cfg : UploaderConfig) (p : StagedPack) (objects : Bytes → Option Object)
    (copy : Option Bytes) : Prop :=
  ∀ labels s, Lts.run (Pool.step answer) (upload cfg p objects copy) labels = some s →
    Removes s p ∨ Reported s () → Accepted cfg p s.world

/-- An object that passes for the pack and is the pack carries the metadata. -/
def GoodObject (p : StagedPack) (objects : Bytes → Option Object) : Prop :=
  ∀ o ∈ objects p.objectKey, p.claim.Passes o.head → p.claim.Carries o.bytes →
    isPackId (packIdOf p.objectKey) = true ∧ Indexable (packIdOf p.objectKey) o.head

/-- A pack that is uploaded is named by its key, in the canonical text, and has a number of
records in range. -/
def GoodPack (p : StagedPack) (objects : Bytes → Option Object) (copy : Option Bytes) : Prop :=
  objects p.objectKey = none → ∀ data ∈ copy, p.claim.Carries data →
    isPackId (packIdOf p.objectKey) = true ∧ p.packId = packIdOf p.objectKey ∧
      1 ≤ p.recordCount.toNat ∧ p.recordCount.toNat ≤ 1000000

/-! ### What is under the key -/

/-- The object under the key is the one that was there, or one that was put on an empty key. -/
structure Own (p : StagedPack) (objects : Bytes → Option Object) (copy : Option Bytes)
    (w : World Unit) (agent : Unit → Phase) : Prop where
  object : w.objects p.objectKey = objects p.objectKey ∨
    objects p.objectKey = none ∧ ∃ data ∈ copy, p.claim.Carries data ∧
      w.objects p.objectKey = some ⟨data, p.metadata⟩
  free : ∀ read, agent () = .free read → objects p.objectKey = none ∧ ∀ data ∈ read, data ∈ copy
  staged : ∀ data ∈ w.staged (), data ∈ copy
  carried : agent () ≠ .stored false

theorem own_upload : Own p objects copy (upload cfg p objects copy).world fun _ => .looking where
  object := .inl rfl
  free read h := by cases h
  staged data h := h
  carried h := by cases h

variable {agent : Unit → Phase}

theorem Own.quiet {w w' : World Unit} (h : Own p objects copy w agent)
    (hobjects : w'.objects = w.objects) (hstaged : ∀ data ∈ w'.staged (), data ∈ w.staged ())
    {s : Phase}
    (hfree : ∀ read, s = .free read → objects p.objectKey = none ∧ ∀ data ∈ read, data ∈ copy)
    (hcarried : s ≠ .stored false) :
    Own p objects copy w' (update agent () s) where
  object := by
    rw [hobjects]
    exact h.object
  free read hread := hfree read ((update_self ..).symm.trans hread)
  staged data hdata := h.staged data (hstaged data hdata)
  carried hs := hcarried ((update_self ..).symm.trans hs)

/-- A step after which the call knows of no empty key. -/
theorem Own.quiet_of_not_armed {w w' : World Unit} (h : Own p objects copy w agent)
    (hobjects : w'.objects = w.objects) (hstaged : ∀ data ∈ w'.staged (), data ∈ w.staged ())
    {s : Phase}
    (hs : s = agent () ∨ ¬ s.Armed) : Own p objects copy w' (update agent () s) := by
  rcases hs with rfl | hs
  · exact h.quiet hobjects hstaged h.free h.carried
  · refine h.quiet hobjects hstaged (fun read hread => ?_) fun hstored => ?_
    · exact absurd (hread ▸ trivial) hs
    · exact absurd (hstored ▸ trivial) hs

theorem Own.put {w : World Unit} (h : Own p objects copy w agent) {data : Bytes}
    (hfree : agent () = .free (some data)) (hcarries : p.claim.Carries data) (r : Sent) :
    Own p objects copy (w.store () p.objectKey ⟨data, p.metadata⟩)
      (update agent () (p.claim.afterPut (agent ()) ⟨data, p.metadata⟩ r)) := by
  obtain ⟨hnone, hread⟩ := h.free _ hfree
  constructor
  · exact .inr ⟨hnone, data, hread data rfl, hcarries, update_self ..⟩
  · intro read hs
    cases r with
    | stored => cases hs
    | again =>
      rw [Claim.afterPut, hfree] at hs
      cases hs
      exact ⟨hnone, hread⟩
    | failed => cases hs
  · exact h.staged
  · cases r with
    | stored =>
      rw [Claim.afterPut, decide_eq_true hcarries]
      exact fun hs => by cases hs
    | again => exact h.carried
    | failed => exact fun hs => by cases hs

theorem afterHead_of_found {c : Claim} (s : Phase) (head : ObjectHead) :
    c.afterHead s (.ok (some head)) = s ∨ ¬ (c.afterHead s (.ok (some head))).Armed := by
  rw [Claim.afterHead]
  by_cases hs : s = .stored true
  · exact .inl (if_pos hs)
  · refine .inr ?_
    split_ifs <;> exact id

theorem afterGet_cases {c : Claim} (s : Phase) (r : Reply Bytes) :
    c.afterGet s r = s ∨ ¬ (c.afterGet s r).Armed := by
  cases r with
  | failed => exact .inl rfl
  | ok body =>
    rw [Claim.afterGet]
    by_cases hs : s = .passed
    · refine .inr ?_
      split_ifs <;> exact id
    · exact .inl (if_neg hs)

theorem own_keeps : Pool.Keeps answer (fun _ => p.claim.protocol) (Own p objects copy) := by
  rintro ⟨⟩ w agent a choice r w' h hallowed hanswer
  have hsame : ∀ {s : Phase}, s = agent () ∨ ¬ s.Armed →
      Own p objects copy w (update agent () s) :=
    fun hs => h.quiet_of_not_armed rfl (fun _ => id) hs
  cases a with
  | head key =>
    obtain rfl : key = p.objectKey := hallowed
    cases choice with (try cases hanswer)
    | serve =>
      have hserve : w.serveHead () p.objectKey = (r, w') := Option.some.inj hanswer
      cases hobject : w.objects p.objectKey with
        (simp only [serveHead, hobject] at hserve; cases hserve)
      | some o =>
        refine h.quiet_of_not_armed ?_ ?_ (afterHead_of_found _ _)
        · rfl
        · exact fun _ => id
      | none =>
        have hnone : objects p.objectKey = none := by
          rcases h.object with heq | ⟨hnone, -⟩
          · exact heq.symm.trans hobject
          · exact hnone
        refine h.quiet ?_ ?_ ?_ ?_
        · rfl
        · exact fun _ => id
        · intro read hread
          cases hread
          exact ⟨hnone, fun data hdata => by cases hdata⟩
        · exact fun hs => by cases hs
    | fail => exact hsame (.inl rfl)
  | get key length =>
    cases choice with (try cases hanswer)
    | serve => exact hsame (afterGet_cases _ _)
    | fail => exact hsame (.inl rfl)
  | put key o =>
    obtain ⟨rfl, hmeta, -, hchecked⟩ := hallowed
    obtain ⟨hfree, hcarries⟩ := hchecked rfl
    obtain ⟨data, metadata⟩ := o
    obtain rfl : metadata = p.metadata := hmeta
    have hnot : ∀ r, r ≠ Sent.stored → Own p objects copy w (update agent ()
        (p.claim.afterPut (agent ()) ⟨data, p.metadata⟩ r)) := by
      intro r hr
      cases r with
      | stored => exact absurd rfl hr
      | again => exact hsame (.inl rfl)
      | failed => exact hsame (.inr id)
    cases choice with (try cases hanswer)
    | serve => exact h.put hfree hcarries .stored
    | fail error cut applied =>
      cases applied with
      | true => exact h.put hfree hcarries (.failed error cut)
      | false => exact hnot (.failed error cut) fun h => by cases h
    | again applied =>
      cases applied with
      | true => exact h.put hfree hcarries .again
      | false => exact hnot .again fun h => by cases h
  | delete key => exact absurd hallowed.2 h.carried
  | cancelled | backoff attempt =>
    cases choice <;> cases hanswer
    exact hsame (.inl rfl)
  | readFile path =>
    cases choice with (try cases hanswer)
    | serve =>
      change Own p objects copy w (update agent () ((agent ()).afterRead _))
      rcases (agent ()).afterRead_cases (w.serveFile () path) with heq | ⟨read, data, hs, hr, heq⟩
      · exact hsame (.inl heq)
      · rw [heq]
        refine h.quiet rfl (fun _ => id) (fun read' hread => ?_) fun hs => by cases hs
        cases hread
        refine ⟨(h.free read hs).1, fun data' hdata => ?_⟩
        cases hdata
        refine h.staged data ?_
        cases hstaged : w.staged () <;> simp only [serveFile, hstaged] at hr <;> cases hr
        rfl
    | fail error =>
      rcases (agent ()).afterRead_cases (.error error) with heq | ⟨_, _, _, hr, _⟩
      · exact hsame (.inl heq)
      · cases hr
  | remove staged =>
    cases choice with (try cases hanswer)
    | serve =>
      refine h.quiet_of_not_armed ?_ ?_ (.inl rfl)
      · rfl
      · intro data hdata
        cases hdata
    | fail => exact hsame (.inl rfl)

/-! ### The condition is enough -/

theorem text_checksum {o : Object} (h : p.claim.Passes o.head) :
    o.head.text "dmi-sha256" = p.checksum := by
  rw [ObjectHead.text, h.2]
  rfl

/-- A pack that carries its checksum has a well-formed one, so the rest of the metadata decides. -/
theorem reconcileRef_of_passes {o : Object} (hpasses : p.claim.Passes o.head)
    (hcarries : p.claim.Carries o.bytes) :
    (reconcileRef cfg.storeId p.objectKey o.head).isSome ↔
      isPackId (packIdOf p.objectKey) = true ∧ Indexable (packIdOf p.objectKey) o.head := by
  refine reconcileRef_isSome ?_
  have hsum : checksumOf o.bytes = p.checksum := hcarries.2
  rw [text_checksum hpasses, ← hsum]
  exact isHex64_checksumOf o.bytes

theorem leavesIndexable_of_good (hobject : GoodObject p objects)
    (hpack : GoodPack p objects copy) : LeavesIndexable cfg p objects copy := by
  intro labels s hrun hs
  have hinit : Pool.Tracked (fun _ => p.claim.protocol) (fun _ s r => r.isSome → s.Done)
      (fun w agent => Inv (fun _ => .native cfg p) w agent ∧ Own p objects copy w agent)
      (upload cfg p objects copy) :=
    ⟨_, ⟨inv_calls _ _, own_upload⟩, fun _ => obeys_body (.native cfg p)⟩
  have hkeeps : Pool.Keeps answer (fun _ : Unit => p.claim.protocol)
      (fun w agent => Inv (fun _ => .native cfg p) w agent ∧ Own p objects copy w agent) :=
    Pool.Keeps.and inv_keeps own_keeps
  obtain ⟨agent, ⟨hinv, hown⟩, hobeys⟩ := Pool.run_tracks hkeeps hinit hrun
  have hdone : (agent ()).Done := by
    have h := hobeys ()
    rcases hs with ⟨k, hk⟩ | ⟨ref, href⟩
    · rw [hk] at h
      exact h.1
    · rw [href] at h
      exact h rfl
  rcases hinv.kept () (.inr hdone) with ⟨o, ho, hpasses, hcarries⟩ | ⟨d, _, _, _, hne, _⟩
  · refine ⟨o, ho, (reconcileRef_of_passes hpasses (hcarries hdone)).mpr ?_, hcarries hdone⟩
    rcases hown.object with heq | ⟨hnone, data, hdata, hcarried, heq⟩
    · exact hobject o (heq ▸ ho) hpasses (hcarries hdone)
    · obtain rfl := Option.some.inj (heq.symm.trans ho)
      obtain ⟨hid, hname, hrange⟩ := hpack hnone data hdata hcarried
      exact ⟨hid, (indexable_packMetadata p.recordCount.toNat_lt).mpr ⟨hname, hrange⟩⟩
  · exact absurd rfl hne

/-- A call that makes no attempt, or whose client makes none, only waits. -/
def waiting : Protocol Act Act.Res Empty Unit :=
  .following () (fun _ a => a = .cancelled ∨ ∃ n, a = .backoff n) fun _ _ _ => ()

theorem obeys_waiting_mayStart (attempts : Nat) :
    Obeys waiting () (mayStart attempts) fun _ _ => True := by
  have hsleep : Obeys waiting () (waitOut attempts) fun _ _ => True := by
    by_cases h : attempts > 0
    · rw [waitOut, if_pos h]
      exact Obeys.perform (.inr ⟨_, rfl⟩) fun _ => trivial
    · rw [waitOut, if_neg h]
      trivial
  refine Obeys.bind hsleep ?_
  rintro ⟨⟩ (_ | _) -
  · trivial
  · exact ⟨.inl rfl, fun _ => trivial⟩

theorem obeys_waiting_uploadLoop (hrequest : cfg.requestAttempts = 0) (left attempts : Nat)
    (lastError : Bytes) (cut : Bool) :
    Obeys waiting () (uploadLoop cfg p left attempts lastError cut) fun _ r => r.ref = none := by
  have hattempt : uploadAttempt cfg p =
      pure (.failed (lit "exhausted retries without a response") false) := by
    rw [uploadAttempt, headObject, if_pos hrequest]
    rfl
  induction left generalizing attempts lastError cut with
  | zero => cases cut <;> exact rfl
  | succ left ih =>
    refine Obeys.bind (obeys_waiting_mayStart attempts) ?_
    rintro ⟨⟩ (_ | _) -
    · exact rfl
    · simp only [if_true, hattempt]
      exact ih _ _ _

theorem leavesIndexable_of_idle (hidle : cfg.maxAttempts = 0 ∨ cfg.requestAttempts = 0) :
    LeavesIndexable cfg p objects copy := by
  intro labels s hrun hs
  have hloop : Obeys waiting () (uploadOne cfg p) fun _ r => r.ref = none := by
    rcases hidle with hmax | hrequest
    · rw [uploadOne, hmax]
      exact rfl
    · exact obeys_waiting_uploadLoop hrequest _ _ _ _
  have hinit : Pool.Tracked (fun _ => waiting) (fun _ _ r => r = none)
      (fun _ _ => True) (upload cfg p objects copy) :=
    ⟨fun _ => (), trivial, fun _ => Obeys.bind hloop fun _ _ h => h⟩
  obtain ⟨agent, -, hobeys⟩ := Pool.run_tracks (fun _ _ _ _ _ _ _ _ _ _ => trivial) hinit hrun
  have h := hobeys ()
  rcases hs with ⟨k, hk⟩ | ⟨ref, href⟩
  · rw [hk] at h
    rcases h.1 with h | ⟨n, h⟩ <;> cases h
  · rw [href] at h
    cases h

/-! ### The condition is needed -/

section Needed

variable {w w' : World Unit}

theorem steps_perform {a : Act} {r : a.Res} (choice : Choice)
    (h : answer () w a choice = some (r, w')) : Prog.Steps (answer ()) w (perform a) w' (pure r) :=
  .act choice h .refl

theorem steps_mayStart : Prog.Steps (answer ()) w (mayStart 0) w (pure true) :=
  .act (.say false) rfl .refl

section

variable (hrequest : cfg.requestAttempts ≠ 0)
include hrequest

theorem steps_headObject_found {o : Object} (ho : w.objects p.objectKey = some o) :
    Prog.Steps (answer ()) w (headObject cfg.requestAttempts p.objectKey)
      { w with log := w.log ++ [.found ()] } (pure (.ok (some o.head))) := by
  rw [headObject, if_neg hrequest]
  refine steps_perform .serve ?_
  rw [answer, serveHead, ho]

theorem steps_headObject_empty (ho : w.objects p.objectKey = none) :
    Prog.Steps (answer ()) w (headObject cfg.requestAttempts p.objectKey)
      { w with log := w.log ++ [.empty ()] } (pure (.ok none)) := by
  rw [headObject, if_neg hrequest]
  refine steps_perform .serve ?_
  rw [answer, serveHead, ho]

theorem steps_getRange {o : Object}
    (ho : w.objects p.objectKey = some o) (hsize : o.bytes.length = p.objectBytes.toNat) :
    Prog.Steps (answer ()) w (getRange cfg.requestAttempts p.objectKey p.objectBytes.toNat) w
      (pure (.ok o.bytes)) := by
  by_cases hzero : p.objectBytes.toNat = 0
  · rw [getRange, if_pos hzero, List.length_eq_zero_iff.mp (hsize.trans hzero)]
    exact .refl
  · rw [getRange, if_neg hzero, if_neg hrequest]
    have hserve : answer () w (.get p.objectKey p.objectBytes.toNat) .serve =
        some (.ok o.bytes, w) := by
      rw [answer, serveRange, ho]
      simp only [List.take_of_length_le (Nat.le_of_eq hsize)]
    refine (steps_perform .serve hserve).seq ?_
    simp only [hsize, ne_eq, not_true_eq_false, if_false]
    exact .refl

/-- With an object that is the pack under the key, the first attempt comes to the removal. -/
theorem steps_uploadAttempt_found {o : Object}
    (ho : w.objects p.objectKey = some o) (hpasses : p.claim.Passes o.head)
    (hcarries : p.claim.Carries o.bytes) :
    Prog.Steps (answer ()) w (uploadAttempt cfg p) { w with log := w.log ++ [.found ()] }
      (removeStaged p) := by
  refine (steps_headObject_found hrequest ho).seq ?_
  simp only [if_pos (show o.head.size = p.objectBytes.toNat ∧
    o.head.metadata.get? (lit "dmi-sha256") = some p.checksum from hpasses)]
  refine (steps_getRange (w := { w with log := w.log ++ [.found ()] }) hrequest ho
    hcarries.1).seq ?_
  have hsum : checksumOf o.bytes = p.checksum := hcarries.2
  simp only [hsum, ne_eq, not_true_eq_false, if_false]
  exact .refl

/-- With a staged copy that is the pack, the upload comes to the removal. -/
theorem steps_storeStaged {data : Bytes}
    (hdata : w.staged () = some data) (hcarries : p.claim.Carries data) :
    Prog.Steps (answer ()) w (storeStaged cfg p)
      { w.store () p.objectKey ⟨data, p.metadata⟩ with
        log := (w.store () p.objectKey ⟨data, p.metadata⟩).log ++ [.found ()] }
      (removeStaged p) := by
  have hread : answer () w (.readFile p.path) .serve = some (.ok data, w) := by
    simp only [answer, serveFile, hdata]
  have hgood : ¬ (data.length ≠ p.objectBytes.toNat ∨ checksumOf data ≠ p.checksum) := by
    rw [not_or, not_not, not_not]
    exact hcarries
  have hput : Prog.Steps (answer ()) w
      (putObject p.objectKey ⟨data, p.metadata⟩ cfg.requestAttempts)
      (w.store () p.objectKey ⟨data, p.metadata⟩) (pure (.ok ())) := by
    obtain ⟨attempts, hattempts⟩ := Nat.exists_eq_succ_of_ne_zero hrequest
    rw [hattempts]
    exact (steps_perform .serve rfl).seq .refl
  have hobject : (w.store () p.objectKey ⟨data, p.metadata⟩).objects p.objectKey =
      some ⟨data, p.metadata⟩ := update_self ..
  refine (steps_perform .serve hread).seq ?_
  simp only [if_neg hgood]
  refine hput.seq ((steps_headObject_found hrequest hobject).seq ?_)
  have hsize : (⟨data, p.metadata⟩ : Object).head.size = p.objectBytes.toNat := hcarries.1
  simp only [hsize, ne_eq, not_true_eq_false, if_false]
  exact .refl

end

/-- The first attempt that comes to the removal, in the whole call. -/
theorem removes_of_steps (hmax : cfg.maxAttempts ≠ 0)
    (hattempt : Prog.Steps (answer ()) (upload cfg p objects copy).world (uploadAttempt cfg p) w'
      (removeStaged p)) :
    ∃ labels s, Lts.run (Pool.step answer) (upload cfg p objects copy) labels = some s ∧
      Removes s p ∧ s.world = w' := by
  obtain ⟨left, hleft⟩ := Nat.exists_eq_succ_of_ne_zero hmax
  obtain ⟨f, hloop⟩ : ∃ f, Prog.Steps (answer ()) (upload cfg p objects copy).world
      (uploadOne cfg p) w' (removeStaged p >>= f) := by
    rw [uploadOne, hleft, uploadLoop]
    exact ⟨_, steps_mayStart.seq (hattempt.bind _)⟩
  have hbody : Prog.Steps (answer ()) (upload cfg p objects copy).world (Task.native cfg p).body w'
      (removeStaged p >>= f >>= fun result => pure result.ref) := hloop.bind _
  obtain ⟨k, hk⟩ : ∃ k, (removeStaged p >>= f >>= fun result => pure result.ref :
      Call (Option PackRef)) = .act (.remove p) k := ⟨_, rfl⟩
  rw [hk] at hbody
  obtain ⟨labels, hrun⟩ := Pool.exists_run_of_steps hbody (s := upload cfg p objects copy) rfl rfl
  refine ⟨labels, _, hrun, ⟨k, ?_⟩, rfl⟩
  dsimp only
  rw [update_self]

theorem good_of_leavesIndexable (hmax : cfg.maxAttempts ≠ 0) (hrequest : cfg.requestAttempts ≠ 0)
    (h : LeavesIndexable cfg p objects copy) :
    GoodObject p objects ∧ GoodPack p objects copy := by
  have haccepted : ∀ {w' : World Unit}, Prog.Steps (answer ()) (upload cfg p objects copy).world
      (uploadAttempt cfg p) w' (removeStaged p) → Accepted cfg p w' := by
    intro w' hattempt
    obtain ⟨labels, s, hrun, hremoves, rfl⟩ := removes_of_steps hmax hattempt
    exact h labels s hrun (.inl hremoves)
  constructor
  · intro o ho hpasses hcarries
    obtain ⟨o', ho', hsome, -⟩ := haccepted
      (steps_uploadAttempt_found hrequest ho hpasses hcarries)
    obtain rfl : o' = o := Option.some.inj (ho'.symm.trans ho)
    exact (reconcileRef_of_passes hpasses hcarries).mp hsome
  · intro hnone data hdata hcarries
    obtain ⟨o, ho, hsome, -⟩ := haccepted ((steps_headObject_empty hrequest hnone).seq
      (steps_storeStaged hrequest hdata hcarries))
    obtain rfl : o = ⟨data, p.metadata⟩ :=
      Option.some.inj (ho.symm.trans (update_self ..))
    have hpasses : p.claim.Passes (⟨data, p.metadata⟩ : Object).head :=
      ⟨hcarries.1, metadata_checksum (.native cfg p)⟩
    obtain ⟨hid, hindexable⟩ := (reconcileRef_of_passes hpasses hcarries).mp hsome
    exact ⟨hid, (indexable_packMetadata p.recordCount.toNat_lt).mp hindexable⟩

end Needed

/-- **An upload removes the staged copy only with an object in the store that the reconciler accepts
exactly when, if it makes any request at all, an object that is the pack already carries the
reconciler's metadata, and a pack for an empty key is one whose own metadata the reconciler
accepts.** -/
theorem upload_leaves_indexable (cfg : UploaderConfig) (p : StagedPack)
    (objects : Bytes → Option Object) (copy : Option Bytes) :
    LeavesIndexable cfg p objects copy ↔ cfg.maxAttempts = 0 ∨ cfg.requestAttempts = 0 ∨
      GoodObject p objects ∧ GoodPack p objects copy := by
  constructor
  · intro h
    by_cases hmax : cfg.maxAttempts = 0
    · exact .inl hmax
    · by_cases hrequest : cfg.requestAttempts = 0
      · exact .inr (.inl hrequest)
      · exact .inr (.inr (good_of_leavesIndexable hmax hrequest h))
  · rintro (hmax | hrequest | ⟨hobject, hpack⟩)
    · exact leavesIndexable_of_idle (.inl hmax)
    · exact leavesIndexable_of_idle (.inr hrequest)
    · exact leavesIndexable_of_good hobject hpack

instance (cfg : UploaderConfig) (p : StagedPack) (w : World Unit) : Decidable (Accepted cfg p w) :=
  inferInstanceAs (Decidable (∃ o ∈ w.objects p.objectKey, _ ∧ _))

/-- A pack of one byte. -/
def smallPack : StagedPack where
  packId := lit "00000000-0000-4000-8000-000000000001"
  createdAtNs := 5
  recordCount := 1
  checksum := checksumOf [1]
  objectKey := lit "v1/00000000-0000-4000-8000-000000000001.dmi-pack"
  path := lit "path"
  objectBytes := 1

/-- The pack is in the store, with its checksum but without the other metadata. -/
def checksumOnly (key : Bytes) : Option Object :=
  if key = smallPack.objectKey then
    some ⟨[1], Dict.empty.set (lit "dmi-sha256") smallPack.checksum⟩
  else none

/-- The preflight takes the object for the finished upload, the staged copy is removed, and
`reconcile` skips the object. -/
theorem blessed_object_not_accepted :
    ∃ s, Lts.run (Pool.step answer) (upload ⟨1, lit "s3", 1⟩ smallPack checksumOnly (some [1]))
        [((), .say false), ((), .serve), ((), .serve), ((), .serve)] = some s ∧
      Reported s () ∧ s.world.staged () = none ∧
      ¬ Accepted ⟨1, lit "s3", 1⟩ smallPack s.world := by
  exact Lts.exists_of_run (by decide +kernel)

end Upload

end Dmi.Objects
