import Dmi.Objects.Upload

/-!
# What a call knows when it stores, deletes or removes

`Phase` is what the answers so far tell a call about the object under its key. Every call stores
only after a HEAD that found the key empty, and deletes only what it just stored and found not to
be its pack. It reports success, and `UploadOne` removes the staged copy, only after its own object
was stored or one that passed for it was read and hashed (`obeys_body`).
-/

namespace Dmi.Objects

open Native (lit)
open Proc (Prog Protocol Obeys)
open Dmi.Objects.Task

/-- What a call says of its pack. -/
structure Claim where
  key : Bytes
  size : Nat
  checksum : Bytes
  metadata : Dict Bytes Bytes
  /-- The bytes are hashed before they are put. -/
  checked : Bool

def Task.claim : Task → Claim
  | .native _ p => ⟨p.objectKey, p.objectBytes.toNat, p.checksum, p.metadata, true⟩
  | .python _ _ pack key => ⟨key, pack.objectBytes, pack.checksum, pack.metadata, false⟩

/-- The object passes for the pack by its size and the checksum beside it. -/
def Claim.Passes (c : Claim) (head : ObjectHead) : Prop :=
  head.size = c.size ∧ head.metadata.get? (lit "dmi-sha256") = some c.checksum

instance (c : Claim) (head : ObjectHead) : Decidable (c.Passes head) :=
  inferInstanceAs (Decidable (_ ∧ _))

/-- The bytes are the pack's, as far as their number and their checksum say. -/
def Claim.Carries (c : Claim) (data : Bytes) : Prop :=
  data.length = c.size ∧ checksumOf data = c.checksum

instance (c : Claim) (data : Bytes) : Decidable (c.Carries data) :=
  inferInstanceAs (Decidable (_ ∧ _))

/-- What a call knows of the object under its key. -/
inductive Phase where
  | looking
  /-- There was none; the staged copy that was read since. -/
  | free (data : Option Bytes)
  /-- It has put its own. -/
  | stored (carried : Bool)
  /-- One was there that passes for its pack. -/
  | passed
  /-- It has read one that was its pack. -/
  | verified
  deriving DecidableEq

/-- The pack is in the store. -/
def Phase.Done (s : Phase) : Prop := s = .stored true ∨ s = .verified

def Claim.afterHead (c : Claim) (s : Phase) : Reply (Option ObjectHead) → Phase
  | .failed _ _ => s
  | .ok none => .free none
  | .ok (some head) =>
    if s = .stored true then s
    else if c.Passes head then
      -- An empty object needs no reading.
      if c.Carries [] then .verified else .passed
    else .looking

def Claim.afterGet (c : Claim) (s : Phase) : Reply Bytes → Phase
  | .failed _ _ => s
  | .ok body =>
    if s = .passed then
      if c.Carries body then .verified else .looking
    else s

def Claim.afterPut (c : Claim) (s : Phase) (o : Object) : Sent → Phase
  | .stored => .stored (decide (c.Carries o.bytes))
  | .again => s
  | .failed _ _ => .looking

def Phase.afterRead : Phase → Except Bytes Bytes → Phase
  | .free _, .ok data => .free (some data)
  | s, _ => s

/-- A read tells nothing about the object. -/
theorem Phase.afterRead_cases (s : Phase) (r : Except Bytes Bytes) :
    s.afterRead r = s ∨ ∃ read data, s = .free read ∧ r = .ok data ∧
      s.afterRead r = .free (some data) := by
  cases s with
  | free read =>
    cases r with
    | error => exact .inl rfl
    | ok data => exact .inr ⟨read, data, rfl, rfl, rfl⟩
  | looking | stored b | passed | verified => exact .inl rfl

def Claim.next (c : Claim) (s : Phase) : (a : Act) → a.Res → Phase
  | .head _, r => c.afterHead s r
  | .get _ _, r => c.afterGet s r
  | .put _ o, r => c.afterPut s o r
  | .delete _, _ => .looking
  | .readFile _, r => s.afterRead r
  | _, _ => s

def Claim.allowed (c : Claim) (s : Phase) : Act → Prop
  | .head key => key = c.key
  | .get key length => key = c.key ∧ length = c.size
  | .put key o => key = c.key ∧ o.metadata = c.metadata ∧ (∃ data, s = .free data) ∧
    (c.checked = true → s = .free (some o.bytes) ∧ c.Carries o.bytes)
  | .delete key => key = c.key ∧ s = .stored false
  | .remove _ => s.Done
  | _ => True

def Claim.protocol (c : Claim) : Protocol Act Act.Res Empty Phase :=
  .following .looking c.allowed c.next

section Obeys

variable {c : Claim} {s : Phase} {α : Type} {Q : Phase → α → Prop}

theorem obeys_pure {x : α} (h : Q s x) :
    Obeys c.protocol s (pure x : Call α) Q := h

theorem obeys_bind {β : Type} {m : Call α} {f : α → Call β} {R : Phase → β → Prop}
    (hm : Obeys c.protocol s m Q)
    (hf : ∀ s' x, Q s' x → Obeys c.protocol s' (f x) R) : Obeys c.protocol s (m >>= f) R :=
  Obeys.bind hm hf

theorem obeys_perform {a : Act} {Q : Phase → a.Res → Prop} (ha : c.allowed s a)
    (h : ∀ r, Q (c.next s a r) r) : Obeys c.protocol s (perform a) Q :=
  ⟨ha, h⟩

theorem obeys_act {a : Act} {f : a.Res → Call α} {R : Phase → α → Prop} (ha : c.allowed s a)
    (h : ∀ r, Obeys c.protocol (c.next s a r) (f r) R) :
    Obeys c.protocol s (perform a >>= f) R :=
  ⟨ha, h⟩

/-- After a HEAD that found an object which passes for the pack. -/
def Near (c : Claim) (s : Phase) : Prop := s.Done ∨ s = .passed ∧ ¬ c.Carries []

/-- What the phase is after the answer to a HEAD. -/
def HeadSeen (c : Claim) (s : Phase) : Reply (Option ObjectHead) → Prop
  | .failed _ _ => True
  | .ok none => s = .free none
  | .ok (some head) => c.Passes head → Near c s

theorem headSeen_afterHead (r : Reply (Option ObjectHead)) : HeadSeen c (c.afterHead s r) r := by
  match r with
  | .failed _ _ => trivial
  | .ok none => rfl
  | .ok (some head) =>
    intro hp
    rw [Claim.afterHead]
    by_cases hs : s = .stored true
    · rw [if_pos hs]
      exact .inl (.inl hs)
    · rw [if_neg hs, if_pos hp]
      by_cases hempty : c.Carries []
      · rw [if_pos hempty]
        exact .inl (.inr rfl)
      · rw [if_neg hempty]
        exact .inr ⟨rfl, hempty⟩

theorem obeys_headObject (attempts : Nat) :
    Obeys c.protocol s (headObject attempts c.key) (HeadSeen c) := by
  by_cases h : attempts = 0
  · rw [headObject, if_pos h]
    exact obeys_pure trivial
  · rw [headObject, if_neg h]
    exact obeys_perform rfl headSeen_afterHead

/-- A body of the right length and checksum is the pack, and then the pack is in the store. -/
theorem done_afterGet {body : Bytes} (hs : Near c s) (hbody : c.Carries body) :
    (c.afterGet s (.ok body)).Done := by
  rw [Claim.afterGet]
  by_cases hp : s = .passed
  · rw [if_pos hp, if_pos hbody]
    exact .inr rfl
  · rw [if_neg hp]
    exact hs.resolve_right fun h => hp h.1

theorem obeys_getRange (attempts : Nat) (hs : Near c s) :
    Obeys c.protocol s (getRange attempts c.key c.size) fun s' r =>
      ∀ body, r = .ok body → checksumOf body = c.checksum → s'.Done := by
  by_cases hsize : c.size = 0
  · rw [getRange, if_pos hsize]
    refine obeys_pure fun body hbody hsum => ?_
    cases hbody
    exact hs.resolve_right fun h => h.2 ⟨hsize.symm, hsum⟩
  · rw [getRange, if_neg hsize]
    by_cases h : attempts = 0
    · rw [if_pos h]
      exact obeys_pure fun body hbody => by cases hbody
    · rw [if_neg h]
      refine obeys_act ⟨rfl, rfl⟩ fun r => ?_
      match r with
      | .failed error cut => exact obeys_pure fun body hbody => by cases hbody
      | .ok body =>
        by_cases hlen : body.length = c.size
        · simp only [hlen, ne_eq, not_true_eq_false, if_false]
          refine obeys_pure fun body' hbody hsum => ?_
          cases hbody
          exact done_afterGet hs ⟨hlen, hsum⟩
        · simp only [hlen, ne_eq, not_false_eq_true, if_true]
          exact obeys_pure fun body' hbody => by cases hbody

/-- Where it is allowed, `PutObject` ends with the object stored, or fails. -/
theorem obeys_putObject {o : Object} (hput : c.allowed s (.put c.key o)) (attempts : Nat) :
    Obeys c.protocol s (putObject c.key o attempts) fun s' r =>
      r = .ok () → s' = .stored (decide (c.Carries o.bytes)) := by
  induction attempts with
  | zero => exact obeys_pure fun h => by cases h
  | succ attempts ih =>
    refine obeys_act hput fun r => ?_
    match r with
    | .stored => exact obeys_pure fun _ => rfl
    | .failed error cut => exact obeys_pure fun h => by cases h
    | .again => exact ih

end Obeys

/-! ### `UploadOne` -/

section UploadOne

variable {cfg : UploaderConfig} {p : StagedPack} {s : Phase}

/-- The staged copy has been removed only if the pack is in the store. -/
def AttemptSeen (s : Phase) (r : Attempt) : Prop := r = .uploaded → s.Done

theorem obeys_removeStaged {c : Claim} (hs : s.Done) :
    Obeys c.protocol s (removeStaged p) AttemptSeen := by
  refine obeys_act hs fun r => ?_
  match r with
  | .error error => exact obeys_pure fun h => by cases h
  | .ok () => exact obeys_pure fun _ => hs

theorem obeys_verifyExisting (hs : Near (native cfg p).claim s) :
    Obeys (native cfg p).claim.protocol s (verifyExisting cfg p) AttemptSeen := by
  refine obeys_bind (obeys_getRange cfg.requestAttempts hs) ?_
  rintro s' r hr
  match r with
  | .failed error cut => exact obeys_pure fun h => by cases h
  | .ok existing =>
    by_cases hsum : checksumOf existing = p.checksum
    · simp only [hsum, ne_eq, not_true_eq_false, if_false]
      exact obeys_removeStaged (hr existing rfl hsum)
    · simp only [hsum, ne_eq, not_false_eq_true, if_true]
      exact obeys_pure fun h => by cases h

theorem obeys_verifyUploaded (hs : s = .stored true) :
    Obeys (native cfg p).claim.protocol s (verifyUploaded cfg p) AttemptSeen := by
  have hfail : ∀ {s' : Phase} {error : Bytes} {cut : Bool},
      Obeys (native cfg p).claim.protocol s' (pure (.failed error cut) : Call Attempt)
        AttemptSeen := obeys_pure fun h => by cases h
  subst hs
  by_cases h : cfg.requestAttempts = 0
  · rw [verifyUploaded, headObject, if_pos h]
    exact hfail
  · rw [verifyUploaded, headObject, if_neg h]
    refine obeys_act rfl fun r => ?_
    match r with
    | .failed error cut | .ok none => exact hfail
    | .ok (some head) =>
      by_cases hsize : head.size = p.objectBytes.toNat
      · simp only [hsize, ne_eq, not_true_eq_false, if_false]
        exact obeys_removeStaged (.inl rfl)
      · simp only [hsize, ne_eq, not_false_eq_true, if_true]
        exact hfail

theorem obeys_storeStaged (hs : s = .free none) :
    Obeys (native cfg p).claim.protocol s (storeStaged cfg p) AttemptSeen := by
  subst hs
  refine obeys_act trivial fun r => ?_
  match r with
  | .error error => exact obeys_pure fun h => by cases h
  | .ok data =>
    by_cases hbad : data.length ≠ p.objectBytes.toNat ∨ checksumOf data ≠ p.checksum
    · simp only [if_pos hbad]
      exact obeys_pure fun h => by cases h
    · have hdata : (native cfg p).claim.Carries data := by
        rw [not_or, not_not, not_not] at hbad
        exact hbad
      simp only [if_neg hbad]
      have hput : (native cfg p).claim.allowed (.free (some data))
          (.put p.objectKey ⟨data, p.metadata⟩) :=
        ⟨rfl, rfl, ⟨_, rfl⟩, fun _ => ⟨rfl, hdata⟩⟩
      refine obeys_bind (obeys_putObject hput cfg.requestAttempts) ?_
      rintro s' r hr
      match r with
      | .failed error cut => exact obeys_pure fun h => by cases h
      | .ok () => exact obeys_verifyUploaded ((hr rfl).trans (by rw [decide_eq_true hdata]))

theorem obeys_uploadAttempt :
    Obeys (native cfg p).claim.protocol s (uploadAttempt cfg p) AttemptSeen := by
  refine obeys_bind (obeys_headObject cfg.requestAttempts) ?_
  rintro s' r hr
  match r with
  | .failed error cut => exact obeys_pure fun h => by cases h
  | .ok none => exact obeys_storeStaged hr
  | .ok (some head) =>
    by_cases hpasses : (native cfg p).claim.Passes head
    · simp only [if_pos (show head.size = p.objectBytes.toNat ∧
        head.metadata.get? (lit "dmi-sha256") = some p.checksum from hpasses)]
      exact obeys_verifyExisting (hr hpasses)
    · simp only [if_neg (show ¬(head.size = p.objectBytes.toNat ∧
        head.metadata.get? (lit "dmi-sha256") = some p.checksum) from hpasses)]
      exact obeys_pure fun h => by cases h

theorem obeys_mayStart {c : Claim} (attempts : Nat) :
    Obeys c.protocol s (mayStart attempts) fun _ _ => True := by
  have hsleep : Obeys c.protocol s (waitOut attempts) fun _ _ => True := by
    by_cases h : attempts > 0
    · rw [waitOut, if_pos h]
      exact obeys_perform trivial fun _ => trivial
    · rw [waitOut, if_neg h]
      exact obeys_pure trivial
  refine obeys_bind hsleep ?_
  rintro s' (_ | _) -
  · exact obeys_pure trivial
  · exact obeys_act trivial fun _ => obeys_pure trivial

theorem obeys_uploadLoop (left attempts : Nat) (lastError : Bytes) (cut : Bool) :
    Obeys (native cfg p).claim.protocol s (uploadLoop cfg p left attempts lastError cut)
      fun s' r => r.ref.isSome → s'.Done := by
  induction left generalizing s attempts lastError cut with
  | zero =>
    refine obeys_pure fun h => ?_
    cases cut <;> cases h
  | succ left ih =>
    refine obeys_bind (obeys_mayStart attempts) ?_
    rintro s' (_ | _) -
    · exact obeys_pure fun h => by cases h
    · refine obeys_bind obeys_uploadAttempt ?_
      rintro s'' r hr
      match r with
      | .uploaded => exact obeys_pure fun _ => hr rfl
      | .conflict error | .corrupt error => exact obeys_pure fun h => by cases h
      | .failed error cut => exact ih _ _ _

end UploadOne

/-! ### `S3PackStore.put` -/

section Put

variable {storeId : Bytes} {attempts : Nat} {pack : PackSource} {key : Bytes} {s : Phase}

theorem passes_of_existingRef {head : ObjectHead} {ref : PackRef}
    (h : existingRef storeId pack key head = .ok ref) :
    (python storeId attempts pack key).claim.Passes head := by
  unfold existingRef at h
  split at h
  · cases h
  · rename_i hagree
    rw [not_or, not_not] at hagree
    refine ⟨hagree.1, ?_⟩
    have hall := hagree.2
    simp only [Bool.not_eq_true, List.any_eq_false, decide_eq_true_eq, not_not] at hall
    refine hall (lit "dmi-sha256", pack.checksum) (Dict.get?_eq_some.mp ?_)
    rfl

/-- Success is reported only if the pack is in the store. -/
def PutSeen (s : Phase) (r : Except PutError PackRef) : Prop := ∀ ref, r = .ok ref → s.Done

theorem obeys_verifyExistingContent {ref : PackRef}
    (hs : Near (python storeId attempts pack key).claim s) :
    Obeys (python storeId attempts pack key).claim.protocol s
      (verifyExistingContent pack key ref) PutSeen := by
  refine obeys_act ⟨rfl, rfl⟩ fun r => ?_
  match r with
  | .failed error _ => exact obeys_pure fun ref' h => by cases h
  | .ok body =>
    by_cases hlen : body.length = pack.objectBytes
    · by_cases hsum : checksumOf body = pack.checksum
      · simp only [hlen, hsum, ne_eq, not_true_eq_false, if_false]
        exact obeys_pure fun _ _ => done_afterGet hs ⟨hlen, hsum⟩
      · simp only [hlen, hsum, ne_eq, not_true_eq_false, not_false_eq_true, if_false, if_true]
        exact obeys_pure fun ref' h => by cases h
    · simp only [hlen, ne_eq, not_false_eq_true, if_true]
      exact obeys_pure fun ref' h => by cases h

theorem obeys_inspectUploaded (hs : s = .stored true) :
    Obeys (python storeId attempts pack key).claim.protocol s
      (inspectUploaded storeId attempts pack key) PutSeen := by
  subst hs
  by_cases h : attempts = 0
  · rw [inspectUploaded, headObject, if_pos h]
    exact obeys_pure fun ref' h => by cases h
  · rw [inspectUploaded, headObject, if_neg h]
    refine obeys_act rfl fun r => ?_
    match r with
    | .failed error _ | .ok none => exact obeys_pure fun ref' h => by cases h
    | .ok (some head) => exact obeys_pure fun _ _ => .inl rfl

theorem obeys_uploadStream (hs : s = .free none) :
    Obeys (python storeId attempts pack key).claim.protocol s
      (uploadStream storeId attempts pack key) PutSeen := by
  subst hs
  have hput : (python storeId attempts pack key).claim.allowed (.free none)
      (.put key ⟨pack.stream, pack.metadata⟩) :=
    ⟨rfl, rfl, ⟨_, rfl⟩, fun h => by cases h⟩
  refine obeys_bind (obeys_putObject hput attempts) ?_
  rintro s' r hr
  match r with
  | .failed error _ => exact obeys_pure fun ref' h => by cases h
  | .ok () =>
    obtain rfl := hr rfl
    by_cases hbad : pack.stream.length ≠ pack.objectBytes ∨ checksumOf pack.stream ≠ pack.checksum
    · have hcarried : ¬ (python storeId attempts pack key).claim.Carries pack.stream :=
        fun h => hbad.elim (fun hl => hl h.1) fun hc => hc h.2
      simp only [if_pos hbad]
      exact obeys_act ⟨rfl, by rw [decide_eq_false hcarried]⟩ fun _ =>
        obeys_pure fun ref' h => by cases h
    · have hcarried : (python storeId attempts pack key).claim.Carries pack.stream := by
        rw [not_or, not_not, not_not] at hbad
        exact hbad
      simp only [if_neg hbad]
      exact obeys_inspectUploaded (by rw [decide_eq_true hcarried])

theorem obeys_put :
    Obeys (python storeId attempts pack key).claim.protocol s
      (put storeId attempts pack key) PutSeen := by
  refine obeys_bind (obeys_headObject attempts) ?_
  rintro s' r hr
  match r with
  | .failed error _ => exact obeys_pure fun ref' h => by cases h
  | .ok none => exact obeys_uploadStream hr
  | .ok (some head) =>
    cases hexisting : existingRef storeId pack key head with
    | error e =>
      simp only [hexisting]
      exact obeys_pure fun ref' h => by cases h
    | ok ref =>
      simp only [hexisting]
      exact obeys_verifyExistingContent (hr (passes_of_existingRef hexisting))

end Put

/-- **Every call obeys its protocol, and reports success only with its pack in the store.** -/
theorem obeys_body (task : Task) :
    Obeys task.claim.protocol .looking task.body fun s r => r.isSome → s.Done := by
  cases task with
  | native cfg p =>
    exact obeys_bind (obeys_uploadLoop cfg.maxAttempts 0 [] false) fun _ _ h => obeys_pure h
  | python storeId attempts pack key =>
    refine obeys_bind obeys_put ?_
    rintro s (_ | ref) h
    · exact obeys_pure fun h => by cases h
    · exact obeys_pure fun _ => h ref rfl

end Dmi.Objects
