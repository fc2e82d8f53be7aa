import Dmi.Capture.Assembler

/-!
# What the assembler keeps

`Ledger.Conserved` says that no record is lost and none is duplicated: the records of the
packs handed back, followed by those of the open pack, contain every record whose `append`
returned, in append order, and nothing that was not appended.

One exit of `append` breaks this.  When the linger of the open pack has expired, `append`
seals that pack before it looks at the new record; if the new record does not fit an empty
pack, the exception drops the sealed pack (`expired_pack_is_dropped`).  On every other exit
the open pack survives: `append_keeps` is the step lemma, `run_kept` the run lemma.
-/

namespace Dmi.Capture

open List PackWriter PackAssembler Ledger

/-! ### Contents -/

/-- The sealed pack reads back as the records `rs`. -/
def SealedPack.Contains (p : SealedPack) (rs : List CaptureRecord) : Prop :=
  ∃ reader, PackReader.fromBytes p.data = .ok reader ∧
    List.Forall₂ (Describes reader.data) reader.records rs

/-- The open pack of the assembler contains the records `rs`. -/
def PackAssembler.Contains (a : PackAssembler) (rs : List CaptureRecord) : Prop :=
  match a.current with
  | none => rs = []
  | some p => List.Forall₂ (Describes p.writer.buffer) p.writer.records rs

/-- The packs contain the records of `parts`, pack by pack. -/
def Packed (packs : List ReadyPack) (parts : List (List CaptureRecord)) : Prop :=
  List.Forall₂ (fun ready rs => ready.pack.Contains rs) packs parts

/-- **Nothing lost, nothing twice**: the handed packs and the open pack hold, in append
order, every record whose `append` returned, and only records that were appended. -/
def Ledger.Conserved (l : Ledger) : Prop :=
  ∃ parts rest, Packed l.handed parts ∧ l.assembler.Contains rest ∧
    l.accepted.Sublist (parts.flatten ++ rest) ∧ (parts.flatten ++ rest).Sublist l.appended

/-- A record that comes after the linger of the open pack fits a pack of its own. -/
def PackAssembler.Safe (a : PackAssembler) : Op → Prop
  | .append r packId nowNs => a.expired nowNs = true → ∃ w, a.writerWith r packId = .ok w
  | _ => True

/-- Every call of the sequence is safe when its turn comes. -/
def Ledger.SafeRun : Ledger → List Op → Prop
  | _, [] => True
  | l, op :: ops => l.assembler.Safe op ∧ (l.step op).SafeRun ops

/-! ### The invariant -/

/-- The open pack holds the records `rs`. -/
def PackAssembler.Holds (a : PackAssembler) (rs : List CaptureRecord) : Prop :=
  match a.current with
  | none => rs = []
  | some p => p.writer.Holds rs

variable {rs : List CaptureRecord}

theorem PackAssembler.Holds.contains {a : PackAssembler}
    (h : a.Holds rs) : a.Contains rs := by
  unfold Holds at h
  unfold Contains
  cases hcur : a.current with
  | none => simpa only [hcur] using h
  | some p =>
    simp only [hcur] at h
    exact h.describes

theorem PackAssembler.holds_none {a : PackAssembler}
    (h : a.current = none) : a.Holds rs ↔ rs = [] := by
  unfold Holds
  rw [h]

theorem PackAssembler.holds_some {a : PackAssembler} {p : OpenPack}
    (h : a.current = some p) : a.Holds rs ↔ p.writer.Holds rs := by
  unfold Holds
  rw [h]

theorem Packed.nil : Packed [] [] := Forall₂.nil

variable {packs : List ReadyPack}

theorem Packed.append {packs' : List ReadyPack} {parts parts' : List (List CaptureRecord)}
    (h : Packed packs parts)
    (h' : Packed packs' parts') : Packed (packs ++ packs') (parts ++ parts') :=
  rel_append h h'

/-! ### Sealing -/

variable {w w' : PackWriter}

theorem PackWriter.Holds.contains_seal {s : SealedPack}
    (hw : w.Holds rs) (h : w.seal = (.ok s, w')) : s.Contains rs := by
  refine ⟨w.reader s, hw.fromBytes_seal h, ?_⟩
  obtain ⟨_, trailer, _, rfl⟩ := seal_ok h
  rw [align, append_assoc, append_assoc]
  exact describes_append hw.describes hw.placed _

/-- A `seal` that raises leaves a writer with the same records: at most the footer was
added to the buffer. -/
theorem PackWriter.Holds.seal_error {e : SealError}
    (hw : w.Holds rs) (h : w.seal = (.error e, w')) : w'.Holds rs := by
  unfold PackWriter.seal at h
  split_ifs at h with hsealed hempty
  · cases h
    exact hw
  · cases h
    exact hw
  · dsimp only at h
    split_ifs at h with hfooter hpack
    · cases h
      exact hw
    · cases h
      exact hw
    · split at h
      · cases h
        obtain ⟨header, hheader, hstarts⟩ := hw.header
        exact { hw with
          header := ⟨header, hheader,
            hstarts.trans ((prefix_align w.buffer).trans (prefix_append _ _))⟩
          describes := by
            rw [align, append_assoc]
            exact describes_append hw.describes hw.placed _
          placed := hw.placed.mono (by
            rw [length_append, length_align]
            exact Nat.le_add_right_of_le (le_alignedLength _)) }
      · cases h

theorem PackAssembler.flush_keeps {a : PackAssembler} (ha : a.Holds rs) (reason : FlushReason) :
    (∃ packs parts, a.flush reason = (.ok packs, { a with current := none }) ∧
      Packed packs parts ∧ parts.flatten = rs) ∨
    (∃ e a', a.flush reason = (.error (.sealing e), a') ∧ a'.Holds rs) := by
  cases hcur : a.current with
  | none =>
    rw [holds_none hcur] at ha
    subst ha
    refine .inl ⟨[], [], ?_, Packed.nil, rfl⟩
    have hsame : ({ a with current := none } : PackAssembler) = a := by rw [← hcur]
    rw [hsame]
    simp only [flush, hcur]
  | some p =>
    have hw := (holds_some hcur).mp ha
    rcases hseal : p.writer.seal with ⟨e | sealed, w⟩
    · refine .inr ⟨e, { a with current := some { p with writer := w } }, ?_, ?_⟩
      · simp only [flush, hcur, hseal]
      · exact hw.seal_error hseal
    · refine .inl ⟨[⟨sealed, p.firstMetadata, reason⟩], [rs], ?_, ?_, ?_⟩
      · simp only [flush, hcur, hseal]
      · exact .cons (hw.contains_seal hseal) .nil
      · rw [flatten_cons, flatten_nil, append_nil]

/-! ### A fresh writer -/

theorem alignedLength_lt (n : Nat) : alignedLength n < n + packAlignment := by
  have : (packAlignment - n % packAlignment) % packAlignment < packAlignment :=
    Nat.mod_lt _ (by decide)
  rw [alignedLength]
  omega

theorem PackWriter.init_ok {uuid : Uuid} {createdAtNs maxPackBytes maxRecords : Int}
    (h : init uuid createdAtNs maxPackBytes maxRecords = .ok w) :
    w.records = [] ∧ w.buffer.length = headerSize := by
  unfold init at h
  split_ifs at h with hneg hsmall hrange
  split at h
  · cases h
  · rename_i header hheader
    have hlen := Struct.length_pack (headerCells_exact _ _) hheader
    simp only [rsplitOnce_emptyFooter, Except.ok.injEq] at h
    subst h
    exact ⟨rfl, hlen⟩

variable {r : CaptureRecord} {packId : Uuid}

/-- A writer made for a record holds just that record, and can be sealed. -/
theorem PackAssembler.writerWith_ok {a : PackAssembler} (h : a.writerWith r packId = .ok w) :
    w.Holds [r] ∧ ∃ s w', w.seal = (.ok s, w') := by
  unfold writerWith at h
  split at h
  · cases h
  · rename_i fresh hinit
    obtain ⟨hrecords, hbuffer⟩ := init_ok hinit
    have hfresh := init_holds hinit
    split at h
    all_goals try cases h
    rename_i happend
    have hw : w.Holds [r] := append_holds hfresh happend
    have hfits := append_fits hfresh happend
    obtain ⟨_, _, _, _, _, rfl⟩ := append_ok happend
    refine ⟨hw, hw.seal_succeeds ?_ hfits ?_⟩
    · simp
    · have hlen := alignedLength_lt (align fresh.buffer ++ r.payload).length
      have hlt := r.length_lt
      rw [length_append, length_align, hbuffer] at hlen
      rw [length_append, length_align, hbuffer]
      have h64 : alignedLength headerSize = 64 := by decide
      have halign : packAlignment = 64 := rfl
      omega

theorem PackAssembler.writerWith_congr {a b : PackAssembler}
    (hbytes : a.maxPackBytes = b.maxPackBytes)
    (hrecords : a.maxRecords = b.maxRecords) (r : CaptureRecord) (packId : Uuid) :
    a.writerWith r packId = b.writerWith r packId := by
  unfold writerWith
  rw [hbytes, hrecords]

/-! ### One call -/

/-- What a call that appends `r` to an assembler holding `before` keeps: on return the
packs and the open pack hold `before` and then `r`; on an exception the open pack still
holds `before`, with `r` behind it if the exception came after `r` was placed. -/
inductive Keeps (before : List CaptureRecord) (r : CaptureRecord) :
    Except AssemblerError (List ReadyPack) × PackAssembler → Prop
  | returned {packs : List ReadyPack} {a : PackAssembler} (parts : List (List CaptureRecord))
      (rest : List CaptureRecord) (hpacked : Packed packs parts) (hrest : a.Holds rest)
      (hall : parts.flatten ++ rest = before ++ [r]) : Keeps before r (.ok packs, a)
  | raised {e : AssemblerError} {a : PackAssembler} (h : a.Holds before) :
      Keeps before r (.error e, a)
  | raisedAfter {e : AssemblerError} {a : PackAssembler} (h : a.Holds (before ++ [r])) :
      Keeps before r (.error e, a)

/-- The fresh pack of a record, behind packs that hold `before`. -/
theorem PackAssembler.finish_adopt {a : PackAssembler} (h : a.writerWith r packId = .ok w)
    {emitted : List ReadyPack} {parts : List (List CaptureRecord)} (hemitted : Packed emitted parts)
    (nowNs : Int) : Keeps parts.flatten r ((a.adopt w r nowNs).finish emitted) := by
  obtain ⟨hw, s, w', hseal⟩ := writerWith_ok h
  by_cases hfull : a.maxRecords ≤ w.records.length
  · have hrun : (a.adopt w r nowNs).finish emitted =
        (.ok (emitted ++ [⟨s, r.metadata, .records⟩]), { a with current := none }) := by
      simp only [finish, adopt, flush, if_pos hfull, hseal]
    rw [hrun]
    refine .returned (parts ++ [[r]]) [] (hemitted.append (.cons (hw.contains_seal hseal) .nil))
      rfl ?_
    simp
  · have hrun : (a.adopt w r nowNs).finish emitted = (.ok emitted, a.adopt w r nowNs) := by
      exact if_neg hfull
    rw [hrun]
    exact .returned parts [r] hemitted hw rfl

/-- An open pack that took the record: if it is full now but cannot be sealed, it stays. -/
theorem PackAssembler.finish_same {a : PackAssembler}
    (ha : a.Holds (rs ++ [r])) : Keeps rs r (a.finish []) := by
  unfold finish
  cases hcur : a.current with
  | none => exact .returned [] (rs ++ [r]) Packed.nil ha rfl
  | some p =>
    dsimp only
    split_ifs with hfull
    · rcases flush_keeps ha .records with
        ⟨packs, parts, hflush, hpacked, hflat⟩ | ⟨e, a', hflush, ha'⟩
      · rw [hflush]
        refine .returned parts [] hpacked rfl ?_
        rw [hflat, append_nil]
      · rw [hflush]
        exact .raisedAfter ha'
    · exact .returned [] (rs ++ [r]) Packed.nil ha rfl

theorem PackAssembler.replace_keeps {a : PackAssembler} (ha : a.Holds rs) (r : CaptureRecord)
    (packId : Uuid) (nowNs : Int) (reason : FlushReason) :
    Keeps rs r (a.replace r packId nowNs reason []) := by
  unfold replace
  cases hwriter : a.writerWith r packId with
  | error e => exact .raised ha
  | ok w =>
    rcases flush_keeps ha reason with ⟨packs, parts, hflush, hpacked, hflat⟩ | ⟨e, a', hflush, ha'⟩
    · rw [hflush, ← hflat]
      exact finish_adopt hwriter hpacked nowNs
    · rw [hflush]
      exact .raised ha'

theorem PackAssembler.place_keeps {a : PackAssembler} (ha : a.Holds rs)
    (r : CaptureRecord) (packId : Uuid) (nowNs : Int) : Keeps rs r (a.place r packId nowNs []) := by
  unfold place
  cases hcur : a.current with
  | none =>
    have hrs := (holds_none hcur).mp ha
    cases hwriter : a.writerWith r packId with
    | error e => exact .raised ha
    | ok w =>
      subst hrs
      exact finish_adopt hwriter Packed.nil nowNs
  | some p =>
    dsimp only
    split
    · exact replace_keeps ha r packId nowNs .session
    · cases happend : p.writer.append r with
      | ok w =>
        have hnext : ({ a with current := some { p with writer := w } } : PackAssembler).Holds
            (rs ++ [r]) :=
          append_holds ((holds_some hcur).mp ha) happend
        exact finish_same hnext
      | error e =>
        cases e with
        | recordLimit | sizeLimit => exact replace_keeps ha r packId nowNs _
        | duplicate captureId | alreadySealed => exact .raised ha

variable {nowNs : Int}

/-- **One `append` keeps what the assembler holds**, unless the linger had expired and the
record fits no pack. -/
theorem PackAssembler.append_keeps {a : PackAssembler} (ha : a.Holds rs)
    (hsafe : a.Safe (.append r packId nowNs)) : Keeps rs r (a.append r packId nowNs) := by
  by_cases hneg : nowNs < 0
  · rw [append, if_pos hneg]
    exact .raised ha
  rw [append, if_neg hneg, flushExpired]
  by_cases hexp : a.expired nowNs = true
  · rw [if_pos hexp]
    rcases flush_keeps ha .linger with ⟨packs, parts, hflush, hpacked, hflat⟩ | ⟨e, a', hflush, ha'⟩
    · obtain ⟨w, hwriter⟩ := hsafe hexp
      rw [@writerWith_congr a { a with current := none } rfl rfl] at hwriter
      rw [hflush, ← hflat]
      simp only [place, hwriter]
      exact finish_adopt hwriter hpacked nowNs
    · rw [hflush]
      exact .raised ha'
  · rw [if_neg hexp]
    exact place_keeps ha r packId nowNs

/-! ### Runs -/

/-- The invariant of a ledger: `Conserved`, with the writer's invariant for the open pack. -/
def Ledger.Kept (l : Ledger) : Prop :=
  ∃ parts rest, Packed l.handed parts ∧ l.assembler.Holds rest ∧
    l.accepted.Sublist (parts.flatten ++ rest) ∧ (parts.flatten ++ rest).Sublist l.appended

theorem Ledger.Kept.conserved {l : Ledger} (h : l.Kept) : l.Conserved := by
  obtain ⟨parts, rest, hpacked, hholds, haccepted, happended⟩ := h
  exact ⟨parts, rest, hpacked, hholds.contains, haccepted, happended⟩

/-- **The step lemma**: a safe call keeps the invariant. -/
theorem Ledger.step_kept {l : Ledger} (h : l.Kept) {op : Op} (hsafe : l.assembler.Safe op) :
    (l.step op).Kept := by
  have ⟨parts, rest, hpacked, hholds, haccepted, happended⟩ := h
  -- a call without a record that flushes
  have hflush : op.records = [] → ∀ reason, l.assembler.call op = l.assembler.flush reason →
      (l.step op).Kept := by
    intro hrecords reason hcall
    unfold Ledger.step
    rw [hcall, hrecords, append_nil, append_nil]
    rcases flush_keeps hholds reason with
      ⟨packs, parts', hflush, hpacked', hflat⟩ | ⟨e, a', hflush, hkept⟩
    · rw [hflush]
      refine ⟨parts ++ parts', [], hpacked.append hpacked', rfl, ?_, ?_⟩ <;>
        rw [flatten_append, hflat, append_nil] <;> assumption
    · rw [hflush]
      exact ⟨parts, rest, hpacked, hkept, haccepted, happended⟩
  cases op with
  | append r packId nowNs =>
    have hkeeps := append_keeps hholds hsafe
    unfold Ledger.step
    simp only [call, Op.records]
    generalize l.assembler.append r packId nowNs = result at hkeeps
    cases hkeeps with
    | raised hkept =>
      exact ⟨parts, rest, hpacked, hkept, haccepted, happended.trans (sublist_append_left _ _)⟩
    | raisedAfter hkept =>
      refine ⟨parts, rest ++ [r], hpacked, hkept, ?_, ?_⟩
      · rw [← append_assoc]
        exact haccepted.trans (sublist_append_left _ _)
      · rw [← append_assoc]
        exact happended.append (Sublist.refl _)
    | returned parts' rest' hpacked' hholds' hflat =>
      have hall : (parts ++ parts').flatten ++ rest' = parts.flatten ++ rest ++ [r] := by
        rw [flatten_append, append_assoc, hflat, append_assoc]
      refine ⟨parts ++ parts', rest', hpacked.append hpacked', hholds', ?_, ?_⟩
      · rw [hall]
        exact haccepted.append (Sublist.refl _)
      · rw [hall]
        exact happended.append (Sublist.refl _)
  | flush reason => exact hflush rfl reason rfl
  | flushExpired nowNs =>
    by_cases hexp : l.assembler.expired nowNs = true
    · exact hflush rfl .linger (if_pos hexp)
    · have hcall : l.assembler.call (.flushExpired nowNs) = (.ok [], l.assembler) := if_neg hexp
      simp only [Ledger.step, hcall, Op.records, append_nil]
      exact h

/-- **The run lemma.** -/
theorem Ledger.run_kept {l : Ledger} (h : l.Kept) {ops : List Op} (hsafe : l.SafeRun ops) :
    (l.run ops).Kept := by
  induction ops generalizing l with
  | nil => exact h
  | cons op ops ih => exact ih (step_kept h hsafe.1) hsafe.2

theorem Ledger.start_kept {a : PackAssembler} (h : a.current = none) : (start a).Kept :=
  ⟨[], [], Packed.nil, (holds_none h).mpr rfl, Sublist.refl _,
    Sublist.refl _⟩

/-! ### Small runs -/

/-- A record behind an expired pack: the pack is sealed before the record is looked at. -/
theorem PackAssembler.append_expired {a : PackAssembler} {p : OpenPack} {s : SealedPack}
    (hcur : a.current = some p) (hseal : p.writer.seal = (.ok s, w)) (hnow : 0 ≤ nowNs)
    (hexp : a.expired nowNs = true) : a.append r packId nowNs =
      ({ a with current := none } : PackAssembler).place r packId nowNs
        [⟨s, p.firstMetadata, .linger⟩] := by
  rw [append, if_neg (by omega), flushExpired, if_pos hexp]
  simp only [flush, hcur, hseal]

theorem PackAssembler.place_first {a : PackAssembler} (hcur : a.current = none)
    (hmany : 1 < a.maxRecords) (hwriter : a.writerWith r packId = .ok w)
    (emitted : List ReadyPack) :
    a.place r packId nowNs emitted = (.ok emitted, a.adopt w r nowNs) := by
  have hone : w.records.length = 1 := (writerWith_ok hwriter).1.describes.length_eq
  simp only [place, hcur, hwriter, finish, adopt]
  exact if_neg (by omega)

def smallAssembler : PackAssembler := ⟨810, 10, 10, none⟩

def sampleId (n : UInt8) : Uuid := ⟨replicate 16 n, rfl⟩

theorem PackAssembler.writerWith_adopt (a : PackAssembler) (r' : CaptureRecord) :
    (a.adopt w r' nowNs).writerWith r packId = a.writerWith r packId := by
  rw [@writerWith_congr (a.adopt w r' nowNs) a rfl rfl]

/-- Two records of three bytes, the second after the linger of the first one's pack. -/
theorem append_samples : ∃ (a : PackAssembler) (r : CaptureRecord) (w w' : PackWriter)
      (s : SealedPack), smallAssembler = a ∧ shortRecord ⟨"c", by decide, by decide⟩ = r ∧
    a.append r (sampleId 7) 0 = (.ok [], a.adopt w r 0) ∧ (∃ w', w.seal = (.ok s, w')) ∧
    a.writerWith r (sampleId 8) = .ok w' ∧
    (a.adopt w r 0).append r (sampleId 8) 10 =
      (.ok [⟨s, r.metadata, .linger⟩], a.adopt w' r 10) := by
  have hfits : ∀ n ∈ [7, 8], (smallAssembler.writerWith (shortRecord ⟨"c", by decide, by decide⟩)
      (sampleId n)).isOk = true := by decide +kernel
  generalize shortRecord ⟨"c", by decide, by decide⟩ = r at hfits
  generalize ha : smallAssembler = a at hfits
  have hcur : a.current = none := by
    rw [← ha]
    rfl
  have hmany : 1 < a.maxRecords := by
    rw [← ha]
    decide
  have hexp : a.expired 0 = false ∧ (∀ w, (a.adopt w r 0).expired 10 = true) := by
    rw [← ha]
    exact ⟨rfl, fun _ => rfl⟩
  obtain ⟨w, hw⟩ := exists_of_isOk (hfits 7 (by decide))
  obtain ⟨w', hw'⟩ := exists_of_isOk (hfits 8 (by decide))
  obtain ⟨-, s, _, hseal⟩ := writerWith_ok hw
  refine ⟨a, r, w, w', s, rfl, rfl, ?_, ⟨_, hseal⟩, hw', ?_⟩
  · rw [PackAssembler.append, if_neg (by decide), flushExpired, hexp.1]
    exact place_first hcur hmany hw []
  · have hempty : ({ a.adopt w r 0 with current := none } : PackAssembler) = a := by
      rw [← hcur]
      rfl
    rw [append_expired rfl hseal (by decide) (hexp.2 w), hempty]
    exact place_first hcur hmany hw' _

/-! ### The persistence loop -/

theorem Pipeline.persist_ledger (sink : Nat → Bool) (p : Pipeline) (packs : List ReadyPack) :
    (p.persist sink packs).ledger = p.ledger := by
  induction packs generalizing p with
  | nil => rfl
  | cons ready packs ih =>
    rw [persist]
    split_ifs
    · exact ih _
    · rfl

theorem Pipeline.settle_ledger (sink : Nat → Bool) (p : Pipeline) (item : QueueItem)
    (result : Except AssemblerError (List ReadyPack)) :
    (p.settle sink item result).ledger = p.ledger := by
  rcases result with e | packs
  · cases e <;> rfl
  · unfold settle
    dsimp only
    split
    · exact persist_ledger sink p packs
    · exact persist_ledger sink p packs

/-- Every call the loop makes is safe when its turn comes. -/
def Pipeline.SafeRun (sink : Nat → Bool) : Pipeline → List QueueItem → Prop
  | _, [] => True
  | p, item :: items =>
    (p.status = .running → p.ledger.assembler.Safe item.op) ∧ (p.step sink item).SafeRun sink items

variable {sink : Nat → Bool} {p : Pipeline} {items : List QueueItem}

theorem Pipeline.run_kept (h : p.ledger.Kept)
    (hsafe : p.SafeRun sink items) : (p.run sink items).ledger.Kept := by
  induction items generalizing p with
  | nil => exact h
  | cons item items ih =>
    refine ih ?_ hsafe.2
    rw [step]
    split_ifs with hrunning
    · rw [settle_ledger]
      exact step_kept h (hsafe.1 hrunning)
    · exact h

theorem Pipeline.persist_cases (p : Pipeline) :
    p.persist sink packs = { p with persisted := p.persisted ++ packs } ∨
      (p.persist sink packs).status = .failed := by
  induction packs generalizing p with
  | nil =>
    rw [append_nil]
    exact .inl rfl
  | cons ready packs ih =>
    rw [persist, append_cons _ _ packs]
    split_ifs
    · exact ih _
    · exact .inr rfl

theorem PackAssembler.current_flush {a a' : PackAssembler} {reason : FlushReason}
    (h : a.flush reason = (.ok packs, a')) : a'.current = none := by
  unfold flush at h
  repeat' split at h
  all_goals cases h
  · assumption
  · rfl

/-- The sink took what was handed back, and a loop that stopped left no pack open. -/
def Pipeline.Delivered (p : Pipeline) : Prop :=
  p.status ≠ .failed → p.persisted = p.ledger.handed ∧
    (p.status = .stopped → p.ledger.assembler.current = none)

theorem Pipeline.step_delivered (h : p.Delivered) (item : QueueItem) :
    (p.step sink item).Delivered := by
  rw [step]
  split_ifs with hrunning
  · have hbefore := (h (by rw [hrunning]; decide)).1
    rcases hcall : p.ledger.assembler.call item.op with ⟨e | packs, a⟩ <;>
      simp only [Ledger.step, hcall, ← hbefore, hrunning]
    · cases e with
      | oversized | duplicate => exact fun _ => ⟨rfl, fun hs => by cases hs⟩
      | negativeClock | writer | state | sealing => exact fun hne => absurd rfl hne
    · unfold settle
      generalize hq : (Pipeline.mk _ _ _ _ _ : Pipeline) = q
      rcases @persist_cases packs sink q with heq | hfailed
      · dsimp only
        rw [heq, ← hq]
        cases item with
        | closed => exact fun _ => ⟨rfl, fun _ => current_flush hcall⟩
        | record | barrier | idle => exact fun _ => ⟨rfl, fun hs => by cases hs⟩
      · simp only [hfailed]
        cases item <;> exact fun hne => absurd hfailed hne
  · exact h

theorem PackAssembler.init_current {maxPackBytes maxRecords maxLingerNs : Int} {a : PackAssembler}
    (h : init maxPackBytes maxRecords maxLingerNs = some a) : a.current = none := by
  unfold init at h
  split_ifs at h
  cases h
  rfl

/-- **A loop that stopped delivered everything**: the packs the sink took hold every record whose
`append` returned, in order, and only records that were appended. -/
theorem stopped_loop_delivers {a : PackAssembler} (ha : a.current = none)
    (hsafe : (Pipeline.start a).SafeRun sink items)
    (hrun : (Pipeline.start a).run sink items = p) (hstopped : p.status = .stopped) :
    ∃ parts, Packed p.persisted parts ∧
      p.ledger.accepted.Sublist parts.flatten ∧ parts.flatten.Sublist p.ledger.appended := by
  have hdelivered : p.Delivered := by
    rw [← hrun]
    exact foldlRecOn items _ (fun _ => ⟨rfl, fun hs => by cases hs⟩)
      fun _ h item _ => Pipeline.step_delivered h item
  obtain ⟨hpersisted, hcurrent⟩ := hdelivered (by rw [hstopped]; decide)
  obtain ⟨parts, rest, hpacked, hholds, haccepted, happended⟩ :=
    hrun ▸ Pipeline.run_kept (start_kept ha) hsafe
  rw [(holds_none (hcurrent hstopped)).mp hholds, append_nil] at haccepted happended
  exact ⟨parts, hpersisted ▸ hpacked, haccepted, happended⟩

/-- Two packs: the first is sealed when the second record comes, the second when the queue is
closed. -/
theorem stopped_loop_delivers_two_packs : ∃ r p, (Pipeline.start smallAssembler).run (fun _ => true)
      [.record r (sampleId 7) 0, .record r (sampleId 8) 10, .closed] = p ∧
    p.status = .stopped ∧ p.persisted.length = 2 ∧ ∃ parts, Packed p.persisted parts ∧
      [r, r].Sublist parts.flatten ∧ parts.flatten.Sublist [r, r] := by
  obtain ⟨a, r, w, w', s, ha, -, hfirst, -, hw', hsecond⟩ := append_samples
  obtain ⟨-, s', _, hseal⟩ := writerWith_ok hw'
  have hlast : (a.adopt w' r 10).flush .shutdown =
      (.ok [⟨s', r.metadata, .shutdown⟩], { a with current := none }) := by
    simp only [flush, adopt, hseal]
  have hone : (Pipeline.start a).step (fun _ => true) (.record r (sampleId 7) 0) =
      ⟨⟨a.adopt w r 0, [], [r], [r]⟩, [], 0, 0, .running⟩ := by
    simp [Pipeline.start, start, Pipeline.step, QueueItem.op, call, hfirst, Ledger.step, Op.records,
      Pipeline.settle, Pipeline.persist]
  have hrun : (Pipeline.start a).run (fun _ => true)
      [.record r (sampleId 7) 0, .record r (sampleId 8) 10, .closed] =
      ⟨⟨{ a with current := none }, [⟨s, r.metadata, .linger⟩, ⟨s', r.metadata, .shutdown⟩],
        [r, r], [r, r]⟩, [⟨s, r.metadata, .linger⟩, ⟨s', r.metadata, .shutdown⟩], 0, 0,
        .stopped⟩ := by
    rw [Pipeline.run, foldl_cons, hone]
    simp [Pipeline.step, QueueItem.op, call, hsecond, hlast, Ledger.step, Op.records,
      Pipeline.settle, Pipeline.persist]
  rw [ha]
  refine ⟨r, _, hrun, rfl, rfl, stopped_loop_delivers ?_ ?_ hrun rfl⟩
  · rw [← ha]
    rfl
  · refine ⟨fun _ hexp => ?_, fun _ _ => ?_, fun _ => trivial, trivial⟩
    · rw [← ha] at hexp
      cases hexp
    · rw [hone]
      exact ⟨w', (a.writerWith_adopt r).trans hw'⟩

/-! ### The pack that is lost -/

/-- **An expired pack is dropped** by every record that fits no pack: `append` seals it, then
raises, and nobody receives it. -/
theorem expired_pack_is_dropped {a : PackAssembler} {p : OpenPack} {e : AssemblerError}
    {s : SealedPack} (hcur : a.current = some p) (hseal : p.writer.seal = (.ok s, w))
    (hnow : 0 ≤ nowNs) (hexp : a.expired nowNs = true)
    (hwriter : a.writerWith r packId = .error e) :
    a.append r packId nowNs = (.error e, { a with current := none }) := by
  rw [@writerWith_congr a { a with current := none } rfl rfl] at hwriter
  rw [append_expired hcur hseal hnow hexp]
  simp only [place, hwriter]

/-- **The assembler keeps every record it accepted.**  Over every sequence of calls with any
clock values and limits, and over every run of the persistence loop with any sink, as long
as no record that fits no pack arrives after the linger of the open pack: the packs handed
back and the open pack hold every record whose `append` returned, once and in append order,
and no other but a record whose own `append` raised. -/
theorem assembler_conserves (maxPackBytes maxRecords maxLingerNs : Int) (a : PackAssembler)
    (hinit : PackAssembler.init maxPackBytes maxRecords maxLingerNs = some a) :
    (∀ ops, (Ledger.start a).SafeRun ops → ((Ledger.start a).run ops).Conserved) ∧
    ∀ sink items, (Pipeline.start a).SafeRun sink items →
      ((Pipeline.start a).run sink items).ledger.Conserved := by
  have hstart := start_kept (init_current hinit)
  exact ⟨fun ops hsafe => (run_kept hstart hsafe).conserved,
    fun sink items hsafe => (Pipeline.run_kept hstart hsafe).conserved⟩

/-- A record, one after its linger, a duplicate of that, and a flush. -/
theorem assembler_conserves_duplicate : ∃ a, PackAssembler.init 810 10 10 = some a ∧
    ((Ledger.start a).run [.append (shortRecord ⟨"c", by decide, by decide⟩) (sampleId 7) 0,
      .append (shortRecord ⟨"c", by decide, by decide⟩) (sampleId 8) 10,
      .append (shortRecord ⟨"c", by decide, by decide⟩) (sampleId 9) 11,
      .flush .manual]).Conserved := by
  obtain ⟨a, r, w, w', s, ha, hr, hfirst, -, hw', hsecond⟩ := append_samples
  have hinit : init 810 10 10 = some a := by
    rw [← ha]
    rfl
  have hone : (start a).step (.append r (sampleId 7) 0) = ⟨a.adopt w r 0, [], [r], [r]⟩ := by
    simp only [start, Ledger.step, call, hfirst]
    rfl
  have htwo : Ledger.step ⟨a.adopt w r 0, [], [r], [r]⟩ (.append r (sampleId 8) 10) =
      ⟨a.adopt w' r 10, [⟨s, r.metadata, .linger⟩], [r, r], [r, r]⟩ := by
    simp only [Ledger.step, call, hsecond]
    rfl
  rw [hr]
  refine ⟨a, hinit, (assembler_conserves 810 10 10 a hinit).1 _
    ⟨fun hexp => ?_, fun _ => ?_, fun hexp => ?_, trivial, trivial⟩⟩
  · rw [← ha] at hexp
    cases hexp
  · rw [hone]
    exact ⟨w', (a.writerWith_adopt r).trans hw'⟩
  · rw [hone, htwo, ← ha] at hexp
    cases hexp

/-- A record of three bytes is accepted at time 0.  At time 10, when its pack has lingered
long enough, a record with a longer capture id arrives that fits no pack of 810 bytes: the
first record is in no pack any more. -/
theorem expired_pack_is_lost : ∃ a, PackAssembler.init 810 10 10 = some a ∧
    ¬ ((Ledger.start a).run [.append (shortRecord ⟨"c", by decide, by decide⟩) (sampleId 7) 0,
      .append (shortRecord ⟨"d-0123456789abcdef", by decide, by decide⟩) (sampleId 8)
        10]).Conserved := by
  obtain ⟨a, r, w, -, s, ha, hr, hfirst, ⟨_, hseal⟩, -, -⟩ := append_samples
  have htoo : (smallAssembler.writerWith (shortRecord ⟨"d-0123456789abcdef", by decide, by decide⟩)
      (sampleId 8)).isOk = false := by decide +kernel
  generalize shortRecord ⟨"d-0123456789abcdef", by decide, by decide⟩ = big at htoo
  rw [ha] at htoo
  rw [hr]
  refine ⟨a, by rw [← ha]; rfl, ?_⟩
  cases hb : a.writerWith big (sampleId 8) with
  | ok w' =>
    rw [hb] at htoo
    cases htoo
  | error e =>
    have hdrop : (a.adopt w r 0).append big (sampleId 8) 10 =
        (.error e, { a with current := none }) :=
      expired_pack_is_dropped rfl hseal (by decide) (by rw [← ha]; rfl)
        ((a.writerWith_adopt r).trans hb)
    have hrun : (start a).run [.append r (sampleId 7) 0, .append big (sampleId 8) 10] =
        ⟨{ a with current := none }, [], [r, big], [r]⟩ := by
      simp only [run, start, foldl_cons, foldl_nil, Ledger.step, call, hfirst, hdrop]
      rfl
    rw [hrun]
    rintro ⟨parts, rest, hpacked, hrest, haccepted, _⟩
    cases hpacked
    cases hrest
    cases haccepted

end Dmi.Capture
