import Dmi.HuggingFace.TokenRanges

/-!
# Lengths of token ranges

How long a range is depends on how the call was classified.  A prefill counts the attended columns
of the whole mask, a decode step gives one token.  This is the number of positions that the call
computes where the mask of a prefill attends to the input columns only, and where a decode step has
one column.  A call that continues a cached sequence by several tokens is taken for a decode step if
it has a cache position, and for a new prefill if it has none; neither counts its columns.
-/

namespace Dmi.HuggingFace

open HuggingFaceAdapter List

variable {δ κ : Type}

/-! ### Positions that a call computes -/

/-- The position of the first input column among the columns of the sequence. -/
def firstColumn (inputs : ModelInputs δ) : Nat :=
  match inputs.cachePosition with
  | some (position :: _) => position.toNat
  | _ => (inputs.pastKeyValues.bind (·.seqLength)).getD 0

/-- The columns that a row attends to; of a 4-D mask, those that its last query attends to. -/
def attendedRow (mask : Option MaskTensor) (i : Nat) : List Bool :=
  match mask with
  | some (.two m) => m.rows.getD i []
  | some (.four m) => (m.lastRow i).map (0 ≤ ·)
  | _ => []

/-- The input columns of a row that are not padding.  A column that the mask does not have is a
generated one. -/
def queryPositions (inputs : ModelInputs δ) (ids : InputIds δ) (mask : Option MaskTensor)
    (i : Nat) : Nat :=
  (List.range ids.qLen).countP fun j => ((attendedRow mask i)[firstColumn inputs + j]?).getD true

/-- Row `i` of the batch is finished and stripped. -/
def HuggingFaceAdapter.strips (a : HuggingFaceAdapter) (i : Nat) : Bool :=
  !a.noStripRightPad && ((a.batch.getD [])[i]?).any (·.finished)

/-- The number of positions that a call computes for row `i`. -/
def Forward.positions (f : Forward δ κ) (i : Nat) : Nat :=
  match f.inputs.inputIds, f.inputs.attentionMask.unwrap with
  | some ids, some mask =>
    if f.after.strips i then 0
    else if f.before.noStripLeftPad then ids.qLen
    else queryPositions f.inputs ids mask i
  | _, _ => 0

/-- A prefill whose mask counts the input columns: its width is their number, or it attends to no
other column. -/
def CountsColumns (noStripLeftPad : Bool) (inputs : ModelInputs δ) (ids : InputIds δ) :
    Option MaskTensor → Prop
  | some (.two m) =>
    if noStripLeftPad then m.width = ids.qLen
    else firstColumn inputs + ids.qLen ≤ m.width ∧ ∀ row ∈ m.rows, ∀ k < m.width,
      row[k]? = some true → firstColumn inputs ≤ k ∧ k < firstColumn inputs + ids.qLen
  | some (.four m) => noStripLeftPad = true ∨ firstColumn inputs = 0 ∧ ids.qLen ≤ m.keys
  | _ => True

instance (noStripLeftPad : Bool) (inputs : ModelInputs δ) (ids : InputIds δ) :
    ∀ mask, Decidable (CountsColumns noStripLeftPad inputs ids mask)
  | some (.two _) => inferInstanceAs (Decidable (ite _ _ _))
  | some (.four _) => inferInstanceAs (Decidable (_ ∨ _))
  | some .other => inferInstanceAs (Decidable True)
  | none => inferInstanceAs (Decidable True)

/-- A decode step of one column, which is not padding, for every request that is not finished. -/
def OneColumn (a : HuggingFaceAdapter) (inputs : ModelInputs δ) (ids : InputIds δ)
    (mask : Option MaskTensor) : Prop :=
  ∀ i < ids.rows.length,
    (a.needReset false ids.rows.length = false ∧ a.strips i = true) ∨
    (ids.qLen = 1 ∧
      (a.noStripLeftPad = true ∨ ((attendedRow mask i)[firstColumn inputs]?).getD true = true))

instance (a : HuggingFaceAdapter) (inputs : ModelInputs δ) (ids : InputIds δ)
    (mask : Option MaskTensor) : Decidable (OneColumn a inputs ids mask) :=
  inferInstanceAs (Decidable (∀ _ < _, _))

/-- The calls that the two branches are made for. -/
def HuggingFaceAdapter.Regular (a : HuggingFaceAdapter) (inputs : ModelInputs δ) : Prop :=
  match inputs.inputIds, inputs.attentionMask.unwrap with
  | some ids, some mask =>
    if isPrefill inputs ids then CountsColumns a.noStripLeftPad inputs ids mask
    else OneColumn a inputs ids mask
  | _, _ => True

instance (a : HuggingFaceAdapter) (inputs : ModelInputs δ) : Decidable (a.Regular inputs) := by
  unfold HuggingFaceAdapter.Regular
  split <;> infer_instance

/-- The forward calls of a run are regular. -/
def RegularCalls (r : HfRun δ κ) : HfAct δ → Prop
  | .forward inputs => r.adapter.Regular inputs
  | .claimGroup => True

instance (r : HfRun δ κ) : ∀ act, Decidable (RegularCalls r act)
  | .forward inputs => inferInstanceAs (Decidable (r.adapter.Regular inputs))
  | .claimGroup => inferInstanceAs (Decidable True)

/-- Every range is as long as the number of positions that its call computes for the row, which is
at most the number of rows that the call captures. -/
def HfRun.CountsPositions (r : HfRun δ κ) : Prop :=
  ∀ f ∈ r.forwards, ∀ (i : Nat) (range : Int × Int), f.step.context.tokenRanges[i]? = some range →
    range.2 - range.1 = (f.positions i : Int) ∧ f.positions i ≤ f.step.context.qLen

/-! ### Counting columns -/

theorem countP_window {row : List Bool} {p q : Nat} (h : p + q ≤ row.length) :
    ((List.range q).countP fun j => (row[p + j]?).getD true)
      = ((row.drop p).take q).count true := by
  have hmap : ((List.range q).map fun j => (row[p + j]?).getD true) = (row.drop p).take q := by
    apply ext_getElem
    · simp
      omega
    · intro j hj hj'
      have hlt : p + j < row.length := by
        simp only [length_map, List.length_range] at hj
        omega
      simp [getElem?_eq_getElem hlt]
  rw [← hmap, count_eq_countP, countP_map]
  congr 1
  funext j
  simp

theorem count_eq_window {row : List Bool} {p q : Nat}
    (h : ∀ k < row.length, row[k]? = some true → p ≤ k ∧ k < p + q) :
    row.count true = ((row.drop p).take q).count true := by
  have hfront : (row.take p).count true = 0 := by
    rw [count_eq_zero]
    intro hmem
    obtain ⟨k, hk⟩ := mem_iff_getElem?.mp hmem
    rw [getElem?_take] at hk
    split at hk
    · have := h k (List.getElem?_eq_some_iff.mp hk).1 hk
      omega
    · cases hk
  have hback : (row.drop (p + q)).count true = 0 := by
    rw [count_eq_zero]
    intro hmem
    obtain ⟨k, hk⟩ := mem_iff_getElem?.mp hmem
    rw [getElem?_drop] at hk
    have := h _ (List.getElem?_eq_some_iff.mp hk).1 hk
    omega
  calc row.count true
      = (row.take p).count true + (row.drop p).count true := by
        rw [← count_append, take_append_drop]
    _ = (row.drop p).count true := by rw [hfront, Nat.zero_add]
    _ = ((row.drop p).take q).count true + ((row.drop p).drop q).count true := by
        rw [← count_append, take_append_drop]
    _ = ((row.drop p).take q).count true := by rw [drop_drop, hback, Nat.add_zero]

section

variable {a : HuggingFaceAdapter} {inputs : ModelInputs δ} {ids : InputIds δ}
  {mask : Option MaskTensor}

theorem queryPositions_le (i : Nat) : queryPositions inputs ids mask i ≤ ids.qLen := by
  have h := (List.range ids.qLen).countP_le_length
    (p := fun j => ((attendedRow mask i)[firstColumn inputs + j]?).getD true)
  rwa [List.length_range] at h

variable {i : Nat}

/-- **A prefill whose mask counts the input columns.** -/
theorem prefillLengths_eq {noStripLeftPad : Bool} {lengths : List Int}
    (hlengths : prefillLengths noStripLeftPad ids mask = some lengths)
    (hcounts : CountsColumns noStripLeftPad inputs ids mask) {delta : Int}
    (hi : lengths[i]? = some delta) :
    delta = (if noStripLeftPad then ids.qLen else queryPositions inputs ids mask i : Nat) := by
  unfold prefillLengths at hlengths
  split at hlengths
  · -- a 2-D mask
    rename_i m
    cases hstrip : noStripLeftPad with
    | true =>
      rw [hstrip] at hlengths hcounts
      cases hlengths
      rw [getElem?_map, Option.map_eq_some_iff] at hi
      obtain ⟨-, -, rfl⟩ := hi
      exact congrArg Nat.cast hcounts
    | false =>
      rw [hstrip] at hlengths hcounts
      cases hlengths
      rw [getElem?_map, Option.map_eq_some_iff] at hi
      obtain ⟨row, hrow, rfl⟩ := hi
      obtain ⟨hwidth, honly⟩ := hcounts
      have hmem := mem_of_getElem? hrow
      have hrowlen := m.width_eq row hmem
      have hlen : firstColumn inputs + ids.qLen ≤ row.length := hrowlen ▸ hwidth
      have hattended : attendedRow (some (.two m)) i = row := by
        simp [attendedRow, getD_eq_getElem?_getD, hrow]
      unfold queryPositions
      rw [hattended, if_neg Bool.false_ne_true, countP_window hlen,
        count_eq_window (hrowlen ▸ honly row hmem)]
  · -- a 4-D mask
    rename_i m
    split at hlengths
    · rename_i qLen hcolumns
      have hq : ids.qLen = qLen := by rw [InputIds.qLen, hcolumns, Option.getD_some]
      split at hlengths
      · cases hlengths
      · split at hlengths
        · rename_i hstrip
          cases hlengths
          rw [getElem?_replicate] at hi
          split at hi
          · cases hi
            rw [if_pos hstrip, hq]
          · cases hi
        · rename_i hstrip
          split at hlengths
          · cases hlengths
          · cases hlengths
            obtain ⟨hfirst, hkeys⟩ := hcounts.resolve_left hstrip
            rw [getElem?_map, Option.map_eq_some_iff] at hi
            obtain ⟨b, hb, rfl⟩ := hi
            have hbi : b = i := by
              obtain ⟨hlt, heq⟩ := List.getElem?_eq_some_iff.mp hb
              rw [← heq, getElem_range]
            subst hbi
            have hlen : 0 + ids.qLen ≤ ((m.lastRow b).map fun v => decide (0 ≤ v)).length := by
              simpa [Mask4.lastRow] using hkeys
            unfold queryPositions attendedRow
            rw [if_neg hstrip, hfirst, countP_window hlen, drop_zero, ← map_take,
              count_eq_countP, countP_map, hq]
            congr 2
            funext v
            simp
    · cases hlengths
  · cases hlengths
  · cases hlengths

variable {requests : List BatchRequest}

theorem finished_reset {n : Nat}
    (h : (a.reset n).batch = some requests) : ∀ r ∈ requests, r.finished = false := by
  cases h
  intro r hr
  obtain ⟨id, -, rfl⟩ := mem_map.mp hr
  rfl

theorem finished_latch {r r' : BatchRequest} (hr : requests[i]? = some r)
    (hr' : (a.latch ids requests)[i]? = some r')
    (h : r.finished = true) : r'.finished = true := by
  unfold latch at hr'
  split at hr'
  · rw [getElem?_zipWith, hr] at hr'
    split at hr'
    · rename_i r₁ row hr₁ hrow
      cases hr₁
      cases hr'
      simp [h]
    · cases hr'
  · rw [hr] at hr'
    cases hr'
    exact h

theorem length_latch (h : requests.length = ids.rows.length) :
    (a.latch ids requests).length = requests.length := by
  simpa using congrArg List.length (map_latch (a := a) (fun _ => ()) (fun _ _ => rfl) h)

theorem noStripLeftPad_step (n : Nat) (prefill : Bool) :
    ((a.resetIfNeeded prefill n).withKvOffsets mask).noStripLeftPad = a.noStripLeftPad := by
  unfold withKvOffsets resetIfNeeded
  split <;> split <;> rfl

theorem noStripRightPad_step (n : Nat) (prefill : Bool) :
    ((a.resetIfNeeded prefill n).withKvOffsets mask).noStripRightPad = a.noStripRightPad := by
  unfold withKvOffsets resetIfNeeded
  split <;> split <;> rfl

variable {tokens : List (BatchRequest × Int)} {t : BatchRequest × Int}

theorem strips_advanced (h : tokens[i]? = some t) :
    (a.advanced tokens).strips i = (!a.noStripRightPad && t.1.finished) := by
  simp [strips, advanced, getElem?_map, h, BatchRequest.advance]

section

variable (h : a.stepTokens true ids mask requests = some tokens)
include h

theorem stepTokens_prefill (ht : tokens[i]? = some t) :
    ∃ lengths delta, prefillLengths a.noStripLeftPad ids mask = some lengths ∧
      lengths[i]? = some delta ∧ requests[i]? = some t.1 ∧
      t.2 = if delta < 0 then 0 else delta := by
  unfold stepTokens at h
  rw [if_pos rfl] at h
  split at h
  · cases h
  · rename_i lengths hlengths
    split at h
    · cases h
    · cases h
      obtain ⟨hr, hdelta⟩ := getElem?_zip_eq_some.mp ht
      rw [getElem?_map, Option.map_eq_some_iff] at hdelta
      obtain ⟨delta, hi, hclamp⟩ := hdelta
      exact ⟨lengths, delta, hlengths, hi, hr, hclamp.symm⟩

theorem tokens_of_prefill
    (hcounts : CountsColumns a.noStripLeftPad inputs ids mask) (ht : tokens[i]? = some t) :
    t.1 ∈ requests ∧
      t.2 = (if a.noStripLeftPad then ids.qLen else queryPositions inputs ids mask i : Nat) := by
  obtain ⟨lengths, delta, hlengths, hi, hr, hclamp⟩ := stepTokens_prefill h ht
  have hcount := prefillLengths_eq hlengths hcounts hi
  exact ⟨mem_of_getElem? hr, by rw [hclamp, if_neg (by omega), hcount]⟩

end

theorem tokens_of_decode (h : a.stepTokens false ids mask requests = some tokens)
    (ht : tokens[i]? = some t) :
    (a.latch ids requests)[i]? = some t.1 ∧ t.2 = a.decodeLength t.1 := by
  cases h
  rw [getElem?_map, Option.map_eq_some_iff] at ht
  obtain ⟨r, hr, rfl⟩ := ht
  exact ⟨hr, rfl⟩

theorem queryPositions_one (hq : ids.qLen = 1)
    (hcolumn : ((attendedRow mask i)[firstColumn inputs]?).getD true = true) :
    queryPositions inputs ids mask i = 1 := by
  rw [queryPositions, hq]
  simp [hcolumn]

end

/-- **An accepted call that is regular gives every row the positions that it computes.** -/
theorem length_of_regular {a a' : HuggingFaceAdapter} {inputs : ModelInputs δ} {b : BuiltStep δ κ}
    (hbuild : a.buildStepContext inputs = (a', some b)) (hregular : a.Regular inputs) {i : Nat}
    {range : Int × Int} (hi : b.context.tokenRanges[i]? = some range) :
    range.2 - range.1 = (Forward.positions ⟨a, inputs, a', b⟩ i : Int) := by
  obtain ⟨ids, mask, requests, tokens, hids, hne, hmask, hbatch, htokens, rfl, rfl⟩ :=
    buildStepContext_some hbuild
  have hcall : if isPrefill inputs ids then CountsColumns a.noStripLeftPad inputs ids mask
      else OneColumn a inputs ids mask := by
    rwa [Regular, hids, hmask] at hregular
  replace hi : (tokens.map fun t => t.1.range t.2)[i]? = some range := hi
  rw [getElem?_map, Option.map_eq_some_iff] at hi
  obtain ⟨t, ht, rfl⟩ := hi
  have hdiff : (t.1.range t.2).2 - (t.1.range t.2).1 = t.2 := by
    simp only [BatchRequest.range]
    omega
  rw [hdiff]
  unfold Forward.positions
  rw [hids, hmask]
  dsimp only
  rw [strips_advanced ht, noStripRightPad_step]
  cases hprefill : isPrefill inputs ids with
  | true =>
    rw [hprefill] at hcall hbatch htokens
    obtain ⟨hmem, hcount⟩ := tokens_of_prefill htokens
      ((noStripLeftPad_step _ _).symm ▸ hcall) ht
    have hfinished : t.1.finished = false := by
      exact finished_reset hbatch t.1 hmem
    rw [hcount, hfinished, noStripLeftPad_step, Bool.and_false, if_neg Bool.false_ne_true]
  | false =>
    rw [hprefill] at hcall hbatch htokens
    obtain ⟨hlatched, hdelta⟩ := tokens_of_decode htokens ht
    rw [hdelta, decodeLength, noStripRightPad_step]
    by_cases hstop : t.1.finished = true ∧ ¬ a.noStripRightPad = true
    · simp [hstop]
    · have hgoes : (!a.noStripRightPad && t.1.finished) = false := by
        cases hf : t.1.finished <;> cases hr : a.noStripRightPad <;> simp_all
      rw [if_neg hstop, hgoes, if_neg Bool.false_ne_true]
      have hlt : i < ids.rows.length := by
        rw [← length_of_resetIfNeeded hbatch, ← length_latch (length_of_resetIfNeeded hbatch)]
        exact (List.getElem?_eq_some_iff.mp hlatched).1
      rcases hcall i hlt with ⟨hkeep, hstrips⟩ | ⟨hq, hcolumn⟩
      · -- the row was finished before the call, and still is
        rw [resetIfNeeded, hkeep, if_neg Bool.false_ne_true] at hbatch
        rw [strips, hbatch, Option.getD_some, Bool.and_eq_true, Option.any_eq_true] at hstrips
        obtain ⟨hright, r, hr, hfinished⟩ := hstrips
        rw [finished_latch hr hlatched hfinished, hright] at hgoes
        cases hgoes
      · cases hleft : a.noStripLeftPad with
        | true => rw [if_pos rfl, hq, Nat.cast_one]
        | false =>
          rw [hleft] at hcolumn
          rw [if_neg Bool.false_ne_true,
            queryPositions_one hq (hcolumn.resolve_left Bool.false_ne_true), Nat.cast_one]

/-! ### Whole runs -/

theorem positions_le {a a' : HuggingFaceAdapter} {inputs : ModelInputs δ} {b : BuiltStep δ κ}
    (hbuild : a.buildStepContext inputs = (a', some b)) (i : Nat) :
    Forward.positions ⟨a, inputs, a', b⟩ i ≤ b.context.qLen := by
  obtain ⟨ids, mask, requests, tokens, hids, hne, hmask, hbatch, htokens, rfl, rfl⟩ :=
    buildStepContext_some hbuild
  unfold Forward.positions
  rw [hids, hmask]
  dsimp only
  split
  · exact Nat.zero_le _
  · split
    · exact le_rfl
    · exact queryPositions_le i

/-- A step of a run accepts at most the call that it is. -/
theorem forwards_step {r r' : HfRun δ κ} {act : HfAct δ} (hstep : hfStep r act = some r')
    {f : Forward δ κ} (hf : f ∈ r'.forwards) :
    f ∈ r.forwards ∨ act = .forward f.inputs ∧ f.before = r.adapter ∧
      r.adapter.buildStepContext f.inputs = (f.after, some f.step) := by
  cases act with
  | claimGroup =>
    cases hstep
    exact .inl hf
  | forward inputs =>
    cases hstep
    unfold HfRun.call at hf
    split at hf
    · exact .inl hf
    · rename_i a' b hbuild
      rcases mem_append.mp hf with hf | hf
      · exact .inl hf
      · cases mem_singleton.mp hf
        exact .inr ⟨rfl, rfl, hbuild⟩

theorem countsPositions_step {r r' : HfRun δ κ} {act : HfAct δ} (h : r.CountsPositions)
    (hregular : RegularCalls r act) (hstep : hfStep r act = some r') : r'.CountsPositions := by
  intro f hf i range hi
  rcases forwards_step hstep hf with hf | ⟨rfl, hbefore, hbuild⟩
  · exact h f hf i range hi
  · rw [← hbefore] at hbuild
    refine ⟨length_of_regular hbuild ?_ hi, positions_le hbuild i⟩
    rw [hbefore]
    exact hregular

/-- **Token ranges over a sequence of forward calls.**  The ranges of every request id follow one
another without a gap, and if every call is regular, each range is as long as the number of
positions that its call computes for the row. -/
theorem token_ranges_count_positions {init r : HfRun δ κ} {acts : List (HfAct δ)}
    (hbatch : init.adapter.batch = none) (hforwards : init.forwards = [])
    (hrun : Lts.run hfStep init acts = some r) :
    (∀ rid, ∃ e, Contiguous 0 (r.rangesOf rid) e) ∧
    (Lts.Along hfStep RegularCalls init acts → r.CountsPositions) := by
  have hranges : ∀ rid, init.rangesOf rid = [] := by
    intro rid
    rw [HfRun.rangesOf, hforwards, flatMap_nil]
  have htracks : Tracks init.adapter init.rangesOf := by
    refine ⟨fun g i _ => hranges _, fun rid => ⟨0, ?_⟩, ?_, ?_, ?_⟩
    · rw [hranges]
      exact rfl
    all_goals
      intro requests h
      rw [hbatch] at h
      cases h
  have hcounts : init.CountsPositions := by
    intro f hf
    rw [hforwards] at hf
    cases hf
  have htracked : Tracks r.adapter r.rangesOf := Lts.run_preserves tracks_step htracks hrun
  refine ⟨htracked.contiguous, fun hregular => ?_⟩
  exact Lts.run_invariant countsPositions_step hcounts hregular hrun

/-- A 2-D mask that attends everywhere. -/
def fullMask (batch width : Nat) : Mask2 where
  width := width
  rows := List.replicate batch (List.replicate width true)
  width_eq row hrow := by rw [List.eq_of_mem_replicate hrow, List.length_replicate]

/-- A call with a column of each of the `tokens` in one row, behind `cached` columns that the cache
has already, without padding. -/
def plainCall (tokens : List Int) (cached : Nat) (cachePosition : Option (List Int)) :
    ModelInputs Unit where
  inputIds := some ⟨none, some tokens.length, [tokens], by simp⟩
  attentionMask := .tensor (.two (fullMask 1 (cached + tokens.length)))
  pastKeyValues := if cached = 0 then none else some ⟨none, some cached⟩
  cachePosition := cachePosition

/-- Two rows, the second one padded on the left, and a decode step in which the first row feeds its
end token. -/
def paddedCalls : List (HfAct Unit) :=
  [.forward {
      inputIds := some ⟨none, some 2, [[5, 6], [0, 7]], by decide⟩
      attentionMask := .tensor (.two ⟨2, [[true, true], [false, true]], by decide⟩)
      pastKeyValues := none
      cachePosition := some [0, 1] },
    .forward {
      inputIds := some ⟨none, some 1, [[9], [8]], by decide⟩
      attentionMask := .tensor (.two ⟨3, [[true, true, true], [false, true, true]], by decide⟩)
      pastKeyValues := some ⟨none, some 2⟩
      cachePosition := some [2] }]

theorem token_ranges_count_positions_padded :
    ∃ r : HfRun Unit Unit,
      Lts.run hfStep ⟨{ modelId := "model", eosTokenIds := [9] }, []⟩ paddedCalls = some r ∧
      (r.forwards.map fun f => f.step.context.tokenRanges) = [[(0, 2), (0, 1)], [(2, 2), (1, 2)]] ∧
      (∀ rid, ∃ e, Contiguous 0 (r.rangesOf rid) e) ∧ r.CountsPositions := by
  refine ⟨_, rfl, by decide, ?_⟩
  have h := @token_ranges_count_positions Unit Unit
    ⟨{ modelId := "model", eosTokenIds := [9] }, []⟩ _ paddedCalls rfl rfl rfl
  exact ⟨h.1, h.2 (by decide)⟩

/-- A prompt of two tokens that is continued by three: with a cache position the continuation gets
one token, without it it gets a new id and the tokens of the whole mask. -/
theorem continuation_not_counted :
    ∃ r r' : HfRun Unit Unit,
      Lts.run hfStep ⟨{ modelId := "model" }, []⟩
        [.forward (plainCall [5, 6] 0 (some [0, 1])),
          .forward (plainCall [7, 8, 9] 2 (some [2, 3, 4]))] = some r ∧
      Lts.run hfStep ⟨{ modelId := "model" }, []⟩
        [.forward (plainCall [5, 6] 0 none), .forward (plainCall [7, 8, 9] 2 none)] = some r' ∧
      (r.forwards.map fun f => (f.step.context.tokenRanges, f.positions 0))
        = [([(0, 2)], 2), ([(2, 3)], 3)] ∧
      (r'.forwards.map fun f => (f.step.context.tokenRanges, f.positions 0))
        = [([(0, 2)], 2), ([(0, 5)], 3)] ∧
      ¬ r.CountsPositions ∧ ¬ r'.CountsPositions := by
  refine ⟨_, _, rfl, rfl, by decide, by decide, ?_, ?_⟩
  · intro h
    have hlast := h _ (mem_cons_of_mem _ mem_cons_self) 0 (2, 3) (by decide)
    exact absurd hlast.1 (by decide)
  · intro h
    have hlast := h _ (mem_cons_of_mem _ mem_cons_self) 0 (0, 5) (by decide)
    exact absurd hlast.1 (by decide)

end Dmi.HuggingFace
