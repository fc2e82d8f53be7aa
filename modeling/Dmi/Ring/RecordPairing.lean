import Dmi.Ring.RecordConsumer

/-!
# Payloads meet their own descriptors

`FlowInv` describes the consumer by the history of the run.  As long as nothing has failed, the
payloads still to be delivered are first those that are owed to discard windows and then those of
the queued descriptors, so that the queue is what remains of the descriptors pushed (`queue`).
After a failure nothing is taken from the queue any more.  The steps of the descriptors dropped by
windows, those still queued and the current one are in order, which is why the last step counted
is enough to count steps once (`sorted`).
-/

namespace Dmi.Ring

open List RecordConsumer RecordFlow Sublist Fate

variable {ρ : Type}

/-! ### Steps that lose a record -/

namespace RecordConsumer

theorem noteDiscardedStepLocked_eq {c : RecordConsumer ρ} {lost : List Nat} {x : Nat}
    (hlast : c.lastDiscardedStep = lost.getLast?)
    (hcount : c.stepsWithDiscards = lost.toFinset.card) (hs : (lost ++ [x]).Pairwise (· ≤ ·)) :
    c.noteDiscardedStepLocked x = { c with
      lastDiscardedStep := (lost ++ [x]).getLast?
      stepsWithDiscards := (lost ++ [x]).toFinset.card } := by
  have hset : (lost ++ [x]).toFinset = insert x lost.toFinset := by
    rw [toFinset_append, Finset.union_comm]
    rfl
  rw [getLast?_append, getLast?_singleton, Option.some_or, hset]
  unfold noteDiscardedStepLocked
  by_cases hx : c.lastDiscardedStep = some x
  · have hmem : x ∈ lost.toFinset :=
      mem_toFinset.mpr (mem_of_getLast? (hlast.symm.trans hx))
    rw [if_pos hx, Finset.insert_eq_of_mem hmem, ← hcount, ← hx]
  · -- a step that was counted before is at most the last one, and `x` is at least that
    have hmem : x ∉ lost.toFinset := by
      intro hmem
      have hin := mem_toFinset.mp hmem
      obtain ⟨init, last, rfl⟩ : ∃ init last, lost = init ++ [last] := by
        rcases eq_nil_or_concat' lost with rfl | h
        · cases hin
        · exact h
      rw [getLast?_append, getLast?_singleton, Option.some_or] at hlast
      obtain ⟨hsorted, _, hle⟩ := pairwise_append.mp hs
      have hxle : x ≤ last := by
        rcases mem_append.mp hin with hin | hin
        · exact (pairwise_append.mp hsorted).2.2 x hin last (mem_singleton_self _)
        · exact (mem_singleton.mp hin).le
      have hlex : last ≤ x :=
        hle last (mem_append_right _ (mem_singleton_self _)) x (mem_singleton_self _)
      exact hx (hlast.trans (congrArg some (Nat.le_antisymm hlex hxle)))
    rw [if_neg hx, Finset.card_insert_of_notMem hmem, ← hcount]

theorem foldl_note {c : RecordConsumer ρ} {lost xs : List Nat}
    (hlast : c.lastDiscardedStep = lost.getLast?)
    (hcount : c.stepsWithDiscards = lost.toFinset.card) (hs : (lost ++ xs).Pairwise (· ≤ ·)) :
    xs.foldl noteDiscardedStepLocked c = { c with
      lastDiscardedStep := (lost ++ xs).getLast?
      stepsWithDiscards := (lost ++ xs).toFinset.card } := by
  induction xs generalizing c lost with
  | nil => rw [append_nil, ← hlast, ← hcount, foldl_nil]
  | cons x xs ih =>
    rw [← singleton_append, ← append_assoc] at hs ⊢
    rw [singleton_append, foldl_cons,
      noteDiscardedStepLocked_eq hlast hcount (pairwise_append.mp hs).1, ih rfl rfl hs]

variable (c : RecordConsumer ρ)

theorem foldl_note_replicate (n x : Nat) :
    (List.replicate (n + 1) x).foldl noteDiscardedStepLocked c = c.noteDiscardedStepLocked x := by
  have hlast : (c.noteDiscardedStepLocked x).lastDiscardedStep = some x := by
    unfold noteDiscardedStepLocked
    split
    next h => exact h
    next => rfl
  have hsame : ∀ n, (replicate n x).foldl noteDiscardedStepLocked
      (c.noteDiscardedStepLocked x) = c.noteDiscardedStepLocked x := by
    intro n
    induction n with
    | zero => rfl
    | succ n ih =>
      have hagain : (c.noteDiscardedStepLocked x).noteDiscardedStepLocked x
          = c.noteDiscardedStepLocked x := if_pos hlast
      rw [replicate_succ, foldl_cons, hagain, ih]
  exact hsame n

theorem note_keeps (x : Nat) :
    ∃ last count, c.noteDiscardedStepLocked x
      = { c with lastDiscardedStep := last, stepsWithDiscards := count } := by
  unfold noteDiscardedStepLocked
  split
  · exact ⟨c.lastDiscardedStep, c.stepsWithDiscards, rfl⟩
  · exact ⟨_, _, rfl⟩

theorem takeUnwantedPayloadLocked_false {c' : RecordConsumer ρ}
    (h : c.takeUnwantedPayloadLocked = (false, c')) : c' = c := by
  unfold takeUnwantedPayloadLocked at h
  split at h
  · split at h
    · exact (Prod.mk.inj h).2.symm
    · cases h
  · split at h
    · exact (Prod.mk.inj h).2.symm
    · cases h

end RecordConsumer

/-! ### Invariant -/

/-- The steps of the descriptors dropped by windows, counted by the consumer. -/
structure StepsInv (c : RecordConsumer ρ) (lost : List Nat) : Prop where
  sorted : (lost ++ (c.descriptors.map (·.step) ++ [c.step])).Pairwise (· ≤ ·)
  last : c.lastDiscardedStep = lost.getLast?
  count : c.stepsWithDiscards = lost.toFinset.card

structure FlowInv (s : RecordFlow ρ) : Prop where
  own : ∀ (k : Nat) (f : Fate ρ) (d : RecordDescriptor ρ), s.fates[k]? = some f →
    f.descriptor = some d → s.pushed[k]?.map (·.descriptor) = some d
  queue : s.consumer.failure = none →
    s.fates.length + s.consumer.payloadsToDiscard ≤ s.pushed.length ∧
      s.consumer.descriptors = s.pushed.drop (s.fates.length + s.consumer.payloadsToDiscard)
  window : s.consumer.failure = none → s.consumer.discarding = true → s.consumer.descriptors = []
  active : s.consumer.activePayloads = s.fates.countP Fate.isActive
  counted : s.consumer.policy = .disableCapture →
    s.consumer.discardedPayloads = s.fates.countP Fate.isLost ∧ .raised ∉ s.fates
  steps : StepsInv s.consumer s.lostSteps

namespace StepsInv

variable {c c' : RecordConsumer ρ} {lost : List Nat}

/-- Descriptors leave the queue from the front, or all at once. -/
theorem of_sublist (h : StepsInv c lost) (hd : c'.descriptors.Sublist c.descriptors)
    (hstep : c'.step = c.step) (hl : c'.lastDiscardedStep = c.lastDiscardedStep)
    (hc : c'.stepsWithDiscards = c.stepsWithDiscards) : StepsInv c' lost where
  sorted := by
    rw [hstep]
    exact h.sorted.sublist
      ((refl lost).append ((hd.map _).append (refl _)))
  last := hl.trans h.last
  count := hc.trans h.count

theorem beginStep (h : StepsInv c lost) : StepsInv c.beginStep lost where
  sorted := by
    have hs := h.sorted
    rw [← append_assoc, pairwise_append] at hs ⊢
    refine ⟨hs.1, pairwise_singleton _ _, fun a ha b hb => ?_⟩
    obtain rfl := mem_singleton.mp hb
    exact (hs.2.2 a ha c.step (mem_singleton_self _)).trans (Nat.le_succ _)
  last := h.last
  count := h.count

theorem enqueue (h : StepsInv c lost) (ds : List (RecordDescriptor ρ)) :
    StepsInv { c with descriptors := c.descriptors ++ ds.map (⟨·, c.step⟩) } lost where
  sorted := by
    have hs := h.sorted
    have hmap : (c.descriptors ++ ds.map fun d => (⟨d, c.step⟩ : QueuedDescriptor ρ)).map (·.step)
        = c.descriptors.map (·.step) ++ replicate ds.length c.step := by
      rw [map_append, map_map, ← map_const']
      rfl
    simp only [hmap]
    rw [← append_assoc, ← append_assoc] at *
    rw [append_assoc _ (replicate _ _)]
    rw [pairwise_append] at hs ⊢
    refine ⟨hs.1, ?_, fun a ha b hb => ?_⟩
    · rw [← replicate_succ']
      exact pairwise_replicate.mpr (.inr (Nat.le_refl _))
    · rw [← replicate_succ'] at hb
      rw [eq_of_mem_replicate hb]
      exact hs.2.2 a ha c.step (mem_singleton_self _)
  last := h.last
  count := h.count

/-- A window drops the queue: the dropped steps move to the other side of the order. -/
theorem beginDiscardWindow (h : StepsInv c lost) :
    StepsInv c.beginDiscardWindow (lost ++ c.descriptors.map (·.step)) := by
  have hs := h.sorted
  rw [← append_assoc] at hs
  have hnote := foldl_note (c := { c with discarding := true }) h.last h.count
    (pairwise_append.mp hs).1
  unfold RecordConsumer.beginDiscardWindow
  simp only [hnote]
  exact { sorted := hs, last := rfl, count := rfl }

theorem dropPushes (h : StepsInv c lost) (hempty : c.descriptors = []) (n : Nat) :
    StepsInv (if n = 0 then c else c.noteDiscardedStepLocked c.step)
      (lost ++ List.replicate n c.step) := by
  cases n with
  | zero =>
    rw [if_pos rfl, replicate_zero, append_nil]
    exact h
  | succ n =>
    have hs := h.sorted
    rw [hempty, map_nil, nil_append, pairwise_append] at hs
    have hle : ∀ a ∈ lost, a ≤ c.step := fun a ha => hs.2.2 a ha _ (mem_singleton_self _)
    have hsorted : ∀ m, (lost ++ replicate m c.step).Pairwise (· ≤ ·) := by
      intro m
      refine pairwise_append.mpr
        ⟨hs.1, pairwise_replicate.mpr (.inr (Nat.le_refl _)), fun a ha b hb => ?_⟩
      rw [eq_of_mem_replicate hb]
      exact hle a ha
    rw [if_neg (Nat.succ_ne_zero n), ← foldl_note_replicate c n,
      foldl_note h.last h.count (hsorted _)]
    refine { sorted := ?_, last := rfl, count := rfl }
    rw [hempty, map_nil, nil_append, append_assoc, ← replicate_succ']
    exact hsorted _

end StepsInv

/-! ### Latching -/

namespace RecordConsumer

variable (c : RecordConsumer ρ) (failure : String)

theorem latchLocked_failure : (c.latchLocked failure).failure ≠ none := by
  have hor : c.failure.or (some failure) ≠ none := by
    cases c.failure <;> simp
  unfold latchLocked
  cases c.policy <;> exact hor

/-- All that a latch changes besides the failure: it may drop the queue and what is owed. -/
theorem latchLocked_spec :
    (c.latchLocked failure).policy = c.policy ∧
    (c.latchLocked failure).activePayloads = c.activePayloads ∧
    (c.latchLocked failure).discardedPayloads = c.discardedPayloads ∧
    (c.latchLocked failure).step = c.step ∧
    (c.latchLocked failure).lastDiscardedStep = c.lastDiscardedStep ∧
    (c.latchLocked failure).stepsWithDiscards = c.stepsWithDiscards ∧
    (c.latchLocked failure).descriptors.Sublist c.descriptors := by
  unfold latchLocked
  cases c.policy with
  | raiseAtProducer => exact ⟨rfl, rfl, rfl, rfl, rfl, rfl, refl _⟩
  | disableCapture => exact ⟨rfl, rfl, rfl, rfl, rfl, rfl, nil_sublist _⟩

end RecordConsumer

/-! ### The steps of a run -/

namespace FlowInv

variable {s s' : RecordFlow ρ}

theorem init (policy : RecordFailurePolicy) (hasSink : Bool) :
    FlowInv (⟨{ policy := policy, hasSink := hasSink }, [], [], []⟩ : RecordFlow ρ) where
  own := fun k f d h => by simp at h
  queue := fun _ => ⟨Nat.le_refl _, rfl⟩
  window := fun _ h => by cases h
  active := rfl
  counted := fun _ => ⟨rfl, not_mem_nil⟩
  steps := ⟨pairwise_singleton _ _, rfl, rfl⟩

section

variable (h : FlowInv s)
include h

theorem beginStep : FlowInv { s with consumer := s.consumer.beginStep } :=
  { h with steps := h.steps.beginStep }

theorem latch (failure : String) :
    FlowInv { s with consumer := s.consumer.latchLocked failure } := by
  have hfail := s.consumer.latchLocked_failure failure
  obtain ⟨hpolicy, hactive, hdiscarded, hstep, hlast, hcount, hsub⟩ :=
    s.consumer.latchLocked_spec failure
  exact {
    own := h.own
    queue := fun hnone => absurd hnone hfail
    window := fun hnone => absurd hnone hfail
    active := hactive.trans h.active
    counted := fun hp => by
      rw [hdiscarded]
      exact h.counted (hpolicy ▸ hp)
    steps := h.steps.of_sublist hsub hstep hlast hcount }

theorem own_append (more : List (QueuedDescriptor ρ)) (k : Nat) (f : Fate ρ)
    (d : RecordDescriptor ρ) (hf : s.fates[k]? = some f) (hd : f.descriptor = some d) :
    (s.pushed ++ more)[k]?.map (·.descriptor) = some d := by
  have hown := h.own k f d hf hd
  obtain ⟨q, hq, _⟩ := Option.map_eq_some_iff.mp hown
  rw [getElem?_append_left (List.getElem?_eq_some_iff.mp hq).1]
  exact hown

/-- A consumer that has failed counts descriptors at most. -/
theorem push_failed (hfail : s.consumer.failure ≠ none)
    (ds : List (RecordDescriptor ρ)) : FlowInv (s.push ds (s.consumer.pushDescriptors ds)) := by
  obtain ⟨failure, hf⟩ := Option.ne_none_iff_exists'.mp hfail
  have hlost : s.lostSteps ++ (if s.consumer.failure = none ∧ s.consumer.discarding = true then
      replicate ds.length s.consumer.step else []) = s.lostSteps := by
    rw [if_neg fun hc => hfail hc.1, append_nil]
  have hkeeps : ∃ n, (s.consumer.pushDescriptors ds).toOption.getD s.consumer
      = { s.consumer with discardedDescriptors := n } := by
    cases hp : s.consumer.policy with
    | raiseAtProducer =>
      have herr : s.consumer.pushDescriptors ds = .error failure := by
        simp only [pushDescriptors, hf, hp]
      exact ⟨s.consumer.discardedDescriptors, by rw [herr]; rfl⟩
    | disableCapture =>
      have hok : s.consumer.pushDescriptors ds = .ok { s.consumer with
          discardedDescriptors := s.consumer.discardedDescriptors + ds.length } := by
        simp only [pushDescriptors, hf, hp]
      exact ⟨_, by rw [hok]; rfl⟩
  obtain ⟨n, hn⟩ := hkeeps
  unfold push
  rw [hlost, hn]
  exact {
    own := h.own_append _
    queue := fun hnone => absurd hnone hfail
    window := fun hnone => absurd hnone hfail
    active := h.active
    counted := h.counted
    steps := h.steps.of_sublist (refl _) rfl rfl rfl }

/-- In an open window every descriptor is owed a payload. -/
theorem push_window (hfail : s.consumer.failure = none)
    (hdisc : s.consumer.discarding = true) (ds : List (RecordDescriptor ρ)) :
    FlowInv (s.push ds (s.consumer.pushDescriptors ds)) := by
  obtain ⟨hle, hqueue⟩ := h.queue hfail
  have hempty := h.window hfail hdisc
  have hlen : s.pushed.length = s.fates.length + s.consumer.payloadsToDiscard :=
    Nat.le_antisymm (drop_eq_nil_iff.mp (hqueue ▸ hempty)) hle
  have hlost : (if s.consumer.failure = none ∧ s.consumer.discarding = true then
      List.replicate ds.length s.consumer.step else [])
        = List.replicate ds.length s.consumer.step :=
    if_pos ⟨hfail, hdisc⟩
  -- what is owed and dropped, before the step is counted
  let owed : RecordConsumer ρ := { s.consumer with
    discardedDescriptors := s.consumer.discardedDescriptors + ds.length
    payloadsToDiscard := s.consumer.payloadsToDiscard + ds.length }
  have hok : s.consumer.pushDescriptors ds =
      .ok (if ds.length = 0 then owed else owed.noteDiscardedStepLocked owed.step) := by
    simp only [pushDescriptors, hfail, hdisc, if_true, List.isEmpty_iff,
      length_eq_zero_iff, owed]
  have howed : StepsInv owed s.lostSteps :=
    h.steps.of_sublist (refl _) rfl rfl rfl
  have hsteps := howed.dropPushes hempty ds.length
  obtain ⟨last, count, hkeeps⟩ : ∃ last count,
      (if ds.length = 0 then owed else owed.noteDiscardedStepLocked owed.step)
        = { owed with lastDiscardedStep := last, stepsWithDiscards := count } := by
    split
    · exact ⟨owed.lastDiscardedStep, owed.stepsWithDiscards, rfl⟩
    · exact owed.note_keeps _
  unfold push
  rw [hlost, hok]
  rw [hkeeps] at hsteps ⊢
  exact {
    own := h.own_append _
    queue := fun _ => by
      have hlen' : (s.pushed ++ ds.map fun d => (⟨d, s.consumer.step⟩ : QueuedDescriptor ρ)).length
          = s.fates.length + (s.consumer.payloadsToDiscard + ds.length) := by
        rw [length_append, length_map, hlen, Nat.add_assoc]
      exact ⟨hlen'.ge, hempty.trans (drop_eq_nil_iff.mpr hlen'.le).symm⟩
    window := fun _ _ => hempty
    active := h.active
    counted := h.counted
    steps := hsteps }

theorem push_queue (hfail : s.consumer.failure = none)
    (hdisc : s.consumer.discarding = false) (ds : List (RecordDescriptor ρ)) :
    FlowInv (s.push ds (s.consumer.pushDescriptors ds)) := by
  obtain ⟨hle, hqueue⟩ := h.queue hfail
  have hlost : s.lostSteps ++ (if s.consumer.failure = none ∧ s.consumer.discarding = true then
      replicate ds.length s.consumer.step else []) = s.lostSteps := by
    rw [if_neg fun hc => Bool.false_ne_true (hdisc.symm.trans hc.2), append_nil]
  have hok : s.consumer.pushDescriptors ds = .ok { s.consumer with
      descriptors := s.consumer.descriptors ++ ds.map (⟨·, s.consumer.step⟩) } := by
    simp only [pushDescriptors, hfail, hdisc, Bool.false_eq_true, if_false]
  unfold push
  rw [hlost, hok]
  exact {
    own := h.own_append _
    queue := fun _ => by
      refine ⟨?_, ?_⟩
      · simp only [length_append]
        exact hle.trans (Nat.le_add_right _ _)
      · simp only [Except.toOption, Option.getD_some]
        rw [drop_append_of_le_length hle, ← hqueue]
    window := fun _ hd => absurd (hdisc.symm.trans hd) Bool.false_ne_true
    active := h.active
    counted := h.counted
    steps := h.steps.enqueue ds }

theorem push (ds : List (RecordDescriptor ρ)) :
    FlowInv (s.push ds (s.consumer.pushDescriptors ds)) := by
  by_cases hfail : s.consumer.failure = none
  · cases hdisc : s.consumer.discarding with
    | true => exact h.push_window hfail hdisc ds
    | false => exact h.push_queue hfail hdisc ds
  · exact h.push_failed hfail ds

/-- One more payload is delivered; if it is paired, then with the descriptor of its number. -/
theorem own_concat {f : Fate ρ}
    (hf : ∀ d, f.descriptor = some d → s.pushed[s.fates.length]?.map (·.descriptor) = some d)
    (k : Nat) (f' : Fate ρ) (d : RecordDescriptor ρ) (hf' : (s.fates ++ [f])[k]? = some f')
    (hd : f'.descriptor = some d) : s.pushed[k]?.map (·.descriptor) = some d := by
  rcases Nat.lt_or_ge k s.fates.length with hlt | hge
  · rw [getElem?_append_left hlt] at hf'
    exact h.own k f' d hf' hd
  · obtain rfl : k = s.fates.length := by
      have := (List.getElem?_eq_some_iff.mp hf').1
      rw [length_append, length_singleton] at this
      omega
    rw [getElem?_concat_length] at hf'
    cases hf'
    exact hf d hd

theorem discard {c : RecordConsumer ρ} (hc : s.consumer.takeUnwantedPayloadLocked = (true, c)) :
    FlowInv { s with consumer := c, fates := s.fates ++ [.discarded] } := by
  have hown := h.own_concat (f := .discarded) fun d hd => by cases hd
  have hactive : s.consumer.activePayloads
      = (s.fates ++ [discarded]).countP isActive := by
    rw [countP_append, h.active]
    rfl
  have hcounted : s.consumer.policy = .disableCapture → s.consumer.discardedPayloads + 1
      = (s.fates ++ [discarded]).countP isLost ∧
        .raised ∉ s.fates ++ [discarded] := by
    intro hp
    obtain ⟨hcount, hraised⟩ := h.counted hp
    rw [countP_append, hcount]
    exact ⟨rfl, by simpa using hraised⟩
  unfold takeUnwantedPayloadLocked at hc
  cases hfail : s.consumer.failure with
  | some failure =>
    rw [hfail] at hc
    cases hp : s.consumer.policy with
    | raiseAtProducer => simp only [hp, Prod.mk.injEq, Bool.false_eq_true, false_and] at hc
    | disableCapture =>
      simp only [hp, Prod.mk.injEq, true_and] at hc
      subst hc
      exact {
        own := hown
        queue := fun hnone => by simp at hnone
        window := fun hnone => by simp at hnone
        active := hactive
        counted := fun _ => hcounted hp
        steps := h.steps.of_sublist (refl _) rfl rfl rfl }
  | none =>
    simp only [hfail] at hc
    split at hc
    next => cases hc
    next hdebt =>
      obtain ⟨hle, hqueue⟩ := h.queue hfail
      have hlen : s.fates.length + 1 + (s.consumer.payloadsToDiscard - 1)
          = s.fates.length + s.consumer.payloadsToDiscard := by omega
      simp only [Prod.mk.injEq, true_and] at hc
      subst hc
      exact {
        own := hown
        queue := fun _ => by
          simp only [length_append, length_singleton, hlen]
          exact ⟨hle, hqueue⟩
        window := fun _ => h.window hfail
        active := hactive
        counted := hcounted
        steps := h.steps.of_sublist (refl _) rfl rfl rfl }

/-- What the first section of `consume_payload` can do with a payload whose descriptor was
pushed: there is one in the queue where nothing has failed and nothing is owed. -/
theorem takePayload_cases (hd : s.CanDeliver) :
    (s.consumer.failure ≠ none ∧ s.consumer.policy = .raiseAtProducer ∧
      ∃ failure, s.consumer.takePayload = (.raised failure, s.consumer)) ∨
    (∃ c, s.consumer.takeUnwantedPayloadLocked = (true, c) ∧
      s.consumer.takePayload = (.discarded, c)) ∨
    (s.consumer.failure = none ∧ s.consumer.payloadsToDiscard = 0 ∧
      ∃ queued rest, s.consumer.descriptors = queued :: rest ∧
        s.consumer.takePayload = (.active queued.descriptor, { s.consumer with
          descriptors := rest, activePayloads := s.consumer.activePayloads + 1 })) := by
  unfold takePayload
  cases hfail : s.consumer.failure with
  | some failure =>
    cases hp : s.consumer.policy with
    | raiseAtProducer => exact .inl ⟨by simp, rfl, failure, rfl⟩
    | disableCapture =>
      right; left
      have htake : s.consumer.takeUnwantedPayloadLocked = (true, { s.consumer with
          discardedPayloads := s.consumer.discardedPayloads + 1 }) := by
        simp only [takeUnwantedPayloadLocked, hfail, hp]
      exact ⟨_, htake, by simp only [htake]⟩
  | none =>
    obtain ⟨hle, hqueue⟩ := h.queue hfail
    by_cases hdebt : s.consumer.payloadsToDiscard = 0
    · right; right
      have htake : s.consumer.takeUnwantedPayloadLocked = (false, s.consumer) := by
        simp only [takeUnwantedPayloadLocked, hfail, hdebt, if_true]
      cases hq : s.consumer.descriptors with
      | nil =>
        rw [hq, hdebt, Nat.add_zero] at hqueue
        have hend := drop_eq_nil_iff.mp hqueue.symm
        exact absurd hd (Nat.not_lt.mpr hend)
      | cons queued rest => exact ⟨rfl, hdebt, queued, rest, rfl, by simp only [htake, hfail]⟩
    · right; left
      have htake : s.consumer.takeUnwantedPayloadLocked = (true, { s.consumer with
          payloadsToDiscard := s.consumer.payloadsToDiscard - 1
          discardedPayloads := s.consumer.discardedPayloads + 1 }) := by
        simp only [takeUnwantedPayloadLocked, hfail, if_neg hdebt]
      exact ⟨_, htake, by simp only [htake]⟩

theorem takePayload (hd : s.CanDeliver) :
    FlowInv { s with
      consumer := s.consumer.takePayload.2
      fates := s.fates ++ [fateOf s.consumer.takePayload.1] } := by
  rcases h.takePayload_cases hd with ⟨hfail, hp, failure, ht⟩ | ⟨c, hc, ht⟩ |
    ⟨hfail, hdebt, queued, rest, hq, ht⟩
  · rw [ht]
    exact {
      own := h.own_concat fun d hd => by cases hd
      queue := fun hnone => absurd hnone hfail
      window := fun hnone => absurd hnone hfail
      active := by
        rw [countP_append, h.active]
        rfl
      counted := fun hp' => by
        rw [hp] at hp'
        cases hp'
      steps := h.steps }
  · rw [ht]
    exact h.discard hc
  · obtain ⟨hle, hqueue⟩ := h.queue hfail
    rw [hq, hdebt, Nat.add_zero] at hqueue
    -- the first descriptor of the queue has the number of the payload
    have hget : s.pushed[s.fates.length]? = some queued := by
      rw [← head?_drop, ← hqueue, head?_cons]
    have hrest : s.pushed.drop (s.fates.length + 1) = rest := by
      rw [← drop_drop, ← hqueue, drop_one, tail_cons]
    rw [ht]
    exact {
      own := h.own_concat fun d hd => by
        cases hd
        rw [hget]
        rfl
      queue := fun _ => by
        simp only [hdebt, length_append, length_singleton, Nat.add_zero]
        exact ⟨hd, hrest.symm⟩
      window := fun _ hdisc => by
        have := h.window hfail hdisc
        rw [hq] at this
        cases this
      active := by
        rw [countP_append, ← h.active]
        rfl
      counted := fun hp => by
        obtain ⟨hcount, hraised⟩ := h.counted hp
        refine ⟨?_, by simpa [fateOf] using hraised⟩
        rw [countP_append]
        exact hcount
      steps := h.steps.of_sublist (hq ▸ sublist_cons_self _ _) rfl rfl rfl }

theorem retirePayload {k : Nat} {d : RecordDescriptor ρ}
    (hk : s.fates[k]? = some (.active d)) (outcome : Except String Bool) :
    FlowInv { s with
      consumer := s.consumer.retirePayload outcome
      fates := s.fates.set k (settled d outcome) } := by
  obtain ⟨hlt, hget⟩ := List.getElem?_eq_some_iff.mp hk
  have hdescriptor : (settled d outcome).descriptor = some d := by
    rcases outcome with _ | _ | _ <;> rfl
  have hown : ∀ (k' : Nat) (f : Fate ρ) (d' : RecordDescriptor ρ),
      (s.fates.set k (settled d outcome))[k']? = some f → f.descriptor = some d' →
        s.pushed[k']?.map (·.descriptor) = some d' := by
    intro k' f d' hf hd'
    rw [getElem?_set] at hf
    split at hf
    next heq =>
      subst heq
      cases hf
      rw [hdescriptor] at hd'
      cases hd'
      exact h.own k _ d hk rfl
    next => exact h.own k' f d' hf hd'
  have hactive : (s.fates.set k (settled d outcome)).countP isActive
      = s.consumer.activePayloads - 1 := by
    have hnot : (settled d outcome).isActive = false := by
      rcases outcome with _ | _ | _ <;> rfl
    rw [countP_set hlt, hget, hnot, h.active]
    rfl
  have hlost : (s.fates.set k (settled d outcome)).countP isLost
      = s.fates.countP isLost + if (settled d outcome).isLost then 1 else 0 := by
    rw [countP_set hlt, hget]
    rfl
  have hraised : .raised ∉ s.fates → .raised ∉ s.fates.set k (settled d outcome) := by
    intro hnot hmem
    rcases mem_or_eq_of_mem_set hmem with hmem | heq
    · exact hnot hmem
    · rw [← heq] at hdescriptor
      cases hdescriptor
  cases outcome with
  | ok handed =>
    exact {
      own := hown
      queue := fun hnone => by
        simp only [length_set]
        exact h.queue hnone
      window := h.window
      active := hactive.symm
      counted := fun hp => by
        obtain ⟨hcount, hnot⟩ := h.counted hp
        refine ⟨?_, hraised hnot⟩
        rw [hlost]
        cases handed <;> exact hcount
      steps := h.steps.of_sublist (refl _) rfl rfl rfl }
  | error failure =>
    have hfail := s.consumer.latchLocked_failure failure
    obtain ⟨hpolicy, hact, hdiscarded, hstep, hlast, hcount, hsub⟩ :=
      s.consumer.latchLocked_spec failure
    exact {
      own := hown
      queue := fun hnone => absurd hnone hfail
      window := fun hnone => absurd hnone hfail
      active := by
        rw [hactive]
        exact congrArg (· - 1) hact
      counted := fun hp => by
        have hp' : s.consumer.policy = .disableCapture := hpolicy ▸ hp
        obtain ⟨hcounted, hnot⟩ := h.counted hp'
        refine ⟨?_, hraised hnot⟩
        rw [hlost]
        simp only [RecordConsumer.retirePayload, hp', hdiscarded, hcounted]
        rfl
      steps := h.steps.of_sublist hsub hstep hlast hcount }

theorem beginDiscardWindow :
    FlowInv { s with
      consumer := s.consumer.beginDiscardWindow
      lostSteps := s.lostSteps ++ s.consumer.descriptors.map (·.step) } := by
  have hkeeps : ∀ (xs : List Nat) (c : RecordConsumer ρ), ∃ last count,
      xs.foldl noteDiscardedStepLocked c
        = { c with lastDiscardedStep := last, stepsWithDiscards := count } := by
    intro xs
    induction xs with
    | nil => exact fun c => ⟨c.lastDiscardedStep, c.stepsWithDiscards, rfl⟩
    | cons x xs ih =>
      intro c
      obtain ⟨last, count, hx⟩ := c.note_keeps x
      obtain ⟨last', count', hxs⟩ := ih (c.noteDiscardedStepLocked x)
      exact ⟨last', count', by rw [foldl_cons, hxs, hx]⟩
  have hsteps := h.steps.beginDiscardWindow
  obtain ⟨last, count, hfold⟩ := hkeeps (s.consumer.descriptors.map (·.step))
    { s.consumer with discarding := true }
  unfold RecordConsumer.beginDiscardWindow at hsteps ⊢
  simp only [hfold] at hsteps ⊢
  exact {
    own := h.own
    queue := fun hnone => by
      obtain ⟨hle, hqueue⟩ := h.queue hnone
      have hlen := congrArg List.length hqueue
      rw [length_drop] at hlen
      refine ⟨?_, (drop_eq_nil_iff.mpr ?_).symm⟩ <;>
      · simp only
        omega
    window := fun _ _ => rfl
    active := h.active
    counted := h.counted
    steps := hsteps }

theorem endDiscardWindow :
    FlowInv { s with consumer := s.consumer.endDiscardWindow } :=
  { h with
    window := fun _ hd => by cases hd
    steps := h.steps.of_sublist (refl _) rfl rfl rfl }

theorem step {a : FlowAct ρ} (hs : flowStep s a = some s') : FlowInv s' := by
  cases a with (simp only [flowStep] at hs; repeat' (first | cases hs | split at hs))
  | beginStep => exact h.beginStep
  | pushDescriptor d => exact h.push [d]
  | pushDescriptors ds => exact h.push ds
  | discardNextPayloadIfUnwanted =>
    rename_i c hc
    -- discarded, or left for its consumer
    first
    | exact h.discard hc
    | exact s.consumer.takeUnwantedPayloadLocked_false hc ▸ h
  | takePayload => next hd => exact h.takePayload hd
  | retirePayload => next hk => exact h.retirePayload hk _
  | recordFailure failure => exact h.latch failure
  | beginDiscardWindow => exact h.beginDiscardWindow
  | endDiscardWindow => exact h.endDiscardWindow

end

theorem of_run {policy : RecordFailurePolicy} {hasSink : Bool} {acts : List (FlowAct ρ)}
    (hrun : Lts.run flowStep ⟨{ policy := policy, hasSink := hasSink }, [], [], []⟩ acts = some s) :
    FlowInv s :=
  Lts.run_preserves (fun h hs => h.step hs) (init policy hasSink) hrun

/-- An idle consumer has settled every payload whose descriptor was pushed. -/
theorem idle (h : FlowInv s) (hidle : s.consumer.waitUntilIdle = .ok true) :
    s.consumer.descriptors = [] ∧ s.consumer.activePayloads = 0 ∧
      s.consumer.payloadsToDiscard = 0 ∧ s.fates.length = s.pushed.length ∧
      ∀ f ∈ s.fates, f.isActive = false := by
  unfold waitUntilIdle at hidle
  split at hidle
  next => cases hidle
  next hfail =>
    simp only [Except.ok.injEq, Bool.and_eq_true, List.isEmpty_iff, beq_iff_eq] at hidle
    obtain ⟨⟨hempty, hactive⟩, hdebt⟩ := hidle
    obtain ⟨hle, hqueue⟩ := h.queue hfail
    rw [hempty, hdebt, Nat.add_zero] at hqueue
    have hend := drop_eq_nil_iff.mp hqueue.symm
    refine ⟨hempty, hactive, hdebt, by omega, fun f hf => ?_⟩
    have hzero := h.active.symm.trans hactive
    exact Bool.eq_false_iff.mpr (countP_eq_zero.mp hzero f hf)

end FlowInv

/-- **Payloads meet their own descriptors or none.** For every interleaving of pushes, deliveries,
submissions with any outcome, failures and discard windows, under both policies: a payload that is
paired at all is paired with the descriptor of its number; where a failure disables capture, the
payloads discarded are counted once each and the others are with the sink, handed over or without
rows; the steps that lost a record to a window are counted once each; and the consumer is idle only
when no descriptor, no payload and nothing owed is left. -/
theorem payloads_meet_descriptors (policy : RecordFailurePolicy) (hasSink : Bool)
    (acts : List (FlowAct ρ)) (s : RecordFlow ρ)
    (hrun : Lts.run flowStep ⟨{ policy := policy, hasSink := hasSink }, [], [], []⟩ acts
      = some s) :
    (∀ (k : Nat) (f : Fate ρ) (d : RecordDescriptor ρ), s.fates[k]? = some f →
      f.descriptor = some d → s.pushed[k]?.map (·.descriptor) = some d) ∧
    (s.consumer.policy = .disableCapture →
      s.consumer.discardedPayloads = s.fates.countP Fate.isLost ∧ .raised ∉ s.fates) ∧
    s.consumer.stepsWithDiscards = s.lostSteps.toFinset.card ∧
    (s.consumer.waitUntilIdle = .ok true →
      s.consumer.descriptors = [] ∧ s.consumer.activePayloads = 0 ∧
        s.consumer.payloadsToDiscard = 0 ∧ s.fates.length = s.pushed.length ∧
        ∀ f ∈ s.fates, f.isActive = false) := by
  have h := FlowInv.of_run hrun
  exact ⟨h.own, h.counted, h.steps.count, h.idle⟩

/-- Two steps of two records each. The first record is with the sink when a window opens, which
drops the second; the window ends with the step. -/
def skippedStep : List (FlowAct Nat) :=
  [.beginStep, .pushDescriptors [⟨"t", [0]⟩, ⟨"t", [1]⟩], .takePayload, .beginDiscardWindow,
    .retirePayload 0 ⟨true, true, true, 1, true⟩ none, .endDiscardWindow, .beginStep,
    .pushDescriptor ⟨"t", [2]⟩, .discardNextPayloadIfUnwanted, .takePayload,
    .retirePayload 2 ⟨true, true, true, 1, true⟩ none]

theorem payloads_meet_descriptors_skippedStep :
    ∃ s, Lts.run flowStep ⟨{ policy := .disableCapture, hasSink := true }, [], [], []⟩ skippedStep
        = some s ∧
      s.fates = [.handed ⟨"t", [0]⟩, .discarded, .handed ⟨"t", [2]⟩] ∧
      s.consumer.discardedPayloads = 1 ∧ s.consumer.stepsWithDiscards = 1 ∧
      s.fates.length = s.pushed.length := by
  obtain ⟨s, hs⟩ : ∃ s, Lts.run flowStep ⟨{ policy := .disableCapture, hasSink := true },
    [], [], []⟩ skippedStep = some s := ⟨_, rfl⟩
  obtain ⟨_, hcounted, hsteps, hidle⟩ := payloads_meet_descriptors _ _ skippedStep s hs
  cases hs
  exact ⟨_, rfl, rfl, (hcounted rfl).1, hsteps, (hidle rfl).2.2.2.1⟩

end Dmi.Ring
