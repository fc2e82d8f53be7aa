import Dmi.P2PThread.PostProcessing

/-!
# Every tensor is delivered in the context of its own step

The steps are pushed with their entries, the last of which closes the step; the tensors come in the
order of the entries.  Between two tensors the worker is either between two steps or within one,
and then it holds that step's context (`Place`).  Whatever a tensor comes to, one of its paths gives
the context up exactly if the tensor was the last of its step (`doPostProcessing_eq`), unless an
exception has ended the worker.
-/

namespace Dmi.P2PThread

open List Prod P2P

variable {κ : Type} (cfg : P2PConfig) (elementSize : Nat → Nat)

/-! ### One tensor -/

/-- The deliveries of a tensor in the context of a step. -/
def deliveriesIn (ctx : StepContext κ) (stepSeq : Nat) (md : TensorMeta) (task : DrainTask) :
    List (Delivery κ) :=
  (P2P.doPostProcessing cfg elementSize
    { metas := [md], currentCtx := some ctx, stepSeq := stepSeq } task fun _ => false).2

theorem P2P.retire_submitExceptions (s : P2P κ) (md : TensorMeta) (n : Nat) :
    retire { s with submitExceptions := n } md
      = { s.retire md with submitExceptions := n } := by
  unfold retire
  split <;> rfl

/-- All that a tensor changes once its context is there: the context is given up at the end of the
step, the consumer's exceptions are counted, or the worker ends. -/
theorem P2P.doPostProcessing_eq {s s₁ : P2P κ} {md : TensorMeta} {metas : List TensorMeta}
    {ctx : StepContext κ} (hmetas : s.metas = md :: metas)
    (hctx : acquire { s with metas := metas } = some (ctx, s₁)) (task : DrainTask)
    (throws : Delivery κ → Bool) :
    (s.doPostProcessing cfg elementSize task throws).2
        = deliveriesIn cfg elementSize ctx s₁.stepSeq md task ∧
      ∃ n, (s.doPostProcessing cfg elementSize task throws).1
          = { s₁.retire md with submitExceptions := n } ∨
        (s.doPostProcessing cfg elementSize task throws).1
          = { s₁ with submitExceptions := n, stopped := true } := by
  unfold deliveriesIn doPostProcessing
  rw [hmetas]
  dsimp only
  rw [hctx]
  dsimp only [acquire]
  split
  next => exact ⟨rfl, s₁.submitExceptions, .inl (by unfold retire; split <;> rfl)⟩
  split
  next => exact ⟨rfl, s₁.submitExceptions, .inl (by unfold retire; split <;> rfl)⟩
  split
  next => exact ⟨rfl, s₁.submitExceptions, .inl (by unfold retire; split <;> rfl)⟩
  split
  next => exact ⟨rfl, _, .inl (retire_submitExceptions s₁ md _)⟩
  next =>
    split
    next => exact ⟨rfl, _, .inl (retire_submitExceptions s₁ md _)⟩
    next => exact ⟨rfl, _, .inr rfl⟩

/-! ### Runs -/

/-- The worker with its history: the steps pushed, the contexts taken from their queue, and the
tasks that met an entry, with what was delivered. -/
structure P2PRun (κ : Type) where
  worker : P2P κ := {}
  steps : List (StepContext κ × List TensorMeta) := []
  popped : List (StepContext κ) := []
  handled : List (DrainTask × List (Delivery κ)) := []

inductive P2PAct (κ : Type) where
  | pushStep (ctx : StepContext κ) (metas : List TensorMeta)
  | process (task : DrainTask) (throws : Delivery κ → Bool)

/-- The entries of a step end in the only one that closes it. -/
def WellEnded (metas : List TensorMeta) : Prop :=
  metas.getLast?.any (·.lastInStep) = true ∧ ∀ m ∈ metas.dropLast, m.lastInStep = false

instance (metas : List TensorMeta) : Decidable (WellEnded metas) :=
  inferInstanceAs (Decidable (_ ∧ _))

/-- A step is pushed, or the next drained task is processed. -/
def p2pStep (r : P2PRun κ) : P2PAct κ → Option (P2PRun κ)
  | .pushStep ctx metas =>
    if WellEnded metas then
      some { r with worker := r.worker.pushStep ctx metas, steps := r.steps ++ [(ctx, metas)] }
    else none
  | .process task throws =>
    if r.worker.stopped then none
    else
      let (worker, deliveries) := r.worker.doPostProcessing cfg elementSize task throws
      some { r with
        worker := worker
        popped := r.popped ++
          r.worker.contexts.take (r.worker.contexts.length - worker.contexts.length)
        handled :=
          if r.worker.metas = [] then r.handled else r.handled ++ [(task, deliveries)] }

/-- The tensors of the steps, each with the number and the context of its step. -/
def tensorsFrom (seq : Nat) : List (StepContext κ × List TensorMeta) →
    List (Nat × StepContext κ × TensorMeta)
  | [] => []
  | (ctx, metas) :: rest => metas.map (fun md => (seq, ctx, md)) ++ tensorsFrom (seq + 1) rest

theorem tensorsFrom_append (seq : Nat) (xs ys : List (StepContext κ × List TensorMeta)) :
    tensorsFrom seq (xs ++ ys) = tensorsFrom seq xs ++ tensorsFrom (seq + xs.length) ys := by
  induction xs generalizing seq with
  | nil => rfl
  | cons step xs ih =>
    rw [cons_append, tensorsFrom, tensorsFrom, ih, append_assoc, length_cons,
      Nat.add_assoc, Nat.add_comm 1]

theorem length_tensorsFrom (seq : Nat) (xs : List (StepContext κ × List TensorMeta)) :
    (tensorsFrom seq xs).length = (xs.flatMap snd).length := by
  induction xs generalizing seq with
  | nil => rfl
  | cons step xs ih =>
    rw [tensorsFrom, length_append, length_map, ih, flatMap_cons, length_append]

theorem WellEnded.closes_iff {pre ms : List TensorMeta} {md : TensorMeta}
    (h : WellEnded (pre ++ md :: ms)) : md.lastInStep = true ↔ ms = [] := by
  constructor
  · intro hlast
    by_contra hne
    have hmem : md ∈ (pre ++ md :: ms).dropLast := by
      rw [dropLast_append_of_ne_nil (cons_ne_nil _ _), dropLast_cons_of_ne_nil hne]
      exact mem_append_right _ mem_cons_self
    rw [h.2 md hmem] at hlast
    cases hlast
  · rintro rfl
    have hany := h.1
    rw [getLast?_append, getLast?_singleton, Option.some_or] at hany
    exact hany

/-! ### Where the worker is -/

/-- The steps done with, and those still to come. -/
structure Between (r : P2PRun κ) (done rest : List (StepContext κ × List TensorMeta)) : Prop where
  steps : r.steps = done ++ rest
  holds : r.worker.currentCtx = none
  metas : r.worker.metas = rest.flatMap Prod.snd
  contexts : r.worker.contexts = rest.map Prod.fst
  popped : r.popped = done.map Prod.fst
  seq : r.worker.stepSeq = done.length
  handled : r.handled.length = (done.flatMap Prod.snd).length

/-- Within the step of `ctx`, of which the tensors `pre` were handled and `post` are to come. -/
structure Within (r : P2PRun κ) (done : List (StepContext κ × List TensorMeta))
    (ctx : StepContext κ) (pre post : List TensorMeta)
    (rest : List (StepContext κ × List TensorMeta)) : Prop where
  steps : r.steps = done ++ (ctx, pre ++ post) :: rest
  unfinished : post ≠ []
  holds : r.worker.currentCtx = some ctx
  metas : r.worker.metas = post ++ rest.flatMap Prod.snd
  contexts : r.worker.contexts = rest.map Prod.fst
  popped : r.popped = done.map Prod.fst ++ [ctx]
  seq : r.worker.stepSeq = done.length + 1
  handled : r.handled.length = (done.flatMap Prod.snd).length + pre.length

def Place (r : P2PRun κ) : Prop :=
  (∃ done rest, Between r done rest) ∨ ∃ done ctx pre post rest, Within r done ctx pre post rest

structure P2PInv (r : P2PRun κ) : Prop where
  ended : ∀ step ∈ r.steps, WellEnded step.2
  own : ∀ (j : Nat) (task : DrainTask) (deliveries : List (Delivery κ)),
    r.handled[j]? = some (task, deliveries) →
      ∃ seq ctx md, (tensorsFrom 1 r.steps)[j]? = some (seq, ctx, md) ∧
        deliveries = deliveriesIn cfg elementSize ctx seq md task
  once : r.popped <+: r.steps.map Prod.fst
  place : r.worker.stopped = false → Place r

namespace P2PInv

variable {cfg elementSize} {r r' : P2PRun κ}

theorem init : P2PInv cfg elementSize ({} : P2PRun κ) where
  ended := fun _ h => absurd h not_mem_nil
  own := fun j task deliveries h => by simp at h
  once := prefix_rfl
  place := fun _ => .inl ⟨[], [], rfl, rfl, rfl, rfl, rfl, rfl, rfl⟩

section

variable (h : P2PInv cfg elementSize r)
include h

theorem pushStep (ctx : StepContext κ) {metas : List TensorMeta} (hended : WellEnded metas) :
    P2PInv cfg elementSize { r with
      worker := r.worker.pushStep ctx metas, steps := r.steps ++ [(ctx, metas)] } where
  ended := fun step hstep => by
    rcases List.mem_append.mp hstep with hstep | hstep
    · exact h.ended step hstep
    · rw [List.mem_singleton.mp hstep]
      exact hended
  own := fun j task deliveries hj => by
    obtain ⟨seq, c, md, hget, hds⟩ := h.own j task deliveries hj
    refine ⟨seq, c, md, ?_, hds⟩
    rw [tensorsFrom_append, List.getElem?_append_left (List.getElem?_eq_some_iff.mp hget).1]
    exact hget
  once := by
    rw [map_append]
    exact h.once.trans (prefix_append _ _)
  place := fun hstop => by
    rcases h.place hstop with ⟨done, rest, hb⟩ | ⟨done, c, pre, post, rest, hw⟩
    · refine .inl ⟨done, rest ++ [(ctx, metas)],
        { hb with steps := ?_, metas := ?_, contexts := ?_ }⟩
      · rw [← append_assoc, ← hb.steps]
      · rw [flatMap_append, ← hb.metas, flatMap_singleton]
        rfl
      · rw [map_append, ← hb.contexts]
        rfl
    · refine .inr ⟨done, c, pre, post, rest ++ [(ctx, metas)],
        { hw with steps := ?_, metas := ?_, contexts := ?_ }⟩
      · rw [← cons_append, ← append_assoc, ← hw.steps]
      · rw [flatMap_append, ← append_assoc, ← hw.metas, flatMap_singleton]
        rfl
      · rw [map_append, ← hw.contexts]
        rfl

/-- The tensor `md` is handled in the step of `ctx`, whose context the worker has taken: `s₁` is
the worker before the delivery, `s₂` after it. -/
theorem handle {done rest : List (StepContext κ × List TensorMeta)}
    {ctx : StepContext κ} {pre ms : List TensorMeta} {md : TensorMeta} {s₁ s₂ : P2P κ}
    {task : DrainTask} {n : Nat} (hsteps : r.steps = done ++ (ctx, pre ++ md :: ms) :: rest)
    (hholds : s₁.currentCtx = some ctx) (hmetas : s₁.metas = ms ++ rest.flatMap snd)
    (hcontexts : s₁.contexts = rest.map fst) (hseq : s₁.stepSeq = done.length + 1)
    (hhandled : r.handled.length = (done.flatMap snd).length + pre.length)
    (hs₂ : s₂ = { s₁.retire md with submitExceptions := n } ∨
      s₂ = { s₁ with submitExceptions := n, stopped := true }) :
    P2PInv cfg elementSize { r with
      worker := s₂
      popped := done.map fst ++ [ctx]
      handled := r.handled ++ [(task, deliveriesIn cfg elementSize ctx s₁.stepSeq md task)] } := by
  have hclose := (h.ended (ctx, pre ++ md :: ms)
    (hsteps ▸ mem_append_right _ mem_cons_self)).closes_iff
  have hget : (tensorsFrom 1 r.steps)[r.handled.length]? = some (s₁.stepSeq, ctx, md) := by
    rw [hsteps, tensorsFrom_append, hhandled, ← length_tensorsFrom 1,
      getElem?_append_right (Nat.le_add_right _ _), Nat.add_sub_cancel_left, tensorsFrom,
      hseq, Nat.add_comm 1]
    simp
  refine { ended := h.ended, own := ?_, once := ?_, place := ?_ }
  · intro j task' deliveries hj
    rcases Nat.lt_or_ge j r.handled.length with hlt | hge
    · rw [getElem?_append_left hlt] at hj
      exact h.own j task' deliveries hj
    · obtain rfl : j = r.handled.length := by
        have := (List.getElem?_eq_some_iff.mp hj).1
        rw [length_append, length_singleton] at this
        omega
      rw [getElem?_concat_length] at hj
      cases hj
      exact ⟨_, ctx, md, hget, rfl⟩
  · refine ⟨rest.map fst, ?_⟩
    rw [hsteps, map_append, map_cons, append_assoc, singleton_append]
  · intro hstop
    rcases hs₂ with rfl | rfl
    · unfold retire at *
      by_cases hlast : md.lastInStep = true
      · -- the step is done
        obtain rfl := hclose.mp hlast
        rw [if_pos hlast]
        refine .inl ⟨done ++ [(ctx, pre ++ [md])], rest, ?_⟩
        exact {
          steps := by rw [hsteps, append_assoc, singleton_append]
          holds := rfl
          metas := hmetas
          contexts := hcontexts
          popped := by rw [map_append]; rfl
          seq := by rw [length_append]; exact hseq
          handled := by
            rw [length_append, hhandled, flatMap_append, flatMap_singleton,
              length_append, length_append]
            rfl }
      · rw [if_neg hlast]
        refine .inr ⟨done, ctx, pre ++ [md], ms, rest, ?_⟩
        exact {
          steps := by rw [hsteps, append_assoc, singleton_append]
          unfinished := fun hnil => hlast (hclose.mpr hnil)
          holds := hholds
          metas := hmetas
          contexts := hcontexts
          popped := rfl
          seq := hseq
          handled := by
            rw [length_append, hhandled, length_append]
            rfl }
    · cases hstop

/-- One task that meets the entry `md`, in terms of the worker `s₁` that has the context. -/
theorem process_tensor {done rest : List (StepContext κ × List TensorMeta)} {ctx : StepContext κ}
    {pre ms metas : List TensorMeta} {md : TensorMeta} {s₁ : P2P κ}
    (hsteps : r.steps = done ++ (ctx, pre ++ md :: ms) :: rest)
    (hmetas : r.worker.metas = md :: metas)
    (hacquire : acquire { r.worker with metas := metas } = some (ctx, s₁))
    (hholds : s₁.currentCtx = some ctx) (hmetas₁ : s₁.metas = ms ++ rest.flatMap snd)
    (hcontexts : s₁.contexts = rest.map fst) (hseq : s₁.stepSeq = done.length + 1)
    (hhandled : r.handled.length = (done.flatMap snd).length + pre.length)
    (hpopped : r.popped ++ r.worker.contexts.take (r.worker.contexts.length - s₁.contexts.length)
      = done.map fst ++ [ctx])
    (task : DrainTask) (throws : Delivery κ → Bool) :
    P2PInv cfg elementSize { r with
      worker := (r.worker.doPostProcessing cfg elementSize task throws).1
      popped := r.popped ++ r.worker.contexts.take (r.worker.contexts.length -
        (r.worker.doPostProcessing cfg elementSize task throws).1.contexts.length)
      handled := if r.worker.metas = [] then r.handled
        else r.handled ++
          [(task, (r.worker.doPostProcessing cfg elementSize task throws).2)] } := by
  obtain ⟨hds, n, hworker⟩ := doPostProcessing_eq cfg elementSize hmetas hacquire task throws
  have hafter : (r.worker.doPostProcessing cfg elementSize task throws).1.contexts
      = s₁.contexts := by
    rcases hworker with hworker | hworker
    · rw [hworker]
      unfold retire
      split <;> rfl
    · rw [hworker]
  rw [hafter, hpopped, if_neg (by rw [hmetas]; exact cons_ne_nil _ _), hds]
  exact h.handle hsteps hholds hmetas₁ hcontexts hseq hhandled hworker

theorem process {task : DrainTask} {throws : Delivery κ → Bool}
    (hr : p2pStep cfg elementSize r (.process task throws) = some r') :
    P2PInv cfg elementSize r' := by
  simp only [p2pStep] at hr
  split at hr
  next => cases hr
  next hrunning =>
    cases hr
    rcases h.place (Bool.eq_false_iff.mpr hrunning) with ⟨done, rest, hb⟩ |
      ⟨done, ctx, pre, post, rest, hw⟩
    · cases rest with
      | nil =>
        -- no entry is left for the task
        have hnil : r.worker.metas = [] := hb.metas
        have hsame : r.worker.doPostProcessing cfg elementSize task throws = (r.worker, []) := by
          unfold doPostProcessing
          rw [hnil]
        rw [hsame]
        simp only [Nat.sub_self, take_zero, append_nil, hnil, if_true]
        exact h
      | cons step rest =>
        -- the first tensor of a step takes the next context
        obtain ⟨ctx, metas⟩ := step
        obtain ⟨md, ms, rfl⟩ : ∃ md ms, metas = md :: ms := by
          have hended := h.ended (ctx, metas)
            (hb.steps ▸ mem_append_right _ mem_cons_self)
          cases metas with
          | nil => exact absurd hended.1 (by simp)
          | cons md ms => exact ⟨md, ms, rfl⟩
        have hcontexts : r.worker.contexts = ctx :: rest.map fst := hb.contexts
        have hacquire : acquire { r.worker with metas := ms ++ rest.flatMap snd }
            = some (ctx, { r.worker with
                metas := ms ++ rest.flatMap snd
                contexts := rest.map fst
                currentCtx := some ctx
                stepSeq := r.worker.stepSeq + 1 }) := by
          unfold acquire
          simp only [hb.holds, hcontexts]
        have hpopped : r.popped ++ r.worker.contexts.take
            (r.worker.contexts.length - (rest.map fst).length)
              = done.map fst ++ [ctx] := by
          rw [hcontexts, length_cons, Nat.add_sub_cancel_left, hb.popped]
          rfl
        exact h.process_tensor (show r.steps = done ++ (ctx, [] ++ md :: ms) :: rest from hb.steps)
          hb.metas hacquire rfl rfl rfl (congrArg (· + 1) hb.seq) hb.handled hpopped task throws
    · -- within a step the context is there
      obtain ⟨md, ms, rfl⟩ : ∃ md ms, post = md :: ms := exists_cons_of_ne_nil hw.unfinished
      have hacquire : acquire { r.worker with metas := ms ++ rest.flatMap snd }
          = some (ctx, { r.worker with metas := ms ++ rest.flatMap snd }) := by
        unfold acquire
        simp only [hw.holds]
      have hpopped : r.popped ++ r.worker.contexts.take
          (r.worker.contexts.length - r.worker.contexts.length) = done.map fst ++ [ctx] := by
        rw [Nat.sub_self, take_zero, append_nil, hw.popped]
      exact h.process_tensor hw.steps hw.metas hacquire hw.holds rfl hw.contexts hw.seq hw.handled
        hpopped task throws

end

theorem of_run {acts : List (P2PAct κ)}
    (hrun : Lts.run (p2pStep cfg elementSize) {} acts = some r) : P2PInv cfg elementSize r :=
  Lts.run_preserves (fun {s a s'} h hs => by
    cases a with
    | pushStep ctx metas =>
      simp only [p2pStep] at hs
      split at hs
      next hended =>
        cases hs
        exact h.pushStep ctx hended
      next => cases hs
    | process task throws => exact h.process hs) init hrun

/-- A worker that runs and has no entry left is done with every step. -/
theorem drained (h : P2PInv cfg elementSize r) (hrunning : r.worker.stopped = false)
    (hmetas : r.worker.metas = []) :
    r.popped = r.steps.map fst ∧ r.worker.contexts = [] ∧ r.worker.currentCtx = none := by
  rcases h.place hrunning with ⟨done, rest, hb⟩ | ⟨done, ctx, pre, post, rest, hw⟩
  · have hrest : rest = [] := by
      cases rest with
      | nil => rfl
      | cons step rest =>
        have hended := h.ended step (hb.steps ▸ mem_append_right _ mem_cons_self)
        have hnil := hb.metas.symm.trans hmetas
        rw [flatMap_cons, append_eq_nil_iff] at hnil
        rw [hnil.1] at hended
        exact absurd hended.1 (by simp)
    subst hrest
    refine ⟨?_, hb.contexts, hb.holds⟩
    rw [hb.steps, append_nil, hb.popped]
  · have hnil := hw.metas.symm.trans hmetas
    exact absurd (append_eq_nil_iff.mp hnil).1 hw.unfinished

end P2PInv

/-- **Every tensor is delivered in the context of its own step.** For every sequence of pushed
steps and drained tasks, in any interleaving: the `j`-th task that meets an entry is delivered as
the `j`-th tensor of the steps, with the context and the number of the step of that tensor; the
contexts are taken from their queue once each, in order; and a worker that was not ended by an
exception has taken all of them when no entry is left. -/
theorem tensors_keep_their_context (acts : List (P2PAct κ)) (r : P2PRun κ)
    (hrun : Lts.run (p2pStep cfg elementSize) {} acts = some r) :
    (∀ (j : Nat) (task : DrainTask) (deliveries : List (Delivery κ)),
      r.handled[j]? = some (task, deliveries) →
        ∃ seq ctx md, (tensorsFrom 1 r.steps)[j]? = some (seq, ctx, md) ∧
          deliveries = deliveriesIn cfg elementSize ctx seq md task) ∧
    r.popped <+: r.steps.map Prod.fst ∧
    (r.worker.stopped = false → r.worker.metas = [] →
      r.popped = r.steps.map Prod.fst ∧ r.worker.contexts = [] ∧ r.worker.currentCtx = none) := by
  have h := P2PInv.of_run hrun
  exact ⟨h.own, h.once, h.drained⟩

/-- Two steps of two tensors each, of two bytes an element. The second tensor of the first step is
empty, and the consumer throws at the first of the second step. -/
def twoSteps : List (P2PAct Nat) :=
  let metas : List TensorMeta :=
    [{ hookType := 0, shape := [2, 3], dtype := 0 },
      { hookType := 1, shape := [2, 3], dtype := 0, lastInStep := true }]
  [.pushStep ⟨7, "m", 0, [⟨"a", 0, 2, 0, 0, -1⟩], true⟩ metas, .process ⟨12, 0⟩ fun _ => false,
    .pushStep ⟨8, "m", 0, [⟨"a", 2, 4, 0, 0, -1⟩], true⟩ metas, .process ⟨0, 1⟩ fun _ => false,
    .process ⟨12, 2⟩ fun _ => true, .process ⟨12, 3⟩ fun _ => false]

theorem tensors_keep_their_context_twoSteps :
    ∃ r, Lts.run (p2pStep ⟨true, false, false⟩ fun _ => 2) {} twoSteps = some r ∧
      r.handled.map (fun p => p.2.map (·.captureLease)) = [[7], [], [8], [8]] ∧
      r.popped.map (·.captureLease) = [7, 8] := by
  obtain ⟨r, hr⟩ : ∃ r, Lts.run (p2pStep ⟨true, false, false⟩ fun _ => 2) {} twoSteps = some r :=
    ⟨_, rfl⟩
  obtain ⟨_, _, hall⟩ := tensors_keep_their_context ⟨true, false, false⟩ (fun _ => 2) twoSteps r hr
  cases hr
  refine ⟨_, rfl, by decide, ?_⟩
  rw [(hall rfl rfl).1]
  decide

end Dmi.P2PThread
