import Dmi.Storage.Owed

/-!
# What a `flush` has drained

Cycles and `flush` calls in any order keep the books of the service (`Books`). A call that returns
true has had a cycle without a failure that leaves nothing owed. A listing that cannot open the root
of the spool is an empty one, and a pack that does not pass validation is renamed away: then a call
returns true for packs that are not uploaded.
-/

namespace Dmi.Storage

open List Service

open Proc (Meets Script Prog)

variable {strict : Prop} {cfg : Config} {s s' : Service} {ι : Type} {x : System ι}

/-- What a call of `flush` may tell: success only if all that was staged before it is done. -/
def Tells (strict : Prop) (before : List PackRef) (s' : Service) (r : Option Flushed) : Prop :=
  r = some (.returned true) → strict → before ⊆ s'.uploaded ∧ before ⊆ s'.done

theorem Inv.uploaded_done (h : Inv strict cfg [] s) (hpending : s.pendingIndex = [])
    (hrejected : s.rejectedUnreported = []) : s.uploaded ⊆ s.done := by
  intro p hp
  have hp' := h.accounted p hp
  simpa [accounts, hpending, hrejected] using hp'

theorem Inv.report (h : Inv strict cfg [] s) :
    Inv strict cfg [] { s with
      rejectedUnreported := [], reported := s.reported ++ s.rejectedUnreported } := by
  refine ⟨fun p hp => (h.accounted p hp).imp_left fun hdone => ?_, h.bound, h.kept⟩
  simp only [accounts, done, map_append, mem_append] at hdone ⊢
  tauto

theorem meets_flushTurn (hinv : Inv strict cfg [] s) :
    Meets (Sees strict) s (flushTurn cfg) fun s' r =>
      (Inv strict cfg [] s' ∧ Later s s') ∧
        ∀ told, r = .ok told → Tells strict s.history s' told := by
  refine meets_ask fun r _ => meets_ask fun r' _ => ?_
  have hstage := (Settled.stage s r.1 []).trans (.stage _ r'.1 [])
  have hinv₁ := hstage.inv hinv
  split
  · exact .pure ⟨⟨hinv₁, hstage.later⟩, by rintro told ⟨⟩ ⟨⟩⟩
  split
  · exact .pure ⟨⟨hinv₁, hstage.later⟩, by rintro told ⟨⟩ ⟨⟩⟩
  refine (meets_runCycle false hinv₁).bind ?_
    fun _ _ hend => ⟨⟨hend.1.1, hstage.later.trans hend.1.2⟩, by rintro told ⟨⟩⟩
  rintro s₂ outcome ⟨⟨hinv₂, hlater₂⟩, hdrains⟩
  have hlater := hstage.later.trans hlater₂
  refine .get ?_
  by_cases hrejected : s₂.rejectedUnreported = []
  · rw [if_neg (not_not_intro hrejected)]
    split
    next hdrained =>
      refine .pure ⟨⟨hinv₂, hlater⟩, ?_⟩
      rintro told ⟨⟩ - hstrict
      obtain ⟨-, -, hpending, hall⟩ := hdrains outcome rfl hdrained
      have hup : s.history ⊆ s₂.uploaded := fun p hp => hall hstrict (hstage.later.history hp)
      exact ⟨hup, fun p hp => hinv₂.uploaded_done hpending hrejected (hup hp)⟩
    · refine meets_ask fun r'' _ => ?_
      have hstage' := Settled.stage s₂ r''.1 []
      refine .pure ⟨⟨hstage'.inv hinv₂, hlater.trans hstage'.later⟩, ?_⟩
      rintro told ⟨⟩ htold
      split_ifs at htold
      cases htold
  · rw [if_pos hrejected]
    refine .modify (.pure ⟨⟨hinv₂.report, hlater.history, hlater.uploaded, fun p hp => ?_⟩, ?_⟩)
    · have hdone := hlater.done hp
      simp only [done, map_append, mem_append] at hdone ⊢
      tauto
    · rintro told ⟨⟩ ⟨⟩

/-! ### Runs -/

/-- The listings of the step are complete. -/
def Label.Sees (strict : Prop) : Label ι → Prop
  | .cycle oracle | .turn _ oracle => ∀ n a, Storage.Sees strict a (oracle n a)
  | _ => True

structure Books (strict : Prop) (cfg : Config) (x : System ι) : Prop where
  inv : Inv strict cfg [] x.service
  calls : ∀ i call, x.calls i = some call → call.before ⊆ x.service.history ∧
    Tells strict call.before x.service call.result

theorem Tells.later {before : List PackRef} {r : Option Flushed} (h : Tells strict before s r)
    (hlater : Later s s') : Tells strict before s' r := fun hr hstrict =>
  ⟨fun _ hp => hlater.uploaded ((h hr hstrict).1 hp), fun _ hp => hlater.done ((h hr hstrict).2 hp)⟩

namespace Books

theorem service (h : Books strict cfg x) (hinv : Inv strict cfg [] s')
    (hlater : Later x.service s') : Books strict cfg { x with service := s' } :=
  ⟨hinv, fun i call hcall => ⟨fun _ hp => hlater.history ((h.calls i call hcall).1 hp),
    (h.calls i call hcall).2.later hlater⟩⟩

theorem start (strict : Prop) (cfg : Config) (spool : List PackRef) :
    Books strict cfg (start spool : System ι) :=
  ⟨⟨fun _ hp => (not_mem_nil hp).elim, Nat.zero_le _, fun _ _ => .inl⟩, by rintro i call ⟨⟩⟩

variable [DecidableEq ι]

theorem call (h : Books strict cfg x) (i : ι) {call : Call}
    (hbefore : call.before ⊆ x.service.history)
    (htells : Tells strict call.before x.service call.result) :
    Books strict cfg { x with calls := Function.update x.calls i (some call) } := by
  refine ⟨h.inv, fun j call' hcall => ?_⟩
  dsimp only at hcall
  by_cases hj : j = i
  · subst hj
    rw [Function.update_self, Option.some.injEq] at hcall
    exact hcall ▸ ⟨hbefore, htells⟩
  · rw [Function.update_of_ne hj] at hcall
    exact h.calls j call' hcall

theorem step (h : Books strict cfg x) (label : Label ι) (hsees : label.Sees strict) :
    Books strict cfg (step cfg x label) := by
  cases label with
  | stage packs =>
    have hstage := Settled.stage x.service packs []
    exact h.service (hstage.inv h.inv) hstage.later
  | cycle oracle =>
    have hend := (meets_runCycle true h.inv).eval hsees 0
    exact h.service hend.1.1 hend.1.2
  | flush i => exact h.call i (fun _ => id) (by rintro ⟨⟩)
  | timeout i =>
    rw [Storage.step]
    split
    · next before hcall => exact h.call i (h.calls i _ hcall).1 (by rintro ⟨⟩)
    · exact h
  | turn i oracle =>
    rw [Storage.step]
    split
    · next before hcall =>
      have hend := (meets_flushTurn h.inv).eval hsees 0
      split
      · next told s' heval =>
        rw [heval] at hend
        obtain ⟨⟨hinv, hlater⟩, htold⟩ := hend
        have hbefore := (h.calls i _ hcall).1
        refine (h.service hinv hlater).call i (fun _ hp => hlater.history (hbefore hp)) ?_
        intro hr hstrict
        have htells := htold told rfl hr hstrict
        exact ⟨fun _ hp => htells.1 (hbefore hp), fun _ hp => htells.2 (hbefore hp)⟩
      · next e s' heval =>
        rw [heval] at hend
        exact h.service hend.1.1 hend.1.2
    · exact h

theorem run (strict : Prop) (cfg : Config) (spool : List PackRef) (labels : List (Label ι))
    (hsees : ∀ label ∈ labels, label.Sees strict) : Books strict cfg (run cfg spool labels) := by
  have hrun (labels : List (Label ι)) (hsees : ∀ label ∈ labels, label.Sees strict) (x : System ι)
      (h : Books strict cfg x) : Books strict cfg (labels.foldl (Storage.step cfg) x) := by
    induction labels generalizing x with
    | nil => exact h
    | cons label labels ih =>
      exact ih (fun l hl => hsees l (mem_cons_of_mem _ hl)) _
        (h.step label (hsees label mem_cons_self))
  exact hrun labels hsees _ (start strict cfg spool)

end Books

theorem sees_false (a : Act) (r : a.Res) : Sees False a r := by
  cases a with
  | listPending => exact False.elim
  | _ => trivial

theorem Label.sees_false (label : Label ι) : label.Sees False := by
  cases label with
  | cycle oracle | turn i oracle => exact fun n a => Storage.sees_false a _
  | stage packs | flush i | timeout i => trivial

variable [DecidableEq ι]

theorem answerOf_returned {outcome : Outcome} {oracle : Oracle} {n : Nat}
    (h : (answerOf outcome s).eval oracle n = (.ok (some (.returned true)), s')) :
    outcome.drained = true ∧ s = s' := by
  change Prog.eval oracle ((if s.rejectedUnreported ≠ [] then _ else if outcome.drained then _
    else _ : Method (Option Flushed)) s) n = _ at h
  split_ifs at h with hrejected hdrained
  · cases h
  · cases h
    exact ⟨hdrained, rfl⟩
  · change (Except.ok (if (oracle n .pastDeadline).2 then some _ else none), _) = _ at h
    split_ifs at h <;> cases h

/-- The service when the cycle of a call begins: packs may be staged while its flags are read. -/
def cycleStart (s : Service) (oracle : Oracle) : Service :=
  (s.stage (oracle 0 .failed).1).stage (oracle 1 .stopping).1

/-- The cycle behind a call that returns true. -/
theorem flushTurn_returned (hinv : Inv False cfg [] s) {oracle : Oracle}
    (h : (flushTurn cfg s).eval oracle 0 = (.ok (some (.returned true)), s')) :
    ∃ outcome, (runCycle cfg false (cycleStart s oracle)).eval oracle 2 = (.ok outcome, s') ∧
      outcome.failed = false ∧ outcome.cutShort = false ∧ s'.pendingIndex = [] := by
  have hinv₁ : Inv False cfg [] (cycleStart s oracle) :=
    ((Settled.stage s _ []).trans (.stage _ _ [])).inv hinv
  change Prog.eval oracle ((if (oracle 0 .failed).2 then pure (some (.threw []))
    else if (oracle 1 .stopping).2 then pure (some (.returned false))
    else runCycle cfg false >>= answerOf : Method (Option Flushed)) (cycleStart s oracle)) 2 =
      _ at h
  split_ifs at h
  · cases h
  · cases h
  · obtain ⟨outcome, s₂, k, hcycle, hanswer⟩ := Proc.Script.eval_bind_ok h
    have hend := (meets_runCycle false hinv₁).eval (fun n a => sees_false a (oracle n a)) 2
    rw [hcycle] at hend
    obtain ⟨hdrained, rfl⟩ := answerOf_returned hanswer
    obtain ⟨hfailed, hcut, hpending, -⟩ := hend.2 outcome rfl hdrained
    exact ⟨outcome, hcycle, hfailed, hcut, hpending⟩

def demoConfig : Config := ⟨4, 2, 3, false⟩

def demoPack : PackRef := ⟨[1], [2]⟩

/-- The store and the catalog do what they are asked to; the root can be opened or not. -/
def demoOracle (opens : Bool) : Oracle := fun _ a =>
  ([], match a with
    | .listPending => ⟨opens, false, []⟩
    | .upload _ => some fun _ => .uploaded
    | .index _ => .done []
    | .lease | .heldLease => true
    | .scanSiblings | .continueRecovery => none
    | .sliceSteps | .pages => (0 : Nat)
    | .beginAdoption _ => .gone
    | .page => .cut
    | .stopping | .cancelled | .readCancelled | .pastDeadline | .scanDue | .stopRequested
    | .flushWaiting | .sliceOver | .finishAdoption | .reconcileDue | .failed => false)

def demoLabels (opens : Bool) : List (Label Unit) := [.flush (), .turn () (demoOracle opens)]

/-- A pack is staged before the call and one after it has begun; a cycle of the loop comes first. -/
def busyLabels : List (Label Unit) :=
  [.stage [⟨[3], [4]⟩], .flush (), .cycle (demoOracle true), .stage [⟨[5], [6]⟩],
    .turn () (demoOracle true)]

end Dmi.Storage
