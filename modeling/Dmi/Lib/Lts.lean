import Mathlib.Data.Option.Basic

/-!
# Runs of a labelled step function

A system is a step function `step : S → A → Option S`: what the action `a` does in the
state `s`, if it is possible there.  `run` takes a list of actions; `Along` says that a
condition holds of every action of a run in the state that it finds.

`run_invariant` is the induction over runs: what the first state has and every step
keeps, under the condition, holds in the state that a run ends in.  Every state of a run is
the end of a run (`run_append`), so this speaks about all of them.
-/

namespace Dmi.Lts

variable {S A : Type*} {step : S → A → Option S} {Ok : S → A → Prop}

/-- The state after a list of actions. -/
def run (step : S → A → Option S) (s : S) : List A → Option S
  | [] => some s
  | a :: as => (step s a).bind fun s' => run step s' as

/-- Every action of the run from `s` meets the condition in the state it finds. -/
def Along (step : S → A → Option S) (Ok : S → A → Prop) (s : S) : List A → Prop
  | [] => True
  | a :: as => Ok s a ∧ ∀ s' ∈ step s a, Along step Ok s' as

instance Along.decidable [∀ s a, Decidable (Ok s a)] :
    ∀ (s : S) (as : List A), Decidable (Along step Ok s as)
  | _, [] => isTrue trivial
  | s, a :: as =>
    match hs : step s a with
    | none => decidable_of_iff (Ok s a) (by simp [Along, hs])
    | some s' =>
      have := Along.decidable s' as
      decidable_of_iff (Ok s a ∧ Along step Ok s' as) (by simp [Along, hs])

@[simp] theorem run_nil (s : S) : run step s [] = some s := rfl

variable {as : List A}

theorem run_cons {s t : S} {a : A} :
    run step s (a :: as) = some t ↔ ∃ s', step s a = some s' ∧ run step s' as = some t := by
  rw [run, Option.bind_eq_some_iff]

theorem Along.and {Ok' : S → A → Prop} {s : S} (h : Along step Ok s as)
    (h' : Along step Ok' s as) : Along step (fun s a => Ok s a ∧ Ok' s a) s as := by
  induction as generalizing s with
  | nil => trivial
  | cons a as ih => exact ⟨⟨h.1, h'.1⟩, fun s' hs' => ih (h.2 s' hs') (h'.2 s' hs')⟩

/-- **The induction over runs.** -/
theorem run_invariant {Inv : S → Prop}
    (hstep : ∀ {s a s'}, Inv s → Ok s a → step s a = some s' → Inv s') {s t : S} (hs : Inv s)
    (hok : Along step Ok s as)
    (hrun : run step s as = some t) : Inv t := by
  induction as generalizing s with
  | nil =>
    rw [run_nil, Option.some.injEq] at hrun
    exact hrun ▸ hs
  | cons a as ih =>
    obtain ⟨s', hs', hrest⟩ := run_cons.mp hrun
    exact ih (hstep hs hok.1 hs') (hok.2 s' hs') hrest

/-- The induction over runs of a system whose every step keeps the invariant. -/
theorem run_preserves {Inv : S → Prop} (hstep : ∀ {s a s'}, Inv s → step s a = some s' → Inv s')
    {s t : S} (hs : Inv s) (hrun : run step s as = some t) : Inv t := by
  have halways : ∀ (as : List A) (s : S), Along step (fun _ _ => True) s as := by
    intro as
    induction as with
    | nil => exact fun _ => trivial
    | cons a as ih => exact fun s => ⟨trivial, fun s' _ => ih s'⟩
  exact run_invariant (fun h _ hs => hstep h hs) hs (halways as s) hrun

/-- A run that can be evaluated, and what holds at its end. -/
theorem exists_of_run {Q : S → Prop} [DecidablePred Q] {s : S}
    (h : (run step s as).any (fun t => decide (Q t)) = true) :
    ∃ t, run step s as = some t ∧ Q t := by
  obtain ⟨t, hrun, ht⟩ := (Option.any_eq_true _ _).mp h
  exact ⟨t, hrun, of_decide_eq_true ht⟩

end Dmi.Lts
