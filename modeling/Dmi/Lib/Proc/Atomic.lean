import Dmi.Lib.Lts
import Dmi.Lib.Proc.Prog
import Mathlib.Logic.Function.Basic

/-!
# Programs whose acts are atomic, interleaved

A family of programs shares a world. One step lets one program perform its next act: the act's
effect on the world and its answer come at once, resolved by a choice of the environment. A
program that is never scheduled again has crashed, or is slow.

`run_tracks` is the invariant rule. If every program obeys a protocol of its own, and an invariant
of the world and the protocol states is kept by every act that the protocols allow, then the
invariant holds after every run, for protocol states from which the programs go on obeying.
-/

namespace Dmi.Proc

open Function

variable {ι Act : Type} {Res : Act → Type} {W Choice A α : Type}

instance {L : Type} : Monad (Prog Act Res L) where
  pure := Prog.ret
  bind := Prog.bind

/-- Perform an act; the program goes on with the answer. -/
def Prog.perform {L : Type} (a : Act) : Prog Act Res L (Res a) := .act a .ret

/-- A protocol that only follows the acts and their answers. -/
def Protocol.following (init : A) (allowed : A → Act → Prop) (next : A → (a : Act) → Res a → A) :
    Protocol Act Res Empty A where
  init := init
  allowed := allowed
  start s _ := s
  finish := next
  reset := id
  fits _ _ := True
  later _ _ := True
  later_refl _ := trivial
  later_trans _ _ := trivial
  later_start _ _ := trivial
  later_finish _ _ _ := trivial

theorem Obeys.perform {P : Protocol Act Res Empty A} {s : A} {a : Act} {Q : A → Res a → Prop}
    (ha : P.allowed s a) (h : ∀ r, Q (P.finish (P.start s a) a r) r) :
    Obeys P s (Prog.perform a) Q :=
  ⟨ha, h⟩

/-! ### One program alone -/

/-- Some answers take the program in world `w` to another in world `w'`. -/
inductive Prog.Steps (perform : W → (a : Act) → Choice → Option (Res a × W)) :
    W → Prog Act Res Empty α → W → Prog Act Res Empty α → Prop
  | refl {w : W} {p : Prog Act Res Empty α} : Steps perform w p w p
  | act {w w' w'' : W} {a : Act} {k : Res a → Prog Act Res Empty α} {r : Res a}
      {p : Prog Act Res Empty α} (choice : Choice) (h : perform w a choice = some (r, w'))
      (hrest : Steps perform w' (k r) w'' p) : Steps perform w (.act a k) w'' p

namespace Prog.Steps

variable {β : Type} {perform : W → (a : Act) → Choice → Option (Res a × W)} {w w' w'' : W}

theorem trans {p q r : Prog Act Res Empty α} (h : Steps perform w p w' q)
    (h' : Steps perform w' q w'' r) : Steps perform w p w'' r := by
  induction h with
  | refl => exact h'
  | act choice hperform _ ih => exact .act choice hperform (ih h')

theorem bind {p q : Prog Act Res Empty α} (h : Steps perform w p w' q)
    (f : α → Prog Act Res Empty β) : Steps perform w (p >>= f) w' (q >>= f) := by
  induction h with
  | refl => exact .refl
  | act choice hperform _ ih => exact .act choice hperform ih

theorem seq {p : Prog Act Res Empty α} {x : α} {f : α → Prog Act Res Empty β}
    {q : Prog Act Res Empty β} (h : Steps perform w p w' (pure x))
    (h' : Steps perform w' (f x) w'' q) : Steps perform w (p >>= f) w'' q :=
  (h.bind f).trans h'

end Prog.Steps

/-! ### Interleaved programs -/

/-- The world and what is left of each program. -/
structure Pool (ι Act : Type) (Res : Act → Type) (W α : Type) where
  world : W
  prog : ι → Prog Act Res Empty α

namespace Pool

variable [DecidableEq ι] (perform : ι → W → (a : Act) → Choice → Option (Res a × W))

/-- Program `i` performs its next act. -/
def step (s : Pool ι Act Res W α) : ι × Choice → Option (Pool ι Act Res W α)
  | (i, choice) =>
    match s.prog i with
    | .act a k =>
      (perform i s.world a choice).map fun x => ⟨x.2, update s.prog i (k x.1)⟩
    | _ => none

variable {perform} {s s' : Pool ι Act Res W α}

theorem step_eq_some {i : ι} {choice : Choice} (h : step perform s (i, choice) = some s') :
    ∃ a k r w, s.prog i = .act a k ∧ perform i s.world a choice = some (r, w) ∧
      s' = ⟨w, update s.prog i (k r)⟩ := by
  simp only [step] at h
  cases hprog : s.prog i with
  | ret x =>
    rw [hprog] at h
    cases h
  | yield l _ => exact l.elim
  | act a k =>
    rw [hprog] at h
    obtain ⟨⟨r, w⟩, hperform, rfl⟩ := Option.map_eq_some_iff.mp h
    exact ⟨a, k, r, w, rfl, hperform, rfl⟩

/-- What a program can do alone is a run. -/
theorem exists_run_of_steps {i : ι} {p q : Prog Act Res Empty α} {w w' : W}
    (h : Prog.Steps (perform i) w p w' q) (hworld : s.world = w) (hprog : s.prog i = p) :
    ∃ labels, Lts.run (step perform) s labels = some ⟨w', update s.prog i q⟩ := by
  induction h generalizing s with
  | refl =>
    refine ⟨[], ?_⟩
    rw [← hprog, update_eq_self, ← hworld]
    rfl
  | @act _ w₁ _ a k r _ choice hperform _ ih =>
    have hstep : step perform s (i, choice) = some ⟨w₁, update s.prog i (k r)⟩ := by
      simp only [step, hprog, hworld, hperform, Option.map_some]
    obtain ⟨labels, hrun⟩ := ih (s := ⟨w₁, update s.prog i (k r)⟩) rfl (update_self ..)
    refine ⟨(i, choice) :: labels, Lts.run_cons.mpr ⟨_, hstep, hrun.trans ?_⟩⟩
    rw [update_idem]

/-- The programs go on as the protocol states allow, and the invariant holds of these and of the
world. -/
def Tracked (P : ι → Protocol Act Res Empty A) (Q : ι → A → α → Prop)
    (I : W → (ι → A) → Prop) (s : Pool ι Act Res W α) : Prop :=
  ∃ agent : ι → A, I s.world agent ∧ ∀ i, Obeys (P i) (agent i) (s.prog i) (Q i)

variable {P : ι → Protocol Act Res Empty A} {Q : ι → A → α → Prop} {I : W → (ι → A) → Prop}

/-- Every act that the protocols allow keeps the invariant. -/
def Keeps (perform : ι → W → (a : Act) → Choice → Option (Res a × W))
    (P : ι → Protocol Act Res Empty A) (I : W → (ι → A) → Prop) : Prop :=
  ∀ i w agent a choice r w', I w agent → (P i).allowed (agent i) a →
    perform i w a choice = some (r, w') →
    I w' (update agent i ((P i).finish ((P i).start (agent i) a) a r))

theorem Keeps.and {J : W → (ι → A) → Prop} (hI : Keeps perform P I)
    (hJ : Keeps perform P J) : Keeps perform P fun w agent => I w agent ∧ J w agent :=
  fun i w agent a choice r w' h ha hperform =>
    ⟨hI i w agent a choice r w' h.1 ha hperform, hJ i w agent a choice r w' h.2 ha hperform⟩

theorem Tracked.act {i : ι} {choice : Choice} (h : Tracked P Q I s)
    (hstep : Pool.step perform s (i, choice) = some s')
    (hkeeps : ∀ agent a k r w, s.prog i = .act a k → I s.world agent →
      (P i).allowed (agent i) a → perform i s.world a choice = some (r, w) →
      I w (update agent i ((P i).finish ((P i).start (agent i) a) a r))) : Tracked P Q I s' := by
  obtain ⟨agent, hI, hobeys⟩ := h
  obtain ⟨a, k, r, w, hprog, hperform, rfl⟩ := step_eq_some hstep
  have hi := hobeys i
  rw [hprog] at hi
  refine ⟨_, hkeeps agent a k r w hprog hI hi.1 hperform, fun j => ?_⟩
  dsimp only
  by_cases hj : j = i
  · subst hj
    rw [update_self, update_self]
    exact hi.2 r
  · rw [update_of_ne hj, update_of_ne hj]
    exact hobeys j

theorem Tracked.stop {w : W} {i : ι} {a : A} {x : α} (h : Tracked P Q I s)
    (hI : ∀ agent, I s.world agent → I w (update agent i a))
    (hQ : Q i a x) : Tracked P Q I ⟨w, update s.prog i (.ret x)⟩ := by
  obtain ⟨agent, hagent, hobeys⟩ := h
  refine ⟨_, hI agent hagent, fun j => ?_⟩
  dsimp only
  by_cases hj : j = i
  · subst hj
    rw [update_self, update_self]
    exact hQ
  · rw [update_of_ne hj, update_of_ne hj]
    exact hobeys j

theorem Tracked.step (hkeeps : Keeps perform P I) {label : ι × Choice}
    (h : Tracked P Q I s) (hstep : Pool.step perform s label = some s') : Tracked P Q I s' :=
  h.act hstep fun agent a _ r w _ hI ha hperform =>
    hkeeps label.1 s.world agent a label.2 r w hI ha hperform

/-- **The invariant rule.** -/
theorem run_tracks (hkeeps : Keeps perform P I) {labels : List (ι × Choice)} (h : Tracked P Q I s)
    (hrun : Lts.run (step perform) s labels = some s') : Tracked P Q I s' :=
  Lts.run_preserves (fun h hstep => Tracked.step hkeeps h hstep) h hrun

end Pool

end Dmi.Proc
