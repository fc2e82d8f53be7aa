import Dmi.Lib.Proc.Prog

/-!
# Scripts whose acts are answered at will

`Prog.Ends good p Q` says that program `p` ends in `Q` however its acts are answered, as long as the
answers are good; `Meets` lifts that to scripts, and has the rules of a Hoare logic. An oracle that
answers every act makes a program run to its end (`Prog.eval`).
-/

namespace Dmi.Proc

variable {Act : Type} {Res : Act → Type} {L E α β : Type} {good : (a : Act) → Res a → Prop}

def Prog.Ends (good : (a : Act) → Res a → Prop) : Prog Act Res L α → (α → Prop) → Prop
  | .ret x, Q => Q x
  | .act a k, Q => ∀ r, good a r → (k r).Ends good Q
  | .yield l k, Q => (k l).Ends good Q

/-- The end of a program whose acts are answered by the oracle, from its `n`-th answer on. -/
def Prog.eval (oracle : Nat → (a : Act) → Res a) : Prog Act Res L α → Nat → α
  | .ret x, _ => x
  | .act a k, n => (k (oracle n a)).eval oracle (n + 1)
  | .yield l k, n => (k l).eval oracle n

variable {p : Prog Act Res L α} {oracle : Nat → (a : Act) → Res a}

theorem Prog.Ends.eval {Q : α → Prop} (h : p.Ends good Q)
    (horacle : ∀ n a, good a (oracle n a)) (n : Nat) : Q (p.eval oracle n) := by
  induction p generalizing n with
  | ret x => exact h
  | act a k ih => exact ih _ (h _ (horacle n a)) (n + 1)
  | yield l k ih => exact ih _ h n

theorem Prog.eval_bind (oracle : Nat → (a : Act) → Res a) (p : Prog Act Res L α)
    (f : α → Prog Act Res L β) (n : Nat) :
    ∃ m, (p.bind f).eval oracle n = (f (p.eval oracle n)).eval oracle m := by
  induction p generalizing n with
  | ret x => exact ⟨n, rfl⟩
  | act a k ih => exact ih _ (n + 1)
  | yield l k ih => exact ih l n

/-- A script that returns has got past its first part. -/
theorem Script.eval_bind_ok {m : Script Act Res L E α} {f : α → Script Act Res L E β} {l l' : L}
    {y : β} {n : Nat} (h : ((m >>= f) l).eval oracle n = (.ok y, l')) :
    ∃ x l₁ k, (m l).eval oracle n = (.ok x, l₁) ∧ (f x l₁).eval oracle k = (.ok y, l') := by
  have hbind : ∀ g : Except E α × L → Prog Act Res L (Except E β × L),
      ((m l).bind g).eval oracle n = (.ok y, l') →
        ∃ k, (g ((m l).eval oracle n)).eval oracle k = (.ok y, l') := by
    intro g hg
    obtain ⟨k, hk⟩ := Prog.eval_bind oracle (m l) g n
    exact ⟨k, hk.symm.trans hg⟩
  obtain ⟨k, hrest⟩ := hbind _ h
  cases hm : (m l).eval oracle n with
  | mk r l₁ =>
    rw [hm] at hrest
    cases r with
    | ok x => exact ⟨x, l₁, k, rfl, hrest⟩
    | error e => cases hrest

theorem Prog.Ends.mono {Q Q' : α → Prop} (h : p.Ends good Q)
    (hmono : ∀ x, Q x → Q' x) : p.Ends good Q' := by
  induction p with
  | ret x => exact hmono x h
  | act a k ih => exact fun r hr => ih r (h r hr)
  | yield l k ih => exact ih l h

theorem Prog.Ends.bind {f : α → Prog Act Res L β} {Q : α → Prop} {R : β → Prop} (h : p.Ends good Q)
    (hf : ∀ x, Q x → (f x).Ends good R) : (p.bind f).Ends good R := by
  induction p with
  | ret x => exact hf x h
  | act a k ih => exact fun r hr => ih r (h r hr)
  | yield l k ih => exact ih l h

/-- The script, run with local state `l`, ends in `Q`: local state and outcome. -/
def Meets (good : (a : Act) → Res a → Prop) (l : L) (m : Script Act Res L E α)
    (Q : L → Except E α → Prop) : Prop :=
  (m l).Ends good fun x => Q x.2 x.1

namespace Meets

variable {l : L} {m : Script Act Res L E α} {Q : L → Except E α → Prop}
  {R : L → Except E β → Prop}

theorem mono {Q' : L → Except E α → Prop} (h : Meets good l m Q)
    (hmono : ∀ l' r, Q l' r → Q' l' r) : Meets good l m Q' :=
  Prog.Ends.mono h fun x => hmono x.2 x.1

theorem pure {x : α} (h : Q l (.ok x)) : Meets good l (Pure.pure x) Q := h

theorem raise {e : E} (h : Q l (.error e)) : Meets good l (Script.raise e) Q := h

theorem modify {f : L → L} {g : Unit → Script Act Res L E β} (h : Meets good (f l) (g ()) R) :
    Meets good l (Script.modify f >>= g) R := h

theorem get {f : L → Script Act Res L E β} (h : Meets good l (f l) R) :
    Meets good l (Script.get >>= f) R := h

theorem bind {f : α → Script Act Res L E β} (h : Meets good l m Q)
    (hok : ∀ l' x, Q l' (.ok x) → Meets good l' (f x) R)
    (herr : ∀ l' e, Q l' (.error e) → R l' (.error e)) : Meets good l (m >>= f) R := by
  refine Prog.Ends.bind h ?_
  rintro ⟨r, l'⟩ hx
  cases r with
  | ok x => exact hok l' x hx
  | error e => exact herr l' e hx

theorem attempt {handler : E → Script Act Res L E α} {R : L → Except E α → Prop}
    (h : Meets good l m Q) (hok : ∀ l' x, Q l' (.ok x) → R l' (.ok x))
    (herr : ∀ l' e, Q l' (.error e) → Meets good l' (handler e) R) :
    Meets good l (Script.attempt m handler) R := by
  refine Prog.Ends.bind h ?_
  rintro ⟨r, l'⟩ hx
  cases r with
  | ok x => exact hok l' x hx
  | error e => exact herr l' e hx

end Meets

end Dmi.Proc
