/-!
# Programs that talk to a shared server, and a logic for their local protocol

A client is a sequential program over an alphabet of acts. Each act is issued, answered
later, and the program goes on with the answer. A `yield` gives up the client's lock: other
threads of the same client may run in between and change the client's local state.

`Script` adds what a method of a stateful object has on top: a local state and exceptions.

A `Protocol` is an automaton that watches the acts and answers of one client. `Obeys` says
that a program only issues acts which the automaton allows, whatever the answers are; it is a
Hoare logic whose assertions are about the automaton's state, and the rules below are those
of that logic. Nothing here knows the server.
-/

namespace Dmi.Proc

/-- A program: it ends, it issues an act, or it gives up the lock with local state `l`. -/
inductive Prog (Act : Type) (Res : Act → Type) (L α : Type) : Type where
  | ret (x : α)
  | act (a : Act) (k : Res a → Prog Act Res L α)
  | yield (l : L) (k : L → Prog Act Res L α)

variable {Act : Type} {Res : Act → Type} {L E α β A : Type}

def Prog.bind : Prog Act Res L α → (α → Prog Act Res L β) → Prog Act Res L β
  | .ret x, f => f x
  | .act a k, f => .act a fun r => (k r).bind f
  | .yield l k, f => .yield l fun l' => (k l').bind f

/-- A method with local state `L` that returns an `α` or raises an `E`. The local state
survives an exception. -/
def Script (Act : Type) (Res : Act → Type) (L E α : Type) : Type :=
  L → Prog Act Res L (Except E α × L)

namespace Script

def pure (x : α) : Script Act Res L E α := fun l => .ret (.ok x, l)

def bind (m : Script Act Res L E α) (f : α → Script Act Res L E β) : Script Act Res L E β :=
  fun l => (m l).bind fun
    | (.ok x, l') => f x l'
    | (.error e, l') => .ret (.error e, l')

instance : Monad (Script Act Res L E) where
  pure := Script.pure
  bind := Script.bind

/-- Raise `e`. -/
def raise (e : E) : Script Act Res L E α := fun l => .ret (.error e, l)

/-- Run `m`; if it raises `e`, run `handler e`. -/
def attempt (m : Script Act Res L E α) (handler : E → Script Act Res L E α) :
    Script Act Res L E α :=
  fun l => (m l).bind fun
    | (.ok x, l') => .ret (.ok x, l')
    | (.error e, l') => handler e l'

/-- The local state. -/
def get : Script Act Res L E L := fun l => .ret (.ok l, l)

/-- Change the local state. -/
def modify (f : L → L) : Script Act Res L E Unit := fun l => .ret (.ok (), f l)

/-- Issue an act and wait for its answer. -/
def perform (a : Act) : Script Act Res L E (Res a) :=
  fun l => .act a fun r => .ret (.ok r, l)

/-- Release the lock and take it again. -/
def pause : Script Act Res L E Unit := fun l => .yield l fun l' => .ret (.ok (), l')

/-- A whole operation: its outcome is dropped, its local state kept. -/
def toProg (m : Script Act Res L E α) : L → Prog Act Res L L :=
  fun l => (m l).bind fun x => .ret x.2

end Script

/-! ### Protocols -/

/-- An automaton over the acts of one client. `start` is taken when an act is issued,
`finish` when it is answered, `reset` when the client dies. `fits l s` says that local state
`l` is right in automaton state `s`, and `later` what may change while the lock is free. -/
structure Protocol (Act : Type) (Res : Act → Type) (L A : Type) where
  init : A
  allowed : A → Act → Prop
  start : A → Act → A
  finish : A → (a : Act) → Res a → A
  reset : A → A
  fits : L → A → Prop
  later : A → A → Prop
  later_refl : ∀ s, later s s
  later_trans : ∀ {s t u}, later s t → later t u → later s u
  later_start : ∀ s a, later s (start s a)
  later_finish : ∀ s a r, later s (finish s a r)

variable (P : Protocol Act Res L A)

/-- From automaton state `s`, program `p` issues only allowed acts and ends in `Q`. -/
def Obeys : A → Prog Act Res L α → (A → α → Prop) → Prop
  | s, .ret x, Q => Q s x
  | s, .act a k, Q => P.allowed s a ∧ ∀ r, Obeys (P.finish (P.start s a) a r) (k r) Q
  | s, .yield l k, Q =>
    P.fits l s ∧ ∀ s' l', P.later s s' → P.fits l' s' → Obeys s' (k l') Q

variable {P}

theorem Obeys.mono {p : Prog Act Res L α} {Q Q' : A → α → Prop} {s : A}
    (h : Obeys P s p Q) (hQ : ∀ s' x, Q s' x → Q' s' x) : Obeys P s p Q' := by
  induction p generalizing s with
  | ret x => exact hQ s x h
  | act a k ih => exact ⟨h.1, fun r => ih r (h.2 r)⟩
  | yield l k ih => exact ⟨h.1, fun s' l' hs hl => ih l' (h.2 s' l' hs hl)⟩

theorem Obeys.bind {p : Prog Act Res L α} {f : α → Prog Act Res L β}
    {Q : A → α → Prop} {R : A → β → Prop} {s : A} (h : Obeys P s p Q)
    (hf : ∀ s' x, Q s' x → Obeys P s' (f x) R) : Obeys P s (p.bind f) R := by
  induction p generalizing s with
  | ret x => exact hf s x h
  | act a k ih => exact ⟨h.1, fun r => ih r (h.2 r)⟩
  | yield l k ih => exact ⟨h.1, fun s' l' hs hl => ih l' (h.2 s' l' hs hl)⟩

/-- The script `m`, run in automaton state `s` with local state `l`, obeys the protocol and
ends in `Q`: automaton state, local state and outcome. -/
def Spec (P : Protocol Act Res L A) (s : A) (l : L) (m : Script Act Res L E α)
    (Q : A → L → Except E α → Prop) : Prop :=
  Obeys P s (m l) fun s' x => Q s' x.2 x.1

namespace Spec

variable {s : A} {l : L} {m : Script Act Res L E α} {Q : A → L → Except E α → Prop}

theorem mono {Q' : A → L → Except E α → Prop} (h : Spec P s l m Q)
    (hQ : ∀ s' l' r, Q s' l' r → Q' s' l' r) : Spec P s l m Q' :=
  Obeys.mono h fun s' x hx => hQ s' x.2 x.1 hx

theorem pause {Q : A → L → Except E Unit → Prop} (hl : P.fits l s)
    (h : ∀ s' l', P.later s s' → P.fits l' s' → Q s' l' (.ok ())) :
    Spec P s l (Script.pause : Script Act Res L E Unit) Q :=
  ⟨hl, h⟩

theorem bind {f : α → Script Act Res L E β} {R : A → L → Except E β → Prop} (h : Spec P s l m Q)
    (hok : ∀ s' l' x, Q s' l' (.ok x) → Spec P s' l' (f x) R)
    (herr : ∀ s' l' e, Q s' l' (.error e) → R s' l' (.error e)) : Spec P s l (m >>= f) R := by
  refine Obeys.bind h ?_
  rintro s' ⟨r, l'⟩ hx
  cases r with
  | ok x => exact hok s' l' x hx
  | error e => exact herr s' l' e hx

theorem attempt {handler : E → Script Act Res L E α} {R : A → L → Except E α → Prop}
    (h : Spec P s l m Q) (hok : ∀ s' l' x, Q s' l' (.ok x) → R s' l' (.ok x))
    (herr : ∀ s' l' e, Q s' l' (.error e) → Spec P s' l' (handler e) R) :
    Spec P s l (Script.attempt m handler) R := by
  refine Obeys.bind h ?_
  rintro s' ⟨r, l'⟩ hx
  cases r with
  | ok x => exact hok s' l' x hx
  | error e => exact herr s' l' e hx

/-- An operation whose every outcome leaves a fitting local state may be run at any time. -/
theorem toProg (h : Spec P s l m Q) (hfits : ∀ s' l' r, Q s' l' r → P.fits l' s') :
    Obeys P s (m.toProg l) fun s' l' => P.fits l' s' :=
  Obeys.bind h fun s' x hx => hfits s' x.2 x.1 hx

end Spec

end Dmi.Proc
