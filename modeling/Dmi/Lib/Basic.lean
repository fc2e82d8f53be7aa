import Mathlib.Data.List.Forall2
import Mathlib.Data.List.Induction

/-!
# Computations that may raise, related lists, and codes

How a `do` block in `Except` runs: what `>>=` does on a value and on an error, and
what a block that returns has gone through.  What `List.Forall₂` says about one
element.  The rule for a loop over a list (`foldl_done`).  And that a text written
letter by letter in a code without prefixes determines the letters (`flatMap_injective`).
-/

namespace Dmi

open List

variable {ε α β : Type}

@[simp] theorem ok_bind (a : α) (f : α → Except ε β) : (Except.ok a >>= f) = f a := rfl

theorem exists_of_any {x : Except ε α} {p : α → Bool} (h : x.toOption.any p = true) :
    ∃ a, x = .ok a ∧ p a = true := by
  cases x with
  | ok a => exact ⟨a, rfl, h⟩
  | error e => cases h

theorem exists_of_isOk {x : Except ε α} (h : x.isOk = true) : ∃ a, x = .ok a := by
  cases x with
  | ok a => exact ⟨a, rfl⟩
  | error e => cases h

theorem bind_eq_ok {x : Except ε α} {f : α → Except ε β} {b : β} :
    x >>= f = .ok b ↔ ∃ a, x = .ok a ∧ f a = .ok b := by
  cases x with
  | error e =>
    constructor
    · intro h
      cases h
    · rintro ⟨a, h, _⟩
      cases h
  | ok a => exact ⟨fun h => ⟨a, rfl, h⟩, fun ⟨_, h, hf⟩ => by cases h; exact hf⟩

variable {as : List α} {bs : List β}

theorem forall₂_exists_right {R : α → β → Prop}
    (h : List.Forall₂ R as bs) : ∀ a ∈ as, ∃ b ∈ bs, R a b := by
  induction h with
  | nil => exact fun a ha => absurd ha not_mem_nil
  | @cons a b as bs hab _ ih =>
    intro a' ha'
    rcases mem_cons.mp ha' with rfl | ha'
    · exact ⟨b, mem_cons_self, hab⟩
    · obtain ⟨b', hb', hab'⟩ := ih a' ha'
      exact ⟨b', mem_cons_of_mem b hb', hab'⟩

theorem mapM_eq_some {f : α → Option β} :
    as.mapM f = some bs ↔ List.Forall₂ (fun a b => f a = some b) as bs := by
  induction as generalizing bs with
  | nil =>
    cases bs with
    | nil => exact ⟨fun _ => .nil, fun _ => rfl⟩
    | cons b bs => constructor <;> intro h <;> cases h
  | cons a as ih =>
    rw [mapM_cons]
    constructor
    · intro h
      obtain ⟨b, hb, h⟩ := Option.bind_eq_some_iff.mp h
      obtain ⟨bs', hbs, h⟩ := Option.bind_eq_some_iff.mp h
      cases h
      exact .cons hb (ih.mp hbs)
    · rintro (_ | ⟨hb, hbs⟩)
      rw [hb, ih.mpr hbs]
      rfl

theorem mapM_eq_ok {f : α → Except ε β} :
    as.mapM f = .ok bs ↔ List.Forall₂ (fun a b => f a = .ok b) as bs := by
  induction as generalizing bs with
  | nil => exact ⟨fun h => by cases h; exact .nil, fun h => by cases h; rfl⟩
  | cons a as ih =>
    rw [mapM_cons]
    refine ⟨fun h => ?_, fun h => ?_⟩
    · obtain ⟨b, hb, h⟩ := bind_eq_ok.mp h
      obtain ⟨bs', hbs, h⟩ := bind_eq_ok.mp h
      cases h
      exact .cons hb (ih.mp hbs)
    · cases h with
      | cons hb hbs => exact bind_eq_ok.mpr ⟨_, hb, bind_eq_ok.mpr ⟨_, ih.mpr hbs, rfl⟩⟩

theorem map_eq_ok {x : Except ε α} {g : α → β} {b : β} :
    x.map g = .ok b ↔ ∃ a, x = .ok a ∧ g a = b := by
  cases x with
  | error e => exact ⟨by rintro ⟨⟩, by rintro ⟨_, ⟨⟩, _⟩⟩
  | ok a => exact ⟨fun h => ⟨a, rfl, Except.ok.inj h⟩, by rintro ⟨_, ⟨⟩, rfl⟩; rfl⟩

theorem bind_pure_eq_ok {x : Except ε α} {p : Prop} {v : α} {g : α → β} {b : β}
    (h : ∀ a, x = .ok a ↔ p ∧ v = a) : (x >>= fun a => pure (g a)) = .ok b ↔ p ∧ g v = b := by
  rw [bind_eq_ok]
  refine ⟨?_, fun hv => ⟨v, (h v).mpr ⟨hv.1, rfl⟩, congrArg Except.ok hv.2⟩⟩
  rintro ⟨a, ha, hb⟩
  obtain ⟨hp, rfl⟩ := (h a).mp ha
  exact ⟨hp, Except.ok.inj hb⟩

theorem mapM_map_eq_ok {γ : Type} {k : γ → α} {f : α → Except ε β} {p : γ → Prop} {g : γ → β}
    {cs : List γ} (h : ∀ c b, f (k c) = .ok b ↔ p c ∧ g c = b) :
    (cs.map k).mapM f = .ok bs ↔ (∀ c ∈ cs, p c) ∧ cs.map g = bs := by
  simp only [mapM_eq_ok, forall₂_map_left_iff, h, forall₂_and_left]
  rw [← forall₂_map_left_iff, forall₂_eq_eq_eq]

/-- A loop over a list, as a relation of what it has made to the items done. -/
theorem foldl_done {P : β → List α → Prop} {f : β → α → β} {b : β} {l : List α} (h : P b [])
    (hstep : ∀ b done, ∀ a ∈ l, P b done → P (f b a) (done ++ [a])) : P (l.foldl f b) l := by
  induction l using List.reverseRecOn with
  | nil => exact h
  | append_singleton l a ih =>
    rw [foldl_concat]
    exact hstep _ _ a mem_concat_self (ih fun b done x hx => hstep b done x (mem_append_left _ hx))

/-- No word of the code `f` is empty or the beginning of another one. -/
structure PrefixFree {α β : Type*} (f : α → List β) : Prop where
  ne_nil : ∀ a, f a ≠ []
  eq_of_isPrefix : ∀ {a b}, f a <+: f b → a = b

/-- A message in a code without prefixes can be read in one way only. -/
theorem flatMap_injective {α β : Type*} {f : α → List β} (hf : PrefixFree f) :
    Function.Injective (List.flatMap f) := by
  intro as
  induction as with
  | nil =>
    intro bs h
    cases bs with
    | nil => rfl
    | cons b bs =>
      rw [flatMap_nil, flatMap_cons, eq_comm, append_eq_nil_iff] at h
      exact absurd h.1 (hf.ne_nil b)
  | cons a as ih =>
    intro bs h
    cases bs with
    | nil =>
      rw [flatMap_nil, flatMap_cons, append_eq_nil_iff] at h
      exact absurd h.1 (hf.ne_nil a)
    | cons b bs =>
      rw [flatMap_cons, flatMap_cons] at h
      have hab : a = b := by
        have ha : f a <+: f b ++ bs.flatMap f := ⟨_, h⟩
        rcases prefix_or_prefix_of_prefix ha (prefix_append _ _) with hp | hp
        · exact hf.eq_of_isPrefix hp
        · exact (hf.eq_of_isPrefix hp).symm
      subst hab
      rw [ih (append_cancel_left h)]

end Dmi
