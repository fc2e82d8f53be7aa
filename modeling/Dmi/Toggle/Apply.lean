import Dmi.Lib.Basic
import Dmi.Toggle.Registry
import Mathlib.Tactic.Tauto

/-! # The apply loops of the toggle registry

`apply_all` and `ensure_current` walk over the nodes of a graph and call the driver for those whose
cached state is not the demanded one. `Sound` says that the registry's two records are right for
every graph whose bound exec is its current one: a node whose state is known is in it, and every
node of a graph at the target version is in the state that the enabled set demands. Applying a
graph keeps that (`Sound.apply`); if no call failed the graph is as demanded
(`Sound.demanded_apply`), and so is every bound graph after the loop of `apply_all`
(`Swept.foldl`).
-/

namespace Dmi.Toggle

open List RegEntry

/-! ### The apply loop over one graph -/

/-- The cached state of the node is that of the exec. -/
def KnownAt (nodeOn : Exec → Node → Bool) (exec : Exec) (e : RegEntry) : Prop :=
  e.device = false → e.stateKnown = true → nodeOn exec e.node = e.lastEnabled

/-- The node is in the state that the enabled set demands. -/
def DemandAt (enabled : List HookKey) (nodeOn : Exec → Node → Bool) (exec : Exec) (e : RegEntry) :
    Prop :=
  e.device = false → nodeOn exec e.node = entryOn enabled e

instance (enabled : List HookKey) (nodeOn : Exec → Node → Bool) (exec : Exec) (e : RegEntry) :
    Decidable (DemandAt enabled nodeOn exec e) :=
  inferInstanceAs (Decidable (_ → _))

theorem KnownAt.congr {on on' : Exec → Node → Bool} {exec : Exec} {e : RegEntry}
    (h : KnownAt on exec e) (heq : on' exec e.node = on exec e.node) : KnownAt on' exec e :=
  fun hdev hst => heq.trans (h hdev hst)

theorem DemandAt.congr {enabled : List HookKey} {on on' : Exec → Node → Bool} {exec : Exec}
    {e : RegEntry} (h : DemandAt enabled on exec e) (heq : on' exec e.node = on exec e.node) :
    DemandAt enabled on' exec e :=
  fun hdev => heq.trans (h hdev)

/-- The same node under the same keys; only what is cached differs. -/
def SameNode (e e' : RegEntry) : Prop :=
  ∃ last known, e' = { e with lastEnabled := last, stateKnown := known }

theorem SameNode.refl (e : RegEntry) : SameNode e e := ⟨e.lastEnabled, e.stateKnown, rfl⟩

theorem SameNode.node {e e' : RegEntry} (h : SameNode e e') : e'.node = e.node := by
  obtain ⟨_, _, rfl⟩ := h
  rfl

theorem setNode_of_ne {nodeOn : Exec → Node → Bool} {exec x : Exec} {node n : Node} {on : Bool}
    (h : x = exec → n ≠ node) : setNode nodeOn exec node on x n = nodeOn x n := by
  unfold setNode
  by_cases hx : x = exec
  · subst hx
    rw [Function.update_self, Function.update_of_ne (h rfl)]
  · rw [Function.update_of_ne hx]

theorem setNode_self (nodeOn : Exec → Node → Bool) (exec : Exec) (node : Node) (on : Bool) :
    setNode nodeOn exec node on exec node = on := by
  simp [setNode]

/-- What an apply loop over the nodes of one exec does. -/
structure Applies (enabled : List HookKey) (exec : Exec) (a : Applying) (es : List RegEntry)
    (a' : Applying) (es' : List RegEntry) : Prop where
  same : List.Forall₂ SameNode es es'
  frame : ∀ x n, (x = exec → n ∉ es.map RegEntry.node) → a'.nodeOn x n = a.nodeOn x n
  known : (∀ e ∈ es, KnownAt a.nodeOn exec e) → ∀ e ∈ es', KnownAt a'.nodeOn exec e
  kept : (∀ e ∈ es, DemandAt enabled a.nodeOn exec e) → ∀ e ∈ es', DemandAt enabled a'.nodeOn exec e
  first : a'.first = 0 → a.first = 0
  demand : a'.first = 0 → (∀ e ∈ es, KnownAt a.nodeOn exec e) →
    ∀ e ∈ es', DemandAt enabled a'.nodeOn exec e

theorem applies_entry (enabled : List HookKey) (exec : Exec) (answer : Int) (a : Applying)
    (e : RegEntry) :
    Applies enabled exec a [e] (applyEntry enabled exec answer a e).2
      [(applyEntry enabled exec answer a e).1] := by
  unfold applyEntry
  dsimp only
  split
  next hdev =>
    refine ⟨.cons (.refl e) .nil, fun _ _ _ => rfl, fun h => h, fun h => h, fun h => h, ?_⟩
    intro _ _ e' he' hhost
    rw [mem_singleton.mp he', hdev] at hhost
    cases hhost
  split
  next hcur =>
    refine ⟨.cons (.refl e) .nil, fun _ _ _ => rfl, fun h => h, fun h => h, fun h => h, ?_⟩
    intro _ hknown e' he' hhost
    obtain rfl := mem_singleton.mp he'
    rw [current, Bool.and_eq_true, beq_iff_eq] at hcur
    rw [hknown e' he' hhost hcur.1, hcur.2]
  split
  next hfail =>
    refine ⟨.cons (.refl e) .nil, fun _ _ _ => rfl, fun h => h, fun h => h, ?_, ?_⟩
    · intro h
      by_cases hzero : a.first = 0
      · exact hzero
      · simp [hzero] at h
    · intro h
      by_cases hzero : a.first = 0
      · simp [hzero, hfail] at h
      · simp [hzero] at h
  · refine ⟨.cons ⟨_, _, rfl⟩ .nil, ?_, ?_, ?_, fun h => h, ?_⟩
    · intro x n hn
      exact setNode_of_ne fun hx => by simpa using hn hx
    · intro _ e' he' _ _
      obtain rfl := mem_singleton.mp he'
      exact setNode_self ..
    · intro _ e' he' _
      obtain rfl := mem_singleton.mp he'
      exact setNode_self ..
    · intro _ _ e' he' _
      obtain rfl := mem_singleton.mp he'
      exact setNode_self ..

theorem Applies.cons {enabled : List HookKey} {exec : Exec} {a a₁ a₂ : Applying} {e e' : RegEntry}
    {es es' : List RegEntry} (hnew : e.node ∉ es.map node)
    (h₁ : Applies enabled exec a [e] a₁ [e']) (h₂ : Applies enabled exec a₁ es a₂ es') :
    Applies enabled exec a (e :: es) a₂ (e' :: es') := by
  have hsame : SameNode e e' := by
    cases h₁.same with
    | cons h _ => exact h
  have hrest : ∀ e₁ ∈ es, a₁.nodeOn exec e₁.node = a.nodeOn exec e₁.node := by
    intro e₁ he₁
    refine h₁.frame exec e₁.node fun _ hmem => hnew ?_
    rw [map_singleton, mem_singleton] at hmem
    exact hmem ▸ mem_map_of_mem he₁
  have hhead : a₂.nodeOn exec e'.node = a₁.nodeOn exec e'.node :=
    h₂.frame exec e'.node fun _ hmem => hnew (hsame.node ▸ hmem)
  have hone := mem_singleton_self e'
  refine ⟨.cons hsame h₂.same, ?_, ?_, ?_, fun h => h₁.first (h₂.first h), ?_⟩
  · intro x n hn
    rw [h₂.frame x n fun hx => fun hmem => hn hx (mem_cons_of_mem _ hmem),
      h₁.frame x n fun hx hmem => hn hx (mem_cons.mpr (.inl (mem_singleton.mp hmem)))]
  · intro h
    obtain ⟨hknown, hknowns⟩ := forall_mem_cons.mp h
    exact forall_mem_cons.mpr
      ⟨(h₁.known (forall_mem_singleton.mpr hknown) e' hone).congr hhead,
        h₂.known fun e₁ he₁ => (hknowns e₁ he₁).congr (hrest e₁ he₁)⟩
  · intro h
    obtain ⟨hkept, hkepts⟩ := forall_mem_cons.mp h
    exact forall_mem_cons.mpr
      ⟨(h₁.kept (forall_mem_singleton.mpr hkept) e' hone).congr hhead,
        h₂.kept fun e₁ he₁ => (hkepts e₁ he₁).congr (hrest e₁ he₁)⟩
  · intro hfirst h
    obtain ⟨hknown, hknowns⟩ := forall_mem_cons.mp h
    exact forall_mem_cons.mpr
      ⟨(h₁.demand (h₂.first hfirst) (forall_mem_singleton.mpr hknown) e' hone).congr hhead,
        h₂.demand hfirst fun e₁ he₁ => (hknowns e₁ he₁).congr (hrest e₁ he₁)⟩

/-- **The apply loop over the nodes of a graph.** -/
theorem applies_entries (enabled : List HookKey) (exec : Exec) (answer : Nat → Int)
    {es : List RegEntry} (hnodup : (es.map node).Nodup) (i : Nat) (a : Applying) :
    Applies enabled exec a es (applyEntries enabled exec answer i a es).2
      (applyEntries enabled exec answer i a es).1 := by
  induction es generalizing i a with
  | nil =>
    exact ⟨.nil, fun _ _ _ => rfl, fun _ => forall_mem_nil _, fun _ => forall_mem_nil _,
      fun h => h, fun _ _ => forall_mem_nil _⟩
  | cons e es ih =>
    rw [map_cons, nodup_cons] at hnodup
    exact .cons hnodup.1 (applies_entry enabled exec (answer i) a e)
      (ih hnodup.2 (i + 1) (applyEntry enabled exec (answer i) a e).2)

/-! ### The records are right -/

/-- The graph's bound exec is its current one. -/
def BoundTo (r : ToggleRegistry) (current : Dict Graph Exec) (g : Graph) (exec : Exec) : Prop :=
  r.regExec.get? g = some exec ∧ current.get? g = some exec

/-- Every node of the graph that the host manages is in the state that the enabled set demands, in
the graph's bound and current exec. -/
def DemandedIn (r : ToggleRegistry) (current : Dict Graph Exec) (nodes : Graph → List RegEntry)
    (nodeOn : Exec → Node → Bool) (g : Graph) : Prop :=
  ∀ exec, BoundTo r current g exec → ∀ e ∈ nodes g, DemandAt r.enabledHooks nodeOn exec e

/-- The entries and the driver's nodes fit the rest of the registry. -/
structure Sound (owner : Node → Graph) (r : ToggleRegistry) (current : Dict Graph Exec)
    (nodes : Graph → List RegEntry) (nodeOn : Exec → Node → Bool) : Prop where
  owned : ∀ g, ∀ e ∈ nodes g, owner e.node = g
  nodup : ∀ g, ((nodes g).map RegEntry.node).Nodup
  unbound : ∀ g, r.regExec.get? g = none →
    ∀ e ∈ nodes g, e.lastEnabled = true ∧ e.stateKnown = true
  known : ∀ g exec, BoundTo r current g exec → ∀ e ∈ nodes g, KnownAt nodeOn exec e
  applied : ∀ g, r.appliedVersion.get? g = some r.targetVersion →
    DemandedIn r current nodes nodeOn g

section Apply

variable {owner : Node → Graph} {r : ToggleRegistry} {current : Dict Graph Exec}
  {nodes : Graph → List RegEntry} {es' es : List RegEntry}

theorem forall₂_mem_right (h : List.Forall₂ SameNode es es')
    {e' : RegEntry} (he' : e' ∈ es') : ∃ e ∈ es, SameNode e e' := by
  obtain ⟨e, he, hsame⟩ := forall₂_exists_right h.flip e' he'
  exact ⟨e, he, hsame⟩

theorem map_node_of_same (h : List.Forall₂ SameNode es es') :
    es'.map node = es.map node := by
  induction h with
  | nil => rfl
  | cons hsame _ ih => rw [map_cons, map_cons, hsame.node, ih]

variable {exec : Exec}

/-- Nodes of other graphs do not move while a graph is applied. -/
theorem Applies.frame_of_ne {a a' : Applying} {g g' : Graph}
    (hs : Sound owner r current nodes a.nodeOn) (h : Applies r.enabledHooks exec a (nodes g) a' es')
    (hg : g' ≠ g) {e : RegEntry} (he : e ∈ nodes g') (x : Exec) :
    a'.nodeOn x e.node = a.nodeOn x e.node := by
  refine h.frame x e.node fun _ hmem => hg ?_
  obtain ⟨e₁, he₁, hnode⟩ := mem_map.mp hmem
  rw [← hs.owned g' e he, ← hs.owned g e₁ he₁, hnode]

/-- The entries of one graph change; what is recorded about the others stays. -/
theorem Sound.update {r' : ToggleRegistry} {nodeOn nodeOn' : Exec → Node → Bool} {g : Graph}
    (hs : Sound owner r current nodes nodeOn) (henabled : r'.enabledHooks = r.enabledHooks)
    (htarget : r'.targetVersion = r.targetVersion)
    (hother : ∀ g' ≠ g, r'.regExec.get? g' = r.regExec.get? g' ∧
      r'.appliedVersion.get? g' = r.appliedVersion.get? g' ∧
      ∀ e ∈ nodes g', ∀ x, nodeOn' x e.node = nodeOn x e.node)
    (howned : ∀ e ∈ es, owner e.node = g) (hnodup : (es.map node).Nodup)
    (hunbound : r'.regExec.get? g = none → ∀ e ∈ es, e.lastEnabled = true ∧ e.stateKnown = true)
    (hknown : ∀ x, BoundTo r' current g x → ∀ e ∈ es, KnownAt nodeOn' x e)
    (happlied : r'.appliedVersion.get? g = some r.targetVersion →
      ∀ x, BoundTo r' current g x → ∀ e ∈ es, DemandAt r.enabledHooks nodeOn' x e) :
    Sound owner r' current (Function.update nodes g es) nodeOn' where
  owned := (Function.forall_update_iff nodes fun g' l => ∀ e ∈ l, owner e.node = g').mpr
    ⟨howned, fun g' _ => hs.owned g'⟩
  nodup := (Function.forall_update_iff nodes fun _ l => (l.map node).Nodup).mpr
    ⟨hnodup, fun g' _ => hs.nodup g'⟩
  unbound := (Function.forall_update_iff nodes fun g' l => r'.regExec.get? g' = none →
      ∀ e ∈ l, e.lastEnabled = true ∧ e.stateKnown = true).mpr
    ⟨hunbound, fun g' hg hnone => hs.unbound g' ((hother g' hg).1.symm.trans hnone)⟩
  known := by
    refine (Function.forall_update_iff nodes fun g' l => ∀ x, BoundTo r' current g' x →
      ∀ e ∈ l, KnownAt nodeOn' x e).mpr ⟨hknown, fun g' hg x hb e he => ?_⟩
    obtain ⟨hexec, -, hnode⟩ := hother g' hg
    exact (hs.known g' x ⟨hexec.symm.trans hb.1, hb.2⟩ e he).congr (hnode e he x)
  applied := by
    rw [htarget]
    refine (Function.forall_update_iff nodes fun g' l =>
      r'.appliedVersion.get? g' = some r.targetVersion → ∀ x, BoundTo r' current g' x →
        ∀ e ∈ l, DemandAt r'.enabledHooks nodeOn' x e).mpr
      ⟨henabled ▸ happlied, fun g' hg hv x hb e he => ?_⟩
    obtain ⟨hexec, hversion, hnode⟩ := hother g' hg
    rw [henabled]
    exact (hs.applied g' (hversion.symm.trans hv) x ⟨hexec.symm.trans hb.1, hb.2⟩ e he).congr
      (hnode e he x)

theorem Sound.apply {a a' : Applying} {g : Graph} (hs : Sound owner r current nodes a.nodeOn)
    (hbound : r.regExec.get? g = some exec) (h : Applies r.enabledHooks exec a (nodes g) a' es') :
    Sound owner r current (Function.update nodes g es') a'.nodeOn := by
  have hexec : ∀ {x}, BoundTo r current g x → exec = x := fun hb =>
    Option.some.inj (hbound.symm.trans hb.1)
  refine hs.update rfl rfl (fun g' hg => ⟨rfl, rfl, fun e he => h.frame_of_ne hs hg he⟩) ?_ ?_ ?_
    ?_ ?_
  · intro e he
    obtain ⟨e₀, he₀, hsame⟩ := forall₂_mem_right h.same he
    rw [hsame.node]
    exact hs.owned g e₀ he₀
  · rw [map_node_of_same h.same]
    exact hs.nodup g
  · intro hnone
    cases hbound.symm.trans hnone
  · intro x hb
    obtain rfl := hexec hb
    exact h.known (hs.known g exec hb)
  · intro hv x hb
    obtain rfl := hexec hb
    exact h.kept (hs.applied g hv exec hb)

/-- A graph whose nodes were all set is as demanded. -/
theorem Sound.demanded_apply {a a' : Applying} {g : Graph}
    (hs : Sound owner r current nodes a.nodeOn) (hbound : r.regExec.get? g = some exec)
    (h : Applies r.enabledHooks exec a (nodes g) a' es') (hfirst : a'.first = 0) :
    DemandedIn r current (Function.update nodes g es') a'.nodeOn g := by
  intro x hx e he
  obtain rfl : exec = x := Option.some.inj (hbound.symm.trans hx.1)
  rw [Function.update_self] at he
  exact h.demand hfirst (hs.known g exec hx) e he

/-- Applying a graph leaves another one as demanded. -/
theorem Sound.demanded_of_ne {a a' : Applying} {g g' : Graph}
    (hs : Sound owner r current nodes a.nodeOn) (h : Applies r.enabledHooks exec a (nodes g) a' es')
    (hg : g' ≠ g) (hd : DemandedIn r current nodes a.nodeOn g') :
    DemandedIn r current (Function.update nodes g es') a'.nodeOn g' := by
  intro x hx e he
  rw [Function.update_of_ne hg] at he
  exact (hd x hx e he).congr (h.frame_of_ne hs hg he x)

/-! ### The loop of `apply_all` -/

/-- The lookup of the entries of a graph. -/
def nodesOf (regNodes : Dict Graph (List RegEntry)) (g : Graph) : List RegEntry :=
  (regNodes.get? g).getD []

theorem nodesOf_set (regNodes : Dict Graph (List RegEntry)) (g : Graph) (es : List RegEntry) :
    nodesOf (regNodes.set g es) = Function.update (nodesOf regNodes) g es := by
  funext g'
  by_cases hg : g' = g
  · subst hg
    simp [nodesOf, Dict.get?_set]
  · simp [nodesOf, Dict.get?_set, hg]

/-- After the loop over some bound graphs the records are right, and if no call failed those
graphs are as demanded. -/
structure Swept (owner : Node → Graph) (r : ToggleRegistry) (current : Dict Graph Exec)
    (done : Graph → Prop) (state : Dict Graph (List RegEntry) × Applying) : Prop where
  sound : Sound owner r current (nodesOf state.1) state.2.nodeOn
  demanded : state.2.first = 0 → ∀ g, done g →
    DemandedIn r current (nodesOf state.1) state.2.nodeOn g

variable {state : Dict Graph (List RegEntry) × Applying} {done : Graph → Prop}

section

variable (h : Swept owner r current done state) (answers : Answers)
include h

theorem Swept.applyGraph {bound : Graph × Exec} (hbound : r.regExec.get? bound.1 = some bound.2) :
    Swept owner r current (fun g => done g ∨ g = bound.1)
      (Toggle.applyGraph answers r.enabledHooks state bound) := by
  obtain ⟨g, exec⟩ := bound
  cases hnodes : state.1.get? g with
  | none =>
    have heq : Toggle.applyGraph answers r.enabledHooks state (g, exec) = state := by
      simp [Toggle.applyGraph, hnodes]
    rw [heq]
    refine ⟨h.sound, fun hfirst g' hg' => ?_⟩
    rcases hg' with hg' | rfl
    · exact h.demanded hfirst g' hg'
    · intro x _ e he
      simp [nodesOf, hnodes] at he
  | some es =>
    have hes : nodesOf state.1 g = es := by simp [nodesOf, hnodes]
    have happ := applies_entries r.enabledHooks exec (answers.setEnabled g)
      (hes ▸ h.sound.nodup g) 0 state.2
    rw [← hes] at happ
    have heq : Toggle.applyGraph answers r.enabledHooks state (g, exec) =
        (state.1.set g (applyEntries r.enabledHooks exec (answers.setEnabled g) 0 state.2
            (nodesOf state.1 g)).1,
          (applyEntries r.enabledHooks exec (answers.setEnabled g) 0 state.2
            (nodesOf state.1 g)).2) := by
      simp [Toggle.applyGraph, hnodes, hes]
    rw [heq]
    refine ⟨?_, fun hfirst g' hg' => ?_⟩
    · rw [nodesOf_set]
      exact h.sound.apply hbound happ
    · rw [nodesOf_set]
      by_cases hg : g' = g
      · subst hg
        exact h.sound.demanded_apply hbound happ hfirst
      · have hold : done g' := hg'.resolve_right hg
        exact h.sound.demanded_of_ne happ hg (h.demanded (happ.first hfirst) g' hold)

theorem Swept.foldl
    {items : List (Graph × Exec)} (hitems : ∀ b ∈ items, r.regExec.get? b.1 = some b.2) :
    Swept owner r current (fun g => done g ∨ g ∈ items.map Prod.fst)
      (items.foldl (Toggle.applyGraph answers r.enabledHooks) state) := by
  induction items generalizing done state with
  | nil =>
    refine ⟨h.sound, fun hfirst g hg => h.demanded hfirst g ?_⟩
    simpa using hg
  | cons b items ih =>
    have hrest := ih (h.applyGraph answers (hitems b mem_cons_self)) fun b' hb' =>
      hitems b' (mem_cons_of_mem b hb')
    refine ⟨hrest.sound, fun hfirst g hg => hrest.demanded hfirst g ?_⟩
    simp only [map_cons, mem_cons] at hg
    tauto

end

end Apply

end Dmi.Toggle
