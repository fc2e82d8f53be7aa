import Dmi.Toggle.Apply

/-! # A graph that is reported current runs the enabled nodes

The two records of the registry are caches of the driver's state. Each operation keeps them right
(`Inv.step`), and an operation that reports success leaves its graph as the enabled set demands,
under three conditions on the run:

* a graph is not instantiated again under the handle that is bound for it: neither the guard nor
  `bind_exec` tells the new exec from the old one then;
* nodes are registered before their graph is bound, each once or with two keys in a row:
  `register_node` does not take back the applied version;
* the first exec that is bound for a graph has every registered node on: a new entry is taken for
  one that is on, which an exec that `clear` could not restore is not.
-/

namespace Dmi.Toggle

open Lts List ToggleRegistry Dict

/-! ### What every operation keeps -/

/-- Every host-managed node of the graph's bound and current exec is as the enabled set demands. -/
def Demanded (s : System) (g : Graph) : Prop :=
  DemandedIn s.reg s.driver.current s.reg.entries s.driver.nodeOn g

structure Inv (owner : Node → Graph) (s : System) : Prop where
  sound : Sound owner s.reg s.driver.current s.reg.entries s.driver.nodeOn
  applied_le : ∀ g v, s.reg.appliedVersion.get? g = some v → v ≤ s.reg.targetVersion
  applied_none : ∀ g, s.reg.regExec.get? g = none → s.reg.appliedVersion.get? g = none
  active_pos : s.reg.toggleActive = true → 0 < s.reg.targetVersion

/-- An exec that is bound for a graph which has none has every registered node on. -/
def FreshBind (s : System) (g : Graph) : Prop :=
  s.reg.regExec.get? g = none → ∀ exec ∈ s.driver.current.get? g,
    ∀ e ∈ s.reg.entries g, e.device = false → s.driver.nodeOn exec e.node = true

instance (s : System) (g : Graph) : Decidable (FreshBind s g) :=
  inferInstanceAs (Decidable (_ → _))

/-- The condition on an operation in the state that it finds. -/
def Ok (s : System) : Act → Prop
  | .registerNode g hookType layerNo node =>
    s.reg.regExec.get? g = none ∧ (merges (s.reg.entries g) hookType layerNo node = true ∨
      ∀ e ∈ s.reg.entries g, e.node ≠ node)
  | .instantiate g exec => s.reg.regExec.get? g ≠ some exec
  | .bindGraph g _ => FreshBind s g
  | .guardedReplay g _ _ _ => FreshBind s g
  | _ => True

instance : (s : System) → (a : Act) → Decidable (Ok s a)
  | _, .registerNode _ _ _ _ => inferInstanceAs (Decidable (_ ∧ _))
  | _, .instantiate _ _ => inferInstanceAs (Decidable (_ ≠ _))
  | s, .bindGraph g _ => inferInstanceAs (Decidable (FreshBind s g))
  | s, .guardedReplay g _ _ _ => inferInstanceAs (Decidable (FreshBind s g))
  | _, .registerDeviceEntry _ _ => instDecidableTrue
  | _, .setEnabled _ => instDecidableTrue
  | _, .applyAll _ => instDecidableTrue
  | _, .ensureCurrent _ _ => instDecidableTrue
  | _, .recordReplayEvent _ _ => instDecidableTrue
  | _, .setPreApplySync _ => instDecidableTrue
  | _, .forceApplyError _ => instDecidableTrue
  | _, .clear _ => instDecidableTrue

section Keeps

variable {owner : Node → Graph} {s : System}

theorem sound_nil {r : ToggleRegistry} {current : Dict Graph Exec} {nodeOn : Exec → Node → Bool} :
    Sound owner r current (fun _ => []) nodeOn where
  owned _ := forall_mem_nil _
  nodup _ := nodup_nil
  unbound _ _ := forall_mem_nil _
  known _ _ _ := forall_mem_nil _
  applied _ _ _ _ := forall_mem_nil _

theorem inv_init : Inv owner {} where
  sound := sound_nil
  applied_le := fun g v h => by cases h
  applied_none := fun g _ => rfl
  active_pos := fun h => by cases h

variable {es : List RegEntry} {node : Node}

theorem mem_withNode {hookType layerNo : Int} {device : Bool} {e : RegEntry}
    (he : e ∈ withNode es hookType layerNo node device) :
    (∃ e₀ ∈ es, e.node = e₀.node ∧ e.lastEnabled = e₀.lastEnabled ∧
      e.stateKnown = e₀.stateKnown) ∨
    (e.node = node ∧ e.lastEnabled = true ∧ e.stateKnown = true) := by
  unfold withNode at he
  by_cases hm : merges es hookType layerNo node = true
  · rw [if_pos hm] at he
    rcases mem_append.mp he with he | he
    · exact .inl ⟨e, (dropLast_sublist es).subset he, rfl, rfl, rfl⟩
    · cases hlast : es.getLast? with
      | none => simp [hlast] at he
      | some last =>
        simp only [hlast, Option.map_some, Option.toList_some, mem_singleton] at he
        subst he
        exact .inl ⟨last, mem_of_getLast? hlast, rfl, rfl, rfl⟩
  · rw [if_neg hm] at he
    rcases mem_append.mp he with he | he
    · exact .inl ⟨e, he, rfl, rfl, rfl⟩
    · obtain rfl := mem_singleton.mp he
      exact .inr ⟨rfl, rfl, rfl⟩

theorem nodup_withNode {hookType layerNo : Int} (device : Bool)
    (hnodup : (es.map RegEntry.node).Nodup)
    (hnew : merges es hookType layerNo node = true ∨ ∀ e ∈ es, e.node ≠ node) :
    ((withNode es hookType layerNo node device).map RegEntry.node).Nodup := by
  unfold withNode
  split
  · rcases eq_nil_or_concat' es with rfl | ⟨init, last, rfl⟩
    · exact nodup_nil
    · simpa using hnodup
  next hm =>
    rw [map_append]
    have hfresh := hnew.resolve_left hm
    refine nodup_append.mpr ⟨hnodup, nodup_singleton _, ?_⟩
    intro n hn n' hn'
    obtain ⟨e, he, rfl⟩ := mem_map.mp hn
    simp only [map_cons, map_nil, mem_singleton] at hn'
    exact hn' ▸ hfresh e he

variable {g : Graph}

/-- A graph that is not bound may get nodes: nothing is recorded about them yet. -/
theorem Inv.registerNode (h : Inv owner s) {hookType layerNo : Int} (howner : owner node = g)
    (hok : Ok s (.registerNode g hookType layerNo node)) :
    Inv owner { s with reg := s.reg.registerNode g hookType layerNo node } := by
  obtain ⟨hnone, hnew⟩ := hok
  have hentries : (s.reg.registerNode g hookType layerNo node).entries =
      Function.update s.reg.entries g
        (withNode (s.reg.entries g) hookType layerNo node (node ∈ s.reg.devNodes)) :=
    nodesOf_set ..
  have hself : ∀ {exec}, ¬ BoundTo s.reg s.driver.current g exec := fun hb =>
    nomatch hnone.symm.trans hb.1
  refine ⟨?_, h.applied_le, h.applied_none, h.active_pos⟩
  rw [hentries]
  refine h.sound.update rfl rfl (fun _ _ => ⟨rfl, rfl, fun _ _ _ => rfl⟩) ?_
    (nodup_withNode _ (h.sound.nodup g) hnew) ?_ (fun _ hb => absurd hb hself)
    fun _ _ hb => absurd hb hself
  · intro e he
    rcases mem_withNode he with ⟨e₀, he₀, hnode, -⟩ | ⟨hnode, -⟩
    · rw [hnode]
      exact h.sound.owned g e₀ he₀
    · rw [hnode, howner]
  · intro _ e he
    rcases mem_withNode he with ⟨e₀, he₀, -, hlast, hknown⟩ | ⟨-, hlast, hknown⟩
    · rw [hlast, hknown]
      exact h.sound.unbound g hnone e₀ he₀
    · exact ⟨hlast, hknown⟩

variable {exec : Exec}

/-- A new exec under a handle that is not the bound one describes no bound graph. -/
theorem Inv.instantiate (h : Inv owner s)
    (hfree : ∀ x ∈ s.driver.current.items, x.1 ≠ g → x.2 ≠ exec)
    (hok : Ok s (.instantiate g exec)) :
    Inv owner { s with driver := s.driver.instantiate g exec } := by
  have hbound : ∀ {g' x}, BoundTo s.reg (s.driver.instantiate g exec).current g' x →
      BoundTo s.reg s.driver.current g' x ∧ x ≠ exec := by
    rintro g' x ⟨hreg, hcur⟩
    rcases get?_set_eq_some.mp hcur with ⟨rfl, rfl⟩ | ⟨hg, hcur⟩
    · exact absurd hreg hok
    · exact ⟨⟨hreg, hcur⟩, hfree (g', x) (get?_eq_some.mp hcur) hg⟩
  have hnode : ∀ {x} n, x ≠ exec →
      (s.driver.instantiate g exec).nodeOn x n = s.driver.nodeOn x n := by
    intro x n hx
    simp [Driver.instantiate, hx]
  refine ⟨⟨h.sound.owned, h.sound.nodup, h.sound.unbound, ?_, ?_⟩, h.applied_le, h.applied_none,
    h.active_pos⟩
  · intro g' x hb e he
    obtain ⟨hb, hx⟩ := hbound hb
    exact (h.sound.known g' x hb e he).congr (hnode e.node hx)
  · intro g' hv x hb e he
    obtain ⟨hb, hx⟩ := hbound hb
    exact (h.sound.applied g' hv x hb e he).congr (hnode e.node hx)

/-! #### Binding -/

variable (r : ToggleRegistry)

theorem uploadDeviceGraph_eq (g : Graph) (exec : Exec) (ok : Bool) :
    ∃ uploaded anomaly, r.uploadDeviceGraph g exec ok =
      { r with devUploaded := uploaded, anomaly := anomaly } := by
  unfold uploadDeviceGraph
  split_ifs
  · exact ⟨r.devUploaded, r.anomaly, rfl⟩
  · exact ⟨exec :: r.devUploaded, r.anomaly, rfl⟩
  · exact ⟨r.devUploaded, r.anomaly + 1, rfl⟩

/-- Binding sets the exec, after forgetting what describes another one. -/
theorem bindExec_eq (g : Graph) (exec : Exec) (ok : Bool) :
    ∃ uploaded anomaly version, r.bindExec g exec ok =
      { r.forgetOther g exec with
        regExec := (r.forgetOther g exec).regExec.set g exec
        devUploaded := uploaded, anomaly := anomaly, version := version } := by
  obtain ⟨uploaded, anomaly, heq⟩ := uploadDeviceGraph_eq
    { r.forgetOther g exec with regExec := (r.forgetOther g exec).regExec.set g exec } g exec ok
  exact ⟨uploaded, anomaly, (r.forgetOther g exec).version + 1, by
    simp only [bindExec, heq]⟩

theorem forget_entries (g : Graph) (old : Exec) :
    (r.forget g old).entries =
      Function.update r.entries g ((r.entries g).map fun e => { e with stateKnown := false }) := by
  cases hnodes : r.regNodes.get? g with
  | none =>
    have hsame : (r.forget g old).regNodes = r.regNodes := by
      simp only [forget, hnodes]
    have hnil : r.entries g = [] := by simp [ToggleRegistry.entries, hnodes]
    rw [hnil, map_nil, ← hnil, Function.update_eq_self]
    exact congrArg nodesOf hsame
  | some es =>
    have hset : (r.forget g old).regNodes =
        r.regNodes.set g (es.map fun e => { e with stateKnown := false }) := by
      simp only [forget, hnodes]
    have hes : r.entries g = es := by simp [ToggleRegistry.entries, hnodes]
    rw [hes]
    exact (congrArg nodesOf hset).trans (nodesOf_set r.regNodes g _)

variable {nodeOn : Exec → Node → Bool}

/-- Binding one graph: what is recorded about the others stays, and what is left recorded about
this one has to be right in its new exec. -/
theorem Sound.rebind {r r' : ToggleRegistry} {current : Dict Graph Exec}
    {nodes : Graph → List RegEntry} (hs : Sound owner r current nodes nodeOn)
    (hexec : r'.regExec = r.regExec.set g exec) (henabled : r'.enabledHooks = r.enabledHooks)
    (htarget : r'.targetVersion = r.targetVersion)
    (happlied : ∀ g', g' ≠ g → r'.appliedVersion.get? g' = r.appliedVersion.get? g')
    (hnode : es.map RegEntry.node = (nodes g).map RegEntry.node)
    (hknown : ∀ e ∈ es, KnownAt nodeOn exec e)
    (hdemand : r'.appliedVersion.get? g = some r.targetVersion →
      ∀ e ∈ es, DemandAt r.enabledHooks nodeOn exec e) :
    Sound owner r' current (Function.update nodes g es) nodeOn := by
  have hself : r'.regExec.get? g = some exec := by rw [hexec, get?_set, if_pos rfl]
  refine hs.update henabled htarget (fun g' hg => ⟨?_, happlied g' hg, fun _ _ _ => rfl⟩) ?_ ?_
    (fun hnone => nomatch hself.symm.trans hnone) ?_ ?_
  · rw [hexec, get?_set, if_neg hg]
  · intro e he
    have hmem := mem_map_of_mem he (f := RegEntry.node)
    rw [hnode] at hmem
    obtain ⟨e₀, he₀, heq⟩ := mem_map.mp hmem
    rw [← heq]
    exact hs.owned g e₀ he₀
  · rw [hnode]
    exact hs.nodup g
  · intro x hb
    obtain rfl : exec = x := Option.some.inj (hself.symm.trans hb.1)
    exact hknown
  · intro hv x hb
    obtain rfl : exec = x := Option.some.inj (hself.symm.trans hb.1)
    exact hdemand hv

/-- Binding the current exec of a graph keeps the records right: the first exec has its nodes on,
the same exec is described by what is recorded, and for another one nothing is recorded. -/
theorem Inv.bind (h : Inv owner s) (hcur : s.driver.current.get? g = some exec)
    (hfresh : FreshBind s g) (ok : Bool) (boundExec : Dict Graph Exec) :
    Inv owner { s with reg := s.reg.bindExec g exec ok, boundExec := boundExec } := by
  obtain ⟨uploaded, anomaly, version, heq⟩ := bindExec_eq s.reg g exec ok
  have hself : s.reg.entries = Function.update s.reg.entries g (s.reg.entries g) :=
    (Function.update_eq_self g s.reg.entries).symm
  have hnone : ∀ {g'}, (s.reg.regExec.set g exec).get? g' = none →
      g' ≠ g ∧ s.reg.regExec.get? g' = none := by
    intro g' hg'
    rw [get?_set, ite_eq_iff] at hg'
    exact hg'.resolve_left fun h => nomatch h.2
  rw [heq]
  cases hold : s.reg.regExec.get? g with
  | none =>
    have hsame : s.reg.forgetOther g exec = s.reg := by simp [forgetOther, hold]
    rw [hsame]
    refine ⟨?_, h.applied_le, fun g' hg' => h.applied_none g' (hnone hg').2, h.active_pos⟩
    show Sound owner _ _ s.reg.entries _
    rw [hself]
    refine h.sound.rebind rfl rfl rfl (fun _ _ => rfl) rfl ?_ ?_
    · intro e he hdev _
      rw [(h.sound.unbound g hold e he).1]
      exact hfresh hold exec hcur e he hdev
    · intro hv
      cases (h.applied_none g hold).symm.trans hv
  | some old =>
    by_cases hne : old = exec
    · subst hne
      have hsame : s.reg.forgetOther g old = s.reg := by simp [forgetOther, hold]
      rw [hsame]
      refine ⟨?_, h.applied_le, fun g' hg' => h.applied_none g' (hnone hg').2, h.active_pos⟩
      show Sound owner _ _ s.reg.entries _
      rw [hself]
      exact h.sound.rebind rfl rfl rfl (fun _ _ => rfl) rfl (h.sound.known g old ⟨hold, hcur⟩)
        fun hv => h.sound.applied g hv old ⟨hold, hcur⟩
    · have hforget : s.reg.forgetOther g exec = s.reg.forget g old := by
        simp [forgetOther, hold, hne]
      have herase : ∀ g', (s.reg.forget g old).appliedVersion.get? g' =
          if g' = g then none else s.reg.appliedVersion.get? g' := fun g' =>
        get?_erase s.reg.appliedVersion g g'
      rw [hforget]
      refine ⟨?_, ?_, ?_, h.active_pos⟩
      · show Sound owner _ _ (s.reg.forget g old).entries _
        rw [forget_entries]
        refine h.sound.rebind rfl rfl rfl ?_ ?_ ?_ ?_
        · exact fun g' hg => (herase g').trans (if_neg hg)
        · rw [map_map]
          rfl
        · intro e he _ hst
          obtain ⟨e₀, -, rfl⟩ := mem_map.mp he
          cases hst
        · intro hv
          exact absurd rfl (get?_erase_eq_some.mp hv).1
      · intro g' v hv
        exact h.applied_le g' v (get?_erase_eq_some.mp hv).2
      · intro g' hg'
        obtain ⟨hg, hg'⟩ := hnone hg'
        exact (herase g').trans ((if_neg hg).trans (h.applied_none g' hg'))

/-! #### Applying -/

section

variable (h : Inv owner s)
include h

theorem Inv.setEnabled (enabled : List HookKey) :
    Inv owner { s with reg := s.reg.setEnabled enabled } where
  sound := {
    owned := h.sound.owned
    nodup := h.sound.nodup
    unbound := h.sound.unbound
    known := h.sound.known
    applied := fun g hv => by
      have hle := h.applied_le g _ hv
      exact absurd hle (Nat.not_succ_le_self s.reg.targetVersion) }
  applied_le := fun g v hv => Nat.le_succ_of_le (h.applied_le g v hv)
  applied_none := h.applied_none
  active_pos := fun _ => Nat.succ_pos _

/-- After entries and nodes were changed and some bound graphs noted as current. -/
theorem Inv.update {regNodes : Dict Graph (List RegEntry)}
    {appliedVersion : Dict Graph Nat} {count : Nat}
    (hs : Sound owner s.reg s.driver.current (nodesOf regNodes) nodeOn)
    (happlied : ∀ g, appliedVersion.get? g = s.reg.appliedVersion.get? g ∨
      (appliedVersion.get? g = some s.reg.targetVersion ∧ s.reg.regExec.get? g ≠ none ∧
        DemandedIn s.reg s.driver.current (nodesOf regNodes) nodeOn g)) :
    Inv owner { s with
      reg := { s.reg with
        regNodes := regNodes, appliedVersion := appliedVersion, lastApplyCount := count }
      driver := { s.driver with nodeOn := nodeOn } } where
  sound := {
    owned := hs.owned
    nodup := hs.nodup
    unbound := hs.unbound
    known := hs.known
    applied := fun g hv => by
      rcases happlied g with heq | ⟨-, -, hd⟩
      · exact hs.applied g (heq.symm.trans hv)
      · exact hd }
  applied_le := fun g v hv => by
    rcases happlied g with heq | ⟨heq, -⟩
    · exact h.applied_le g v (heq.symm.trans hv)
    · exact Nat.le_of_eq (Option.some.inj (heq.symm.trans hv)).symm
  applied_none := fun g hnone => by
    rcases happlied g with heq | ⟨-, hbound, -⟩
    · exact heq.trans (h.applied_none g hnone)
    · exact absurd hnone hbound
  active_pos := h.active_pos

theorem swept_init :
    Swept owner s.reg s.driver.current (fun _ => False)
      (s.reg.regNodes, ⟨s.driver.nodeOn, 0, 0⟩) :=
  ⟨h.sound, fun _ _ hg => absurd hg id⟩

theorem swept_applyAll (answers : Answers) :
    Swept owner s.reg s.driver.current (fun g => g ∈ s.reg.regExec.keys)
      (s.reg.regExec.items.foldl (applyGraph answers s.reg.enabledHooks)
        (s.reg.regNodes, ⟨s.driver.nodeOn, 0, 0⟩)) := by
  have hswept := (swept_init h).foldl answers fun b hb => get?_eq_some.mpr hb
  exact ⟨hswept.sound, fun hfirst g hg => hswept.demanded hfirst g (.inr hg)⟩

end

theorem get?_foldl_target (d : Dict Graph Nat) (items : List (Graph × Exec)) (v : Nat) (g : Graph) :
    (items.foldl (fun d b => d.set b.1 v) d).get? g =
      if g ∈ items.map Prod.fst then some v else d.get? g := by
  rw [← get?_foldl_set, foldl_map]

theorem Inv.applyAll (h : Inv owner s) (answers : Answers) : Inv owner (s.applyAll answers).1 := by
  have hswept := swept_applyAll h answers
  refine h.update hswept.sound fun g => ?_
  split
  next hfirst =>
    rw [get?_foldl_target]
    split
    next hg =>
      exact .inr ⟨rfl, fun hnone => get?_eq_none.mp hnone hg, hswept.demanded hfirst g hg⟩
    · exact .inl rfl
  · exact .inl rfl

variable {answers : Answers}

/-- **A successful `apply_all` leaves every graph as demanded.** -/
theorem Inv.demanded_applyAll (h : Inv owner s)
    (hcode : (s.applyAll answers).2 = 0) (g : Graph) : Demanded (s.applyAll answers).1 g := by
  by_cases hg : g ∈ s.reg.regExec.keys
  · exact (swept_applyAll h answers).demanded hcode g hg
  · intro exec hb
    exact absurd (get?_eq_none.mpr hg) (by
      have hbound : s.reg.regExec.get? g = some exec := hb.1
      simp [hbound])

variable {entries : List RegEntry}

theorem applies_one (h : Inv owner s) (hnodes : s.reg.regNodes.get? g = some entries) (exec : Exec)
    (answers : Answers) :
    Applies s.reg.enabledHooks exec ⟨s.driver.nodeOn, 0, 0⟩ (s.reg.entries g)
      (applyEntries s.reg.enabledHooks exec (answers.setEnabled g) 0 ⟨s.driver.nodeOn, 0, 0⟩
        entries).2
      (applyEntries s.reg.enabledHooks exec (answers.setEnabled g) 0 ⟨s.driver.nodeOn, 0, 0⟩
        entries).1 := by
  have hes : s.reg.entries g = entries := by simp [ToggleRegistry.entries, hnodes]
  rw [hes]
  exact applies_entries _ _ _ (hes ▸ h.sound.nodup g) 0 _

section

variable (h : Inv owner s) (hexec : s.reg.regExec.get? g = some exec)
  (hnodes : s.reg.regNodes.get? g = some entries)
include h hexec hnodes

theorem Inv.applyOne (answers : Answers) : Inv owner (s.applyOne g exec entries answers).1 := by
  have happ := applies_one h hnodes exec answers
  have hsound := h.sound.apply hexec happ
  refine h.update (by rw [nodesOf_set]; exact hsound) fun g' => ?_
  split
  next hfirst =>
    rw [get?_set, nodesOf_set]
    split
    next hg =>
      subst hg
      exact .inr ⟨rfl, by simp [hexec], h.sound.demanded_apply hexec happ hfirst⟩
    · exact .inl rfl
  · exact .inl rfl

theorem Inv.demanded_applyOne (hcode : (s.applyOne g exec entries answers).2 = 0) :
    Demanded (s.applyOne g exec entries answers).1 g := by
  have hd := h.sound.demanded_apply hexec (applies_one h hnodes exec answers) hcode
  have heq : ∀ es, Function.update s.reg.entries g es = nodesOf (s.reg.regNodes.set g es) :=
    fun es => (nodesOf_set s.reg.regNodes g es).symm
  rw [heq] at hd
  exact hd

end

theorem demanded_of_device (hnodes : s.reg.regNodes.get? g = some entries)
    (hdev : (entries.all fun e => e.device) = true) :
    DemandedIn s.reg s.driver.current s.reg.entries s.driver.nodeOn g := by
  intro x _ e he hhost
  have hes : s.reg.entries g = entries := by simp [ToggleRegistry.entries, hnodes]
  rw [hes] at he
  cases hhost.symm.trans (all_eq_true.mp hdev e he)

theorem Inv.ensureCurrent (h : Inv owner s) (g : Graph) (answers : Answers) :
    Inv owner (s.ensureCurrent g answers).1 := by
  unfold System.ensureCurrent
  split
  · exact h
  split
  next exec entries hexec hnodes =>
    split
    · exact h
    split
    next hdev =>
      refine h.update h.sound fun g' => ?_
      rw [get?_set]
      split
      next hg =>
        subst hg
        exact .inr ⟨rfl, by simp [hexec], demanded_of_device hnodes hdev⟩
      · exact .inl rfl
    split
    · exact h
    · exact h.applyOne hexec hnodes answers
  · exact h

/-- **A successful `ensure_current` leaves the graph as demanded**, while the toggle is active. -/
theorem Inv.demanded_ensureCurrent (h : Inv owner s) (hactive : s.reg.toggleActive = true)
    (hcode : (s.ensureCurrent g answers).2 = 0) : Demanded (s.ensureCurrent g answers).1 g := by
  unfold System.ensureCurrent at hcode ⊢
  by_cases hcur : (s.reg.appliedVersion.get? g).getD 0 = s.reg.targetVersion
  · rw [if_pos hcur]
    have hpos := h.active_pos hactive
    refine h.sound.applied g ?_
    -- version 0 stands for a graph that was never applied, and the target is beyond it
    cases hv : s.reg.appliedVersion.get? g with
    | none =>
      rw [hv, Option.getD_none] at hcur
      omega
    | some v =>
      rw [hv, Option.getD_some] at hcur
      rw [hcur]
  rw [if_neg hcur] at hcode ⊢
  cases hexec : s.reg.regExec.get? g with
  | none =>
    intro x hb
    cases hexec.symm.trans hb.1
  | some exec =>
    cases hnodes : s.reg.regNodes.get? g with
    | none =>
      intro x _ e he
      have hnil : s.reg.entries g = [] := by simp [ToggleRegistry.entries, hnodes]
      exact absurd (hnil ▸ he : e ∈ []) not_mem_nil
    | some entries =>
      rw [hexec, hnodes] at hcode
      dsimp only at hcode ⊢
      split_ifs at hcode ⊢ with hforce hdev hwait
      · exact absurd hcode hforce
      · exact demanded_of_device hnodes hdev
      · exact absurd hcode hwait.2.2
      · exact h.demanded_applyOne hexec hnodes hcode

/-! #### The guard and the rest -/

/-- The rule either leaves the system or binds the current exec. -/
theorem Inv.rebindIfReinstantiated (h : Inv owner s) (hfresh : FreshBind s g)
    (ok : Bool) : Inv owner (s.rebindIfReinstantiated g ok).1 := by
  unfold System.rebindIfReinstantiated
  split
  next bound exec _ hcur =>
    split
    · exact h
    · exact h.bind hcur hfresh ok _
  · exact h

theorem rebindIfReinstantiated_active (s : System) (g : Graph) (ok : Bool) :
    (s.rebindIfReinstantiated g ok).1.reg.toggleActive = s.reg.toggleActive := by
  unfold System.rebindIfReinstantiated
  split
  next bound exec _ _ =>
    split
    · rfl
    · obtain ⟨_, _, _, hbind⟩ := bindExec_eq s.reg g exec ok
      rw [hbind]
      unfold forgetOther
      split
      · split_ifs <;> rfl
      · rfl
  · rfl

/-- Recording an event changes nothing that is demanded or cached. -/
theorem recordReplayEvent_eq (g : Graph) (codes : Int × Int) :
    ∃ events, (r.recordReplayEvent g codes).1 = { r with replayEvent := events } := by
  unfold recordReplayEvent
  split_ifs
  all_goals first
    | exact ⟨r.replayEvent, rfl⟩
    | exact ⟨r.replayEvent.set g (), rfl⟩

section

variable (h : Inv owner s)
include h

theorem Inv.recordReplayEvent (g : Graph) (codes : Int × Int) :
    Inv owner { s with reg := (s.reg.recordReplayEvent g codes).1 } := by
  obtain ⟨events, heq⟩ := recordReplayEvent_eq s.reg g codes
  rw [heq]
  exact ⟨⟨h.sound.owned, h.sound.nodup, h.sound.unbound, h.sound.known, h.sound.applied⟩,
    h.applied_le, h.applied_none, h.active_pos⟩

theorem Inv.replayCurrent (g : Graph) (lazy : Bool) (answers : Answers)
    (record : Int × Int) : Inv owner (s.replayCurrent g lazy answers record).1 := by
  have hcurrent := h.ensureCurrent g answers
  unfold System.replayCurrent
  dsimp only
  split
  · exact hcurrent
  split
  · exact hcurrent.recordReplayEvent g record
  · exact hcurrent

/-- A replay that goes through has brought its graph to the enabled set. -/
theorem Inv.demanded_replayCurrent (hactive : s.reg.toggleActive = true)
    {lazy : Bool} {record : Int × Int} (hok : (s.replayCurrent g lazy answers record).2 = .ok ()) :
    Demanded (s.replayCurrent g lazy answers record).1 g := by
  unfold System.replayCurrent at hok ⊢
  dsimp only at hok ⊢
  by_cases herr : (s.ensureCurrent g answers).2 ≠ 0
  · rw [if_pos herr] at hok
    cases hok
  have hd := h.demanded_ensureCurrent hactive (not_not.mp herr)
  rw [if_neg herr]
  cases lazy with
  | true =>
    obtain ⟨events, heq⟩ := recordReplayEvent_eq (s.ensureCurrent g answers).1.reg g record
    rw [heq]
    exact hd
  | false => exact hd

theorem Inv.guardedReplay (hfresh : FreshBind s g) (lazy : Bool)
    (answers : Answers) (record : Int × Int) :
    Inv owner (s.guardedReplay g lazy answers record).1 := by
  have hbound := h.rebindIfReinstantiated hfresh answers.uploaded
  unfold System.guardedReplay
  dsimp only
  split
  · exact hbound
  split
  · exact hbound.replayCurrent g lazy answers record
  · exact hbound

/-- **A lazy replay that goes through has its graph as demanded.** -/
theorem Inv.demanded_guardedReplay (hactive : s.reg.toggleActive = true)
    (hfresh : FreshBind s g) {record : Int × Int}
    (hok : (s.guardedReplay g true answers record).2 = .ok ()) :
    Demanded (s.guardedReplay g true answers record).1 g := by
  have hbound := h.rebindIfReinstantiated hfresh answers.uploaded
  have hactive' := (rebindIfReinstantiated_active s g answers.uploaded).trans hactive
  unfold System.guardedReplay at hok ⊢
  dsimp only at hok ⊢
  by_cases hready : ¬ (s.rebindIfReinstantiated g answers.uploaded).1.reg.isReady g = true
  · rw [if_pos hready] at hok
    cases hok
  rw [if_neg hready, Bool.true_or, if_pos rfl] at hok ⊢
  exact hbound.demanded_replayCurrent hactive' hok

end

theorem Inv.clear (answers : Answers) : Inv owner (s.clear answers) where
  sound := sound_nil
  applied_le := fun g v hv => by cases hv
  applied_none := fun g _ => rfl
  active_pos := fun hactive => by cases hactive

/-- **Every operation that meets the condition keeps the records right.** -/
theorem Inv.step {s' : System} {a : Act} (h : Inv owner s) (hok : Ok s a)
    (hstep : Toggle.step owner s a = some s') : Inv owner s' := by
  cases a with
  | registerNode g hookType layerNo node =>
    obtain ⟨howner, ⟨⟩⟩ := Option.ite_none_right_eq_some.mp hstep
    exact h.registerNode howner hok
  | instantiate g exec =>
    obtain ⟨hfree, ⟨⟩⟩ := Option.ite_none_right_eq_some.mp hstep
    exact h.instantiate hfree hok
  | bindGraph g uploaded =>
    obtain ⟨exec, hcur, rfl⟩ := Option.map_eq_some_iff.mp hstep
    exact h.bind hcur hok uploaded _
  | setEnabled enabled =>
    cases hstep
    exact h.setEnabled enabled
  | applyAll answers =>
    cases hstep
    exact h.applyAll answers
  | ensureCurrent g answers =>
    cases hstep
    exact h.ensureCurrent g answers
  | guardedReplay g lazy answers record =>
    cases hstep
    exact h.guardedReplay hok lazy answers record
  | recordReplayEvent g codes =>
    cases hstep
    exact h.recordReplayEvent g codes
  | registerDeviceEntry _ _ | setPreApplySync _ | forceApplyError _ =>
    cases hstep
    exact ⟨⟨h.sound.owned, h.sound.nodup, h.sound.unbound, h.sound.known, h.sound.applied⟩,
      h.applied_le, h.applied_none, h.active_pos⟩
  | clear answers =>
    cases hstep
    exact Inv.clear answers

end Keeps

/-! ### Every run -/

/-- **In every run whose operations meet the condition, while the toggle is active, a successful
`apply_all` leaves every graph, a successful `ensure_current` its graph, and a lazy replay that
goes through its graph, with each host-managed node of the bound and current exec in the state that
the enabled set demands.** -/
theorem toggled_nodes_are_current (owner : Node → Graph) (as : List Act) (s : System)
    (hrun : run (step owner) {} as = some s) (hok : Along (step owner) Ok {} as)
    (hactive : s.reg.toggleActive = true) :
    (∀ answers, (s.applyAll answers).2 = 0 → ∀ g, Demanded (s.applyAll answers).1 g) ∧
    (∀ g answers, (s.ensureCurrent g answers).2 = 0 → Demanded (s.ensureCurrent g answers).1 g) ∧
    ∀ g answers record, FreshBind s g → (s.guardedReplay g true answers record).2 = .ok () →
      Demanded (s.guardedReplay g true answers record).1 g := by
  have h : Inv owner s := run_invariant Inv.step inv_init hok hrun
  exact ⟨fun answers hcode g => h.demanded_applyAll hcode g,
    fun g answers hcode => h.demanded_ensureCurrent hactive hcode,
    fun g answers record hfresh hreplay => h.demanded_guardedReplay hactive hfresh hreplay⟩

/-- A node registered, bound and switched off by an empty enabled set, after which the graph is
instantiated again. -/
def instantiatedTwice (second : Exec) : List Act :=
  [.registerNode 1 0 0 7, .instantiate 1 20, .bindGraph 1 true, .setEnabled [],
    .ensureCurrent 1 {}, .instantiate 1 second, .guardedReplay 1 true {} (0, 0)]

theorem toggled_nodes_are_current_newHandle :
    ∃ s, run (step fun _ => 1) {} (instantiatedTwice 21) = some s ∧
      s.driver.nodeOn 21 7 = false ∧ Demanded (s.ensureCurrent 1 {}).1 1 := by
  obtain ⟨s, hs⟩ : ∃ s, run (step fun _ => 1) {} (instantiatedTwice 21) = some s :=
    ⟨_, rfl⟩
  refine ⟨s, hs, ?_, (toggled_nodes_are_current (fun _ => 1) (instantiatedTwice 21) s hs
    (by decide +kernel) ?_).2.1 1 {} ?_⟩
  all_goals
    cases hs
    decide +kernel

/-- Under the handle of the freed exec the new one is not told from it: the graph is reported
current, and the node that the enabled set switches off runs. -/
theorem reused_handle_runs_disabled_node :
    ∃ s, run (step fun _ => 1) {} (instantiatedTwice 20) = some s ∧
      s.reg.toggleActive = true ∧ (s.ensureCurrent 1 {}).2 = 0 ∧
      ¬ Demanded (s.ensureCurrent 1 {}).1 1 := by
  refine ⟨_, rfl, by decide +kernel, by decide +kernel, fun hd => ?_⟩
  have hnode := hd 20 ⟨by decide +kernel, by decide +kernel⟩
  exact absurd hnode (by decide +kernel)

end Dmi.Toggle
