import Dmi.Lib.Dict
import Dmi.Lib.Lts

/-! # The registry of toggled graph nodes

A captured CUDA graph holds one kernel node per hook. The registry switches these nodes on and off
in the instantiated graph (its exec), one driver call per node, so that a step publishes the hooks
of the enabled set. To save calls it keeps two records: which version of the enabled set a graph
was last brought to, and which state each node was last set to. Re-instantiating a graph gives it a
new exec, with every node on. The replay guard binds the new exec before the graph runs again if its
handle is not the one bound before.

Driver calls are answered by the environment: any call may fail. The driver gives the handles; a
freed handle may be given again.
-/

namespace Dmi.Toggle

abbrev Graph := Nat
abbrev Exec := Nat
abbrev Node := Nat

/-- A hook type and a layer. -/
abbrev HookKey := Int × Int

/-! ### State -/

/-- One registered kernel node. A fused producer has a second key. -/
structure RegEntry where
  hookType : Int
  layerNo : Int
  node : Node
  lastEnabled : Bool := true
  stateKnown : Bool := true
  device : Bool := false
  altHookType : Int := -1
  altLayerNo : Int := -1
deriving DecidableEq

structure ToggleRegistry where
  regNodes : Dict Graph (List RegEntry) := Dict.empty
  regExec : Dict Graph Exec := Dict.empty
  registeredHooks : List HookKey := []
  enabledHooks : List HookKey := []
  toggleActive : Bool := false
  lastApplyCount : Nat := 0
  preApplySync : Bool := false
  targetVersion : Nat := 0
  appliedVersion : Dict Graph Nat := Dict.empty
  replayEvent : Dict Graph Unit := Dict.empty
  forceApplyError : Int := 0
  anomaly : Nat := 0
  version : Nat := 0
  devNodes : List Node := []
  devGraphs : List Graph := []
  devUploaded : List Exec := []

/-- What the driver holds: the exec of each graph, and for each handle the nodes that run. -/
structure Driver where
  current : Dict Graph Exec := Dict.empty
  nodeOn : Exec → Node → Bool := fun _ _ => true

/-- The registry, the driver, and the exec that the replay guard has noted for each graph. -/
structure System where
  reg : ToggleRegistry := {}
  driver : Driver := {}
  boundExec : Dict Graph Exec := Dict.empty

/-- The answers to the calls of one operation: the code for the node at a place in its graph's
list, the code of the wait for the previous replay, and whether an upload succeeds. -/
structure Answers where
  setEnabled : Graph → Nat → Int := fun _ _ => 0
  wait : Int := 0
  uploaded : Bool := true

/-! ### Nodes -/

def RegEntry.current (e : RegEntry) (on : Bool) : Bool := e.stateKnown && on == e.lastEnabled

def entryOn (enabled : List HookKey) (e : RegEntry) : Bool :=
  (e.hookType, e.layerNo) ∈ enabled ||
    (0 ≤ e.altHookType && (e.altHookType, e.altLayerNo) ∈ enabled)

def ToggleRegistry.entries (r : ToggleRegistry) (g : Graph) : List RegEntry :=
  (r.regNodes.get? g).getD []

/-- The key belongs to the node that was registered last, as its second one. -/
def merges (entries : List RegEntry) (hookType layerNo : Int) (node : Node) : Bool :=
  match entries.getLast? with
  | some last =>
    last.node = node && last.altHookType < 0 &&
      !(last.hookType = hookType && last.layerNo = layerNo)
  | none => false

def withNode (entries : List RegEntry) (hookType layerNo : Int) (node : Node) (device : Bool) :
    List RegEntry :=
  if merges entries hookType layerNo node then
    entries.dropLast ++ (entries.getLast?.map fun last =>
      { last with altHookType := hookType, altLayerNo := layerNo }).toList
  else entries ++ [{ hookType := hookType, layerNo := layerNo, node := node, device := device }]

def ToggleRegistry.registerNode (r : ToggleRegistry) (g : Graph) (hookType layerNo : Int)
    (node : Node) : ToggleRegistry :=
  { r with
    regNodes := r.regNodes.set g (withNode (r.entries g) hookType layerNo node (node ∈ r.devNodes))
    registeredHooks := (hookType, layerNo) :: r.registeredHooks
    version := r.version + 1 }

/-! ### Execs -/

def ToggleRegistry.uploadDeviceGraph (r : ToggleRegistry) (g : Graph) (exec : Exec) (ok : Bool) :
    ToggleRegistry :=
  if g ∉ r.devGraphs ∨ exec ∈ r.devUploaded then r
  else if ok then { r with devUploaded := exec :: r.devUploaded }
  else { r with anomaly := r.anomaly + 1 }

/-- Nothing recorded for the old exec of the graph describes the new one. -/
def ToggleRegistry.forget (r : ToggleRegistry) (g : Graph) (old : Exec) : ToggleRegistry :=
  { r with
    appliedVersion := r.appliedVersion.erase g
    regNodes :=
      match r.regNodes.get? g with
      | some entries => r.regNodes.set g (entries.map fun e => { e with stateKnown := false })
      | none => r.regNodes
    replayEvent := r.replayEvent.erase g
    devUploaded := r.devUploaded.filter (· ≠ old) }

/-- What binding forgets: nothing, unless another exec was bound before. -/
def ToggleRegistry.forgetOther (r : ToggleRegistry) (g : Graph) (exec : Exec) : ToggleRegistry :=
  match r.regExec.get? g with
  | some old => if old ≠ exec then r.forget g old else r
  | none => r

def ToggleRegistry.bindExec (r : ToggleRegistry) (g : Graph) (exec : Exec) (uploaded : Bool) :
    ToggleRegistry :=
  let r := r.forgetOther g exec
  let r := { r with regExec := r.regExec.set g exec }
  let r := r.uploadDeviceGraph g exec uploaded
  { r with version := r.version + 1 }

/-- `bind_graph`. A graph without an exec is instantiated first. -/
def System.bindGraph (s : System) (g : Graph) (uploaded : Bool) : Option System :=
  (s.driver.current.get? g).map fun exec =>
    { s with reg := s.reg.bindExec g exec uploaded, boundExec := s.boundExec.set g exec }

/-- The guard's rule: a graph whose exec is not the one noted is bound again. The flag says
whether it was. -/
def System.rebindIfReinstantiated (s : System) (g : Graph) (uploaded : Bool) : System × Bool :=
  match s.boundExec.get? g, s.driver.current.get? g with
  | some bound, some exec =>
    if exec = bound then (s, false)
    else
      ({ s with reg := s.reg.bindExec g exec uploaded, boundExec := s.boundExec.set g exec }, true)
  | _, _ => (s, false)

/-- The driver instantiates the graph: the old exec is freed, every node of the new one runs. -/
def Driver.instantiate (d : Driver) (g : Graph) (exec : Exec) : Driver where
  current := d.current.set g exec
  nodeOn := Function.update d.nodeOn exec fun _ => true

/-! ### Applying the enabled set -/

def ToggleRegistry.setEnabled (r : ToggleRegistry) (enabled : List HookKey) : ToggleRegistry :=
  { r with
    enabledHooks := enabled
    toggleActive := true
    targetVersion := r.targetVersion + 1 }

/-- What an apply loop carries: the nodes, the first error, the number of nodes set. -/
structure Applying where
  nodeOn : Exec → Node → Bool
  first : Int
  applied : Nat

def setNode (nodeOn : Exec → Node → Bool) (exec : Exec) (node : Node) (on : Bool) :
    Exec → Node → Bool :=
  Function.update nodeOn exec (Function.update (nodeOn exec) node on)

/-- One iteration of the apply loops. -/
def applyEntry (enabled : List HookKey) (exec : Exec) (answer : Int) (a : Applying)
    (e : RegEntry) : RegEntry × Applying :=
  let on := entryOn enabled e
  if e.device then (e, a)
  else if e.current on then (e, a)
  else if answer ≠ 0 then (e, { a with first := if a.first = 0 then answer else a.first })
  else
    ({ e with lastEnabled := on, stateKnown := true },
      { a with nodeOn := setNode a.nodeOn exec e.node on, applied := a.applied + 1 })

/-- The loop over the nodes of one graph, from place `i` of its list on. -/
def applyEntries (enabled : List HookKey) (exec : Exec) (answer : Nat → Int) :
    Nat → Applying → List RegEntry → List RegEntry × Applying
  | _, a, [] => ([], a)
  | i, a, e :: es =>
    let (e', a) := applyEntry enabled exec (answer i) a e
    let (es', a) := applyEntries enabled exec answer (i + 1) a es
    (e' :: es', a)

/-- The nodes of one bound graph, in the loop of `apply_all`. -/
def applyGraph (answers : Answers) (enabled : List HookKey)
    (state : Dict Graph (List RegEntry) × Applying) (bound : Graph × Exec) :
    Dict Graph (List RegEntry) × Applying :=
  match state.1.get? bound.1 with
  | none => state
  | some entries =>
    let (entries, a) :=
      applyEntries enabled bound.2 (answers.setEnabled bound.1) 0 state.2 entries
    (state.1.set bound.1 entries, a)

def System.applyAll (s : System) (answers : Answers) : System × Int :=
  let (regNodes, a) := s.reg.regExec.items.foldl (applyGraph answers s.reg.enabledHooks)
    (s.reg.regNodes, ⟨s.driver.nodeOn, 0, 0⟩)
  let appliedVersion :=
    if a.first = 0 then
      s.reg.regExec.items.foldl (fun d b => d.set b.1 s.reg.targetVersion) s.reg.appliedVersion
    else s.reg.appliedVersion
  ({ s with
      reg := { s.reg with
        regNodes := regNodes, appliedVersion := appliedVersion, lastApplyCount := a.applied }
      driver := { s.driver with nodeOn := a.nodeOn } },
    a.first)

/-- The loop of `ensure_current`, for a graph that is stale. -/
def System.applyOne (s : System) (g : Graph) (exec : Exec) (entries : List RegEntry)
    (answers : Answers) : System × Int :=
  let (entries, a) := applyEntries s.reg.enabledHooks exec (answers.setEnabled g) 0
    ⟨s.driver.nodeOn, 0, 0⟩ entries
  ({ s with
      reg := { s.reg with
        regNodes := s.reg.regNodes.set g entries
        appliedVersion :=
          if a.first = 0 then s.reg.appliedVersion.set g s.reg.targetVersion
          else s.reg.appliedVersion }
      driver := { s.driver with nodeOn := a.nodeOn } },
    a.first)

def System.ensureCurrent (s : System) (g : Graph) (answers : Answers) : System × Int :=
  if (s.reg.appliedVersion.get? g).getD 0 = s.reg.targetVersion then (s, 0)
  else
    match s.reg.regExec.get? g, s.reg.regNodes.get? g with
    | some exec, some entries =>
      if s.reg.forceApplyError ≠ 0 then (s, s.reg.forceApplyError)
      else if entries.all fun e => e.device then
        -- the planner in the graph sets every node from its own row
        ({ s with reg := { s.reg with
            appliedVersion := s.reg.appliedVersion.set g s.reg.targetVersion } }, 0)
      else if s.reg.preApplySync ∧ s.reg.replayEvent.get? g ≠ none ∧ answers.wait ≠ 0 then
        (s, answers.wait)
      else s.applyOne g exec entries answers
    | _, _ => (s, 0)

/-- `clear` switches the nodes of bound graphs on again, as far as the driver lets it, and drops
everything. -/
def clearEntry (exec : Exec) (answer : Int) (nodeOn : Exec → Node → Bool) (e : RegEntry) :
    Exec → Node → Bool :=
  if (e.stateKnown && e.lastEnabled) || e.device then nodeOn
  else if answer = 0 then setNode nodeOn exec e.node true
  else nodeOn

def clearEntries (exec : Exec) (answer : Nat → Int) :
    Nat → (Exec → Node → Bool) → List RegEntry → Exec → Node → Bool
  | _, nodeOn, [] => nodeOn
  | i, nodeOn, e :: es =>
    clearEntries exec answer (i + 1) (clearEntry exec (answer i) nodeOn e) es

def System.clear (s : System) (answers : Answers) : System :=
  let nodeOn := s.reg.regNodes.items.foldl (fun nodeOn nodes =>
    match s.reg.regExec.get? nodes.1 with
    | none => nodeOn
    | some exec => clearEntries exec (answers.setEnabled nodes.1) 0 nodeOn nodes.2) s.driver.nodeOn
  { s with
    reg := {
      preApplySync := s.reg.preApplySync, forceApplyError := s.reg.forceApplyError
      version := s.reg.version + 1 }
    driver := { s.driver with nodeOn := nodeOn } }

/-! ### The replay guard -/

inductive ReplayError where
  | notReady | applyFailed (code : Int) | recordFailed (code : Int)
deriving DecidableEq

def ToggleRegistry.isReady (r : ToggleRegistry) (g : Graph) : Bool :=
  (r.regNodes.get? g).isSome && (r.regExec.get? g).isSome

/-- The event of a replay is recorded for a bound graph, if anyone waits for it. The codes are those
of creating the event, the first time, and of recording it. -/
def ToggleRegistry.recordReplayEvent (r : ToggleRegistry) (g : Graph) (codes : Int × Int) :
    ToggleRegistry × Int :=
  if ¬ r.preApplySync then (r, 0)
  else if r.regExec.get? g = none then (r, 0)
  else if r.replayEvent.get? g = none ∧ codes.1 ≠ 0 then (r, codes.1)
  else ({ r with replayEvent := r.replayEvent.set g () }, codes.2)

/-- The graph is brought to the enabled set and replayed. In lazy mode the replay's event is
recorded. -/
def System.replayCurrent (s : System) (g : Graph) (lazy : Bool) (answers : Answers)
    (record : Int × Int) : System × Except ReplayError Unit :=
  let (s, err) := s.ensureCurrent g answers
  if err ≠ 0 then (s, .error (.applyFailed err))
  else if lazy then
    let (reg, err) := s.reg.recordReplayEvent g record
    ({ s with reg := reg }, if err ≠ 0 then .error (.recordFailed err) else .ok ())
  else (s, .ok ())

/-- `_guarded_replay` of a graph of the registry. In eager mode only a freshly bound exec is
brought to the enabled set here. -/
def System.guardedReplay (s : System) (g : Graph) (lazy : Bool) (answers : Answers)
    (record : Int × Int) : System × Except ReplayError Unit :=
  let (s, rebound) := s.rebindIfReinstantiated g answers.uploaded
  if ¬ s.reg.isReady g then (s, .error .notReady)
  else if lazy || rebound then s.replayCurrent g lazy answers record
  else (s, .ok ())

/-! ### Runs -/

inductive Act where
  | registerNode (g : Graph) (hookType layerNo : Int) (node : Node)
  | registerDeviceEntry (g : Graph) (node : Node)
  | instantiate (g : Graph) (exec : Exec)
  | bindGraph (g : Graph) (uploaded : Bool)
  | setEnabled (enabled : List HookKey)
  | applyAll (answers : Answers)
  | ensureCurrent (g : Graph) (answers : Answers)
  | guardedReplay (g : Graph) (lazy : Bool) (answers : Answers) (record : Int × Int)
  | recordReplayEvent (g : Graph) (codes : Int × Int)
  | setPreApplySync (enabled : Bool)
  | forceApplyError (code : Int)
  | clear (answers : Answers)

section Steps

variable (owner : Node → Graph)

/-- One operation. A node handle belongs to one graph, and the producer registers it for that
graph; the handle of a new exec is not that of another graph's exec. -/
def step (s : System) : Act → Option System
  | .registerNode g hookType layerNo node =>
    if owner node = g then some { s with reg := s.reg.registerNode g hookType layerNo node }
    else none
  | .registerDeviceEntry g node =>
    some { s with reg := { s.reg with
      devNodes := node :: s.reg.devNodes, devGraphs := g :: s.reg.devGraphs } }
  | .instantiate g exec =>
    if ∀ x ∈ s.driver.current.items, x.1 ≠ g → x.2 ≠ exec then
      some { s with driver := s.driver.instantiate g exec }
    else none
  | .bindGraph g uploaded => s.bindGraph g uploaded
  | .setEnabled enabled => some { s with reg := s.reg.setEnabled enabled }
  | .applyAll answers => some (s.applyAll answers).1
  | .ensureCurrent g answers => some (s.ensureCurrent g answers).1
  | .guardedReplay g lazy answers record => some (s.guardedReplay g lazy answers record).1
  | .recordReplayEvent g codes => some { s with reg := (s.reg.recordReplayEvent g codes).1 }
  | .setPreApplySync enabled => some { s with reg := { s.reg with preApplySync := enabled } }
  | .forceApplyError code => some { s with reg := { s.reg with forceApplyError := code } }
  | .clear answers => some (s.clear answers)

end Steps

end Dmi.Toggle
