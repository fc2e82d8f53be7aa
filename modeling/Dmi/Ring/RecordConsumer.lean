import Dmi.Lib.Lts
import Mathlib.Data.Finset.Card
import Mathlib.Data.Finset.Dedup

/-!
# The record consumer

The producer pushes one descriptor for every payload, and the drain delivers the payloads; the
consumer hands both to the sink.  Every function below is one section under the consumer's mutex.
`consume_payload` has two, with the call of the sink between them.

A failure is latched.  Under `raiseAtProducer` it is raised from every later call; under
`disableCapture` everything that is queued or comes later is discarded and counted.  A discard
window skips the rest of a step: it drops the descriptors that are queued or pushed while it is
open, and owes one payload for each of them.
-/

namespace Dmi.Ring

inductive RecordFailurePolicy where
  | raiseAtProducer
  | disableCapture
deriving DecidableEq, Repr

/-- An encoded descriptor; a row is what the sink makes of it. -/
structure RecordDescriptor (ρ : Type) where
  layout : String
  rows : List ρ
deriving DecidableEq

/-- A descriptor and the step that it was pushed in. -/
structure QueuedDescriptor (ρ : Type) where
  descriptor : RecordDescriptor ρ
  step : Nat
deriving DecidableEq

/-- What the consumer checks of a payload tensor. -/
structure PayloadTensor where
  isDefined : Bool
  onCpu : Bool
  isByte : Bool
  dim : Nat
  isContiguous : Bool
deriving DecidableEq

structure RecordConsumer (ρ : Type) where
  policy : RecordFailurePolicy
  hasSink : Bool := true
  descriptors : List (QueuedDescriptor ρ) := []
  step : Nat := 0
  failure : Option String := none
  activePayloads : Nat := 0
  discarding : Bool := false
  payloadsToDiscard : Nat := 0
  discardedDescriptors : Nat := 0
  discardedPayloads : Nat := 0
  stepsWithDiscards : Nat := 0
  lastDiscardedStep : Option Nat := none
deriving DecidableEq

variable {ρ : Type}

namespace RecordConsumer

variable (c : RecordConsumer ρ)

/-- The first failure is kept; where capture is disabled the queued descriptors go, and nothing is
owed any more. -/
def latchLocked (failure : String) : RecordConsumer ρ :=
  let c := { c with failure := c.failure.or (some failure) }
  match c.policy with
  | .raiseAtProducer => c
  | .disableCapture =>
    { c with
      discardedDescriptors := c.discardedDescriptors + c.descriptors.length
      descriptors := []
      payloadsToDiscard := 0 }

def noteDiscardedStepLocked (step : Nat) : RecordConsumer ρ :=
  if c.lastDiscardedStep = some step then c
  else { c with lastDiscardedStep := some step, stepsWithDiscards := c.stepsWithDiscards + 1 }

/-- Whether the next payload is discarded. -/
def takeUnwantedPayloadLocked : Bool × RecordConsumer ρ :=
  match c.failure with
  | some _ =>
    match c.policy with
    | .raiseAtProducer => (false, c)
    | .disableCapture => (true, { c with discardedPayloads := c.discardedPayloads + 1 })
  | none =>
    if c.payloadsToDiscard = 0 then (false, c)
    else
      (true, { c with
        payloadsToDiscard := c.payloadsToDiscard - 1
        discardedPayloads := c.discardedPayloads + 1 })

def discardNextPayloadIfUnwanted : Bool × RecordConsumer ρ := c.takeUnwantedPayloadLocked

def beginStep : RecordConsumer ρ := { c with step := c.step + 1 }

def pushDescriptor (descriptor : RecordDescriptor ρ) : Except String (RecordConsumer ρ) :=
  match c.failure with
  | some failure =>
    match c.policy with
    | .raiseAtProducer => .error failure
    | .disableCapture => .ok { c with discardedDescriptors := c.discardedDescriptors + 1 }
  | none =>
    if c.discarding then
      .ok ({ c with
        discardedDescriptors := c.discardedDescriptors + 1
        payloadsToDiscard := c.payloadsToDiscard + 1 }.noteDiscardedStepLocked c.step)
    else .ok { c with descriptors := c.descriptors ++ [⟨descriptor, c.step⟩] }

def pushDescriptors (descriptors : List (RecordDescriptor ρ)) :
    Except String (RecordConsumer ρ) :=
  match c.failure with
  | some failure =>
    match c.policy with
    | .raiseAtProducer => .error failure
    | .disableCapture =>
      .ok { c with discardedDescriptors := c.discardedDescriptors + descriptors.length }
  | none =>
    if c.discarding then
      let c' := { c with
        discardedDescriptors := c.discardedDescriptors + descriptors.length
        payloadsToDiscard := c.payloadsToDiscard + descriptors.length }
      .ok (if descriptors.isEmpty then c' else c'.noteDiscardedStepLocked c.step)
    else .ok { c with descriptors := c.descriptors ++ descriptors.map (⟨·, c.step⟩) }

/-- What the first section of `consume_payload` comes to. -/
inductive Taken (ρ : Type) where
  | raised (failure : String)
  | discarded
  | active (descriptor : RecordDescriptor ρ)
deriving DecidableEq

def missingDescriptor : String :=
  "record consumer: physical payload arrived without an encoded descriptor"

/-- The first section of `consume_payload`. -/
def takePayload : Taken ρ × RecordConsumer ρ :=
  match c.failure, c.policy with
  | some failure, .raiseAtProducer => (.raised failure, c)
  | _, _ =>
    match c.takeUnwantedPayloadLocked with
    | (true, c') => (.discarded, c')
    | (false, _) =>
      match c.descriptors with
      | [] =>
        let c' := c.latchLocked missingDescriptor
        match c.policy with
        | .raiseAtProducer => (.raised missingDescriptor, c')
        | .disableCapture =>
          (.discarded, { c' with discardedPayloads := c'.discardedPayloads + 1 })
      | queued :: rest =>
        (.active queued.descriptor,
          { c with descriptors := rest, activePayloads := c.activePayloads + 1 })

/-- The part of `consume_payload` outside the mutex: whether the envelope was handed to the sink.
`refusal` is what the sink's `submit` throws, if anything. -/
def submitPayload (descriptor : RecordDescriptor ρ) (payload : PayloadTensor)
    (refusal : Option String) : Except String Bool :=
  if !payload.isDefined || !payload.onCpu || !payload.isByte || payload.dim != 1 ||
      !payload.isContiguous then
    .error ("record consumer: physical payload must be a contiguous one-dimensional CPU byte " ++
      "tensor")
  else if descriptor.layout = "" then .error "record consumer: record layout is empty"
  else if descriptor.rows.isEmpty then .ok false
  else if !c.hasSink then .error "record consumer: record sink is not configured"
  else
    match refusal with
    | some failure => .error failure
    | none => .ok true

/-- The second section of `consume_payload`. -/
def retirePayload (outcome : Except String Bool) : RecordConsumer ρ :=
  match outcome with
  | .ok _ => { c with activePayloads := c.activePayloads - 1 }
  | .error failure =>
    let c' := c.latchLocked failure
    { c' with
      activePayloads := c'.activePayloads - 1
      discardedPayloads :=
        match c.policy with
        | .raiseAtProducer => c'.discardedPayloads
        | .disableCapture => c'.discardedPayloads + 1 }

def recordFailure (failure : String) : RecordConsumer ρ := c.latchLocked failure

/-- What `wait_until_idle` returns when it wakes up for the last time. -/
def waitUntilIdle : Except String Bool :=
  match c.failure with
  | some failure => .error failure
  | none =>
    .ok (c.descriptors.isEmpty && c.activePayloads == 0 && c.payloadsToDiscard == 0)

def beginDiscardWindow : RecordConsumer ρ :=
  let c' := (c.descriptors.map (·.step)).foldl noteDiscardedStepLocked
    { c with discarding := true }
  { c' with
    discardedDescriptors := c'.discardedDescriptors + c.descriptors.length
    payloadsToDiscard := c'.payloadsToDiscard + c.descriptors.length
    descriptors := [] }

def endDiscardWindow : RecordConsumer ρ := { c with discarding := false }

end RecordConsumer

/-! ### Runs -/

/-- What became of a delivered payload: it was discarded, its delivery raised, it is with the sink,
or it came back from there: handed over, without rows to hand over, or refused. -/
inductive Fate (ρ : Type) where
  | discarded
  | raised
  | active (descriptor : RecordDescriptor ρ)
  | handed (descriptor : RecordDescriptor ρ)
  | rowless (descriptor : RecordDescriptor ρ)
  | refused (descriptor : RecordDescriptor ρ)
deriving DecidableEq

/-- The descriptor that a payload was paired with. -/
def Fate.descriptor : Fate ρ → Option (RecordDescriptor ρ)
  | .discarded | .raised => none
  | .active d | .handed d | .rowless d | .refused d => some d

def Fate.isActive : Fate ρ → Bool
  | .active _ => true
  | _ => false

/-- The payload was delivered and is not stored. -/
def Fate.isLost : Fate ρ → Bool
  | .discarded | .raised | .refused _ => true
  | .active _ | .handed _ | .rowless _ => false

/-- The consumer with its history: the descriptors pushed, what became of the payloads delivered,
both from the first on, and the steps of the descriptors that discard windows dropped. -/
structure RecordFlow (ρ : Type) where
  consumer : RecordConsumer ρ
  pushed : List (QueuedDescriptor ρ) := []
  fates : List (Fate ρ) := []
  lostSteps : List Nat := []
deriving DecidableEq

inductive FlowAct (ρ : Type) where
  | beginStep
  | pushDescriptor (descriptor : RecordDescriptor ρ)
  | pushDescriptors (descriptors : List (RecordDescriptor ρ))
  /-- The worker asks whether to copy the next payload at all. -/
  | discardNextPayloadIfUnwanted
  /-- The worker delivers the next payload. -/
  | takePayload
  /-- The payload `k` comes back from the sink. -/
  | retirePayload (k : Nat) (payload : PayloadTensor) (refusal : Option String)
  | recordFailure (failure : String)
  | beginDiscardWindow
  | endDiscardWindow
deriving DecidableEq

namespace RecordFlow

/-- The history of a push; a push that raises leaves the consumer as it is. -/
def push (s : RecordFlow ρ) (descriptors : List (RecordDescriptor ρ))
    (result : Except String (RecordConsumer ρ)) : RecordFlow ρ :=
  { s with
    consumer := result.toOption.getD s.consumer
    pushed := s.pushed ++ descriptors.map (⟨·, s.consumer.step⟩)
    lostSteps := s.lostSteps ++
      if s.consumer.failure = none ∧ s.consumer.discarding = true then
        List.replicate descriptors.length s.consumer.step
      else [] }

/-- A payload is delivered after its descriptor was pushed. -/
def CanDeliver (s : RecordFlow ρ) : Prop := s.fates.length < s.pushed.length

instance (s : RecordFlow ρ) : Decidable s.CanDeliver := inferInstanceAs (Decidable (_ < _))

def fateOf : RecordConsumer.Taken ρ → Fate ρ
  | .raised _ => .raised
  | .discarded => .discarded
  | .active d => .active d

/-- The fate of a payload that comes back from the sink. -/
def settled (d : RecordDescriptor ρ) : Except String Bool → Fate ρ
  | .ok true => .handed d
  | .ok false => .rowless d
  | .error _ => .refused d

end RecordFlow

open RecordFlow in
def flowStep (s : RecordFlow ρ) : FlowAct ρ → Option (RecordFlow ρ)
  | .beginStep => some { s with consumer := s.consumer.beginStep }
  | .pushDescriptor d => some (s.push [d] (s.consumer.pushDescriptor d))
  | .pushDescriptors ds => some (s.push ds (s.consumer.pushDescriptors ds))
  | .discardNextPayloadIfUnwanted =>
    if s.CanDeliver then
      match s.consumer.discardNextPayloadIfUnwanted with
      | (true, c) => some { s with consumer := c, fates := s.fates ++ [.discarded] }
      | (false, c) => some { s with consumer := c }
    else none
  | .takePayload =>
    if s.CanDeliver then
      let (taken, c) := s.consumer.takePayload
      some { s with consumer := c, fates := s.fates ++ [fateOf taken] }
    else none
  | .retirePayload k payload refusal =>
    match s.fates[k]? with
    | some (.active d) =>
      let outcome := s.consumer.submitPayload d payload refusal
      some { s with
        consumer := s.consumer.retirePayload outcome, fates := s.fates.set k (settled d outcome) }
    | _ => none
  | .recordFailure failure => some { s with consumer := s.consumer.recordFailure failure }
  | .beginDiscardWindow =>
    some { s with
      consumer := s.consumer.beginDiscardWindow
      lostSteps := s.lostSteps ++ s.consumer.descriptors.map (·.step) }
  | .endDiscardWindow => some { s with consumer := s.consumer.endDiscardWindow }

end Dmi.Ring
