import Mathlib.Data.List.Basic
import Mathlib.Logic.Function.Iterate

/-!
# Submitting items to a stage queue

`PipelinedEngine::enqueue_many_` hands items to the queue one by one under an `EnqueuePolicy`;
`enqueue_one_` tries again after a refusal for want of room under the policy `RETRY`.

The queue takes its item by value, so each attempt moves from `item`, also one that is refused:
what is left of a `std::vector` is the empty one, what is left of a `std::string` is unspecified
(`rest`). A second attempt submits that. What the queue answers to an attempt, and the stop event
as it is read, are inputs; `block`, `timeout` and the backoff act through them only.

The counters are kept in an engine that is profiled only. In any other, such as `DMXHostEngine`, an
item that is dropped leaves no trace.
-/

namespace Dmi.Engine

open List

/-- `DmxHostRow`: a row of fixed inference cells, or of a schema-driven record. -/
inductive HostRow (V W : Type) where
  | clickHouse (cells : List V)
  | record (layout : String) (cells : List W)
  deriving DecidableEq

/-- `dmx_host_queue_item`. -/
structure HostItem (V W : Type) where
  itemSize : Nat
  row : HostRow V W
  deriving DecidableEq

inductive OnFullPolicy where
  | raise
  | drop
  | retry
  | abort
  deriving DecidableEq

inductive OnClosedPolicy where
  | raise
  | drop
  deriving DecidableEq

structure EnqueuePolicy where
  onFull : OnFullPolicy
  maxRetries : Int
  onClosed : OnClosedPolicy
  dropIfStopping : Bool

/-- What `q.enqueue` throws: `std::invalid_argument` is for an empty item or a bad timeout. -/
inductive EnqueueError where
  | itemTooLarge
  | queueFull
  | queueClosed
  | invalidArgument
  deriving DecidableEq

/-- One call of `q.enqueue`: what it throws, if it throws, and the stop event as it is read
before the next one. -/
structure Attempt where
  thrown : Option EnqueueError
  stopping : Bool

/-- What `enqueue_one_` meets: the stop event as it is read first, and its attempts. -/
structure Turn where
  stopping : Bool
  attempt : Nat → Attempt

structure QueueStats where
  enqueued : Nat := 0
  dropped : Nat := 0
  fullErrors : Nat := 0
  closedErrors : Nat := 0
  tooLargeErrors : Nat := 0
  retries : Nat := 0

def QueueStats.add (a b : QueueStats) : QueueStats where
  enqueued := a.enqueued + b.enqueued
  dropped := a.dropped + b.dropped
  fullErrors := a.fullErrors + b.fullErrors
  closedErrors := a.closedErrors + b.closedErrors
  tooLargeErrors := a.tooLargeErrors + b.tooLargeErrors
  retries := a.retries + b.retries

/-- The queue, with what has entered it, the counters of the stage if the engine has any, and
whether an abort was requested. -/
structure Stage (V W : Type) where
  queue : List (HostItem V W) := []
  stats : Option QueueStats
  aborted : Bool := false

/-- `init_engine_profiling_`; `compiled` is `EnableEngineProfiling`. -/
def initEngineProfiling (compiled enableStats enableTiming : Bool) : Option QueueStats :=
  if compiled && (enableStats || enableTiming) then some {} else none

variable {V W : Type} (policy : EnqueuePolicy) (suppressClosed : Bool) (rest : String → String)

/-- What a move leaves behind. -/
def HostRow.movedFrom : HostRow V W → HostRow V W
  | .clickHouse _ => .clickHouse []
  | .record layout _ => .record (rest layout) []

def HostItem.movedFrom (item : HostItem V W) : HostItem V W :=
  { item with row := item.row.movedFrom rest }

/-- `prof_queue_add_`. -/
def Stage.profQueueAdd (s : Stage V W) (more : QueueStats) : Stage V W :=
  { s with stats := s.stats.map (·.add more) }

def Stage.drop (s : Stage V W) (count : Nat) : Stage V W := s.profQueueAdd { dropped := count }

def Stage.requestAbort (s : Stage V W) : Stage V W := { s with aborted := true }

/-- The loop of `enqueue_one_`, with `left = max_retries - attempts` and the attempts to come:
what it throws, if it throws. -/
def attemptLoop : Nat → (Nat → Attempt) → HostItem V W → Stage V W → Option EnqueueError × Stage V W
  | left, attempt, item, s =>
    match (attempt 0).thrown with
    | none =>
      (none, ({ s with queue := s.queue ++ [item] } : Stage V W).profQueueAdd { enqueued := 1 })
    | some .itemTooLarge =>
      let s := s.profQueueAdd { tooLargeErrors := 1 }
      match policy.onFull with
      | .drop => (none, s.drop 1)
      | .abort => (some .itemTooLarge, s.requestAbort)
      | _ => (some .itemTooLarge, s)
    | some .queueFull =>
      let s := s.profQueueAdd { fullErrors := 1 }
      match policy.onFull, left with
      | .drop, _ => (none, s.drop 1)
      | .abort, _ => (some .queueFull, s.requestAbort)
      | .retry, left + 1 =>
        let s := s.profQueueAdd { retries := 1 }
        if policy.dropIfStopping && (attempt 0).stopping then (none, s.drop 1)
        else attemptLoop left (fun n => attempt (n + 1)) (item.movedFrom rest) s
      | _, _ => (some .queueFull, s)
    | some .queueClosed =>
      let s := s.profQueueAdd { closedErrors := 1 }
      if policy.onClosed = .drop || (suppressClosed && (attempt 0).stopping) then (none, s.drop 1)
      else (some .queueClosed, s)
    | some .invalidArgument => (some .invalidArgument, s)

/-- `enqueue_one_`. -/
def enqueueOne (turn : Turn) (item : HostItem V W) (s : Stage V W) :
    Option EnqueueError × Stage V W :=
  if policy.dropIfStopping && turn.stopping then (none, s.drop 1)
  else attemptLoop policy suppressClosed rest policy.maxRetries.toNat turn.attempt item s

/-- The loop of `enqueue_many_`, over the items with what each meets; an exception ends it. -/
def enqueueEach : List (Turn × HostItem V W) → Stage V W → Option EnqueueError × Stage V W
  | [], s => (none, s)
  | (turn, item) :: items, s =>
    match enqueueOne policy suppressClosed rest turn item s with
    | (some thrown, s) => (some thrown, s)
    | (none, s) => enqueueEach items s

/-- `enqueue_many_`. -/
def enqueueMany (stopping : Bool) (items : List (Turn × HostItem V W)) (s : Stage V W) :
    Option EnqueueError × Stage V W :=
  if items.isEmpty then (none, s)
  else if policy.dropIfStopping && stopping then (none, s.drop items.length)
  else enqueueEach policy suppressClosed rest items s

/-! ### What becomes of the items -/

/-- What becomes of a submitted item that does not make the call raise: `some (k, x)`, `x` enters
the queue after `k` refusals, or `none`, it is dropped. -/
abbrev Fate (V W : Type) := Option (Nat × HostItem V W)

def entering (fates : List (Fate V W)) : List (HostItem V W) :=
  fates.filterMap (·.map Prod.snd)

/-- The items counted as enqueued and as dropped, if they are counted. -/
def Stage.counts (s : Stage V W) : Option (Nat × Nat) :=
  s.stats.map fun q => (q.enqueued, q.dropped)

/-- `fates` is what happens to the stage from `s` to `t`: what enters, enters once and in order. An
engine that counts counts it as enqueued, and every other item as dropped. -/
structure Settled (fates : List (Fate V W)) (s t : Stage V W) : Prop where
  queue : t.queue = s.queue ++ entering fates
  counts : t.counts = s.counts.map fun c =>
    (c.1 + (entering fates).length, c.2 + fates.countP Option.isNone)

@[simp] theorem Stage.counts_requestAbort (s : Stage V W) : s.requestAbort.counts = s.counts := rfl

@[simp] theorem Stage.counts_profQueueAdd (s : Stage V W) (more : QueueStats) :
    (s.profQueueAdd more).counts =
      s.counts.map fun c => (c.1 + more.enqueued, c.2 + more.dropped) := by
  simp [counts, profQueueAdd, QueueStats.add, Function.comp_def]

/-- The queue refuses `k` attempts for want of room, which only `RETRY` lets happen, as often as
`max_retries` allows, and takes the next. -/
structure TakenAfter (attempt : Nat → Attempt) (left k : Nat) : Prop where
  refused : ∀ j < k, (attempt j).thrown = some .queueFull
  taken : (attempt k).thrown = none
  le : k ≤ left
  retry : 0 < k → policy.onFull = .retry

theorem Settled.trans {fates fates' : List (Fate V W)} {s t u : Stage V W}
    (h : Settled fates s t) (g : Settled fates' t u) : Settled (fates ++ fates') s u := by
  have joined : entering (fates ++ fates') = entering fates ++ entering fates' :=
    filterMap_append
  refine ⟨?_, ?_⟩
  · rw [joined, g.queue, h.queue, append_assoc]
  · rw [joined, g.counts, h.counts, Option.map_map]
    simp only [Function.comp_def, length_append, countP_append, Nat.add_assoc]

/-- There is nothing in the row that `k` moves would take away. -/
def HostRow.Spent (k : Nat) : HostRow V W → Prop
  | .clickHouse cells => cells = []
  | .record layout cells => rest^[k] layout = layout ∧ cells = []

/-- The vectors are empty after the first move; the text goes through every one of them. -/
theorem iterate_movedFrom_eq_iff (k : Nat) (item : HostItem V W) :
    (HostItem.movedFrom rest)^[k] item = item ↔ k = 0 ∨ item.row.Spent rest k := by
  have clickHouse : ∀ k size cells, (HostItem.movedFrom (V := V) (W := W) rest)^[k + 1]
      ⟨size, .clickHouse cells⟩ = ⟨size, .clickHouse []⟩ := by
    intro k
    induction k with
    | zero => exact fun _ _ => rfl
    | succ k ih => exact fun size _ => ih size []
  have record : ∀ k size layout cells, (HostItem.movedFrom (V := V) (W := W) rest)^[k + 1]
      ⟨size, .record layout cells⟩ = ⟨size, .record (rest^[k + 1] layout) []⟩ := by
    intro k
    induction k with
    | zero => exact fun _ _ _ => rfl
    | succ k ih => exact fun size layout _ => ih size (rest layout) []
  obtain ⟨size, cells | ⟨layout, cells⟩⟩ := item <;> cases k with
  | zero => simp
  | succ k => simp [clickHouse, record, HostRow.Spent, eq_comm (a := [])]

theorem iterate_movedFrom_itemSize (k : Nat) (item : HostItem V W) :
    ((HostItem.movedFrom rest)^[k] item).itemSize = item.itemSize := by
  induction k generalizing item with
  | zero => rfl
  | succ k ih => exact ih _

/-- A call for one item settles it, or raises: what enters is what the refused attempts have left
of the item. -/
structure Outcome (attempt : Nat → Attempt) (left : Nat) (item : HostItem V W) (s : Stage V W)
    (r : Option EnqueueError × Stage V W) (fates : List (Fate V W)) : Prop where
  settled : Settled fates s r.2
  length : fates.length = if r.1 = none then 1 else 0
  entered : ∀ k x, some (k, x) ∈ fates →
    TakenAfter policy attempt left k ∧ x = (HostItem.movedFrom rest)^[k] item

variable {policy suppressClosed rest}

theorem Outcome.drop {attempt : Nat → Attempt} {left : Nat} {item : HostItem V W}
    {s t : Stage V W} (hq : t.queue = s.queue) (hc : t.counts = s.counts) :
    Outcome policy rest attempt left item s (none, t.drop 1) [none] :=
  ⟨⟨by simp [entering, Stage.drop, Stage.profQueueAdd, hq], by simp [entering, Stage.drop, hc]⟩,
    rfl, by simp⟩

theorem Outcome.raise {attempt : Nat → Attempt} {left : Nat} {item : HostItem V W}
    {s t : Stage V W} {thrown : EnqueueError} (hq : t.queue = s.queue) (hc : t.counts = s.counts) :
    Outcome policy rest attempt left item s (some thrown, t) [] :=
  ⟨⟨by simp [entering, hq], by simp [entering, hc]⟩, rfl, by simp⟩

theorem attemptLoop_outcome (left : Nat) (attempt : Nat → Attempt) (item : HostItem V W)
    (s : Stage V W) : ∃ fates, Outcome policy rest attempt left item s
      (attemptLoop policy suppressClosed rest left attempt item s) fates := by
  fun_induction attemptLoop policy suppressClosed rest left attempt item s with
  | case1 left attempt item s taken =>
    refine ⟨[some (0, item)], ⟨rfl, Stage.counts_profQueueAdd ..⟩, rfl, ?_⟩
    intro k x h
    obtain ⟨rfl, rfl⟩ : k = 0 ∧ x = item := by simpa using h
    exact ⟨⟨nofun, taken, Nat.zero_le _, nofun⟩, rfl⟩
  | case8 attempt item s full s₁ left retry s₂ _ ih =>
    -- one refusal more, of an item that has been moved from
    obtain ⟨fates, h⟩ := ih
    have same : entering (fates.map (Option.map (Prod.map Nat.succ id))) = entering fates := by
      simp [entering, filterMap_map, Function.comp_def]
    refine ⟨fates.map (Option.map (Prod.map Nat.succ id)), ⟨?_, ?_⟩, ?_, ?_⟩
    · rw [same]
      exact h.settled.queue
    · rw [same, h.settled.counts, countP_map]
      simp [s₁, s₂, Function.comp_def]
    · rw [length_map, h.length]
    · intro k x hmem
      obtain ⟨fate, hfate, heq⟩ := mem_map.mp hmem
      obtain ⟨⟨j, y⟩, rfl, ⟨⟩⟩ := Option.map_eq_some_iff.mp heq
      obtain ⟨taken, rfl⟩ := h.entered j y hfate
      refine ⟨⟨?_, taken.taken, Nat.succ_le_succ taken.le, fun _ => retry⟩, rfl⟩
      intro i hi
      cases i with
      | zero => exact full
      | succ i => exact taken.refused i (Nat.lt_of_succ_lt_succ hi)
  -- every other branch counts the refusal and drops the item, or passes it on
  | case2 | case5 | case7 | case10 => exact ⟨_, .drop rfl (by simp +zetaDelta)⟩
  | case3 | case4 | case6 | case9 | case11 | case12 => exact ⟨_, .raise rfl (by simp +zetaDelta)⟩

theorem enqueueOne_outcome (turn : Turn) (item : HostItem V W) (s : Stage V W) :
    ∃ fates, Outcome policy rest turn.attempt policy.maxRetries.toNat item s
      (enqueueOne policy suppressClosed rest turn item s) fates := by
  unfold enqueueOne
  split
  · exact ⟨_, .drop rfl rfl⟩
  · exact attemptLoop_outcome _ _ item s

/-- `fate` is what may become of a submitted item: it enters with its size, and with its content
exactly if it was never refused or has no content to lose. -/
def FateOf (policy : EnqueuePolicy) (rest : String → String) (fate : Fate V W)
    (submitted : Turn × HostItem V W) : Prop :=
  ∀ k x, fate = some (k, x) →
    TakenAfter policy submitted.1.attempt policy.maxRetries.toNat k ∧
    x.itemSize = submitted.2.itemSize ∧
    (x = submitted.2 ↔ k = 0 ∨ submitted.2.row.Spent rest k)

theorem enqueueEach_settles (items : List (Turn × HostItem V W)) (s : Stage V W) :
    ∃ fates : List (Fate V W),
      Settled fates s (enqueueEach policy suppressClosed rest items s).2 ∧
      List.Forall₂ (FateOf policy rest) fates (items.take fates.length) ∧
      if (enqueueEach policy suppressClosed rest items s).1 = none
        then fates.length = items.length else fates.length < items.length := by
  induction items generalizing s with
  | nil => exact ⟨[], ⟨by simp [entering, enqueueEach], by simp [entering, enqueueEach]⟩, .nil, rfl⟩
  | cons submitted items ih =>
    obtain ⟨turn, item⟩ := submitted
    obtain ⟨first, one⟩ : ∃ first, Outcome policy rest turn.attempt _ item s _ first :=
      enqueueOne_outcome turn item s
    rw [enqueueEach]
    split
    next thrown s' h =>
      rw [h] at one
      obtain rfl := eq_nil_of_length_eq_zero one.length
      exact ⟨[], one.settled, .nil, Nat.succ_pos _⟩
    next s' h =>
      rw [h] at one
      obtain ⟨fate, rfl⟩ := length_eq_one_iff.mp one.length
      obtain ⟨fates, settled, each, hlength⟩ := ih s'
      refine ⟨fate :: fates, ?_, .cons ?_ each, by simpa using hlength⟩
      · exact one.settled.trans settled
      · rintro k x rfl
        obtain ⟨taken, rfl⟩ := one.entered k x (mem_singleton_self _)
        exact ⟨taken, iterate_movedFrom_itemSize rest k item,
          iterate_movedFrom_eq_iff rest k item⟩

end Dmi.Engine
