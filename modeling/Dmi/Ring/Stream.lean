import Dmi.Ring.Drain
import Mathlib.Algebra.BigOperators.Ring.List

/-!
# The queue that the rings simulate

The payloads, each padded to its alignment, form one stream of bytes (`stream`); payload `k`
begins at `offset published k`.  The payload ring shows the stream from the committed tail
to the head, and the staging ring shows it from what the consumer has freed up to what was
copied: both count positions of the same stream.  The task ring shows the publication words
in the same way.

`Inv` is this simulation of a queue by the two rings and the counters, and `Batch` is its part
about the batch that the drain thread is working on.
-/

namespace Dmi.Ring

open Circular List

/-! ### The stream of payloads -/

/-- Where payload `k` begins. -/
def offset (published : List Bytes) (k : Nat) : Nat :=
  ((published.take k).map fun x => alignUp x.length).sum

/-- A payload with the padding that nobody reads. -/
def block (x : Bytes) : List (Option UInt8) :=
  x.map some ++ List.replicate (alignUp x.length - x.length) none

def stream (published : List Bytes) : List (Option UInt8) := published.flatMap block

def words (published : List Bytes) : List (Option Nat) :=
  published.map fun x => some (encodePublication x.length)

theorem length_block (x : Bytes) : (block x).length = alignUp x.length := by
  have := le_alignUp x.length
  simp only [block, length_append, length_map, length_replicate]
  omega

variable (published : List Bytes)

theorem length_stream_take (k : Nat) : (stream (published.take k)).length = offset published k := by
  rw [stream, length_flatMap, offset]
  simp only [length_block]

theorem length_stream : (stream published).length = offset published published.length := by
  rw [← length_stream_take, take_length]

theorem offset_succ {published : List Bytes} {k : Nat} {x : Bytes} (h : published[k]? = some x) :
    offset published (k + 1) = offset published k + alignUp x.length := by
  rw [offset, take_add_one, h, Option.toList_some, map_append, sum_append]
  simp [offset]

theorem offset_add (k n : Nat) :
    offset published (k + n) = offset published k +
      ((((published.map List.length).drop k).take n).map alignUp).sum := by
  rw [offset, take_add, map_append, sum_append, offset, ← map_drop,
    ← map_take, map_map]
  rfl

theorem offset_mono {j k : Nat} (h : j ≤ k) : offset published j ≤ offset published k := by
  obtain ⟨n, rfl⟩ := Nat.exists_eq_add_of_le h
  rw [offset_add]
  exact Nat.le_add_right _ _

theorem offset_append {published : List Bytes} {k : Nat} (x : Bytes) (h : k ≤ published.length) :
    offset (published ++ [x]) k = offset published k := by
  rw [offset, take_append_of_le_length h, offset]

theorem offset_append_length (x : Bytes) :
    offset (published ++ [x]) (published.length + 1) =
      offset published published.length + alignUp x.length := by
  rw [offset_succ (getElem?_concat_length), offset_append x le_rfl]

theorem dvd_offset (k : Nat) : 16 ∣ offset published k := by
  refine dvd_sum fun n hn => ?_
  obtain ⟨x, _, rfl⟩ := mem_map.mp hn
  exact dvd_alignUp _

theorem stream_getElem? {published : List Bytes} {k i : Nat} {x : Bytes} {b : UInt8}
    (hx : published[k]? = some x) (hb : x[i]? = some b) :
    (stream published)[offset published k + i]? = some (some b) := by
  obtain ⟨hk, rfl⟩ := List.getElem?_eq_some_iff.mp hx
  have hi := (List.getElem?_eq_some_iff.mp hb).1
  have hsplit : stream published = stream (published.take k) ++
      (block published[k] ++ stream (published.drop (k + 1))) := by
    conv_lhs => rw [← take_append_drop k published, drop_eq_getElem_cons hk]
    simp only [stream, flatMap_append, flatMap_cons]
  rw [hsplit, getElem?_append_right (by rw [length_stream_take]; omega), length_stream_take,
    Nat.add_sub_cancel_left, getElem?_append_left (by
      rw [length_block]
      exact lt_of_lt_of_le hi (le_alignUp _)), block,
    getElem?_append_left (by simpa using hi), getElem?_map, hb, Option.map_some]

/-! ### Batches -/

theorem selectBatch_spec {cap : Nat} (limit : Option Nat) (l : List Nat) :
    ∀ count bytes : Nat, bytes ≤ cap → ∃ n ≤ l.length,
      selectBatch cap limit count bytes l =
        (count + n, bytes + ((l.take n).map alignUp).sum) ∧
      bytes + ((l.take n).map alignUp).sum ≤ cap := by
  induction l with
  | nil => exact fun _ _ h => ⟨0, le_rfl, rfl, by simpa using h⟩
  | cons a l ih =>
    intro count bytes h
    rw [selectBatch]
    by_cases hlim : limit.any (· ≤ count) = true
    · exact ⟨0, Nat.zero_le _, by simp [hlim], by simpa using h⟩
    · by_cases hfull : cap < bytes + alignUp a
      · exact ⟨0, Nat.zero_le _, by simp [hlim, hfull], by simpa using h⟩
      · obtain ⟨n, hn, hsel, hle⟩ := ih (count + 1) _ (Nat.le_of_not_lt hfull)
        refine ⟨n + 1, by simpa using hn, ?_, ?_⟩
        · rw [if_neg hlim, if_neg hfull, hsel]
          simp only [take_succ_cons, map_cons, sum_cons, Prod.mk.injEq]
          omega
        · simp only [take_succ_cons, map_cons, sum_cons]
          omega

theorem clearSlots_written {cap : Nat} (hcap : 0 < cap) (n : Nat) :
    ∀ {slots : Nat → Nat} {tail : Nat}, n ≤ cap →
      Written cap slots (clearSlots cap slots tail n) tail (List.replicate n 0) := by
  induction n with
  | zero => exact fun _ => Written.nil
  | succ n ih =>
    intro slots tail hn
    refine (written_cell hcap).append (ih (by omega)) ?_
    simp only [length_singleton, length_replicate]
    omega

theorem drainTask_bytes {cap pos n : Nat} {staging : Nat → UInt8} (hcap : 0 < cap) (hn : n ≤ cap) :
    (drainTask cap pos n).bytes staging = readRing cap staging pos n := by
  unfold drainTask DrainTask.bytes
  by_cases hpos : 0 < n
  · by_cases hone : pos % cap + n ≤ cap
    · simp only [hpos, hone, if_true]
      rw [readSpan_eq hone]
      simp [readSpan]
    · simp only [hpos, hone, if_true, if_false]
      exact readSpans_eq hcap (by omega) hn
  · have h0 : n = 0 := by omega
    subst h0
    simp [readSpan, readRing]

@[simp] theorem drainTask_allocBytes (cap pos n : Nat) :
    (drainTask cap pos n).allocBytes = alignUp n := by
  unfold drainTask
  simp only [apply_ite DrainTask.allocBytes, ite_self]

/-! ### Phases -/

namespace Phase

/-- The entries of the batch. -/
def count : Phase → Nat
  | idle => 0
  | claimed count _ | copying count _ _ _ _ | submitting count _ _ _ | trimming count _ => count

/-- The bytes of the batch. -/
def bytes : Phase → Nat
  | idle => 0
  | claimed _ bytes | copying _ bytes _ _ _ | submitting _ bytes _ _ | trimming _ bytes => bytes

/-- The bytes of the batch that are not committed. -/
def uncommitted : Phase → Nat
  | claimed _ bytes | copying _ bytes _ _ _ => bytes
  | idle | submitting _ _ _ _ | trimming _ _ => 0

/-- The bytes of the batch that are not copied. -/
def uncopied : Phase → Nat
  | claimed _ bytes => bytes
  | copying _ _ _ _ remaining => remaining
  | idle | submitting _ _ _ _ | trimming _ _ => 0

/-- The entries of the batch that are not handed over. -/
def unsubmitted : Phase → Nat
  | claimed count _ | copying count _ _ _ _ => count
  | submitting count _ done _ => count - done
  | idle | trimming _ _ => 0

/-- The bytes of the batch that the head of the staging ring does not count. -/
def unadvanced : Phase → Nat
  | claimed _ bytes | copying _ bytes _ _ _ | submitting _ bytes _ _ => bytes
  | idle | trimming _ _ => 0

end Phase

/-- Where the cursors of a copy and the running sum of a hand-over stand. -/
def State.Progress (cfg : RingConfig) (s : State) : Phase → Prop
  | .copying _ bytes gpuCursor stgCursor remaining =>
    remaining ≤ bytes ∧ gpuCursor = (s.cpuPayloadTail - remaining) % cfg.payloadCap ∧
      stgCursor = (s.cpuPayloadTail - remaining) % cfg.stagingCap ∧
      s.cpuPayloadTail ≤ s.stagingTail + cfg.stagingCap
  | .submitting count _ done cumulative =>
    done ≤ count ∧ offset s.published (s.cpuTaskTail - count) + cumulative =
      offset s.published (s.cpuTaskTail - count + done) ∧
      s.cpuPayloadTail ≤ s.stagingTail + cfg.stagingCap
  | _ => True

/-! ### The invariant -/

/-- The batch of the drain thread in the phase `p`. -/
structure Batch (cfg : RingConfig) (s : State) (p : Phase) : Prop where
  committed_eq : s.cpuPayloadTailCommitted + p.uncommitted = s.cpuPayloadTail
  count_le : p.count ≤ s.cpuTaskTail
  batch_eq : offset s.published (s.cpuTaskTail - p.count) + p.bytes = s.cpuPayloadTail
  batch_le : p.bytes ≤ cfg.stagingCap
  scanned_eq : s.scanned =
    ((s.published.map List.length).take s.visibleHead).drop (s.cpuTaskTail - p.count)
  tasks_length : s.tasks.length + p.unsubmitted = s.cpuTaskTail
  stagingHead_eq : s.stagingHead + p.unadvanced = s.cpuPayloadTail
  staged : Shows cfg.stagingCap s.staging s.stagingTail (s.cpuPayloadTail - p.uncopied)
    (stream s.published)
  progress : s.Progress cfg p

structure Inv (cfg : RingConfig) (s : State) : Prop where
  taskHead_eq : s.taskHead = s.published.length
  payloadHead_eq : s.payloadHead = offset s.published s.published.length
  tail_le : s.cpuTaskTail ≤ s.visibleHead
  visible_le : s.visibleHead ≤ s.published.length
  taskRoom : s.published.length ≤ s.cpuTaskTail + cfg.taskCap
  ready : Shows cfg.taskCap s.slots s.cpuTaskTail s.published.length (words s.published)
  empty : ∀ {q}, s.published.length ≤ q → q < s.cpuTaskTail + cfg.taskCap →
    s.slots (q % cfg.taskCap) = 0
  small : ∀ x ∈ s.published, x.length < 2 ^ 63
  payloadTail_eq : s.cpuPayloadTail = offset s.published s.cpuTaskTail
  payloadRoom : s.payloadHead ≤ s.cpuPayloadTailCommitted + cfg.payloadCap
  buffer : Shows cfg.payloadCap s.payloadBuf s.cpuPayloadTailCommitted s.payloadHead
    (stream s.published)
  pendingEntries_eq : s.pendingEntries = s.scanned.length
  pendingBytes_eq : s.pendingBytes = (s.scanned.map alignUp).sum
  tasks_eq : ∀ {k task}, s.tasks[k]? = some task → ∃ x, s.published[k]? = some x ∧
    task = drainTask cfg.stagingCap (offset s.published k) x.length ∧ x.length ≤ cfg.stagingCap
  released_le : s.released ≤ s.tasks.length
  stagingTail_eq : s.stagingTail = offset s.published s.released
  stagingRoom : s.stagingHead ≤ s.stagingTail + cfg.stagingCap
  batch : Batch cfg s s.phase

theorem Batch.scanned_getElem? {cfg : RingConfig} {s : State} {p : Phase} {i actual : Nat}
    (h : Batch cfg s p) (ha : s.scanned[i]? = some actual) :
    ∃ x, s.published[s.cpuTaskTail - p.count + i]? = some x ∧ x.length = actual := by
  rw [h.scanned_eq, getElem?_drop, getElem?_take] at ha
  split at ha
  · rw [getElem?_map, Option.map_eq_some_iff] at ha
    exact ha
  · cases ha

namespace Inv

variable {cfg : RingConfig} {s : State}

theorem init (payloadBuf staging : Nat → UInt8) : Inv cfg (State.init payloadBuf staging) where
  taskHead_eq := rfl
  payloadHead_eq := rfl
  tail_le := le_rfl
  visible_le := le_rfl
  taskRoom := Nat.zero_le _
  ready := fun _ _ _ h => absurd h (Nat.not_lt_zero _)
  empty := fun _ _ => rfl
  small := fun _ h => absurd h not_mem_nil
  payloadTail_eq := rfl
  payloadRoom := Nat.zero_le _
  buffer := fun _ _ _ h => absurd h (Nat.not_lt_zero _)
  pendingEntries_eq := rfl
  pendingBytes_eq := rfl
  tasks_eq := fun h => by cases h
  released_le := le_rfl
  stagingTail_eq := rfl
  stagingRoom := Nat.zero_le _
  batch := {
    committed_eq := rfl
    count_le := le_rfl
    batch_eq := rfl
    batch_le := Nat.zero_le _
    scanned_eq := rfl
    tasks_length := rfl
    stagingHead_eq := rfl
    staged := fun _ _ _ h => absurd h (Nat.not_lt_zero _)
    progress := trivial }

section

variable (h : Inv cfg s)
include h

theorem tail_le_length : s.cpuTaskTail ≤ s.published.length :=
  h.tail_le.trans h.visible_le

theorem payloadTail_le : s.cpuPayloadTail ≤ s.payloadHead := by
  rw [h.payloadTail_eq, h.payloadHead_eq]
  exact offset_mono _ h.tail_le_length

theorem dvd_committed : 16 ∣ s.cpuPayloadTailCommitted := by
  have hT := h.payloadTail_eq ▸ dvd_offset s.published s.cpuTaskTail
  have hB := dvd_offset s.published (s.cpuTaskTail - s.phase.count)
  have hbatch := h.batch.batch_eq
  have hcommitted := h.batch.committed_eq
  cases hphase : s.phase <;> rw [hphase] at hcommitted hB hbatch <;>
    simp only [Phase.uncommitted, Phase.bytes] at hcommitted hbatch <;> omega

theorem length_scanned {p : Phase} (hb : Batch cfg s p) :
    s.scanned.length + (s.cpuTaskTail - p.count) = s.visibleHead := by
  have h1 := h.tail_le
  have h2 := h.visible_le
  rw [hb.scanned_eq, length_drop, length_take, length_map]
  omega

theorem sum_take_scanned {p : Phase} {n : Nat} (hb : Batch cfg s p) (hn : n ≤ s.scanned.length) :
    offset s.published (s.cpuTaskTail - p.count + n) =
      offset s.published (s.cpuTaskTail - p.count) + ((s.scanned.take n).map alignUp).sum := by
  have hlen := h.length_scanned hb
  rw [offset_add, hb.scanned_eq, drop_take, take_take, Nat.min_eq_left (by omega)]

end

end Inv

end Dmi.Ring
