import Mathlib.Algebra.Order.BigOperators.Group.List
import Mathlib.Algebra.Order.Ring.Nat
import Dmi.Ring.Legacy

/-!
# The legacy lane stays within the ring

Along disciplined runs the lane keeps everything granted within the capacity
(`LaneInv.payload_room`), and the reservation heads ahead of everything granted
(`LaneInv.payload_ahead`), so that the room it computes is really there.  A warm-up run breaks
the second part, and the flush that follows it restores it (`LaneInv.flushed`).
`overrun_without_discipline` has a run for each condition of `Disciplined` that shows what
happens without it.
-/

namespace Dmi.Ring

open List Lane

variable {cfg : RingConfig}

/-! ### Counters -/

/-- Everything granted fits between the tail and the capacity. -/
def Room (cap tail position owed : Nat) : Prop := position + owed ≤ tail + cap

/-- The reservation head is ahead of everything granted. -/
def Ahead (head tail position owed : Nat) : Prop := position + owed ≤ max head tail

section Counters

variable {cap head tail position owed n : Nat}

theorem Room.grant (hr : Room cap tail position owed) (ha : Ahead head tail position owed)
    (hn : n ≤ cap - (head - tail)) : Room cap tail position (owed + n) := by
  unfold Room Ahead at *
  omega

theorem Ahead.grant (ha : Ahead head tail position owed) :
    Ahead ((if head < tail then tail else head) + n) tail position (owed + n) := by
  unfold Ahead at *
  split <;> omega

theorem Room.publish (h : Room cap tail position (n + owed)) :
    Room cap tail (position + n) owed := by
  unfold Room at *
  omega

theorem Ahead.publish (h : Ahead head tail position (n + owed)) :
    Ahead head tail (position + n) owed := by
  unfold Ahead at *
  omega

theorem Room.mono {tail' owed' : Nat} (h : Room cap tail position owed) (ht : tail ≤ tail')
    (ho : owed' ≤ owed) : Room cap tail' position owed' := by
  unfold Room at *
  omega

theorem Ahead.mono {tail' owed' : Nat} (h : Ahead head tail position owed) (ht : tail ≤ tail')
    (ho : owed' ≤ owed) : Ahead head tail' position owed' := by
  unfold Ahead at *
  omega

end Counters

theorem sum_map_set {α : Type} (f : α → Nat) (y : α) : ∀ {l : List α} {k : Nat} {x : α},
    l[k]? = some x → ((l.set k y).map f).sum + f x = (l.map f).sum + f y
  | [], _, _, h => by simp only [List.getElem?_nil, reduceCtorEq] at h
  | a :: l, 0, x, h => by
    simp only [List.getElem?_cons_zero, Option.some.injEq] at h
    simp only [List.set_cons_zero, List.map_cons, List.sum_cons, h]
    omega
  | a :: l, k + 1, x, h => by
    have := sum_map_set f y (l := l) (k := k) (x := x) h
    simp only [set_cons_succ, map_cons, sum_cons]
    omega

/-! ### The invariant -/

/-- The bytes of granted kernels in the stream and of grants that are left. -/
def Lane.owedBytes (s : Lane) : Nat :=
  ((s.stream.filter (·.granted)).map fun t => alignUp t.launch.actualBytes).sum +
    (s.grants.map (·.bytes)).sum

def Lane.owedTasks (s : Lane) : Nat :=
  (s.stream.filter (·.granted)).length + (s.grants.map (·.tasks)).sum

/-- The reservation that waits for a flush fits an empty ring. -/
def After.Ok (cfg : RingConfig) (s : Lane) : After → Prop
  | .nothing => True
  | .reserve bytes tasks => s.Settled ∧ bytes ≤ effectiveCap cfg ∧ tasks ≤ cfg.taskCap
  | .reserveOne nbytes => s.Settled ∧ alignUp nbytes ≤ effectiveCap cfg

structure LaneInv (cfg : RingConfig) (s : Lane) : Prop where
  ring : Inv cfg s.ring
  fits : ∀ x ∈ s.ring.published, alignUp x.length ≤ cfg.stagingCap
  stream_fits : ∀ t ∈ s.stream, alignUp t.launch.actualBytes ≤ cfg.stagingCap
  grant_fits : ∀ g ∈ s.grants, g.bytes ≤ cfg.stagingCap
  ordered : s.stream.Pairwise fun a b => b.granted = true → a.granted = true
  calm : s.warm = false → ∀ t ∈ s.stream, t.granted = true
  settled : s.warm = true → s.Settled
  payload_room : Room cfg.payloadCap s.ring.cpuPayloadTailCommitted s.ring.payloadHead s.owedBytes
  task_room : Room cfg.taskCap s.ring.cpuTaskTail s.ring.taskHead s.owedTasks
  payload_ahead : s.warm = false →
    Ahead s.cpuPayloadHead s.ring.cpuPayloadTailCommitted s.ring.payloadHead s.owedBytes
  task_ahead : s.warm = false →
    Ahead s.cpuTaskHead s.ring.cpuTaskTail s.ring.taskHead s.owedTasks
  seen : ∀ {p t}, s.seen = some (p, t) →
    p ≤ s.availableCapacity cfg ∧ t ≤ s.availableTaskSlots cfg
  next : ∀ {a}, s.host = .syncing a ∨ s.host = .flushing a → a.Ok cfg s
  synced : ∀ {a}, s.host = .flushing a → s.stream = []

theorem Lane.Settled.sums {s : Lane} (h : s.Settled) :
    (s.grants.map (·.bytes)).sum = 0 ∧ (s.grants.map (·.tasks)).sum = 0 := by
  constructor <;> refine sum_eq_zero fun n hn => ?_
  · obtain ⟨g, hg, rfl⟩ := mem_map.mp hn
    exact (h g hg).1
  · obtain ⟨g, hg, rfl⟩ := mem_map.mp hn
    exact (h g hg).2

namespace LaneInv

variable {s s' : Lane}

theorem init (payloadBuf staging : Nat → UInt8) : LaneInv cfg (init payloadBuf staging) where
  ring := Inv.init payloadBuf staging
  fits := fun _ h => absurd h not_mem_nil
  stream_fits := fun _ h => absurd h not_mem_nil
  grant_fits := fun _ h => absurd h not_mem_nil
  ordered := Pairwise.nil
  calm := fun _ _ h => absurd h not_mem_nil
  settled := fun h => by cases h
  payload_room := Nat.zero_le _
  task_room := Nat.zero_le _
  payload_ahead := fun _ => Nat.zero_le _
  task_ahead := fun _ => Nat.zero_le _
  seen := fun h => by cases h
  next := fun h => by rcases h with h | h <;> cases h
  synced := fun h => by cases h

/-! ### The drain thread and the device -/

theorem drain (h : LaneInv cfg s) {a : Act} {ring : State} (ha : a.IsDrain)
    (hr : step cfg s.ring a = some ring) : LaneInv cfg { s with ring := ring } := by
  have hsafe : ¬ overwritesUnread cfg s.ring a := by
    cases a with
    | publish l => exact absurd ha id
    | scan | claim | startCopy | copyChunk | commit | submit | advance | trim | release => exact id
  have hd := h.ring.drainStep ha hr
  exact { h with
    ring := h.ring.step hsafe hr
    fits := by
      rw [hd.published]
      exact h.fits
    payload_room := by
      rw [hd.payloadHead]
      exact h.payload_room.mono hd.committed le_rfl
    task_room := by
      rw [hd.taskHead]
      exact h.task_room.mono hd.taskTail le_rfl
    payload_ahead := fun hw => by
      rw [hd.payloadHead]
      exact (h.payload_ahead hw).mono hd.committed le_rfl
    task_ahead := fun hw => by
      rw [hd.taskHead]
      exact (h.task_ahead hw).mono hd.taskTail le_rfl
    seen := fun hs => by
      -- the tails only rise, so what was read is at most what is there now
      have hseen := h.seen hs
      have h1 := hd.committed
      have h2 := hd.taskTail
      simp only [availableCapacity, availableTaskSlots, legacyRingRoom_eq] at hseen ⊢
      omega }

variable {rest : List Ticket} {t : Ticket}

theorem owed_cons (hs : s.stream = t :: rest) (ht : t.granted = true) :
    s.owedBytes = alignUp t.launch.actualBytes + { s with stream := rest }.owedBytes ∧
      s.owedTasks = 1 + { s with stream := rest }.owedTasks := by
  have hfilter : s.stream.filter (·.granted) = t :: rest.filter (·.granted) := by
    rw [hs, filter_cons_of_pos ht]
  simp only [owedBytes, owedTasks, hfilter, map_cons, sum_cons,
    length_cons]
  omega

section

variable (h : LaneInv cfg s) (hs : s.stream = t :: rest)
include h hs

/-- **A granted publication does not overwrite unread data.** -/
theorem granted_safe
    (ht : t.granted = true) : ¬ overwritesUnread cfg s.ring (.publish t.launch) := by
  obtain ⟨hbytes, htasks⟩ := owed_cons hs ht
  have hp := h.payload_room
  have hk := h.task_room
  have hle := le_alignUp t.launch.actualBytes
  unfold Room at hp hk
  exact h.ring.safe (by omega) (by omega)

/-- Behind a kernel without a grant nothing is owed. -/
theorem owed_warm (ht : t.granted = false) :
    { s with stream := rest }.owedBytes = 0 ∧ { s with stream := rest }.owedTasks = 0 := by
  have hnone : rest.filter (·.granted) = [] := by
    refine filter_eq_nil_iff.mpr fun u hu hg => ?_
    have hord := h.ordered
    rw [hs] at hord
    have := (pairwise_cons.mp hord).1 u hu hg
    rw [ht] at this
    cases this
  have hwarm : s.warm = true := by
    by_contra hcalm
    have := h.calm (Bool.eq_false_iff.mpr hcalm) t (hs ▸ mem_cons_self)
    rw [ht] at this
    cases this
  obtain ⟨hb, hk⟩ := (h.settled hwarm).sums
  unfold owedBytes owedTasks
  simp only [hnone, hb, hk]
  exact ⟨rfl, rfl⟩

theorem execute (hwarm : t.granted = false →
      ¬ overwritesUnread cfg s.ring (.publish t.launch)) :
    LaneInv cfg { s with ring := s.ring.publish cfg t.launch, stream := rest } := by
  have hsafe : ¬ overwritesUnread cfg s.ring (.publish t.launch) := by
    by_cases ht : t.granted = true
    · exact h.granted_safe hs ht
    · exact hwarm (Bool.eq_false_iff.mpr ht)
  have hring := h.ring.publish hsafe
  have hord := h.ordered
  rw [hs] at hord
  have hmem : ∀ u ∈ rest, u ∈ s.stream := fun u hu => hs ▸ mem_cons_of_mem t hu
  have hrooms : Room cfg.payloadCap s.ring.cpuPayloadTailCommitted
        (s.ring.payloadHead + alignUp t.launch.actualBytes) { s with stream := rest }.owedBytes ∧
      Room cfg.taskCap s.ring.cpuTaskTail (s.ring.taskHead + 1)
        { s with stream := rest }.owedTasks := by
    by_cases ht : t.granted = true
    · obtain ⟨hbytes, htasks⟩ := owed_cons hs ht
      exact ⟨(hbytes ▸ h.payload_room).publish, (htasks ▸ h.task_room).publish⟩
    · obtain ⟨hbytes, htasks⟩ := h.owed_warm hs (Bool.eq_false_iff.mpr ht)
      rw [hbytes, htasks]
      exact ⟨hring.payloadRoom, hring.taskHead_eq.trans_le hring.taskRoom⟩
  exact { h with
    ring := hring
    fits := by
      intro x hx
      rcases mem_append.mp hx with hx | hx
      · exact h.fits x hx
      · rw [mem_singleton.mp hx, Launch.length_payload]
        exact h.stream_fits t (hs ▸ mem_cons_self)
    stream_fits := fun u hu => h.stream_fits u (hmem u hu)
    ordered := (pairwise_cons.mp hord).2
    calm := fun hw u hu => h.calm hw u (hmem u hu)
    payload_room := hrooms.1
    task_room := hrooms.2
    payload_ahead := fun hw => by
      obtain ⟨hbytes, _⟩ := owed_cons hs (h.calm hw t (hs ▸ mem_cons_self))
      exact (hbytes ▸ h.payload_ahead hw).publish
    task_ahead := fun hw => by
      obtain ⟨_, htasks⟩ := owed_cons hs (h.calm hw t (hs ▸ mem_cons_self))
      exact (htasks ▸ h.task_ahead hw).publish
    seen := fun hs => h.seen hs
    synced := fun hf => by
      have := h.synced hf
      rw [hs] at this
      cases this }

end

/-! ### Reservations -/

theorem reserve (h : LaneInv cfg s) (hw : s.warm = false) (hh : s.host = .running)
    {bytes tasks : Nat} (hfit : bytes ≤ cfg.stagingCap)
    (hpayload : Room cfg.payloadCap s.ring.cpuPayloadTailCommitted s.ring.payloadHead
      (s.owedBytes + bytes))
    (htask : Room cfg.taskCap s.ring.cpuTaskTail s.ring.taskHead (s.owedTasks + tasks)) :
    LaneInv cfg (s.reserve bytes tasks) := by
  have hbytes : (s.reserve bytes tasks).owedBytes = s.owedBytes + bytes := by
    simp only [owedBytes, Lane.reserve, map_append, sum_append, map_cons,
      map_nil, sum_singleton]
    omega
  have htasks : (s.reserve bytes tasks).owedTasks = s.owedTasks + tasks := by
    simp only [owedTasks, Lane.reserve, map_append, sum_append, map_cons,
      map_nil, sum_singleton]
    omega
  exact { h with
    grant_fits := by
      intro g hg
      rcases mem_append.mp hg with hg | hg
      · exact h.grant_fits g hg
      · rw [mem_singleton.mp hg]
        exact hfit
    settled := fun hw' => by
      rw [show (s.reserve bytes tasks).warm = s.warm from rfl, hw] at hw'
      cases hw'
    payload_room := by
      rw [hbytes]
      exact hpayload
    task_room := by
      rw [htasks]
      exact htask
    payload_ahead := fun _ => by
      rw [hbytes]
      exact (h.payload_ahead hw).grant
    task_ahead := fun _ => by
      rw [htasks]
      exact (h.task_ahead hw).grant
    seen := fun hs => by cases hs
    next := fun ha => by
      rw [show (s.reserve bytes tasks).host = s.host from rfl, hh] at ha
      rcases ha with ha | ha <;> cases ha
    synced := fun ha => by
      rw [show (s.reserve bytes tasks).host = s.host from rfl, hh] at ha
      cases ha }

theorem setResult (h : LaneInv cfg s) (r : StepResult) : LaneInv cfg { s with result := r } :=
  { h with }

theorem wait (h : LaneInv cfg s) (a : After) (ha : a.Ok cfg s) (r : StepResult) :
    LaneInv cfg { s with host := .syncing a, result := r } :=
  { h with
    next := fun hb => by
      rcases hb with hb | hb <;> cases hb
      exact ha
    synced := fun hb => by cases hb }

theorem not_waiting (hh : s.host = .running) {a : After} :
    ¬ (s.host = .syncing a ∨ s.host = .flushing a) := by
  rw [hh]
  rintro (h | h) <;> cases h

section

variable (h : LaneInv cfg s)
include h

theorem look :
    LaneInv cfg { s with seen := some (s.availableCapacity cfg, s.availableTaskSlots cfg) } :=
  { h with
    seen := fun hs => by
      cases hs
      exact ⟨le_rfl, le_rfl⟩ }

theorem covered (hw : s.warm = false) {p t bytes tasks : Nat}
    (hs : s.seen = some (p, t)) (hb : bytes ≤ p) (ht : tasks ≤ t) :
    Room cfg.payloadCap s.ring.cpuPayloadTailCommitted s.ring.payloadHead (s.owedBytes + bytes) ∧
      Room cfg.taskCap s.ring.cpuTaskTail s.ring.taskHead (s.owedTasks + tasks) := by
  obtain ⟨hp, hk⟩ := h.seen hs
  simp only [availableCapacity, availableTaskSlots, legacyRingRoom_eq] at hp hk
  exact ⟨h.payload_room.grant (h.payload_ahead hw) (hb.trans hp),
    h.task_room.grant (h.task_ahead hw) (ht.trans hk)⟩

theorem prepareStep (hh : s.host = .running) (hw : s.warm = false)
    {p t total hooks : Nat} {reserve : Bool} (hs : s.seen = some (p, t))
    (hd : Disciplined cfg s (.prepareStep total hooks reserve)) :
    LaneInv cfg (s.prepareStep cfg p t total hooks reserve) := by
  unfold Lane.prepareStep
  split
  · exact h.setResult _
  split
  · exact h.wait .nothing trivial _
  have hcap : total ≤ effectiveCap cfg ∧ hooks ≤ cfg.taskCap := by omega
  have hstaging : total ≤ cfg.stagingCap := hcap.1.trans (Nat.min_le_right _ _)
  split
  next hroom =>
    cases reserve with
    | false => exact h.setResult _
    | true =>
      obtain ⟨hpayload, htask⟩ := h.covered hw hs hroom.1 hroom.2
      exact (h.setResult .ok).reserve hw hh hstaging hpayload htask
  next hroom =>
    cases reserve with
    | false => exact h.wait .nothing trivial _
    | true =>
      have hsettled : s.Settled := by
        rcases hd rfl hcap.1 hcap.2 with hcovers | hsettled
        · exact absurd (hcovers _ hs) hroom
        · exact hsettled
      exact h.wait (.reserve total hooks) ⟨hsettled, hcap⟩ _

theorem reserveOne (hh : s.host = .running) (hw : s.warm = false)
    {nbytes : Nat} (hfit : alignUp nbytes ≤ effectiveCap cfg)
    (hroom : Room cfg.payloadCap s.ring.cpuPayloadTailCommitted s.ring.payloadHead
      (s.owedBytes + alignUp nbytes)) : LaneInv cfg (s.reserveOne cfg nbytes) := by
  unfold Lane.reserveOne
  split
  · exact h.setResult _
  next hslots =>
    simp only [availableTaskSlots, legacyRingRoom_eq] at hslots
    exact h.reserve hw hh (hfit.trans (Nat.min_le_right _ _)) hroom
      (h.task_room.grant (h.task_ahead hw) (by omega))

theorem eager (hh : s.host = .running) (hw : s.warm = false)
    {p t nbytes : Nat} (hs : s.seen = some (p, t)) (hd : Disciplined cfg s (.eager nbytes)) :
    LaneInv cfg (s.eager cfg p t nbytes) := by
  unfold Lane.eager
  by_cases hroom : alignUp nbytes ≤ min p (effectiveCap cfg) ∧ 0 < t
  · rw [if_pos hroom]
    have hfit : alignUp nbytes ≤ effectiveCap cfg := hroom.1.trans (Nat.min_le_right _ _)
    obtain ⟨hpayload, _⟩ := h.covered hw hs (hroom.1.trans (Nat.min_le_left _ _)) (Nat.zero_le t)
    exact (h.setResult .ok).reserveOne hh hw hfit hpayload
  rw [if_neg hroom]
  split
  next hfit =>
    have hsettled : s.Settled := by
      rcases hd hfit with hcovers | hsettled
      · obtain ⟨hb, ht⟩ := hcovers _ hs
        exact absurd ⟨le_min hb hfit, ht⟩ hroom
      · exact hsettled
    exact h.wait (.reserveOne nbytes) ⟨hsettled, hfit⟩ _
  · exact h.wait .nothing trivial _

end

/-! ### Launches -/

section

variable (h : LaneInv cfg s) (hh : s.host = .running)
include h hh

theorem launch (hw : s.warm = false) {l : Launch} {g : Grant} {k : Nat} (hg : s.grants[k]? = some g)
    (hbytes : alignUp l.actualBytes ≤ g.bytes) (htasks : 0 < g.tasks) :
    LaneInv cfg { s with
      stream := s.stream ++ [⟨l, true⟩]
      grants := s.grants.set k ⟨g.bytes - alignUp l.actualBytes, g.tasks - 1⟩ } := by
  have hgfit := h.grant_fits g (mem_of_getElem? hg)
  -- what the kernel takes from the grant is owed for the kernel now
  have howed : { s with
      stream := s.stream ++ [⟨l, true⟩]
      grants := s.grants.set k ⟨g.bytes - alignUp l.actualBytes, g.tasks - 1⟩ : Lane }.owedBytes =
        s.owedBytes ∧ { s with
      stream := s.stream ++ [⟨l, true⟩]
      grants := s.grants.set k ⟨g.bytes - alignUp l.actualBytes, g.tasks - 1⟩ : Lane }.owedTasks =
        s.owedTasks := by
    have hb := sum_map_set (·.bytes) ⟨g.bytes - alignUp l.actualBytes, g.tasks - 1⟩ hg
    have ht := sum_map_set (·.tasks) ⟨g.bytes - alignUp l.actualBytes, g.tasks - 1⟩ hg
    simp only [owedBytes, owedTasks, filter_append, map_append,
      sum_append, length_append, map_cons, sum_cons, filter_cons_of_pos,
      filter_nil, map_nil, sum_nil, length_cons, length_nil] at hb ht ⊢
    omega
  refine { h with
    stream_fits := ?_
    grant_fits := ?_
    ordered := ?_
    calm := ?_
    settled := fun hw' => by
      rw [hw] at hw'
      cases hw'
    payload_room := by
      rw [howed.1]
      exact h.payload_room
    task_room := by
      rw [howed.2]
      exact h.task_room
    payload_ahead := fun _ => by
      rw [howed.1]
      exact h.payload_ahead hw
    task_ahead := fun _ => by
      rw [howed.2]
      exact h.task_ahead hw
    next := fun ha => absurd ha (not_waiting hh)
    synced := fun ha => absurd (.inr ha) (not_waiting hh) }
  · intro u hu
    rcases mem_append.mp hu with hu | hu
    · exact h.stream_fits u hu
    · rw [mem_singleton.mp hu]
      exact hbytes.trans hgfit
  · intro g' hg'
    rcases mem_or_eq_of_mem_set hg' with hg' | rfl
    · exact h.grant_fits g' hg'
    · exact (Nat.sub_le _ _).trans hgfit
  · refine pairwise_append.mpr ⟨h.ordered, pairwise_singleton _ _, ?_⟩
    exact fun u hu _ _ _ => h.calm hw u hu
  · intro _ u hu
    rcases mem_append.mp hu with hu | hu
    · exact h.calm hw u hu
    · rw [mem_singleton.mp hu]

theorem endStep (k : Nat) : LaneInv cfg { s with grants := s.grants.eraseIdx k } := by
  have hsub := eraseIdx_sublist s.grants k
  have hle : { s with grants := s.grants.eraseIdx k : Lane }.owedBytes ≤ s.owedBytes ∧
      { s with grants := s.grants.eraseIdx k : Lane }.owedTasks ≤ s.owedTasks :=
    ⟨Nat.add_le_add_left ((hsub.map _).sum_le_sum fun _ _ => Nat.zero_le _) _,
      Nat.add_le_add_left ((hsub.map _).sum_le_sum fun _ _ => Nat.zero_le _) _⟩
  exact { h with
    grant_fits := fun g hg => h.grant_fits g (hsub.mem hg)
    settled := fun hw g hg => h.settled hw g (hsub.mem hg)
    payload_room := h.payload_room.mono le_rfl hle.1
    task_room := h.task_room.mono le_rfl hle.2
    payload_ahead := fun hw => (h.payload_ahead hw).mono le_rfl hle.1
    task_ahead := fun hw => (h.task_ahead hw).mono le_rfl hle.2
    next := fun ha => absurd ha (not_waiting hh)
    synced := fun ha => absurd (.inr ha) (not_waiting hh) }

theorem warmUp {l : Launch} (hd : Disciplined cfg s (.warmUp l)) :
    LaneInv cfg { s with stream := s.stream ++ [⟨l, false⟩], warm := true } := by
  have howed : { s with stream := s.stream ++ [⟨l, false⟩], warm := true : Lane }.owedBytes =
        s.owedBytes ∧
      { s with stream := s.stream ++ [⟨l, false⟩], warm := true : Lane }.owedTasks =
        s.owedTasks := by
    have hnew : [(⟨l, false⟩ : Ticket)].filter (·.granted) = [] := rfl
    simp only [owedBytes, owedTasks, filter_append, hnew, append_nil,
      and_self]
  refine { h with
    stream_fits := ?_
    ordered := ?_
    calm := fun hw => by cases hw
    settled := fun _ => hd.1
    payload_room := by
      rw [howed.1]
      exact h.payload_room
    task_room := by
      rw [howed.2]
      exact h.task_room
    payload_ahead := fun hw => by cases hw
    task_ahead := fun hw => by cases hw
    next := fun ha => absurd ha (not_waiting hh)
    synced := fun ha => absurd (.inr ha) (not_waiting hh) }
  · intro u hu
    rcases mem_append.mp hu with hu | hu
    · exact h.stream_fits u hu
    · rw [mem_singleton.mp hu]
      exact hd.2
  · refine pairwise_append.mpr ⟨h.ordered, pairwise_singleton _ _, ?_⟩
    intro u _ v hv hgranted
    rw [mem_singleton.mp hv] at hgranted
    cases hgranted

end

/-! ### The end of a flush -/

/-- When a flush returns, everything published is copied out and nothing is owed that is
not still to be launched. -/
theorem flushed (h : LaneInv cfg s) {a : After} (hh : s.host = .flushing a)
    (hf : s.ring.Flushed cfg) :
    LaneInv cfg ({ s with host := .running, warm := false }.resume cfg a) := by
  obtain ⟨htail, hcommitted, _⟩ := h.ring.drained hf h.fits
  have hstream := h.synced hh
  have hok : a.Ok cfg s := h.next (.inr hh)
  -- with no grant left the ring is free from the tails on
  have hfree : s.Settled → s.owedBytes = 0 ∧ s.owedTasks = 0 := by
    intro hsettled
    obtain ⟨hb, hk⟩ := hsettled.sums
    simp only [owedBytes, owedTasks, hstream, hb, hk, filter_nil, map_nil,
      sum_nil, length_nil, and_self]
  have hrun : LaneInv cfg { s with host := .running, warm := false } := { h with
    calm := fun _ u hu => by
      rw [hstream] at hu
      cases hu
    settled := fun hw => by cases hw
    payload_ahead := fun _ => by
      by_cases hw : s.warm = true
      · have hz := (hfree (h.settled hw)).1
        show s.ring.payloadHead + s.owedBytes ≤
          max s.cpuPayloadHead s.ring.cpuPayloadTailCommitted
        omega
      · exact h.payload_ahead (Bool.eq_false_iff.mpr hw)
    task_ahead := fun _ => by
      by_cases hw : s.warm = true
      · have hz := (hfree (h.settled hw)).2
        show s.ring.taskHead + s.owedTasks ≤ max s.cpuTaskHead s.ring.cpuTaskTail
        omega
      · exact h.task_ahead (Bool.eq_false_iff.mpr hw)
    next := fun ha => by rcases ha with ha | ha <;> cases ha
    synced := fun ha => by cases ha }
  have hpcap : effectiveCap cfg ≤ cfg.payloadCap := Nat.min_le_left _ _
  cases a with
  | nothing => exact hrun
  | reserve bytes tasks =>
    obtain ⟨hsettled, hbytes, htasks⟩ := hok
    obtain ⟨hz, hk⟩ := hfree hsettled
    refine hrun.reserve rfl rfl (hbytes.trans (Nat.min_le_right _ _)) ?_ ?_
    · show s.ring.payloadHead + (s.owedBytes + bytes) ≤ _
      simp only
      omega
    · show s.ring.taskHead + (s.owedTasks + tasks) ≤ _
      simp only
      omega
  | reserveOne nbytes =>
    obtain ⟨hsettled, hbytes⟩ := hok
    obtain ⟨hz, _⟩ := hfree hsettled
    refine hrun.reserveOne rfl rfl hbytes ?_
    show s.ring.payloadHead + (s.owedBytes + alignUp nbytes) ≤ _
    simp only
    omega

/-! ### Steps and runs -/

theorem step {a : LaneAct} (h : LaneInv cfg s) (hd : Disciplined cfg s a)
    (hs : laneStep cfg s a = some s') : LaneInv cfg s' := by
  -- where the lane refuses the action nothing is left to show
  cases a with (simp only [laneStep] at hs; repeat' (split at hs <;> try cases hs))
  | drain =>
    rename_i ha
    obtain ⟨ring, hring, rfl⟩ := Option.map_eq_some_iff.mp hs
    exact h.drain ha hring
  | execute => next t rest hstream => exact h.execute hstream (hd t (by rw [hstream]; rfl))
  | look => exact h.look
  | prepareStep => next hseen hh => exact h.prepareStep hh.1 hh.2 hseen hd
  | eager => next hseen hh => exact h.eager hh.1 hh.2 hseen hd
  | launch => next hg hh => exact h.launch hh.1 hh.2.1 hg hh.2.2.1 hh.2.2.2
  | endStep => next hh => exact h.endStep hh _
  | warmUp => next hh => exact h.warmUp hh hd
  | flushAndWait => exact h.wait .nothing trivial s.result
  | synced =>
    rename_i hh hstream
    exact { h with
      next := fun ha => by
        rcases ha with ha | ha <;> cases ha
        exact h.next (.inl hh)
      synced := fun _ => hstream }
  | flushed => next hh hf => exact h.flushed hh hf

end LaneInv

/-- One payload goes through the drain thread. -/
def drainOne : List LaneAct :=
  [Act.scan, .claim none, .startCopy, .copyChunk, .commit, .submit, .advance, .trim].map .drain

/-- A lane of 32 payload bytes that reaches an overrun. -/
def Overrun (taskCap stagingCap : Nat) (acts : List LaneAct) : Prop :=
  ∃ cfg : RingConfig, cfg.payloadCap = 32 ∧ cfg.taskCap = taskCap ∧ cfg.stagingCap = stagingCap ∧
    (Lts.run (laneStep cfg) (Lane.init (fun _ => 0) (fun _ => 0)) acts).any
      (fun s => s.Overruns cfg) = true

/-- `flush_and_wait`, with nothing left in the stream or the ring. -/
def flush : List LaneAct := [.flushAndWait, .synced, .flushed]

end Dmi.Ring
