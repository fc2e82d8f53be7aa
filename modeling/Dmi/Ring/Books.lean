import Mathlib.Algebra.Order.BigOperators.Group.List
import Mathlib.Algebra.Order.Ring.Nat
import Mathlib.Data.List.Nodup
import Dmi.Ring.Record

/-!
# The books of the record lane

`Balanced` relates the books of the drain thread to what really happened: the sizes of the
records launched so far, the items still to be launched, and the items abandoned.  Its two
inequalities bound the reservation head from both sides.  It is never below the bytes that
are launched or still to be launched, with everything that pending reclaims will take back
added (`lower`), so a record that is admitted finds its space.  And it is above them by no
more than the abandoned bytes (`upper`), so a flush leaves the room that `Kept` asks for.

There is one lemma for each change of the books: `reserve`, `launch`, `abandon`, `apply` and
`account`.
-/

namespace Dmi.Ring

open List

/-! ### Sums over entries with different keys -/

section Sums

variable {α : Type} {key f g : α → Nat} {k c : Nat}

theorem sum_map_le_add {l : List α} (hkeys : (l.map key).Nodup)
    (hk : ∀ e ∈ l, key e = k → f e ≤ g e + c) (hne : ∀ e ∈ l, key e ≠ k → f e ≤ g e) :
    (l.map f).sum ≤ (l.map g).sum + c := by
  induction l with
  | nil => exact Nat.zero_le _
  | cons e l ih =>
    obtain ⟨hnot, hkeys⟩ := nodup_cons.mp hkeys
    simp only [map_cons, sum_cons]
    by_cases he : key e = k
    · have hl : (l.map f).sum ≤ (l.map g).sum := sum_le_sum fun e' he' =>
        hne e' (mem_cons_of_mem _ he') fun h =>
          hnot (he.trans h.symm ▸ mem_map_of_mem he')
      have := hk e mem_cons_self he
      omega
    · have := hne e mem_cons_self he
      have := ih hkeys (fun e he => hk e (mem_cons_of_mem _ he))
        fun e he => hne e (mem_cons_of_mem _ he)
      omega

theorem add_le_sum_map {l : List α} (hmem : ∃ e ∈ l, key e = k)
    (hk : ∀ e ∈ l, key e = k → g e + c ≤ f e) (hne : ∀ e ∈ l, key e ≠ k → g e ≤ f e) :
    (l.map g).sum + c ≤ (l.map f).sum := by
  have hle : ∀ e ∈ l, g e ≤ f e := by
    intro e he
    by_cases h : key e = k
    · exact (Nat.le_add_right _ _).trans (hk e he h)
    · exact hne e he h
  obtain ⟨e, he, hkey⟩ := hmem
  obtain ⟨l₁, l₂, rfl⟩ := append_of_mem he
  have h₁ : (l₁.map g).sum ≤ (l₁.map f).sum :=
    sum_le_sum fun e he => hle e (mem_append_left _ he)
  have h₂ : (l₂.map g).sum ≤ (l₂.map f).sum :=
    sum_le_sum fun e he => hle e (mem_append_right _ (mem_cons_of_mem _ he))
  have := hk e he hkey
  simp only [map_append, map_cons, sum_append, sum_cons]
  omega

end Sums

/-! ### The books and what happened -/

/-- The bytes of a list of items. -/
def heldBytes (items : List Reserved) : Nat := (items.map (·.reservedPayloadBytes)).sum

/-- What a pending reclaim will take back at most: nothing while its item is to be launched,
and else what the publication with its number does not use. -/
def charge (sizes : List Nat) (live : List Reserved) (e : PendingTaskReclaim) : Nat :=
  if e.taskSequence ∈ live.map (·.sequence) then 0
  else e.reservedPayloadBytes - sizes.getD e.taskSequence 0

/-- What the pending reclaim of a record that was launched will take back. -/
def refund (sizes : List Nat) (live lost : List Reserved) (e : PendingTaskReclaim) : Nat :=
  if e.taskSequence ∈ lost.map (·.sequence) then 0 else charge sizes live e

/-- `sizes` are the aligned bytes of the records launched so far. -/
structure Balanced (m : Mgmt) (sizes : List Nat) (live lost : List Reserved) : Prop where
  tasks_eq : m.cpuTaskHead = sizes.length + live.length + lost.length
  sorted : (live.map (·.sequence)).Pairwise (· < ·)
  bounds : ∀ x ∈ live, sizes.length ≤ x.sequence ∧ x.sequence < m.cpuTaskHead
  in_order : lost = [] → live.map (·.sequence) = List.range' sizes.length live.length
  reclaims_sorted : (m.pendingTaskReclaims.map (·.taskSequence)).Pairwise (· < ·)
  reclaim_lt : ∀ e ∈ m.pendingTaskReclaims, e.taskSequence < m.cpuTaskHead
  reclaim_own : ∀ e ∈ m.pendingTaskReclaims, ∀ x ∈ live, e.taskSequence = x.sequence →
    x.needsReclaim = true ∧ e.reservedPayloadBytes = x.reservedPayloadBytes
  reclaim_of_live : ∀ x ∈ live, x.needsReclaim = true →
    ∃ e ∈ m.pendingTaskReclaims, e.taskSequence = x.sequence
  reclaim_cases : ∀ e ∈ m.pendingTaskReclaims, e.taskSequence ∈ live.map (·.sequence) ∨
    e.taskSequence ∈ lost.map (·.sequence) ∨ e.taskSequence < sizes.length
  lower : m.pendingReclaimBytes + (m.pendingTaskReclaims.map (charge sizes live)).sum +
    (sizes.sum + heldBytes live) ≤ m.cpuPayloadHead
  upper : m.recordReclaimFailure = false → m.cpuPayloadHead ≤ m.pendingReclaimBytes +
    (m.pendingTaskReclaims.map (refund sizes live lost)).sum +
      (sizes.sum + heldBytes live + heldBytes lost)

namespace Balanced

variable {m m' : Mgmt} {sizes : List Nat} {live lost : List Reserved}

theorem init : Balanced ⟨0, 0, [], 0, false⟩ [] [] [] where
  tasks_eq := rfl
  sorted := Pairwise.nil
  bounds := fun _ h => absurd h not_mem_nil
  in_order := fun _ => rfl
  reclaims_sorted := Pairwise.nil
  reclaim_lt := fun _ h => absurd h not_mem_nil
  reclaim_own := fun _ h => absurd h not_mem_nil
  reclaim_of_live := fun _ h => absurd h not_mem_nil
  reclaim_cases := fun _ h => absurd h not_mem_nil
  lower := le_rfl
  upper := fun _ => le_rfl

theorem keys_nodup (h : Balanced m sizes live lost) :
    (m.pendingTaskReclaims.map (·.taskSequence)).Nodup :=
  h.reclaims_sorted.imp fun hlt => Nat.ne_of_lt hlt

/-! ### Reserving -/

section

variable (head : Nat) (items : List ReservationItem)

theorem map_sequence_numbered :
    (numbered head items).map (·.sequence) = List.range' head items.length := by
  rw [numbered, map_map]
  exact zipIdx_map_snd head items

theorem length_numbered : (numbered head items).length = items.length := by
  rw [numbered, length_map, length_zipIdx]

theorem heldBytes_numbered : heldBytes (numbered head items) = reservationBytes items := by
  rw [heldBytes, numbered, map_map, reservationBytes]
  conv_rhs => rw [← zipIdx_map_fst head items, map_map]
  rfl

end

variable {x : Reserved}

theorem heldBytes_append (xs ys : List Reserved) :
    heldBytes (xs ++ ys) = heldBytes xs + heldBytes ys := by
  rw [heldBytes, map_append, sum_append, heldBytes, heldBytes]

theorem reserve (h : Balanced m sizes live lost) (items : List ReservationItem) :
    Balanced (m.reserveRecord items) sizes (live ++ numbered m.cpuTaskHead items) lost := by
  have hseq := map_sequence_numbered m.cpuTaskHead items
  have hlength := length_numbered m.cpuTaskHead items
  have hheld := heldBytes_numbered m.cpuTaskHead items
  rw [Mgmt.reserveRecord]
  -- of the new items only the numbers, the length and the bytes matter
  generalize numbered m.cpuTaskHead items = new at hseq hlength hheld ⊢
  have hrange : ∀ x ∈ new,
      m.cpuTaskHead ≤ x.sequence ∧ x.sequence < m.cpuTaskHead + items.length := by
    intro x hx
    rw [← mem_range'_1, ← hseq]
    exact mem_map_of_mem hx
  have hsorted : (new.map (·.sequence)).Pairwise (· < ·) := hseq ▸ pairwise_lt_range'
  have hreclaims : ∀ e ∈ (new.filter (·.needsReclaim)).map Reserved.reclaim,
      ∃ x ∈ new, x.needsReclaim = true ∧ e = x.reclaim := by
    intro e he
    obtain ⟨x, hx, rfl⟩ := mem_map.mp he
    exact ⟨x, mem_of_mem_filter hx, (mem_filter.mp hx).2, rfl⟩
  -- an entry that was there is below the new numbers
  have hold : ∀ e ∈ m.pendingTaskReclaims, (e.taskSequence ∈ (live ++ new).map (·.sequence) ↔
      e.taskSequence ∈ live.map (·.sequence)) := by
    intro e he
    have := h.reclaim_lt e he
    rw [map_append, mem_append, hseq, mem_range'_1]
    exact or_iff_left (by omega)
  have hnew : (((new.filter (·.needsReclaim)).map Reserved.reclaim).map
      (charge sizes (live ++ new))).sum = 0 := by
    refine sum_eq_zero fun n hn => ?_
    obtain ⟨e, he, rfl⟩ := mem_map.mp hn
    obtain ⟨x, hx, _, rfl⟩ := hreclaims e he
    rw [charge, if_pos]
    exact mem_map_of_mem (mem_append_right _ hx)
  have hcharge : ∀ e ∈ m.pendingTaskReclaims, charge sizes (live ++ new) e =
      charge sizes live e := by
    intro e he
    simp only [charge, hold e he]
  refine {
    tasks_eq := ?_
    sorted := ?_
    bounds := ?_
    in_order := ?_
    reclaims_sorted := ?_
    reclaim_lt := ?_
    reclaim_own := ?_
    reclaim_of_live := ?_
    reclaim_cases := ?_
    lower := ?_
    upper := ?_ }
  · have := h.tasks_eq
    simp only [length_append, hlength]
    omega
  · rw [map_append, pairwise_append]
    refine ⟨h.sorted, hsorted, ?_⟩
    intro a ha b hb
    obtain ⟨x, hx, rfl⟩ := mem_map.mp ha
    obtain ⟨y, hy, rfl⟩ := mem_map.mp hb
    exact (h.bounds x hx).2.trans_le (hrange y hy).1
  · intro x hx
    simp only
    rcases mem_append.mp hx with hx | hx
    · have := h.bounds x hx
      omega
    · have := hrange x hx
      have := h.tasks_eq
      omega
  · intro hlost
    have htasks := h.tasks_eq
    rw [hlost, length_nil, Nat.add_zero] at htasks
    rw [map_append, h.in_order hlost, hseq, htasks, range'_append_1, length_append, hlength]
  · rw [map_append, pairwise_append, map_map]
    refine ⟨h.reclaims_sorted, hsorted.sublist (filter_sublist.map _), ?_⟩
    intro a ha b hb
    obtain ⟨e, he, rfl⟩ := mem_map.mp ha
    obtain ⟨x, hx, rfl⟩ := mem_map.mp hb
    exact (h.reclaim_lt e he).trans_le (hrange x (mem_of_mem_filter hx)).1
  · intro e he
    rcases mem_append.mp he with he | he
    · exact (h.reclaim_lt e he).trans_le (Nat.le_add_right _ _)
    · obtain ⟨x, hx, _, rfl⟩ := hreclaims e he
      exact (hrange x hx).2
  · intro e he x hx heq
    rcases mem_append.mp he with he | he <;> rcases mem_append.mp hx with hx | hx
    · exact h.reclaim_own e he x hx heq
    · have := h.reclaim_lt e he
      have := (hrange x hx).1
      omega
    · obtain ⟨y, hy, _, rfl⟩ := hreclaims e he
      have := (h.bounds x hx).2.trans_le (hrange y hy).1
      exact absurd heq this.ne'
    · obtain ⟨y, hy, hreclaim, rfl⟩ := hreclaims e he
      obtain rfl := inj_on_of_nodup_map (hsorted.imp Nat.ne_of_lt) hy hx heq
      exact ⟨hreclaim, rfl⟩
  · intro x hx hreclaim
    rcases mem_append.mp hx with hx | hx
    · obtain ⟨e, he, heq⟩ := h.reclaim_of_live x hx hreclaim
      exact ⟨e, mem_append_left _ he, heq⟩
    · exact ⟨x.reclaim, mem_append_right _
        (mem_map_of_mem (mem_filter.mpr ⟨hx, hreclaim⟩)), rfl⟩
  · intro e he
    rcases mem_append.mp he with he | he
    · rcases h.reclaim_cases e he with hc | hc
      · exact .inl ((hold e he).mpr hc)
      · exact .inr hc
    · obtain ⟨x, hx, _, rfl⟩ := hreclaims e he
      exact .inl (mem_map_of_mem (mem_append_right _ hx))
  · have hlower := h.lower
    rw [map_append, sum_append, map_congr_left hcharge, hnew, heldBytes_append, hheld]
    simp only
    omega
  · intro hfailed
    have hupper := h.upper hfailed
    have hsum : (m.pendingTaskReclaims.map (refund sizes live lost)).sum ≤
        (m.pendingTaskReclaims.map (refund sizes (live ++ new) lost)).sum := by
      refine sum_le_sum fun e he => ?_
      rw [refund, refund, hcharge e he]
    rw [map_append, sum_append, heldBytes_append, hheld]
    simp only
    omega

/-! ### Launching and abandoning -/

theorem getD_append_le (sizes : List Nat) (a k : Nat) :
    sizes.getD k 0 ≤ (sizes ++ [a]).getD k 0 := by
  simp only [getD_eq_getElem?_getD, getElem?_append]
  by_cases hk : k < sizes.length
  · rw [if_pos hk]
  · rw [getElem?_eq_none (Nat.le_of_not_lt hk)]
    exact Nat.zero_le _

/-- The number of a record is its position as long as nothing was abandoned. -/
theorem head_sequence {rest : List Reserved}
    (h : Balanced m sizes (x :: rest) lost) (hlost : lost = []) : x.sequence = sizes.length := by
  have := h.in_order hlost
  exact (List.cons.inj this).1

theorem launch {rest : List Reserved} {a : Nat} (h : Balanced m sizes (x :: rest) lost)
    (hle : a ≤ x.reservedPayloadBytes)
    (hexact : x.needsReclaim = false → a = x.reservedPayloadBytes)
    (hkept : x.needsReclaim = true → lost = []) : Balanced m (sizes ++ [a]) rest lost := by
  have hsorted := pairwise_cons.mp h.sorted
  have hhead := h.bounds x mem_cons_self
  have hnot : x.sequence ∉ rest.map (·.sequence) := fun hx =>
    absurd (hsorted.1 _ hx) (Nat.lt_irrefl _)
  have hlength : (sizes ++ [a]).length = sizes.length + 1 := by
    rw [length_append, length_singleton]
  have hmem : ∀ e : PendingTaskReclaim, e.taskSequence ≠ x.sequence →
      (e.taskSequence ∈ (x :: rest).map (·.sequence) ↔
        e.taskSequence ∈ rest.map (·.sequence)) := by
    intro e he
    rw [map_cons, mem_cons]
    exact or_iff_right he
  -- the entry of the record itself waits for what the record does not use
  have hown : ∀ e ∈ m.pendingTaskReclaims, e.taskSequence = x.sequence →
      charge sizes (x :: rest) e = 0 ∧
        charge (sizes ++ [a]) rest e = x.reservedPayloadBytes - a ∧ x.needsReclaim = true := by
    intro e he heq
    obtain ⟨hreclaim, hbytes⟩ := h.reclaim_own e he x mem_cons_self heq
    refine ⟨?_, ?_, hreclaim⟩
    · rw [charge, if_pos]
      rw [heq]
      exact mem_map_of_mem mem_cons_self
    · rw [charge, if_neg (heq ▸ hnot), hbytes, heq, h.head_sequence (hkept hreclaim)]
      simp only [getD_eq_getElem?_getD, getElem?_concat_length, Option.getD_some]
  refine { h with
    tasks_eq := ?_
    sorted := hsorted.2
    bounds := ?_
    in_order := ?_
    reclaim_own := fun e he y hy => h.reclaim_own e he y (mem_cons_of_mem _ hy)
    reclaim_of_live := fun y hy => h.reclaim_of_live y (mem_cons_of_mem _ hy)
    reclaim_cases := ?_
    lower := ?_
    upper := ?_ }
  · have := h.tasks_eq
    rw [length_cons] at this
    omega
  · intro y hy
    have := h.bounds y (mem_cons_of_mem _ hy)
    have : x.sequence < y.sequence := hsorted.1 _ (mem_map_of_mem hy)
    omega
  · intro hlost
    have := h.in_order hlost
    rw [hlength]
    exact (List.cons.inj this).2
  · intro e he
    by_cases heq : e.taskSequence = x.sequence
    · obtain ⟨_, _, hreclaim⟩ := hown e he heq
      have := h.head_sequence (hkept hreclaim)
      exact .inr (.inr (by omega))
    · rcases h.reclaim_cases e he with hc | hc | hc
      · exact .inl ((hmem e heq).mp hc)
      · exact .inr (.inl hc)
      · exact .inr (.inr (by omega))
  · have hsum : (m.pendingTaskReclaims.map (charge (sizes ++ [a]) rest)).sum ≤
        (m.pendingTaskReclaims.map (charge sizes (x :: rest))).sum +
          (x.reservedPayloadBytes - a) := by
      refine sum_map_le_add (k := x.sequence) h.keys_nodup (fun e he heq => ?_) fun e he hne => ?_
      · obtain ⟨_, hafter, _⟩ := hown e he heq
        exact hafter.le.trans (Nat.le_add_left _ _)
      · unfold charge
        simp only [hmem e hne]
        split
        · exact le_rfl
        · exact Nat.sub_le_sub_left (getD_append_le sizes a _) _
    have hlower := h.lower
    simp only [heldBytes, map_cons, sum_cons] at hlower ⊢
    rw [sum_append, sum_singleton]
    omega
  · intro hfailed
    have hupper := h.upper hfailed
    have hrefund : ∀ e ∈ m.pendingTaskReclaims, e.taskSequence ≠ x.sequence →
        refund sizes (x :: rest) lost e ≤ refund (sizes ++ [a]) rest lost e := by
      intro e he hne
      unfold refund charge
      simp only [hmem e hne]
      by_cases hlost : e.taskSequence ∈ lost.map (·.sequence)
      · rw [if_pos hlost]
        exact Nat.zero_le _
      by_cases hlive : e.taskSequence ∈ rest.map (·.sequence)
      · rw [if_pos hlive]
        exact (if_neg hlost).le.trans (Nat.zero_le _)
      have hlt : e.taskSequence < sizes.length := by
        rcases h.reclaim_cases e he with hc | hc | hc
        · exact absurd ((hmem e hne).mp hc) hlive
        · exact absurd hc hlost
        · exact hc
      simp only [if_neg hlost, if_neg hlive, getD_eq_getElem?_getD,
        getElem?_append_left hlt]
      exact le_rfl
    have hsum : (m.pendingTaskReclaims.map (refund sizes (x :: rest) lost)).sum +
        (x.reservedPayloadBytes - a) ≤
          (m.pendingTaskReclaims.map (refund (sizes ++ [a]) rest lost)).sum := by
      cases hreclaim : x.needsReclaim with
      | false =>
        rw [← hexact hreclaim, Nat.sub_self, Nat.add_zero]
        refine sum_le_sum fun e he => hrefund e he fun heq => ?_
        rw [(hown e he heq).2.2] at hreclaim
        cases hreclaim
      | true =>
        refine add_le_sum_map (k := x.sequence)
          (h.reclaim_of_live x mem_cons_self hreclaim) (fun e he heq => ?_) hrefund
        obtain ⟨hbefore, hafter, _⟩ := hown e he heq
        simp only [refund, hkept hreclaim, map_nil, not_mem_nil, if_false, hbefore,
          hafter, Nat.zero_add]
        exact le_rfl
    simp only [heldBytes, map_cons, sum_cons] at hupper ⊢
    rw [sum_append, sum_singleton]
    omega

theorem abandon (h : Balanced m sizes live lost) {k : Nat}
    (hx : live[k]? = some x) : Balanced m sizes (live.eraseIdx k) (lost ++ [x]) := by
  obtain ⟨hk, hxk⟩ := List.getElem?_eq_some_iff.mp hx
  have hperm : (x :: live.eraseIdx k).Perm live := hxk ▸ getElem_cons_eraseIdx_perm hk
  have hsub : (live.eraseIdx k).Sublist live := eraseIdx_sublist live k
  have hsplit : ∀ n, n ∈ live.map (·.sequence) ↔
      n = x.sequence ∨ n ∈ (live.eraseIdx k).map (·.sequence) := by
    intro n
    rw [← (hperm.map (·.sequence)).mem_iff, map_cons, mem_cons]
  have hlost : ∀ n, n ∈ (lost ++ [x]).map (·.sequence) ↔
      n ∈ lost.map (·.sequence) ∨ n = x.sequence := by
    intro n
    rw [map_append, mem_append, map_singleton, mem_singleton]
  have hheld : heldBytes live = x.reservedPayloadBytes + heldBytes (live.eraseIdx k) := by
    rw [heldBytes, ← (hperm.map _).sum_eq, map_cons, sum_cons, heldBytes]
  refine { h with
    tasks_eq := ?_
    sorted := h.sorted.sublist (hsub.map _)
    bounds := fun y hy => h.bounds y (hsub.mem hy)
    in_order := fun hnil => by
      simp only [append_eq_nil_iff, cons_ne_nil, and_false] at hnil
    reclaim_own := fun e he y hy => h.reclaim_own e he y (hsub.mem hy)
    reclaim_of_live := fun y hy => h.reclaim_of_live y (hsub.mem hy)
    reclaim_cases := ?_
    lower := ?_
    upper := ?_ }
  · have := h.tasks_eq
    have := hperm.length_eq
    rw [length_cons] at this
    rw [length_append, length_singleton]
    omega
  · intro e he
    rcases h.reclaim_cases e he with hc | hc | hc
    · rcases (hsplit _).mp hc with hc | hc
      · exact .inr (.inl ((hlost _).mpr (.inr hc)))
      · exact .inl hc
    · exact .inr (.inl ((hlost _).mpr (.inl hc)))
    · exact .inr (.inr hc)
  · have hsum : (m.pendingTaskReclaims.map (charge sizes (live.eraseIdx k))).sum ≤
        (m.pendingTaskReclaims.map (charge sizes live)).sum + x.reservedPayloadBytes := by
      refine sum_map_le_add (k := x.sequence) h.keys_nodup (fun e he heq => ?_) fun e he hne => ?_
      · obtain ⟨_, hbytes⟩ := h.reclaim_own e he x (mem_of_getElem? hx) heq
        unfold charge
        split <;> omega
      · unfold charge
        simp only [hsplit e.taskSequence, hne, false_or]
        exact le_rfl
    have hlower := h.lower
    omega
  · intro hfailed
    have hupper := h.upper hfailed
    have hsum : (m.pendingTaskReclaims.map (refund sizes live lost)).sum ≤
        (m.pendingTaskReclaims.map (refund sizes (live.eraseIdx k) (lost ++ [x]))).sum := by
      refine sum_le_sum fun e he => ?_
      unfold refund charge
      simp only [hsplit, hlost]
      by_cases heq : e.taskSequence = x.sequence
      · simp only [heq, true_or, or_true, if_true, ite_self]
        exact le_rfl
      · simp only [heq, false_or, or_false]
        exact le_rfl
    have hheld' : heldBytes (lost ++ [x]) = heldBytes lost + x.reservedPayloadBytes := by
      rw [heldBytes_append]
      rfl
    omega

/-! ### Reclaiming -/

section

variable (h : Balanced m sizes live lost)
include h

theorem apply (hm : m.applyPendingRecordReclaims = some m') : Balanced m' sizes live lost := by
  unfold Mgmt.applyPendingRecordReclaims at hm
  split at hm
  next => cases hm
  next hle =>
    cases hm
    exact { h with
      lower := by
        have := h.lower
        simp only
        omega
      upper := fun hfailed => by
        have := h.upper hfailed
        simp only
        omega }

theorem failed :
    Balanced { m with recordReclaimFailure := true } sizes live lost :=
  { h with upper := fun hfailed => by cases hfailed }

/-- The entry of a publication that was scanned is settled: it adds what the publication
does not use to the bytes that will be taken back, unless the lane has failed. -/
theorem settle {e : PendingTaskReclaim}
    {rest : List PendingTaskReclaim} {actual bytes : Nat} {failure : Bool}
    (he : m.pendingTaskReclaims = e :: rest) (ha : sizes[e.taskSequence]? = some actual)
    (hle : bytes ≤ m.pendingReclaimBytes + (e.reservedPayloadBytes - actual))
    (hge : failure = false → m.recordReclaimFailure = false ∧
      m.pendingReclaimBytes + (e.reservedPayloadBytes - actual) ≤ bytes) :
    Balanced { m with
      pendingTaskReclaims := rest
      pendingReclaimBytes := bytes
      recordReclaimFailure := failure } sizes live lost := by
  have hlt : e.taskSequence < sizes.length := (List.getElem?_eq_some_iff.mp ha).1
  have hmem : ∀ e' ∈ rest, e' ∈ m.pendingTaskReclaims := fun e' he' =>
    he ▸ mem_cons_of_mem e he'
  have hlive : e.taskSequence ∉ live.map (·.sequence) := by
    intro hc
    obtain ⟨x, hx, heq⟩ := mem_map.mp hc
    have := (h.bounds x hx).1
    omega
  have hcharge : charge sizes live e = e.reservedPayloadBytes - actual := by
    rw [charge, if_neg hlive, getD_eq_getElem?_getD, ha, Option.getD_some]
  have hrefund : refund sizes live lost e ≤ e.reservedPayloadBytes - actual := by
    unfold refund
    split
    · exact Nat.zero_le _
    · exact hcharge.le
  have hsorted := h.reclaims_sorted
  rw [he, map_cons] at hsorted
  refine { h with
    reclaims_sorted := (pairwise_cons.mp hsorted).2
    reclaim_lt := fun e' he' => h.reclaim_lt e' (hmem e' he')
    reclaim_own := fun e' he' => h.reclaim_own e' (hmem e' he')
    reclaim_of_live := ?_
    reclaim_cases := fun e' he' => h.reclaim_cases e' (hmem e' he')
    lower := ?_
    upper := ?_ }
  · intro x hx hreclaim
    obtain ⟨e', he', heq⟩ := h.reclaim_of_live x hx hreclaim
    rw [he] at he'
    rcases mem_cons.mp he' with rfl | he'
    · have := (h.bounds x hx).1
      omega
    · exact ⟨e', he', heq⟩
  · have hlower := h.lower
    rw [he, map_cons, sum_cons, hcharge] at hlower
    simp only
    omega
  · intro hf
    obtain ⟨hfailed, hge⟩ := hge hf
    have hupper := h.upper hfailed
    rw [he, map_cons, sum_cons] at hupper
    simp only
    omega

theorem account {sequence actualBytes : Nat} (ha : sizes[sequence]? = some (alignUp actualBytes)) :
    Balanced (m.accountRecordTask sequence actualBytes) sizes live lost := by
  unfold Mgmt.accountRecordTask
  split
  next => exact h
  next e rest he =>
    split
    next => exact h
    next hfailed =>
      split
      next => exact h
      next =>
        split
        next => exact h.failed
        next heq =>
          obtain rfl := not_not.mp heq
          simp only
          split
          next hbig => exact h.settle he ha (Nat.le_add_right _ _) fun hf => by cases hf
          next =>
            split
            next => exact h.settle he ha (Nat.le_add_right _ _) fun hf => by cases hf
            next => exact h.settle he ha le_rfl fun hf => ⟨hf, le_rfl⟩

end

end Balanced

end Dmi.Ring
