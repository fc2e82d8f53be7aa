import Dmi.Lib.Basic
import Dmi.Lib.DictSum
import Dmi.Lib.Table
import Mathlib.Data.List.Sort
import Mathlib.Data.String.Basic
import Mathlib.Data.Sum.Order

/-!
# Reassembling captured chunks

A stored row is a chunk of one request's activations, in one layer, from a start token on. The
reassemblers group the rows, put the chunks of a request in the order of their start tokens and
concatenate them; the requests of a batch are left-padded to one length. Two chunks of a request
with one start token are refused; how far a chunk reaches is not looked at.

The rows of one hook have one trailing shape and type, `α`. `int` is `int(part)`, if it parses.
-/

namespace Dmi.Internals

open List Dict

variable {α : Type}

/-- What is read of the key of a stored row. -/
structure RowKey where
  requestId : String
  actName : String
  layerNo : Int
  startToken : Int

inductive ReassemblyError where
  | duplicateChunks (actName requestId : String) (starts : List Int)
  /-- `per_request[0]` of an empty list. -/
  | noRows
  deriving DecidableEq

/-- `_request_sort_key`. -/
def requestSortKey (int : String → Option Int) (requestId : String) : List (Int ⊕ₗ String) :=
  (requestId.splitOn ":").map fun part =>
    match int part with
    | some n => Sum.inlₗ n
    | none => Sum.inrₗ part

/-- `sorted(l, key=key)`. -/
def sortedBy {β γ : Type} [LinearOrder γ] (key : β → γ) (l : List β) : List β :=
  l.insertionSort fun a b => key a ≤ key b

/-- `_ordered_chunks`. -/
def orderedChunks (actName requestId : String) (chunks : List (Int × List α)) :
    Except ReassemblyError (List (List α)) :=
  let counts := Dict.foldBy Prod.fst 0 (fun n _ => n + 1) chunks
  let duplicated := sortedBy id ((counts.items.filter fun x => 1 < x.2).map Prod.fst)
  if duplicated ≠ [] then .error (.duplicateChunks actName requestId duplicated)
  else .ok ((sortedBy Prod.fst chunks).map Prod.snd)

/-- `_left_pad_stack`, and the like for tensors of one dimension. -/
def leftPadStack (zero : α) (perRequest : List (List α)) : List (List α) :=
  perRequest.map fun t =>
    List.replicate (maxOf List.length perRequest - t.length) zero ++ t

/-- The chunks of each request. -/
def requestsOf (rows : List (RowKey × List α)) : Dict String (List (Int × List α)) :=
  Dict.foldBy (fun r => r.1.requestId) [] (fun chunks r => chunks ++ [(r.1.startToken, r.2)]) rows

/-- The rows of each layer, by request. -/
def layersOf (rows : List (RowKey × List α)) : Dict Int (Dict String (List (Int × List α))) :=
  Dict.foldBy (fun r => r.1.layerNo) Dict.empty (fun requests r => requests.set r.1.requestId
    ((requests.get? r.1.requestId).getD [] ++ [(r.1.startToken, r.2)])) rows

/-- The concatenated chunks of each request, in the order of the request ids. -/
def perRequest (int : String → Option Int) (actName : String)
    (requests : Dict String (List (Int × List α))) : Except ReassemblyError (List (List α)) :=
  (sortedBy (requestSortKey int ∘ Prod.fst) requests.items).mapM fun x => do
    let ordered ← orderedChunks actName x.1 x.2
    pure ordered.flatten

/-- The name in the error text. -/
def actNameOf (rows : List (RowKey × List α)) : String :=
  (rows.head?.map fun r => r.1.actName).getD "<unknown act>"

/-- `_reassemble_per_layer`. -/
def reassemblePerLayer (int : String → Option Int) (zero : α) (rows : List (RowKey × List α)) :
    Except ReassemblyError (List (List (List α))) :=
  (sortedBy Prod.fst (layersOf rows).items).mapM fun x => do
    let requests ← perRequest int (actNameOf rows) x.2
    pure (leftPadStack zero requests)

/-- `_reassemble_global`. -/
def reassembleGlobal (int : String → Option Int) (zero : α) (rows : List (RowKey × List α)) :
    Except ReassemblyError (List (List α)) := do
  let requests ← perRequest int (actNameOf rows) (requestsOf rows)
  if requests = [] then .error .noRows else pure (leftPadStack zero requests)

/-! ### The tokens of a request -/

section Tokens

variable {chunks sorted : List (Int × List α)} {c : Int × List α}

/-- The number of rows. -/
def total (chunks : List (Int × List α)) : Nat := (chunks.map fun c => c.2.length).sum

def firstStart (chunks : List (Int × List α)) : Int := ((chunks.map Prod.fst).min?).getD 0

/-- Behind the padding, row `k` is the activation of token `first_start + k`. -/
def Placed (chunks : List (Int × List α)) (row : List α) : Prop :=
  ∀ k < total chunks, ∃ c ∈ chunks, ∃ j : Nat, ∃ x, c.1 + j = firstStart chunks + k ∧
    c.2[j]? = some x ∧ row[row.length - total chunks + k]? = some x

/-- From the first start on, the chunks hold as many tokens as they have rows: there is no gap, and
no token twice. -/
def Tiles (chunks : List (Int × List α)) : Prop :=
  ∀ k < total chunks, ∃ c ∈ chunks,
    c.1 ≤ firstStart chunks + k ∧ firstStart chunks + k < c.1 + c.2.length

theorem Placed.tiles {row : List α} (h : Placed chunks row) : Tiles chunks := by
  intro k hk
  obtain ⟨c, hc, j, x, htoken, hget, -⟩ := h k hk
  obtain ⟨hj, -⟩ := List.getElem?_eq_some_iff.mp hget
  exact ⟨c, hc, by omega, by omega⟩

/-- The activations of a chunk with their tokens. -/
def stamps (c : Int × List α) : List (Int × α) := c.2.zipIdx.map fun x => (c.1 + x.2, x.1)

def tokens (c : Int × List α) : List Int := (List.range c.2.length).map fun j : Nat => c.1 + j

theorem map_fst_stamps (c : Int × List α) : (stamps c).map Prod.fst = tokens c := by
  have hidx := zipIdx_map_snd 0 c.2
  rw [← range_eq_range'] at hidx
  rw [tokens, ← hidx, stamps, map_map, map_map]
  rfl

theorem map_snd_stamps (c : Int × List α) : (stamps c).map Prod.snd = c.2 := by
  rw [stamps, map_map]
  exact zipIdx_map_fst 0 c.2

theorem mem_stamps {t : Int} {x : α} :
    (t, x) ∈ stamps c ↔ ∃ j : Nat, c.1 + j = t ∧ c.2[j]? = some x := by
  simp only [stamps, mem_map, Prod.exists, mk_mem_zipIdx_iff_getElem?, Prod.mk.injEq]
  constructor
  · rintro ⟨x, j, hget, rfl, rfl⟩
    exact ⟨j, rfl, hget⟩
  · rintro ⟨j, rfl, hget⟩
    exact ⟨x, j, hget, rfl, rfl⟩

theorem mem_tokens {t : Int} : t ∈ tokens c ↔ c.1 ≤ t ∧ t < c.1 + c.2.length := by
  simp only [tokens, mem_map, mem_range]
  constructor
  · rintro ⟨j, hj, rfl⟩
    omega
  · rintro ⟨hle, hlt⟩
    exact ⟨(t - c.1).toNat, by omega, by omega⟩

/-- Chunks that tile, in the order of their starts, hold the tokens one after the other: they hold
them all, and there is room for each once only. -/
theorem flatMap_tokens (h : Tiles chunks) (hperm : sorted.Perm chunks)
    (hsorted : sorted.Pairwise fun a b => a.1 ≤ b.1) :
    sorted.flatMap tokens =
      (List.range (total chunks)).map fun k : Nat => firstStart chunks + k := by
  have hlength : (sorted.flatMap tokens).length = total chunks := by
    have hsum := (hperm.map fun c => c.2.length).sum_eq
    rw [length_flatMap, total, ← hsum]
    simp only [tokens, length_map, List.length_range]
  have hup : ((List.range (total chunks)).map fun k : Nat => firstStart chunks + k).Pairwise
      (· < ·) := pairwise_lt_range.map _ fun a b hab => by omega
  have hsub : ((List.range (total chunks)).map fun k : Nat => firstStart chunks + k) ⊆
      sorted.flatMap tokens := by
    intro t ht
    obtain ⟨k, hk, rfl⟩ := mem_map.mp ht
    obtain ⟨c, hc, hin⟩ := h k (mem_range.mp hk)
    exact mem_flatMap.mpr ⟨c, hperm.mem_iff.mpr hc, mem_tokens.mpr hin⟩
  have hsame := (subperm_of_subset hup.nodup hsub).perm_of_length_le (by
    rw [hlength, length_map, List.length_range])
  have hdisjoint := (nodup_flatMap.mp (hsame.nodup_iff.mp hup.nodup)).2
  refine (hsame.symm.eq_of_pairwise' (pairwise_flatMap.mpr ⟨fun c _ => ?_, ?_⟩) hup)
  · exact pairwise_lt_range.map _ fun a b hab => by omega
  · refine (hsorted.and hdisjoint).imp fun {a b} hab x hx y hy => ?_
    by_contra hle
    have hx' := mem_tokens.mp hx
    have hy' := mem_tokens.mp hy
    exact hab.2 (mem_tokens.mpr ⟨by omega, by omega⟩) hy

/-- **Every row of a request is at its token exactly when its chunks tile.** -/
theorem placed_iff_tiles (hperm : sorted.Perm chunks)
    (hsorted : sorted.Pairwise fun a b => a.1 ≤ b.1) (pad : Nat) (zero : α) :
    Placed chunks (List.replicate pad zero ++ (sorted.map Prod.snd).flatten) ↔ Tiles chunks := by
  have hrows : (sorted.map Prod.snd).flatten = (sorted.flatMap stamps).map Prod.snd := by
    rw [map_flatMap, flatMap_def]
    simp only [map_snd_stamps]
  have htokens : sorted.flatMap tokens = (sorted.flatMap stamps).map Prod.fst := by
    rw [map_flatMap]
    simp only [map_fst_stamps]
  have hlength : (sorted.map Prod.snd).flatten.length = total chunks := by
    rw [length_flatten, map_map]
    exact (hperm.map fun c => c.2.length).sum_eq
  refine ⟨Placed.tiles, fun h k hk => ?_⟩
  have horder := flatMap_tokens h hperm hsorted
  have hk' : k < (sorted.flatMap stamps).length := by
    rw [← hlength, hrows, length_map] at hk
    exact hk
  obtain ⟨⟨t, x⟩, hstamp⟩ : ∃ y, (sorted.flatMap stamps)[k]? = some y :=
    ⟨_, getElem?_eq_getElem hk'⟩
  have ht : t = firstStart chunks + k := by
    have hget := congrArg (fun l : List Int => l[k]?) horder
    rw [htokens] at hget
    simp only [getElem?_map, hstamp, List.getElem?_range hk, Option.map_some,
      Option.some.injEq] at hget
    exact hget
  obtain ⟨c, hc, hin⟩ := mem_flatMap.mp (mem_of_getElem? hstamp)
  obtain ⟨j, hj, hget⟩ := mem_stamps.mp hin
  refine ⟨c, hperm.mem_iff.mp hc, j, x, hj.trans ht, hget, ?_⟩
  rw [length_append, length_replicate, hlength, Nat.add_sub_cancel,
    getElem?_append_right (by simp), length_replicate, Nat.add_sub_cancel_left, hrows,
    getElem?_map, hstamp, Option.map_some]

end Tokens

/-! ### Requests and layers -/

theorem perm_sortedBy {β γ : Type} [LinearOrder γ] (key : β → γ) (l : List β) :
    (sortedBy key l).Perm l := perm_insertionSort _ l

theorem pairwise_sortedBy {β γ : Type} [LinearOrder γ] (key : β → γ) (l : List β) :
    (sortedBy key l).Pairwise fun a b => key a ≤ key b := by
  exact pairwise_insertionSort _ l

/-- What `_ordered_chunks` refuses, and what it returns. -/
theorem orderedChunks_eq_ok {actName requestId : String} {chunks : List (Int × List α)}
    {ordered : List (List α)} : orderedChunks actName requestId chunks = .ok ordered ↔
      (chunks.map Prod.fst).Nodup ∧ (sortedBy Prod.fst chunks).map Prod.snd = ordered := by
  have hfold (l : List (Int × List α)) (n : Nat) : l.foldl (fun n _ => n + 1) n = n + l.length := by
    induction l generalizing n with
    | nil => rfl
    | cons x l ih => rw [foldl_cons, ih, length_cons, Nat.add_assoc, Nat.add_comm 1]
  have hcount : ∀ start n, (start, n) ∈ (foldBy Prod.fst 0 (fun n _ => n + 1) chunks).items ↔
      n ≠ 0 ∧ (chunks.map Prod.fst).count start = n := by
    intro start n
    have hlen : (chunks.map Prod.fst).count start = (chunks.filter (·.1 = start)).length := by
      rw [List.count, countP_map, countP_eq_length_filter]
      rfl
    rw [← get?_eq_some, get?_foldBy, hfold, Nat.zero_add, hlen]
    split_ifs with hnil
    · rw [hnil]
      exact ⟨by rintro ⟨⟩, fun h => absurd h.2.symm h.1⟩
    · rw [Option.some.injEq]
      exact ⟨fun h => ⟨h ▸ mt length_eq_zero_iff.mp hnil, h⟩, And.right⟩
  have hdup : sortedBy id (((foldBy Prod.fst 0 (fun n _ => n + 1) chunks).items.filter
      fun x => 1 < x.2).map Prod.fst) = [] ↔ (chunks.map Prod.fst).Nodup := by
    rw [← length_eq_zero_iff, (perm_sortedBy id _).length_eq, length_eq_zero_iff, map_eq_nil_iff,
      filter_eq_nil_iff, Prod.forall, nodup_iff_count_le_one]
    simp only [hcount, decide_eq_true_eq, not_lt]
    refine ⟨fun h start => ?_, fun h start n hn => hn.2 ▸ h start⟩
    by_contra hlt
    exact hlt (h start _ ⟨by omega, rfl⟩)
  rw [orderedChunks]
  split_ifs with h
  · exact ⟨by rintro ⟨⟩, fun hok => absurd (hdup.mpr hok.1) h⟩
  · rw [Except.ok.injEq, and_iff_right (hdup.mp (not_not.mp h))]

/-- The stored chunks of a request. -/
def storedChunks (rows : List (RowKey × List α)) (requestId : String) : List (Int × List α) :=
  (rows.filter (·.1.requestId = requestId)).map fun r => (r.1.startToken, r.2)

/-- The batch has a row for each request, in the order of the requests: the start tokens of its
chunks are distinct, and their rows stand right-aligned in the order of the start tokens. So each
is at its token exactly when the chunks tile. -/
def Batch (int : String → Option Int) (zero : α) (rows : List (RowKey × List α))
    (batch : List (List α)) : Prop :=
  ∃ requests : List String, requests.Nodup ∧
    (∀ request, request ∈ requests ↔ ∃ r ∈ rows, r.1.requestId = request) ∧
    requests.Pairwise (fun a b => requestSortKey int a ≤ requestSortKey int b) ∧
    List.Forall₂ (fun request row =>
      ((storedChunks rows request).map Prod.fst).Nodup ∧
      (∃ pad, row = List.replicate pad zero ++
        ((sortedBy Prod.fst (storedChunks rows request)).map Prod.snd).flatten) ∧
      (Placed (storedChunks rows request) row ↔ Tiles (storedChunks rows request)))
      requests batch

variable (rows : List (RowKey × List α))

theorem get?_requestsOf (request : String) :
    (requestsOf rows).get? request = if storedChunks rows request = [] then none
      else some (storedChunks rows request) := by
  rw [requestsOf, get?_foldBy_append, storedChunks]
  simp only [map_eq_nil_iff]

/-- The rows of a layer. -/
def layerRows (layer : Int) : List (RowKey × List α) := rows.filter (·.1.layerNo = layer)

theorem get?_layersOf (layer : Int) :
    (layersOf rows).get? layer = if layerRows rows layer = [] then none
      else some (requestsOf (layerRows rows layer)) := by
  rw [layersOf, get?_foldBy]
  rfl

section Items

variable {β γ δ : Type} [LinearOrder γ] {d : Dict β δ} {key : β × δ → γ}

theorem nodup_sortedItems : ((sortedBy key d.items).map Prod.fst).Nodup :=
  ((perm_sortedBy key _).map Prod.fst).nodup_iff.mpr d.nodup

variable [DecidableEq β]

theorem mem_sortedItems {k : β} :
    k ∈ (sortedBy key d.items).map Prod.fst ↔ d.get? k ≠ none := by
  rw [((perm_sortedBy key _).map Prod.fst).mem_iff, ne_eq, get?_eq_none, not_not]
  rfl

theorem sortedItems_eq {v : β → δ} {p : β → Prop} [DecidablePred p]
    (hv : ∀ k, d.get? k = if p k then none else some (v k)) :
    sortedBy key d.items = ((sortedBy key d.items).map Prod.fst).map fun k => (k, v k) := by
  rw [map_map]
  nth_rewrite 1 [← map_id (sortedBy key d.items)]
  refine map_congr_left fun x hx => ?_
  have hget := get?_eq_some.mpr ((perm_sortedBy key _).mem_iff.mp hx)
  rw [hv] at hget
  split_ifs at hget
  exact Prod.ext rfl (Option.some.inj hget).symm

end Items

/-- The requests in the order of the batch. -/
def requestIds (int : String → Option Int) : List String :=
  (sortedBy (requestSortKey int ∘ Prod.fst) (requestsOf rows).items).map Prod.fst

/-- The layers in the order of the output. -/
def layerNos : List Int := (sortedBy Prod.fst (layersOf rows).items).map Prod.fst

/-- The row of a request before the padding. -/
def joined (request : String) : List α :=
  ((sortedBy Prod.fst (storedChunks rows request)).map Prod.snd).flatten

variable {rows} {int : String → Option Int} {zero : α}

theorem mem_requestIds {request : String} :
    request ∈ requestIds rows int ↔ ∃ r ∈ rows, r.1.requestId = request := by
  rw [requestIds, mem_sortedItems, get?_requestsOf, storedChunks]
  simp

theorem mem_layerNos {layer : Int} : layer ∈ layerNos rows ↔ ∃ r ∈ rows, r.1.layerNo = layer := by
  rw [layerNos, mem_sortedItems, get?_layersOf, layerRows]
  simp

theorem perRequest_eq_ok {actName : String} {out : List (List α)} :
    perRequest int actName (requestsOf rows) = .ok out ↔
      (∀ request ∈ requestIds rows int, ((storedChunks rows request).map Prod.fst).Nodup) ∧
        (requestIds rows int).map (joined rows) = out := by
  rw [perRequest, sortedItems_eq (get?_requestsOf rows)]
  exact mapM_map_eq_ok fun request row => bind_pure_eq_ok fun _ => orderedChunks_eq_ok

theorem reassemblePerLayer_eq_ok {out : List (List (List α))} :
    reassemblePerLayer int zero rows = .ok out ↔
      (∀ layer ∈ layerNos rows, ∀ request ∈ requestIds (layerRows rows layer) int,
        ((storedChunks (layerRows rows layer) request).map Prod.fst).Nodup) ∧
      ((layerNos rows).map fun layer => leftPadStack zero
        ((requestIds (layerRows rows layer) int).map (joined (layerRows rows layer)))) = out := by
  rw [reassemblePerLayer, sortedItems_eq (get?_layersOf rows)]
  exact mapM_map_eq_ok fun layer batch => bind_pure_eq_ok fun _ => perRequest_eq_ok

theorem pairwise_requestIds : (requestIds rows int).Pairwise fun a b =>
    requestSortKey int a ≤ requestSortKey int b :=
  pairwise_map.mpr (pairwise_sortedBy _ _)

theorem batch_leftPadStack
    (h : ∀ request ∈ requestIds rows int, ((storedChunks rows request).map Prod.fst).Nodup) :
    Batch int zero rows (leftPadStack zero ((requestIds rows int).map (joined rows))) := by
  refine ⟨requestIds rows int, nodup_sortedItems, fun _ => mem_requestIds, pairwise_requestIds, ?_⟩
  rw [leftPadStack, forall₂_map_right_iff, forall₂_map_right_iff, forall₂_same]
  exact fun request hrequest => ⟨h request hrequest, ⟨_, rfl⟩,
    placed_iff_tiles (perm_sortedBy _ _) (pairwise_sortedBy _ _) _ _⟩

theorem pairwise_layerNos : (layerNos rows).Pairwise (· < ·) :=
  ((pairwise_map.mpr (pairwise_sortedBy Prod.fst _)).and nodup_sortedItems).imp
    fun hle => lt_of_le_of_ne hle.1 hle.2

/-- **What the reassemblers return.** -/
theorem reassembled_in_token_order (int : String → Option Int) (zero : α)
    (rows : List (RowKey × List α)) :
    (∀ out, reassemblePerLayer int zero rows = .ok out → ∃ layers : List Int,
      layers.Pairwise (· < ·) ∧ (∀ layer, layer ∈ layers ↔ ∃ r ∈ rows, r.1.layerNo = layer) ∧
      List.Forall₂ (fun layer batch => Batch int zero (rows.filter (·.1.layerNo = layer)) batch)
        layers out) ∧
    ∀ out, reassembleGlobal int zero rows = .ok out → Batch int zero rows out := by
  refine ⟨fun out h => ?_, fun out h => ?_⟩
  · obtain ⟨hnodup, rfl⟩ := reassemblePerLayer_eq_ok.mp h
    refine ⟨layerNos rows, pairwise_layerNos, fun _ => mem_layerNos, ?_⟩
    rw [forall₂_map_right_iff, forall₂_same]
    exact fun layer hlayer => batch_leftPadStack (hnodup layer hlayer)
  · obtain ⟨requests, hrequests, h⟩ := bind_eq_ok.mp h
    obtain ⟨hnodup, rfl⟩ := perRequest_eq_ok.mp hrequests
    split_ifs at h with hnil
    cases h
    exact batch_leftPadStack hnodup

theorem reassembled_in_token_order_two_chunks :
    Batch (fun _ => none) 0 [(⟨"r", "a", 0, 2⟩, [12]), (⟨"r", "a", 0, 0⟩, [10, 11])]
      [[10, 11, 12]] :=
  (reassembled_in_token_order (fun _ => none) 0 _).2 _ (by rfl)

/-- Two chunks that overlap, and two with a gap between them: no error, and the rows of the second
chunk are not at their tokens. -/
theorem misplaced_without_error :
    let row (start : Int) (xs : List Nat) : RowKey × List Nat := (⟨"r", "a", 0, start⟩, xs)
    reassembleGlobal (fun _ => none) 0 [row 0 [10, 11], row 1 [21, 22]] =
        .ok [[10, 11, 21, 22]] ∧
      ¬Placed [(0, [10, 11]), (1, [21, 22])] [10, 11, 21, 22] ∧
    reassemblePerLayer (fun _ => none) 0 [row 0 [10], row 2 [12]] = .ok [[[10, 12]]] ∧
      ¬Placed [(0, [10]), (2, [12])] [10, 12] := by
  refine ⟨by rfl, fun h => ?_, by rfl, fun h => ?_⟩
  · exact absurd h.tiles (by unfold Tiles; decide)
  · exact absurd h.tiles (by unfold Tiles; decide)

/-! ### The place of a request in the batch -/

/-- The rows of different requests have different sort keys. -/
def DistinctKeys (int : String → Option Int) (rows : List (RowKey × List α)) : Prop :=
  ∀ r ∈ rows, ∀ r' ∈ rows, requestSortKey int r.1.requestId = requestSortKey int r'.1.requestId →
    r.1.requestId = r'.1.requestId

/-- The rows have the requests of these rows, each of a sort key of its own. -/
theorem requestIds_congr {rows' : List (RowKey × List α)} (hkeys : DistinctKeys int rows)
    (h : ∀ request, (∃ r ∈ rows', r.1.requestId = request) ↔ ∃ r ∈ rows, r.1.requestId = request) :
    requestIds rows' int = requestIds rows int := by
  refine Perm.eq_of_pairwise (fun a b ha hb hab hba => ?_) pairwise_requestIds pairwise_requestIds
    ((perm_ext_iff_of_nodup nodup_sortedItems nodup_sortedItems).mpr fun request => ?_)
  · obtain ⟨r, hr, rfl⟩ := (h a).mp (mem_requestIds.mp ha)
    obtain ⟨r', hr', rfl⟩ := mem_requestIds.mp hb
    exact hkeys r hr r' hr' (hab.antisymm hba)
  · exact mem_requestIds.trans ((h request).trans mem_requestIds.symm)

theorem joined_congr {rows' : List (RowKey × List α)} {request : String} (hperm : rows'.Perm rows)
    (hnodup : ((storedChunks rows request).map Prod.fst).Nodup) :
    joined rows' request = joined rows request := by
  have hchunks : (storedChunks rows' request).Perm (storedChunks rows request) :=
    (hperm.filter _).map _
  have hsame := ((perm_sortedBy Prod.fst _).trans hchunks).trans (perm_sortedBy Prod.fst _).symm
  rw [joined, joined, hsame.eq_of_pairwise (fun a b ha hb hab hba => ?_) (pairwise_sortedBy _ _)
    (pairwise_sortedBy _ _)]
  exact inj_on_of_nodup_map hnodup (hchunks.mem_iff.mp ((perm_sortedBy _ _).mem_iff.mp ha))
    ((perm_sortedBy _ _).mem_iff.mp hb) (hab.antisymm hba)

theorem reassemblePerLayer_of_perm {rows' : List (RowKey × List α)} {out : List (List (List α))}
    (hkeys : DistinctKeys int rows) (hperm : rows'.Perm rows)
    (h : reassemblePerLayer int zero rows = .ok out) :
    reassemblePerLayer int zero rows' = .ok out := by
  obtain ⟨hnodup, rfl⟩ := reassemblePerLayer_eq_ok.mp h
  have hlayers : layerNos rows' = layerNos rows := by
    refine Perm.eq_of_pairwise' pairwise_layerNos pairwise_layerNos
      ((perm_ext_iff_of_nodup nodup_sortedItems nodup_sortedItems).mpr fun layer => ?_)
    refine mem_layerNos.trans (Iff.trans ?_ mem_layerNos.symm)
    simp only [hperm.mem_iff]
  have hrequests : ∀ layer, requestIds (layerRows rows' layer) int =
      requestIds (layerRows rows layer) int := fun layer => by
    refine requestIds_congr (fun r hr r' hr' =>
      hkeys r (mem_of_mem_filter hr) r' (mem_of_mem_filter hr')) fun request => ?_
    simp only [(hperm.filter _).mem_iff, layerRows]
  simp only [reassemblePerLayer_eq_ok, hlayers, hrequests]
  refine ⟨fun layer hlayer request hrequest => ?_, map_congr_left fun layer hlayer => ?_⟩
  · exact ((((hperm.filter _).filter _).map _).map _).nodup_iff.mpr
      (hnodup layer hlayer request hrequest)
  · exact congrArg _ (map_congr_left fun request hrequest =>
      joined_congr (hperm.filter _) (hnodup layer hlayer request hrequest))

/-- **The layers of a batch.** Rows are refused only for two chunks of a request with one start
token in a layer, and each layer has its own requests, also where it lacks one of another layer. If
different requests have different sort keys, the order of the rows does not matter, and where the
layers have the same requests they have them at the same places. -/
theorem layers_aligned (hkeys : DistinctKeys int rows) (out : List (List (List α))) :
    (reassemblePerLayer int zero rows = .ok out ↔
      (∀ layer ∈ layerNos rows, ∀ request ∈ requestIds (layerRows rows layer) int,
        ((storedChunks (layerRows rows layer) request).map Prod.fst).Nodup) ∧
      ((layerNos rows).map fun layer => leftPadStack zero
        ((requestIds (layerRows rows layer) int).map (joined (layerRows rows layer)))) = out) ∧
    (reassemblePerLayer int zero rows = .ok out →
      (∀ rows', rows'.Perm rows → reassemblePerLayer int zero rows' = .ok out) ∧
      ((∀ r ∈ rows, ∀ r' ∈ rows, ∃ s ∈ rows, s.1.layerNo = r.1.layerNo ∧
          s.1.requestId = r'.1.requestId) →
        out = (layerNos rows).map fun layer =>
          leftPadStack zero ((requestIds rows int).map (joined (layerRows rows layer))))) := by
  refine ⟨reassemblePerLayer_eq_ok, fun h => ⟨fun rows' hperm =>
    reassemblePerLayer_of_perm hkeys hperm h, fun hsame => ?_⟩⟩
  obtain ⟨_, rfl⟩ := reassemblePerLayer_eq_ok.mp h
  refine map_congr_left fun layer hlayer => ?_
  obtain ⟨r, hr, rfl⟩ := mem_layerNos.mp hlayer
  rw [requestIds_congr hkeys fun request => ⟨?_, ?_⟩]
  · rintro ⟨s, hs, rfl⟩
    exact ⟨s, mem_of_mem_filter hs, rfl⟩
  · rintro ⟨r', hr', rfl⟩
    obtain ⟨s, hs, hlayer, hrequest⟩ := hsame r hr r' hr'
    exact ⟨s, mem_filter.mpr ⟨hs, decide_eq_true hlayer⟩, hrequest⟩

theorem splitOn_one_letter : "1".splitOn ":" = ["1"] ∧ "r".splitOn ":" = ["r"] := by
  constructor <;>
    rw [String.splitOn, if_neg (by decide), String.splitOnAux, if_neg (by decide),
      if_neg (by decide), String.splitOnAux, if_pos (by decide)] <;> decide

/-- Two requests in two layers; a number comes before a text. -/
theorem layers_aligned_two_requests :
    let row (layer : Int) (request : String) (x : Nat) : RowKey × List Nat :=
      (⟨request, "a", layer, 0⟩, [x])
    let int (part : String) : Option Int := if part = "1" then some 1 else none
    reassemblePerLayer int 0 [row 1 "r" 21, row 0 "1" 10, row 1 "1" 11, row 0 "r" 20] =
      .ok [[[10], [20]], [[11], [21]]] := by
  intro row int
  have hkey : requestSortKey int "1" = [Sum.inlₗ 1] ∧ requestSortKey int "r" = [Sum.inrₗ "r"] := by
    rw [requestSortKey, requestSortKey, splitOn_one_letter.1, splitOn_one_letter.2]
    exact ⟨rfl, rfl⟩
  generalize hrows : [row 1 "r" 21, row 0 "1" 10, row 1 "1" 11, row 0 "r" 20].reverse = rows
  have hall : (∀ r ∈ rows, r.1.requestId = "1" ∨ r.1.requestId = "r") ∧
      ∀ r ∈ rows, r.1.layerNo = 0 ∨ r.1.layerNo = 1 := by
    rw [← hrows]
    decide
  have hkeys : DistinctKeys int rows := by
    intro r hr r' hr' h
    rcases hall.1 r hr with hr | hr <;> rcases hall.1 r' hr' with hr' | hr' <;>
      rw [hr, hr'] at h ⊢ <;> simp only [hkey] at h <;> exact absurd h (by decide)
  have hids : requestIds rows int = ["1", "r"] := by
    have hitems : (requestsOf rows).items = [("r", [(0, [20]), (0, [21])]),
        ("1", [(0, [11]), (0, [10])])] := by
      rw [← hrows]
      rfl
    rw [requestIds, hitems]
    simp only [sortedBy, insertionSort_cons, insertionSort_nil, orderedInsert, Function.comp, hkey]
    rw [if_neg (by decide)]
    rfl
  obtain ⟨out, hok⟩ : ∃ out, reassemblePerLayer int 0 rows = .ok out := by
    refine ⟨_, (layers_aligned hkeys _).1.mpr ⟨fun layer hlayer request hrequest => ?_, rfl⟩⟩
    obtain ⟨r, hr, rfl⟩ := mem_layerNos.mp hlayer
    obtain ⟨r', hr', rfl⟩ := mem_requestIds.mp hrequest
    rcases hall.2 r hr with h | h <;>
      rcases hall.1 r' (mem_of_mem_filter hr') with h' | h' <;> rw [h, h', ← hrows] <;> decide
  obtain ⟨hperm, haligned⟩ := (layers_aligned hkeys _).2 hok
  rw [haligned (by rw [← hrows]; decide), hids] at hperm
  rw [hperm _ (hrows ▸ (reverse_perm _).symm), ← hrows]
  rfl

/-- Each of two layers does not have the request of the other: no error, and the rows at index 0
are of different requests. -/
theorem misaligned_without_error :
    reassemblePerLayer (fun _ => none) 0
      [(⟨"r", "a", 0, 0⟩, [10]), (⟨"s", "a", 1, 0⟩, [21])] = .ok [[[10]], [[21]]] := by
  rfl

end Dmi.Internals
