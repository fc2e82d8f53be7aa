import Dmi.Lib.Circular
import Dmi.Lib.Struct

/-!
# Publishing into the ring

The payload ring is a circular byte buffer on the device, the task ring an array of
publication words.  A producer kernel cuts the range it allocates into at most two spans
(`payloadComputeSpans`), copies its bytes into them, and publishes the number of bytes in
the slot of its task.

`Launch.write_written` says that a kernel of any kind writes the bytes it emits at the head
of the payload ring, wherever the range wraps.
-/

namespace Dmi.Ring

open Circular List

/-! ### Alignment and publication words -/

/-- `align_up(x, PAYLOAD_ALIGN)`. -/
def alignUp (x : Nat) : Nat := (x + 15) / 16 * 16

theorem le_alignUp (x : Nat) : x ≤ alignUp x := by
  unfold alignUp
  omega

theorem dvd_alignUp (x : Nat) : 16 ∣ alignUp x := ⟨(x + 15) / 16, Nat.mul_comm _ _⟩

theorem alignUp_le {x y : Nat} (h : x ≤ y) (hy : 16 ∣ y) : alignUp x ≤ y := by
  unfold alignUp
  omega

/-- `PUBLICATION_READY`. -/
def publicationReady : Nat := 2 ^ 63

/-- `encode_publication`. -/
def encodePublication (actualBytes : Nat) : Nat := publicationReady ||| actualBytes

/-- The answer of `publication_try_acquire`. -/
def isPublished (word : Nat) : Bool := word &&& publicationReady ≠ 0

/-- `publication_size`. -/
def publicationSize (word : Nat) : Nat := word &&& (publicationReady - 1)

theorem encodePublication_eq {n : Nat} (h : n < 2 ^ 63) :
    encodePublication n = 2 ^ 63 + n := by
  have := Nat.two_pow_add_eq_or_of_lt h 1
  exact this.symm

theorem isPublished_encode (n : Nat) : isPublished (encodePublication n) = true := by
  have hand : encodePublication n &&& publicationReady = publicationReady := by
    apply Nat.eq_of_testBit_eq
    intro i
    simp only [encodePublication, Nat.testBit_and, Nat.testBit_or]
    cases publicationReady.testBit i <;> simp
  unfold isPublished
  rw [hand]
  decide

theorem publicationSize_encode {n : Nat} (h : n < 2 ^ 63) :
    publicationSize (encodePublication n) = n := by
  rw [publicationSize, encodePublication_eq h]
  unfold publicationReady
  rw [Nat.and_two_pow_sub_one_eq_mod]
  omega

theorem isPublished_zero : isPublished 0 = false := by decide

/-! ### Capacities -/

/-- The capacities of a ring: the engine refuses payload and staging sizes that are not
positive multiples of `PAYLOAD_ALIGN`, and both rings are allocated, so that a byte count fits
beside the ready bit. -/
structure RingConfig where
  payloadCap : Nat
  taskCap : Nat
  stagingCap : Nat
  payloadCap_pos : 0 < payloadCap
  payloadCap_aligned : 16 ∣ payloadCap
  payloadCap_lt : payloadCap < 2 ^ 63
  taskCap_pos : 0 < taskCap
  taskCap_lt : taskCap < 2 ^ 63
  stagingCap_pos : 0 < stagingCap
  stagingCap_aligned : 16 ∣ stagingCap

/-! ### Spans -/

structure TwoSpan where
  off1 : Nat
  len1 : Nat
  off2 : Nat
  len2 : Nat
  deriving DecidableEq, Repr

/-- `payload_compute_spans`. -/
def payloadComputeSpans (head capacity nbytes : Nat) : TwoSpan :=
  let off := head % capacity
  let toEnd := capacity - off
  if nbytes ≤ toEnd then { off1 := off, len1 := nbytes, off2 := 0, len2 := 0 }
  else { off1 := off, len1 := toEnd, off2 := 0, len2 := nbytes - toEnd }

example : payloadComputeSpans 90 64 48 = { off1 := 26, len1 := 38, off2 := 0, len2 := 10 } := by
  decide

/-- The two span copy of the static and prefix kernels. -/
def copyContiguous (buf : Nat → UInt8) (spans : TwoSpan) (src : Bytes) : Nat → UInt8 :=
  let copy1 := if src.length < spans.len1 then src.length else spans.len1
  let buf := copyIn buf spans.off1 (src.take copy1)
  if 0 < src.length - copy1 then copyIn buf spans.off2 (src.drop copy1) else buf

/-- `copy_chunk_with_wrap`. -/
def copyChunkWithWrap (buf : Nat → UInt8) (spans : TwoSpan) (dstOff : Nat) (src : Bytes) :
    Nat → UInt8 :=
  let avail := spans.len1 - dstOff
  let inSpan1 :=
    if dstOff < spans.len1 then (if src.length < avail then src.length else avail) else 0
  let buf :=
    if dstOff < spans.len1 then copyIn buf (spans.off1 + dstOff) (src.take inSpan1) else buf
  if 0 < src.length - inSpan1 then
    let span2Off := if spans.len1 ≤ dstOff then dstOff - spans.len1 else 0
    copyIn buf (spans.off2 + span2Off) (src.drop inSpan1)
  else buf

theorem copyIn_nil (m : Nat → UInt8) (dst : Nat) : copyIn m dst [] = m := by
  funext a
  simp [copyIn]

theorem copyContiguous_eq (buf : Nat → UInt8) (spans : TwoSpan) (src : Bytes) :
    copyContiguous buf spans src = copyChunkWithWrap buf spans 0 src := by
  unfold copyContiguous copyChunkWithWrap
  by_cases h : 0 < spans.len1
  · simp only [h, if_true, Nat.sub_zero, Nat.add_zero, if_neg (Nat.not_le_of_lt h)]
  · have h0 : spans.len1 = 0 := by omega
    simp only [h0, Nat.not_lt_zero, if_false, take_zero, copyIn_nil, Nat.sub_zero,
      le_refl, if_true, Nat.add_zero, lt_self_iff_false]

theorem length_take_drop {src : Bytes} {n : Nat} (h : n ≤ src.length) :
    (src.take n).length = n ∧ (src.drop n).length = src.length - n :=
  ⟨by rw [length_take]; omega, length_drop⟩

theorem copyChunkWithWrap_written {buf : Nat → UInt8} {head cap alloc dstOff : Nat} {src : Bytes}
    (hcap : 0 < cap) (halloc : alloc ≤ cap) (hfit : dstOff + src.length ≤ alloc) :
    Written cap buf (copyChunkWithWrap buf (payloadComputeSpans head cap alloc) dstOff src)
      (head + dstOff) src := by
  have hmod := Nat.mod_lt head hcap
  -- with at most the first span left for it, the chunk is one copy
  have hfirst : ∀ spans : TwoSpan, spans.off1 = head % cap → dstOff + src.length ≤ spans.len1 →
      head % cap + spans.len1 ≤ cap →
      Written cap buf (copyChunkWithWrap buf spans dstOff src) (head + dstOff) src := by
    intro spans hoff hlen hend
    by_cases hd : dstOff < spans.len1
    · have hin : (if src.length < spans.len1 - dstOff then src.length else spans.len1 - dstOff) =
          src.length := by
        split <;> omega
      have hpos : spans.off1 + dstOff = (head + dstOff) % cap := by
        rw [hoff, add_mod_of_fits (by omega)]
      simp only [copyChunkWithWrap, hd, if_true, hin, take_length, Nat.sub_self,
        lt_self_iff_false, if_false, hpos]
      exact written_copyIn (by omega)
    · have hnil : src = [] := length_eq_zero_iff.mp (by omega)
      subst hnil
      simp only [copyChunkWithWrap, hd, if_false, length_nil, Nat.sub_zero,
        lt_self_iff_false]
      exact Written.nil
  unfold payloadComputeSpans
  by_cases hone : alloc ≤ cap - head % cap
  · rw [if_pos hone]
    exact hfirst _ rfl hfit (by simp only; omega)
  · rw [if_neg hone]
    by_cases hin : dstOff + src.length ≤ cap - head % cap
    · exact hfirst _ rfl hin (by simp only; omega)
    · by_cases hd : dstOff < cap - head % cap
      · -- the chunk crosses the end of the ring
        have hmin : (if src.length < cap - head % cap - dstOff then src.length
            else cap - head % cap - dstOff) = cap - head % cap - dstOff := if_neg (by omega)
        obtain ⟨htake, hdrop⟩ :=
          length_take_drop (show cap - head % cap - dstOff ≤ src.length by omega)
        have hpos1 : head % cap + dstOff = (head + dstOff) % cap := by
          rw [add_mod_of_fits (by omega)]
        have hpos2 : 0 = (head + dstOff + (src.take (cap - head % cap - dstOff)).length) % cap := by
          rw [htake, show head + dstOff + (cap - head % cap - dstOff) = head + (cap - head % cap) by
            omega, add_mod_of_wraps (by omega) (by omega) hcap]
          omega
        simp only [copyChunkWithWrap, hd, if_true, hmin, show
          0 < src.length - (cap - head % cap - dstOff) by omega, if_neg (Nat.not_le_of_lt hd),
          Nat.add_zero, hpos1]
        conv => arg 5; rw [← take_append_drop (cap - head % cap - dstOff) src]
        refine (written_copyIn (by omega)).append ?_ (by omega)
        conv => arg 3; rw [hpos2]
        exact written_copyIn (by rw [← hpos2]; omega)
      · -- the chunk lies in the second span
        have hpos : 0 + (dstOff - (cap - head % cap)) = (head + dstOff) % cap := by
          rw [add_mod_of_wraps (by omega) (by omega) hcap]
          omega
        have hspan : cap - head % cap ≤ dstOff := by omega
        by_cases hlen : 0 < src.length
        · simp only [copyChunkWithWrap, hd, if_false, Nat.sub_zero, hlen, if_true,
            drop_zero, hspan, hpos]
          exact written_copyIn (by rw [← hpos]; omega)
        · have hnil : src = [] := length_eq_zero_iff.mp (by omega)
          simp only [copyChunkWithWrap, hd, if_false, Nat.sub_zero, hlen]
          exact hnil ▸ Written.nil

/-! ### Kernels -/

/-- A producer kernel: `producer_static_kernel`, `producer_prefix_kernel` with the row count
it reads, and `producer_chunked_kernel` with the byte count of each chunk. -/
inductive Launch where
  | static (src : Bytes)
  | prefixed (src : Bytes) (rowCount : Int) (rowBytes : Nat)
  | chunked (src : Bytes) (chunkBytes : List Int)
  deriving DecidableEq

namespace Launch

/-- The byte counts that `producer_chunked_kernel` selects, clamped to the chunk. -/
def selected (src : Bytes) (chunkBytes : List Int) : List Nat :=
  chunkBytes.map fun v => min v.toNat (src.length / chunkBytes.length)

/-- The bytes of each chunk, from its place in the source. -/
def chunks (src : Bytes) (chunkBytes : List Int) : List Bytes :=
  (selected src chunkBytes).mapIdx fun k n =>
    (src.drop (k * (src.length / chunkBytes.length))).take n

/-- `actual_bytes`, or `actual_total`. -/
def actualBytes : Launch → Nat
  | static src => src.length
  | prefixed src rowCount rowBytes => min (rowCount.toNat * rowBytes % 2 ^ 64) src.length
  | chunked src chunkBytes => (selected src chunkBytes).sum

/-- The payload: the bytes that the kernel takes from its source. -/
def payload : Launch → Bytes
  | static src => src
  | l@(prefixed src _ _) => src.take l.actualBytes
  | chunked src chunkBytes => (chunks src chunkBytes).flatten

/-- The chunks one after the other, from the offset `dstOff` in the allocated range. -/
def copyChunks (spans : TwoSpan) : (Nat → UInt8) → Nat → List Bytes → Nat → UInt8
  | buf, _, [] => buf
  | buf, dstOff, c :: cs => copyChunks spans (copyChunkWithWrap buf spans dstOff c)
      (dstOff + c.length) cs

/-- What the kernel writes into the payload ring. -/
def write (l : Launch) (buf : Nat → UInt8) (spans : TwoSpan) : Nat → UInt8 :=
  match l with
  | static src => copyContiguous buf spans src
  | prefixed _ _ _ => copyContiguous buf spans l.payload
  | chunked src chunkBytes => copyChunks spans buf 0 (chunks src chunkBytes)

theorem length_chunks (src : Bytes) (chunkBytes : List Int) :
    (chunks src chunkBytes).map List.length = selected src chunkBytes := by
  refine ext_getElem (by simp [chunks]) fun k hk hk' => ?_
  have hlen : k < chunkBytes.length := by simpa [selected] using hk'
  have hin : k * (src.length / chunkBytes.length) + src.length / chunkBytes.length ≤
      src.length := by
    have h1 : (k + 1) * (src.length / chunkBytes.length) ≤
        chunkBytes.length * (src.length / chunkBytes.length) := Nat.mul_le_mul_right _ hlen
    have h2 := Nat.mul_div_le src.length chunkBytes.length
    rw [Nat.add_one_mul] at h1
    exact h1.trans h2
  have hsel : (selected src chunkBytes)[k] ≤ src.length / chunkBytes.length := by
    simp [selected]
  simp only [getElem_map, chunks, getElem_mapIdx, length_take, length_drop]
  omega

theorem length_payload (l : Launch) : l.payload.length = l.actualBytes := by
  cases l with
  | static src => rfl
  | prefixed src rowCount rowBytes =>
    rw [payload, length_take]
    exact Nat.min_eq_left (Nat.min_le_right _ _)
  | chunked src chunkBytes =>
    rw [payload, length_flatten, length_chunks, actualBytes]

theorem copyChunks_written {cap head alloc : Nat} (hcap : 0 < cap) (halloc : alloc ≤ cap) :
    ∀ (cs : List Bytes) (buf : Nat → UInt8) (dstOff : Nat), dstOff + cs.flatten.length ≤ alloc →
      Written cap buf (copyChunks (payloadComputeSpans head cap alloc) buf dstOff cs)
        (head + dstOff) cs.flatten := by
  intro cs
  induction cs with
  | nil => exact fun _ _ _ => Written.nil
  | cons c cs ih =>
    intro buf dstOff hfit
    rw [flatten_cons, length_append] at hfit
    have hc : Written cap buf
        (copyChunkWithWrap buf (payloadComputeSpans head cap alloc) dstOff c) (head + dstOff) c :=
      copyChunkWithWrap_written hcap halloc (by omega)
    have hcs := ih (copyChunkWithWrap buf (payloadComputeSpans head cap alloc) dstOff c)
      (dstOff + c.length) (by omega)
    rw [← Nat.add_assoc] at hcs
    exact hc.append hcs (by omega)

/-- **A kernel writes its payload at the head of the ring**, however the range wraps. -/
theorem write_written (l : Launch) {buf : Nat → UInt8} {head cap : Nat} (hcap : 0 < cap)
    (halloc : alignUp l.actualBytes ≤ cap) :
    Written cap buf (l.write buf (payloadComputeSpans head cap (alignUp l.actualBytes))) head
      l.payload := by
  have hle := le_alignUp l.actualBytes
  rw [← l.length_payload] at hle halloc ⊢
  cases l with
  | static src | prefixed src rowCount rowBytes =>
    rw [write, copyContiguous_eq]
    exact copyChunkWithWrap_written hcap halloc ((Nat.zero_add _).trans_le hle)
  | chunked src chunkBytes =>
    exact copyChunks_written hcap halloc _ buf 0 ((Nat.zero_add _).trans_le hle)

end Launch

end Dmi.Ring
