import Dmi.Ring.Producer

/-!
# Rows in front

Both prefix kernels publish the first rows of a tensor, as many as a count on the device says, and
no more bytes than the tensor has.  The record kernel divides before it multiplies.  The released
kernel multiplies and then compares, and a product beyond 64 bits escapes it
(`row_bytes_exact_iff`).
-/

namespace Dmi.Ring

/-- A row count as both kernels read it. -/
def clampedRows (rowCount : Int64) : UInt64 := (if rowCount < 0 then 0 else rowCount).toUInt64

/-- `actual_bytes` of `producer_prefix_kernel`. -/
def producerPrefixBytes (rowCount : Int64) (rowBytes nbytesUpper : UInt64) : UInt64 :=
  let actualBytes := clampedRows rowCount * rowBytes
  if nbytesUpper < actualBytes then nbytesUpper else actualBytes

/-- `actual_bytes` of `record_producer_prefix_kernel`. -/
def recordProducerPrefixBytes (rowCount : Int64) (rowBytes nbytesUpper : UInt64) : UInt64 :=
  if rowBytes ≠ 0 ∧ clampedRows rowCount ≤ nbytesUpper / rowBytes then
    clampedRows rowCount * rowBytes
  else nbytesUpper

/-- `launch_record_producer_prefix` refuses rows without bytes. -/
def launchRecordProducerPrefix (rowCount : Int64) (rowBytes nbytesUpper : UInt64) :
    Option UInt64 :=
  if rowBytes = 0 then none else some (recordProducerPrefixBytes rowCount rowBytes nbytesUpper)

/-- The bytes of the rows, over the integers. -/
def wantedBytes (rowCount : Int64) (rowBytes : UInt64) : Nat :=
  rowCount.toInt.toNat * rowBytes.toNat

theorem toNat_clampedRows (rowCount : Int64) :
    (clampedRows rowCount).toNat = rowCount.toInt.toNat := by
  unfold clampedRows
  split
  next h =>
    have hneg : rowCount.toInt < 0 := Int64.lt_iff_toInt_lt.mp h
    rw [Int.toNat_of_nonpos hneg.le]
    rfl
  next h =>
    have hnonneg : 0 ≤ rowCount := Int64.not_lt.mp h
    exact Int64.toNat_toUInt64_of_le hnonneg

theorem toNat_producerPrefixBytes (rowCount : Int64) (rowBytes nbytesUpper : UInt64) :
    (producerPrefixBytes rowCount rowBytes nbytesUpper).toNat =
      min (wantedBytes rowCount rowBytes % 2 ^ 64) nbytesUpper.toNat := by
  have hproduct : (clampedRows rowCount * rowBytes).toNat =
      wantedBytes rowCount rowBytes % 2 ^ 64 := by
    rw [UInt64.toNat_mul, toNat_clampedRows, wantedBytes]
  unfold producerPrefixBytes
  dsimp only
  split
  next h =>
    rw [UInt64.lt_iff_toNat_lt, hproduct] at h
    omega
  next h =>
    rw [UInt64.lt_iff_toNat_lt, hproduct] at h
    omega

/-- The bytes that a launch publishes; none are if it is refused. -/
def publishedBytes (launched : Option UInt64) : Nat := (launched.map UInt64.toNat).getD 0

/-- The record kernel divides before it multiplies, so its product is that of the integers. -/
theorem publishedBytes_launchRecordProducerPrefix (rowCount : Int64)
    (rowBytes nbytesUpper : UInt64) :
    publishedBytes (launchRecordProducerPrefix rowCount rowBytes nbytesUpper) =
      min (wantedBytes rowCount rowBytes) nbytesUpper.toNat := by
  have hupper := nbytesUpper.toNat_lt
  unfold launchRecordProducerPrefix
  by_cases hzero : rowBytes = 0
  · rw [if_pos hzero, wantedBytes, hzero, UInt64.toNat_zero, Nat.mul_zero, Nat.zero_min]
    rfl
  have hpos : 0 < rowBytes.toNat := Nat.pos_of_ne_zero fun h => hzero (UInt64.toNat.inj h)
  have hdiv : clampedRows rowCount ≤ nbytesUpper / rowBytes ↔
      wantedBytes rowCount rowBytes ≤ nbytesUpper.toNat := by
    rw [UInt64.le_iff_toNat_le, UInt64.toNat_div, toNat_clampedRows, Nat.le_div_iff_mul_le hpos,
      wantedBytes]
  rw [if_neg hzero, publishedBytes, Option.map_some, Option.getD_some, recordProducerPrefixBytes]
  by_cases hle : wantedBytes rowCount rowBytes ≤ nbytesUpper.toNat
  · rw [if_pos ⟨hzero, hdiv.mpr hle⟩, UInt64.toNat_mul, toNat_clampedRows, ← wantedBytes,
      Nat.mod_eq_of_lt (by omega), min_eq_left hle]
  · rw [if_neg fun h => hle (hdiv.mp h.2), min_eq_right (by omega)]

/-- **When both kernels publish the bytes of the rows**, bounded by those of the tensor. -/
theorem row_bytes_exact_iff (rowCount : Int64) (rowBytes nbytesUpper : UInt64) :
    ((producerPrefixBytes rowCount rowBytes nbytesUpper).toNat =
        min (wantedBytes rowCount rowBytes) nbytesUpper.toNat ∧
      publishedBytes (launchRecordProducerPrefix rowCount rowBytes nbytesUpper) =
        min (wantedBytes rowCount rowBytes) nbytesUpper.toNat) ↔
    wantedBytes rowCount rowBytes < 2 ^ 64 ∨
      nbytesUpper.toNat ≤ wantedBytes rowCount rowBytes % 2 ^ 64 := by
  have hupper := nbytesUpper.toNat_lt
  rw [toNat_producerPrefixBytes, publishedBytes_launchRecordProducerPrefix]
  omega

/-- A count of 2⁶² rows of four bytes: the product is zero, and nothing is published. -/
theorem overflowing_product_publishes_nothing :
    wantedBytes 0x4000000000000000 4 = 2 ^ 64 ∧ producerPrefixBytes 0x4000000000000000 4 16 = 0 ∧
      launchRecordProducerPrefix 0x4000000000000000 4 16 = some 16 := by
  decide +kernel

end Dmi.Ring
