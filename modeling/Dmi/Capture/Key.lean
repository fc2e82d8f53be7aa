import Dmi.Capture.Assembler

/-!
# Object keys and the tenants that own them

`objectKeyFor` is the key under which a sealed pack is stored.  Its `tenant=` segment is
the tenant's name, percent-quoted, or the SHA-256 of the name when the quoted name is too
long or begins like a digest; `segmentBelongsTo` takes back either form, and the literal
form that preceded the reservation of the digest's beginning.

`segmentBelongsTo_cases` reduces the three spellings to two: the quoted name of a tenant
that is not itself named like a digest, and the digest.  Quoting is injective
(`quoted_injective`), and a quoted name that reads as a digest is that digest, so no
segment belongs to two tenants unless their digests collide.
-/

namespace Dmi.Capture

open List

/-! ### The key of a pack -/

/-- `_days_before_month` in a year that is not a leap year, from January. -/
def daysBeforeMonth : List Nat := [0, 31, 59, 90, 120, 151, 181, 212, 243, 273, 304, 334]

/-- Year, month and day of a count of days from 1 January 1970 (`datetime.fromordinal`). -/
def civilDate (days : Nat) : Nat × Nat × Nat :=
  -- 1 January of year 1 is day 0 of the 400-year cycle
  let n := days + 719162
  let n400 := n / 146097
  let n := n % 146097
  let n100 := n / 36524
  let n := n % 36524
  let n4 := n / 1461
  let n := n % 1461
  let n1 := n / 365
  let n := n % 365
  let year := n400 * 400 + 1 + n100 * 100 + n4 * 4 + n1
  if n1 = 4 ∨ n100 = 4 then (year - 1, 12, 31)
  else
    let leap := n1 = 3 ∧ (n4 ≠ 24 ∨ n100 = 3)
    let before := daysBeforeMonth.mapIdx fun i d => if 2 ≤ i ∧ leap then d + 1 else d
    let started := before.filter (· ≤ n)
    (year, started.length, n - started.getLastD 0 + 1)

example : civilDate 0 = (1970, 1, 1) := by decide
example : civilDate 19782 = (2024, 2, 29) := by decide

/-- A number in decimal, with zeros in front up to a width. -/
def zeroPadded (width n : Nat) : List Char :=
  let digits := Nat.toDigits 10 n
  List.replicate (width - digits.length) '0' ++ digits

/-- `f"{captured:%Y-%m-%d}"`. -/
def dateText (days : Nat) : List Char :=
  let (year, month, day) := civilDate days
  zeroPadded 4 year ++ '-' :: (zeroPadded 2 month ++ '-' :: zeroPadded 2 day)

theorem slash_not_mem_zeroPadded {width n : Nat} : '/' ∉ zeroPadded width n := by
  intro h
  rcases mem_append.mp h with h | h
  · exact absurd (eq_of_mem_replicate h) (by decide)
  · exact absurd (Nat.isDigit_of_mem_toDigits (by decide) (by decide) h) (by decide)

theorem slash_not_mem_dateText (days : Nat) : '/' ∉ dateText days := by
  -- applied to a date, the definition would be unfolded down to the arithmetic of the calendar
  have hdef : dateText = fun days => match civilDate days with
      | (year, month, day) => zeroPadded 4 year ++ '-' ::
          (zeroPadded 2 month ++ '-' :: zeroPadded 2 day) := rfl
  have hdate : ∀ date : Nat × Nat × Nat, '/' ∉ (match date with
      | (year, month, day) => zeroPadded 4 year ++ '-' ::
          (zeroPadded 2 month ++ '-' :: zeroPadded 2 day)) := by
    intro date
    simp only [mem_append, mem_cons, not_or]
    exact ⟨slash_not_mem_zeroPadded, by decide, slash_not_mem_zeroPadded, by decide,
      slash_not_mem_zeroPadded⟩
  exact hdef ▸ hdate (civilDate days)

/-- What `object_key_for` writes after the segment of the tenant. -/
def keyTail (ready : ReadyPack) : List Char :=
  let metadata := ready.firstMetadata
  let seconds := metadata.capturedAtNs.toNat / 1000000000
  "date=".toList ++ dateText (seconds / 86400) ++
    "/session=".toList ++ keyComponent metadata.sessionId.val ++
    "/rank=".toList ++ Nat.toDigits 10 metadata.producerRank.toNat ++
    '/' :: (ready.pack.packId.toList ++ ".dmi-pack".toList)

/-- `object_key_for`. -/
def objectKeyFor (ready : ReadyPack) : String :=
  String.ofList ("v1".toList ++ '/' ::
    ("tenant=".toList ++ keyComponent ready.firstMetadata.tenantId.val ++ '/' :: keyTail ready))

/-! ### Quoting -/

/-- A byte that stays as it is, is not read as the beginning of an escape. -/
theorem quoteByte_unquoted : ∀ b : UInt8, isUnquoted b ∧ b ≠ UInt8.ofNat '~'.toNat →
    quoteByte b = [Char.ofNat b.toNat] ∧ Char.ofNat b.toNat ≠ '%' := by
  intro b hb
  refine ⟨if_pos hb, ?_⟩
  intro hc
  have hne : isUnquoted b = false := by
    unfold isUnquoted
    rw [hc]
    decide
  rw [hne] at hb
  exact absurd hb.1 (by decide)

/-- The escape of any other byte spells the byte. -/
theorem escape_injective : ∀ a b : UInt8,
    (hexText [a]).map Char.toUpper = (hexText [b]).map Char.toUpper → a = b := by
  have hinj : ∀ d < 16, ∀ e < 16, (hexChar d).toUpper = (hexChar e).toUpper → d = e := by decide
  intro a b h
  have ha := a.toNat_lt
  have hb := b.toNat_lt
  simp only [hexText, flatMap_cons, flatMap_nil, append_nil, map_cons,
    map_nil, List.cons.injEq, and_true] at h
  have h1 := hinj _ (by omega) _ (by omega) h.1
  have h2 := hinj _ (by omega) _ (by omega) h.2
  exact UInt8.toNat_inj.mp (by omega)

theorem char_ofNat_byte_injective (a b : UInt8) (h : Char.ofNat a.toNat = Char.ofNat b.toNat) :
    a = b := by
  have hval : ∀ n < 256, (Char.ofNat n).toNat = n := by
    intro n hn
    have hvalid : n.isValidChar := .inl (by omega)
    unfold Char.ofNat
    rw [dif_pos hvalid]
    rfl
  exact UInt8.toNat_inj.mp (by rw [← hval _ a.toNat_lt, ← hval _ b.toNat_lt, h])

theorem prefixFree_quoteByte : PrefixFree quoteByte where
  ne_nil b := by
    unfold quoteByte
    split <;> exact cons_ne_nil _ _
  eq_of_isPrefix {a b} h := by
    by_cases ha : isUnquoted a ∧ a ≠ UInt8.ofNat '~'.toNat <;>
      by_cases hb : isUnquoted b ∧ b ≠ UInt8.ofNat '~'.toNat
    · rw [(quoteByte_unquoted a ha).1, (quoteByte_unquoted b hb).1, cons_prefix_cons] at h
      exact char_ofNat_byte_injective a b h.1
    · rw [(quoteByte_unquoted a ha).1, quoteByte, if_neg hb, cons_prefix_cons] at h
      exact absurd h.1 (quoteByte_unquoted a ha).2
    · rw [(quoteByte_unquoted b hb).1, quoteByte, if_neg ha, cons_prefix_cons] at h
      exact absurd h.1.symm (quoteByte_unquoted b hb).2
    · rw [quoteByte, quoteByte, if_neg ha, if_neg hb, cons_prefix_cons] at h
      refine escape_injective a b (h.2.eq_of_length ?_)
      rfl

/-- **Quoting is injective**: a quoted name determines the name. -/
theorem quoted_injective : Function.Injective quoted :=
  (flatMap_injective prefixFree_quoteByte).comp utf8_injective

theorem quote_digestChar {c : Char} (h : c ∈ "sha256-0123456789abcdef".toList) :
    (String.utf8EncodeChar c).flatMap quoteByte = [c] := by
  have hall : ("sha256-0123456789abcdef".toList.all fun c =>
      (String.utf8EncodeChar c).flatMap quoteByte == [c]) = true := by
    decide
  exact eq_of_beq (all_eq_true.mp hall c h)

theorem quoted_ofList_append (l r : List Char) :
    quoted (String.ofList (l ++ r)) = quoted (String.ofList l) ++ quoted (String.ofList r) := by
  simp only [quoted, utf8, String.toList_ofList, flatMap_append]

theorem quoted_of_digestChars {l : List Char} (h : l ⊆ "sha256-0123456789abcdef".toList) :
    quoted (String.ofList l) = l := by
  induction l with
  | nil => rfl
  | cons c l ih =>
    have hc : quoted (String.ofList [c]) = [c] := by
      simp only [quoted, utf8, String.toList_ofList, flatMap_cons, flatMap_nil,
        append_nil]
      exact quote_digestChar (h mem_cons_self)
    rw [← singleton_append, quoted_ofList_append, hc,
      ih fun d hd => h (mem_cons_of_mem c hd)]

variable {t : String}

/-- A name that begins like a digest is quoted as a text that begins like one. -/
theorem digestPrefix_quoted (h : digestPrefix <+: t.toList) : digestPrefix <+: quoted t := by
  obtain ⟨r, hr⟩ := h
  have ht : t = String.ofList (digestPrefix ++ r) := by rw [hr, String.ofList_toList]
  rw [ht, quoted_ofList_append, quoted_of_digestChars (by decide)]
  exact prefix_append _ _

/-! ### The digest form -/

/-- The digest form of a name. -/
def digestForm (value : String) : List Char := digestPrefix ++ hexText (sha256 (utf8 value))

variable (value : String)

theorem keyComponent_cases :
    (keyComponent value = quoted value ∧ ¬ digestPrefix <+: quoted value) ∨
      keyComponent value = digestForm value := by
  by_cases h : (quoted value).length ≤ 160 ∧ ¬ digestPrefix <+: quoted value
  · exact .inl ⟨if_pos h, h.2⟩
  · refine .inr ((if_neg h).trans ?_)
    rw [sha256Hex, String.toList_ofList, digestForm]

theorem digestChars_of_mem_digestForm {value : String} {c : Char} (h : c ∈ digestForm value) :
    c ∈ "sha256-0123456789abcdef".toList := by
  have hprefix : digestPrefix ⊆ "sha256-0123456789abcdef".toList := by decide
  rcases mem_append.mp h with h | h
  · exact hprefix h
  · have hhex := isHexChar_of_mem_hexText h
    have hsub : "0123456789abcdef".toList ⊆ "sha256-0123456789abcdef".toList := by decide
    exact hsub (of_decide_eq_true hhex)

theorem isDigestShape_digestForm : isDigestShape (digestForm value) = true := by
  have hdrop : (digestForm value).drop 7 = hexText (sha256 (utf8 value)) := by
    exact drop_left' rfl
  unfold isDigestShape
  rw [decide_eq_true_eq, hdrop]
  refine ⟨prefix_append _ _, ?_, ?_⟩
  · rw [length_hexText, length_sha256]
  · exact all_eq_true.mpr fun c hc => isHexChar_of_mem_hexText hc

theorem isDigestShape_of_quoted {value : String} (h : quoted t = digestForm value) :
    isDigestShape t.toList = true := by
  have hself : quoted (String.ofList (digestForm value)) = digestForm value :=
    quoted_of_digestChars fun _ hc => digestChars_of_mem_digestForm hc
  have ht : t = String.ofList (digestForm value) := quoted_injective (h.trans hself.symm)
  rw [ht, String.toList_ofList]
  exact isDigestShape_digestForm value

theorem not_isDigestShape_of_quoted (h : ¬ digestPrefix <+: quoted t) :
    isDigestShape t.toList = false := by
  unfold isDigestShape
  rw [decide_eq_false_iff_not]
  exact fun hshape => h (digestPrefix_quoted hshape.1)

/-- What a segment that belongs to a tenant spells: the name, which is not of digest
shape, or its digest. -/
theorem segmentBelongsTo_cases {segment : List Char} (h : segmentBelongsTo segment t = true) :
    (segment = quoted t ∧ isDigestShape t.toList = false) ∨ segment = digestForm t := by
  unfold segmentBelongsTo at h
  simp only [Bool.or_eq_true, Bool.and_eq_true, decide_eq_true_eq, Bool.not_eq_true'] at h
  rcases h with h | ⟨⟨_, hshape⟩, h⟩
  · rcases keyComponent_cases t with ⟨hplain, hp⟩ | hdigest
    · exact .inl ⟨h.trans hplain, not_isDigestShape_of_quoted hp⟩
    · exact .inr (h.trans hdigest)
  · exact .inl ⟨h, hshape⟩

theorem segmentBelongsTo_unique {segment : List Char} {t₁ t₂ : String}
    (hcollision : sha256 (utf8 t₁) = sha256 (utf8 t₂) → utf8 t₁ = utf8 t₂)
    (h₁ : segmentBelongsTo segment t₁ = true) (h₂ : segmentBelongsTo segment t₂ = true) :
    t₁ = t₂ := by
  rcases segmentBelongsTo_cases h₁ with ⟨hs₁, hn₁⟩ | hs₁ <;>
    rcases segmentBelongsTo_cases h₂ with ⟨hs₂, hn₂⟩ | hs₂
  · exact quoted_injective (hs₁.symm.trans hs₂)
  · have := isDigestShape_of_quoted (hs₁.symm.trans hs₂)
    rw [hn₁] at this
    cases this
  · have := isDigestShape_of_quoted (hs₂.symm.trans hs₁)
    rw [hn₂] at this
    cases this
  · have hhex : hexText (sha256 (utf8 t₁)) = hexText (sha256 (utf8 t₂)) :=
      append_cancel_left (hs₁.symm.trans hs₂)
    exact utf8_injective (hcollision (hexText_injective hhex))

/-! ### The segment that `objectKeyFor` writes -/

theorem slash_not_mem_quoteByte : ∀ b : UInt8, '/' ∉ quoteByte b := by
  intro b hmem
  unfold quoteByte at hmem
  split at hmem
  next hb =>
    have hc : Char.ofNat b.toNat = '/' := (mem_singleton.mp hmem).symm
    have hne : isUnquoted b = false := by
      unfold isUnquoted
      rw [hc]
      decide
    rw [hne] at hb
    exact absurd hb.1 (by decide)
  next =>
    have hhex : ∀ d < 16, '/' ≠ (hexChar d).toUpper := by decide
    have hb := b.toNat_lt
    simp only [hexText, flatMap_cons, flatMap_nil, append_nil, map_cons,
      map_nil, mem_cons, not_mem_nil, or_false] at hmem
    rcases hmem with hmem | hmem | hmem
    · exact absurd hmem (by decide)
    · exact hhex _ (by omega) hmem
    · exact hhex _ (by omega) hmem

theorem slash_not_mem_keyComponent : '/' ∉ keyComponent value := by
  intro hmem
  rcases keyComponent_cases value with ⟨h, _⟩ | h <;> rw [h] at hmem
  · obtain ⟨b, _, hb⟩ := mem_flatMap.mp hmem
    exact slash_not_mem_quoteByte b hb
  · exact absurd (digestChars_of_mem_digestForm hmem) (by decide)

theorem splitSlash_append {seg : List Char} (h : '/' ∉ seg) (rest : List Char) :
    splitSlash (seg ++ '/' :: rest) = seg :: splitSlash rest := by
  induction seg with
  | nil => simp only [nil_append, splitSlash, if_true]
  | cons c seg ih =>
    have hc : c ≠ '/' := fun hc => h (hc ▸ mem_cons_self)
    rw [cons_append, splitSlash, if_neg hc, ih fun hm => h (mem_cons_of_mem c hm)]

theorem tenantSegment_objectKeyFor (ready : ReadyPack) :
    tenantSegment (objectKeyFor ready) =
      some (keyComponent ready.firstMetadata.tenantId.val) := by
  let component := keyComponent ready.firstMetadata.tenantId.val
  have hkey : (objectKeyFor ready).toList =
      "v1".toList ++ '/' :: ("tenant=".toList ++ component ++ '/' :: keyTail ready) :=
    String.toList_ofList
  have hseg : '/' ∉ "tenant=".toList ++ component := by
    rw [mem_append, not_or]
    exact ⟨by decide, slash_not_mem_keyComponent _⟩
  have hfind : (splitSlash (objectKeyFor ready).toList).find?
      (fun seg => "tenant=".toList <+: seg) = some ("tenant=".toList ++ component) := by
    rw [hkey, splitSlash_append (by decide), splitSlash_append hseg,
      find?_cons_of_neg (by decide), find?_cons_of_pos]
    exact decide_eq_true (prefix_append _ _)
  rw [tenantSegment, hfind, Option.map_some]
  exact congrArg some (drop_left' rfl)

theorem segmentBelongsTo_keyComponent (t : String) :
    segmentBelongsTo (keyComponent t) t = true := by
  unfold segmentBelongsTo
  rw [decide_eq_true rfl, Bool.true_or]

theorem rejectAForeignTenant_objectKeyFor {ready : ReadyPack} {ref : PackRef} {tenants : List Text}
    (hkey : ref.objectKey = objectKeyFor ready)
    (htenants : ∀ t ∈ tenants, t = ready.firstMetadata.tenantId) :
    rejectAForeignTenant ref tenants = .ok () := by
  have hnone : tenants.eraseDups.find? (fun tenant =>
      !segmentBelongsTo (keyComponent ready.firstMetadata.tenantId.val) tenant.val) = none := by
    refine find?_eq_none.mpr fun t ht => ?_
    rw [htenants t (mem_eraseDups.mp ht), segmentBelongsTo_keyComponent]
    decide
  unfold rejectAForeignTenant
  rw [hkey, tenantSegment_objectKeyFor]
  simp only [hnone]

/-- **A `tenant=` segment has one owner**, as long as the SHA-256 of the two names do not
collide, and the key of a pack is one that its records' tenant owns. -/
theorem tenant_segment_has_one_owner :
    (∀ (segment : List Char) (t₁ t₂ : String),
      (sha256 (utf8 t₁) = sha256 (utf8 t₂) → utf8 t₁ = utf8 t₂) →
      segmentBelongsTo segment t₁ = true → segmentBelongsTo segment t₂ = true → t₁ = t₂) ∧
    (∀ (ready : ReadyPack) (ref : PackRef) (tenants : List Text),
      ref.objectKey = objectKeyFor ready →
      (∀ t ∈ tenants, t = ready.firstMetadata.tenantId) →
      rejectAForeignTenant ref tenants = .ok ()) :=
  ⟨fun _ _ _ => segmentBelongsTo_unique, fun _ _ _ => rejectAForeignTenant_objectKeyFor⟩

/-- A tenant named like a digest, under the segment that was written before the
reservation, and a pack of a tenant whose name has to be quoted. -/
theorem tenant_segment_has_one_owner_team : ∃ (ready : ReadyPack) (ref : PackRef),
    segmentBelongsTo "sha256-team-a".toList "sha256-team-a" = true ∧
    "sha256-team-a" = "sha256-team-a" ∧
    ready.firstMetadata.tenantId.val = "a/b" ∧ ref.objectKey = objectKeyFor ready ∧
    rejectAForeignTenant ref [ready.firstMetadata.tenantId] = .ok () := by
  have hsegment : segmentBelongsTo "sha256-team-a".toList "sha256-team-a" = true := by
    unfold segmentBelongsTo
    rw [Bool.or_eq_true]
    exact .inr (by decide +kernel)
  let record := sampleRecord ⟨"c", by decide, by decide⟩ ⟨"a/b", by decide, by decide⟩ 3 (by decide)
  let ready : ReadyPack := {
    pack := ⟨"p", 5, [], 1, 0, ""⟩
    firstMetadata := record.metadata
    reason := .manual }
  let ref : PackRef := ⟨"p", "s", objectKeyFor ready, 0, "", 1⟩
  have howner := tenant_segment_has_one_owner.1 _ _ _ (fun _ => rfl) hsegment hsegment
  have hpasses := tenant_segment_has_one_owner.2 ready ref [ready.firstMetadata.tenantId] rfl
    (fun _ ht => mem_singleton.mp ht)
  exact ⟨ready, ref, hsegment, howner, rfl, rfl, hpasses⟩

end Dmi.Capture
