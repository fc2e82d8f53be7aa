import Dmi.Lib.Json.Loads

/-!
# `loads` inverts `dumps`

A value is `Plain` when Python writes it without loss: every string holds Unicode
scalar values only, there is no float, and every integer has at most `maxStrDigits`
digits.  On plain values the decoder inverts the encoder:

* `scanValue_render`: the scanner reads back a rendered value and leaves the text
  behind it, whatever that text is, as long as it ends a number (`Ends`);
* `loads_dumps`: **`json.loads(json.dumps(v, sort_keys=True).encode())`** is `v` with
  the members of its objects sorted;
* `lookup_sortMembers`: sorting does not change what `dict` access returns.
-/

namespace Dmi.Json

open List

/-- Values that the encoder writes without loss. -/
inductive Plain : Value → Prop
  | null : Plain .null
  | bool (b : Bool) : Plain (.bool b)
  | int (n : Int) (h : n.natAbs < 10 ^ maxStrDigits) : Plain (.int n)
  | str (s : Str) (h : ∀ c ∈ s, Scalar c) : Plain (.str s)
  | arr (xs : List Value) (h : ∀ x ∈ xs, Plain x) : Plain (.arr xs)
  | obj (kvs : List (Str × Value)) (hk : ∀ kv ∈ kvs, ∀ c ∈ kv.1, Scalar c)
      (hv : ∀ kv ∈ kvs, Plain kv.2) : Plain (.obj kvs)

theorem Plain.cps (s : String) : Plain (.str (cps s)) :=
  .str _ fun _ hc => scalar_of_mem_cps hc

/-- A text behind which no number continues. -/
def Ends (r : Str) : Prop := ∀ c ∈ r.head?, c = ','.toNat ∨ c = ']'.toNat ∨ c = '\x7d'.toNat

theorem ends_nil : Ends [] := by
  intro c hc
  cases hc

theorem ends_cons {c : Nat} {r : Str} (h : c = ','.toNat ∨ c = ']'.toNat ∨ c = '\x7d'.toNat) :
    Ends (c :: r) := by
  intro d hd
  cases hd
  exact h

/-! ### Numbers -/

theorem isDigit_of_mem_decimal {n c : Nat} (h : c ∈ decimal n) : isDigit c = true := by
  obtain ⟨d, hd, rfl⟩ := mem_map.mp h
  have hdig := Nat.isDigit_of_mem_toDigits (by decide) (by decide) hd
  simp only [Char.isDigit, Bool.and_eq_true, decide_eq_true_eq, ge_iff_le,
    UInt32.le_iff_toNat_le] at hdig
  simp only [isDigit, Bool.and_eq_true, decide_eq_true_eq]
  exact hdig

theorem decimal_ne_nil (n : Nat) : decimal n ≠ [] := by
  simp only [decimal, ne_eq, map_eq_nil_iff]
  exact Nat.toDigits_ne_nil

theorem digitsValue_decimal (n : Nat) : digitsValue (decimal n) = n := by
  have h := @Nat.ofDigitChars_ten_toDigits n
  rw [digitsValue, decimal, foldl_map]
  simpa only [Nat.ofDigitChars, Nat.mul_comm] using h

theorem length_decimal_le {n : Nat} (h : n < 10 ^ maxStrDigits) :
    (decimal n).length ≤ maxStrDigits := by
  rw [decimal, length_map]
  exact (Nat.length_toDigits_le_iff (by decide) (by decide)).mpr h

theorem digitChar_ne_zero : ∀ d < 10, 0 < d → d.digitChar ≠ '0' := by decide

/-- No decimal text but that of zero starts with a zero. -/
theorem head_toDigits_ne_zero (n : Nat) (hn : 0 < n) : (Nat.toDigits 10 n).head? ≠ some '0' := by
  induction n using Nat.strongRecOn with
  | _ n ih =>
    by_cases hlt : n < 10
    · rw [Nat.toDigits_of_lt_base hlt]
      intro h
      exact digitChar_ne_zero n hlt hn (Option.some.inj h)
    · have hge : 10 ≤ n := by omega
      rw [Nat.toDigits_of_base_le (by decide) hge,
        head?_append_of_ne_nil _ Nat.toDigits_ne_nil]
      exact ih (n / 10) (by omega) (by omega)

theorem scanDigits_append {ds r : Str} (hd : ∀ c ∈ ds, isDigit c = true)
    (hr : ∀ c ∈ r.head?, isDigit c = false) : scanDigits (ds ++ r) = (ds, r) := by
  induction ds with
  | nil =>
    cases r with
    | nil => rfl
    | cons c r => rw [nil_append, scanDigits, hr c rfl]; rfl
  | cons c ds ih =>
    have hrest := ih fun d hmem => hd d (mem_cons_of_mem c hmem)
    rw [cons_append, scanDigits, hd c mem_cons_self, hrest]
    rfl

theorem Ends.not_digit {r : Str} (hr : Ends r) : ∀ c ∈ r.head?, isDigit c = false := by
  intro c hc
  rcases hr c hc with rfl | rfl | rfl <;> rfl

theorem Ends.scanFraction {r : Str} (hr : Ends r) : scanFraction r = ([], r) := by
  cases r with
  | nil => rfl
  | cons c r => rcases hr c rfl with rfl | rfl | rfl <;> rfl

theorem Ends.scanExponent {r : Str} (hr : Ends r) : scanExponent r = ([], r) := by
  cases r with
  | nil => rfl
  | cons c r => rcases hr c rfl with rfl | rfl | rfl <;> rfl

theorem scanWhole_decimal (n : Nat) {r : Str} (hr : Ends r) :
    scanWhole (decimal n ++ r) = some (decimal n, r) := by
  rcases Nat.eq_zero_or_pos n with rfl | hn
  · rfl
  · have hall := fun c => @isDigit_of_mem_decimal n c
    have hhead : ∀ c ∈ (decimal n).head?, c ≠ '0'.toNat := by
      intro c hc hzero
      rw [decimal, head?_map] at hc
      obtain ⟨d, hd, rfl⟩ := Option.map_eq_some_iff.mp hc
      have : d = '0' := Char.ext (UInt32.toNat.inj hzero)
      exact head_toDigits_ne_zero n hn (this ▸ hd)
    obtain ⟨c, ds, hcons⟩ := exists_cons_of_ne_nil (decimal_ne_nil n)
    rw [hcons] at hall hhead ⊢
    have hrest : scanDigits (ds ++ r) = (ds, r) :=
      scanDigits_append (fun d hd => hall d (mem_cons_of_mem c hd)) hr.not_digit
    rw [cons_append, scanWhole, if_neg (hhead c rfl), hall c mem_cons_self, hrest]
    rfl

theorem scanNumber_decimal (negative : Bool) (n : Nat) (h : n < 10 ^ maxStrDigits) {r : Str}
    (hr : Ends r) :
    scanNumber negative (decimal n ++ r)
      = .ok (.int (if negative then -(n : Int) else n), r) := by
  simp only [scanNumber, scanWhole_decimal n hr, hr.scanFraction, hr.scanExponent, and_self,
    if_true, if_pos (length_decimal_le h), digitsValue_decimal]

/-! ### Strings -/

theorem hexValue_hexDigit : ∀ d < 16, hexValue (hexDigit d) = some d := by decide

theorem hexValue4_hex4 {n : Nat} (h : n < 0x10000) :
    ∃ w x y z, hex4 n = [w, x, y, z] ∧ hexValue4 w x y z = some n := by
  refine ⟨_, _, _, _, rfl, ?_⟩
  simp only [hexValue4, hexValue_hexDigit _ (Nat.mod_lt _ (by decide)), Option.bind_eq_bind,
    Option.bind_some, Option.pure_def, Option.some.injEq]
  omega

/-- The items of a character as `escapeChar` writes it. -/
def charItems (c : Nat) : List Item :=
  if (shortEscape c).isSome ∨ (0x20 ≤ c ∧ c ≤ 0x7E) then [.plain c]
  else if c < 0x10000 then [.escaped c]
  else [.escaped (0xD800 + (c - 0x10000) / 1024), .escaped (0xDC00 + (c - 0x10000) % 1024)]

theorem scanItems_unicodeEscape {n : Nat} (h : n < 0x10000) (r : Str) :
    scanItems (unicodeEscape n ++ r) = (scanItems r).map fun p => (.escaped n :: p.1, p.2) := by
  obtain ⟨w, x, y, z, hhex, hval⟩ := hexValue4_hex4 h
  rw [unicodeEscape, hhex]
  simp only [cons_append, nil_append]
  rw [scanItems]
  simp only [hval]
  rfl

/-- A short escape is undone by the decoder, and its letter is not the `u` of a
unicode escape. -/
theorem shortUnescape_shortEscape {c e : Nat} (h : shortEscape c = some e) :
    shortUnescape e = some c ∧ e ≠ 'u'.toNat := by
  unfold shortEscape at h
  split_ifs at h with h1 h2 h3 h4 h5 h6 h7 <;> cases h <;> subst_vars <;> decide

theorem scanItems_escapeChar {c : Nat} (h : Scalar c) (r : Str) :
    scanItems (escapeChar c ++ r) = (scanItems r).map fun p => (charItems c ++ p.1, p.2) := by
  rw [escapeChar, charItems]
  cases he : shortEscape c with
  | some e =>
    obtain ⟨hun, hu⟩ := shortUnescape_shortEscape he
    simp only [Option.isSome_some, true_or, if_true, cons_append, nil_append]
    rw [scanItems.eq_def]
    simp only [hun, if_pos hu]
    rfl
  | none =>
    simp only [Option.isSome_none, Bool.false_eq_true, false_or]
    split_ifs with hprint hbasic
    · -- neither the quote nor the backslash, which have a short escape
      have hquote : c ≠ '"'.toNat := by rintro rfl; cases he
      have hslash : c ≠ '\\'.toNat := by rintro rfl; cases he
      simp only [cons_append, nil_append]
      rw [scanItems.eq_def]
      simp only [if_neg hquote, if_neg (show ¬ c < 0x20 by omega), if_pos hslash]
    · rw [scanItems_unicodeEscape hbasic]
      rfl
    · have hlt := h.1
      rw [append_assoc, scanItems_unicodeEscape (by omega), scanItems_unicodeEscape (by omega)]
      cases scanItems r <;> rfl

variable {s : Str}

theorem scanItems_flatMap (h : ∀ c ∈ s, Scalar c) (r : Str) :
    scanItems (s.flatMap escapeChar ++ '"'.toNat :: r) = .ok (s.flatMap charItems, r) := by
  induction s with
  | nil =>
    rw [flatMap_nil, nil_append, scanItems.eq_def]
    exact if_pos rfl
  | cons c s ih =>
    have hs := ih fun d hd => h d (mem_cons_of_mem c hd)
    rw [flatMap_cons, append_assoc, scanItems_escapeChar (h c mem_cons_self), hs]
    rfl

theorem joinItems_escaped {u : Nat} (h : isSurrogate u = false) (r : List Item) :
    joinItems (.escaped u :: r) = u :: joinItems r := by
  have hnot : ∀ v, ¬ (0xD800 ≤ u ∧ u < 0xDC00 ∧ 0xDC00 ≤ v ∧ v < 0xE000) := by
    simp only [isSurrogate, Bool.and_eq_false_iff, decide_eq_false_iff_not] at h
    omega
  cases r with
  | nil => rfl
  | cons i r =>
    cases i with
    | plain c => rfl
    | escaped v => rw [joinItems, if_neg (hnot v)]

theorem joinItems_charItems {c : Nat} (h : Scalar c) (r : List Item) :
    joinItems (charItems c ++ r) = c :: joinItems r := by
  rw [charItems]
  split_ifs with hplain hbasic
  · rfl
  · exact joinItems_escaped h.2 r
  · have hlt := h.1
    have hpair : pairValue (0xD800 + (c - 0x10000) / 1024) (0xDC00 + (c - 0x10000) % 1024) = c := by
      unfold pairValue
      omega
    simp only [cons_append, nil_append]
    rw [joinItems, if_pos (by omega), hpair]

/-- **A rendered string is read back**, and the text behind its closing quote is left. -/
theorem scanString_renderStr (h : ∀ c ∈ s, Scalar c) (r : Str) :
    scanString (s.flatMap escapeChar ++ '"'.toNat :: r) = .ok (s, r) := by
  have hjoin : joinItems (s.flatMap charItems) = s := by
    induction s with
    | nil => rfl
    | cons c s ih =>
      rw [flatMap_cons, joinItems_charItems (h c mem_cons_self),
        ih fun d hd => h d (mem_cons_of_mem c hd)]
  rw [scanString, scanItems_flatMap h]
  simp only [Except.map, hjoin]

/-! ### Values -/

/-- The characters a rendered value can start with: no whitespace, no closing bracket. -/
def Opens (s : Str) : Prop := ∃ c r, s = c :: r ∧ c ≠ ']'.toNat ∧ ∀ t, skipWs (c :: t) = c :: t

theorem opens_cons {c : Nat} {r : Str} (h : c ≠ ']'.toNat)
    (hws : ¬ (c = ' '.toNat ∨ c = '\t'.toNat ∨ c = '\n'.toNat ∨ c = '\r'.toNat)) :
    Opens (c :: r) :=
  ⟨c, r, rfl, h, fun t => by rw [skipWs, if_neg hws]⟩

theorem decimal_eq_cons (n : Nat) : ∃ c ds, decimal n = c :: ds ∧ 48 ≤ c ∧ c ≤ 57 := by
  obtain ⟨c, ds, hcons⟩ := exists_cons_of_ne_nil (decimal_ne_nil n)
  have hc := isDigit_of_mem_decimal (hcons ▸ mem_cons_self : c ∈ decimal n)
  simp only [isDigit, Bool.and_eq_true, decide_eq_true_eq, Char.reduceToNat] at hc
  exact ⟨c, ds, hcons, hc⟩

theorem opens_decimal (n : Nat) : Opens (decimal n) := by
  obtain ⟨c, ds, hcons, hc⟩ := decimal_eq_cons n
  rw [hcons]
  apply opens_cons
  · simp only [Char.reduceToNat]
    omega
  · simp only [Char.reduceToNat]
    omega

variable {v : Value}

theorem opens_render (h : Plain v) : Opens (render v) := by
  cases h with
  | null => exact opens_cons (by decide) (by decide)
  | bool b => cases b <;> exact opens_cons (by decide) (by decide)
  | int n _ =>
    cases n with
    | ofNat n => exact opens_decimal n
    | negSucc n => exact opens_cons (by decide) (by decide)
  | str s _ => exact opens_cons (by decide) (by decide)
  | arr xs _ => cases xs <;> exact opens_cons (by decide) (by decide)
  | obj kvs _ _ => cases kvs <;> exact opens_cons (by decide) (by decide)

theorem Opens.skipWs_append (h : Opens s) (r : Str) : skipWs (s ++ r) = s ++ r := by
  obtain ⟨c, t, rfl, _, hws⟩ := h
  exact hws (t ++ r)

theorem Opens.length_pos (h : Opens s) : 0 < s.length := by
  obtain ⟨c, t, rfl, _, _⟩ := h
  exact Nat.succ_pos _

/-- What the scanner does on the text of `v`: the text's length bounds the fuel. -/
def Scans (v : Value) : Prop :=
  ∀ n r, 2 * (render v).length ≤ n → Ends r → scanValue n (render v ++ r) = .ok (v, r)

theorem Plain.scans (h : Plain v) (hscan : ∀ n r, 2 * (render v).length ≤ n + 1 → Ends r →
    scanValue (n + 1) (render v ++ r) = .ok (v, r)) : Scans v := by
  intro n r hn hr
  have hpos := (opens_render h).length_pos
  cases n with
  | zero => omega
  | succ n => exact hscan n r hn hr

theorem ends_renderElems (xs : List Value) (r : Str) :
    Ends (renderElems xs ++ r) ∧ 0 < (renderElems xs).length := by
  cases xs with
  | nil | cons x xs => exact ⟨ends_cons (by decide), Nat.succ_pos _⟩

theorem ends_renderMembers (kvs : List (Str × Value)) (r : Str) :
    Ends (renderMembers kvs ++ r) ∧ 0 < (renderMembers kvs).length := by
  cases kvs with
  | nil | cons kv kvs => exact ⟨ends_cons (by decide), Nat.succ_pos _⟩

/-- The elements of an array: the recursion is on the elements after the first. -/
theorem scanElems_render (xs : List Value) (x : Value) (n : Nat) (r : Str)
    (hall : ∀ y ∈ x :: xs, Plain y ∧ Scans y)
    (hn : 2 * (render x ++ renderElems xs).length ≤ n + 1) :
    scanElems n (render x ++ (renderElems xs ++ r)) = .ok (x :: xs, r) := by
  obtain ⟨hp, hx⟩ := hall x mem_cons_self
  obtain ⟨hends, hrest⟩ := ends_renderElems xs r
  rw [length_append] at hn
  obtain ⟨n, rfl⟩ : ∃ m, n = m + 1 := ⟨n - 1, by omega⟩
  rw [scanElems, hx n (renderElems xs ++ r) (by omega) hends]
  cases xs with
  | nil => rfl
  | cons y ys =>
    simp only [renderElems, length_cons] at hn
    have hys := scanElems_render ys y n r (fun z hz => hall z (mem_cons_of_mem x hz)) (by omega)
    have hopens := (opens_render (hall y (by simp)).1).skipWs_append (renderElems ys ++ r)
    simp only [renderElems, cons_append, append_assoc]
    show (scanElems n (skipWs (render y ++ (renderElems ys ++ r))) >>=
      fun out => Except.ok (x :: out.1, out.2)) = _
    rw [hopens, hys]
    rfl

/-- The members of an object, with the opening quote of the first key taken off. -/
theorem scanMembers_render (kvs : List (Str × Value)) (k : Str) (v : Value) (n : Nat) (r : Str)
    (hall : ∀ kv ∈ (k, v) :: kvs, (∀ c ∈ kv.1, Scalar c) ∧ Plain kv.2 ∧ Scans kv.2)
    (hn : 2 * (render v ++ renderMembers kvs).length ≤ n) :
    scanMembers n (renderStr k ++ (':'.toNat :: (render v ++ (renderMembers kvs ++ r))))
      = .ok ((k, v) :: kvs, r) := by
  obtain ⟨hk, hp, hv⟩ : (∀ c ∈ k, Scalar c) ∧ Plain v ∧ Scans v := hall (k, v) mem_cons_self
  obtain ⟨hends, hrest⟩ := ends_renderMembers kvs r
  rw [length_append] at hn
  obtain ⟨n, rfl⟩ : ∃ m, n = m + 1 := ⟨n - 1, by omega⟩
  have hval := hv n (renderMembers kvs ++ r) (by omega) hends
  have hopens := (opens_render hp).skipWs_append (renderMembers kvs ++ r)
  rw [renderStr, cons_append, append_assoc, singleton_append, scanMembers]
  simp only [ne_eq, not_true_eq_false, if_false, scanString_renderStr hk]
  show (scanValue n (skipWs (render v ++ (renderMembers kvs ++ r))) >>= _) = _
  rw [hopens, hval]
  cases kvs with
  | nil => rfl
  | cons kv kvs =>
    simp only [renderMembers, length_append, length_cons] at hn
    have hkvs := scanMembers_render kvs kv.1 kv.2 n r (fun z hz => hall z (mem_cons_of_mem _ hz))
      (by rw [length_append]; omega)
    simp only [renderMembers, cons_append, append_assoc]
    show (scanMembers n (skipWs _) >>= fun out => Except.ok ((k, v) :: out.1, out.2)) = _
    rw [show skipWs (renderStr kv.1 ++ (':'.toNat :: (render kv.2 ++ (renderMembers kvs ++ r))))
      = renderStr kv.1 ++ (':'.toNat :: (render kv.2 ++ (renderMembers kvs ++ r))) from rfl, hkvs]
    rfl

theorem scanValue_decimal (m n : Nat) (hm : m < 10 ^ maxStrDigits) {r : Str} (hr : Ends r) :
    scanValue (n + 1) (decimal m ++ r) = .ok (.int m, r) := by
  obtain ⟨c, ds, hcons, hc⟩ := decimal_eq_cons m
  have hnum := scanNumber_decimal false m hm hr
  rw [hcons, cons_append] at hnum ⊢
  have hne : ∀ d : Nat, d < 48 ∨ 57 < d → c ≠ d := by omega
  rw [scanValue]
  simp only [Char.reduceToNat, hne, Nat.reduceLT, or_true, true_or, if_false, hnum,
    Bool.false_eq_true]

/-- **The scanner reads back a rendered value** and leaves the text behind it. -/
theorem scanValue_render (h : Plain v) : Scans v := by
  induction h with
  | null => exact Plain.null.scans fun _ _ _ _ => rfl
  | bool b => cases b <;> exact (Plain.bool _).scans fun _ _ _ _ => rfl
  | int m hm =>
    refine (Plain.int m hm).scans fun n r _ hr => ?_
    cases m with
    | ofNat m => exact scanValue_decimal m n hm hr
    | negSucc m =>
      have hnum := scanNumber_decimal true (m + 1) hm hr
      have hinf : ¬ cps "Infinity" <+: decimal (m + 1) ++ r := by
        obtain ⟨c, ds, hcons, hc⟩ := decimal_eq_cons (m + 1)
        rw [hcons, cons_append]
        intro hpre
        have : 73 = c := (cons_prefix_cons.mp hpre).1
        omega
      show (if cps "Infinity" <+: decimal (m + 1) ++ r then _ else
        scanNumber true (decimal (m + 1) ++ r)) = _
      rw [if_neg hinf, hnum]
      rfl
  | str s hs =>
    refine (Plain.str s hs).scans fun n r _ _ => ?_
    rw [render, renderStr, cons_append, append_assoc, singleton_append, scanValue,
      if_pos rfl, scanString_renderStr hs]
    rfl
  | arr xs hxs ih =>
    refine (Plain.arr xs hxs).scans fun n r hn _ => ?_
    cases xs with
    | nil => rfl
    | cons x xs =>
      rw [render, length_cons] at hn
      have helems := scanElems_render xs x n r (fun y hy => ⟨hxs y hy, ih y hy⟩) (by omega)
      obtain ⟨c, t, hc, hne, hws⟩ := opens_render (hxs x mem_cons_self)
      rw [render, cons_append, append_assoc, scanValue, if_neg (by decide), if_pos rfl]
      rw [hc, cons_append] at helems ⊢
      simp only [hws, if_neg hne, helems]
      rfl
  | obj kvs hk hv ih =>
    refine (Plain.obj kvs hk hv).scans fun n r hn _ => ?_
    cases kvs with
    | nil => rfl
    | cons kv kvs =>
      have hmembers := scanMembers_render kvs kv.1 kv.2 n r
        (fun z hz => ⟨hk z hz, hv z hz, ih z hz⟩)
        (by simp only [render, length_append, length_cons] at hn ⊢; omega)
      rw [render, cons_append, scanValue, if_neg (by decide), if_neg (by decide), if_pos rfl]
      simp only [append_assoc, cons_append] at hmembers ⊢
      exact congrArg (Except.map fun p => (Value.obj p.1, p.2)) hmembers

/-! ### Sorting the members -/

theorem sortMembers_perm (kvs : List (Str × Value)) :
    (sortMembers kvs).Perm (kvs.map fun kv => (kv.1, sortKeys kv.2)) := by
  induction kvs with
  | nil => exact .refl _
  | cons kv kvs ih =>
    exact (perm_orderedInsert keyLe _ _).trans (ih.cons _)

theorem plain_sortKeys (h : Plain v) : Plain (sortKeys v) := by
  induction h with
  | null => exact .null
  | bool b => exact .bool b
  | int n hn => exact .int n hn
  | str s hs => exact .str s hs
  | arr xs _ ih =>
    rw [sortKeys, sortElems_eq_map]
    refine .arr _ fun y hy => ?_
    obtain ⟨x, hx, rfl⟩ := mem_map.mp hy
    exact ih x hx
  | obj kvs hk _ ih =>
    have hmem : ∀ kv ∈ sortMembers kvs, ∃ kv' ∈ kvs, (kv'.1, sortKeys kv'.2) = kv := fun kv h =>
      mem_map.mp ((sortMembers_perm kvs).mem_iff.mp h)
    refine .obj _ (fun kv h => ?_) (fun kv h => ?_)
    · obtain ⟨kv', hmem', rfl⟩ := hmem kv h
      exact hk kv' hmem'
    · obtain ⟨kv', hmem', rfl⟩ := hmem kv h
      exact ih kv' hmem'

variable {kvs : List (Str × Value)}

theorem lookup_eq_none {k : Str} (h : k ∉ kvs.map Prod.fst) : lookup k kvs = none := by
  induction kvs with
  | nil => rfl
  | cons kv kvs ih =>
    rw [map_cons, mem_cons, not_or] at h
    rw [lookup, ih h.2, if_neg (Ne.symm h.1)]

theorem lookup_eq_some_iff {k : Str}
    (h : (kvs.map Prod.fst).Nodup) : lookup k kvs = some v ↔ (k, v) ∈ kvs := by
  induction kvs with
  | nil => simp [lookup]
  | cons kv kvs ih =>
    obtain ⟨k', v'⟩ := kv
    rw [map_cons, nodup_cons] at h
    rw [lookup, mem_cons]
    by_cases hk : k' = k
    · subst hk
      have hnot : ∀ w, (k', w) ∉ kvs := fun w hw => h.1 (mem_map.mpr ⟨_, hw, rfl⟩)
      simp only [lookup_eq_none h.1, if_true, Option.some.injEq, Prod.mk.injEq, true_and, hnot v,
        or_false, eq_comm]
    · have hne : (k, v) ≠ (k', v') := fun he => hk (congrArg Prod.fst he).symm
      have hor : (k, v) = (k', v') ∨ (k, v) ∈ kvs ↔ (k, v) ∈ kvs := or_iff_right hne
      rw [hor, ← ih h.2]
      cases lookup k kvs with
      | some w => rfl
      | none => simp only [if_neg hk]

/-- **Sorting keeps what `dict` access returns.** -/
theorem lookup_sortMembers (h : (kvs.map Prod.fst).Nodup) (k : Str) :
    lookup k (sortMembers kvs) = (lookup k kvs).map sortKeys := by
  have hkeys : ((sortMembers kvs).map Prod.fst).Perm (kvs.map Prod.fst) := by
    have hperm := (sortMembers_perm kvs).map Prod.fst
    rwa [map_map] at hperm
  ext w
  rw [lookup_eq_some_iff (hkeys.nodup_iff.mpr h), (sortMembers_perm kvs).mem_iff,
    Option.map_eq_some_iff, mem_map]
  constructor
  · rintro ⟨⟨k', v⟩, hmem, he⟩
    obtain ⟨rfl, rfl⟩ := Prod.mk.inj he
    exact ⟨v, (lookup_eq_some_iff h).mpr hmem, rfl⟩
  · rintro ⟨v, hv, rfl⟩
    exact ⟨(k, v), (lookup_eq_some_iff h).mp hv, rfl⟩

/-! ### Bytes -/

/-- `text.encode("utf-8")` for an ASCII text. -/
def asciiBytes (s : Str) : Bytes := s.map UInt8.ofNat

theorem asciiBytes_append (s t : Str) : asciiBytes (s ++ t) = asciiBytes s ++ asciiBytes t :=
  map_append

theorem asciiBytes_cons (c : Nat) (s : Str) : asciiBytes (c :: s) = UInt8.ofNat c :: asciiBytes s :=
  rfl

/-- The characters the encoder writes. -/
def Printable (c : Nat) : Prop := 0x20 ≤ c ∧ c < 0x7F

instance (c : Nat) : Decidable (Printable c) := inferInstanceAs (Decidable (_ ∧ _))

theorem printable_of_isDigit {c : Nat} (h : isDigit c = true) : Printable c := by
  simp only [isDigit, Bool.and_eq_true, decide_eq_true_eq, Char.reduceToNat] at h
  exact ⟨by omega, by omega⟩

theorem printable_hexDigit : ∀ d < 16, Printable (hexDigit d) := by
  intro d hd
  rw [hexDigit]
  split_ifs <;> simp only [Printable, Char.reduceToNat] <;> omega

theorem printable_unicodeEscape {n c : Nat} (h : c ∈ unicodeEscape n) : Printable c := by
  simp only [unicodeEscape, hex4, mem_cons, not_mem_nil, or_false] at h
  rcases h with rfl | rfl | rfl | rfl | rfl | rfl
  · decide
  · decide
  all_goals exact printable_hexDigit _ (Nat.mod_lt _ (by decide))

theorem printable_escapeChar {c d : Nat} (h : d ∈ escapeChar c) : Printable d := by
  rw [escapeChar] at h
  split at h
  · rename_i e he
    have hmem : d = '\\'.toNat ∨ d = e := by simpa using h
    unfold shortEscape at he
    split_ifs at he <;> cases he <;> rcases hmem with rfl | rfl <;> decide
  · split_ifs at h with hprint hbasic
    · cases mem_singleton.mp h
      exact ⟨hprint.1, by omega⟩
    · exact printable_unicodeEscape h
    · rcases mem_append.mp h with h | h <;> exact printable_unicodeEscape h

theorem printable_renderStr {c : Nat} (h : c ∈ renderStr s) : Printable c := by
  simp only [renderStr, mem_cons, mem_append, mem_flatMap, not_mem_nil,
    or_false] at h
  rcases h with rfl | ⟨d, _, hd⟩ | rfl
  · decide
  · exact printable_escapeChar hd
  · decide

theorem printable_decimal {n c : Nat} (h : c ∈ decimal n) : Printable c :=
  printable_of_isDigit (isDigit_of_mem_decimal h)

theorem printable_renderElems {xs : List Value} (h : ∀ x ∈ xs, ∀ c ∈ render x, Printable c) :
    ∀ c ∈ renderElems xs, Printable c := by
  induction xs with
  | nil => decide
  | cons x xs ih =>
    intro c hc
    rw [renderElems, mem_cons, mem_append] at hc
    rcases hc with rfl | hc | hc
    · decide
    · exact h x mem_cons_self c hc
    · exact ih (fun y hy => h y (mem_cons_of_mem x hy)) c hc

theorem printable_renderMembers
    (h : ∀ kv ∈ kvs, ∀ c ∈ render kv.2, Printable c) : ∀ c ∈ renderMembers kvs, Printable c := by
  induction kvs with
  | nil => decide
  | cons kv kvs ih =>
    intro c hc
    rw [renderMembers, mem_cons, mem_append, mem_cons, mem_append] at hc
    rcases hc with rfl | hc | rfl | hc | hc
    · decide
    · exact printable_renderStr hc
    · decide
    · exact h kv mem_cons_self c hc
    · exact ih (fun z hz => h z (mem_cons_of_mem kv hz)) c hc

theorem printable_render (h : Plain v) : ∀ c ∈ render v, Printable c := by
  induction h with
  | null => decide
  | bool b => cases b <;> decide
  | int n _ =>
    intro c hc
    cases n with
    | ofNat n => exact printable_decimal hc
    | negSucc n =>
      rw [render, renderInt, mem_cons] at hc
      rcases hc with rfl | hc
      · decide
      · exact printable_decimal hc
  | str s _ =>
    intro c hc
    exact printable_renderStr hc
  | arr xs _ ih =>
    cases xs with
    | nil => decide
    | cons x xs =>
      have hall := printable_renderElems ih
      rw [renderElems, forall_mem_cons] at hall
      rw [render, forall_mem_cons]
      exact ⟨by decide, hall.2⟩
  | obj kvs _ _ ih =>
    cases kvs with
    | nil => decide
    | cons kv kvs =>
      have hall := printable_renderMembers ih
      rw [renderMembers, forall_mem_cons] at hall
      rw [render, forall_mem_cons]
      exact ⟨by decide, hall.2⟩

theorem toNat_ofNat_of_printable {c : Nat} (h : Printable c) : (UInt8.ofNat c).toNat = c := by
  have := h.2
  rw [UInt8.toNat_ofNat', Nat.mod_eq_of_lt (by omega)]

theorem decodeUtf8_asciiBytes (h : ∀ c ∈ s, Printable c) : decodeUtf8 (asciiBytes s) = some s := by
  induction s with
  | nil => rfl
  | cons c s ih =>
    have hc := h c mem_cons_self
    have hnat := toNat_ofNat_of_printable hc
    have hrest := ih fun d hd => h d (mem_cons_of_mem c hd)
    rw [asciiBytes, map_cons, decodeUtf8.eq_def]
    simp only [hnat, if_pos (show c < 0x80 from Nat.lt_trans hc.2 (by decide))]
    rw [show s.map UInt8.ofNat = asciiBytes s from rfl, hrest]
    rfl

/-- Printable bytes carry no byte order mark and no zero, so they are UTF-8. -/
theorem detectEncoding_of_printable {b : Bytes} (h : ∀ x ∈ b, Printable x.toNat) :
    detectEncoding b = .utf8 := by
  have hzero : ∀ x ∈ b, x ≠ 0 := by
    rintro x hx rfl
    exact absurd (h 0 hx) (by decide)
  have hmark : ∀ {x : UInt8} {mark : Bytes}, ¬ Printable x.toNat → ¬ x :: mark <+: b :=
    fun hx hstarts => hx (h _ (hstarts.subset mem_cons_self))
  unfold detectEncoding
  rw [if_neg (not_or.mpr ⟨hmark (by decide), hmark (by decide)⟩),
    if_neg (not_or.mpr ⟨hmark (by decide), hmark (by decide)⟩), if_neg (hmark (by decide))]
  split
  · rw [if_neg (hzero _ (by simp)), if_neg (hzero _ (by simp))]
  · rw [if_neg (hzero _ (by simp)), if_neg (hzero _ (by simp))]
  · rfl

theorem loadsStr_render (h : Plain v) : loadsStr (render v) = .ok v := by
  have hscan := scanValue_render h (2 * (render v).length + 1) [] (by omega) ends_nil
  have hws := (opens_render h).skipWs_append []
  rw [append_nil] at hscan hws
  rw [loadsStr, hws, hscan]
  rfl

/-- **The decoder inverts the encoder** on the bytes of a plain value. -/
theorem loads_render (h : Plain v) : loads (asciiBytes (render v)) = .ok v := by
  have hprint : ∀ x ∈ asciiBytes (render v), Printable x.toNat := by
    intro x hx
    obtain ⟨c, hc, rfl⟩ := mem_map.mp hx
    rw [toNat_ofNat_of_printable (printable_render h c hc)]
    exact printable_render h c hc
  rw [loads, detectEncoding_of_printable hprint]
  simp only [decode, decodeUtf8_asciiBytes (printable_render h), loadsStr_render h]

/-- **`json.loads(json.dumps(v, sort_keys=True).encode())`** is `v`, members sorted. -/
theorem loads_dumps (h : Plain v) : loads (asciiBytes (dumps v)) = .ok (sortKeys v) :=
  loads_render (plain_sortKeys h)

end Dmi.Json
