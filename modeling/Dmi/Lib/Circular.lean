import Mathlib.Data.Nat.ModEq
import Mathlib.Data.List.Basic

/-!
# Circular buffers

A circular buffer of `cap` cells holds a window of an unbounded stream: position `p` of the
stream lives in the cell `p % cap`.  Memory is a function from addresses to cells.

* `Written cap m m' pos xs`: `m'` is `m` after `xs` was written at position `pos` of the
  stream, whatever spans the write was cut into; positions of the stream whose cells the
  write does not reach are as before.  `Written.append` composes writes and
  `written_copyIn` says that a copy to consecutive cells is one.
* `Shows cap m lo hi stream`: the buffer shows the stream from `lo` up to `hi`.  A position of
  the stream that holds `none` is one whose cell nobody reads, such as padding.
  `Shows.append` is what a write at the end of the stream does, and `Shows.transfer` what
  copying from one buffer to another does.
* `readRing cap m pos n` reads `n` cells from position `pos`; `readSpan_eq` and
  `readSpans_eq` say that reading one span, or the two spans of a read that wraps, gives the
  same cells.
-/

namespace Dmi.Circular

open List

variable {β : Type*} {cap : Nat} {m m₁ m₂ : Nat → β}

/-! ### Positions -/

theorem mod_ne_mod {p q : Nat} (h : p < q) (h' : q < p + cap) : p % cap ≠ q % cap := by
  intro heq
  have hdvd : cap ∣ q - p := (Nat.modEq_iff_dvd' h.le).mp heq
  have := Nat.le_of_dvd (by omega) hdvd
  omega

variable {pos : Nat}

theorem add_mod_of_fits {i : Nat} (h : pos % cap + i < cap) : (pos + i) % cap = pos % cap + i := by
  rw [Nat.add_mod, Nat.mod_eq_of_lt (show i < cap by omega), Nat.mod_eq_of_lt h]

theorem add_mod_of_wraps {i : Nat} (h : cap ≤ pos % cap + i) (hi : i ≤ cap) (hcap : 0 < cap) :
    (pos + i) % cap = pos % cap + i - cap := by
  have hlt := Nat.mod_lt pos hcap
  rw [← Nat.mod_add_mod, Nat.mod_eq_sub_mod h, Nat.mod_eq_of_lt (by omega)]

/-! ### Writing -/

/-- Copy `src` to the consecutive addresses from `dst`. -/
def copyIn (m : Nat → β) (dst : Nat) (src : List β) : Nat → β :=
  fun a => if a < dst then m a else (src[a - dst]?).getD (m a)

theorem copyIn_of_getElem? {dst i : Nat} {src : List β} {x : β} (h : src[i]? = some x) :
    copyIn m dst src (dst + i) = x := by
  rw [copyIn, if_neg (by omega), Nat.add_sub_cancel_left, h, Option.getD_some]

theorem copyIn_of_outside {dst a : Nat} {src : List β} (h : a < dst ∨ dst + src.length ≤ a) :
    copyIn m dst src a = m a := by
  rcases h with h | h
  · rw [copyIn, if_pos h]
  · rw [copyIn, if_neg (by omega), getElem?_eq_none (by omega), Option.getD_none]

/-- The stream position `q` has a cell of its own beside the `len` positions from `pos`. -/
def Apart (cap pos len q : Nat) : Prop :=
  (q < pos ∧ pos + len ≤ q + cap) ∨ (pos + len ≤ q ∧ q < pos + cap)

structure Written (cap : Nat) (m m' : Nat → β) (pos : Nat) (xs : List β) : Prop where
  shows : ∀ {i x}, xs[i]? = some x → m' ((pos + i) % cap) = x
  frame : ∀ {q}, Apart cap pos xs.length q → m' (q % cap) = m (q % cap)

theorem Written.nil : Written cap m m pos [] where
  shows h := by cases h
  frame _ := rfl

variable {xs : List β}

theorem Written.append {ys : List β} (h₁ : Written cap m m₁ pos xs)
    (h₂ : Written cap m₁ m₂ (pos + xs.length) ys) (hlen : xs.length + ys.length ≤ cap) :
    Written cap m m₂ pos (xs ++ ys) where
  shows {i x} h := by
    by_cases hi : i < xs.length
    · rw [getElem?_append_left hi] at h
      rw [h₂.frame (.inl ⟨by omega, by omega⟩), h₁.shows h]
    · rw [getElem?_append_right (by omega)] at h
      have := h₂.shows h
      rwa [show pos + xs.length + (i - xs.length) = pos + i by omega] at this
  frame {q} h := by
    rw [length_append] at h
    have hy : Apart cap (pos + xs.length) ys.length q := by
      unfold Apart at h ⊢
      omega
    have hx : Apart cap pos xs.length q := by
      unfold Apart at h ⊢
      omega
    rw [h₂.frame hy, h₁.frame hx]

theorem written_copyIn (h : pos % cap + xs.length ≤ cap) :
    Written cap m (copyIn m (pos % cap) xs) pos xs where
  shows {i x} hx := by
    have hi := (List.getElem?_eq_some_iff.mp hx).1
    rw [add_mod_of_fits (by omega), copyIn_of_getElem? hx]
  frame {q} hq := by
    refine copyIn_of_outside ?_
    by_contra hin
    -- the cell of `q` would be the cell of a written position
    have hfits : pos % cap + (q % cap - pos % cap) < cap := by omega
    have hcell := add_mod_of_fits hfits
    have hsame : q % cap = (pos + (q % cap - pos % cap)) % cap := by omega
    rcases hq with hq | hq
    · exact mod_ne_mod (by omega) (by omega) hsame
    · exact mod_ne_mod (by omega) (by omega) hsame.symm

theorem written_cell {x : β} (hcap : 0 < cap) : Written cap m (copyIn m (pos % cap) [x]) pos [x] :=
  written_copyIn (Nat.mod_lt pos hcap)

/-! ### Showing a stream -/

def Shows (cap : Nat) (m : Nat → β) (lo hi : Nat) (stream : List (Option β)) : Prop :=
  ∀ ⦃p x⦄, lo ≤ p → p < hi → stream[p]? = some (some x) → m (p % cap) = x

variable {stream : List (Option β)}

theorem Shows.mono {lo hi lo' hi' : Nat} (h : Shows cap m lo hi stream) (hlo : lo ≤ lo')
    (hhi : hi' ≤ hi) : Shows cap m lo' hi' stream :=
  fun _ _ hp hp' hx => h (hlo.trans hp) (lt_of_lt_of_le hp' hhi) hx

/-- The stream grows by what was written at its end, and by cells nobody reads. -/
theorem Shows.append {lo hi pad : Nat} (h : Shows cap m lo stream.length stream)
    (hw : Written cap m m₁ stream.length xs) (hfit : stream.length + xs.length ≤ lo + cap) :
    Shows cap m₁ lo hi (stream ++ (xs.map some ++ List.replicate pad none)) := by
  intro p x hlo _ hx
  by_cases hp : p < stream.length
  · rw [getElem?_append_left hp] at hx
    rw [hw.frame (.inl ⟨hp, by omega⟩)]
    exact h hlo hp hx
  · rw [getElem?_append_right (by omega)] at hx
    by_cases hlen : p - stream.length < xs.length
    · rw [getElem?_append_left (by simpa using hlen), getElem?_map,
        Option.map_eq_some_iff] at hx
      obtain ⟨y, hy, heq⟩ := hx
      cases heq
      have := hw.shows hy
      rwa [show stream.length + (p - stream.length) = p by omega] at this
    · rw [getElem?_append_right (by simpa using hlen), getElem?_replicate] at hx
      split at hx <;> cases hx

/-- A later part of the stream that was not written yet may be anything. -/
theorem Shows.of_append {lo hi : Nat} {more : List (Option β)} (h : Shows cap m lo hi stream)
    (hhi : hi ≤ stream.length) : Shows cap m lo hi (stream ++ more) := by
  intro p x hlo hp hx
  rw [getElem?_append_left (by omega)] at hx
  exact h hlo hp hx

/-! ### Reading -/

/-- The `n` cells from the address `a`. -/
def readSpan (m : Nat → β) (a n : Nat) : List β := (List.range n).map fun i => m (a + i)

/-- The cells of the `n` positions from `pos`. -/
def readRing (cap : Nat) (m : Nat → β) (pos n : Nat) : List β :=
  (List.range n).map fun i => m ((pos + i) % cap)

@[simp] theorem length_readRing (pos n : Nat) : (readRing cap m pos n).length = n := by
  simp [readRing]

theorem readSpan_eq {n : Nat} (h : pos % cap + n ≤ cap) :
    readSpan m (pos % cap) n = readRing cap m pos n := by
  refine map_congr_left fun i hi => ?_
  rw [add_mod_of_fits (by have := mem_range.mp hi; omega)]

theorem readSpans_eq {n : Nat} (hcap : 0 < cap) (h : cap ≤ pos % cap + n) (hn : n ≤ cap) :
    readSpan m (pos % cap) (cap - pos % cap) ++ readSpan m 0 (n - (cap - pos % cap)) =
      readRing cap m pos n := by
  have hlt := Nat.mod_lt pos hcap
  have hsplit : n = (cap - pos % cap) + (n - (cap - pos % cap)) := by omega
  conv_rhs => rw [hsplit]
  rw [readRing, range_add, map_append, map_map]
  refine congrArg₂ (· ++ ·) ?_ ?_
  · exact readSpan_eq (by omega)
  · refine map_congr_left fun i hi => ?_
    have hi := mem_range.mp hi
    rw [Function.comp_apply, add_mod_of_wraps (by omega) (by omega) hcap]
    congr 1
    omega

theorem Shows.readRing_eq {lo hi : Nat} (h : Shows cap m lo hi stream) (hlo : lo ≤ pos)
    (hhi : pos + xs.length ≤ hi)
    (hxs : ∀ {i x}, xs[i]? = some x → stream[pos + i]? = some (some x)) :
    readRing cap m pos xs.length = xs := by
  refine ext_getElem (length_readRing _ _) fun i hi₁ hi₂ => ?_
  simp only [readRing, getElem_map, getElem_range]
  exact h (by omega) (by omega) (hxs (getElem?_eq_getElem hi₂))

/-- Copying the next `n` positions from a buffer that shows them to another one. -/
theorem Shows.transfer {cap' lo hi lo' n : Nat} {m' m₁' : Nat → β} (hsrc : Shows cap m lo hi stream)
    (hdst : Shows cap' m' lo' pos stream) (hw : Written cap' m' m₁' pos (readRing cap m pos n))
    (hlo : lo ≤ pos) (hhi : pos + n ≤ hi)
    (hfit : pos + n ≤ lo' + cap') : Shows cap' m₁' lo' (pos + n) stream := by
  intro p x hp hp' hx
  by_cases hold : p < pos
  · rw [hw.frame (.inl ⟨hold, by rw [length_readRing]; omega⟩)]
    exact hdst hp hold hx
  · have hcell : (readRing cap m pos n)[p - pos]? = some x := by
      rw [readRing, getElem?_map, getElem?_range (by omega), Option.map_some,
        show pos + (p - pos) = p by omega, hsrc (by omega) (by omega) hx]
    have := hw.shows hcell
    rwa [show pos + (p - pos) = p by omega] at this

end Dmi.Circular
