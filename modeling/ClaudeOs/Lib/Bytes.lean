import Mathlib.Algebra.Order.Ring.Int

/-!
# A flat array of items, and lists read out of it and put into it

An array is a function from positions; `slice` reads a range of it as a list and `store` puts a list
into it.  `copyInto` is the same change made to a list.

* `slice_store`  what a range holds after a store that covers it, or misses it;
* `copyInto_slice`  a copy into a range that was read.
-/

namespace Bytes
open List Option
variable {α : Type*} {f g : Nat → α} {start len n k : Nat}

section
variable (f : Nat → α) (start len : Nat)

def slice : List α := (range len).map fun i => f (start + i)

/-- the array with `items` put in from `start` on -/
def store (items : List α) : Nat → α := fun pos =>
  if start ≤ pos then items[pos - start]?.getD (f pos) else f pos

@[simp] lemma length_slice : (slice f start len).length = len := by
  rw [slice, length_map, length_range]

@[simp] lemma slice_zero : slice f start 0 = [] := rfl

lemma getElem?_slice (i : Nat) :
    (slice f start len)[i]? = if i < len then some (f (start + i)) else none := by
  rw [slice, getElem?_map]
  by_cases h : i < len
  · rw [getElem?_range h, if_pos h, map_some]
  · rw [getElem?_eq_none (by rwa [length_range, ← Nat.not_lt]), if_neg h, map_none]

lemma slice_append (m n : Nat) :
    slice f start m ++ slice f (start + m) n = slice f start (m + n) := by
  apply ext_getElem?
  intro i
  rw [getElem?_append, length_slice, getElem?_slice, getElem?_slice, getElem?_slice]
  by_cases h : i < m
  · rw [if_pos h, if_pos h, if_pos (by omega)]
  · rw [if_neg h]
    have e : start + m + (i - m) = start + i := by omega
    by_cases h' : i < m + n
    · rw [if_pos h', if_pos (by omega), e]
    · rw [if_neg h', if_neg (by omega)]

end

lemma slice_congr (h : ∀ i < len, f (start + i) = g (start + i)) :
    slice f start len = slice g start len :=
  map_congr_left fun i hi => h i (mem_range.mp hi)

lemma eq_of_slice (h : slice f start len = slice g start len) {i : Nat} (hi : i < len) :
    f (start + i) = g (start + i) := by
  have e := congrArg (·[i]?) h
  simpa only [getElem?_slice, if_pos hi, some.injEq] using e

lemma slice_slice (f : Nat → α) (start : Nat) {len a n : Nat} (h : a + n ≤ len) :
    ((slice f start len).drop a).take n = slice f (start + a) n := by
  apply ext_getElem?
  intro i
  rw [getElem?_take, getElem?_drop, getElem?_slice, getElem?_slice]
  by_cases hi : i < n
  · rw [if_pos hi, if_pos hi, if_pos (by omega), Nat.add_assoc]
  · rw [if_neg hi, if_neg hi]

@[simp] lemma store_nil (f : Nat → α) (start : Nat) : store f start [] = f := by
  funext pos
  rw [store, getElem?_nil, getD_none, ite_self]

variable {items : List α} {pos : Nat}

lemma store_outside (h : pos < start ∨ start + items.length ≤ pos) :
    store f start items pos = f pos := by
  rw [store]
  split
  · rw [getElem?_eq_none (by omega), getD_none]
  · rfl

lemma store_append (f : Nat → α) (start : Nat) (xs ys : List α) :
    store (store f start xs) (start + xs.length) ys = store f start (xs ++ ys) := by
  funext pos
  by_cases h : start + xs.length ≤ pos
  · have hlen : xs.length ≤ pos - start := by omega
    have e : pos - start - xs.length = pos - (start + xs.length) := by omega
    rw [store, if_pos h, store_outside (.inr h), store, if_pos (by omega),
      getElem?_append_right hlen, e]
  · rw [store, if_neg h, store, store]
    by_cases h' : start ≤ pos
    · rw [if_pos h', if_pos h', getElem?_append_left (by omega)]
    · rw [if_neg h', if_neg h']

lemma store_slice (f g : Nat → α) (start len pos : Nat) : store f start (slice g start len) pos =
      if start ≤ pos ∧ pos < start + len then g pos else f pos := by
  by_cases h : start ≤ pos ∧ pos < start + len
  · have e : start + (pos - start) = pos := by omega
    rw [store, if_pos h.1, if_pos h, getElem?_slice, if_pos (by omega), getD_some, e]
  · rw [if_neg h, store_outside]
    rw [length_slice]
    omega

lemma slice_store_outside (h : start + len ≤ k ∨ k + items.length ≤ start) :
    slice (store f k items) start len = slice f start len :=
  slice_congr fun i _ => store_outside (by omega)

lemma slice_store (f : Nat → α) (start : Nat) (items : List α) :
    slice (store f start items) start items.length = items := by
  apply ext_getElem?
  intro i
  rw [getElem?_slice]
  by_cases h : i < items.length
  · rw [if_pos h, store, if_pos (Nat.le_add_right ..), Nat.add_sub_cancel_left,
      getElem?_eq_getElem h, getD_some]
  · rw [if_neg h, getElem?_eq_none (by omega)]

/-! ## the same change made to a list -/

def copyInto (xs : List α) (pos : Nat) (items : List α) : List α :=
  xs.take pos ++ items ++ xs.drop (pos + items.length)

lemma length_copyInto {xs : List α} (h : pos + items.length ≤ xs.length) :
    (copyInto xs pos items).length = xs.length := by
  simp only [copyInto, length_append, length_take, length_drop]
  omega

lemma copyInto_slice (f : Nat → α) (start : Nat) {len : Nat} (h : pos + items.length ≤ len) :
    copyInto (slice f start len) pos items = slice (store f (start + pos) items) start len := by
  apply ext_getElem?
  intro i
  have hlen : ((slice f start len).take pos).length = pos := by
    rw [length_take, length_slice]
    omega
  rw [copyInto, getElem?_slice, append_assoc, getElem?_append, hlen, getElem?_take,
    getElem?_append, getElem?_drop, getElem?_slice, getElem?_slice]
  by_cases h1 : i < pos
  · rw [if_pos h1, if_pos h1, store_outside (by omega)]
  · rw [if_neg h1]
    by_cases h2 : i - pos < items.length
    · rw [if_pos h2, if_pos (by omega), store, if_pos (by omega)]
      have e : start + i - (start + pos) = i - pos := by omega
      rw [e, getElem?_eq_getElem h2, getD_some]
    · rw [if_neg h2, store_outside (by omega)]
      have e : pos + items.length + (i - pos - items.length) = i := by omega
      rw [e]

end Bytes
