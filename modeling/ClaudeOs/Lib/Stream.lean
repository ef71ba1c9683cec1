import Mathlib.Data.List.Basic

/-!
# Pieces of a stream

`OccursAt B p xs` says that the list `xs` is what the stream `B` holds from position `p` on.
Cutting such a piece, joining two that touch and reading a prefix keep it one, which is all a
reassembly argument needs of the bytes.

* `OccursAt.isPrefix`  a piece at position `0` is a prefix of the stream.
-/

namespace Stream
open List
variable {α : Type*} {B xs ys : List α} {p q n : Nat}

def OccursAt (B : List α) (p : Nat) (xs : List α) : Prop :=
  ∀ i < xs.length, B[p + i]? = xs[i]?

lemma OccursAt.nil : OccursAt B p ([] : List α) := fun _ h => absurd h (Nat.not_lt_zero _)

section
variable (h : OccursAt B p xs)
include h

lemma OccursAt.length_le (hn : xs ≠ []) : p + xs.length ≤ B.length := by
  have hpos : 0 < xs.length := List.length_pos_iff.mpr hn
  have hlast := h (xs.length - 1) (by omega)
  rw [List.getElem?_eq_getElem (by omega : xs.length - 1 < xs.length)] at hlast
  have := (List.getElem?_eq_some_iff.mp hlast).1
  omega

lemma OccursAt.drop (k : Nat) : OccursAt B (p + k) (xs.drop k) := by
  intro i hi
  rw [length_drop] at hi
  rw [getElem?_drop, Nat.add_assoc]
  exact h (k + i) (by omega)

lemma OccursAt.take (k : Nat) : OccursAt B p (xs.take k) := by
  intro i hi
  rw [length_take] at hi
  rw [getElem?_take_of_lt (by omega)]
  exact h i (by omega)

lemma OccursAt.append (h' : OccursAt B (p + xs.length) ys) : OccursAt B p (xs ++ ys) := by
  intro i hi
  rw [length_append] at hi
  by_cases e : i < xs.length
  · rw [getElem?_append_left e]
    exact h i e
  · rw [getElem?_append_right (by omega), ← h' (i - xs.length) (by omega)]
    congr 1
    omega

omit h in
lemma OccursAt.append_left (h : OccursAt B p (xs ++ ys)) : OccursAt B p xs := by
  have := h.take xs.length
  rwa [take_left] at this

lemma OccursAt.eq_take : (B.drop p).take xs.length = xs := by
  apply ext_getElem?
  intro i
  by_cases e : i < xs.length
  · rw [getElem?_take_of_lt e, getElem?_drop]
    exact h i e
  · rw [getElem?_eq_none (by simp; omega), getElem?_eq_none (by omega)]

end

lemma OccursAt.isPrefix (h : OccursAt B 0 xs) : xs <+: B := by
  have e := h.eq_take
  rw [drop_zero] at e
  exact e ▸ take_prefix _ _

lemma OccursAt.eq_of_length (h : OccursAt B 0 xs) (e : xs.length = B.length) : xs = B :=
  h.isPrefix.eq_of_length e

lemma OccursAt.extend (h : OccursAt B p xs) (more : List α) : OccursAt (B ++ more) p xs := by
  intro i hi
  have e := h i hi
  rw [List.getElem?_eq_getElem hi] at e ⊢
  rw [List.getElem?_append_left (List.getElem?_eq_some_iff.mp e).1, e]

end Stream
