import Mathlib.Data.BitVec

/-!
# Serial-number arithmetic: positions of an unbounded stream seen through `w` bits

A protocol numbers the items of an unbounded stream with `w`-bit counters that wrap.  The
comparison of two such numbers is the sign of their difference, which is meaningful only for
positions less than half the number space apart.  Here:

* `Serial.lt`, `Serial.le`, `Serial.gt`  the comparisons, by the sign of the wrapping difference;
* `seqAt base p`  the number of the item at the position `p : Nat`;
* `seqAt_lt`, `seqAt_le`, `seqAt_gt`  on positions at most half the space apart the comparisons are
  those of `Nat`;
* `seqAt_max`  the later of two positions, by their numbers;
* `exists_seqAt_of_gt`, `exists_seqAt_of_lt`  a number that compares greater names such a position;
* `dist_add`  distances add up, below one whole turn;
* `seqAt_dist`, `seqAt_inj`  the wrapping difference is the distance, and equal numbers are equal
  positions, below one whole turn.
-/

namespace Serial
open Nat
variable {w : Nat}

/-! ## the comparisons -/

def lt (a b : BitVec w) : Bool := decide ((a - b).toInt < 0)
def le (a b : BitVec w) : Bool := decide ((a - b).toInt ≤ 0)
def gt (a b : BitVec w) : Bool := decide (0 < (a - b).toInt)

section
variable (base : BitVec w) (p : Nat)

/-- the number of the stream item at position `p`, counted from `base` -/
def seqAt : BitVec w := base + BitVec.ofNat w p

@[simp] lemma seqAt_zero : seqAt base 0 = base := by simp [seqAt]
lemma seqAt_add (n : Nat) : seqAt base p + BitVec.ofNat w n = seqAt base (p + n) := by
  simp [seqAt, BitVec.ofNat_add, BitVec.add_assoc]

lemma seqAt_seqAt (n : Nat) : seqAt (seqAt base p) n = seqAt base (p + n) := seqAt_add base p n

/-! ## distances -/

lemma seqAt_sub (q : Nat) : seqAt base p - seqAt base q = BitVec.ofInt w ((p : Int) - q) := by
  have h : BitVec.ofInt w ((p : Int) - q) = BitVec.ofNat w p - BitVec.ofNat w q := by
    rw [Int.sub_eq_add_neg, BitVec.ofInt_add, BitVec.ofInt_neg, BitVec.sub_eq_add_neg]
    simp [BitVec.ofInt_natCast]
  rw [h]
  exact add_sub_add_left_eq_sub _ _ base

end

variable {p q : Nat}

lemma seqAt_dist (base : BitVec w) (h : p ≤ q) (hq : q < p + 2 ^ w) :
    (seqAt base q - seqAt base p).toNat = q - p := by
  rw [seqAt_sub, BitVec.toNat_ofInt]
  have e : ((q : Int) - p) % ((2 ^ w : Nat) : Int) = ((q - p : Nat) : Int) := by
    rw [← Int.ofNat_sub h, ← Int.natCast_emod, mod_eq_of_lt (by omega)]
  rw [e, Int.toNat_natCast]

lemma seqAt_dist_zero (base : BitVec w) (hq : q < 2 ^ w) : (seqAt base q - base).toNat = q := by
  have d := seqAt_dist base q.zero_le (by omega)
  rwa [seqAt_zero, Nat.sub_zero] at d

lemma seqAt_inj (base : BitVec w) (hp : p < q + 2 ^ w) (hq : q < p + 2 ^ w)
    (e : seqAt base p = seqAt base q) : p = q := by
  rcases le_total p q with h | h
  · have d := seqAt_dist base h hq
    rw [e] at d
    simp at d
    omega
  · have d := seqAt_dist base h hp
    rw [e] at d
    simp at d
    omega

lemma dist_add {a b : BitVec w} {n : Nat} (h : (a - b).toNat + n < 2 ^ w) :
    (a + BitVec.ofNat w n - b).toNat = (a - b).toNat + n := by
  rw [← sub_add_eq_add_sub, BitVec.toNat_add, BitVec.toNat_ofNat, add_mod_mod, mod_eq_of_lt h]

/-! ## comparisons of positions -/

section
variable (base : BitVec (w + 1))
include base

section
variable (hp : p < q + 2 ^ w)
include hp

section
variable (hq : q ≤ p + 2 ^ w)
include hq

lemma seqAt_toInt : (seqAt base p - seqAt base q).toInt = (p : Int) - q := by
  rw [seqAt_sub, BitVec.toInt_ofInt]
  have e : 2 ^ (w + 1) = 2 * 2 ^ w := by rw [pow_succ, mul_comm]
  rw [e]
  generalize 2 ^ w = half at *
  apply Int.bmod_eq_of_le
  · push_cast
    omega
  · push_cast
    omega

lemma seqAt_lt : lt (seqAt base p) (seqAt base q) = decide (p < q) := by
  simp only [lt, seqAt_toInt base hp hq, decide_eq_decide]
  omega

lemma seqAt_le : le (seqAt base p) (seqAt base q) = decide (p ≤ q) := by
  simp only [le, seqAt_toInt base hp hq, decide_eq_decide]
  omega

lemma seqAt_gt : gt (seqAt base p) (seqAt base q) = decide (q < p) := by
  simp only [gt, seqAt_toInt base hp hq, decide_eq_decide]
  omega

lemma seqAt_max : (if lt (seqAt base p) (seqAt base q) then seqAt base q else seqAt base p) =
      seqAt base (max p q) := by
  rw [seqAt_lt base hp hq]
  by_cases c : p < q
  · rw [if_pos (decide_eq_true c), Nat.max_eq_right (Nat.le_of_lt c)]
  · rw [if_neg (by simpa using c), Nat.max_eq_left (Nat.le_of_not_lt c)]

end
end
end

lemma exists_seqAt_of_gt (base a : BitVec (w + 1)) (h : gt a (seqAt base p) = true) :
    ∃ e, a = seqAt base (p + e) ∧ 0 < e ∧ e < 2 ^ w := by
  refine ⟨(a - seqAt base p).toNat, ?_, ?_⟩
  · rw [← seqAt_add, BitVec.ofNat_toNat, BitVec.setWidth_eq, add_sub_cancel]
  · simp only [gt, decide_eq_true_eq] at h
    generalize a - seqAt base p = x at h
    have hx := x.isLt
    have e : 2 ^ (w + 1) = 2 * 2 ^ w := by rw [pow_succ, mul_comm]
    rw [BitVec.toInt_eq_toNat_cond] at h
    rw [e] at h hx
    generalize 2 ^ w = half at *
    split at h <;> omega

lemma exists_seqAt_of_lt (base a : BitVec (w + 1)) (h : lt (seqAt base p) a = true) :
    ∃ e, a = seqAt base (p + e) ∧ 0 < e ∧ e ≤ 2 ^ w := by
  refine ⟨(a - seqAt base p).toNat, ?_, ?_⟩
  · rw [← seqAt_add, BitVec.ofNat_toNat, BitVec.setWidth_eq, add_sub_cancel]
  · simp only [lt, decide_eq_true_eq] at h
    rw [← neg_sub a (seqAt base p)] at h
    generalize a - seqAt base p = x at h
    have hx := x.isLt
    have e : 2 ^ (w + 1) = 2 * 2 ^ w := by rw [Nat.pow_succ, Nat.mul_comm]
    rw [BitVec.toInt_eq_toNat_cond, BitVec.toNat_neg] at h
    rw [e] at h hx
    rcases Nat.eq_zero_or_pos x.toNat with z | z
    · have hw : 0 < 2 ^ w := Nat.two_pow_pos w
      rw [z, Nat.sub_zero, Nat.mod_self, if_pos (by omega)] at h
      simp at h
    · rw [Nat.mod_eq_of_lt (by omega)] at h
      generalize 2 ^ w = half at *
      split at h <;> omega

end Serial
