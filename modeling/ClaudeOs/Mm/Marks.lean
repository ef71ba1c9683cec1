import ClaudeOs.Mm.PageMap
import ClaudeOs.Mm.Guard

/-!
# The copy-on-write mark and the write permission

What the code that shares pages and takes them back rests on, beyond the walk: on both machines the
mark and the write permission are bits of their own, and a marked page takes no store.

* `entry_flags`  what a page asked for with flags is held with;
* `entry_unshared`  a page taken back can be stored to.
-/

namespace ClaudeOs.Mm
open Option

/-- how sharing a page and taking it back change its flags -/
structure Machine.Marks (M : Machine) : Prop where
  writable_unshared : ∀ flags, has (unshared M flags) M.writableBit = true
  cow_unshared : ∀ flags, has (unshared M flags) M.cowBit = false
  shared_none : ∀ flags, M.shared flags = none ↔ has flags M.writableBit = false
  cow_shared : ∀ flags shared, M.shared flags = some shared → has shared M.cowBit = true
  /-- what is shared takes no store, until it is taken back -/
  write_shared : ∀ phys flags shared, M.shared flags = some shared →
    (M.grants (M.flags (M.leaf phys shared)) 0).write = false

open X8664 in
lemma x8664_marks : x8664.Marks where
  writable_unshared flags := by
    simp only [x8664, unshared, WRITABLE, has_bit _ (k := 1)]
    simp
  cow_unshared flags := by
    simp only [x8664, unshared, COW, has_bit _ (k := 9)]
    simp [WRITABLE]
  shared_none flags := by
    simp [x8664, X8664.shared]
  cow_shared flags shared h := by
    simp only [x8664, X8664.shared, ite_none_right_eq_some, some.injEq] at h
    obtain ⟨-, rfl⟩ := h
    simp only [x8664, COW, has_bit _ (k := 9)]
    simp
  write_shared phys flags shared h := by
    simp only [x8664, X8664.shared, ite_none_right_eq_some, some.injEq] at h
    obtain ⟨-, rfl⟩ := h
    refine (x8664_lawful.flags_leaf phys _ WRITABLE (by simp [Machine.permissions, x8664])).trans ?_
    simp only [WRITABLE, has_bit _ (k := 1)]
    simp [COW]

open AArch64 in
lemma aarch64_marks : aarch64.Marks where
  writable_unshared flags := by
    simp only [aarch64, unshared, WRITABLE, has_bit _ (k := 55)]
    simp
  cow_unshared flags := by
    simp only [aarch64, unshared, COW, has_bit _ (k := 56)]
    simp [WRITABLE]
  shared_none flags := by
    simp [aarch64, AArch64.shared]
  cow_shared flags shared h := by
    simp only [aarch64, AArch64.shared, ite_none_right_eq_some, some.injEq] at h
    obtain ⟨-, rfl⟩ := h
    simp only [aarch64, COW, has_bit _ (k := 56)]
    simp
  write_shared phys flags shared h := by
    simp only [aarch64, AArch64.shared, ite_none_right_eq_some, some.injEq] at h
    obtain ⟨-, rfl⟩ := h
    have hcow : has (flags ||| COW) COW = true := by
      simp only [COW, has_bit _ (k := 56)]
      simp
    simp only [aarch64, grants, leaf, forbidEl1, permit, hcow, Bool.or_true, if_true, READ_ONLY,
      has_bit _ (k := 7)]
    split <;> simp [FLAG_MASK, ADDR_MASK]

section
variable {M : Machine}

lemma entry_flags (L : M.Lawful) {phys frame : Phys} {flags kept : Bits}
    (h : entry M phys flags = some (frame, kept)) :
    has kept M.presentBit = true ∧ ∀ bit ∈ M.permissions, has kept bit = has flags bit := by
  rw [entry, ite_none_right_eq_some] at h
  obtain ⟨hpresent, heq⟩ := h
  cases heq
  exact ⟨L.present_flags _ hpresent, L.flags_leaf phys flags⟩

lemma entry_unshared (L : M.Lawful) (K : M.Marks) (phys : Phys) {flags : Bits}
    (h : has flags M.presentBit = true) : ∃ frame kept,
      entry M phys (unshared M flags) = some (frame, kept) ∧ has kept M.writableBit = true ∧
        has kept M.cowBit = false := by
  refine ⟨_, _, if_pos (L.present_leaf phys _ (L.present_unshared flags h)), ?_, ?_⟩
  · rw [L.flags_leaf phys _ _ (by simp [Machine.permissions]), K.writable_unshared]
  · rw [L.flags_leaf phys _ _ (by simp [Machine.permissions]), K.cow_unshared]

end
end ClaudeOs.Mm
