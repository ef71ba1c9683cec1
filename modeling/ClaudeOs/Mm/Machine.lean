import ClaudeOs.Lib.Radix

/-!
# What a translation table is made of

The walk of `mm::walk` is written once for two machines.  `Machine` is what it asks of each: how
a descriptor is put together and read, as `arch::paging` spells it, and the bits the rest of the
kernel speaks in.  `grants` is the one field that is not code: what the hardware lets a program do
through a descriptor, which the permission bits stand for.

* `Machine`  the descriptor format, and `Machine.format` as a format of radix trees;
* `Machine.Lawful`  what the walk and the changes to it rest on;
* `x8664`, `aarch64`  the two machines, and `x8664_lawful`, `aarch64_lawful`;
* `x8664_keeps`, `aarch64_keeps`  the flags a descriptor hands back as they were asked for.
-/

namespace ClaudeOs.Mm
open Option

abbrev Bits := BitVec 64
abbrev Phys := BitVec 64

/-- what a program may do with what a descriptor names -/
structure Access where
  user : Bool
  write : Bool
  execute : Bool
deriving DecidableEq, Repr

/-- `a` allows nothing that `b` does not -/
def Access.le (a b : Access) : Prop :=
  (a.user → b.user) ∧ (a.write → b.write) ∧ (a.execute → b.execute)

/-- what each machine supplies underneath the walk -/
structure Machine where
  /-- a last-level descriptor naming a frame with flags -/
  leaf : Phys → Bits → Bits
  /-- a descriptor naming a table, on the way to a leaf that asks for flags -/
  table : Phys → Bits → Bits
  /-- the walker follows this descriptor at all -/
  present : Bits → Bool
  /-- the walk stops here rather than descending: a block or large page -/
  endsWalk : Bits → Nat → Bool
  addr : Bits → Phys
  flags : Bits → Bits
  /-- the flags both sides get when a page starts being shared; `none` when it is read-only -/
  shared : Bits → Option Bits
  /-- what a table descriptor has to become before a leaf with these flags is reachable -/
  widen : Bits → Bits → Option Bits
  /-- what the hardware lets a program do through a descriptor of a level -/
  grants : Bits → Nat → Access
  presentBit : Bits
  writableBit : Bits
  userBit : Bits
  noExecuteBit : Bits
  cowBit : Bits

def has (flags bit : Bits) : Bool := flags &&& bit != 0

variable {bits : Bits} {level k : Nat}

namespace Machine
variable (M : Machine)

/-- the addresses a descriptor can name: whole pages the output field can hold -/
def Frame (p : Phys) : Prop := M.addr p = p

instance (p : Phys) : Decidable (M.Frame p) := inferInstanceAs (Decidable (_ = _))

def permissions : List Bits := [M.writableBit, M.userBit, M.noExecuteBit, M.cowBit]

/-- a descriptor above the last level names a table when it is present and not a block -/
def format : Radix.Format Phys Bits where
  child level bits := if !M.present bits || M.endsWalk bits level then none else some (M.addr bits)

lemma child_eq_some {p : Phys} : M.format.child level bits = some p ↔
      M.present bits = true ∧ M.endsWalk bits level = false ∧ M.addr bits = p := by
  simp only [format]
  cases M.present bits <;> cases M.endsWalk bits level <;> simp

lemma child_absent (h : M.present bits = false) : M.format.child level bits = none := by
  simp [format, h]

/-- what the walk and the changes to the tables rest on -/
structure Lawful : Prop where
  present_zero : M.present 0 = false
  frame_addr : ∀ bits, M.Frame (M.addr bits)
  addr_leaf : ∀ p flags, M.addr (M.leaf p flags) = M.addr p
  present_leaf : ∀ p flags, has flags M.presentBit → M.present (M.leaf p flags) = true
  present_flags : ∀ bits, M.present bits = true → has (M.flags bits) M.presentBit
  present_shared : ∀ flags shared, M.shared flags = some shared → has flags M.presentBit →
    has shared M.presentBit
  present_unshared : ∀ flags, has flags M.presentBit →
    has ((flags &&& ~~~M.cowBit) ||| M.writableBit) M.presentBit
  flags_leaf : ∀ p flags, ∀ bit ∈ M.permissions, has (M.flags (M.leaf p flags)) bit = has flags bit
  endsWalk_zero : ∀ bits, M.endsWalk bits 0 = false
  endsWalk_succ : ∀ bits level, M.endsWalk bits (level + 1) = M.endsWalk bits 1
  present_table : ∀ p under, M.present (M.table p under) = true
  endsWalk_table : ∀ p under level, M.endsWalk (M.table p under) level = false
  addr_table : ∀ p under, M.addr (M.table p under) = M.addr p
  widen : ∀ bits under wider, M.widen bits under = some wider →
    M.present wider = M.present bits ∧ (∀ level, M.endsWalk wider level = M.endsWalk bits level) ∧
      M.addr wider = M.addr bits ∧ ∀ level, (M.grants bits level).le (M.grants wider level)

/-- a page asked for with such flags is there, and they are read back as they were asked for -/
def Keeps (whole : Bits → Prop) : Prop :=
  ∀ p flags, whole flags → has flags M.presentBit = true ∧ M.flags (M.leaf p flags) = flags

end Machine

/-! ## tests of a bit -/

lemma has_bit (x : Bits) (hk : k < 64 := by decide) : has x (1#64 <<< k) = x.getLsbD k := by
  rw [has, ← BitVec.twoPow_eq, BitVec.and_twoPow]
  cases h : x.getLsbD k with
  | false => simp
  | true =>
    have hne : BitVec.twoPow 64 k ≠ 0#64 := by
      intro h0
      have := congrArg (fun y => y.getLsbD k) h0
      simp [hk] at this
    simpa using hne

lemma or_of_has {x : Bits} (h : has x (1#64 <<< k) = true) (hk : k < 64 := by decide) :
    x ||| 1#64 <<< k = x := by
  rw [has_bit x hk] at h
  ext i hi
  by_cases hik : i = k
  · subst hik
    simp [← BitVec.getLsbD_eq_getElem, h]
  · rw [← BitVec.twoPow_eq]
    simp [hik]

lemma and_not_of_has {x : Bits} (h : has x (1#64 <<< k) = false) (hk : k < 64 := by decide) :
    x &&& ~~~(1#64 <<< k) = x := by
  rw [has_bit x hk] at h
  ext i hi
  by_cases hik : i = k
  · subst hik
    simp [← BitVec.getLsbD_eq_getElem, h]
  · rw [← BitVec.twoPow_eq]
    simp [hik]

lemma and_not_mask {x mask : Bits} (h : x &&& mask = 0) : x &&& ~~~mask = x := by
  have hsplit : x = (x &&& mask) ||| (x &&& ~~~mask) := by
    rw [← BitVec.and_or_distrib_left, BitVec.or_not_self, BitVec.and_allOnes]
  simpa [h] using hsplit.symm

/-- the output address and the flags fall apart again -/
lemma and_not_address {p mask flags : Bits} (h : flags &&& mask = 0) :
    ((p &&& mask) ||| flags) &&& ~~~mask = flags := by
  rw [BitVec.and_or_distrib_right, and_not_mask h, BitVec.and_assoc]
  simp

/-! ## x86-64 -/

namespace X8664

def PRESENT : Bits := 1#64 <<< 0
def WRITABLE : Bits := 1#64 <<< 1
def USER : Bits := 1#64 <<< 2
def HUGE : Bits := 1#64 <<< 7
def NO_EXECUTE : Bits := 1#64 <<< 63
def COW : Bits := 1#64 <<< 9
def ADDR_MASK : Bits := 0x000FFFFFFFFFF000

def leaf (phys : Phys) (flags : Bits) : Bits :=
  (phys &&& ADDR_MASK) ||| (flags &&& ~~~ADDR_MASK) ||| PRESENT

def table (phys : Phys) (under : Bits) : Bits :=
  (phys &&& ADDR_MASK) ||| PRESENT ||| WRITABLE ||| (under &&& USER)

def shared (flags : Bits) : Option Bits :=
  if has flags WRITABLE then some ((flags &&& ~~~WRITABLE) ||| COW) else none

def widen (tableBits leafFlags : Bits) : Option Bits :=
  if has leafFlags USER && !has tableBits USER then some (tableBits ||| USER) else none

/-- `leaf` adds nothing to these flags and drops nothing of them -/
structure Whole (flags : Bits) : Prop where
  present : has flags PRESENT = true
  address : flags &&& ADDR_MASK = 0

end X8664

open X8664 in
/-- the processor forbids from above what a level below allows, so every level has its say -/
def x8664 : Machine where
  leaf := leaf
  table := table
  present bits := has bits PRESENT
  endsWalk bits level := decide (0 < level) && has bits HUGE
  addr bits := bits &&& ADDR_MASK
  flags bits := bits &&& ~~~ADDR_MASK
  shared := shared
  widen := widen
  grants bits _ := ⟨has bits USER, has bits WRITABLE, !has bits NO_EXECUTE⟩
  presentBit := PRESENT
  writableBit := WRITABLE
  userBit := USER
  noExecuteBit := NO_EXECUTE
  cowBit := COW

open X8664 in
lemma x8664_lawful : x8664.Lawful where
  present_zero := by decide
  frame_addr bits := by
    simp [Machine.Frame, x8664, BitVec.and_assoc]
  addr_leaf p flags := by
    simp [x8664, leaf, ADDR_MASK, PRESENT, BitVec.and_or_distrib_right, BitVec.and_assoc]
  present_leaf p flags _ := by
    simp only [x8664, PRESENT, has_bit _ (k := 0)]
    simp [leaf, PRESENT]
  present_flags bits h := by
    simp only [x8664, PRESENT, has_bit _ (k := 0)] at h ⊢
    simp [ADDR_MASK, h]
  present_shared flags shared h hp := by
    simp only [x8664, X8664.shared, ite_none_right_eq_some, some.injEq] at h
    obtain ⟨-, rfl⟩ := h
    simp only [x8664, PRESENT, has_bit _ (k := 0)] at hp ⊢
    simp [WRITABLE, COW, hp]
  present_unshared flags hp := by
    simp only [x8664, PRESENT, has_bit _ (k := 0)] at hp ⊢
    simp [WRITABLE, COW, hp]
  flags_leaf p flags bit hbit := by
    simp only [Machine.permissions, x8664, List.mem_cons, List.not_mem_nil, or_false] at hbit ⊢
    rcases hbit with rfl | rfl | rfl | rfl
    · simp only [WRITABLE, has_bit _ (k := 1)]
      simp [leaf, ADDR_MASK, PRESENT]
    · simp only [USER, has_bit _ (k := 2)]
      simp [leaf, ADDR_MASK, PRESENT]
    · simp only [NO_EXECUTE, has_bit _ (k := 63)]
      simp [leaf, ADDR_MASK, PRESENT]
    · simp only [COW, has_bit _ (k := 9)]
      simp [leaf, ADDR_MASK, PRESENT]
  endsWalk_zero bits := by simp [x8664]
  endsWalk_succ bits level := by simp [x8664]
  present_table p under := by
    simp only [x8664, PRESENT, has_bit _ (k := 0)]
    simp [table, PRESENT]
  endsWalk_table p under level := by
    simp only [x8664, HUGE, has_bit _ (k := 7)]
    simp [table, PRESENT, WRITABLE, USER, ADDR_MASK]
  addr_table p under := by
    simp [x8664, table, ADDR_MASK, PRESENT, WRITABLE, USER, BitVec.and_or_distrib_right,
      BitVec.and_assoc]
  widen bits under wider h := by
    simp only [x8664, widen, ite_none_right_eq_some, some.injEq] at h
    obtain ⟨-, rfl⟩ := h
    refine ⟨?_, fun level => ?_, ?_, fun level => ?_⟩
    · simp only [x8664, PRESENT, has_bit _ (k := 0)]
      simp [USER]
    · simp only [x8664, HUGE, has_bit _ (k := 7)]
      simp [USER]
    · simp [x8664, USER, ADDR_MASK, BitVec.and_or_distrib_right]
    · simp only [Access.le, x8664, USER, WRITABLE, NO_EXECUTE, has_bit _ (k := 1),
        has_bit _ (k := 2), has_bit _ (k := 63)]
      simp

open X8664 in
lemma x8664_keeps : x8664.Keeps Whole := by
  intro p flags h
  refine ⟨h.present, ?_⟩
  show leaf p flags &&& ~~~ADDR_MASK = flags
  rw [leaf, and_not_mask h.address, BitVec.or_assoc,
    show flags ||| PRESENT = flags from or_of_has h.present, and_not_address h.address]

/-! ## AArch64 -/

namespace AArch64

def PRESENT : Bits := 1#64 <<< 0
def WRITABLE : Bits := 1#64 <<< 55
def USER : Bits := 1#64 <<< 6
def NO_EXECUTE : Bits := 1#64 <<< 54
def COW : Bits := 1#64 <<< 56
def ADDR_MASK : Bits := 0x0000FFFFFFFFF000
def PAGE_DESCRIPTOR : Bits := 1#64 <<< 1
def ACCESSED : Bits := 1#64 <<< 10
def SHARED : Bits := 3#64 <<< 8
def READ_ONLY : Bits := 1#64 <<< 7
def NO_EXECUTE_EL1 : Bits := 1#64 <<< 53
def FLAG_MASK : Bits := ~~~ADDR_MASK

/-- the permission bits the hardware reads, derived from the software ones -/
def permit (flags bits : Bits) : Bits :=
  if !has flags WRITABLE || has flags COW then bits ||| READ_ONLY else bits &&& ~~~READ_ONLY

/-- what is not executable for a program, or is a program's, the kernel does not execute -/
def forbidEl1 (flags bits : Bits) : Bits :=
  if has flags (NO_EXECUTE ||| USER) then bits ||| NO_EXECUTE_EL1 else bits

def leaf (phys : Phys) (flags : Bits) : Bits :=
  forbidEl1 flags (permit flags
    ((phys &&& ADDR_MASK) ||| (flags &&& FLAG_MASK) ||| PAGE_DESCRIPTOR ||| ACCESSED ||| SHARED))

def table (phys : Phys) (_under : Bits) : Bits :=
  (phys &&& ADDR_MASK) ||| PRESENT ||| PAGE_DESCRIPTOR

def shared (flags : Bits) : Option Bits :=
  if has flags WRITABLE then some (flags ||| COW) else none

/-- `leaf` adds nothing to these flags and drops nothing of them: the bits it sets on every page are
set, and those it derives from the software ones are as it derives them -/
structure Whole (flags : Bits) : Prop where
  present : has flags PRESENT = true
  address : flags &&& ADDR_MASK = 0
  fixed : flags ||| PAGE_DESCRIPTOR ||| ACCESSED ||| SHARED = flags
  readOnly : has flags READ_ONLY = (!has flags WRITABLE || has flags COW)
  forbidden : has flags (NO_EXECUTE ||| USER) = true → has flags NO_EXECUTE_EL1 = true

/-- a table descriptor can forbid what the pages under it allow, in bits of its own -/
def grants (bits : Bits) (level : Nat) : Access :=
  if level = 0 then ⟨has bits USER, !has bits READ_ONLY, !has bits NO_EXECUTE⟩
  else ⟨!bits.getLsbD 61, !bits.getLsbD 62, !bits.getLsbD 60⟩

end AArch64

open AArch64 in
/-- permission is decided at the last level, from software bits the descriptor keeps -/
def aarch64 : Machine where
  leaf := leaf
  table := table
  present bits := has bits PRESENT
  endsWalk bits level := decide (0 < level) && !has bits PAGE_DESCRIPTOR
  addr bits := bits &&& ADDR_MASK
  flags bits := bits &&& FLAG_MASK
  shared := shared
  widen _ _ := none
  grants := grants
  presentBit := PRESENT
  writableBit := WRITABLE
  userBit := USER
  noExecuteBit := NO_EXECUTE
  cowBit := COW

open AArch64 in
lemma AArch64.addr_leaf (p : Phys) (flags : Bits) :
    leaf p flags &&& ADDR_MASK = p &&& ADDR_MASK := by
  simp only [leaf, forbidEl1, permit]
  split <;> split <;>
    simp [ADDR_MASK, FLAG_MASK, PAGE_DESCRIPTOR, ACCESSED, SHARED, READ_ONLY, NO_EXECUTE_EL1,
      BitVec.and_or_distrib_right, BitVec.and_assoc]

open AArch64 in
lemma AArch64.leaf_bit (p : Phys) (flags : Bits) (hk : k ∈ [0, 6, 54, 55, 56]) :
    (leaf p flags).getLsbD k = flags.getLsbD k := by
  simp only [List.mem_cons, List.not_mem_nil, or_false] at hk
  simp only [leaf, forbidEl1, permit]
  rcases hk with rfl | rfl | rfl | rfl | rfl <;> split <;> split <;>
    simp [ADDR_MASK, FLAG_MASK, PAGE_DESCRIPTOR, ACCESSED, SHARED, READ_ONLY, NO_EXECUTE_EL1]

open AArch64 in
lemma AArch64.flags_bit (p : Phys) (flags : Bits) (hk : k ∈ [0, 6, 54, 55, 56]) :
    (leaf p flags &&& FLAG_MASK).getLsbD k = flags.getLsbD k := by
  rw [BitVec.getLsbD_and, AArch64.leaf_bit p flags hk]
  simp only [List.mem_cons, List.not_mem_nil, or_false] at hk
  rcases hk with rfl | rfl | rfl | rfl | rfl <;> simp [FLAG_MASK, ADDR_MASK]

open AArch64 in
lemma aarch64_lawful : aarch64.Lawful where
  present_zero := by decide
  frame_addr bits := by
    simp [Machine.Frame, aarch64, BitVec.and_assoc]
  addr_leaf := AArch64.addr_leaf
  present_leaf p flags h := by
    simp only [aarch64, PRESENT, has_bit _ (k := 0)] at h ⊢
    rw [AArch64.leaf_bit p flags (by simp), h]
  present_flags bits h := by
    simp only [aarch64, PRESENT, has_bit _ (k := 0)] at h ⊢
    simp [FLAG_MASK, ADDR_MASK, h]
  present_shared flags shared h hp := by
    simp only [aarch64, AArch64.shared, ite_none_right_eq_some, some.injEq] at h
    obtain ⟨-, rfl⟩ := h
    simp only [aarch64, PRESENT, has_bit _ (k := 0)] at hp ⊢
    simp [COW, hp]
  present_unshared flags hp := by
    simp only [aarch64, PRESENT, has_bit _ (k := 0)] at hp ⊢
    simp [WRITABLE, COW, hp]
  flags_leaf p flags bit hbit := by
    simp only [Machine.permissions, aarch64, List.mem_cons, List.not_mem_nil, or_false] at hbit ⊢
    rcases hbit with rfl | rfl | rfl | rfl
    · simp only [WRITABLE, has_bit _ (k := 55)]
      exact AArch64.flags_bit p flags (by decide)
    · simp only [USER, has_bit _ (k := 6)]
      exact AArch64.flags_bit p flags (by decide)
    · simp only [NO_EXECUTE, has_bit _ (k := 54)]
      exact AArch64.flags_bit p flags (by decide)
    · simp only [COW, has_bit _ (k := 56)]
      exact AArch64.flags_bit p flags (by decide)
  endsWalk_zero bits := by simp [aarch64]
  endsWalk_succ bits level := by simp [aarch64]
  present_table p under := by
    simp only [aarch64, PRESENT, has_bit _ (k := 0)]
    simp [table, PRESENT]
  endsWalk_table p under level := by
    simp only [aarch64, PAGE_DESCRIPTOR, has_bit _ (k := 1)]
    simp [table, PRESENT, PAGE_DESCRIPTOR]
  addr_table p under := by
    simp [aarch64, table, ADDR_MASK, PRESENT, PAGE_DESCRIPTOR, BitVec.and_or_distrib_right,
      BitVec.and_assoc]
  widen bits under wider h := by simp [aarch64] at h

open AArch64 in
lemma aarch64_keeps : aarch64.Keeps Whole := by
  intro p flags h
  have hpermit : permit flags ((p &&& ADDR_MASK) ||| flags) = (p &&& ADDR_MASK) ||| flags := by
    rw [permit, ← h.readOnly]
    cases hro : has flags READ_ONLY with
    | true => rw [if_pos rfl, BitVec.or_assoc, show flags ||| READ_ONLY = flags from or_of_has hro]
    | false =>
      rw [if_neg Bool.false_ne_true, BitVec.and_or_distrib_right, BitVec.and_assoc,
        show flags &&& ~~~READ_ONLY = flags from and_not_of_has hro]
      rfl
  have hleaf : leaf p flags = (p &&& ADDR_MASK) ||| flags := by
    rw [leaf, FLAG_MASK, and_not_mask h.address,
      show (p &&& ADDR_MASK) ||| flags ||| PAGE_DESCRIPTOR ||| ACCESSED ||| SHARED =
        (p &&& ADDR_MASK) ||| (flags ||| PAGE_DESCRIPTOR ||| ACCESSED ||| SHARED) from by
          simp only [BitVec.or_assoc], h.fixed, hpermit, forbidEl1]
    split
    · rw [BitVec.or_assoc, show flags ||| NO_EXECUTE_EL1 = flags from or_of_has (h.forbidden ‹_›)]
    · rfl
  refine ⟨h.present, ?_⟩
  show leaf p flags &&& ~~~ADDR_MASK = flags
  rw [hleaf, and_not_address h.address]

end ClaudeOs.Mm
