import Mathlib.Algebra.Order.Ring.Int
import Mathlib.Data.Nat.Find

/-!
# The descriptor table

`FdTable` is the table the threads of a process share: one slot a descriptor, each with the open
file it refers to, if any, and its close-on-exec mark.  Each function here runs under the table's
lock from its first line to its last.

* `get`, `insertAt`, `allocAtLeast`, `close`  the functions of the source;
* `fileAt`  the file a descriptor refers to;
* `LowestFree`  the descriptor an allocation takes;
* `allocAtLeast_of_lowestFree`, `allocAtLeast_of_full`
                               what an allocation does, in the two cases there are.
-/

namespace ClaudeOs.Fs.Fd
open List

/-- the errors of the calls that make, copy and close descriptors -/
inductive Errno where
  | EPERM | EBADF | EMFILE | ENOENT | EFAULT | EINVAL | EAGAIN | EINTR | EEXIST | ENOTDIR | EISDIR
  | EACCES | ENOSPC | ELOOP | EIO | ENXIO | EROFS | ENAMETOOLONG | ENOMEM | ECHILD | ENODEV
  | EAFNOSUPPORT | EPROTONOSUPPORT | EOPNOTSUPP | ENOTSOCK | EADDRNOTAVAIL | EADDRINUSE | EALREADY
  | EISCONN | ENETUNREACH
  deriving DecidableEq, Repr

abbrev File := Nat

/-- one entry of the two vectors `entries` and `cloexec`, which grow together -/
structure Slot where
  file : Option File
  cloexec : Bool
  deriving DecidableEq, Repr

structure FdTable where
  slots : List Slot
  deriving DecidableEq, Repr

def MAX_FDS : Nat := 256

variable {min : Nat} {t' : FdTable}

namespace FdTable

def new : FdTable := ⟨[]⟩

section
variable (t : FdTable) (fd : Nat)

def fileAt : Option File := t.slots[fd]?.bind (·.file)

def ensure (index : Nat) : FdTable :=
  ⟨t.slots ++ replicate (index + 1 - t.slots.length) ⟨none, false⟩⟩

def store (file : File) (cloexec : Bool) : FdTable :=
  ⟨t.slots.set fd ⟨some file, cloexec⟩⟩

/-- `entries[fd].take()`: the mark stays -/
def take : FdTable :=
  ⟨t.slots.modify fd fun slot => ⟨none, slot.cloexec⟩⟩

def get (fd : Int) : Except Errno File :=
  if fd < 0 then .error .EBADF
  else match t.fileAt fd.toNat with
    | some file => .ok file
    | none => .error .EBADF

def insertAt (file : File) (cloexec : Bool) : FdTable :=
  (t.ensure fd).store fd file cloexec

/-- the loop of `alloc_at_least`; `rounds` is what `fd` has left to `MAX_FDS` -/
def allocFrom (file : File) (cloexec : Bool) : (rounds fd : Nat) → FdTable →
    FdTable × Except Errno Nat
  | 0, _, t => (t, .error .EMFILE)
  | rounds + 1, fd, t =>
    let grown := if t.slots.length ≤ fd then t.ensure fd else t
    match grown.fileAt fd with
    | none => (grown.store fd file cloexec, .ok fd)
    | some _ => allocFrom file cloexec rounds (fd + 1) grown

def allocAtLeast (min : Nat) (file : File) (cloexec : Bool) : FdTable × Except Errno Nat :=
  allocFrom file cloexec (MAX_FDS - min) min t

def alloc (file : File) (cloexec : Bool) : FdTable × Except Errno Nat :=
  t.allocAtLeast 0 file cloexec

def close (fd : Int) : FdTable × Except Errno Unit :=
  if fd < 0 ∨ (t.slots.length : Int) ≤ fd then (t, .error .EBADF)
  else
    (t.take fd.toNat, match t.fileAt fd.toNat with
      | some _ => .ok ()
      | none => .error .EBADF)

end

/-! ## what the functions do to the descriptors -/

variable {t : FdTable} {fd d : Nat} {file : File} {cloexec : Bool}

lemma fileAt_of_le (h : t.slots.length ≤ d) : t.fileAt d = none := by
  rw [fileAt, getElem?_eq_none h]
  rfl

lemma lt_of_fileAt (h : t.fileAt d = some file) : d < t.slots.length := by
  by_contra hd
  rw [fileAt_of_le (Nat.le_of_not_lt hd)] at h
  cases h

lemma length_ensure (t : FdTable) (fd : Nat) :
    (t.ensure fd).slots.length = max t.slots.length (fd + 1) := by
  show (t.slots ++ replicate _ _).length = _
  rw [length_append, length_replicate]
  omega

@[simp] lemma fileAt_ensure (t : FdTable) (fd d : Nat) : (t.ensure fd).fileAt d = t.fileAt d := by
  by_cases hd : d < t.slots.length
  · show ((t.slots ++ _)[d]?).bind _ = _
    rw [getElem?_append_left hd]
    rfl
  · rw [fileAt_of_le (Nat.le_of_not_lt hd)]
    show ((t.slots ++ _)[d]?).bind _ = _
    rw [getElem?_append_right (Nat.le_of_not_lt hd), getElem?_replicate]
    split <;> rfl

lemma fileAt_store (t : FdTable) (d : Nat) (file : File) (cloexec : Bool)
    (h : fd < t.slots.length) :
    (t.store fd file cloexec).fileAt d = if d = fd then some file else t.fileAt d := by
  show ((t.slots.set fd _)[d]?).bind _ = _
  rw [getElem?_set]
  by_cases hd : d = fd
  · rw [if_pos hd, if_pos hd.symm, if_pos h]
    rfl
  · rw [if_neg hd, if_neg (Ne.symm hd)]
    rfl

lemma fileAt_take (t : FdTable) (fd d : Nat) :
    (t.take fd).fileAt d = if d = fd then none else t.fileAt d := by
  show ((t.slots.modify fd _)[d]?).bind _ = _
  rw [getElem?_modify]
  by_cases hd : d = fd
  · rw [if_pos hd]
    simp only [if_pos hd.symm]
    cases t.slots[d]? <;> rfl
  · rw [if_neg hd]
    simp only [if_neg (Ne.symm hd)]
    show (Option.map id t.slots[d]?).bind _ = _
    rw [Option.map_id]
    rfl

lemma fileAt_insertAt (t : FdTable) (fd d : Nat) (file : File) (cloexec : Bool) :
    (t.insertAt fd file cloexec).fileAt d = if d = fd then some file else t.fileAt d := by
  have hlen : fd < (t.ensure fd).slots.length := by
    rw [length_ensure]
    omega
  rw [insertAt, fileAt_store _ _ _ _ hlen, fileAt_ensure]

lemma get_eq_ok {fd : Int} : t.get fd = .ok file ↔ 0 ≤ fd ∧ t.fileAt fd.toNat = some file := by
  unfold get
  by_cases hneg : fd < 0
  · rw [if_pos hneg]
    constructor
    · intro h
      cases h
    · intro h
      exact absurd hneg (Int.not_lt.mpr h.1)
  · rw [if_neg hneg]
    cases t.fileAt fd.toNat with
    | none =>
      constructor
      · intro h
        cases h
      · intro h
        cases h.2
    | some f =>
      constructor
      · intro h
        cases h
        exact ⟨Int.not_lt.mp hneg, rfl⟩
      · intro h
        cases h.2
        rfl

lemma get_congr {fd : Int} (h : 0 ≤ fd → t'.fileAt fd.toNat = t.fileAt fd.toNat) :
    t'.get fd = t.get fd := by
  unfold get
  by_cases hneg : fd < 0
  · rw [if_pos hneg, if_pos hneg]
  · rw [if_neg hneg, if_neg hneg, h (Int.not_lt.mp hneg)]

/-! ### close -/

lemma close_of_none {fd : Int} (h : 0 ≤ fd → t.fileAt fd.toNat = none) :
    (∀ d, (t.close fd).1.fileAt d = t.fileAt d) ∧ (t.close fd).2 = .error .EBADF := by
  unfold close
  by_cases hout : fd < 0 ∨ (t.slots.length : Int) ≤ fd
  · rw [if_pos hout]
    exact ⟨fun _ => rfl, rfl⟩
  · rw [if_neg hout]
    have hnone := h (by omega)
    refine ⟨fun d => ?_, by rw [hnone]⟩
    rw [fileAt_take]
    split
    · rename_i hd
      rw [hd, hnone]
    · rfl

lemma close_of_some {fd : Int} (hfd : 0 ≤ fd) (h : t.fileAt fd.toNat = some file) :
    t.close fd = (t.take fd.toNat, .ok ()) := by
  have hlt := lt_of_fileAt h
  unfold close
  rw [if_neg (by omega), h]

lemma fileAt_close (t : FdTable) (fd : Int) (d : Nat) :
    (t.close fd).1.fileAt d = if (d : Int) = fd then none else t.fileAt d := by
  by_cases hnone : 0 ≤ fd → t.fileAt fd.toNat = none
  · rw [(close_of_none hnone).1 d]
    split
    · rename_i hd
      subst hd
      exact hnone (Int.natCast_nonneg d)
    · rfl
  · rw [Classical.not_imp] at hnone
    obtain ⟨hfd, hsome⟩ := hnone
    obtain ⟨file, hfile⟩ := Option.ne_none_iff_exists'.mp hsome
    rw [close_of_some hfd hfile]
    rw [fileAt_take]
    have hiff : d = fd.toNat ↔ (d : Int) = fd := by omega
    simp only [hiff]

/-! ### allocation -/

structure LowestFree (t : FdTable) (min fd : Nat) : Prop where
  le : min ≤ fd
  lt : fd < MAX_FDS
  free : t.fileAt fd = none
  used : ∀ d, min ≤ d → d < fd → t.fileAt d ≠ none

def Full (t : FdTable) (min : Nat) : Prop := ∀ d, min ≤ d → d < MAX_FDS → t.fileAt d ≠ none

lemma allocFrom_of_used (rounds : Nat) {fd : Nat} (h : t.fileAt fd = some file) (f : File)
    (c : Bool) : allocFrom f c (rounds + 1) fd t = allocFrom f c rounds (fd + 1) t := by
  have hlt : ¬ t.slots.length ≤ fd := Nat.not_le.mpr (lt_of_fileAt h)
  simp only [allocFrom, if_neg hlt, h]

lemma allocFrom_of_free (rounds : Nat) {fd : Nat} (h : t.fileAt fd = none) (f : File) (c : Bool) :
    allocFrom f c (rounds + 1) fd t = (t.insertAt fd f c, .ok fd) := by
  simp only [allocFrom]
  by_cases hle : t.slots.length ≤ fd
  · rw [if_pos hle, fileAt_ensure, h]
    rfl
  · have hensure : t.ensure fd = t := by
      have hzero : fd + 1 - t.slots.length = 0 := by omega
      rw [ensure, hzero, replicate_zero, append_nil]
    rw [if_neg hle, h]
    show (t.store fd f c, Except.ok fd) = ((t.ensure fd).store fd f c, Except.ok fd)
    rw [hensure]

lemma allocFrom_of_lowest (rounds : Nat) {fd low : Nat} (f : File) (c : Bool)
    (hle : fd ≤ low) (hlt : low < fd + rounds) (hfree : t.fileAt low = none)
    (hused : ∀ d, fd ≤ d → d < low → t.fileAt d ≠ none) :
    allocFrom f c rounds fd t = (t.insertAt low f c, .ok low) := by
  induction rounds generalizing fd with
  | zero => omega
  | succ rounds ih =>
    by_cases heq : fd = low
    · subst heq
      exact allocFrom_of_free rounds hfree f c
    · obtain ⟨_, hfile⟩ := Option.ne_none_iff_exists'.mp (hused fd (Nat.le_refl fd) (by omega))
      rw [allocFrom_of_used rounds hfile]
      exact ih (by omega) (by omega) fun d hd => hused d (by omega)

lemma allocFrom_of_full (rounds : Nat) {fd : Nat} (f : File) (c : Bool)
    (hused : ∀ d, fd ≤ d → d < fd + rounds → t.fileAt d ≠ none) :
    allocFrom f c rounds fd t = (t, .error .EMFILE) := by
  induction rounds generalizing fd with
  | zero => rfl
  | succ rounds ih =>
    obtain ⟨_, hfile⟩ := Option.ne_none_iff_exists'.mp (hused fd (Nat.le_refl fd) (by omega))
    rw [allocFrom_of_used rounds hfile]
    exact ih fun d hd hd' => hused d (by omega) (by omega)

lemma allocAtLeast_of_lowestFree (h : t.LowestFree min fd) (file : File) (cloexec : Bool) :
    t.allocAtLeast min file cloexec = (t.insertAt fd file cloexec, .ok fd) := by
  have hle := h.le
  have hlt := h.lt
  exact allocFrom_of_lowest _ file cloexec hle (by omega) h.free h.used

lemma allocAtLeast_of_full (h : t.Full min) (file : File) (cloexec : Bool) :
    t.allocAtLeast min file cloexec = (t, .error .EMFILE) :=
  allocFrom_of_full _ file cloexec fun d hd hd' => h d hd (by omega)

lemma full_or_lowestFree (t : FdTable) (min : Nat) : t.Full min ∨ ∃ fd, t.LowestFree min fd := by
  by_cases hfull : t.Full min
  · exact .inl hfull
  · refine .inr ?_
    have hex : ∃ d, min ≤ d ∧ d < MAX_FDS ∧ t.fileAt d = none := by
      unfold Full at hfull
      push Not at hfull
      exact hfull
    obtain ⟨hle, hlt, hfree⟩ := Nat.find_spec hex
    refine ⟨Nat.find hex, hle, hlt, hfree, fun d hd hd' hnone => ?_⟩
    exact Nat.find_min hex hd' ⟨hd, Nat.lt_trans hd' hlt, hnone⟩

lemma LowestFree.congr (h : t.LowestFree min fd)
    (heq : ∀ d, min ≤ d → d ≤ fd → t'.fileAt d = t.fileAt d) : t'.LowestFree min fd where
  le := h.le
  lt := h.lt
  free := (heq fd h.le (Nat.le_refl fd)).trans h.free
  used d hd hd' := by
    rw [heq d hd (Nat.le_of_lt hd')]
    exact h.used d hd hd'

end FdTable
end ClaudeOs.Fs.Fd
