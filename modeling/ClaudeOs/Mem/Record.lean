import ClaudeOs.Uaccess

/-!
# The record of what is in an address space

`MemState` of `mm::space`: the regions and the heap bounds, as the calls that change them see them
under the lock.  A sum or a difference that does not fit in a word stops the machine, and so each of
the source's stands behind its check.

* `Vma`, `MemState`  a region, and the record;
* `removeVmaRange`  a range taken out of the regions, splitting as needed;
* `findFreeRegion`  a span in the area that mappings are placed in;
* `Vma.Whole`, `MemState.Sound`  what a record of regions is meant to be;
* `Sound.remove`, `Sound.push`  and how the changes keep it.
-/

namespace ClaudeOs.Mem
open Mm Call List

/-- how a turn of the lock ends without a value: an error, or an assertion that stops the kernel -/
inductive Failure where
  | errno (e : Errno)
  | assertion
deriving DecidableEq, Repr

abbrev Locked (σ α : Type) : Type := Call Failure σ α

def PROT_WRITE : Bits := 2
def PROT_EXEC : Bits := 4
def MAP_FIXED : Bits := 0x10

/-- where mappings with no address of their own are placed from -/
def USER_MMAP_BASE : Nat := 0x00007F0000000000

structure FileMap where
  node : Nat
  offset : Nat
  length : Nat
deriving DecidableEq, Repr

structure Vma where
  start : Nat
  stop : Nat
  prot : Bits
  flags : Bits
  file : Option FileMap
deriving DecidableEq, Repr

structure MemState where
  vmas : List Vma
  brkStart : Nat
  brk : Nat
  mmapTop : Nat
deriving DecidableEq, Repr

def Vma.contains (v : Vma) (addr : Nat) : Prop := v.start ≤ addr ∧ addr < v.stop

instance (v : Vma) (addr : Nat) : Decidable (v.contains addr) := inferInstanceAs (Decidable (_ ∧ _))

def Vma.meets (v : Vma) (start stop : Nat) : Prop := v.start < stop ∧ start < v.stop

instance (v : Vma) (start stop : Nat) : Decidable (v.meets start stop) :=
  inferInstanceAs (Decidable (_ ∧ _))

def protToFlags (M : Machine) (prot : Bits) : Bits :=
  M.presentBit ||| M.userBit ||| (if has prot PROT_WRITE then M.writableBit else 0) |||
    (if has prot PROT_EXEC then 0 else M.noExecuteBit)

def Vma.pageFlags (M : Machine) (v : Vma) : Bits := protToFlags M v.prot

variable {σ : Type}

/-- round up to a page; the sum is made before it is rounded -/
def alignUpOk (value : Nat) : Locked σ Nat :=
  addOk value PAGE_SIZE >>= fun _ => Pure.pure (pageAlignUp value)

variable {value start : Nat} {α : Type} {m : MemState} {v : Vma} {vmas : List Vma}

lemma alignUpOk_bind (h : value + PAGE_SIZE < WORD) (f : Nat → Locked σ α) :
    (alignUpOk value >>= f) = f (pageAlignUp value) := by
  rw [alignUpOk, Call.bind_assoc, addOk_bind h, Call.pure_bind]

lemma alignUpOk_overflow (h : ¬ value + PAGE_SIZE < WORD) (f : Nat → Locked σ α) :
    (alignUpOk value >>= f) = stop := by rw [alignUpOk, Call.bind_assoc, addOk_overflow h]

def inUserSpace (addr len : Nat) : Prop :=
  addr + len < WORD ∧ isUserAddr addr ∧ isUserAddr (addr + len - 1)

instance (addr len : Nat) : Decidable (inUserSpace addr len) :=
  inferInstanceAs (Decidable (_ ∧ _ ∧ _))

/-! ## taking a range out -/

namespace Vma
variable (v : Vma) (start stop : Nat)

def head : Vma :=
  ⟨v.start, start, v.prot, v.flags,
    v.file.map fun f => ⟨f.node, f.offset, min f.length (start - v.start)⟩⟩

/-- what is left of a region from `stop` on, which begins further into the file -/
def tail : Vma :=
  ⟨stop, v.stop, v.prot, v.flags,
    v.file.map fun f => ⟨f.node, f.offset + (stop - v.start), f.length - (stop - v.start)⟩⟩

def tailOk : Locked σ Vma :=
  match v.file with
  | none => Pure.pure (v.tail stop)
  | some f =>
    subOk stop v.start >>= fun _ => addOk f.offset (stop - v.start) >>= fun _ =>
      Pure.pure (v.tail stop)

def without : List Vma :=
  if v.stop ≤ start ∨ v.start ≥ stop then [v]
  else (if v.start < start then [v.head start] else []) ++
    (if v.stop > stop then [v.tail stop] else [])

def withoutOk : Locked σ (List Vma) :=
  if v.stop ≤ start ∨ v.start ≥ stop then Pure.pure [v]
  else
    (if v.stop > stop then v.tailOk stop >>= fun tail => Pure.pure [tail] else Pure.pure []) >>=
      fun tail => Pure.pure ((if v.start < start then [v.head start] else []) ++ tail)

/-- the file offset of the part past `stop`, when there is one, is a word -/
def TailFits : Prop :=
  v.meets start stop → stop < v.stop → ∀ f ∈ v.file, f.offset + (stop - v.start) < WORD

end Vma

/-- remove `[start, stop)` from the regions, splitting as needed -/
def removeFrom (start stop : Nat) : List Vma → Locked σ (List Vma)
  | [] => Pure.pure []
  | vma :: vmas =>
    vma.withoutOk start stop >>= fun parts =>
      removeFrom start stop vmas >>= fun out => Pure.pure (parts ++ out)

namespace MemState
variable (m : MemState)

def setVmas (vmas : List Vma) : MemState := ⟨vmas, m.brkStart, m.brk, m.mmapTop⟩
def setBrk (brk : Nat) : MemState := ⟨m.vmas, m.brkStart, brk, m.mmapTop⟩
def setMmapTop (top : Nat) : MemState := ⟨m.vmas, m.brkStart, m.brk, top⟩
def push (v : Vma) : MemState := m.setVmas (m.vmas ++ [v])
def empty : MemState := ⟨[], 0, 0, USER_MMAP_BASE⟩
def findVma (addr : Nat) : Option Vma := m.vmas.find? fun v => v.contains addr

/-- no region overlaps `[start, stop)` -/
def rangeIsFree (start stop : Nat) : Prop := ∀ v ∈ m.vmas, v.stop ≤ start ∨ v.start ≥ stop

instance (start stop : Nat) : Decidable (m.rangeIsFree start stop) :=
  inferInstanceAs (Decidable (∀ v ∈ _, _))

def setVmaProt (start stop : Nat) (prot : Bits) : MemState :=
  m.setVmas (m.vmas.map fun v =>
    if v.meets start stop then ⟨v.start, v.stop, prot, v.flags, v.file⟩ else v)

def removeVmaRange (start stop : Nat) : Locked σ MemState :=
  removeFrom start stop m.vmas >>= fun out => Pure.pure (m.setVmas out)

def remove (start stop : Nat) : MemState := m.setVmas (m.vmas.flatMap (·.without start stop))

end MemState

lemma MemState.contains_of_findVma {addr : Nat} (h : m.findVma addr = some v) :
    v.contains addr := by
  have hv := find?_some h
  exact of_decide_eq_true hv

/-! ## what a removal does, and when it stops -/

variable {stop candidate len : Nat}

lemma Vma.withoutOk_fits (h : v.TailFits start stop) :
    (v.withoutOk start stop : Locked σ _) = Pure.pure (v.without start stop) := by
  rw [withoutOk, without]
  by_cases hout : v.stop ≤ start ∨ v.start ≥ stop
  · rw [if_pos hout, if_pos hout]
  · rw [if_neg hout, if_neg hout]
    by_cases htail : v.stop > stop
    · have hstart : v.start ≤ stop := by omega
      have hmeets : v.meets start stop := ⟨by omega, by omega⟩
      rw [if_pos htail, if_pos htail, tailOk]
      cases hf : v.file with
      | none => rfl
      | some f =>
        dsimp only
        rw [subOk_bind hstart, addOk_bind (h hmeets htail f hf)]
        rfl
    · rw [if_neg htail, if_neg htail]
      rfl

lemma Vma.withoutOk_stops (h : ¬ v.TailFits start stop) :
    (v.withoutOk start stop : Locked σ _) = Call.stop := by
  simp only [TailFits, not_forall] at h
  obtain ⟨hmeets, htail, f, hf, hlarge⟩ := h
  have hin : ¬ (v.stop ≤ start ∨ v.start ≥ stop) := by
    have hlo := hmeets.1
    have hhi := hmeets.2
    omega
  rw [withoutOk, if_neg hin, if_pos htail, tailOk, hf]
  dsimp only
  rw [subOk_bind (Nat.le_of_lt hmeets.1), addOk_overflow hlarge]
  rfl

lemma removeFrom_fits (h : ∀ v ∈ vmas, v.TailFits start stop) :
    (removeFrom start stop vmas : Locked σ _) =
      Pure.pure (vmas.flatMap (·.without start stop)) := by
  induction vmas with
  | nil => rfl
  | cons v vmas ih =>
    rw [removeFrom, Vma.withoutOk_fits (h v (mem_cons_self ..)), Call.pure_bind,
      ih fun u hu => h u (mem_cons_of_mem _ hu), Call.pure_bind, flatMap_cons]

lemma removeFrom_stops {start : Nat} {vmas : List Vma} (h : ¬ ∀ v ∈ vmas, v.TailFits start stop) :
    (removeFrom start stop vmas : Locked σ _) = Call.stop := by
  induction vmas with
  | nil => exact absurd (fun v hv => absurd hv not_mem_nil) h
  | cons v vmas ih =>
    rw [removeFrom]
    by_cases hv : v.TailFits start stop
    · rw [Vma.withoutOk_fits hv, Call.pure_bind, ih fun h' => h (forall_mem_cons.mpr ⟨hv, h'⟩)]
      rfl
    · rw [Vma.withoutOk_stops hv]
      rfl

lemma MemState.removeVmaRange_fits (h : ∀ v ∈ m.vmas, v.TailFits start stop) :
    (m.removeVmaRange start stop : Locked σ _) = Pure.pure (m.remove start stop) := by
  rw [removeVmaRange, removeFrom_fits h]
  rfl

lemma MemState.removeVmaRange_stops {m : MemState} {start : Nat}
    (h : ¬ ∀ v ∈ m.vmas, v.TailFits start stop) :
    (m.removeVmaRange start stop : Locked σ _) = Call.stop := by
  rw [removeVmaRange, removeFrom_stops h]
  rfl

/-! ## placing a span -/

lemma countP_above_lt {low : Nat} (hmem : v ∈ vmas) (hlow : low < v.stop) :
    (vmas.countP fun u => v.stop < u.stop) < vmas.countP fun u => low < u.stop := by
  obtain ⟨before, after, rfl⟩ := append_of_mem hmem
  have hmono : ∀ l : List Vma,
      (l.countP fun u => v.stop < u.stop) ≤ l.countP fun u => low < u.stop := by
    intro l
    refine countP_mono_left fun u _ hu => ?_
    simp only [decide_eq_true_eq] at hu ⊢
    omega
  have hbefore := hmono before
  have hafter := hmono after
  rw [countP_append, countP_append, countP_cons_of_neg (by simp),
    countP_cons_of_pos (by simpa using hlow)]
  omega

lemma meets_of_find (h : vmas.find? (fun v => v.meets start stop) = some v) :
    v ∈ vmas ∧ v.meets start stop := by
  have hv := find?_some h
  exact ⟨mem_of_find?_eq_some h, of_decide_eq_true hv⟩

lemma free_of_find (h : vmas.find? (fun v => v.meets start stop) = none) :
    ∀ v ∈ vmas, v.stop ≤ start ∨ v.start ≥ stop := by
  intro v hv
  have hout := of_decide_eq_false (Bool.eq_false_iff.mpr (find?_eq_none.mp h v hv))
  simp only [Vma.meets] at hout
  omega

def findFrom (vmas : List Vma) (len candidate : Nat) : Locked σ Nat :=
  addOk candidate len >>= fun _ =>
    match _h : vmas.find? fun v => v.meets candidate (candidate + len) with
    | some v => findFrom vmas len v.stop
    | none => Pure.pure candidate
termination_by vmas.countP fun v => candidate < v.stop
decreasing_by
  -- the region in the way ends above the candidate and not above its own end
  exact countP_above_lt (meets_of_find _h).1 (meets_of_find _h).2.2

def MemState.findFreeRegion (m : MemState) (len : Nat) : Locked σ (Nat × MemState) :=
  alignUpOk len >>= fun len =>
    findFrom m.vmas len m.mmapTop >>= fun base => Pure.pure (base, m.setMmapTop (base + len))

lemma findFrom_next (hfits : candidate + len < WORD) :
    (∃ v ∈ vmas, v.meets candidate (candidate + len) ∧
      (findFrom vmas len candidate : Locked σ _) = findFrom vmas len v.stop) ∨
    (∀ v ∈ vmas, v.stop ≤ candidate ∨ v.start ≥ candidate + len) ∧
      (findFrom vmas len candidate : Locked σ _) = Pure.pure candidate := by
  rw [findFrom, addOk_bind hfits]
  split
  · rename_i v h
    exact .inl ⟨v, (meets_of_find h).1, (meets_of_find h).2, rfl⟩
  · rename_i h
    exact .inr ⟨free_of_find h, rfl⟩

lemma findFrom_above (hfits : candidate + len < WORD) (habove : ∀ v ∈ vmas, v.stop ≤ candidate) :
    (findFrom vmas len candidate : Locked σ _) = Pure.pure candidate := by
  rcases findFrom_next (σ := σ) hfits with ⟨v, hv, hmeets, _⟩ | ⟨_, heq⟩
  · exact absurd (habove v hv) (Nat.not_le_of_lt hmeets.2)
  · exact heq

/-- what a search finds: the first span that no region meets -/
structure Found (vmas : List Vma) (len candidate base : Nat) : Prop where
  fits : base + len < WORD
  free : ∀ v ∈ vmas, v.stop ≤ base ∨ v.start ≥ base + len
  above : candidate ≤ base
  at_end : base = candidate ∨ ∃ v ∈ vmas, v.stop = base
  least : ∀ b, candidate ≤ b → (∀ v ∈ vmas, v.stop ≤ b ∨ v.start ≥ b + len) → base ≤ b

lemma findFrom_run (vmas : List Vma) (len candidate : Nat) (s : σ) :
    findFrom vmas len candidate s = (.stopped, s) ∨
      ∃ base, findFrom vmas len candidate s = (.ok base, s) ∧ Found vmas len candidate base := by
  induction hn : (vmas.countP fun v => candidate < v.stop) using Nat.strongRecOn
    generalizing candidate with
  | _ n ih =>
    by_cases hfits : candidate + len < WORD
    · rcases findFrom_next (σ := σ) hfits with ⟨v, hv, ⟨hstart, habove⟩, hnext⟩ | ⟨hfree, hnext⟩
      · rw [hnext]
        rcases ih _ (hn ▸ countP_above_lt hv habove) v.stop rfl with hstop | ⟨base, hrun, hfound⟩
        · exact .inl hstop
        · refine .inr ⟨base, hrun, hfound.fits, hfound.free, ?_, .inr ?_, fun b hb hfree => ?_⟩
          · exact Nat.le_trans (Nat.le_of_lt habove) hfound.above
          · rcases hfound.at_end with rfl | hend
            · exact ⟨v, hv, rfl⟩
            · exact hend
          · exact hfound.least b ((hfree v hv).resolve_right (by omega)) hfree
      · rw [hnext]
        exact .inr ⟨candidate, rfl, hfits, hfree, Nat.le_refl _, .inl rfl, fun _ hb _ => hb⟩
    · rw [findFrom, addOk_overflow hfits]
      exact .inl rfl

lemma findFrom_fits (s : σ) (hcandidate : candidate + len < WORD)
    (hvmas : ∀ v ∈ vmas, v.stop + len < WORD) :
    ∃ base, findFrom vmas len candidate s = (.ok base, s) ∧ Found vmas len candidate base := by
  rcases findFrom_run vmas len candidate s with hstop | hfound
  · exfalso
    induction hn : (vmas.countP fun v => candidate < v.stop) using Nat.strongRecOn
      generalizing candidate with
    | _ n ih =>
      have hturn := @findFrom_next σ vmas _ _ hcandidate
      rcases hturn with ⟨v, hv, ⟨-, habove⟩, hnext⟩ | ⟨-, hnext⟩
      · rw [hnext] at hstop
        exact ih _ (hn ▸ countP_above_lt hv habove) (hvmas v hv) hstop rfl
      · rw [hnext] at hstop
        cases hstop
  · exact hfound

/-! ## a record as it is meant to be -/

/-- both ends on a page, and something in between -/
structure Vma.Whole (v : Vma) : Prop where
  order : v.start < v.stop
  start : PAGE_SIZE ∣ v.start
  stop : PAGE_SIZE ∣ v.stop

def Vma.Apart (v u : Vma) : Prop := v.stop ≤ u.start ∨ u.stop ≤ v.start

/-- regions of whole pages, no two of which overlap -/
structure MemState.Sound (m : MemState) : Prop where
  apart : m.vmas.Pairwise Vma.Apart
  whole : ∀ v ∈ m.vmas, v.Whole
  top : PAGE_SIZE ∣ m.mmapTop

section
variable {v u : Vma} {start stop : Nat}

lemma Vma.mem_without (h : u ∈ v.without start stop) :
    v.start ≤ u.start ∧ u.stop ≤ v.stop ∧ (u.stop ≤ start ∨ stop ≤ u.start) ∧ u.prot = v.prot := by
  rw [without] at h
  split at h
  · obtain rfl := mem_singleton.mp h
    exact ⟨Nat.le_refl _, Nat.le_refl _, by omega, rfl⟩
  · rcases mem_append.mp h with h | h
    · split at h
      · obtain rfl := mem_singleton.mp h
        exact ⟨Nat.le_refl _, by simp only [head]; omega, .inl (Nat.le_refl _), rfl⟩
      · cases h
    · split at h
      · obtain rfl := mem_singleton.mp h
        exact ⟨by simp only [tail]; omega, Nat.le_refl _, .inr (Nat.le_refl _), rfl⟩
      · cases h

lemma Vma.Whole.without (hv : v.Whole) (hstart : PAGE_SIZE ∣ start) (hstop : PAGE_SIZE ∣ stop)
    (h : u ∈ v.without start stop) : u.Whole := by
  rw [Vma.without] at h
  split at h
  · obtain rfl := mem_singleton.mp h
    exact hv
  · rcases mem_append.mp h with h | h
    · split at h
      · obtain rfl := mem_singleton.mp h
        exact ⟨‹_›, hv.start, hstart⟩
      · cases h
    · split at h
      · obtain rfl := mem_singleton.mp h
        exact ⟨‹_›, hstop, hv.stop⟩
      · cases h

lemma Vma.without_apart (v : Vma) (h : start ≤ stop) :
    (v.without start stop).Pairwise Vma.Apart := by
  rw [without]
  split
  · exact pairwise_singleton _ _
  · split
    · split
      · exact pairwise_pair.mpr (.inl h)
      · exact pairwise_singleton _ _
    · split
      · exact pairwise_singleton _ _
      · exact List.Pairwise.nil

lemma Vma.Apart.without {v' u' : Vma} (h : v.Apart u) (hv : v' ∈ v.without start stop)
    (hu : u' ∈ u.without start stop) : v'.Apart u' := by
  obtain ⟨hv, hv', -⟩ := Vma.mem_without hv
  obtain ⟨hu, hu', -⟩ := Vma.mem_without hu
  simp only [Apart] at *
  omega

end

instance : Std.Symm Vma.Apart := ⟨fun _ _ => Or.symm⟩

namespace MemState.Sound
variable {m : MemState}

section
variable (S : m.Sound)
include S

lemma eq_of_start {u : Vma} (hv : v ∈ m.vmas) (hu : u ∈ m.vmas) (h : v.start = u.start) :
    v = u := by
  by_contra hne
  have happart : v.Apart u := S.apart.forall hv hu hne
  have hv := (S.whole v hv).order
  have hu := (S.whole u hu).order
  simp only [Vma.Apart] at happart
  omega

lemma remove (hle : start ≤ stop) (hstart : PAGE_SIZE ∣ start) (hstop : PAGE_SIZE ∣ stop) :
    (m.remove start stop).Sound where
  apart := by
    refine pairwise_flatMap.mpr ⟨fun v _ => v.without_apart hle, ?_⟩
    exact S.apart.imp fun hvu _ hv' _ hu' => Vma.Apart.without hvu hv' hu'
  whole := by
    intro u hu
    obtain ⟨v, hv, hu⟩ := mem_flatMap.mp hu
    exact (S.whole v hv).without hstart hstop hu
  top := S.top

lemma push (hwhole : v.Whole) (hfree : m.rangeIsFree v.start v.stop) : (m.push v).Sound where
  apart := by
    refine pairwise_append.mpr ⟨S.apart, pairwise_singleton _ _, fun u hu v' hv' => ?_⟩
    obtain rfl := mem_singleton.mp hv'
    exact hfree u hu
  whole := by
    intro u hu
    rcases mem_append.mp hu with hu | hu
    · exact S.whole u hu
    · obtain rfl := mem_singleton.mp hu
      exact hwhole
  top := S.top

lemma setMmapTop {top : Nat} (htop : PAGE_SIZE ∣ top) : (m.setMmapTop top).Sound :=
  ⟨S.apart, S.whole, htop⟩

lemma setBrk (brk : Nat) : (m.setBrk brk).Sound := ⟨S.apart, S.whole, S.top⟩

lemma setVmaProt (start stop : Nat) (prot : Bits) : (m.setVmaProt start stop prot).Sound where
  apart := by
    refine pairwise_map.mpr (S.apart.imp fun {v u} h => ?_)
    split <;> split <;> exact h
  whole := by
    intro u hu
    obtain ⟨v, hv, rfl⟩ := mem_map.mp hu
    split
    · exact ⟨(S.whole v hv).order, (S.whole v hv).start, (S.whole v hv).stop⟩
    · exact S.whole v hv
  top := S.top

end
end MemState.Sound

lemma MemState.empty_sound : MemState.empty.Sound where
  apart := List.Pairwise.nil
  whole _ h := absurd h not_mem_nil
  top := by decide

end ClaudeOs.Mem
