import ClaudeOs.Mem.Regions

/-!
# A range protected, and a range removed

What `set_vma_prot` and `remove_vma_range` leave for `plan` to find at each page.  A removal cuts a
region where the range does, and every page that is left keeps its part of the file.  A change of
protection does not cut: a region that the range meets has the new one from end to end.

* `Vma.answer`, `plan_eq`  what a region says of a page, and a plan as one such answer;
* `Vma.answer_without`  the pieces of a region answer as it did;
* `removal_keeps_iff`  a removal, where the offsets of the pieces are words;
* `protects_iff`  a change of protection, where nothing sticks out of the range.
-/

namespace ClaudeOs.Mem
open Mm Call Option Nat List
variable {M : Machine} {s s' : AddressSpace} {v : Vma} {start stop page : Nat} {p : Plan}

/-- where a region takes a page from; nothing where the position in the file is not a word -/
def Vma.source (v : Vma) (page : Nat) : Option Source :=
  match v.file with
  | none => some .zero
  | some f =>
    if page - v.start ≥ f.length then some .zero
    else if f.offset + (page - v.start) < WORD then
      some (.file f.node (f.offset + (page - v.start)) (min (f.length - (page - v.start)) PAGE_SIZE))
    else none

def Vma.answer (M : Machine) (page : Nat) (v : Vma) : Locked AddressSpace (Option Plan) :=
  (v.source page).elim Call.stop fun source => Pure.pure (some ⟨v.pageFlags M, source⟩)

/-- outside the heap, a plan is the answer of the first region that covers the page -/
lemma plan_eq (h : ¬ s.inHeap page) :
    plan M s page = ((s.mem.findVma page).map (·.answer M page)).getD (Pure.pure none) := by
  rw [plan, if_neg h]
  cases hv : s.mem.findVma page with
  | none => rfl
  | some v =>
    have hstart := (MemState.contains_of_findVma hv).1
    simp only [map_some, getD_some, Vma.answer, Vma.source]
    cases hf : v.file with
    | none => rfl
    | some f =>
      dsimp only
      rw [subOk_bind hstart]
      by_cases hpast : page - v.start ≥ f.length
      · rw [if_pos hpast, if_pos hpast]
        rfl
      · rw [if_neg hpast, if_neg hpast]
        by_cases hfits : f.offset + (page - v.start) < WORD
        · rw [addOk_bind hfits, if_pos hfits]
          rfl
        · rw [addOk_overflow hfits, if_neg hfits]
          rfl

lemma plan_congr (hstart : s'.mem.brkStart = s.mem.brkStart) (hbrk : s'.mem.brk = s.mem.brk)
    (h : ¬ s.inHeap page → (s'.mem.findVma page).map (·.answer M page) =
      (s.mem.findVma page).map (·.answer M page)) : plan M s' page = plan M s page := by
  have hsame : s'.inHeap page ↔ s.inHeap page := by rw [AddressSpace.inHeap, hstart, hbrk]; rfl
  by_cases hheap : s.inHeap page
  · rw [plan, plan, if_pos hheap, if_pos (hsame.mpr hheap)]
  · rw [plan_eq hheap, plan_eq fun h => hheap (hsame.mp h), h hheap]

/-! ## a removal -/

section
variable (hstart : PAGE_SIZE ∣ start) (hpage : PAGE_SIZE ∣ page)
include hstart hpage

/-- a page before the cut is a whole page of the head, however much of it the file fills -/
lemma Vma.answer_head (hlow : v.start ≤ page) (h : page < start) :
    (v.head start).answer M page = v.answer M page := by
  have hroom : page + PAGE_SIZE ≤ start := by
    simp only [PAGE_SIZE] at *
    omega
  simp only [answer, source, head, pageFlags]
  cases v.file with
  | none => rfl
  | some f =>
    have hpast : page - v.start ≥ min f.length (start - v.start) ↔ page - v.start ≥ f.length := by
      omega
    have hwant : min (min f.length (start - v.start) - (page - v.start)) PAGE_SIZE =
        min (f.length - (page - v.start)) PAGE_SIZE := by omega
    simp only [map_some, hpast, hwant]

omit hstart hpage in
lemma Vma.answer_tail (hlow : v.start ≤ stop) (h : stop ≤ page) :
    (v.tail stop).answer M page = v.answer M page := by
  simp only [answer, source, tail, pageFlags]
  cases v.file with
  | none => rfl
  | some f =>
    have hpast : page - stop ≥ f.length - (stop - v.start) ↔ page - v.start ≥ f.length := by omega
    have hoffset : f.offset + (stop - v.start) + (page - stop) = f.offset + (page - v.start) := by
      omega
    have hwant : f.length - (stop - v.start) - (page - stop) = f.length - (page - v.start) := by
      omega
    simp only [map_some, hpast, hoffset, hwant]

omit hstart hpage in
lemma find?_part {c : Prop} [Decidable c] (u : Vma) :
    ((if c then [u] else []).find? fun u => u.contains page) =
      if c ∧ u.contains page then some u else none := by
  by_cases hc : c <;> by_cases hu : u.contains page <;> simp [hc, hu]

/-- outside the range, the pieces of a region cover what it did and answer as it did -/
lemma Vma.answer_without (v : Vma) (hout : ¬ (start ≤ page ∧ page < stop)) :
    ((v.without start stop).find? fun u => u.contains page).map (·.answer M page) =
      if v.contains page then some (v.answer M page) else none := by
  rw [without]
  by_cases haway : v.stop ≤ start ∨ v.start ≥ stop
  · rw [if_pos haway]
    by_cases hv : v.contains page <;> simp [hv]
  · simp only [not_or, not_le, ge_iff_le] at haway
    rw [if_neg (by omega), find?_append, find?_part, find?_part]
    by_cases hv : v.contains page
    · have hlow := hv.1
      have hhigh := hv.2
      by_cases hbefore : page < start
      · rw [if_pos ⟨lt_of_le_of_lt hlow hbefore, hlow, hbefore⟩, if_pos hv, some_or,
          map_some, answer_head hstart hpage hlow hbefore]
      · have hpast : stop ≤ page := by omega
        rw [if_neg fun h => hbefore h.2.2, if_pos ⟨lt_of_le_of_lt hpast hhigh, hpast, hhigh⟩,
          if_pos hv, none_or, map_some, answer_tail (le_of_lt haway.2) hpast]
    · rw [if_neg fun h => hv ⟨h.2.1, lt_trans h.2.2 haway.1⟩,
        if_neg fun h => hv ⟨le_trans (le_of_lt haway.2) h.2.1, h.2.2⟩, if_neg hv]
      rfl

lemma answer_remove (vmas : List Vma) (hout : ¬ (start ≤ page ∧ page < stop)) :
    ((vmas.flatMap (·.without start stop)).find? fun u => u.contains page).map (·.answer M page) =
      (vmas.find? fun v => v.contains page).map (·.answer M page) := by
  induction vmas with
  | nil => rfl
  | cons v vmas ih =>
    rw [flatMap_cons, find?_append, map_or, v.answer_without hstart hpage hout, ih, find?_cons]
    by_cases hv : v.contains page <;> simp [hv]

end

/-- the record without a range, and every other page as it was -/
structure Removes (M : Machine) (s s' : AddressSpace) (start stop : Nat) : Prop where
  clear : ∀ v ∈ s'.mem.vmas, ∀ address, v.contains address → ¬ (start ≤ address ∧ address < stop)
  same : ∀ page, PAGE_SIZE ∣ page → ¬ (start ≤ page ∧ page < stop) → plan M s' page = plan M s page

/-- **a removal takes out the range and nothing else**, just when the file offsets it adds up are
words -/
theorem removal_keeps_iff (M : Machine) (s : AddressSpace) {start : Nat} (hstart : PAGE_SIZE ∣ start)
    (stop : Nat) : (∃ mem, s.mem.removeVmaRange start stop s = (.ok mem, s) ∧
        Removes M s (s.setMem mem) start stop) ↔ ∀ v ∈ s.mem.vmas, v.TailFits start stop := by
  constructor
  · rintro ⟨mem, hrun, -⟩
    by_contra hfits
    rw [MemState.removeVmaRange_stops hfits] at hrun
    cases hrun
  · intro hfits
    refine ⟨s.mem.remove start stop, by rw [MemState.removeVmaRange_fits hfits]; rfl, ?_, ?_⟩
    · intro u hu address hin hrange
      obtain ⟨v, hv, hu⟩ := mem_flatMap.mp hu
      obtain ⟨-, -, haway, -⟩ := Vma.mem_without hu
      simp only [Vma.contains] at hin
      omega
    · intro page hpage hout
      exact plan_congr rfl rfl fun _ => answer_remove hstart hpage s.mem.vmas hout

def filePages : Vma :=
  ⟨USER_MMAP_BASE, USER_MMAP_BASE + 0x3000, 1, 2, some ⟨0, 0x1000, 0x3000⟩⟩

def filePagesSpace : AddressSpace := ⟨⟨[filePages], 0, 0, USER_MMAP_BASE⟩, fun _ => none⟩

/-- the middle page of a mapped file is taken out, and both others stay what they were -/
theorem removal_keeps_filePages : ∃ mem, filePagesSpace.mem.removeVmaRange (USER_MMAP_BASE + 0x1000)
    (USER_MMAP_BASE + 0x2000) filePagesSpace = (.ok mem, filePagesSpace) ∧
      Removes x8664 filePagesSpace (filePagesSpace.setMem mem) (USER_MMAP_BASE + 0x1000)
        (USER_MMAP_BASE + 0x2000) := by
  refine (removal_keeps_iff x8664 filePagesSpace (by decide) _).mpr fun v hv _ _ f hf => ?_
  obtain rfl := mem_singleton.mp hv
  cases hf
  decide

def lastBytes : Vma :=
  ⟨USER_MMAP_BASE, USER_MMAP_BASE + 0x3000, 1, 2, some ⟨0, 0xFFFFFFFFFFFFF000, 0x3000⟩⟩

def lastBytesSpace : AddressSpace := ⟨⟨[lastBytes], 0, 0, USER_MMAP_BASE⟩, fun _ => none⟩

/-- the middle page of it cannot be taken out: the offset of the last page is added up unchecked -/
theorem removal_stops : lastBytesSpace.mem.removeVmaRange (USER_MMAP_BASE + 0x1000)
    (USER_MMAP_BASE + 0x2000) lastBytesSpace = (.stopped, lastBytesSpace) := by
  rw [MemState.removeVmaRange_stops fun h => ?_]
  · rfl
  · exact absurd (h lastBytes (mem_singleton_self _) (by decide) (by decide) _ rfl) (by decide)

/-! ## a change of protection -/

/-- the pages of a range with a new protection, and every other address as it was -/
structure Protects (M : Machine) (s s' : AddressSpace) (start stop : Nat) (prot : Bits) : Prop where
  changed : ∀ v ∈ s'.mem.vmas, ∀ address, v.contains address → start ≤ address → address < stop →
    v.pageFlags M = protToFlags M prot
  same : ∀ page, ¬ (start ≤ page ∧ page < stop) → plan M s' page = plan M s page

lemma Vma.answer_flags (h : (v.answer M page s).1 = .ok (some p)) : p.flags = v.pageFlags M := by
  rw [answer] at h
  cases hsource : v.source page with
  | none =>
    rw [hsource] at h
    cases h
  | some source =>
    rw [hsource] at h
    cases h
    rfl

section
variable {prot : Bits}

def Vma.protect (start stop : Nat) (prot : Bits) (v : Vma) : Vma :=
  if v.meets start stop then ⟨v.start, v.stop, prot, v.flags, v.file⟩ else v

lemma Vma.contains_protect : (v.protect start stop prot).contains page ↔ v.contains page := by
  rw [protect]
  split <;> rfl

lemma findVma_setVmaProt (m : MemState) : (m.setVmaProt start stop prot).findVma page =
      (m.findVma page).map (·.protect start stop prot) := by
  show (m.vmas.map (·.protect start stop prot)).find? (fun v => v.contains page) = _
  rw [find?_map]
  simp only [Function.comp_def, Vma.contains_protect]
  rfl

lemma Vma.pageFlags_protect (h : v.meets start stop) :
    (v.protect start stop prot).pageFlags M = protToFlags M prot := by
  rw [protect, if_pos h]
  rfl

lemma Vma.answer_protect (h : v.meets start stop)
    (hflags : ∀ p, (v.answer M page s).1 = .ok (some p) → p.flags = protToFlags M prot) :
    (v.protect start stop prot).answer M page = v.answer M page := by
  have hsame : (v.protect start stop prot).source page = v.source page := by
    rw [protect, if_pos h]
    rfl
  rw [answer, hsame, pageFlags_protect h, answer]
  cases hsource : v.source page with
  | none => rfl
  | some source =>
    have heq := hflags ⟨v.pageFlags M, source⟩ (by rw [answer, hsource]; rfl)
    rw [← heq]

/-- what sticks out of the range, of the regions that it meets, has the flags already -/
def Contained (M : Machine) (s : AddressSpace) (start stop : Nat) (prot : Bits) : Prop :=
  ∀ page v p, ¬ (start ≤ page ∧ page < stop) → ¬ s.inHeap page → s.mem.findVma page = some v →
    v.meets start stop → (plan M s page s).1 = .ok (some p) → p.flags = protToFlags M prot

lemma setVmaProt_protects_iff :
    Protects M s (s.setMem (s.mem.setVmaProt start stop prot)) start stop prot ↔
      Contained M s start stop prot := by
  have hfind page : (s.mem.setVmaProt start stop prot).findVma page =
      (s.mem.findVma page).map (·.protect start stop prot) := findVma_setVmaProt s.mem
  constructor
  · intro h page v p hout hheap hv hmeets hplan
    have hheap' : ¬ (s.setMem (s.mem.setVmaProt start stop prot)).inHeap page := hheap
    rw [← h.same page hout, plan_eq hheap', AddressSpace.setMem, hfind, hv] at hplan
    exact (Vma.answer_flags hplan).trans (Vma.pageFlags_protect hmeets)
  · intro h
    refine ⟨fun u hu address hin hlow hhigh => ?_, fun page hout => ?_⟩
    · obtain ⟨v, -, rfl⟩ := mem_map.mp hu
      have hv : v.contains address := Vma.contains_protect.mp hin
      exact Vma.pageFlags_protect ⟨lt_of_le_of_lt hv.1 hhigh, lt_of_le_of_lt hlow hv.2⟩
    · refine plan_congr rfl rfl fun hheap => ?_
      rw [AddressSpace.setMem, hfind]
      cases hv : s.mem.findVma page with
      | none => rfl
      | some v =>
        rw [map_some, map_some, map_some]
        by_cases hmeets : v.meets start stop
        · rw [Vma.answer_protect (s := s) hmeets fun p hp => h page v p hout hheap hv hmeets ?_]
          rw [plan_eq hheap, hv]
          exact hp
        · rw [Vma.protect, if_neg hmeets]

lemma mprotect_run {addr length : Nat} (haddr : addr % PAGE_SIZE = 0)
    (huser : inUserSpace addr length) : mprotect M addr length prot s =
      (.ok [.retag addr (pageAlignUp (addr + length)) (protToFlags M prot)],
        s.setMem (s.mem.setVmaProt addr (pageAlignUp (addr + length)) prot)) := by
  have hdown : pageAlignDown addr = addr := by
    simp only [pageAlignDown, PAGE_SIZE] at *
    omega
  rw [mprotect, if_neg (not_or.mpr ⟨not_not.mpr haddr, not_not.mpr huser⟩),
    addOk_bind (lt_word_of_user huser.le), alignUpOk_bind (user_add_page huser.le), hdown]
  rfl

end

/-- **`mprotect` changes what is recorded of its range and of nothing else**, just when no region
sticks out of the range with other flags than the new ones -/
theorem protects_iff (M : Machine) (s : AddressSpace) {addr length : Nat}
    (haddr : addr % PAGE_SIZE = 0) (huser : inUserSpace addr length) (prot : Bits) :
    (∃ nexts s', mprotect M addr length prot s = (.ok nexts, s') ∧
        Protects M s s' addr (pageAlignUp (addr + length)) prot) ↔
      Contained M s addr (pageAlignUp (addr + length)) prot := by
  rw [mprotect_run haddr huser, ← setVmaProt_protects_iff]
  refine ⟨?_, fun h => ⟨_, _, rfl, h⟩⟩
  rintro ⟨nexts, s', heq, h⟩
  cases heq
  exact h

/-- the whole region is made read-only -/
theorem protects_twoPages : ∃ nexts s',
    mprotect x8664 USER_MMAP_BASE 0x2000 1 twoPagesSpace = (.ok nexts, s') ∧
      Protects x8664 twoPagesSpace s' USER_MMAP_BASE (USER_MMAP_BASE + 0x2000) 1 := by
  refine (protects_iff x8664 twoPagesSpace (by decide) (by decide) 1).mpr
    fun page v p hout _ hv _ _ => ?_
  obtain rfl := mem_singleton.mp (mem_of_find?_eq_some hv)
  exact absurd (MemState.contains_of_findVma hv) hout

/-- one page of two is made read-only, and the record has the other read-only too -/
theorem protects_other_page : ¬ ∃ nexts s',
    mprotect x8664 USER_MMAP_BASE 0x1000 1 twoPagesSpace = (.ok nexts, s') ∧
      Protects x8664 twoPagesSpace s' USER_MMAP_BASE (USER_MMAP_BASE + 0x1000) 1 := by
  rintro ⟨nexts, s', heq, h⟩
  rw [mprotect_run (by decide) (by decide)] at heq
  cases heq
  have hflags := setVmaProt_protects_iff.mp h (USER_MMAP_BASE + 0x1000) twoPages
    ⟨twoPages.pageFlags x8664, .zero⟩ (by decide) (by decide) (by decide) (by decide) rfl
  revert hflags
  decide

end ClaudeOs.Mem
