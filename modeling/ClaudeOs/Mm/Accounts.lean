import ClaudeOs.Mm.Ledger

/-!
# Runs of calls over several address spaces

What callers can do to any number of hierarchies over one frame allocator, and that every run of it
keeps the books.  The ledger is the world, the tops of the hierarchies, and the references that
callers hold and have put nowhere.

* `Op`  what a caller can do, `Op.run` what comes of it;
* `Op.Allowed`  the caller holds what it passes;
* `Op.Meets`  the condition: a count that can take one more, flags of a page that is there, a limit
  of whole top-level descriptors;
* `frames_accounted`  every run of such calls.
-/

namespace ClaudeOs.Mm
open Radix Tables List
variable {M : Machine}

/-- the world, the hierarchies in it, and the references callers hold besides -/
structure Ledger where
  w : World
  roots : List Phys
  held : List Phys

inductive Op where
  | alloc (phys : Phys) (words : Fin ENTRIES → Bits)
  | release (phys : Phys)
  | share (phys : Phys)
  | fill (phys : Phys) (words : Fin ENTRIES → Bits)
  | create (root : Phys)
  | discard (root : Phys)
  | publish (root : Phys) (virt : Nat) (phys : Phys) (flags : Bits) (stock : TableStock) (tlb : Tlb)
  | replace (root : Phys) (virt : Nat) (phys : Phys) (flags : Bits) (tlb : Tlb)
  | protect (root : Phys) (virt : Nat) (flags : Bits) (tlb : Tlb)
  | unmap (root : Phys) (virt : Nat) (tlb : Tlb) (reclaimed : TableStock)
  | shareFrom (child parent : Phys) (virt : Nat) (stock : TableStock) (tlb : Tlb)
  | shareRange (child parent : Phys) (start count : Nat) (stock : TableStock) (tlb : Tlb)
  | breakCow (root : Phys) (addr : Nat) (spare : Option Phys)
  | freeBelow (root : Phys) (limit : Nat)

namespace Op

/-- the ledger after a call; a reference the call did not keep is the caller's again -/
def run (M : Machine) (s : Ledger) : Op → Ledger
  | alloc phys words => ⟨(s.w.alloc phys).fill phys words, s.roots, phys :: s.held⟩
  | release phys => ⟨s.w.free phys, s.roots, s.held.erase phys⟩
  | share phys => ⟨s.w.share phys, s.roots, phys :: s.held⟩
  | fill phys words => ⟨s.w.fill phys words, s.roots, s.held⟩
  | create root => ⟨s.w, root :: s.roots, s.held.erase root⟩
  | discard root => ⟨s.w, s.roots.erase root, root :: s.held⟩
  | publish root virt phys flags stock tlb =>
    let rest := s.held.diff (phys :: stock.frames)
    match Tables.publish M s.w root virt phys flags stock tlb with
    | (w, stock, _, .ok ()) => ⟨w, s.roots, stock.frames ++ rest⟩
    | (w, stock, _, .error _) => ⟨w, s.roots, phys :: (stock.frames ++ rest)⟩
  | replace root virt phys flags tlb =>
    match Tables.replace M s.w root virt phys flags tlb with
    | (w, _, some old) => ⟨w, s.roots, old :: s.held.erase phys⟩
    | (w, _, none) => ⟨w, s.roots, s.held⟩
  | protect root virt flags tlb => ⟨(Tables.protect M s.w root virt flags tlb).1, s.roots, s.held⟩
  | unmap root virt tlb reclaimed =>
    let rest := s.held.diff reclaimed.frames
    match Tables.unmap M s.w root virt tlb reclaimed with
    | (w, _, reclaimed, old) => ⟨w, s.roots, old.toList ++ (reclaimed.frames ++ rest)⟩
  | shareFrom child parent virt stock tlb =>
    let rest := s.held.diff stock.frames
    match Tables.shareFrom M s.w child parent virt stock tlb with
    | (w, stock, _, _) => ⟨w, s.roots, stock.frames ++ rest⟩
  | shareRange child parent start count stock tlb =>
    let rest := s.held.diff stock.frames
    match Tables.shareRange M child parent start count s.w stock tlb with
    | (w, stock, _, _) => ⟨w, s.roots, stock.frames ++ rest⟩
  | breakCow root addr spare =>
    ⟨(Mm.breakCow M s.w root addr spare).1, s.roots, s.held.diff spare.toList⟩
  | freeBelow root limit => ⟨Tables.freeBelow M s.w root limit, s.roots, s.held⟩

/-- the caller names hierarchies that are there, and holds what it passes -/
def Allowed (M : Machine) (s : Ledger) : Op → Prop
  | alloc phys _ => s.w.refs phys = 0 ∧ M.Frame phys
  | release phys => phys ∈ s.held
  | share phys => 0 < s.w.refs phys ∧ ¬ IsTable M s.w.mem s.roots phys
  | fill phys _ => ¬ IsTable M s.w.mem s.roots phys
  | create root => root ∈ s.held ∧ s.w.refs root = 1 ∧ Zeroed s.w.mem root
  | discard root => root ∈ s.roots ∧ ∀ j, M.present (s.w.mem root j) = false
  | publish root _ phys _ stock _ =>
    root ∈ s.roots ∧ (phys :: stock.frames).Subperm s.held ∧ Fresh s.w stock
  | replace root _ phys _ _ => root ∈ s.roots ∧ phys ∈ s.held
  | protect root _ _ _ => root ∈ s.roots
  | unmap root _ _ reclaimed => root ∈ s.roots ∧ reclaimed.frames.Subperm s.held
  | shareFrom child parent _ stock _ =>
    child ∈ s.roots ∧ parent ∈ s.roots ∧ stock.frames.Subperm s.held ∧ Fresh s.w stock
  | shareRange child parent _ _ stock _ =>
    child ∈ s.roots ∧ parent ∈ s.roots ∧ stock.frames.Subperm s.held ∧ Fresh s.w stock
  | breakCow root _ spare => root ∈ s.roots ∧ spare.toList.Subperm s.held
  | freeBelow root _ => root ∈ s.roots

/-- flags of a page that is there, a count with room, and a limit at whole descriptors -/
def Meets (M : Machine) (s : Ledger) : Op → Prop
  | share phys => s.w.refs phys < MAX_REFERENCES
  | publish _ _ _ flags _ _ => has flags M.presentBit
  | replace _ _ _ flags _ => has flags M.presentBit
  | protect _ _ flags _ => has flags M.presentBit
  | shareFrom _ parent virt _ _ => Room M s.w parent virt
  | shareRange child parent start count stock tlb =>
    RangeRoom M child parent start count s.w stock tlb
  | freeBelow _ limit => Even limit
  | _ => True

end Op

namespace Ledger

def Books (M : Machine) (s : Ledger) : Prop := Balanced M s.roots s.w s.held

/-- before the first hierarchy: the references there are, callers hold -/
def Start (M : Machine) (s : Ledger) : Prop :=
  s.roots = [] ∧ (∀ f, s.w.refs f = s.held.count f) ∧ ∀ f, 0 < s.w.refs f → M.Frame f

/-- what a run of calls, each allowed and meeting the condition, can lead to -/
inductive Reached (M : Machine) : Ledger → Prop
  | start {s : Ledger} (h : s.Start M) : Reached M s
  | call {s : Ledger} (op : Op) (before : Reached M s) (allowed : op.Allowed M s)
      (meets : op.Meets M s) : Reached M (op.run M s)

end Ledger

/-! ## one call -/

lemma perm_diff {taken held : List Phys} (h : taken.Subperm held) :
    held.Perm (taken ++ held.diff taken) :=
  (subperm_append_diff_self_of_count_le fun x _ => h.count_le x).symm

lemma unmap_none {w w' : World} {root : Phys} {virt : Nat} {tlb tlb' : Tlb}
    {reclaimed reclaimed' : TableStock}
    (h : Tables.unmap M w root virt tlb reclaimed = (w', tlb', reclaimed', none)) :
    w' = w ∧ reclaimed' = reclaimed := by
  rw [Tables.unmap] at h
  rcases rewrite_cases w root virt (fun _ => 0) tlb with ⟨-, hrun⟩ | ⟨t, -, -, -, hrun⟩
  · rw [hrun] at h
    cases h
    exact ⟨rfl, rfl⟩
  · rw [hrun] at h
    cases h

section
variable {roots roots' rest loose : List Phys} {root : Phys} {w : World}

lemma Balanced.perm_roots (B : Balanced M roots w loose) (h : roots.Perm roots') :
    Balanced M roots' w loose := by
  have htables (f : Phys) : tablesAll M w.mem roots f = tablesAll M w.mem roots' f :=
    (h.map fun r => tableCount M.format w.mem DEPTH r f).sum_eq
  have hleaves (f : Phys) : leavesAll M w.mem roots f = leavesAll M w.mem roots' f :=
    (h.map (total M.format w.mem (fun _ => 0) (names M f) DEPTH)).sum_eq
  exact {
    separate := fun f => by
      rw [← htables]
      exact B.separate f
    hierarchy := fun r hr => B.hierarchy r (h.mem_iff.mpr hr)
    counts := fun f => by
      rw [← htables, ← hleaves]
      exact B.counts f
    alone := fun f hf => by
      rw [← htables] at hf
      exact B.alone f hf
    frame := B.frame }

lemma tablesAll_empty (hempty : ∀ j, M.present (w.mem root j) = false) (f : Phys) :
    tablesAll M w.mem (root :: roots) f = (if root = f then 1 else 0) + tablesAll M w.mem roots f := by
  rw [tablesAll, forestCount_cons, tableCount_barren M.format fun _ j => M.child_absent (hempty j)]
  rfl

lemma leavesAll_empty (hempty : ∀ j, M.present (w.mem root j) = false) (f : Phys) :
    leavesAll M w.mem (root :: roots) f = leavesAll M w.mem roots f := by
  have hnone : total M.format w.mem (fun _ => 0) (names M f) DEPTH root = 0 :=
    total_barren M.format (fun _ j => M.child_absent (hempty j))
      (fun j => names_absent (hempty j)) DEPTH
  rw [leavesAll, forest, map_cons, sum_cons, hnone, Nat.zero_add]
  rfl

lemma Balanced.create (L : M.Lawful) (B : Balanced M roots w (root :: rest))
    (hone : w.refs root = 1) (hzero : Zeroed w.mem root) : Balanced M (root :: roots) w rest := by
  have hempty (j : Fin ENTRIES) : M.present (w.mem root j) = false := by
    rw [hzero j]
    exact L.present_zero
  have hroot : tablesAll M w.mem roots root = 0 := B.not_table mem_cons_self
  have hmove (f : Phys) : tablesAll M w.mem (root :: roots) f + rest.count f =
      tablesAll M w.mem roots f + (root :: rest).count f := by
    rw [tablesAll_empty hempty, count_cons]
    simp only [beq_iff_eq]
    omega
  exact {
    separate := fun f => by
      rw [tablesAll_empty hempty]
      by_cases hf : root = f
      · rw [if_pos hf, ← hf, hroot]
      · rw [if_neg hf, Nat.zero_add]
        exact B.separate f
    hierarchy := fun r hr => by
      rcases mem_cons.mp hr with rfl | hr
      · exact hzero.hierarchy L
      · exact B.hierarchy r hr
    counts := fun f => by
      have := hmove f
      rw [leavesAll_empty hempty, B.counts]
      omega
    alone := fun f hf => by
      by_cases hroot : root = f
      · rw [← hroot]
        exact hone
      · rw [tablesAll_empty hempty, if_neg hroot, Nat.zero_add] at hf
        exact B.alone f hf
    frame := B.frame }

lemma Balanced.discard (B : Balanced M roots w loose) (hr : root ∈ roots)
    (hempty : ∀ j, M.present (w.mem root j) = false) :
    Balanced M (roots.erase root) w (root :: loose) := by
  have B := B.perm_roots (perm_cons_erase hr)
  have htables (f : Phys) : tablesAll M w.mem (root :: roots.erase root) f = _ :=
    tablesAll_empty hempty f
  exact {
    separate := fun f => by
      have := B.separate f
      have := htables f
      omega
    hierarchy := fun r hr' => B.hierarchy r (mem_cons_of_mem root hr')
    counts := fun f => by
      have hcount := B.counts f
      rw [leavesAll_empty hempty, htables] at hcount
      rw [hcount, count_cons]
      simp only [beq_iff_eq]
      omega
    alone := fun f hf => B.alone f (by rw [htables]; omega)
    frame := B.frame }

end

/-- **one call keeps the books** -/
theorem Op.books (L : M.Lawful) {s : Ledger} (B : s.Books M) (op : Op) (allowed : op.Allowed M s)
    (meets : op.Meets M s) : (op.run M s).Books M := by
  cases op with
  | alloc phys words =>
    have B1 := B.alloc allowed.1 allowed.2
    exact B1.fill (B1.not_table mem_cons_self) words
  | release phys => exact (Balanced.perm B (perm_cons_erase allowed)).free
  | share phys => exact Balanced.share B allowed.1 meets (Nat.eq_zero_of_not_pos allowed.2)
  | fill phys words => exact Balanced.fill B (Nat.eq_zero_of_not_pos allowed) words
  | create root =>
    exact (Balanced.perm B (perm_cons_erase allowed.1)).create L allowed.2.1 allowed.2.2
  | discard root => exact Balanced.discard B allowed.1 allowed.2
  | publish root virt phys flags stock tlb =>
    obtain ⟨hr, hheld, hfresh⟩ := allowed
    obtain ⟨-, hok, herr⟩ := publish_balanced L hr (B.perm (perm_diff hheld)) hfresh meets virt tlb
    rw [Op.run]
    rcases hrun : Tables.publish M s.w root virt phys flags stock tlb with ⟨w, stock', tlb', res⟩
    rw [hrun] at hok herr
    cases res with
    | ok u => exact hok rfl
    | error err => exact herr (by simp)
  | replace root virt phys flags tlb =>
    have hrep := replace_balanced L allowed.1 (B.perm (perm_cons_erase allowed.2)) meets virt tlb
    rw [Op.run]
    rcases hrun : Tables.replace M s.w root virt phys flags tlb with ⟨w, tlb', _ | old⟩
    · rw [hrun] at hrep
      rw [show w = s.w from hrep]
      exact B
    · rw [hrun] at hrep
      exact hrep
  | protect root virt flags tlb =>
    have hprot := protect_balanced L allowed B meets virt tlb
    rw [Op.run]
    rcases hrun : Tables.protect M s.w root virt flags tlb with ⟨w, tlb', _ | old⟩
    · rw [hrun] at hprot
      rw [show w = s.w from hprot]
      exact B
    · rw [hrun] at hprot
      exact hprot
  | unmap root virt tlb reclaimed =>
    have hun := unmap_balanced L allowed.1 (B.perm (perm_diff allowed.2)) virt tlb
    rw [Op.run]
    rcases hrun : Tables.unmap M s.w root virt tlb reclaimed with ⟨w, tlb', reclaimed', _ | old⟩
    · obtain ⟨rfl, rfl⟩ := unmap_none hrun
      exact B.perm (perm_diff allowed.2)
    · rw [hrun] at hun
      exact hun
  | shareFrom child parent virt stock tlb =>
    obtain ⟨hr, hparent, hheld, hfresh⟩ := allowed
    exact (shareFrom_kept L hr hparent (B.perm (perm_diff hheld)) hfresh meets tlb).2.1
  | shareRange child parent start count stock tlb =>
    obtain ⟨hr, hparent, hheld, hfresh⟩ := allowed
    exact (shareRange_kept L hr hparent start count (B.perm (perm_diff hheld)) hfresh meets).2.1
  | breakCow root addr spare =>
    exact (breakCow_kept L allowed.1 (B.perm (perm_diff allowed.2)) addr).1
  | freeBelow root limit => exact freeBelow_balanced L B allowed limit

/-! ## whole runs -/

lemma Ledger.Reached.books (L : M.Lawful) {s : Ledger} (R : s.Reached M) : s.Books M := by
  induction R with
  | @start s h =>
    obtain ⟨hroots, hheld, hframe⟩ := h
    rw [Ledger.Books, hroots]
    exact {
      separate := fun f => Nat.zero_le _
      hierarchy := fun r hr => nomatch hr
      counts := fun f => (hheld f).trans (Nat.zero_add _).symm
      alone := fun f hf => absurd hf (Nat.lt_irrefl 0)
      frame := hframe }
  | call op _ allowed meets ih => exact op.books L ih allowed meets

/-- a table goes to a caller or back to the allocator, once and empty -/
def GivenBack (M : Machine) (s s' : Ledger) (f : Phys) : Prop :=
  (f ∈ s'.held ∧ ∀ j, M.present (s'.w.mem f j) = false) ∨
  ∃ new, s'.w.past = new ++ s.w.past ∧ frees new f = 1 ∧
    ∀ m ∈ new, m.event = .free f → ∀ j, M.present (m.mem f j) = false

/-- **a table is given back only when all its entries are absent** -/
theorem Op.givenBack (L : M.Lawful) {s : Ledger} (B : s.Books M) (op : Op)
    (allowed : op.Allowed M s) (meets : op.Meets M s) {f : Phys} (hf : IsTable M s.w.mem s.roots f)
    (hgone : ¬ IsTable M (op.run M s).w.mem (op.run M s).roots f) :
    GivenBack M s (op.run M s) f := by
  have stays (K : Kept M s.roots s.w.mem (op.run M s).w.mem) (hroots : (op.run M s).roots = s.roots) :
      GivenBack M s (op.run M s) f := by
    rw [hroots] at hgone
    exact absurd (Nat.lt_of_lt_of_le hf (K f)) hgone
  cases op with
  | alloc phys words =>
    have B1 := B.alloc allowed.1 allowed.2
    exact stays (Kept.fill (w := s.w.alloc phys) (B1.not_table mem_cons_self) words) rfl
  | release phys => exact stays (Kept.refl M _ _) rfl
  | share phys => exact stays (Kept.refl M _ _) rfl
  | fill phys words => exact stays (Kept.fill (Nat.eq_zero_of_not_pos allowed) words) rfl
  | create root =>
    have hmore : tablesAll M s.w.mem (root :: s.roots) f = _ + tablesAll M s.w.mem s.roots f :=
      forestCount_cons M.format root s.roots f
    have hzero : ¬ 0 < tablesAll M s.w.mem (root :: s.roots) f := hgone
    have hpos : 0 < tablesAll M s.w.mem s.roots f := hf
    omega
  | discard root =>
    obtain ⟨hr, hempty⟩ := allowed
    have hperm : tablesAll M s.w.mem s.roots f = tablesAll M s.w.mem (root :: s.roots.erase root) f :=
      ((perm_cons_erase hr).map fun r => tableCount M.format s.w.mem DEPTH r f).sum_eq
    rw [tablesAll_empty hempty] at hperm
    have hpos : 0 < tablesAll M s.w.mem s.roots f := hf
    have hzero : ¬ 0 < tablesAll M s.w.mem (s.roots.erase root) f := hgone
    have hroot : root = f := by
      by_contra hne
      rw [if_neg hne] at hperm
      omega
    subst hroot
    exact Or.inl ⟨mem_cons_self, hempty⟩
  | publish root virt phys flags stock tlb =>
    obtain ⟨hr, hheld, hfresh⟩ := allowed
    have K := publish_kept L hr ((B.perm (perm_diff hheld)).perm perm_middle.symm) hfresh virt
      phys flags tlb
    refine stays ?_ ?_
    · rw [Op.run]
      rcases hrun : Tables.publish M s.w root virt phys flags stock tlb with ⟨w, stock', tlb', _ | _⟩ <;>
        rw [hrun] at K <;> exact K
    · rw [Op.run]
      rcases Tables.publish M s.w root virt phys flags stock tlb with ⟨w, stock', tlb', _ | _⟩ <;> rfl
  | replace root virt phys flags tlb =>
    have K : Kept M s.roots s.w.mem (Tables.replace M s.w root virt phys flags tlb).1.mem :=
      B.kept_rewrite allowed.1 virt (fun _ => M.leaf phys flags) tlb
    refine stays ?_ ?_
    · rw [Op.run]
      rcases hrun : Tables.replace M s.w root virt phys flags tlb with ⟨w, tlb', _ | _⟩ <;>
        rw [hrun] at K <;> exact K
    · rw [Op.run]
      rcases Tables.replace M s.w root virt phys flags tlb with ⟨w, tlb', _ | _⟩ <;> rfl
  | protect root virt flags tlb =>
    exact stays (B.kept_rewrite allowed virt (fun old => M.leaf (M.addr old) flags) tlb) rfl
  | unmap root virt tlb reclaimed =>
    obtain ⟨hr, hheld⟩ := allowed
    obtain ⟨hin, hempty⟩ := unmap_emptied L hr (B.perm (perm_diff hheld)) virt tlb hf hgone
    exact Or.inl ⟨mem_append_right _ (mem_append_left _ hin), hempty⟩
  | shareFrom child parent virt stock tlb =>
    obtain ⟨hr, hparent, hheld, hfresh⟩ := allowed
    exact stays (shareFrom_kept L hr hparent (B.perm (perm_diff hheld)) hfresh meets tlb).2.2 rfl
  | shareRange child parent start count stock tlb =>
    obtain ⟨hr, hparent, hheld, hfresh⟩ := allowed
    have K := shareRange_kept L hr hparent start count (B.perm (perm_diff hheld)) hfresh meets
    exact stays K.2.2 rfl
  | breakCow root addr spare =>
    exact stays (breakCow_kept L allowed.1 (B.perm (perm_diff allowed.2)) addr).2 rfl
  | freeBelow root limit =>
    obtain ⟨new, hpast, hcount, hleaves, hcleared⟩ := freeBelow_emptied L B allowed limit
    refine Or.inr ⟨new, hpast, ?_, fun m hm hevent => hcleared m hm f hevent hf⟩
    have hzero : ¬ 0 < tablesAll M (Tables.freeBelow M s.w root limit).mem s.roots f := hgone
    have hpos : 0 < tablesAll M s.w.mem s.roots f := hf
    have hone := B.counts f
    have := B.alone f hf
    have := hcount f
    have := hleaves f
    rw [tablesAll_eq_parentsAll] at hzero hpos hone
    omega

/-- the accounts of one ledger: a frame has one reference for each last-level descriptor that names
it and each caller that holds it; a table has the one of its descriptor, or of its owner -/
structure Accounted (M : Machine) (s : Ledger) : Prop where
  pages : ∀ f, ¬ IsTable M s.w.mem s.roots f →
    s.w.refs f = leavesAll M s.w.mem s.roots f + s.held.count f
  tables : ∀ f, IsTable M s.w.mem s.roots f →
    s.w.refs f = 1 ∧ leavesAll M s.w.mem s.roots f = 0 ∧ s.held.count f = 0 ∧
      parentsAll M s.w.mem s.roots f = if f ∈ s.roots then 0 else 1

lemma Ledger.Books.accounted {s : Ledger} (B : s.Books M) : Accounted M s where
  pages f hf := by
    have hcount := B.counts f
    rw [Nat.eq_zero_of_not_pos hf, Nat.add_zero] at hcount
    exact hcount
  tables f hf := by
    have hone := B.alone f hf
    have hcount := B.counts f
    have hpos : 0 < tablesAll M s.w.mem s.roots f := hf
    have hle := B.separate f
    have hparents := tablesAll_eq_parentsAll (M := M) s.w.mem s.roots f
    refine ⟨hone, by omega, by omega, ?_⟩
    split
    · next hroot =>
      have := count_pos_iff.mpr hroot
      omega
    · next hroot =>
      have := count_eq_zero.mpr hroot
      omega

/-- what a teardown gives back: one reference for each descriptor that goes -/
def ReleasedOnce (M : Machine) (s s' : Ledger) : Prop :=
  ∃ new, s'.w.past = new ++ s.w.past ∧ ∀ f,
    frees new f + leavesAll M s'.w.mem s'.roots f + parentsAll M s'.w.mem s'.roots f =
      leavesAll M s.w.mem s.roots f + parentsAll M s.w.mem s.roots f

/-- **the frames are accounted for** in every state calls reach: tables go back empty, and a
teardown gives back once what is below its limit -/
theorem frames_accounted (L : M.Lawful) {s : Ledger} (R : s.Reached M) : Accounted M s ∧
    (∀ op : Op, op.Allowed M s → op.Meets M s →
      ∀ f, IsTable M s.w.mem s.roots f → ¬ IsTable M (op.run M s).w.mem (op.run M s).roots f →
        GivenBack M s (op.run M s) f) ∧ ∀ root ∈ s.roots, ∀ limit, Even limit →
      ReleasedOnce M s ((Op.freeBelow root limit).run M s) ∧
      Torn M s.w (Tables.freeBelow M s.w root limit) s.roots root limit := by
  have B := R.books L
  refine ⟨B.accounted, fun op allowed meets f hf hgone => op.givenBack L B allowed meets hf hgone,
    fun root hr limit heven => ⟨?_, freeBelow_torn L B hr heven⟩⟩
  obtain ⟨new, hpast, hcount, -, -⟩ := freeBelow_emptied L B hr limit
  exact ⟨new, hpast, hcount⟩

/-! ## one page mapped -/

def fiveFrames : Ledger :=
  let frames : List Phys := [0x1000, 0x2000, 0x3000, 0x4000, 0x5000]
  ⟨⟨fun _ _ => 0, fun f => frames.count f, []⟩, [], frames⟩

/-- the first is the top of a hierarchy, the last mapped at 0, the others its tables -/
def onePage : Ledger :=
  (Op.publish 0x1000 0 0x5000 X8664.PRESENT ⟨[0x2000, 0x3000, 0x4000]⟩ .clean).run x8664
    ((Op.create 0x1000).run x8664 fiveFrames)

lemma fiveFrames_start : fiveFrames.Start x8664 := by
  refine ⟨rfl, fun _ => rfl, fun f hf => ?_⟩
  have hmem : f ∈ fiveFrames.held := count_pos_iff.mp hf
  simp only [fiveFrames, mem_cons, not_mem_nil, or_false] at hmem
  rcases hmem with rfl | rfl | rfl | rfl | rfl <;> simp [Machine.Frame, x8664, X8664.ADDR_MASK]

lemma onePage_reached : onePage.Reached x8664 := by
  refine .call _ (.call _ (.start fiveFrames_start) ⟨by decide, by decide, fun _ => rfl⟩ trivial)
    ⟨by decide, ?_, ?_⟩ (show has X8664.PRESENT X8664.PRESENT = true by decide)
  · exact List.Perm.subperm (by decide)
  · intro c hc
    simp only [mem_cons, not_mem_nil, or_false] at hc
    rcases hc with rfl | rfl | rfl <;> exact ⟨fun _ => rfl, by decide⟩

lemma onePage_leaf : (Tables.leaf x8664 onePage.w 0x1000 0).isSome = true := by decide +kernel

/-- an address space with a page at 0 accounts for its frames -/
theorem frames_accounted_onePage : onePage.Reached x8664 ∧ Accounted x8664 onePage :=
  ⟨onePage_reached, (frames_accounted x8664_lawful onePage_reached).1⟩

/-- **a limit inside the first table** frees nothing: the page below it stays -/
theorem freeBelow_second_page :
    onePage.Reached x8664 ∧ (Op.freeBelow 0x1000 0x1000).Allowed x8664 onePage ∧
      (Tables.leaf x8664 onePage.w 0x1000 0).isSome = true ∧
      ¬ Torn x8664 onePage.w (Tables.freeBelow x8664 onePage.w 0x1000 0x1000) onePage.roots 0x1000
        0x1000 := by
  have hroot : (0x1000 : Phys) ∈ onePage.roots := by decide
  refine ⟨onePage_reached, hroot, onePage_leaf, fun torn => ?_⟩
  have hgone := torn.leaves 0x1000 hroot 0 (by decide)
  rw [if_pos ⟨rfl, by decide⟩] at hgone
  have hleaf : (Tables.leaf x8664 (Tables.freeBelow x8664 onePage.w 0x1000 0x1000) 0x1000 0).isSome =
      true := onePage_leaf
  rw [hgone] at hleaf
  cases hleaf

end ClaudeOs.Mm
