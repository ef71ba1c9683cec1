import ClaudeOs.Mm.Teardown

/-!
# Which tables a change to the pages leaves

The steps of a hierarchy once more, for the tables alone: which descriptors name a table, and that a
table goes only when nothing is in it any more.

* `parents`  the table descriptors that name a frame;
* `Kept`  every table is one afterwards: all changes but `unmap` and the teardown;
* `KeptBooks`  the same with the books, for a share and the private copy;
* `Shrinks.emptied`  what an `unmap` gives back is empty.
-/

namespace ClaudeOs.Mm
open Radix Tables List Option Nat
variable {M : Machine} {mem : Memory} {roots : List Phys} {root : Phys}

/-! ## descriptors that name a table -/

/-- the descriptors above the last level that name the frame, in a tree of height `h` -/
def parents (M : Machine) (mem : Memory) : Nat → Phys → Phys → Nat
  | 0, _, _ => 0
  | h + 1, t, f => ∑ i, (M.format.child (h + 1) (mem t i)).elim 0 fun c =>
      (if c = f then 1 else 0) + parents M mem h c f

lemma tableCount_eq_parents (h : Nat) (t f : Phys) :
    tableCount M.format mem h t f = (if t = f then 1 else 0) + parents M mem h t f := by
  induction h generalizing t with
  | zero => simp [tableCount_eq, below_zero, parents]
  | succ h ih =>
    rw [tableCount_eq, parents]
    refine congrArg ((if t = f then 1 else 0) + ·) (Finset.sum_congr rfl fun i _ => ?_)
    cases hc : M.format.child (h + 1) (mem t i) with
    | none => exact below_none M.format hc f
    | some c =>
      rw [below_some M.format hc, ih c]
      rfl

/-- the table descriptors of all the hierarchies that name the frame -/
def parentsAll (M : Machine) (mem : Memory) (roots : List Phys) (f : Phys) : Nat :=
  (roots.map fun r => parents M mem DEPTH r f).sum

lemma tablesAll_eq_parentsAll (mem : Memory) (roots : List Phys) (f : Phys) :
    tablesAll M mem roots f = parentsAll M mem roots f + roots.count f := by
  induction roots with
  | nil => rfl
  | cons r roots ih =>
    rw [tablesAll, forestCount_cons, parentsAll, map_cons, sum_cons, count_cons,
      tableCount_eq_parents]
    rw [tablesAll, parentsAll] at ih
    rw [ih]
    simp only [beq_iff_eq]
    omega

/-! ## tables that stay -/

variable {f parent : Phys} {limit : Nat}

section
variable {w : World} {t phys : Phys} {i : Fin ENTRIES} {p : List (Fin ENTRIES)} {virt : Nat}
  {flags under e : Bits} {stock : TableStock} {tlb : Tlb} {loose rest : List Phys}

def Kept (M : Machine) (roots : List Phys) (mem mem' : Memory) : Prop :=
  ∀ f, tablesAll M mem roots f ≤ tablesAll M mem' roots f

lemma Kept.refl (M : Machine) (roots : List Phys) (mem : Memory) : Kept M roots mem mem :=
  fun _ => le_refl _

lemma Kept.trans {mem mem1 mem2 : Memory} (K1 : Kept M roots mem mem1)
    (K2 : Kept M roots mem1 mem2) : Kept M roots mem mem2 :=
  fun f => le_trans (K1 f) (K2 f)

lemma Kept.fill (hphys : tablesAll M w.mem roots phys = 0) (words : Fin ENTRIES → Bits) :
    Kept M roots w.mem (w.fill phys words).mem := by
  intro f
  refine le_of_eq (forest_congr M.format _ _ fun g hg => ?_).symm
  rw [World.fill_mem, if_neg]
  rintro rfl
  have hpos : 0 < tablesAll M w.mem roots g := hg
  omega

namespace Balanced
section
variable (B : Balanced M roots w loose)
include B

lemma kept_put (hr : root ∈ roots)
    (hw : walk M.format w.mem DEPTH root p = some t) (hp : p.length = DEPTH) (i : Fin ENTRIES)
    (e : Bits) : Kept M roots w.mem (w.store t i e).mem := fun f =>
  le_of_eq (forest_leaf hr B.separate hw hp e (fun g => if g = f then 1 else 0) fun _ => 0).symm

lemma kept_rewrite (hr : root ∈ roots) (virt : Nat) (change : Bits → Bits) (tlb : Tlb) :
    Kept M roots w.mem (rewrite M w root virt change tlb).1.mem := by
  rcases rewrite_cases w root virt change tlb with ⟨-, hrun⟩ | ⟨t, hw, -, -, hrun⟩
  · rw [hrun]
    exact Kept.refl M roots w.mem
  · rw [hrun]
    exact B.kept_put hr hw (length_route virt DEPTH) _ _

end
end Balanced

section
variable (L : M.Lawful)
include L

lemma Grows.kept {s s' : World × TableStock} (G : Grows M root under s s') (hr : root ∈ roots)
    (B : Balanced M roots s.1 (s.2.frames ++ rest)) (hfresh : Fresh s.1 s.2) :
    Kept M roots s.1.mem s'.1.mem := by
  induction G with
  | refl => exact Kept.refl M roots _
  | tail before last ih =>
    obtain ⟨B1, -⟩ := Grows.balanced L before hr B hfresh
    refine ih.trans fun f => ?_
    cases last with
    | link K =>
      have hmore := forest_link L hr B1.separate (B1.hierarchy root hr)
        (a := fun g => if g = f then 1 else 0) (b := fun _ => 0) (fun _ _ => rfl) K under
      exact le_trans (le_add_right _ _) (le_of_eq hmore.symm)
    | widen hp hw hpres hwide =>
      have R := Renames.widen L (B1.hierarchy root hr) hp hw hpres hwide
      exact le_of_eq (forest_rename hr B1.separate hw R hp (fun g => if g = f then 1 else 0)
        fun _ => 0).symm

lemma publish_kept (hr : root ∈ roots) (B : Balanced M roots w (stock.frames ++ rest))
    (hfresh : Fresh w stock) (virt : Nat) (phys : Phys) (flags : Bits) (tlb : Tlb) :
    Kept M roots w.mem (publish M w root virt phys flags stock tlb).1.mem := by
  obtain ⟨w1, stock1, grows, hcases⟩ := publish_cases L virt phys flags (B.growing hr hfresh) tlb
  have K1 := Grows.kept L grows hr B hfresh
  obtain ⟨B1, -⟩ : Balanced M roots w1 (stock1.frames ++ rest) ∧ Fresh w1 stock1 :=
    Grows.balanced L grows hr B hfresh
  rcases hcases with ⟨-, hrun⟩ | ⟨-, t, hw, ⟨-, hrun⟩ | ⟨-, hrun⟩⟩
  · rw [hrun]
    exact K1
  · rw [hrun]
    exact K1
  · rw [hrun]
    exact K1.trans (B1.kept_put hr hw (length_route virt DEPTH) _ _)

omit L in
lemma publishShared_mem (w : World) (virt : Nat) (phys : Phys) (flags : Bits)
    (stock : TableStock) (tlb : Tlb) : (publishShared M w root virt phys flags stock tlb).1.mem =
      (publish M w root virt phys flags stock tlb).1.mem := by
  rw [publishShared]
  rcases publish M w root virt phys flags stock tlb with ⟨w1, stock1, tlb1, _ | _⟩ <;> rfl

def KeptBooks (M : Machine) (roots : List Phys) (mem : Memory) (loose : List Phys) (w : World) :
    Prop :=
  Balanced M roots w loose ∧ Kept M roots mem w.mem

lemma shareFrom_kept (hr : root ∈ roots) (hparent : parent ∈ roots)
    (B : Balanced M roots w (stock.frames ++ rest)) (hfresh : Fresh w stock)
    (hroom : Room M w parent virt) (tlb : Tlb) : let r := shareFrom M w root parent virt stock tlb
    Fresh r.1 r.2.1 ∧ KeptBooks M roots w.mem (r.2.1.frames ++ rest) r.1 := by
  cases hleaf : Tables.leaf M w parent virt with
  | none =>
    rw [shareFrom_absent hleaf]
    exact ⟨hfresh, B, Kept.refl M roots w.mem⟩
  | some bits =>
    obtain ⟨w1, flags, tlb1, B1, hfresh1, hflags, htables, hrun⟩ :=
      shareFrom_started L root hparent B hfresh hroom tlb hleaf
    have K1 : Kept M roots w.mem w1.mem := fun f => le_of_eq (htables f).symm
    have K2 := publish_kept L hr (B1.perm perm_middle.symm) hfresh1 virt (M.addr bits) flags tlb1
    rw [← publishShared_mem] at K2
    obtain ⟨hfresh2, B2⟩ := publishShared_balanced L hr B1 hfresh1 hflags virt tlb1
    rw [hrun]
    exact ⟨hfresh2, B2, K1.trans K2⟩

lemma shareRange_kept (hr : root ∈ roots) (hparent : parent ∈ roots) (start count : Nat)
    (B : Balanced M roots w (stock.frames ++ rest)) (hfresh : Fresh w stock)
    (hroom : RangeRoom M root parent start count w stock tlb) :
    let r := shareRange M root parent start count w stock tlb
    Fresh r.1 r.2.1 ∧ KeptBooks M roots w.mem (r.2.1.frames ++ rest) r.1 := by
  induction count generalizing start w stock tlb with
  | zero => exact ⟨hfresh, B, Kept.refl M roots w.mem⟩
  | succ count ih =>
    obtain ⟨hfresh1, B1, K1⟩ := shareFrom_kept L hr hparent B hfresh hroom.1 tlb
    have hroom1 := hroom.2
    rw [shareRange]
    rcases hrun : shareFrom M w root parent start stock tlb with ⟨w1, stock1, tlb1, res⟩
    rw [hrun] at hfresh1 B1 hroom1 K1
    cases res with
    | ok u =>
      obtain ⟨hfresh2, B2, K2⟩ := ih _ B1 hfresh1 (hroom1 rfl)
      exact ⟨hfresh2, B2, K1.trans K2⟩
    | error err => exact ⟨hfresh1, B1, K1⟩

/-! ## the private copy -/

section
variable {bits : Bits} {spare : Option Phys}

omit L in
lemma KeptBooks.free (K : KeptBooks M roots mem (f :: rest) w) :
    KeptBooks M roots mem rest (w.free f) :=
  ⟨K.1.free, K.2⟩

omit L in
lemma KeptBooks.flush (K : KeptBooks M roots mem loose w) (tlb : Tlb) :
    KeptBooks M roots mem loose (tlb.flush w) := by
  refine ⟨K.1.flush tlb, ?_⟩
  cases tlb <;> exact K.2

omit L in
lemma KeptBooks.giveBack (K : KeptBooks M roots mem (spare.toList ++ rest) w) :
    KeptBooks M roots mem rest (giveBack w spare) := by
  cases spare with
  | none => exact K
  | some copy => exact K.free

omit L in
lemma flagsOf_some (L : M.Lawful) (h : flagsOf M w root virt = some flags) :
    has flags M.presentBit := by
  rw [flagsOf, map_eq_some_iff] at h
  obtain ⟨bits, hleaf, rfl⟩ := h
  rw [Tables.leaf, bind_eq_some_iff] at hleaf
  obtain ⟨t, -, hbits⟩ := hleaf
  simp only [ite_none_right_eq_some, some.injEq] at hbits
  obtain ⟨hpres, rfl⟩ := hbits
  exact L.present_flags _ hpres

omit L in
lemma copyPage_kept (L : M.Lawful) (hr : root ∈ roots) {copy : Phys}
    (B : Balanced M roots w (copy :: rest)) (hflags : has flags M.presentBit) (page : Nat) :
    KeptBooks M roots w.mem rest (copyPage M w root page phys copy flags).1 := by
  have B1 := B.fill (B.not_table mem_cons_self) (w.mem phys)
  have hnew : has (unshared M flags) M.presentBit := L.present_unshared flags hflags
  have hrep := replace_balanced L hr B1 hnew page .clean
  have K : Kept M roots w.mem
      (replace M (w.fill copy (w.mem phys)) root page copy (unshared M flags) .clean).1.mem :=
    (Kept.fill (B.not_table mem_cons_self) (w.mem phys)).trans (B1.kept_rewrite hr page
      (fun _ => M.leaf copy (unshared M flags)) .clean)
  rw [copyPage, Guard.replace]
  simp only [Guard.lock]
  rcases hrun : replace M (w.fill copy (w.mem phys)) root page copy (unshared M flags) .clean with
    ⟨w2, tlb2, res⟩
  rw [hrun] at K hrep
  cases res with
  | none =>
    obtain rfl : w2 = w.fill copy (w.mem phys) := hrep
    have B2 : KeptBooks M roots w.mem (copy :: rest) _ := .flush ⟨B1, K⟩ tlb2
    exact B2.free
  | some old =>
    have B2 : KeptBooks M roots w.mem (old :: rest) _ := .flush ⟨hrep, K⟩ tlb2
    exact B2.free

omit L in
lemma breakCow_kept (L : M.Lawful) (hr : root ∈ roots)
    (B : Balanced M roots w (spare.toList ++ rest)) (addr : Nat) :
    KeptBooks M roots w.mem rest (breakCow M w root addr spare).1 := by
  have hback : KeptBooks M roots w.mem rest (giveBack w spare) :=
    KeptBooks.giveBack ⟨B, Kept.refl M roots w.mem⟩
  rw [breakCow]
  cases hflags : flagsOf M w root (pageAlignDown addr) with
  | none => exact hback
  | some flags =>
    have hpres := flagsOf_some L hflags
    dsimp only
    split
    · exact hback
    · split
      · exact hback
      · next phys _ =>
        split
        · -- the last owner: only the flags change
          have hnew : has (unshared M flags) M.presentBit := L.present_unshared flags hpres
          have hprot := protect_balanced L hr B hnew (pageAlignDown addr) .clean
          have K : Kept M roots w.mem
              (protect M w root (pageAlignDown addr) (unshared M flags) .clean).1.mem :=
            B.kept_rewrite hr (pageAlignDown addr) (fun old => M.leaf (M.addr old) (unshared M flags)) .clean
          rw [Guard.protect]
          simp only [Guard.lock]
          rcases hrun : protect M w root (pageAlignDown addr) (unshared M flags) .clean with
            ⟨w1, tlb1, _ | old⟩
          · rw [hrun] at K hprot
            obtain rfl : w1 = w := hprot
            have B2 : KeptBooks M roots _ (spare.toList ++ rest) _ := .flush ⟨B, K⟩ tlb1
            exact B2.giveBack
          · rw [hrun] at K hprot
            have B2 : KeptBooks M roots _ (spare.toList ++ rest) _ := .flush ⟨hprot, K⟩ tlb1
            exact B2.giveBack
        · cases spare with
          | none => exact ⟨B, Kept.refl M roots w.mem⟩
          | some copy => exact copyPage_kept L hr B hpres _

end

/-! ## tables that go -/

lemma absent_clear (t : Phys) (i : Fin ENTRIES) {j : Fin ENTRIES}
    (h : M.present (mem f j) = false) : M.present (update mem t i 0 f j) = false := by
  by_cases hit : f = t ∧ j = i
  · obtain ⟨rfl, rfl⟩ := hit
    rw [update_self]
    exact L.present_zero
  · rw [update_of_ne _ _ _ _ hit]
    exact h

lemma Shrinks.emptied {s s' : World × Tlb × TableStock} (S : Shrinks M root s s')
    (hr : root ∈ roots) (B : Balanced M roots s.1 (s.2.2.frames ++ rest))
    (hf : IsTable M s.1.mem roots f) (hgone : ¬ IsTable M s'.1.mem roots f) :
    f ∈ s'.2.2.frames ∧ ∀ j, M.present (s'.1.mem f j) = false := by
  induction S with
  | refl => exact absurd hf hgone
  | tail before last ih =>
    have B1 := Shrinks.balanced L before hr B
    cases last with
    | @unlink w p t c i tlb reclaimed U _ =>
      have hfewer : tablesAll M (update w.mem t i 0) roots f + (if c = f then 1 else 0) =
          tablesAll M w.mem roots f :=
        forest_unlink L hr B1.separate (fun _ _ => rfl) U
      by_cases hmid : IsTable M w.mem roots f
      · have hcf : c = f := by
          by_contra hne
          rw [if_neg hne, add_zero] at hfewer
          exact hgone (by rw [IsTable, World.store_mem, hfewer]; exact hmid)
        subst hcf
        exact ⟨mem_cons_self, fun j => absent_clear L t i (U.empty j)⟩
      · obtain ⟨hin, habsent⟩ := ih hmid
        exact ⟨mem_cons_of_mem _ hin, fun j => absent_clear L t i (habsent j)⟩

lemma unmap_emptied (hr : root ∈ roots) (B : Balanced M roots w (stock.frames ++ rest))
    (virt : Nat) (tlb : Tlb) (hf : IsTable M w.mem roots f)
    (hgone : ¬ IsTable M (unmap M w root virt tlb stock).1.mem roots f) :
    f ∈ (unmap M w root virt tlb stock).2.2.1.frames ∧
      ∀ j, M.present ((unmap M w root virt tlb stock).1.mem f j) = false := by
  have K := B.kept_rewrite hr virt (fun _ => 0) tlb
  have hrw := rewrite_balanced hr B (fun _ => 0) (fun old => old :: (stock.frames ++ rest))
    (fun old _ f => by
      rw [names_absent L.present_zero, count_cons]
      simp only [beq_iff_eq]
      omega) virt tlb
  rw [unmap] at hgone ⊢
  rcases hrun : rewrite M w root virt (fun _ => 0) tlb with ⟨w1, tlb1, _ | old⟩
  · rw [hrun] at K hgone
    exact absurd (lt_of_lt_of_le hf (K f)) hgone
  · rw [hrun] at K hgone hrw
    have B1 : Balanced M roots w1 (stock.frames ++ (M.addr old :: rest)) :=
      Balanced.perm hrw perm_middle.symm
    have hf1 : IsTable M w1.mem roots f := lt_of_lt_of_le hf (K f)
    have shrinks : Shrinks M root (w1, tlb1, stock) _ := reclaim_shrinks w1 virt tlb1 stock
    exact Shrinks.emptied L shrinks hr B1 hf1 hgone

lemma freeBelow_emptied (B : Balanced M roots w loose) (hr : root ∈ roots) (limit : Nat) :
    ∃ new, (freeBelow M w root limit).past = new ++ w.past ∧
      (∀ f, frees new f + leavesAll M (freeBelow M w root limit).mem roots f +
          parentsAll M (freeBelow M w root limit).mem roots f =
        leavesAll M w.mem roots f + parentsAll M w.mem roots f) ∧
      (∀ f, leavesAll M (freeBelow M w root limit).mem roots f ≤ leavesAll M w.mem roots f) ∧
      Cleared M (IsTable M w.mem roots) new := by
  obtain ⟨R, P⟩ := freeBelow_pruned L B hr limit
  obtain ⟨new, hpast, hfrees, hcleared⟩ := R.past
  have hleaves (f : Phys) :
      leavesAll M (freeBelow M w root limit).mem roots f + _ = leavesAll M w.mem roots f :=
    P.forest_add B hr L (nodup_topsBelow limit) (fun _ => 0) (names M f)
  refine ⟨new, hpast, fun f => ?_, fun f => ?_, hcleared⟩
  · have htables :
        tablesAll M (freeBelow M w root limit).mem roots f + _ = tablesAll M w.mem roots f :=
      P.forest_add B hr L (nodup_topsBelow limit) (fun g => if g = f then 1 else 0) fun _ => 0
    have hload := loadUpTo_eq_add (M := M) w.mem root limit f
    have := hleaves f
    rw [tablesAll_eq_parentsAll, tablesAll_eq_parentsAll] at htables
    rw [hfrees, hload]
    simp only [below] at *
    omega
  · have := hleaves f
    omega

end

/-- a limit that a descriptor of the top table can stand for, or one above all of them -/
def Even (limit : Nat) : Prop := levelSize DEPTH ∣ limit ∨ SPAN ≤ limit

lemma mem_take_finRange {n k : Nat} (i : Fin n) : i ∈ (finRange n).take k ↔ i.val < k := by
  rw [mem_take_iff_getElem]
  constructor
  · rintro ⟨m, hm, rfl⟩
    simp only [length_finRange, getElem_finRange, Fin.val_cast] at hm ⊢
    omega
  · intro h
    exact ⟨i.val, by simp [h], by simp⟩

lemma indexOf_mem_topsBelow (heven : Even limit) (hvirt : virt < SPAN) :
    indexOf virt DEPTH ∈ topsBelow limit ↔ virt < limit := by
  have hindex : (indexOf virt DEPTH).val = virt / levelSize DEPTH := by
    refine Nat.mod_eq_of_lt ?_
    simp only [SPAN, PAGE_BITS, LEVEL_BITS, DEPTH, ENTRIES] at hvirt ⊢
    omega
  rw [topsBelow, mem_take_finRange, hindex]
  change virt / levelSize DEPTH < limit / levelSize DEPTH ↔ _
  rcases heven with hdvd | hspan
  · obtain ⟨k, rfl⟩ := hdvd
    have hpos : 0 < levelSize DEPTH := by decide
    rw [Nat.mul_div_cancel_left k hpos, Nat.div_lt_iff_lt_mul hpos, Nat.mul_comm]
  · refine ⟨fun _ => Nat.lt_of_lt_of_le hvirt hspan, fun _ => ?_⟩
    simp only [SPAN, PAGE_BITS, LEVEL_BITS, levelSize, DEPTH] at hvirt hspan ⊢
    omega

/-- what a teardown leaves of a hierarchy: nothing below the limit, and all above it -/
structure Torn (M : Machine) (w w' : World) (roots : List Phys) (root : Phys) (limit : Nat) :
    Prop where
  tables : ∀ r ∈ roots, ∀ virt < SPAN, ∀ n, 0 < n → descend M w' virt ((down DEPTH).take n) r =
      if r = root ∧ virt < limit then none else descend M w virt ((down DEPTH).take n) r
  leaves : ∀ r ∈ roots, ∀ virt < SPAN, Tables.leaf M w' r virt =
    if r = root ∧ virt < limit then none else Tables.leaf M w r virt

lemma freeBelow_torn (L : M.Lawful) (B : Balanced M roots w loose) (hr : root ∈ roots)
    (heven : Even limit) : Torn M w (freeBelow M w root limit) roots root limit := by
  obtain ⟨-, P⟩ := freeBelow_pruned L B hr limit
  have S := (B.hierarchy root hr).subtree L
  have hpath (v : World) (r : Phys) (virt n : Nat) :
      descend M v virt ((down DEPTH).take n) r =
        walk M.format v.mem DEPTH r (((down DEPTH).take n).map (indexOf virt)) := by
    have htake := take_prefix n (down DEPTH)
    exact descend_eq_walk v virt htake r
  have htables : ∀ r ∈ roots, ∀ virt < SPAN, ∀ n, 0 < n →
      descend M (freeBelow M w root limit) virt ((down DEPTH).take n) r =
        if r = root ∧ virt < limit then none else descend M w virt ((down DEPTH).take n) r := by
    intro r hr' virt hvirt n hn
    rw [hpath, hpath]
    by_cases hne : r = root
    · subst hne
      obtain ⟨k, rfl⟩ : ∃ k, n = k + 1 := ⟨n - 1, by omega⟩
      have hlen : ((indexOf virt DEPTH) :: ((down 2).take k).map (indexOf virt)).length ≤ DEPTH := by
        rw [length_cons, length_map, length_take, length_down, DEPTH]
        omega
      have hwalk := P.walk_eq (j := indexOf virt DEPTH) S hlen
      rw [drop_one, tail_cons] at hwalk
      simp only [true_and, ← indexOf_mem_topsBelow heven hvirt]
      exact hwalk
    · rw [if_neg fun h => hne h.1]
      refine walk_congr M.format ?_ fun g hg => P.elsewhere g (B.outside hr hr' hne _ hg)
      rw [length_map, length_take, length_down]
      omega
  refine ⟨htables, fun r hr' virt hvirt => ?_⟩
  have hleaf : leafTable M (freeBelow M w root limit) r virt = _ :=
    htables r hr' virt hvirt DEPTH (by decide)
  rw [Tables.leaf, Tables.leaf, hleaf]
  split
  · rfl
  · next hstay =>
    change (leafTable M w r virt).bind _ = _
    cases hw : leafTable M w r virt with
    | none => rfl
    | some t =>
      rw [leafTable_eq_walk] at hw
      -- the last table of a path that stays is as it was
      have hsame : (freeBelow M w root limit).mem t = w.mem t := by
        by_cases hne : r = root
        · subst hne
          have hj : indexOf virt DEPTH ∉ topsBelow limit := by
            rw [indexOf_mem_topsBelow heven hvirt]
            exact fun h => hstay ⟨rfl, h⟩
          exact P.same S hj t (below_pos_of_walk (le_of_eq (length_route virt DEPTH)) hw)
        · refine P.elsewhere t (B.outside hr hr' hne _ ?_)
          exact (B.hierarchy r hr').tables_pos (le_of_eq (length_route virt DEPTH)) hw
      rw [bind_some, bind_some, hsame]

end
end ClaudeOs.Mm
