import ClaudeOs.Mm.PageMap
import ClaudeOs.Mm.Guard

/-!
# Who holds a reference on a frame

Every reference the allocator counts is held somewhere: by the one descriptor that names a table,
by a last-level descriptor that names a page, or by a caller that has not put it anywhere yet.  The
books are kept over several hierarchies at once, and each store of a change moves one reference
from one place to another.

* `Balanced`  the books: the hierarchies, the counts, and who holds what;
* `Balanced.put` ...  what each kind of store moves;
* `publish_balanced` ...  and what each call does.
-/

namespace ClaudeOs.Mm
open Radix Tables Option Nat World
open List hiding count
variable {M : Machine} {mem : Memory} {roots : List Phys} {root t c : Phys} {i : Fin ENTRIES}
  {e : Bits} {p : List (Fin ENTRIES)}

/-- whether a last-level descriptor names the frame, as a number -/
def names (M : Machine) (f : Phys) (bits : Bits) : Nat :=
  if M.present bits = true ∧ M.addr bits = f then 1 else 0

/-- the last-level descriptors of the hierarchies that name the frame -/
def leavesAll (M : Machine) (mem : Memory) (roots : List Phys) (f : Phys) : Nat :=
  forest M.format mem (fun _ => 0) (names M f) DEPTH roots

def tablesAll (M : Machine) (mem : Memory) (roots : List Phys) (f : Phys) : Nat :=
  forestCount M.format mem DEPTH roots f

variable {bits : Bits} {f parent : Phys} {s s' : World × TableStock} {spare : Option Phys}

lemma names_absent (h : M.present bits = false) : names M f bits = 0 := by simp [names, h]

lemma names_present (h : M.present bits = true) :
    names M f bits = if M.addr bits = f then 1 else 0 := by simp [names, h]

lemma tables_le_tablesAll (hr : root ∈ roots) (f : Phys) :
    tables M mem root f ≤ tablesAll M mem roots f := tableCount_le_forestCount M.format hr f

/-! ## the sums after a store -/

section
variable (hr : root ∈ roots) (sep : ∀ f, tablesAll M mem roots f ≤ 1)
  (hw : walk M.format mem DEPTH root p = some t)
include hr sep hw

lemma forest_leaf (hp : p.length = DEPTH) (e : Bits) (a : Phys → Nat) (b : Bits → Nat) :
    forest M.format (update mem t i e) a b DEPTH roots + b (mem t i) =
      forest M.format mem a b DEPTH roots + b e := by
  have key := forest_update M.format hr sep (Nat.le_of_eq hp) hw i e
    (by rw [hp, Nat.sub_self]; rfl) a b
  rwa [hp, Nat.sub_self] at key

lemma forest_rename (R : Renames M mem p t i e) (hp : p.length < DEPTH) (a : Phys → Nat)
    (b : Bits → Nat) :
    forest M.format (update mem t i e) a b DEPTH roots = forest M.format mem a b DEPTH roots := by
  have hself := (Separate.walk M.format (fun g => le_trans (tables_le_tablesAll hr g) (sep g))
    R.length hw).below_self M.format i
  have key := forest_update M.format hr sep R.length hw i e (by rw [R.below_eq, hself]) a b
  obtain ⟨k, hk⟩ : ∃ k, DEPTH - p.length = k + 1 := ⟨DEPTH - p.length - 1, by omega⟩
  have hc := R.child hp
  rw [hk] at key hc
  have hhang : hang M.format mem a b (k + 1) e = hang M.format mem a b (k + 1) (mem t i) := by
    simp only [hang, hc]
  omega

end

section
variable (L : M.Lawful) (hr : root ∈ roots) (sep : ∀ f, tablesAll M mem roots f ≤ 1)
  (H : Hierarchy M mem root) {a : Phys → Nat} {b : Bits → Nat}
  (hb : ∀ bits, M.present bits = false → b bits = 0)
include L hr sep H hb

lemma forest_link (K : Links M mem root p t i c) (under : Bits) :
    forest M.format (update mem t i (M.table c under)) a b DEPTH roots =
      forest M.format mem a b DEPTH roots + a c := by
  obtain ⟨k, hk⟩ : ∃ k, DEPTH - p.length = k + 1 := ⟨DEPTH - p.length - 1, by have := K.length; omega⟩
  have hchild := child_table L K.frame under (k + 1)
  have hbelow : below M.format mem (DEPTH - p.length) (M.table c under) t = 0 := by
    rw [hk, below_some M.format hchild, tableCount_barren M.format (K.zeroed.barren L),
      if_neg (K.ne H)]
  have key := forest_update M.format hr sep (le_of_lt K.length) K.walk i
    (M.table c under) hbelow a b
  rw [hk, hang_none M.format (M.child_absent K.absent), hang_some M.format hchild,
    total_barren M.format (K.zeroed.barren L)
      (fun j => hb _ (by rw [K.zeroed j]; exact L.present_zero))] at key
  exact key

omit H in
lemma forest_unlink (U : Unlinks M mem root p t i c) :
    forest M.format (update mem t i 0) a b DEPTH roots + a c =
      forest M.format mem a b DEPTH roots := by
  obtain ⟨k, hk⟩ : ∃ k, DEPTH - p.length = k + 1 := ⟨DEPTH - p.length - 1, by have := U.length; omega⟩
  have hchild := U.child
  have hbelow : below M.format mem (DEPTH - p.length) 0 t = 0 := by
    rw [hk]
    exact below_none M.format (M.child_absent L.present_zero) t
  have key := forest_update M.format hr sep (le_of_lt U.length) U.walk i 0 hbelow a b
  rw [hk] at hchild key
  rw [hang_none M.format (M.child_absent L.present_zero), hang_some M.format hchild,
    total_barren M.format (fun _ j => M.child_absent (U.empty j)) (fun j => hb _ (U.empty j))] at key
  exact key

end

/-! ## the books -/

/-- **the books**: every reference is held by a table's descriptor, a last-level one, or a caller -/
structure Balanced (M : Machine) (roots : List Phys) (w : World) (loose : List Phys) : Prop where
  separate : ∀ f, tablesAll M w.mem roots f ≤ 1
  hierarchy : ∀ r ∈ roots, Hierarchy M w.mem r
  counts : ∀ f, w.refs f = leavesAll M w.mem roots f + tablesAll M w.mem roots f + loose.count f
  alone : ∀ f, 0 < tablesAll M w.mem roots f → w.refs f = 1
  frame : ∀ f, 0 < w.refs f → M.Frame f

namespace Balanced
variable {w : World} {loose loose' rest : List Phys} {f : Phys}

section
variable (B : Balanced M roots w loose)
include B

lemma perm (h : loose.Perm loose') : Balanced M roots w loose' where
  separate := B.separate
  hierarchy := B.hierarchy
  counts f := by rw [B.counts, h.count_eq]
  alone := B.alone
  frame := B.frame

lemma refs_pos (hf : f ∈ loose) : 0 < w.refs f := by
  have := count_pos_iff.mpr hf
  rw [B.counts]
  omega

lemma not_table (hf : f ∈ loose) : tablesAll M w.mem roots f = 0 := by
  have hpos := count_pos_iff.mpr hf
  have hcount := B.counts f
  rcases Nat.eq_zero_or_pos (tablesAll M w.mem roots f) with h | h
  · exact h
  · have := B.alone f h
    omega

lemma not_table_of_leaf (hf : 0 < leavesAll M w.mem roots f) : tablesAll M w.mem roots f = 0 := by
  have hcount := B.counts f
  rcases Nat.eq_zero_or_pos (tablesAll M w.mem roots f) with h | h
  · exact h
  · have := B.alone f h
    omega

lemma other {r : Phys} (hr : root ∈ roots) (hr' : r ∈ roots)
    (hne : r ≠ root) (ht : 0 < tables M w.mem root t) : tables M w.mem r t = 0 := by
  have hsum : tables M w.mem root t + tables M w.mem r t ≤ tablesAll M w.mem roots t :=
    tableCount_add_le_forestCount M.format hr hr' hne.symm t
  have := B.separate t
  omega

lemma hierarchies (hr : root ∈ roots)
    (ht : 0 < tables M w.mem root t) (H : Hierarchy M (update w.mem t i e) root) :
    ∀ r ∈ roots, Hierarchy M (update w.mem t i e) r := by
  intro r hr'
  by_cases hne : r = root
  · rw [hne]
    exact H
  · exact (B.hierarchy r hr').elsewhere
      (update_agrees M.format (B.other hr hr' hne ht) i e)

lemma elsewhere {w' : World}
    (same : ∀ f, 0 < tablesAll M w.mem roots f → w'.mem f = w.mem f) (hrefs : w'.refs = w.refs) :
    Balanced M roots w' loose := by
  have htables (f : Phys) : tablesAll M w'.mem roots f = tablesAll M w.mem roots f :=
    forest_congr M.format _ _ same
  have hleaves (f : Phys) : leavesAll M w'.mem roots f = leavesAll M w.mem roots f :=
    forest_congr M.format _ _ same
  exact {
    separate := fun f => by rw [htables]; exact B.separate f
    hierarchy := fun r hr => (B.hierarchy r hr).elsewhere fun f hf =>
      same f (lt_of_lt_of_le hf (tables_le_tablesAll hr f))
    counts := fun f => by rw [hrefs, htables, hleaves]; exact B.counts f
    alone := fun f hf => by rw [htables] at hf; rw [hrefs]; exact B.alone f hf
    frame := fun f hf => by rw [hrefs] at hf; exact B.frame f hf }

lemma put (hr : root ∈ roots)
    (hw : walk M.format w.mem DEPTH root p = some t) (hp : p.length = DEPTH)
    (hloose : ∀ f, loose'.count f + names M f e = loose.count f + names M f (w.mem t i)) :
    Balanced M roots (w.store t i e) loose' := by
  have htables (f : Phys) : tablesAll M (update w.mem t i e) roots f = tablesAll M w.mem roots f :=
    forest_leaf hr B.separate hw hp e (fun g => if g = f then 1 else 0) fun _ => 0
  have hleaves (f : Phys) := forest_leaf (i := i) hr B.separate hw hp e (fun _ => 0) (names M f)
  have H := B.hierarchy root hr
  exact {
    separate := fun f => by rw [store_mem, htables]; exact B.separate f
    hierarchy := B.hierarchies hr (H.tables_pos (le_of_eq hp) hw) (H.rename (.leaf hp) hw)
    counts := fun f => by
      have hcount := B.counts f
      have hold := hleaves f
      have hnew := hloose f
      rw [store_refs, store_mem, htables]
      simp only [leavesAll] at hcount ⊢
      omega
    alone := fun f hf => by rw [store_mem, htables] at hf; exact B.alone f hf
    frame := B.frame }

lemma widen (hr : root ∈ roots)
    (hw : walk M.format w.mem DEPTH root p = some t) (hp : p.length < DEPTH)
    (R : Renames M w.mem p t i e) : Balanced M roots (w.store t i e) loose := by
  have htables (f : Phys) : tablesAll M (update w.mem t i e) roots f = tablesAll M w.mem roots f :=
    forest_rename hr B.separate hw R hp _ _
  have hleaves (f : Phys) : leavesAll M (update w.mem t i e) roots f = leavesAll M w.mem roots f :=
    forest_rename hr B.separate hw R hp _ _
  have H := B.hierarchy root hr
  exact {
    separate := fun f => by rw [store_mem, htables]; exact B.separate f
    hierarchy := B.hierarchies hr (H.tables_pos R.length hw) (H.rename R hw)
    counts := fun f => by rw [store_mem, htables, hleaves]; exact B.counts f
    alone := fun f hf => by rw [store_mem, htables] at hf; exact B.alone f hf
    frame := B.frame }

end

lemma link (L : M.Lawful) (B : Balanced M roots w (c :: rest)) (hr : root ∈ roots)
    (K : Links M w.mem root p t i c) (hone : w.refs c = 1) (under : Bits) :
    Balanced M roots (w.store t i (M.table c under)) rest := by
  have H := B.hierarchy root hr
  have htables (f : Phys) : tablesAll M (update w.mem t i (M.table c under)) roots f =
      tablesAll M w.mem roots f + if c = f then 1 else 0 :=
    forest_link L hr B.separate H (fun _ _ => rfl) K under
  have hleaves (f : Phys) : leavesAll M (update w.mem t i (M.table c under)) roots f =
      leavesAll M w.mem roots f :=
    forest_link L hr B.separate H (fun _ h => names_absent h) K under
  have hzero := B.not_table (mem_cons_self : c ∈ c :: rest)
  exact {
    separate := fun f => by
      have := B.separate f
      rw [store_mem, htables]
      split
      · next hcf => subst hcf; omega
      · omega
    hierarchy := B.hierarchies hr (H.tables_pos (le_of_lt K.length) K.walk) (H.link L K under)
    counts := fun f => by
      have hcount := B.counts f
      rw [count_cons] at hcount
      rw [store_refs, store_mem, htables, hleaves]
      simp only [beq_iff_eq] at hcount
      omega
    alone := fun f hf => by
      rw [store_mem, htables] at hf
      by_cases hcf : c = f
      · rw [← hcf]
        exact hone
      · rw [if_neg hcf] at hf
        exact B.alone f hf
    frame := B.frame }

lemma unlink (L : M.Lawful) (B : Balanced M roots w loose) (hr : root ∈ roots)
    (U : Unlinks M w.mem root p t i c) : Balanced M roots (w.store t i 0) (c :: loose) := by
  have H := B.hierarchy root hr
  have htables (f : Phys) : tablesAll M (update w.mem t i 0) roots f + (if c = f then 1 else 0) =
      tablesAll M w.mem roots f :=
    forest_unlink L hr B.separate (fun _ _ => rfl) U
  have hleaves (f : Phys) : leavesAll M (update w.mem t i 0) roots f = leavesAll M w.mem roots f :=
    forest_unlink (a := fun _ => 0) (b := names M f) L hr B.separate (fun _ h => names_absent h) U
  exact {
    separate := fun f => by
      have := B.separate f
      have := htables f
      rw [store_mem]
      omega
    hierarchy := B.hierarchies hr (H.tables_pos (le_of_lt U.length) U.walk) (H.unlink L U)
    counts := fun f => by
      have hcount := B.counts f
      have := htables f
      rw [store_refs, store_mem, hleaves, count_cons]
      simp only [beq_iff_eq]
      omega
    alone := fun f hf => by
      have := htables f
      rw [store_mem] at hf
      exact B.alone f (by omega)
    frame := B.frame }

/-- references to one frame that is no table come and go -/
lemma recount {w' : World} (B : Balanced M roots w loose) (hmem : w'.mem = w.mem)
    (hother : ∀ g, g ≠ f → w'.refs g = w.refs g)
    (hloose : ∀ g, w'.refs g + loose.count g = w.refs g + loose'.count g)
    (htable : tablesAll M w.mem roots f = 0) (hframe : M.Frame f) : Balanced M roots w' loose' where
  separate := hmem ▸ B.separate
  hierarchy := hmem ▸ B.hierarchy
  counts g := by
    have hcount := B.counts g
    have hsum := hloose g
    rw [hmem]
    omega
  alone g hg := by
    rw [hmem] at hg
    have hne : g ≠ f := by
      rintro rfl
      omega
    rw [hother g hne]
    exact B.alone g hg
  frame g hg := by
    by_cases hgf : g = f
    · rw [hgf]
      exact hframe
    · rw [hother g hgf] at hg
      exact B.frame g hg

lemma free (B : Balanced M roots w (f :: rest)) : Balanced M roots (w.free f) rest := by
  have hpos : 0 < w.refs f := B.refs_pos mem_cons_self
  refine B.recount (free_mem ..) (fun g hg => ?_) (fun g => ?_)
    (B.not_table mem_cons_self) (B.frame f hpos)
  · rw [free_refs, if_neg hg]
  · rw [free_refs, count_cons]
    by_cases hgf : g = f
    · subst hgf
      simp only [if_true, beq_self_eq_true]
      omega
    · simp [hgf, Ne.symm hgf]

section
variable (B : Balanced M roots w loose)
include B

/-- one more reference, which the caller holds -/
lemma gain {w' : World} (hmem : w'.mem = w.mem)
    (hrefs : ∀ g, w'.refs g = if g = f then w.refs f + 1 else w.refs g)
    (htable : tablesAll M w.mem roots f = 0) (hframe : M.Frame f) :
    Balanced M roots w' (f :: loose) := by
  refine B.recount hmem (fun g hg => ?_) (fun g => ?_) htable hframe
  · rw [hrefs, if_neg hg]
  · rw [hrefs, count_cons]
    by_cases hgf : g = f
    · subst hgf
      simp only [if_true, beq_self_eq_true]
      omega
    · simp [hgf, Ne.symm hgf]

lemma share (hpos : 0 < w.refs f)
    (hroom : w.refs f < MAX_REFERENCES) (hf : tablesAll M w.mem roots f = 0) :
    Balanced M roots (w.share f) (f :: loose) :=
  B.gain (share_mem ..) (share_refs w f hpos hroom) hf (B.frame f hpos)

lemma alloc (hzero : w.refs f = 0) (hf : M.Frame f) :
    Balanced M roots (w.alloc f) (f :: loose) := by
  have htable : tablesAll M w.mem roots f = 0 := by
    have hcount := B.counts f
    omega
  refine B.gain (alloc_mem ..) (fun g => ?_) htable hf
  rw [alloc_refs, hzero]

lemma fill (hf : tablesAll M w.mem roots f = 0)
    (words : Fin ENTRIES → Bits) : Balanced M roots (w.fill f words) loose := by
  refine B.elsewhere (fun g hg => ?_) rfl
  rw [fill_mem, if_neg]
  rintro rfl
  omega

lemma flush (tlb : Tlb) : Balanced M roots (tlb.flush w) loose := by
  cases tlb <;> exact B.elsewhere (fun _ _ => rfl) rfl

end
end Balanced

/-! ## the calls -/

section
variable {w w' : World} {stock stock' : TableStock} {rest loose : List Phys} {phys : Phys}
  {flags under : Bits} {virt : Nat} {tlb : Tlb}

def Fresh (w : World) (stock : TableStock) : Prop :=
  ∀ c ∈ stock.frames, Zeroed w.mem c ∧ w.refs c = 1

lemma Balanced.stocked (B : Balanced M roots w (stock.frames ++ rest)) (hr : root ∈ roots)
    (hfresh : Fresh w stock) : Stocked M w.mem root stock where
  nodup := by
    refine nodup_iff_count_le_one.mpr fun c => ?_
    by_cases hc : c ∈ stock.frames
    · have hcount := B.counts c
      rw [(hfresh c hc).2, count_append] at hcount
      omega
    · rw [count_eq_zero_of_not_mem hc]
      omega
  frame c hc := B.frame c (B.refs_pos (mem_append_left _ hc))
  zeroed c hc := (hfresh c hc).1
  fresh c hc := by
    have hzero := B.not_table (mem_append_left rest hc)
    have hle : tables M w.mem root c ≤ tablesAll M w.mem roots c := tables_le_tablesAll hr c
    omega

lemma Balanced.growing (B : Balanced M roots w (stock.frames ++ rest)) (hr : root ∈ roots)
    (hfresh : Fresh w stock) : Growing M root (w, stock) :=
  ⟨B.hierarchy root hr, B.stocked hr hfresh⟩

lemma Fresh.store (hfresh : Fresh w stock) (B : Balanced M roots w (stock.frames ++ rest))
    (hr : root ∈ roots) (hw : walk M.format w.mem DEPTH root p = some t) (hp : p.length ≤ DEPTH)
    (i : Fin ENTRIES) (e : Bits) : Fresh (w.store t i e) stock := by
  refine fun c hc => ⟨(hfresh c hc).1.update ?_, (hfresh c hc).2⟩
  rintro rfl
  have hzero := B.not_table (mem_append_left rest hc)
  have hpos := (B.hierarchy root hr).tables_pos hp hw
  have hle : tables M w.mem root c ≤ tablesAll M w.mem roots c := tables_le_tablesAll hr c
  omega

section
variable (L : M.Lawful)
include L

lemma Grow.balanced (G : Grow M root under s s') (hr : root ∈ roots)
    (B : Balanced M roots s.1 (s.2.frames ++ rest)) (hfresh : Fresh s.1 s.2) :
    Balanced M roots s'.1 (s'.2.frames ++ rest) ∧ Fresh s'.1 s'.2 := by
  have g := B.growing hr hfresh
  have zeroed := (G.growing L g).stocked.zeroed
  cases G with
  | link K =>
    refine ⟨B.link L hr K (hfresh _ (by simp)).2 under, fun c hc => ⟨zeroed c hc, ?_⟩⟩
    exact (hfresh c (mem_cons_of_mem _ hc)).2
  | widen hp hw hpres hwide =>
    refine ⟨B.widen hr hw hp (.widen L g.hierarchy hp hw hpres hwide), fun c hc => ⟨zeroed c hc, ?_⟩⟩
    exact (hfresh c hc).2

lemma Grows.balanced (G : Grows M root under s s') (hr : root ∈ roots)
    (B : Balanced M roots s.1 (s.2.frames ++ rest)) (hfresh : Fresh s.1 s.2) :
    Balanced M roots s'.1 (s'.2.frames ++ rest) ∧ Fresh s'.1 s'.2 := by
  induction G with
  | refl => exact ⟨B, hfresh⟩
  | tail _ last ih => exact last.balanced L hr ih.1 ih.2

section
variable (hr : root ∈ roots)
include hr

/-- a publish moves the page's reference into the descriptor, or leaves it with the caller -/
lemma publish_balanced (B : Balanced M roots w (phys :: (stock.frames ++ rest)))
    (hfresh : Fresh w stock) (hflags : has flags M.presentBit) (virt : Nat) (tlb : Tlb) :
    let r := publish M w root virt phys flags stock tlb
    Fresh r.1 r.2.1 ∧ (r.2.2.2 = .ok () → Balanced M roots r.1 (r.2.1.frames ++ rest)) ∧
    (r.2.2.2 ≠ .ok () → Balanced M roots r.1 (phys :: (r.2.1.frames ++ rest))) := by
  have hswap : (phys :: (stock.frames ++ rest)).Perm (stock.frames ++ (phys :: rest)) :=
    perm_middle.symm
  have B := B.perm hswap
  obtain ⟨w1, stock1, grows, hcases⟩ := publish_cases L virt phys flags (B.growing hr hfresh) tlb
  obtain ⟨B1, hfresh1⟩ : Balanced M roots w1 (stock1.frames ++ (phys :: rest)) ∧ Fresh w1 stock1 :=
    Grows.balanced L grows hr B hfresh
  have back : (stock1.frames ++ (phys :: rest)).Perm (phys :: (stock1.frames ++ rest)) :=
    perm_middle
  rcases hcases with ⟨-, hrun⟩ | ⟨-, t, hw, ⟨-, hrun⟩ | ⟨hpres, hrun⟩⟩
  · simp only [hrun]
    exact ⟨hfresh1, fun h => by simp at h, fun _ => B1.perm back⟩
  · simp only [hrun]
    exact ⟨hfresh1, fun h => by simp at h, fun _ => B1.perm back⟩
  · simp only [hrun]
    have hphys : M.Frame phys := B1.frame phys (B1.refs_pos (by simp))
    refine ⟨hfresh1.store B1 hr hw (le_of_eq (length_route virt DEPTH)) _ _, fun _ => ?_,
      fun h => absurd rfl h⟩
    refine B1.put hr hw (length_route virt DEPTH) fun f => ?_
    rw [names_present (L.present_leaf phys flags hflags), L.addr_leaf, hphys, names_absent hpres,
      back.count_eq, count_cons]
    simp

/-- the books after a change that hands back what the descriptor held, or found nothing -/
def Handed (M : Machine) (roots : List Phys) (w w' : World) (loose' : Phys → List Phys) :
    Option Phys → Prop
  | none => w' = w
  | some old => Balanced M roots w' (loose' old)

omit L in
lemma rewrite_balanced (B : Balanced M roots w loose) (change : Bits → Bits)
    (loose' : Phys → List Phys) (h : ∀ old, M.present old = true →
      ∀ f, (loose' (M.addr old)).count f + names M f (change old) = loose.count f + if M.addr old = f then 1 else 0)
    (virt : Nat) (tlb : Tlb) : Handed M roots w (rewrite M w root virt change tlb).1 loose'
      ((rewrite M w root virt change tlb).2.2.map M.addr) := by
  rcases rewrite_cases w root virt change tlb with ⟨-, hrun⟩ | ⟨t, hw, hpres, -, hrun⟩
  · rw [hrun]
    rfl
  · rw [hrun]
    refine B.put hr hw (length_route virt DEPTH) fun f => ?_
    rw [names_present hpres]
    exact h _ hpres f

lemma replace_balanced (B : Balanced M roots w (phys :: rest)) (hflags : has flags M.presentBit)
    (virt : Nat) (tlb : Tlb) :
    Handed M roots w (replace M w root virt phys flags tlb).1 (fun old => old :: rest)
      (replace M w root virt phys flags tlb).2.2 := by
  have hphys : M.Frame phys := B.frame phys (B.refs_pos (by simp))
  refine rewrite_balanced hr B (fun _ => M.leaf phys flags) (fun old => old :: rest)
    (fun old _ f => ?_) virt tlb
  rw [names_present (L.present_leaf phys flags hflags), L.addr_leaf, hphys, count_cons, count_cons]
  simp only [beq_iff_eq]
  omega

lemma protect_balanced (B : Balanced M roots w loose) (hflags : has flags M.presentBit)
    (virt : Nat) (tlb : Tlb) : Handed M roots w (protect M w root virt flags tlb).1 (fun _ => loose)
      (protect M w root virt flags tlb).2.2 := by
  refine rewrite_balanced hr B (fun old => M.leaf (M.addr old) flags) (fun _ => loose)
    (fun old _ f => ?_) virt tlb
  rw [names_present (L.present_leaf _ flags hflags), L.addr_leaf, L.frame_addr]

omit hr in
lemma Shrinks.balanced {s s' : World × Tlb × TableStock} (S : Shrinks M root s s')
    (hr : root ∈ roots) (B : Balanced M roots s.1 (s.2.2.frames ++ rest)) :
    Balanced M roots s'.1 (s'.2.2.frames ++ rest) := by
  induction S with
  | refl => exact B
  | tail _ last ih =>
    cases last with
    | unlink U _ => exact ih.unlink L hr U

lemma unmap_balanced (B : Balanced M roots w (stock.frames ++ rest)) (virt : Nat) (tlb : Tlb) :
    let r := unmap M w root virt tlb stock
    Handed M roots w r.1 (fun old => old :: (r.2.2.1.frames ++ rest)) r.2.2.2 := by
  have hrw := rewrite_balanced hr B (fun _ => 0) (fun old => old :: (stock.frames ++ rest))
    (fun old _ f => by
      rw [names_absent L.present_zero, count_cons]
      simp only [beq_iff_eq]
      omega) virt tlb
  simp only [unmap]
  rcases hrun : rewrite M w root virt (fun _ => 0) tlb with ⟨w1, tlb1, _ | old⟩
  · rw [hrun] at hrw
    exact hrw
  · rw [hrun] at hrw
    have B1 : Balanced M roots w1 (stock.frames ++ (M.addr old :: rest)) :=
      Balanced.perm hrw perm_middle.symm
    have shrinks : Shrinks M root (w1, tlb1, stock) _ := reclaim_shrinks w1 virt tlb1 stock
    have B2 := Shrinks.balanced L shrinks hr B1
    dsimp only
    rcases hrec : reclaim M w1 root virt tlb1 stock with ⟨w2, tlb2, stock2⟩
    rw [hrec] at B2
    exact B2.perm perm_middle

end
end

/-! ## the fork walk -/

lemma leavesAll_pos (hr : root ∈ roots) (hleaf : Tables.leaf M w root virt = some bits) :
    M.present bits = true ∧ 0 < leavesAll M w.mem roots (M.addr bits) := by
  rw [Tables.leaf, leafTable_eq_walk, bind_eq_some_iff] at hleaf
  obtain ⟨t, hw, hbits⟩ := hleaf
  simp only [ite_none_right_eq_some, some.injEq] at hbits
  obtain ⟨hpres, rfl⟩ := hbits
  refine ⟨hpres, ?_⟩
  have hlen := length_route virt DEPTH
  generalize hf : M.addr (w.mem t (indexOf virt 0)) = f
  have hone : names M f (w.mem t (indexOf virt 0)) = 1 := by
    rw [names_present hpres, if_pos hf]
  have hhang := hang_le_total M.format w.mem (fun _ => 0) (names M f) 0 t (indexOf virt 0)
  have hwalk := total_walk_le M.format (fun _ => 0) (names M f) (Nat.le_of_eq hlen) hw
  have hall : total M.format w.mem (fun _ => 0) (names M f) DEPTH root ≤
      leavesAll M w.mem roots f := total_le_forest M.format _ _ hr
  rw [hlen, Nat.sub_self] at hwalk
  rw [hang, hone] at hhang
  omega

lemma Fresh.ne (B : Balanced M roots w (phys :: (stock.frames ++ rest))) (hfresh : Fresh w stock)
    (hc : c ∈ stock.frames) : c ≠ phys := by
  rintro rfl
  have hcount := B.counts c
  have hpos := count_pos_iff.mpr hc
  rw [(hfresh c hc).2, count_cons_self, count_append] at hcount
  omega

lemma Fresh.not_leaf (B : Balanced M roots w (stock.frames ++ rest)) (hfresh : Fresh w stock)
    (hc : c ∈ stock.frames) : leavesAll M w.mem roots c = 0 := by
  have hcount := B.counts c
  have hpos := count_pos_iff.mpr hc
  rw [(hfresh c hc).2, count_append] at hcount
  omega

lemma publishShared_balanced (L : M.Lawful) (hr : root ∈ roots)
    (B : Balanced M roots w (phys :: (stock.frames ++ rest))) (hfresh : Fresh w stock)
    (hflags : has flags M.presentBit) (virt : Nat) (tlb : Tlb) :
    let r := publishShared M w root virt phys flags stock tlb
    Fresh r.1 r.2.1 ∧ Balanced M roots r.1 (r.2.1.frames ++ rest) := by
  obtain ⟨hfresh1, hok, herr⟩ := publish_balanced L hr B hfresh hflags virt tlb
  simp only [publishShared]
  rcases hrun : publish M w root virt phys flags stock tlb with ⟨w1, stock1, tlb1, res⟩
  rw [hrun] at hfresh1 hok herr
  cases res with
  | ok u => exact ⟨hfresh1, hok rfl⟩
  | error err =>
    have B1 : Balanced M roots w1 (phys :: (stock1.frames ++ rest)) := herr (by simp)
    refine ⟨fun c hc => ⟨(hfresh1 c hc).1, ?_⟩, B1.free⟩
    rw [free_refs, if_neg (Fresh.ne B1 hfresh1 hc)]
    exact (hfresh1 c hc).2

/-- the count of the frame to be shared can take another reference -/
def Room (M : Machine) (w : World) (parent : Phys) (virt : Nat) : Prop :=
  ∀ bits, Tables.leaf M w parent virt = some bits → w.refs (M.addr bits) < MAX_REFERENCES

lemma shareFrom_absent (h : Tables.leaf M w parent virt = none) :
    shareFrom M w root parent virt stock tlb = (w, stock, tlb, .ok ()) := by
  rw [Tables.leaf] at h
  rw [shareFrom]
  cases hw : leafTable M w parent virt with
  | none => rfl
  | some t =>
    rw [hw, bind_some] at h
    simp only [ite_eq_right_iff, reduceCtorEq, imp_false, Bool.not_eq_true] at h
    simp [h]

lemma shareFrom_mapped (root : Phys) (stock : TableStock) (tlb : Tlb)
    (h : Tables.leaf M w parent virt = some bits) :
    ∃ t, walk M.format w.mem DEPTH parent (route virt DEPTH) = some t ∧
      w.mem t (indexOf virt 0) = bits ∧ shareFrom M w root parent virt stock tlb =
        match M.shared (M.flags bits) with
        | some shared =>
          publishShared M
            ((w.share (M.addr bits)).store t (indexOf virt 0) (M.leaf (M.addr bits) shared))
            root virt (M.addr bits) shared stock (tlb.note virt)
        | none =>
          publishShared M (w.share (M.addr bits)) root virt (M.addr bits) (M.flags bits) stock
            tlb := by
  rw [Tables.leaf, bind_eq_some_iff] at h
  obtain ⟨t, hw, hbits⟩ := h
  simp only [ite_none_right_eq_some, some.injEq] at hbits
  obtain ⟨hpres, rfl⟩ := hbits
  refine ⟨t, by rw [← leafTable_eq_walk, hw], rfl, ?_⟩
  rw [shareFrom, hw]
  exact if_neg (by simp [hpres])

/-- a share takes a reference for the child and marks the parent's page -/
lemma shareFrom_started (L : M.Lawful) (root : Phys) (hparent : parent ∈ roots)
    (B : Balanced M roots w (stock.frames ++ rest)) (hfresh : Fresh w stock)
    (hroom : Room M w parent virt) (tlb : Tlb) (hleaf : Tables.leaf M w parent virt = some bits) :
    ∃ w1 flags tlb1, Balanced M roots w1 (M.addr bits :: (stock.frames ++ rest)) ∧
      Fresh w1 stock ∧ has flags M.presentBit ∧
      (∀ f, tablesAll M w1.mem roots f = tablesAll M w.mem roots f) ∧
      shareFrom M w root parent virt stock tlb =
        publishShared M w1 root virt (M.addr bits) flags stock tlb1 := by
  obtain ⟨hpres, hpos⟩ := leavesAll_pos hparent hleaf
  have hrefs : 0 < w.refs (M.addr bits) := by rw [B.counts]; omega
  have B1 : Balanced M roots (w.share (M.addr bits)) (M.addr bits :: (stock.frames ++ rest)) :=
    B.share hrefs (hroom bits hleaf) (B.not_table_of_leaf hpos)
  have hfresh1 : Fresh (w.share (M.addr bits)) stock := by
    intro c hc
    have hne : c ≠ M.addr bits := by
      rintro rfl
      have := Fresh.not_leaf B hfresh hc
      omega
    refine ⟨(hfresh c hc).1, ?_⟩
    rw [share_refs w _ hrefs (hroom bits hleaf), if_neg hne]
    exact (hfresh c hc).2
  have hflags := L.present_flags bits hpres
  obtain ⟨t, hw, hbits, hrun⟩ := shareFrom_mapped root stock tlb hleaf
  cases hshared : M.shared (M.flags bits) with
  | none =>
    rw [hshared] at hrun
    exact ⟨_, _, _, B1, hfresh1, hflags, fun _ => rfl, hrun⟩
  | some shared =>
    rw [hshared] at hrun
    have hflags' := L.present_shared _ _ hshared hflags
    have hlen := length_route virt DEPTH
    refine ⟨_, _, _, ?_, ?_, hflags', fun f => ?_, hrun⟩
    · -- the parent's descriptor names the frame it named
      refine B1.put hparent hw hlen fun f => ?_
      rw [names_present (L.present_leaf _ shared hflags'), L.addr_leaf, L.frame_addr,
        share_mem, hbits, names_present hpres]
    · exact hfresh1.store (B1.perm perm_middle.symm) hparent hw (le_of_eq hlen) _ _
    · exact forest_leaf hparent B.separate hw hlen _ (fun g => if g = f then 1 else 0) fun _ => 0

def RangeRoom (M : Machine) (child parent : Phys) :
    Nat → Nat → World → TableStock → Tlb → Prop
  | _, 0, _, _, _ => True
  | start, count + 1, w, stock, tlb =>
    Room M w parent start ∧ let r := shareFrom M w child parent start stock tlb
      r.2.2.2 = .ok () → RangeRoom M child parent (start + PAGE_SIZE) count r.1 r.2.1 r.2.2.1

end
end ClaudeOs.Mm
