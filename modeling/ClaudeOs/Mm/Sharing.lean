import ClaudeOs.Mm.Marks
import ClaudeOs.Mm.Balance

/-!
# Sharing the pages of one hierarchy with another

The steps of a fork, on the tables of the parent and of the child: the search for the next
last-level table, and the share of a page.  Neither needs the books to balance: it is enough that
the frames both sides stand on are handed out, so that the allocator does not hand them out again.

* `nextFrom_spec`  what the search skips holds no page;
* `Forking`  the two hierarchies, the frames brought along, and the pages shared;
* `markSide`, `copySide`  what becomes of a page in the parent, and what the child gets;
* `SharedTo.shareRange`  a range of pages shared, as a change of two maps.
-/

namespace ClaudeOs.Mm
open Radix Tables Option Nat
variable {M : Machine} {w : World}

/-! ## skipping what is not there -/

lemma missingFrom_le (w : World) (virt h : Nat) (t : Phys) :
    missingFrom M w virt (down h) t ≤ h := by
  induction h generalizing t with
  | zero => exact le_refl _
  | succ h ih =>
    rw [down, missingFrom]
    cases step M w virt (h + 1) t with
    | none => exact le_refl _
    | some next => exact le_succ_of_le (ih next)

variable {level virt virt' k stop v : Nat} {t root phys : Phys} {m : PageMap} {flags under : Bits}
  {stock' : TableStock}

lemma step_congr (h : indexOf virt' level = indexOf virt level) (t : Phys) :
    step M w virt' level t = step M w virt level t := by rw [step, step, h]

lemma descend_missing (virt : Nat) {h : Nat} (hpos : 0 < missingFrom M w virt (down h) t)
    (hsame : ∀ k, missingFrom M w virt (down h) t ≤ k → indexOf virt' k = indexOf virt k) :
    descend M w virt' (down h) t = none := by
  induction h generalizing t with
  | zero => exact absurd hpos (lt_irrefl _)
  | succ h ih =>
    have hstep := step_congr (M := M) (w := w)
      (hsame (h + 1) (missingFrom_le w virt (h + 1) t)) t
    rw [down, descend, hstep]
    rw [down, missingFrom] at hpos hsame
    cases hnext : step M w virt (h + 1) t with
    | none => rfl
    | some next =>
      rw [hnext] at hpos hsame
      exact ih hpos hsame

lemma levelSize_pos (level : Nat) : 0 < levelSize level := Nat.two_pow_pos _

lemma levelSize_mul (h : level ≤ k) :
    levelSize k = levelSize level * 2 ^ (LEVEL_BITS * (k - level)) := by
  rw [levelSize, levelSize, ← Nat.pow_add]
  congr 1
  have : LEVEL_BITS * k = LEVEL_BITS * level + LEVEL_BITS * (k - level) := by
    rw [← Nat.mul_add, Nat.add_sub_cancel' h]
  omega

lemma indexOf_congr (h : virt' / levelSize level = virt / levelSize level) (hk : level ≤ k) :
    indexOf virt' k = indexOf virt k := by
  have hdiv : ∀ v, v / levelSize k = v / levelSize level / 2 ^ (LEVEL_BITS * (k - level)) := by
    intro v
    rw [levelSize_mul hk, Nat.div_div_eq_div_mul]
  have heq : virt' / levelSize k = virt / levelSize k := by rw [hdiv, hdiv, h]
  rw [Fin.ext_iff]
  exact congrArg (· % ENTRIES) heq

/-- no last-level table lies in what a missing descriptor covers -/
lemma leafTable_skipped (hmiss : missingTables M w root virt = level + 1) (hlo : virt ≤ virt')
    (hhi : virt' < virt / levelSize (level + 1) * levelSize (level + 1) + levelSize (level + 1)) :
    leafTable M w root virt' = none := by
  have hpos := levelSize_pos (level + 1)
  have hdiv : virt' / levelSize (level + 1) = virt / levelSize (level + 1) := by
    refine Nat.le_antisymm ?_ (Nat.div_le_div_right hlo)
    have hlt : virt' < (virt / levelSize (level + 1) + 1) * levelSize (level + 1) := by
      rw [Nat.add_mul, Nat.one_mul]
      exact hhi
    exact Nat.le_of_lt_succ (Nat.div_lt_of_lt_mul (Nat.mul_comm _ _ ▸ hlt))
  rw [missingTables] at hmiss
  refine descend_missing virt (by omega) fun k hk => indexOf_congr hdiv ?_
  omega

/-- what the search for a last-level table passes over -/
structure Next (M : Machine) (w : World) (root : Phys) (limit virt block : Nat) : Prop where
  above : virt ≤ block
  below : block < limit
  whole : levelSize 1 ∣ virt → levelSize 1 ∣ block
  skipped : ∀ v, virt ≤ v → v < block → leafTable M w root v = none

lemma nextFrom_spec (root : Phys) (limit virt : Nat) :
    (∀ block, nextFrom M w root limit virt = some block → Next M w root limit virt block) ∧
      (nextFrom M w root limit virt = none →
        ∀ v, virt ≤ v → v < limit → leafTable M w root v = none) := by
  induction hn : limit - virt using Nat.strongRecOn generalizing virt with
  | _ n ih =>
    rw [nextFrom]
    by_cases hlt : virt < limit
    · rw [if_pos hlt]
      cases hmiss : missingTables M w root virt with
      | zero =>
        refine ⟨fun block h => ?_, fun h => nomatch h⟩
        obtain rfl := some.inj h
        exact ⟨Nat.le_refl _, hlt, id, fun v hlo hhi => absurd hhi (Nat.not_lt.mpr hlo)⟩
      | succ level =>
        have hpos := levelSize_pos (level + 1)
        have hup := Nat.lt_div_mul_add (a := virt) hpos
        obtain ⟨hsome, hnone⟩ := ih _ (by omega)
          (virt / levelSize (level + 1) * levelSize (level + 1) + levelSize (level + 1)) rfl
        refine ⟨fun block h => ?_, fun h v hlo hhi => ?_⟩
        · have N := hsome block h
          refine ⟨Nat.le_trans (Nat.le_of_lt hup) N.above, N.below, fun _ => N.whole ?_, ?_⟩
          · have hdvd : levelSize 1 ∣ levelSize (level + 1) :=
              ⟨_, levelSize_mul (Nat.le_add_left 1 level)⟩
            exact Dvd.dvd.add (Dvd.dvd.mul_left hdvd _) hdvd
          · intro v hlo hhi
            rcases Nat.lt_or_ge v (virt / levelSize (level + 1) * levelSize (level + 1) +
              levelSize (level + 1)) with hv | hv
            · exact leafTable_skipped hmiss hlo hv
            · exact N.skipped v hv hhi
        · rcases Nat.lt_or_ge v (virt / levelSize (level + 1) * levelSize (level + 1) +
            levelSize (level + 1)) with hv | hv
          · exact leafTable_skipped hmiss hlo hv
          · exact hnone h v hv hhi
    · rw [if_neg hlt]
      exact ⟨fun block h => (nomatch h), fun _ v hlo hhi => by omega⟩

/-! ## what becomes of a shared page -/

def markSide (M : Machine) (e : Phys × Bits) : Option (Phys × Bits) :=
  match M.shared e.2 with
  | some shared => entry M e.1 shared
  | none => some e

def copySide (M : Machine) (e : Phys × Bits) : Option (Phys × Bits) :=
  entry M e.1 ((M.shared e.2).getD e.2)

/-! ## two hierarchies -/

/-- the hierarchies of a fork: apart from each other and from the frames brought along and kept -/
structure Forking (M : Machine) (parent child : Phys) (kept : Phys → Prop) (mem₀ : Memory)
    (w : World) (stock : TableStock) : Prop where
  hierarchy : Hierarchy M w.mem parent
  growing : Growing M child (w, stock)
  apart : ∀ f, 0 < tables M w.mem parent f → tables M w.mem child f = 0 ∧ f ∉ stock.frames
  counted : ∀ f, 0 < tables M w.mem parent f ∨ 0 < tables M w.mem child f ∨ f ∈ stock.frames ∨
    kept f → 0 < w.refs f
  outside : ∀ f, kept f → tables M w.mem parent f = 0 ∧ tables M w.mem child f = 0 ∧
    f ∉ stock.frames
  same : ∀ f, kept f → w.mem f = mem₀ f

/-- the parts of a world that a hierarchy reads are as they were -/
def Untouched (M : Machine) (root : Phys) (w w' : World) : Prop :=
  ∀ f, 0 < tables M w.mem root f → w'.mem f = w.mem f

lemma Untouched.tables_eq {w w' : World} (U : Untouched M root w w') (f : Phys) :
    tables M w'.mem root f = tables M w.mem root f := by
  rw [tables, tables, tableCount, tableCount, total_congr M.format _ _ DEPTH root U]

lemma Untouched.trans {w w' w'' : World} (U : Untouched M root w w')
    (U' : Untouched M root w' w'') : Untouched M root w w'' := fun f hf =>
  (U' f (by rwa [U.tables_eq])).trans (U f hf)

lemma Untouched.holds {w w' : World} (U : Untouched M root w w') (H : Hierarchy M w.mem root)
    (A : Holds M w root m) : Holds M w' root m :=
  A.same fun _ j hq => H.held_elsewhere U (le_of_eq hq) j

namespace Forking
variable {parent child : Phys} {kept : Phys → Prop} {mem0 : Memory} {w' : World}
  {stock : TableStock}

section
variable (F : Forking M parent child kept mem0 w stock)
include F

lemma recount (hmem : w'.mem = w.mem)
    (hrefs : ∀ f, 0 < w.refs f → 0 < w'.refs f) : Forking M parent child kept mem0 w' stock where
  hierarchy := by
    rw [hmem]
    exact F.hierarchy
  growing := by
    have g := F.growing
    refine ⟨?_, ?_⟩
    · show Hierarchy M w'.mem child
      rw [hmem]
      exact g.hierarchy
    · show Stocked M w'.mem child stock
      rw [hmem]
      exact g.stocked
  apart f := by
    rw [hmem]
    exact F.apart f
  counted f hf := by
    rw [hmem] at hf
    exact hrefs f (F.counted f hf)
  outside f := by
    rw [hmem]
    exact F.outside f
  same f := by
    rw [hmem]
    exact F.same f

lemma storeParent (hw : walk M.format w.mem DEPTH parent (route virt DEPTH) = some t)
    (bits : Bits) : Forking M parent child kept mem0 (w.store t (indexOf virt 0) bits) stock ∧
      Untouched M child w (w.store t (indexOf virt 0) bits) := by
  have hlen : (route virt DEPTH).length = DEPTH := length_route virt DEPTH
  have R : Renames M w.mem (route virt DEPTH) t (indexOf virt 0) bits := .leaf hlen
  have ht : 0 < tables M w.mem parent t := F.hierarchy.tables_pos (le_of_eq hlen) hw
  obtain ⟨htc, hts⟩ := F.apart t ht
  have hother : ∀ f, f ≠ t → (w.store t (indexOf virt 0) bits).mem f = w.mem f :=
    fun f hf => update_of_table_ne w.mem t _ bits hf
  have hparent : ∀ f, tables M (w.store t (indexOf virt 0) bits).mem parent f =
      tables M w.mem parent f := R.tables_eq F.hierarchy hw
  have U : Untouched M child w (w.store t (indexOf virt 0) bits) := by
    intro f hf
    refine hother f ?_
    rintro rfl
    omega
  refine ⟨⟨F.hierarchy.rename R hw, ⟨F.growing.hierarchy.elsewhere U, ?_⟩, ?_, ?_, ?_, ?_⟩, U⟩
  · have S := F.growing.stocked
    refine ⟨S.nodup, S.frame, fun c hc => ?_, fun c hc => ?_⟩
    · exact (S.zeroed c hc).update fun heq => hts (heq ▸ hc)
    · rw [U.tables_eq]
      exact S.fresh c hc
  · intro f hf
    rw [hparent] at hf
    rw [U.tables_eq]
    exact F.apart f hf
  · intro f hf
    rw [hparent, U.tables_eq] at hf
    exact F.counted f hf
  · intro f hf
    rw [hparent, U.tables_eq]
    exact F.outside f hf
  · intro f hf
    refine (hother f ?_).trans (F.same f hf)
    rintro rfl
    have := (F.outside f hf).1
    omega

lemma outsideChild {p : List (Fin ENTRIES)} (hp : p.length ≤ DEPTH)
    (hw : walk M.format w.mem DEPTH child p = some t) (i : Fin ENTRIES) (bits : Bits) :
    Untouched M parent w (w.store t i bits) ∧ ∀ f, kept f → (w.store t i bits).mem f = w.mem f := by
  have ht : 0 < tables M w.mem child t := F.growing.hierarchy.tables_pos hp hw
  constructor
  · intro f hf
    refine update_of_table_ne w.mem t i bits ?_
    rintro rfl
    have := (F.apart f hf).1
    omega
  · intro f hf
    refine update_of_table_ne w.mem t i bits ?_
    rintro rfl
    have := (F.outside f hf).2.1
    omega

/-- a store that leaves what the child's descriptor names -/
lemma renameChild {p : List (Fin ENTRIES)} {i : Fin ENTRIES} {bits : Bits}
    (R : Renames M w.mem p t i bits) (hw : walk M.format w.mem DEPTH child p = some t) :
    Forking M parent child kept mem0 (w.store t i bits) stock ∧
      Untouched M parent w (w.store t i bits) := by
  have H : Hierarchy M w.mem child := F.growing.hierarchy
  obtain ⟨U, hkept⟩ := F.outsideChild R.length hw i bits
  have hchild : ∀ f, tables M (w.store t i bits).mem child f = tables M w.mem child f :=
    R.tables_eq H hw
  refine ⟨⟨F.hierarchy.elsewhere U, ⟨H.rename R hw, F.growing.stocked.rename H R hw⟩, ?_, ?_, ?_, ?_⟩, U⟩
  · intro f hf
    rw [U.tables_eq] at hf
    rw [hchild]
    exact F.apart f hf
  · intro f hf
    rw [U.tables_eq, hchild] at hf
    exact F.counted f hf
  · intro f hf
    rw [U.tables_eq, hchild]
    exact F.outside f hf
  · exact fun f hf => (hkept f hf).trans (F.same f hf)

lemma storeChild (hw : walk M.format w.mem DEPTH child (route virt DEPTH) = some t)
    (bits : Bits) : Forking M parent child kept mem0 (w.store t (indexOf virt 0) bits) stock ∧
      Untouched M parent w (w.store t (indexOf virt 0) bits) :=
  F.renameChild (.leaf (length_route virt DEPTH)) hw

lemma grow (L : M.Lawful) (G : Grow M child under (w, stock) (w', stock')) :
    Forking M parent child kept mem0 w' stock' ∧ Untouched M parent w w' := by
  have g := G.growing L F.growing
  have H : Hierarchy M w.mem child := F.growing.hierarchy
  cases G with
  | @link _ p t c i rest K =>
    obtain ⟨U, hkept⟩ := F.outsideChild (le_of_lt K.length) K.walk i (M.table c under)
    have hchild : ∀ f, tables M (w.store t i (M.table c under)).mem child f =
        tables M w.mem child f + if c = f then 1 else 0 := K.tables_eq L H under
    have hc : c ∈ c :: rest := List.mem_cons_self ..
    refine ⟨⟨F.hierarchy.elsewhere U, g, ?_, ?_, ?_, ?_⟩, U⟩
    · intro f hf
      rw [U.tables_eq] at hf
      obtain ⟨hzero, hout⟩ := F.apart f hf
      refine ⟨?_, fun h => hout (List.mem_cons_of_mem c h)⟩
      rw [hchild, hzero, if_neg]
      rintro rfl
      exact hout hc
    · intro f hf
      rw [U.tables_eq, hchild] at hf
      refine F.counted f ?_
      rcases hf with hf | hf | hf | hf
      · exact .inl hf
      · by_cases hcf : c = f
        · exact .inr (.inr (.inl (hcf ▸ hc)))
        · rw [if_neg hcf, add_zero] at hf
          exact .inr (.inl hf)
      · exact .inr (.inr (.inl (List.mem_cons_of_mem c hf)))
      · exact .inr (.inr (.inr hf))
    · intro f hf
      obtain ⟨hp, hzero, hout⟩ := F.outside f hf
      refine ⟨?_, ?_, fun h => hout (List.mem_cons_of_mem c h)⟩
      · rw [U.tables_eq]
        exact hp
      · rw [hchild, hzero, if_neg]
        rintro rfl
        exact hout hc
    · exact fun f hf => (hkept f hf).trans (F.same f hf)
  | @widen _ p t i wider _ hp hw hpres hwide =>
    exact F.renameChild (.widen L H hp hw hpres hwide) hw

lemma grows (L : M.Lawful) {s : World × TableStock} (G : Grows M child under (w, stock) s) :
    Forking M parent child kept mem0 s.1 s.2 ∧ Untouched M parent w s.1 := by
  induction G with
  | refl => exact ⟨F, fun _ _ => rfl⟩
  | @tail s1 s2 _ last ih =>
    obtain ⟨F1, U1⟩ := ih
    obtain ⟨F2, U2⟩ := F1.grow L last
    exact ⟨F2, U1.trans U2⟩

lemma publish (L : M.Lawful) {mp mc : PageMap} (Ap : Holds M w parent mp)
    (Ac : Holds M w child mc) (hv : pageOf virt = virt) {tlb tlb' : Tlb}
    (h : Tables.publish M w child virt phys flags stock tlb = (w', stock', tlb', .ok ())) :
    Forking M parent child kept mem0 w' stock' ∧ Holds M w' parent mp ∧
      Holds M w' child (mc.set virt (entry M phys flags)) := by
  obtain ⟨w1, stock1, grows, hcases⟩ := publish_cases L virt phys flags F.growing tlb
  obtain ⟨F1, U1⟩ := F.grows L grows
  have A1 : Holds M w1 child mc := Ac.same fun q j hq => Grows.held_eq L grows F.growing hq j
  rcases hcases with ⟨-, hrun⟩ | ⟨-, t, hw, ⟨-, hrun⟩ | ⟨-, hrun⟩⟩
  · rw [hrun] at h
    cases h
  · rw [hrun] at h
    cases h
  · rw [hrun] at h
    cases h
    obtain ⟨F2, U2⟩ := F1.storeChild hw (M.leaf phys flags)
    exact ⟨F2, (U1.trans U2).holds F.hierarchy Ap, A1.store F1.growing.hierarchy hv hw _⟩

lemma share (phys : Phys) : Forking M parent child kept mem0 (w.share phys) stock := by
  refine F.recount rfl fun f hf => ?_
  show 0 < (if w.refs phys = 0 then w.refs
    else World.bump w.refs phys (min (w.refs phys + 1) MAX_REFERENCES)) f
  split
  · exact hf
  · rw [World.bump]
    split
    · simp only [MAX_REFERENCES]
      omega
    · exact hf

end

def parentAt (M : Machine) (m₀ : PageMap) (stop : Nat) : PageMap := fun v =>
  if v < stop then (m₀ v).bind (markSide M) else m₀ v

def childAt (M : Machine) (m₀ : PageMap) (stop : Nat) : PageMap := fun v =>
  if v < stop then (m₀ v).bind (copySide M) else none

end Forking

open Forking

lemma Holds.congr {m' : PageMap} (A : Holds M w root m) (h : ∀ v, pageOf v = v → m v = m' v) :
    Holds M w root m' := by
  intro virt
  rw [A virt]
  refine h _ ?_
  simp only [pageOf, SPAN, PAGE_SIZE, PAGE_BITS, LEVEL_BITS]
  omega

lemma page_lt_succ (hv : pageOf v = v) (hstop : pageOf stop = stop) :
    v < stop + PAGE_SIZE ↔ v < stop ∨ v = stop := by
  simp only [pageOf, PAGE_SIZE] at *
  omega

lemma pageOf_next (hv : pageOf virt = virt) (h : virt + PAGE_SIZE < SPAN) :
    pageOf (virt + PAGE_SIZE) = virt + PAGE_SIZE := by
  rw [pageOf, mod_eq_of_lt (by omega)] at hv
  rw [pageOf, mod_eq_of_lt h, add_div_right virt (by decide), succ_mul, hv]

section
variable {parent child : Phys} {kept : Phys → Prop} {mem0 : Memory} {w' : World}
  {stock stock' : TableStock} {tlb tlb' : Tlb} {m0 : PageMap} {virt : Nat}

structure SharedTo (M : Machine) (parent child : Phys) (kept : Phys → Prop) (mem₀ : Memory)
    (m₀ : PageMap) (stop : Nat) (w : World) (stock : TableStock) : Prop where
  forking : Forking M parent child kept mem₀ w stock
  parent : Holds M w parent (parentAt M m₀ stop)
  child : Holds M w child (childAt M m₀ stop)

lemma upTo_skip {stop' : Nat} {x y : Option (Phys × Bits)} (hle : stop ≤ stop')
    (h : stop ≤ v → v < stop' → x = y) : (if v < stop then x else y) = if v < stop' then x else y := by
  by_cases hlo : v < stop
  · rw [if_pos hlo, if_pos (by omega)]
  · rw [if_neg hlo]
    by_cases hhi : v < stop'
    · rw [if_pos hhi, h (by omega) hhi]
    · rw [if_neg hhi]

lemma SharedTo.skip {stop' : Nat} (S : SharedTo M parent child kept mem0 m0 stop w stock)
    (hle : stop ≤ stop') (hnone : ∀ v, pageOf v = v → stop ≤ v → v < stop' → m0 v = none) :
    SharedTo M parent child kept mem0 m0 stop' w stock where
  forking := S.forking
  parent := S.parent.congr fun v hv => upTo_skip hle fun hlo hhi => by rw [hnone v hv hlo hhi]; rfl
  child := S.child.congr fun v hv => upTo_skip hle fun hlo hhi => by rw [hnone v hv hlo hhi]; rfl

lemma upTo_succ {side : Phys × Bits → Option (Phys × Bits)} {rest : PageMap}
    (hvirt : pageOf virt = virt) (hv : pageOf v = v) :
    PageMap.set (fun v => if v < virt then (m0 v).bind side else rest v) virt ((m0 virt).bind side) v =
      if v < virt + PAGE_SIZE then (m0 v).bind side else rest v := by
  have hlt := page_lt_succ hv hvirt
  rw [PageMap.set]
  by_cases heq : v = virt
  · rw [if_pos heq, if_pos (hlt.mpr (.inr heq)), heq]
  · rw [if_neg heq]
    by_cases hlo : v < virt
    · rw [if_pos hlo, if_pos (hlt.mpr (.inl hlo))]
    · rw [if_neg hlo, if_neg fun h => (hlt.mp h).elim hlo heq]

lemma parentAt_succ (hvirt : pageOf virt = virt) (hv : pageOf v = v) :
    (parentAt M m0 virt).set virt ((m0 virt).bind (markSide M)) v =
      parentAt M m0 (virt + PAGE_SIZE) v :=
  upTo_succ hvirt hv

lemma childAt_succ (hvirt : pageOf virt = virt) (hv : pageOf v = v) :
    (childAt M m0 virt).set virt ((m0 virt).bind (copySide M)) v =
      childAt M m0 (virt + PAGE_SIZE) v :=
  upTo_succ hvirt hv

lemma publishShared_ok
    (h : publishShared M w child virt phys flags stock tlb = (w', stock', tlb', .ok ())) :
    Tables.publish M w child virt phys flags stock tlb = (w', stock', tlb', .ok ()) := by
  rw [publishShared] at h
  rcases hrun : Tables.publish M w child virt phys flags stock tlb with ⟨w1, stock1, tlb1, res⟩
  rw [hrun] at h
  cases res with
  | ok u => exact h
  | error err => cases h

lemma SharedTo.shareFrom (S : SharedTo M parent child kept mem0 m0 virt w stock) (L : M.Lawful)
    (hv : pageOf virt = virt)
    (h : Tables.shareFrom M w child parent virt stock tlb = (w', stock', tlb', .ok ())) :
    SharedTo M parent child kept mem0 m0 (virt + PAGE_SIZE) w' stock' := by
  have hpage : (Tables.leaf M w parent virt).map (read M) = m0 virt := by
    rw [S.parent.at_page hv, parentAt, if_neg (Nat.lt_irrefl virt)]
  cases hleaf : Tables.leaf M w parent virt with
  | none =>
    rw [shareFrom_absent hleaf] at h
    cases h
    refine S.skip (Nat.le_add_right ..) fun v hvv hlo hhi => ?_
    rcases (page_lt_succ hvv hv).mp hhi with hlt | rfl
    · omega
    · rw [← hpage, hleaf]
      rfl
  | some bits =>
    rw [hleaf] at hpage
    obtain ⟨t, hw, hbits, hrun⟩ := shareFrom_mapped child stock tlb hleaf
    rw [hrun] at h
    have F1 := S.forking.share (M.addr bits)
    have Ap1 : Holds M (w.share (M.addr bits)) parent (parentAt M m0 virt) := S.parent
    have Ac1 : Holds M (w.share (M.addr bits)) child (childAt M m0 virt) := S.child
    cases hshared : M.shared (M.flags bits) with
    | none =>
      rw [hshared] at h
      obtain ⟨F2, Ap2, Ac2⟩ := F1.publish L Ap1 Ac1 hv (publishShared_ok h)
      refine ⟨F2, Ap2.congr fun v hvv => ?_, Ac2.congr fun v hvv => ?_⟩
      · -- the parent's page stays as it is
        rw [← parentAt_succ hv hvv, PageMap.set]
        by_cases heq : v = virt
        · rw [if_pos heq, heq, parentAt, if_neg (Nat.lt_irrefl virt), ← hpage, map_some,
            bind_some, markSide, read, hshared]
        · rw [if_neg heq]
      · rw [← childAt_succ hv hvv, ← hpage, map_some, bind_some, copySide, read, hshared]
        rfl
    | some shared =>
      rw [hshared] at h
      obtain ⟨F2, U2⟩ := F1.storeParent hw (M.leaf (M.addr bits) shared)
      have Ap2 := Ap1.store F1.hierarchy hv hw (M.leaf (M.addr bits) shared)
      have Ac2 := U2.holds F1.growing.hierarchy Ac1
      obtain ⟨F3, Ap3, Ac3⟩ := F2.publish L Ap2 Ac2 hv (publishShared_ok h)
      refine ⟨F3, Ap3.congr fun v hvv => ?_, Ac3.congr fun v hvv => ?_⟩
      · have hmark : markSide M (read M bits) = entry M (M.addr bits) shared := by
          simp only [markSide, read, hshared]
        rw [← parentAt_succ hv hvv, ← hpage, map_some, bind_some, hmark]
        rfl
      · rw [← childAt_succ hv hvv, ← hpage, map_some, bind_some, copySide, read, hshared]
        rfl

lemma SharedTo.shareRange {count : Nat} (S : SharedTo M parent child kept mem0 m0 virt w stock)
    (L : M.Lawful) (hv : pageOf virt = virt) (hin : virt + count * PAGE_SIZE ≤ SPAN)
    (h : Tables.shareRange M child parent virt count w stock tlb = (w', stock', tlb', .ok ())) :
    SharedTo M parent child kept mem0 m0 (virt + count * PAGE_SIZE) w' stock' := by
  induction count generalizing virt w stock tlb with
  | zero =>
    cases h
    rw [Nat.zero_mul, Nat.add_zero]
    exact S
  | succ count ih =>
    rw [Tables.shareRange] at h
    rcases hrun : Tables.shareFrom M w child parent virt stock tlb with ⟨w1, stock1, tlb1, res⟩
    rw [hrun] at h
    cases res with
    | error err => cases h
    | ok u =>
      have S1 := S.shareFrom L hv hrun
      rw [Nat.succ_mul] at hin ⊢
      rw [Nat.add_comm (count * PAGE_SIZE), ← Nat.add_assoc] at hin ⊢
      rcases Nat.eq_zero_or_pos count with rfl | hpos
      · cases h
        rw [Nat.zero_mul, Nat.add_zero]
        exact S1
      · have hmore : 0 < count * PAGE_SIZE := Nat.mul_pos hpos (by decide)
        exact ih S1 (pageOf_next hv (by omega)) hin h

end
end ClaudeOs.Mm
