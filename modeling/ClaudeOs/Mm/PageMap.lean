import ClaudeOs.Mm.Descent

/-!
# The tables as a map from pages

What a hierarchy of tables is for: a partial map from page addresses to a frame and flags.  The
calls of `Tables` that change one page are the changes of that map at one key, and the questions
`translate` and `flags_of` read it.

* `PageMap`  the abstract map; `PageMap.ask` keeps the frame and the flags a call asked for,
  `PageMap.call` what a descriptor made of them reads back;
* `run_refines`  the tables are the map of `call`;
* `Reached`  the tables and the map of `ask` after calls whose flags read back as asked;
* `tables_are_map`  the two agree, and `flags_differ`  without that they do not.
-/

namespace ClaudeOs.Mm
open Radix Tables Option
variable {M : Machine} {root : Phys}

/-! ## addresses and paths -/

def pageOf (virt : Nat) : Nat := virt % SPAN / PAGE_SIZE * PAGE_SIZE

lemma indexOf_val (virt level : Nat) :
    (indexOf virt level).val = virt / 2 ^ (12 + 9 * level) % 512 := rfl

lemma path_eq_iff (virt virt' : Nat) :
    (route virt DEPTH = route virt' DEPTH ∧ indexOf virt 0 = indexOf virt' 0) ↔
      pageOf virt = pageOf virt' := by
  have hroute : route virt DEPTH = route virt' DEPTH ↔ indexOf virt 3 = indexOf virt' 3 ∧
      indexOf virt 2 = indexOf virt' 2 ∧ indexOf virt 1 = indexOf virt' 1 := by
    simp [route, DEPTH, down]
  rw [hroute]
  simp only [Fin.ext_iff, indexOf_val, pageOf, SPAN, PAGE_SIZE, PAGE_BITS, LEVEL_BITS]
  simp only [Nat.reduceMul, Nat.reduceAdd, Nat.reducePow]
  omega

variable {page : Nat} {stock : TableStock} {t : Phys}

lemma pageOf_page {virt : Nat} (hv : pageOf virt = virt) (virt' : Nat) :
    pageOf virt' = virt ↔ route virt' DEPTH = route virt DEPTH ∧ indexOf virt' 0 = indexOf virt 0 := by
  rw [path_eq_iff, hv]

/-! ## what each call does -/

section
variable {w : World}

lemma rewrite_cases (w : World) (root : Phys) (virt : Nat) (change : Bits → Bits) (tlb : Tlb) :
    (Tables.leaf M w root virt = none ∧ rewrite M w root virt change tlb = (w, tlb, none)) ∨
    ∃ t, walk M.format w.mem DEPTH root (route virt DEPTH) = some t ∧
      M.present (w.mem t (indexOf virt 0)) = true ∧
      Tables.leaf M w root virt = some (w.mem t (indexOf virt 0)) ∧
      rewrite M w root virt change tlb =
        (w.store t (indexOf virt 0) (change (w.mem t (indexOf virt 0))), tlb.note virt,
          some (w.mem t (indexOf virt 0))) := by
  rw [rewrite, Tables.leaf, leafTable_eq_walk]
  cases walk M.format w.mem DEPTH root (route virt DEPTH) with
  | none => exact Or.inl ⟨rfl, rfl⟩
  | some t =>
    cases hpres : M.present (w.mem t (indexOf virt 0)) with
    | false => exact Or.inl ⟨by simp [hpres], by simp [hpres]⟩
    | true => exact Or.inr ⟨t, rfl, hpres, by simp [hpres], by simp [hpres]⟩

lemma publish_cases (L : M.Lawful) (virt : Nat) (phys : Phys) (flags : Bits)
    (g : Growing M root (w, stock)) (tlb : Tlb) :
    ∃ w1 stock1, Grows M root flags (w, stock) (w1, stock1) ∧
      ((stock.len < missingTables M w root virt ∧
          publish M w root virt phys flags stock tlb = (w1, stock1, tlb, .error .shortOfTables)) ∨
        (missingTables M w root virt ≤ stock.len ∧ ∃ t,
          walk M.format w1.mem DEPTH root (route virt DEPTH) = some t ∧
          ((M.present (w1.mem t (indexOf virt 0)) = true ∧
              publish M w root virt phys flags stock tlb = (w1, stock1, tlb, .error .occupied)) ∨
            (M.present (w1.mem t (indexOf virt 0)) = false ∧
              publish M w root virt phys flags stock tlb =
                (w1.store t (indexOf virt 0) (M.leaf phys flags), stock1, tlb.note virt,
                  .ok ()))))) := by
  have hw : walk M.format w.mem DEPTH root [] = some root := rfl
  obtain ⟨grows, created⟩ := createFrom_spec virt flags L
    (show ([] : List (Fin ENTRIES)).length + DEPTH = DEPTH by simp) g hw
  rw [List.nil_append] at created
  refine ⟨_, _, grows, ?_⟩
  rw [publish, leafTableCreating]
  rcases hrun : createFrom M virt flags (down DEPTH) w stock root with ⟨w1, stock1, res⟩
  rw [hrun] at created
  cases res with
  | error refused =>
    obtain ⟨hshort, rfl⟩ := created
    exact Or.inl ⟨hshort, rfl⟩
  | ok t =>
    obtain ⟨hshort, hwalk⟩ := created
    refine Or.inr ⟨Nat.le_of_not_lt hshort, t, hwalk, ?_⟩
    cases hpres : M.present (w1.mem t (indexOf virt 0)) with
    | true => exact Or.inl ⟨rfl, by simp [hpres]⟩
    | false => exact Or.inr ⟨rfl, by simp [hpres]⟩

end

/-! ## the abstract map -/

/-- a frame and flags at some page addresses -/
abbrev PageMap := Nat → Option (Phys × Bits)

section
variable (M : Machine)

/-- a page's frame and flags, as a descriptor holds them -/
def read (bits : Bits) : Phys × Bits := (M.addr bits, M.flags bits)

/-- what a page asked for with a frame and flags reads back as -/
def entry (phys : Phys) (flags : Bits) : Option (Phys × Bits) :=
  if M.present (M.leaf phys flags) then some (read M (M.leaf phys flags)) else none

inductive Call where
  | publish (virt : Nat) (phys : Phys) (flags : Bits) (stock : TableStock)
  | replace (virt : Nat) (phys : Phys) (flags : Bits)
  | protect (virt : Nat) (flags : Bits)
  | unmap (virt : Nat)

inductive Reply where
  | published (result : Except Refused Unit)
  | handed (old : Option Phys)

namespace Call

def virt : Call → Nat
  | publish virt .. | replace virt .. | protect virt .. | unmap virt => virt

def run (root : Phys) (s : World × Tlb) : Call → (World × Tlb) × Reply
  | publish virt phys flags stock =>
    match Tables.publish M s.1 root virt phys flags stock s.2 with
    | (w, _, tlb, result) => ((w, tlb), .published result)
  | replace virt phys flags =>
    match Tables.replace M s.1 root virt phys flags s.2 with
    | (w, tlb, old) => ((w, tlb), .handed old)
  | protect virt flags =>
    match Tables.protect M s.1 root virt flags s.2 with
    | (w, tlb, old) => ((w, tlb), .handed old)
  | unmap virt =>
    match Tables.unmap M s.1 root virt s.2 .empty with
    | (w, tlb, _, old) => ((w, tlb), .handed old)

def enough (w : World) (root : Phys) : Call → Bool
  | publish virt _ _ stock => decide (missingTables M w root virt ≤ stock.len)
  | _ => true

/-- what a caller keeps to: page addresses the walk reaches, and frames nothing else owns -/
def Callable (w : World) (root : Phys) (c : Call) : Prop :=
  pageOf c.virt = c.virt ∧ match c with
    | publish _ _ _ stock => Stocked M w.mem root stock
    | _ => True

/-- the frame and the flags asked for are what a descriptor can hold -/
def Kept (whole : Bits → Prop) : Call → Prop
  | publish _ phys flags _ | replace _ phys flags => M.Frame phys ∧ whole flags
  | protect _ flags => whole flags
  | unmap _ => True

end Call

namespace PageMap

def set (m : PageMap) (page : Nat) (e : Option (Phys × Bits)) : PageMap :=
  fun a => if a = page then e else m a

def change (m : PageMap) (page : Nat) (e : Phys → Option (Phys × Bits)) : PageMap × Reply :=
  match m page with
  | none => (m, .handed none)
  | some (old, _) => (m.set page (e old), .handed (some old))

def callWith (put : Phys → Bits → Option (Phys × Bits)) (m : PageMap) (enough : Bool) :
    Call → PageMap × Reply
  | .publish virt phys flags _ =>
    if !enough then (m, .published (.error .shortOfTables))
    else
      match m virt with
      | some _ => (m, .published (.error .occupied))
      | none => (m.set virt (put phys flags), .published (.ok ()))
  | .replace virt phys flags => m.change virt fun _ => put phys flags
  | .protect virt flags => m.change virt fun old => put old flags
  | .unmap virt => m.change virt fun _ => none

def call (m : PageMap) (enough : Bool) (c : Call) : PageMap × Reply :=
  m.callWith (entry M) enough c

def ask (m : PageMap) (enough : Bool) (c : Call) : PageMap × Reply :=
  m.callWith (fun phys flags => some (phys, flags)) enough c

end PageMap

def pages (w : World) (root : Phys) : PageMap :=
  fun virt => (Tables.leaf M w root virt).map (read M)

def Holds (w : World) (root : Phys) (m : PageMap) : Prop :=
  ∀ virt, pages M w root virt = m (pageOf virt)

end

section
variable {w w' : World} {m : PageMap} {virt : Nat}

lemma pages_eq_held (w : World) (root : Phys) (virt : Nat) :
    pages M w root virt = (held M w.mem root (route virt DEPTH) (indexOf virt 0)).map (read M) := by
  rw [pages, leaf_eq_held]

lemma Holds.same (A : Holds M w root m)
    (same : ∀ q j, q.length = DEPTH → held M w'.mem root q j = held M w.mem root q j) :
    Holds M w' root m := by
  intro virt
  rw [← A virt, pages_eq_held, pages_eq_held, same _ _ (length_route virt DEPTH)]

lemma Holds.store (A : Holds M w root m) (H : Hierarchy M w.mem root) (hv : pageOf virt = virt)
    (hw : walk M.format w.mem DEPTH root (route virt DEPTH) = some t) (bits : Bits) :
    Holds M (w.store t (indexOf virt 0) bits) root
      (m.set virt (if M.present bits then some (read M bits) else none)) := by
  intro virt'
  have R : Renames M w.mem (route virt DEPTH) t (indexOf virt 0) bits :=
    .leaf (length_route virt DEPTH)
  have hheld := R.held_eq H hw (Nat.le_of_eq (length_route virt' DEPTH)) (indexOf virt' 0)
  rw [pages_eq_held, World.store, hheld, PageMap.set]
  by_cases hp : pageOf virt' = virt
  · rw [if_pos hp, if_pos ((pageOf_page hv virt').mp hp)]
    split <;> rfl
  · rw [if_neg hp, if_neg fun hh => hp ((pageOf_page hv virt').mpr hh), ← A virt', pages_eq_held]

lemma Holds.at_page (A : Holds M w root m) (hv : pageOf virt = virt) :
    (Tables.leaf M w root virt).map (read M) = m virt := by
  have := A virt
  rwa [hv, pages] at this

lemma Hierarchy.store (H : Hierarchy M w.mem root)
    (hw : walk M.format w.mem DEPTH root (route virt DEPTH) = some t) (bits : Bits) :
    Hierarchy M (w.store t (indexOf virt 0) bits).mem root :=
  H.rename (.leaf (length_route virt DEPTH)) hw

lemma rewrite_refines (H : Hierarchy M w.mem root) (A : Holds M w root m)
    (hv : pageOf virt = virt) (change : Bits → Bits) (e : Phys → Option (Phys × Bits))
    (he : ∀ old, (if M.present (change old) then some (read M (change old)) else none) =
      e (M.addr old)) (tlb : Tlb) : Hierarchy M (rewrite M w root virt change tlb).1.mem root ∧
      Holds M (rewrite M w root virt change tlb).1 root (m.change virt e).1 ∧
      .handed ((rewrite M w root virt change tlb).2.2.map M.addr) = (m.change virt e).2 := by
  have hpage := A.at_page hv
  rcases rewrite_cases w root virt change tlb with ⟨hleaf, hrun⟩ | ⟨t, hw, -, hleaf, hrun⟩
  · rw [hleaf] at hpage
    rw [hrun, PageMap.change, ← hpage]
    exact ⟨H, A, rfl⟩
  · rw [hleaf] at hpage
    rw [hrun, PageMap.change, ← hpage]
    refine ⟨H.store hw _, ?_, rfl⟩
    have stored := A.store H hv hw (change (w.mem t (indexOf virt 0)))
    rw [he] at stored
    exact stored

section
variable (L : M.Lawful)
include L

section
variable (H : Hierarchy M w.mem root)
include H

lemma publish_refines (A : Holds M w root m) (hv : pageOf virt = virt) (phys : Phys)
    (flags : Bits) (S : Stocked M w.mem root stock) (tlb : Tlb) :
    Hierarchy M (publish M w root virt phys flags stock tlb).1.mem root ∧
      Holds M (publish M w root virt phys flags stock tlb).1 root
        (m.call M (decide (missingTables M w root virt ≤ stock.len))
          (.publish virt phys flags stock)).1 ∧
      .published (publish M w root virt phys flags stock tlb).2.2.2 =
        (m.call M (decide (missingTables M w root virt ≤ stock.len))
          (.publish virt phys flags stock)).2 := by
  have g : Growing M root (w, stock) := ⟨H, S⟩
  obtain ⟨w1, stock1, grows, hcases⟩ := publish_cases L virt phys flags g tlb
  have H1 : Hierarchy M w1.mem root := (Grows.growing L grows g).hierarchy
  have A1 : Holds M w1 root m := A.same fun q j hq => Grows.held_eq L grows g hq j
  have hpage := A1.at_page hv
  rcases hcases with ⟨hshort, hrun⟩ | ⟨henough, t, hw, ⟨hpres, hrun⟩ | ⟨hpres, hrun⟩⟩
  · rw [hrun, PageMap.call, PageMap.callWith, decide_eq_false (by omega)]
    exact ⟨H1, A1, rfl⟩
  · rw [Tables.leaf, leafTable_eq_walk, hw, bind_some, if_pos hpres, map_some] at hpage
    rw [hrun, PageMap.call, PageMap.callWith, decide_eq_true henough, ← hpage]
    exact ⟨H1, A1, rfl⟩
  · rw [Tables.leaf, leafTable_eq_walk, hw, bind_some, if_neg (by simp [hpres])] at hpage
    rw [hrun, PageMap.call, PageMap.callWith, decide_eq_true henough, ← hpage]
    exact ⟨H1.store hw _, A1.store H1 hv hw _, rfl⟩

lemma unmap_refines (A : Holds M w root m) (hv : pageOf virt = virt) (tlb : Tlb)
    (reclaimed : TableStock) : Hierarchy M (unmap M w root virt tlb reclaimed).1.mem root ∧
      Holds M (unmap M w root virt tlb reclaimed).1 root (m.change virt fun _ => none).1 ∧
      .handed (unmap M w root virt tlb reclaimed).2.2.2 = (m.change virt fun _ => none).2 := by
  have hrewrite := rewrite_refines H A hv (fun _ => 0) (fun _ => none)
    (fun _ => by rw [L.present_zero]; rfl) tlb
  rw [unmap]
  rcases hrw : rewrite M w root virt (fun _ => 0) tlb with ⟨w1, tlb1, _ | old⟩
  · rw [hrw] at hrewrite
    exact hrewrite
  · rw [hrw] at hrewrite
    obtain ⟨H1, A1, hreply⟩ := hrewrite
    have shrinks : Shrinks M root _ _ := reclaim_shrinks w1 virt tlb1 reclaimed
    dsimp only
    rcases hrun : reclaim M w1 root virt tlb1 reclaimed with ⟨w2, tlb2, reclaimed2⟩
    rw [hrun] at shrinks
    exact ⟨Shrinks.hierarchy L shrinks H1,
      A1.same fun q j hq => Shrinks.held_eq L shrinks H1 hq j, hreply⟩

lemma run_refines (A : Holds M w root m) {c : Call} (hc : c.Callable M w root) (tlb : Tlb) :
    Hierarchy M (c.run M root (w, tlb)).1.1.mem root ∧
      Holds M (c.run M root (w, tlb)).1.1 root (m.call M (c.enough M w root) c).1 ∧
      (c.run M root (w, tlb)).2 = (m.call M (c.enough M w root) c).2 := by
  obtain ⟨hv, hc⟩ := hc
  cases c with
  | publish virt phys flags stock => exact publish_refines L H A hv phys flags hc tlb
  | replace virt phys flags =>
    exact rewrite_refines H A hv (fun _ => M.leaf phys flags) (fun _ => entry M phys flags)
      (fun _ => rfl) tlb
  | protect virt flags =>
    exact rewrite_refines H A hv (fun old => M.leaf (M.addr old) flags)
      (fun old => entry M old flags) (fun _ => rfl) tlb
  | unmap virt => exact unmap_refines L H A hv tlb .empty

end
end

/-! ## the questions -/

lemma translateFrom_eq (H : Hierarchy M w.mem root) {h : Nat} {p : List (Fin ENTRIES)}
    (hp : p.length + h = DEPTH) (hw : walk M.format w.mem DEPTH root p = some t) :
    translateFrom M w virt (down h) t = (held M w.mem root (p ++ route virt h) (indexOf virt 0)).map
        fun bits => M.addr bits ||| offsetIn virt 0 := by
  induction h generalizing p t with
  | zero =>
    rw [show route virt 0 = [] from rfl, List.append_nil, held, hw, down, translateFrom]
    cases hpres : M.present (w.mem t (indexOf virt 0)) <;> simp [hpres]
  | succ h ih =>
    have hlev : DEPTH - p.length = h + 1 := by omega
    rw [route_succ, List.append_cons, down, translateFrom]
    cases hpres : M.present (w.mem t (indexOf virt (h + 1))) with
    | false =>
      rw [held, walk_append, walk_snoc hw, M.child_absent hpres]
      simp
    | true =>
      have hends := H.noBlock p t (indexOf virt (h + 1)) (by omega) hw hpres
      have hchild := H.child (by omega) hw hpres
      rw [hlev] at hends hchild
      have hnext : walk M.format w.mem DEPTH root (p ++ [indexOf virt (h + 1)]) =
          some (M.addr (w.mem t (indexOf virt (h + 1)))) := by
        rw [walk_snoc hw, hlev, hchild]
      simp only [hends]
      exact ih (by simp; omega) hnext

lemma translate_eq (H : Hierarchy M w.mem root) (virt : Nat) : translate M w root virt =
      (Tables.leaf M w root virt).map fun bits => M.addr bits ||| offsetIn virt 0 := by
  rw [Tables.translate, translateFrom_eq (p := []) H (by simp) rfl, leaf_eq_held, List.nil_append]

end

lemma entry_eq {whole : Bits → Prop} (L : M.Lawful) (K : M.Keeps whole) {phys : Phys} {flags : Bits}
    (hphys : M.Frame phys) (hflags : whole flags) : entry M phys flags = some (phys, flags) := by
  obtain ⟨hpresent, hkept⟩ := K phys flags hflags
  rw [entry, if_pos (L.present_leaf phys flags hpresent), read, L.addr_leaf, hphys, hkept]

/-! ## whole runs -/

namespace Reply

def refused : Reply → Bool
  | published (.error _) | handed none => true
  | _ => false

end Reply

/-- the tables and the map after any calls that ask for what a descriptor can hold, with anything
happening outside the tables between -/
inductive Reached (M : Machine) (whole : Bits → Prop) (root : Phys) : World × Tlb → PageMap → Prop
  | start {w : World} {tlb : Tlb} (H : Hierarchy M w.mem root) :
      Reached M whole root (w, tlb) (pages M w root)
  | call {s : World × Tlb} {m : PageMap} (c : Call) (R : Reached M whole root s m)
      (hc : c.Callable M s.1 root) (hk : c.Kept M whole) :
      Reached M whole root (c.run M root s).1 (m.ask (c.enough M s.1 root) c).1
  | elsewhere {s s' : World × Tlb} {m : PageMap} (R : Reached M whole root s m)
      (same : ∀ f, 0 < tables M s.1.mem root f → s'.1.mem f = s.1.mem f) : Reached M whole root s' m

lemma pages_pageOf (w : World) (root : Phys) (virt : Nat) :
    pages M w root virt = pages M w root (pageOf virt) := by
  have hidem : pageOf (pageOf virt) = pageOf virt := by
    simp only [pageOf, SPAN, PAGE_SIZE, PAGE_BITS, LEVEL_BITS]
    omega
  obtain ⟨hroute, hindex⟩ := (path_eq_iff virt (pageOf virt)).mpr hidem.symm
  rw [pages_eq_held, pages_eq_held, hroute, hindex]

/-- such a call changes the map of what is read back as it changes the map of what was asked -/
lemma call_eq_ask {whole : Bits → Prop} (L : M.Lawful) (K : M.Keeps whole) {w : World} {m : PageMap}
    (A : Holds M w root m) (enough : Bool) {c : Call} (hv : pageOf c.virt = c.virt)
    (hk : c.Kept M whole) : m.call M enough c = m.ask enough c := by
  cases c with
  | publish virt phys flags stock =>
    rw [PageMap.call, PageMap.ask, PageMap.callWith, PageMap.callWith, entry_eq L K hk.1 hk.2]
  | replace virt phys flags =>
    rw [PageMap.call, PageMap.ask, PageMap.callWith, PageMap.callWith, entry_eq L K hk.1 hk.2]
  | protect virt flags =>
    rw [PageMap.call, PageMap.ask, PageMap.callWith, PageMap.callWith, PageMap.change, PageMap.change]
    cases hm : m virt with
    | none => rfl
    | some e =>
      have hpage : (Tables.leaf M w root virt).map (read M) = m virt := A.at_page hv
      rw [hm] at hpage
      obtain ⟨bits, -, rfl⟩ := map_eq_some_iff.1 hpage
      simp only [read, entry_eq L K (L.frame_addr bits) hk]
  | unmap virt => rfl

lemma Reached.holds {whole : Bits → Prop} (L : M.Lawful) (K : M.Keeps whole) {s : World × Tlb}
    {m : PageMap} (R : Reached M whole root s m) : Hierarchy M s.1.mem root ∧ Holds M s.1 root m := by
  induction R with
  | start H => exact ⟨H, fun virt => pages_pageOf _ root virt⟩
  | call c _ hc hk ih =>
    obtain ⟨H, A, -⟩ := run_refines L ih.1 ih.2 hc _
    rw [call_eq_ask L K ih.2 _ hc.1 hk] at A
    exact ⟨H, A⟩
  | elsewhere _ same ih =>
    exact ⟨ih.1.elsewhere same,
      ih.2.same fun q j hq => ih.1.held_elsewhere same (Nat.le_of_eq hq) j⟩

namespace PageMap
variable (m : PageMap) (enough : Bool)

lemma change_other {virt : Nat} (e : Phys → Option (Phys × Bits)) (h : page ≠ virt) :
    (m.change virt e).1 page = m page := by
  rw [change]
  cases m virt with
  | none => rfl
  | some old => exact if_neg h

lemma change_refused {virt : Nat} {e : Phys → Option (Phys × Bits)}
    (h : (m.change virt e).2.refused = true) : (m.change virt e).1 = m := by
  rw [change] at h ⊢
  cases hm : m virt with
  | none => rfl
  | some old => rw [hm] at h; cases h

variable {put : Phys → Bits → Option (Phys × Bits)}

lemma callWith_other (c : Call) (h : page ≠ c.virt) : (m.callWith put enough c).1 page = m page := by
  cases c with
  | publish virt phys flags stock =>
    rw [callWith]
    cases enough with
    | false => rfl
    | true =>
      cases m virt with
      | none => exact if_neg h
      | some old => rfl
  | replace virt phys flags => exact m.change_other _ h
  | protect virt flags => exact m.change_other _ h
  | unmap virt => exact m.change_other _ h

lemma callWith_refused (c : Call) (h : (m.callWith put enough c).2.refused = true) :
    (m.callWith put enough c).1 = m := by
  cases c with
  | publish virt phys flags stock =>
    rw [callWith] at h ⊢
    cases enough with
    | false => rfl
    | true =>
      cases hm : m virt with
      | none => rw [hm] at h; cases h
      | some old => rfl
  | replace virt phys flags => exact m.change_refused h
  | protect virt flags => exact m.change_refused h
  | unmap virt => exact m.change_refused h

/-- what is put in has no say in the reply -/
lemma callWith_reply (put' : Phys → Bits → Option (Phys × Bits)) (c : Call) :
    (m.callWith put enough c).2 = (m.callWith put' enough c).2 := by
  cases c with
  | publish virt phys flags stock =>
    rw [callWith, callWith]
    cases enough with
    | false => rfl
    | true => cases m virt <;> rfl
  | replace virt phys flags => rw [callWith, callWith, change, change]; cases m virt <;> rfl
  | protect virt flags => rw [callWith, callWith, change, change]; cases m virt <;> rfl
  | unmap virt => rfl

lemma publish_iff (virt : Nat) (phys : Phys) (flags : Bits) (stock : TableStock) :
    (m.callWith put enough (.publish virt phys flags stock)).2 = .published (.ok ()) ↔
      m virt = none ∧ enough = true := by
  rw [callWith]
  cases enough with
  | false => simp
  | true => cases m virt <;> simp

end PageMap

/-- **the tables are a partial map**: after calls that ask for what a descriptor can hold the
questions read the map of what was asked for; any call replies what the map replies and changes what
is mapped at its page only, or nowhere when it is refused; and a publish succeeds exactly when the
page is absent and the stock suffices -/
theorem tables_are_map {whole : Bits → Prop} (L : M.Lawful) (K : M.Keeps whole) {s : World × Tlb}
    {m : PageMap} (R : Reached M whole root s m) :
    (∀ virt, translate M s.1 root virt = (m (pageOf virt)).map (fun e => e.1 ||| offsetIn virt 0) ∧
      flagsOf M s.1 root virt = (m (pageOf virt)).map Prod.snd) ∧
    (∀ c : Call, c.Callable M s.1 root →
      (c.Kept M whole → Reached M whole root (c.run M root s).1 (m.ask (c.enough M s.1 root) c).1) ∧
      (c.run M root s).2 = (m.ask (c.enough M s.1 root) c).2 ∧
      ∀ virt, pageOf virt ≠ c.virt ∨ (c.run M root s).2.refused = true →
        pages M (c.run M root s).1.1 root virt = pages M s.1 root virt) ∧
    (∀ virt phys flags stock, (Call.publish virt phys flags stock).Callable M s.1 root →
      ((publish M s.1 root virt phys flags stock s.2).2.2.2 = .ok () ↔
        m virt = none ∧ missingTables M s.1 root virt ≤ stock.len)) := by
  obtain ⟨H, A⟩ := R.holds L K
  refine ⟨fun virt => ⟨?_, ?_⟩, fun c hc => ?_, fun virt phys flags stock hc => ?_⟩
  · rw [translate_eq H, ← A virt, pages, map_map]
    rfl
  · rw [flagsOf, ← A virt, pages, map_map]
    rfl
  · obtain ⟨-, A', hreply⟩ := run_refines L H A hc s.2
    refine ⟨fun hk => .call c R hc hk, hreply.trans (m.callWith_reply _ _ c), fun virt h => ?_⟩
    rw [A' virt, A virt]
    rcases h with h | h
    · exact m.callWith_other _ c h
    · exact congrFun (m.callWith_refused _ c (hreply ▸ h)) _
  · have hv : pageOf virt = virt := hc.1
    obtain ⟨-, -, hreply⟩ := publish_refines L H A hv phys flags hc.2 s.2
    have hiff := @PageMap.publish_iff m (decide (missingTables M s.1 root virt ≤ stock.len)) (entry M)
      virt phys flags stock
    rwa [← PageMap.call, ← hreply, Reply.published.injEq, decide_eq_true_iff] at hiff

def emptySpace : World := ⟨fun _ _ => 0, fun _ => 0, []⟩

def firstPage (flags : Bits) : Call :=
  .publish 0x5000 0x9000 flags ⟨[0x2000, 0x3000, 0x4000]⟩

lemma firstPage_callable (flags : Bits) : (firstPage flags).Callable aarch64 emptySpace 0x1000 := by
  have hz : Zeroed emptySpace.mem 0x1000 := fun _ => rfl
  have hframes : ∀ c ∈ [(0x2000 : Phys), 0x3000, 0x4000], aarch64.Frame c ∧ 0x1000 ≠ c := by
    simp [Machine.Frame, aarch64, AArch64.ADDR_MASK]
  refine ⟨show pageOf 0x5000 = 0x5000 by decide, by decide, fun c hc => (hframes c hc).1,
    fun c _ _ => rfl, fun c hc => ?_⟩
  rw [tables, tableCount_barren aarch64.format (hz.barren aarch64_lawful), if_neg (hframes c hc).2]

/-- a page a program may write, as a descriptor holds its flags -/
def wholeFlags : Bits := 0xA0000000000743

/-- the page is read back with the flags it was asked for with -/
theorem tables_are_map_firstPage :
    let run := (firstPage wholeFlags).run aarch64 0x1000 (emptySpace, .clean)
    run.2 = .published (.ok ()) ∧ translate aarch64 run.1.1 0x1000 0x5123 = some 0x9123 ∧
      flagsOf aarch64 run.1.1 0x1000 0x5123 = some wholeFlags := by
  have R : Reached aarch64 AArch64.Whole 0x1000 (emptySpace, .clean) (pages aarch64 emptySpace 0x1000) :=
    .start (Zeroed.hierarchy aarch64_lawful fun _ => rfl)
  have hwhole : AArch64.Whole wholeFlags := by constructor <;> decide
  obtain ⟨hreached, hreply, -⟩ := (tables_are_map aarch64_lawful aarch64_keeps R).2.1
    (firstPage wholeFlags) (firstPage_callable _)
  have hread := (tables_are_map aarch64_lawful aarch64_keeps (hreached ⟨by decide, hwhole⟩)).1 0x5123
  refine ⟨hreply.trans rfl, ?_, ?_⟩
  · rw [hread.1]
    decide
  · rw [hread.2]
    decide

/-- the flags the rest of the kernel asks for such a page with are not what is read back -/
theorem flags_differ : let flags := AArch64.PRESENT ||| AArch64.WRITABLE ||| AArch64.USER
    let run := (firstPage flags).run aarch64 0x1000 (emptySpace, .clean)
    Hierarchy aarch64 emptySpace.mem 0x1000 ∧
      (firstPage flags).Callable aarch64 emptySpace 0x1000 ∧ run.2 = .published (.ok ()) ∧
      flagsOf aarch64 run.1.1 0x1000 0x5000 = some wholeFlags ∧ flags ≠ wholeFlags :=
  ⟨Zeroed.hierarchy aarch64_lawful fun _ => rfl, firstPage_callable _, by rfl, by decide +kernel, by decide⟩

end ClaudeOs.Mm
