import ClaudeOs.Mm.Walk

/-!
# Hierarchies, and what a descent may do to one

A hierarchy is a tree of tables with no frame in it twice and no block above the last level.  The
walk of `Tables` is the descent of the radix library along the indices of an address.  A change
writes one descriptor at a time, and there are four kinds: a leaf, a table put in where nothing
was, a table descriptor that still names what it named, and an empty table taken out.  Each keeps
the hierarchy, and only the first changes what a page holds.

* `Hierarchy`  the tables of an address space;
* `held`  the present last-level descriptor at the end of a path;
* `Hierarchy.leaf` ... `Hierarchy.unlink`  the four kinds of store;
* `createFrom_grows`  a descent that creates is a run of links and widenings;
* `reclaim_shrinks`  a reclaim is a run of unlinks.
-/

namespace ClaudeOs.Mm
open Radix Tables List Nat
variable {M : Machine} {mem : Memory} {root t c : Phys} {i : Fin ENTRIES} {e : Bits}

/-- the indices of an address on the way down from a table of height `h` -/
def route (virt h : Nat) : List (Fin ENTRIES) := (down h).map (indexOf virt)

lemma route_succ (virt h : Nat) : route virt (h + 1) = indexOf virt (h + 1) :: route virt h := rfl
lemma length_down (h : Nat) : (down h).length = h := by
  induction h with
  | zero => rfl
  | succ h ih => rw [down, length_cons, ih]

lemma length_route (virt h : Nat) : (route virt h).length = h := by
  rw [route, length_map, length_down]

lemma step_eq_child (w : World) (virt level : Nat) (t : Phys) :
    step M w virt level t = M.format.child level (w.mem t (indexOf virt level)) := rfl

variable {h virt : Nat} {ls : List Nat} {p q : List (Fin ENTRIES)} {mem' : Memory} {under : Bits}
  {s s' : World × TableStock} {w : World}

lemma descend_eq_walk (w : World) (virt : Nat) (hls : ls <+: down h) (t : Phys) :
    descend M w virt ls t = walk M.format w.mem h t (ls.map (indexOf virt)) := by
  induction ls generalizing h t with
  | nil => rfl
  | cons level rest ih =>
    cases h with
    | zero => simp [down] at hls
    | succ h =>
      rw [down, cons_prefix_cons] at hls
      obtain ⟨rfl, hrest⟩ := hls
      rw [descend, map_cons, walk_cons, step_eq_child]
      congr 1
      funext d
      exact ih hrest d

lemma leafTable_eq_walk (w : World) (virt : Nat) :
    leafTable M w root virt = walk M.format w.mem DEPTH root (route virt DEPTH) :=
  descend_eq_walk w virt (prefix_refl _) root

/-! ## hierarchies -/

/-- the tables of an address space: no table in it twice, no block above the last level; the kernel's
half, which every top table shares, is left out of the model -/
structure Hierarchy (M : Machine) (mem : Memory) (root : Phys) : Prop where
  separate : Separate M.format mem DEPTH root
  noBlock : ∀ p t i, p.length < DEPTH → walk M.format mem DEPTH root p = some t →
    M.present (mem t i) = true → M.endsWalk (mem t i) (DEPTH - p.length) = false

def tables (M : Machine) (mem : Memory) (root f : Phys) : Nat :=
  tableCount M.format mem DEPTH root f

/-- the present last-level descriptor at the end of a path of indices -/
def held (M : Machine) (mem : Memory) (root : Phys) (p : List (Fin ENTRIES)) (i : Fin ENTRIES) :
    Option Bits :=
  (walk M.format mem DEPTH root p).bind fun t =>
    if M.present (mem t i) then some (mem t i) else none

lemma leaf_eq_held (w : World) (virt : Nat) :
    Tables.leaf M w root virt = held M w.mem root (route virt DEPTH) (indexOf virt 0) := by
  rw [Tables.leaf, leafTable_eq_walk]; rfl

lemma Hierarchy.child (H : Hierarchy M mem root) (hp : p.length < DEPTH)
    (hw : walk M.format mem DEPTH root p = some t) (hpres : M.present (mem t i) = true) :
    M.format.child (DEPTH - p.length) (mem t i) = some (M.addr (mem t i)) :=
  M.child_eq_some.mpr ⟨hpres, H.noBlock p t i hp hw hpres, rfl⟩

lemma Hierarchy.tables_pos (_ : Hierarchy M mem root) (hp : p.length ≤ DEPTH)
    (hw : walk M.format mem DEPTH root p = some t) :
    0 < tables M mem root t := tableCount_pos_of_walk M.format hp hw

lemma Hierarchy.ne_of_shorter (H : Hierarchy M mem root) {t' : Phys} (hq : q.length = DEPTH)
    (hp : p.length < DEPTH) (hwq : walk M.format mem DEPTH root q = some t')
    (hw : walk M.format mem DEPTH root p = some t) : t' ≠ t := by
  rintro rfl
  have hqp := walk_inj M.format H.separate (le_of_eq hq) (le_of_lt hp) hwq hw
  rw [← hqp] at hp
  omega

def Zeroed (mem : Memory) (f : Phys) : Prop := ∀ i, mem f i = 0

lemma Zeroed.barren (L : M.Lawful) (hz : Zeroed mem t) (k : Nat) (j : Fin ENTRIES) :
    M.format.child k (mem t j) = none := by
  rw [hz j]
  exact M.child_absent L.present_zero

lemma Zeroed.hierarchy (L : M.Lawful) (hz : Zeroed mem root) : Hierarchy M mem root where
  separate f := by
    rw [tableCount_barren M.format (hz.barren L)]
    split <;> omega
  noBlock p t i _ hw hpres := by
    rw [walk_barren M.format (hz.barren L)] at hw
    split at hw
    · obtain rfl := Option.some.inj hw
      rw [hz i, L.present_zero] at hpres
      cases hpres
    · cases hw

lemma Hierarchy.elsewhere (H : Hierarchy M mem root)
    (same : ∀ f, 0 < tables M mem root f → mem' f = mem f) : Hierarchy M mem' root where
  separate f := by
    rw [tableCount, total_congr M.format _ _ DEPTH root same]
    exact H.separate f
  noBlock p t i hp hw hpres := by
    rw [walk_congr M.format (le_of_lt hp) same] at hw
    rw [same t (H.tables_pos (le_of_lt hp) hw)] at hpres ⊢
    exact H.noBlock p t i hp hw hpres

lemma Hierarchy.held_elsewhere (H : Hierarchy M mem root)
    (same : ∀ f, 0 < tables M mem root f → mem' f = mem f) (hq : q.length ≤ DEPTH)
    (j : Fin ENTRIES) : held M mem' root q j = held M mem root q j := by
  rw [held, held, walk_congr M.format hq same]
  cases hw : walk M.format mem DEPTH root q with
  | none => rfl
  | some t => rw [Option.bind_some, Option.bind_some, same t (H.tables_pos hq hw)]

/-! ## stores that leave what a descriptor names -/

/-- the descriptor at the end of `p` may become `e`: it is a leaf, or names the table it named -/
structure Renames (M : Machine) (mem : Memory) (p : List (Fin ENTRIES)) (t : Phys)
    (i : Fin ENTRIES) (e : Bits) : Prop where
  length : p.length ≤ DEPTH
  child : p.length < DEPTH →
    M.format.child (DEPTH - p.length) e = M.format.child (DEPTH - p.length) (mem t i)
  noBlock : p.length < DEPTH → M.present e = true → M.endsWalk e (DEPTH - p.length) = false

section
variable {p q : List (Fin ENTRIES)}

section
variable (R : Renames M mem p t i e)
include R

lemma Renames.below_eq (f : Phys) : below M.format mem (DEPTH - p.length) e f =
      below M.format mem (DEPTH - p.length) (mem t i) f := by
  cases hk : DEPTH - p.length with
  | zero => rfl
  | succ k =>
    have hc := R.child (by omega)
    rw [hk] at hc
    simp only [below, hang, hc]

section
variable (H : Hierarchy M mem root)
include H

section
variable (hw : walk M.format mem DEPTH root p = some t)
include hw

lemma Renames.walk_eq (hq : q.length ≤ DEPTH) :
    walk M.format (update mem t i e) DEPTH root q = walk M.format mem DEPTH root q :=
  walk_update_same M.format H.separate R.length hq hw R.child

lemma Renames.tables_eq (f : Phys) : tables M (update mem t i e) root f = tables M mem root f := by
  have hself := (H.separate.walk M.format R.length hw).below_self M.format i
  have key := tableCount_update M.format H.separate R.length hw i e (by rw [R.below_eq, hself]) f
  rw [R.below_eq] at key
  exact add_right_cancel key

omit hw in
omit R in
lemma Hierarchy.rename (R : Renames M mem p t i e)
    (hw : walk M.format mem DEPTH root p = some t) : Hierarchy M (update mem t i e) root where
  separate f := by
    have := H.separate f
    rwa [← tables, ← R.tables_eq H hw] at this
  noBlock q t' j hq hwq hpres := by
    rw [R.walk_eq H hw (le_of_lt hq)] at hwq
    by_cases hit : t' = t ∧ j = i
    · obtain ⟨rfl, rfl⟩ := hit
      obtain rfl := walk_inj M.format H.separate R.length (le_of_lt hq) hw hwq
      rw [update_self] at hpres ⊢
      exact R.noBlock hq hpres
    · rw [update_of_ne mem t i e hit] at hpres ⊢
      exact H.noBlock q t' j hq hwq hpres

lemma Renames.held_eq (hq : q.length ≤ DEPTH) (j : Fin ENTRIES) :
    held M (update mem t i e) root q j =
      if q = p ∧ j = i then if M.present e then some e else none else held M mem root q j := by
  rw [held, R.walk_eq H hw hq]
  by_cases hqp : q = p
  · subst hqp
    rw [held, hw, Option.bind_some, Option.bind_some]
    by_cases hj : j = i
    · subst hj
      simp [update_self]
    · simp [update_of_ne mem t i e fun hh => hj hh.2, hj]
  · rw [if_neg fun hh => hqp hh.1, held]
    cases hwq : walk M.format mem DEPTH root q with
    | none => rfl
    | some t' =>
      have hne : t' ≠ t := by
        rintro rfl
        exact hqp (walk_inj M.format H.separate hq R.length hwq hw)
      rw [Option.bind_some, Option.bind_some, update_of_table_ne mem t i e hne]

end
end
end

lemma Renames.leaf (hp : p.length = DEPTH) : Renames M mem p t i e where
  length := le_of_eq hp
  child h := absurd h (by omega)
  noBlock h := absurd h (by omega)

lemma Renames.widen (L : M.Lawful) (H : Hierarchy M mem root) (hp : p.length < DEPTH)
    (hw : walk M.format mem DEPTH root p = some t) (hpres : M.present (mem t i) = true)
    {wider : Bits} (hwide : M.widen (mem t i) under = some wider) : Renames M mem p t i wider where
  length := le_of_lt hp
  child _ := by
    obtain ⟨hpr, hends, haddr, -⟩ := L.widen _ _ _ hwide
    rw [H.child hp hw hpres]
    refine M.child_eq_some.mpr ⟨by rw [hpr, hpres], ?_, haddr⟩
    rw [hends]
    exact H.noBlock p t i hp hw hpres
  noBlock _ _ := by
    rw [(L.widen _ _ _ hwide).2.1]
    exact H.noBlock p t i hp hw hpres

/-! ## a table put in, and an empty one taken out -/

lemma Zeroed.update (hz : Zeroed mem c) (hne : c ≠ t) : Zeroed (update mem t i e) c := by
  intro j
  rw [update_of_table_ne mem t i e hne]
  exact hz j

/-- the fresh table `c` may go in at the end of `p`, where nothing is -/
structure Links (M : Machine) (mem : Memory) (root : Phys) (p : List (Fin ENTRIES)) (t : Phys)
    (i : Fin ENTRIES) (c : Phys) : Prop where
  length : p.length < DEPTH
  walk : walk M.format mem DEPTH root p = some t
  absent : M.present (mem t i) = false
  frame : M.Frame c
  zeroed : Zeroed mem c
  fresh : tables M mem root c = 0

section
variable (K : Links M mem root p t i c)
include K

lemma Links.ne (H : Hierarchy M mem root) : c ≠ t := by
  rintro rfl
  have := H.tables_pos (le_of_lt K.length) K.walk
  have := K.fresh
  omega

omit K in
lemma child_table (L : M.Lawful) (hc : M.Frame c) (under : Bits) (level : Nat) :
    M.format.child level (M.table c under) = some c :=
  M.child_eq_some.mpr
    ⟨L.present_table c under, L.endsWalk_table c under level, (L.addr_table c under).trans hc⟩

lemma Links.tables_eq (L : M.Lawful) (H : Hierarchy M mem root) (under : Bits) (f : Phys) :
    tables M (update mem t i (M.table c under)) root f =
      tables M mem root f + if c = f then 1 else 0 := by
  obtain ⟨k, hk⟩ : ∃ k, DEPTH - p.length = k + 1 := ⟨DEPTH - p.length - 1, by have := K.length; omega⟩
  have hnew (f : Phys) : below M.format mem (DEPTH - p.length) (M.table c under) f =
      if c = f then 1 else 0 := by
    rw [hk, below_some M.format (child_table L K.frame under (k + 1))]
    exact tableCount_barren M.format (K.zeroed.barren L) k f
  have hold : below M.format mem (DEPTH - p.length) (mem t i) f = 0 := by
    rw [hk]
    exact below_none M.format (M.child_absent K.absent) f
  have key := tableCount_update M.format H.separate (le_of_lt K.length) K.walk i
    (M.table c under) (by rw [hnew, if_neg (K.ne H)]) f
  rw [hold, hnew, add_zero] at key
  exact key

lemma Links.walk_eq (L : M.Lawful) (H : Hierarchy M mem root) (under : Bits)
    (hq : q.length ≤ DEPTH) : Radix.walk M.format (update mem t i (M.table c under)) DEPTH root q =
      if q = p ++ [i] then some c else Radix.walk M.format mem DEPTH root q := by
  by_cases hpq : p ++ [i] <+: q
  · obtain ⟨r, rfl⟩ := hpq
    rw [append_assoc, singleton_append,
      walk_update_through M.format H.separate (le_of_lt K.length) K.walk,
      child_table L K.frame, Option.bind_some,
      walk_barren M.format ((K.zeroed.update (K.ne H)).barren L),
      walk_append, K.walk, Option.bind_some, walk_cons, M.child_absent K.absent]
    cases r <;> simp
  · rw [walk_update M.format H.separate (le_of_lt K.length) hq K.walk hpq, if_neg]
    rintro rfl
    exact hpq (prefix_refl _)

omit K in
lemma Hierarchy.link (H : Hierarchy M mem root) (L : M.Lawful) (K : Links M mem root p t i c)
    (under : Bits) : Hierarchy M (update mem t i (M.table c under)) root where
  separate f := by
    have hle : tables M mem root f ≤ 1 := H.separate f
    change tables M _ root f ≤ 1
    rw [K.tables_eq L H]
    split
    · next hcf =>
      subst hcf
      have := K.fresh
      omega
    · rwa [add_zero]
  noBlock q t' j hq hwq hpres := by
    rw [K.walk_eq L H under (le_of_lt hq)] at hwq
    by_cases hit : t' = t ∧ j = i
    · obtain ⟨rfl, rfl⟩ := hit
      rw [update_self]
      exact L.endsWalk_table c under _
    · rw [update_of_ne mem t i _ hit] at hpres ⊢
      split at hwq
      · obtain rfl := Option.some.inj hwq
        rw [K.zeroed j, L.present_zero] at hpres
        cases hpres
      · exact H.noBlock q t' j hq hwq hpres

lemma Links.held_eq (L : M.Lawful) (H : Hierarchy M mem root) (under : Bits)
    (hq : q.length = DEPTH) (j : Fin ENTRIES) :
    held M (update mem t i (M.table c under)) root q j = held M mem root q j := by
  rw [held, K.walk_eq L H under (le_of_eq hq), held]
  split
  · next hqp =>
    -- the new table holds nothing, and nothing was reached there before
    subst hqp
    rw [Option.bind_some, K.zeroed.update (K.ne H) j, L.present_zero, walk_append, K.walk,
      Option.bind_some, walk_cons, M.child_absent K.absent]
    rfl
  · cases hwq : Radix.walk M.format mem DEPTH root q with
    | none => rfl
    | some t' =>
      rw [Option.bind_some, Option.bind_some,
        update_of_table_ne mem t i _ (H.ne_of_shorter hq K.length hwq K.walk)]

end

/-- the empty table `c` may be taken out at the end of `p` -/
structure Unlinks (M : Machine) (mem : Memory) (root : Phys) (p : List (Fin ENTRIES)) (t : Phys)
    (i : Fin ENTRIES) (c : Phys) : Prop where
  length : p.length < DEPTH
  walk : walk M.format mem DEPTH root p = some t
  child : M.format.child (DEPTH - p.length) (mem t i) = some c
  empty : ∀ j, M.present (mem c j) = false

lemma Unlinks.tables_eq (U : Unlinks M mem root p t i c) (L : M.Lawful)
    (H : Hierarchy M mem root) (f : Phys) :
    tables M (update mem t i 0) root f + (if c = f then 1 else 0) = tables M mem root f := by
  obtain ⟨k, hk⟩ : ∃ k, DEPTH - p.length = k + 1 := ⟨DEPTH - p.length - 1, by have := U.length; omega⟩
  have hnew (f : Phys) : below M.format mem (DEPTH - p.length) 0 f = 0 := by
    rw [hk]
    exact below_none M.format (M.child_absent L.present_zero) f
  have hold : below M.format mem (DEPTH - p.length) (mem t i) f = if c = f then 1 else 0 := by
    have hchild := U.child
    rw [hk] at hchild ⊢
    rw [below_some M.format hchild]
    exact tableCount_barren M.format (fun _ j => M.child_absent (U.empty j)) k f
  have key := tableCount_update M.format H.separate (le_of_lt U.length) U.walk i 0 (hnew t) f
  rw [hold, hnew, add_zero] at key
  exact key

lemma Unlinks.walk_eq (U : Unlinks M mem root p t i c) (L : M.Lawful) (H : Hierarchy M mem root)
    (hq : q.length ≤ DEPTH) : Radix.walk M.format (update mem t i 0) DEPTH root q =
      if q = p ++ [i] then none else Radix.walk M.format mem DEPTH root q := by
  by_cases hpq : p ++ [i] <+: q
  · obtain ⟨r, rfl⟩ := hpq
    rw [append_assoc, singleton_append,
      walk_update_through M.format H.separate (le_of_lt U.length) U.walk,
      M.child_absent L.present_zero, walk_append, U.walk, Option.bind_some, walk_cons, U.child,
      Option.bind_some, walk_barren M.format fun _ j => M.child_absent (U.empty j)]
    cases r <;> simp
  · rw [walk_update M.format H.separate (le_of_lt U.length) hq U.walk hpq, if_neg]
    rintro rfl
    exact hpq (prefix_refl _)

lemma Hierarchy.unlink (H : Hierarchy M mem root) (L : M.Lawful)
    (U : Unlinks M mem root p t i c) : Hierarchy M (update mem t i 0) root where
  separate f := by
    have hle : tables M mem root f ≤ 1 := H.separate f
    have hfewer := U.tables_eq L H f
    change tables M _ root f ≤ 1
    omega
  noBlock q t' j hq hwq hpres := by
    rw [U.walk_eq L H (le_of_lt hq)] at hwq
    split at hwq
    · cases hwq
    · by_cases hit : t' = t ∧ j = i
      · obtain ⟨rfl, rfl⟩ := hit
        rw [update_self, L.present_zero] at hpres
        cases hpres
      · rw [update_of_ne mem t i _ hit] at hpres ⊢
        exact H.noBlock q t' j hq hwq hpres

lemma Unlinks.held_eq (U : Unlinks M mem root p t i c) (L : M.Lawful) (H : Hierarchy M mem root)
    (hq : q.length = DEPTH) (j : Fin ENTRIES) :
    held M (update mem t i 0) root q j = held M mem root q j := by
  rw [held, U.walk_eq L H (le_of_eq hq), held]
  split
  · next hqp =>
    subst hqp
    rw [walk_append, U.walk, Option.bind_some, walk_cons, U.child, Option.bind_some, walk_nil,
      Option.bind_some, U.empty j]
    rfl
  · cases hwq : Radix.walk M.format mem DEPTH root q with
    | none => rfl
    | some t' =>
      rw [Option.bind_some, Option.bind_some,
        update_of_table_ne mem t i _ (H.ne_of_shorter hq U.length hwq U.walk)]

end

/-! ## the descent that creates -/

/-- frames a descent may put in: zeroed, each once, and none of them a table yet -/
structure Stocked (M : Machine) (mem : Memory) (root : Phys) (stock : TableStock) : Prop where
  nodup : stock.frames.Nodup
  frame : ∀ c ∈ stock.frames, M.Frame c
  zeroed : ∀ c ∈ stock.frames, Zeroed mem c
  fresh : ∀ c ∈ stock.frames, tables M mem root c = 0

/-- one store of a descent that creates: a table from the stock, or a descriptor opened wider -/
inductive Grow (M : Machine) (root : Phys) (under : Bits) :
    World × TableStock → World × TableStock → Prop
  | link {w : World} {p : List (Fin ENTRIES)} {t c : Phys} {i : Fin ENTRIES} {rest : List Phys}
      (links : Links M w.mem root p t i c) :
      Grow M root under (w, ⟨c :: rest⟩) (w.store t i (M.table c under), ⟨rest⟩)
  | widen {w : World} {p : List (Fin ENTRIES)} {t : Phys} {i : Fin ENTRIES} {wider : Bits}
      {stock : TableStock} (length : p.length < DEPTH)
      (walk : walk M.format w.mem DEPTH root p = some t) (present : M.present (w.mem t i) = true)
      (wide : M.widen (w.mem t i) under = some wider) :
      Grow M root under (w, stock) (w.store t i wider, stock)

/-- what holds of a descent that creates, and of every world on the way -/
structure Growing (M : Machine) (root : Phys) (s : World × TableStock) : Prop where
  hierarchy : Hierarchy M s.1.mem root
  stocked : Stocked M s.1.mem root s.2

lemma Stocked.link (L : M.Lawful) {rest : List Phys} (H : Hierarchy M mem root)
    (S : Stocked M mem root ⟨c :: rest⟩) (K : Links M mem root p t i c) (under : Bits) :
    Stocked M (update mem t i (M.table c under)) root ⟨rest⟩ where
  nodup := (nodup_cons.mp S.nodup).2
  frame d hd := S.frame d (mem_cons_of_mem c hd)
  zeroed d hd := by
    refine (S.zeroed d (mem_cons_of_mem c hd)).update ?_
    rintro rfl
    have := S.fresh d (mem_cons_of_mem c hd)
    have := H.tables_pos (le_of_lt K.length) K.walk
    omega
  fresh d hd := by
    rw [K.tables_eq L H, S.fresh d (mem_cons_of_mem c hd), if_neg]
    rintro rfl
    exact (nodup_cons.mp S.nodup).1 hd

lemma Stocked.rename {stock : TableStock} (H : Hierarchy M mem root)
    (S : Stocked M mem root stock) (R : Renames M mem p t i e)
    (hw : walk M.format mem DEPTH root p = some t) : Stocked M (update mem t i e) root stock where
  nodup := S.nodup
  frame := S.frame
  zeroed d hd := by
    refine (S.zeroed d hd).update ?_
    rintro rfl
    have := S.fresh d hd
    have := H.tables_pos R.length hw
    omega
  fresh d hd := by rw [R.tables_eq H hw, S.fresh d hd]

lemma Grow.growing (L : M.Lawful) (G : Grow M root under s s') (g : Growing M root s) :
    Growing M root s' := by
  cases G with
  | link K => exact ⟨g.hierarchy.link L K under, g.stocked.link L g.hierarchy K under⟩
  | widen hp hw hpres hwide =>
    have R := Renames.widen L g.hierarchy hp hw hpres hwide
    exact ⟨g.hierarchy.rename R hw, g.stocked.rename g.hierarchy R hw⟩

lemma Grow.held_eq (L : M.Lawful) (G : Grow M root under s s') (g : Growing M root s)
    (hq : q.length = DEPTH) (j : Fin ENTRIES) :
    held M s'.1.mem root q j = held M s.1.mem root q j := by
  cases G with
  | link K => exact K.held_eq L g.hierarchy under hq j
  | @widen w p t i wider stock hp hw hpres hwide =>
    have R := Renames.widen L g.hierarchy hp hw hpres hwide
    rw [World.store, R.held_eq g.hierarchy hw (le_of_eq hq), if_neg]
    rintro ⟨rfl, -⟩
    omega

abbrev Grows (M : Machine) (root : Phys) (under : Bits) :
    World × TableStock → World × TableStock → Prop :=
  Relation.ReflTransGen (Grow M root under)

lemma Grows.growing (L : M.Lawful) (G : Grows M root under s s') (g : Growing M root s) :
    Growing M root s' := by
  induction G with
  | refl => exact g
  | tail _ last ih => exact last.growing L ih

lemma Grows.held_eq (L : M.Lawful) (G : Grows M root under s s') (g : Growing M root s)
    (hq : q.length = DEPTH) (j : Fin ENTRIES) :
    held M s'.1.mem root q j = held M s.1.mem root q j := by
  induction G with
  | refl => rfl
  | tail first last ih => rw [last.held_eq L (Grows.growing L first g) hq, ih]

lemma walk_snoc (hw : walk M.format mem DEPTH root p = some t) (i : Fin ENTRIES) :
    walk M.format mem DEPTH root (p ++ [i]) = M.format.child (DEPTH - p.length) (mem t i) := by
  rw [walk_append, hw, Option.bind_some, walk_cons]
  cases M.format.child (DEPTH - p.length) (mem t i) <;> rfl

lemma missingFrom_congr {w' : World} (hp : p.length + h = DEPTH)
    (hw : walk M.format w.mem DEPTH root p = some t)
    (same : ∀ q : List (Fin ENTRIES), q.length ≤ DEPTH →
      walk M.format w'.mem DEPTH root q = walk M.format w.mem DEPTH root q) :
    missingFrom M w' virt (down h) t = missingFrom M w virt (down h) t := by
  induction h generalizing p t with
  | zero => rfl
  | succ h ih =>
    have hlev : DEPTH - p.length = h + 1 := by omega
    have hw' : walk M.format w'.mem DEPTH root p = some t := by rw [same p (by omega), hw]
    have hsnoc := same (p ++ [indexOf virt (h + 1)]) (by simp; omega)
    rw [walk_snoc hw, walk_snoc hw', hlev] at hsnoc
    rw [down, missingFrom, missingFrom, step_eq_child, step_eq_child, hsnoc]
    cases hc : M.format.child (h + 1) (w.mem t (indexOf virt (h + 1))) with
    | none => rfl
    | some c =>
      refine ih (p := p ++ [indexOf virt (h + 1)]) (by simp; omega) ?_
      rw [walk_snoc hw, hlev, hc]

lemma missingFrom_zeroed (L : M.Lawful) (hz : Zeroed w.mem t) (virt h : Nat) :
    missingFrom M w virt (down h) t = h := by
  cases h with
  | zero => rfl
  | succ h => rw [down, missingFrom, step_eq_child, hz.barren L]

lemma widenAt_cases (w : World) (t : Phys) (i : Fin ENTRIES) (under : Bits) :
    widenAt M w t i under = w ∧ M.widen (w.mem t i) under = none ∨
      ∃ wider, M.widen (w.mem t i) under = some wider ∧
        widenAt M w t i under = w.store t i wider := by
  rw [widenAt]
  cases M.widen (w.mem t i) under with
  | none => exact Or.inl ⟨rfl, rfl⟩
  | some wider => exact Or.inr ⟨wider, rfl, rfl⟩

section
variable {w : World} {stock : TableStock} {virt h : Nat} {under : Bits} {rest : List Phys}

lemma createFrom_short (hpres : M.present (w.mem t (indexOf virt (h + 1))) = false) :
    createFrom M virt under (down (h + 1)) w ⟨[]⟩ t = (w, ⟨[]⟩, .error .shortOfTables) := by
  simp [createFrom, down, hpres, TableStock.take]

lemma createFrom_link (hpres : M.present (w.mem t (indexOf virt (h + 1))) = false) :
    createFrom M virt under (down (h + 1)) w ⟨c :: rest⟩ t =
      createFrom M virt under (down h) (w.store t (indexOf virt (h + 1)) (M.table c under))
        ⟨rest⟩ c := by simp [createFrom, down, hpres, TableStock.take]

lemma createFrom_deeper (hpres : M.present (w.mem t (indexOf virt (h + 1))) = true)
    (hends : M.endsWalk (w.mem t (indexOf virt (h + 1))) (h + 1) = false) :
    createFrom M virt under (down (h + 1)) w stock t =
      createFrom M virt under (down h) (widenAt M w t (indexOf virt (h + 1)) under) stock
        (M.addr (w.mem t (indexOf virt (h + 1)))) := by simp [createFrom, down, hpres, hends]

/-- what a descent that creates comes to: the last-level table, or a stock that was too short -/
def Created (M : Machine) (w : World) (root : Phys) (path : List (Fin ENTRIES)) (short : Prop) :
    Except Refused Phys → Prop
  | .ok leaf => ¬ short ∧ walk M.format w.mem DEPTH root path = some leaf
  | .error refused => short ∧ refused = .shortOfTables

lemma createFrom_spec (virt : Nat) (under : Bits) (L : M.Lawful) (hp : p.length + h = DEPTH)
    (g : Growing M root (w, stock)) (hw : walk M.format w.mem DEPTH root p = some t) :
    Grows M root under (w, stock)
      ((createFrom M virt under (down h) w stock t).1,
        (createFrom M virt under (down h) w stock t).2.1) ∧
    Created M (createFrom M virt under (down h) w stock t).1 root (p ++ route virt h)
      (stock.len < missingFrom M w virt (down h) t)
      (createFrom M virt under (down h) w stock t).2.2 := by
  induction h generalizing p t w stock with
  | zero =>
    refine ⟨Relation.ReflTransGen.refl, not_lt_zero _, ?_⟩
    rw [show route virt 0 = [] from rfl, append_nil]
    exact hw
  | succ h ih =>
    have hlev : DEPTH - p.length = h + 1 := by omega
    have hlen : (p ++ [indexOf virt (h + 1)]).length + h = DEPTH := by simp; omega
    have hpath : p ++ [indexOf virt (h + 1)] ++ route virt h = p ++ route virt (h + 1) := by
      rw [append_assoc, singleton_append, route_succ]
    cases hpres : M.present (w.mem t (indexOf virt (h + 1))) with
    | false =>
      have hmiss : missingFrom M w virt (down (h + 1)) t = h + 1 := by
        rw [down, missingFrom, step_eq_child, M.child_absent hpres]
      match stock, g with
      | ⟨[]⟩, g =>
        rw [createFrom_short hpres, hmiss]
        exact ⟨Relation.ReflTransGen.refl, succ_pos h, rfl⟩
      | ⟨c :: rest⟩, g =>
        have K : Links M w.mem root p t (indexOf virt (h + 1)) c :=
          ⟨by omega, hw, hpres, g.stocked.frame c (by simp), g.stocked.zeroed c (by simp),
            g.stocked.fresh c (by simp)⟩
        have first : Grow M root under (w, ⟨c :: rest⟩) (_, ⟨rest⟩) := .link K
        have hnext : walk M.format (w.store t (indexOf virt (h + 1)) (M.table c under)).mem DEPTH
            root (p ++ [indexOf virt (h + 1)]) = some c := by
          rw [World.store, K.walk_eq L g.hierarchy under (by simp; omega), if_pos rfl]
        obtain ⟨grows, created⟩ := ih hlen (first.growing L g) hnext
        have hzero : Zeroed (w.store t (indexOf virt (h + 1)) (M.table c under)).mem c :=
          K.zeroed.update (K.ne g.hierarchy)
        rw [missingFrom_zeroed L hzero, hpath] at created
        have hshort : (⟨c :: rest⟩ : TableStock).len < h + 1 ↔ (⟨rest⟩ : TableStock).len < h := by
          simp [TableStock.len]
        rw [createFrom_link hpres, hmiss, hshort]
        exact ⟨Relation.ReflTransGen.head first grows, created⟩
    | true =>
      have hchild := g.hierarchy.child (by omega) hw hpres
      have hends := g.hierarchy.noBlock p t _ (by omega) hw hpres
      rw [hlev] at hchild hends
      have hmiss : missingFrom M w virt (down (h + 1)) t =
          missingFrom M w virt (down h) (M.addr (w.mem t (indexOf virt (h + 1)))) := by
        rw [down, missingFrom, step_eq_child, hchild]
      have hnext : walk M.format w.mem DEPTH root (p ++ [indexOf virt (h + 1)]) =
          some (M.addr (w.mem t (indexOf virt (h + 1)))) := by
        rw [walk_snoc hw, hlev, hchild]
      rw [createFrom_deeper hpres hends, hmiss]
      rcases widenAt_cases w t (indexOf virt (h + 1)) under with ⟨hsame, -⟩ | ⟨wider, hwide, hstore⟩
      · rw [hsame, ← hpath]
        exact ih hlen g hnext
      · have first : Grow M root under (w, stock) (_, stock) := .widen (by omega) hw hpres hwide
        have R := Renames.widen L g.hierarchy (by omega) hw hpres hwide
        have same : ∀ q : List (Fin ENTRIES), q.length ≤ DEPTH →
            walk M.format (w.store t (indexOf virt (h + 1)) wider).mem DEPTH root q =
              walk M.format w.mem DEPTH root q :=
          fun q hq => R.walk_eq g.hierarchy hw hq
        obtain ⟨grows, created⟩ := ih hlen (first.growing L g) ((same _ (by omega)).trans hnext)
        rw [missingFrom_congr hlen hnext same, hpath] at created
        rw [hstore]
        exact ⟨Relation.ReflTransGen.head first grows, created⟩

end

/-! ## the reclaim -/

lemma tableIsEmpty_iff (w : World) (phys : Phys) (cleared : Fin ENTRIES) :
    tableIsEmpty M w phys cleared = true ↔ ∀ j, M.present (w.mem phys j) = false := by
  simp only [tableIsEmpty, all_eq_true, mem_range'_1, Bool.not_eq_true']
  constructor
  · intro hall j
    obtain ⟨step, hstep, hj⟩ : ∃ step, (1 ≤ step ∧ step < 1 + ENTRIES) ∧
        cleared + Fin.ofNat ENTRIES step = j := by
      obtain ⟨j, hj⟩ := j
      obtain ⟨k, hk⟩ := cleared
      simp only [ENTRIES] at hj hk ⊢
      refine ⟨(j + 511 - k) % 512 + 1, by omega, Fin.ext ?_⟩
      simp only [Fin.val_add, Fin.val_ofNat]
      omega
    rw [← hj]
    exact hall step hstep
  · intro hall step _
    exact hall _

/-- one store of a reclaim: an empty table nothing else names is taken out -/
inductive Shrink (M : Machine) (root : Phys) :
    World × Tlb × TableStock → World × Tlb × TableStock → Prop
  | unlink {w : World} {p : List (Fin ENTRIES)} {t c : Phys} {i : Fin ENTRIES} {tlb : Tlb}
      {reclaimed : TableStock} (unlinks : Unlinks M w.mem root p t i c) (alone : w.refs c = 1) :
      Shrink M root (w, tlb, reclaimed) (w.store t i 0, .all, reclaimed.push c)

abbrev Shrinks (M : Machine) (root : Phys) :
    World × Tlb × TableStock → World × Tlb × TableStock → Prop :=
  Relation.ReflTransGen (Shrink M root)

lemma Shrinks.hierarchy (L : M.Lawful) {s s' : World × Tlb × TableStock}
    (S : Shrinks M root s s') (H : Hierarchy M s.1.mem root) : Hierarchy M s'.1.mem root := by
  induction S with
  | refl => exact H
  | tail _ last ih =>
    cases last with
    | unlink U _ => exact ih.unlink L U

lemma Shrinks.held_eq (L : M.Lawful) {s s' : World × Tlb × TableStock} (S : Shrinks M root s s')
    (H : Hierarchy M s.1.mem root) (hq : q.length = DEPTH) (j : Fin ENTRIES) :
    held M s'.1.mem root q j = held M s.1.mem root q j := by
  induction S with
  | refl => rfl
  | tail first last ih =>
    cases last with
    | unlink U _ =>
      rw [World.store, U.held_eq L (Shrinks.hierarchy L first H) hq, ← ih]

lemma levelsAbove {level : Nat} (hl : level ∈ [1, 2, 3]) :
    (down DEPTH).filter (level < ·) <+: down DEPTH ∧
      ((down DEPTH).filter (level < ·)).length = DEPTH - level ∧ 0 < level ∧ level ≤ DEPTH := by
  simp only [mem_cons, not_mem_nil, or_false] at hl
  rcases hl with rfl | rfl | rfl <;> decide

lemma reclaimFrom_shrinks (hls : ∀ level ∈ ls, level ∈ [1, 2, 3]) (w : World) (tlb : Tlb)
    (reclaimed : TableStock) :
    Shrinks M root (w, tlb, reclaimed) (reclaimFrom M root virt ls w tlb reclaimed) := by
  induction ls generalizing w tlb reclaimed with
  | nil => exact Relation.ReflTransGen.refl
  | cons level rest ih =>
    rw [reclaimFrom]
    obtain ⟨hpre, hlen, hpos, hle⟩ := levelsAbove (hls level (by simp))
    rw [descend_eq_walk w virt hpre root]
    cases hw : walk M.format w.mem DEPTH root
        (((down DEPTH).filter (level < ·)).map (indexOf virt)) with
    | none => exact Relation.ReflTransGen.refl
    | some parent =>
      dsimp only
      rw [step_eq_child]
      cases hc : M.format.child level (w.mem parent (indexOf virt level)) with
      | none => exact Relation.ReflTransGen.refl
      | some table =>
        dsimp only
        split
        · exact Relation.ReflTransGen.refl
        · next hcond =>
          simp only [World.references, Bool.or_eq_true, Bool.not_eq_true', bne_iff_ne, ne_eq,
            not_or, Bool.not_eq_false, Decidable.not_not, tableIsEmpty_iff] at hcond
          refine Relation.ReflTransGen.head (.unlink ⟨?_, hw, ?_, hcond.1⟩ hcond.2)
            (ih (fun l hl => hls l (mem_cons_of_mem _ hl)) _ _ _)
          · rw [length_map, hlen]
            omega
          · rw [length_map, hlen, Nat.sub_sub_self hle]
            exact hc

lemma reclaim_shrinks (w : World) (virt : Nat) (tlb : Tlb) (reclaimed : TableStock) :
    Shrinks M root (w, tlb, reclaimed) (reclaim M w root virt tlb reclaimed) :=
  reclaimFrom_shrinks (fun _ h => h) w tlb reclaimed

end ClaudeOs.Mm
