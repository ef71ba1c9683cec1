import ClaudeOs.Mm.Balance

/-!
# The teardown of a hierarchy

`free_below` takes the descriptors below the limit out of the top table, invalidates, and then
walks what they reached, giving back one reference for every last-level descriptor and one for
every table.  The walk writes into the tables it is about to give back and into nothing else.

* `Released`  what a part of the walk did: the references it gave back, where it wrote, and that a
  table went back empty;
* `freeTable_released` the walk of one table.
-/

namespace ClaudeOs.Mm
open Radix Tables List Nat
variable {M : Machine} {mem : Memory} {h : Nat} {t c phys : Phys} {i j : Fin ENTRIES} {bits : Bits}

/-! ## a part of a hierarchy -/

/-- a tree of tables of height `h`: no table in it twice, no block above the last level -/
structure Subtree (M : Machine) (mem : Memory) (h : Nat) (t : Phys) : Prop where
  separate : Separate M.format mem h t
  noBlock : ∀ p t' i, p.length < h → walk M.format mem h t p = some t' →
    M.present (mem t' i) = true → M.endsWalk (mem t' i) 1 = false

lemma endsWalk_of_pos (L : M.Lawful) {level : Nat} (hl : 0 < level) (bits : Bits) :
    M.endsWalk bits level = M.endsWalk bits 1 := by
  obtain ⟨k, rfl⟩ : ∃ k, level = k + 1 := ⟨level - 1, by omega⟩
  exact L.endsWalk_succ bits k

lemma Subtree.child (L : M.Lawful) (S : Subtree M mem (h + 1) t)
    (hpres : M.present (mem t i) = true) :
    M.format.child (h + 1) (mem t i) = some (M.addr (mem t i)) ∧
      Subtree M mem h (M.addr (mem t i)) := by
  have hends := S.noBlock [] t i (succ_pos h) rfl hpres
  have hchild : M.format.child (h + 1) (mem t i) = some (M.addr (mem t i)) :=
    M.child_eq_some.mpr ⟨hpres, by rw [endsWalk_of_pos L (succ_pos h), hends], rfl⟩
  refine ⟨hchild, S.separate.child M.format hchild, fun p t' k hp hw hpres' => ?_⟩
  refine S.noBlock (i :: p) t' k (by simpa using hp) ?_ hpres'
  rw [walk_cons, hchild]
  exact hw

variable {mem' : Memory} {entry : World → Fin ENTRIES → World} {is : List (Fin ENTRIES)}
  {root : Phys} {v : World}

section
variable (S : Subtree M mem h t)
include S

lemma Subtree.congr (same : ∀ f, 0 < tableCount M.format mem h t f → mem' f = mem f) :
    Subtree M mem' h t where
  separate f := by
    rw [tableCount, total_congr M.format _ _ h t same]
    exact S.separate f
  noBlock p t' k hp hw hpres := by
    rw [walk_congr M.format (le_of_lt hp) same] at hw
    rw [same t' (tableCount_pos_of_walk M.format (le_of_lt hp) hw)] at hpres ⊢
    exact S.noBlock p t' k hp hw hpres

lemma Subtree.total_clear (i : Fin ENTRIES) (hpres : M.present bits = false) {a : Phys → Nat}
    {b : Bits → Nat} (hb : ∀ bits, M.present bits = false → b bits = 0) :
    total M.format (update mem t i bits) a b h t + hang M.format mem a b h (mem t i) =
      total M.format mem a b h t := by
  have hnone (a : Phys → Nat) {b : Bits → Nat} (hb : ∀ bits, M.present bits = false → b bits = 0) :
      hang M.format mem a b h bits = 0 := by
    cases h with
    | zero => exact hb bits hpres
    | succ h => exact hang_none M.format (M.child_absent hpres)
  have key := total_update M.format S.separate (p := []) (Nat.zero_le h) rfl i bits
    (hnone _ fun _ _ => rfl) a b
  simp only [length_nil, Nat.sub_zero] at key
  rwa [hnone a hb, Nat.add_zero] at key

lemma Subtree.tableCount_clear (i : Fin ENTRIES) (hpres : M.present bits = false) (f : Phys) :
    tableCount M.format (update mem t i bits) h t f + below M.format mem h (mem t i) f =
      tableCount M.format mem h t f :=
  S.total_clear i hpres fun _ _ => rfl

lemma Subtree.clear (i : Fin ENTRIES) (habsent : M.present bits = false) :
    Subtree M (update mem t i bits) h t where
  separate f := by
    have hsum := S.tableCount_clear i habsent f
    have hone : tableCount M.format mem h t f ≤ 1 := S.separate f
    change tableCount M.format (update mem t i bits) h t f ≤ 1
    omega
  noBlock p t' k hp hw hpres := by
    by_cases hit : t' = t ∧ k = i
    · obtain ⟨rfl, rfl⟩ := hit
      rw [update_self, habsent] at hpres
      cases hpres
    · rw [update_of_ne mem t i _ hit] at hpres ⊢
      by_cases hpre : [] ++ [i] <+: p
      · obtain ⟨q, rfl⟩ := hpre
        rw [append_assoc, singleton_append,
          walk_update_through M.format S.separate (p := []) (zero_le h) rfl,
          M.child_absent habsent] at hw
        cases hw
      · rw [walk_update M.format S.separate (p := []) (zero_le h) (le_of_lt hp) rfl hpre] at hw
        exact S.noBlock p t' k hp hw hpres

end

/-! ## what a part of the walk did -/

/-- how often a reference on a frame was given back -/
def frees (past : List Moment) (f : Phys) : Nat := past.countP fun m => m.event == .free f

lemma frees_append (new past : List Moment) (f : Phys) :
    frees (new ++ past) f = frees new f + frees past f := countP_append

/-- no table went back with anything in it; `T` are the tables -/
def Cleared (M : Machine) (T : Phys → Prop) (new : List Moment) : Prop :=
  ∀ m ∈ new, ∀ f, m.event = .free f → T f → ∀ j, M.present (m.mem f j) = false

/-- a part of the walk gave back `weight f` references on each frame and wrote inside `inside` -/
structure Released (M : Machine) (T : Phys → Prop) (w w' : World) (weight : Phys → Nat)
    (inside : Phys → Prop) : Prop where
  refs : ∀ f, w'.refs f = w.refs f - weight f
  mem : ∀ g, ¬ inside g → w'.mem g = w.mem g
  past : ∃ new, w'.past = new ++ w.past ∧ (∀ f, frees new f = weight f) ∧ Cleared M T new

namespace Released
variable {T : Phys → Prop} {w w1 w2 : World} {weight weight1 weight2 : Phys → Nat}
  {inside inside1 inside2 : Phys → Prop}

lemma refl (M : Machine) (T : Phys → Prop) (w : World) :
    Released M T w w (fun _ => 0) (fun _ => False) :=
  ⟨fun _ => rfl, fun _ _ => rfl, [], rfl, fun _ => rfl, fun _ h => nomatch h⟩

lemma trans (R1 : Released M T w w1 weight1 inside1) (R2 : Released M T w1 w2 weight2 inside2) :
    Released M T w w2 (fun f => weight1 f + weight2 f) (fun g => inside1 g ∨ inside2 g) where
  refs f := by rw [R2.refs, R1.refs, Nat.sub_sub]
  mem g hg := by
    rw [R2.mem g fun h => hg (Or.inr h), R1.mem g fun h => hg (Or.inl h)]
  past := by
    obtain ⟨new1, hpast1, hfrees1, hclear1⟩ := R1.past
    obtain ⟨new2, hpast2, hfrees2, hclear2⟩ := R2.past
    refine ⟨new2 ++ new1, by rw [hpast2, hpast1, append_assoc], fun f => ?_, fun m hm => ?_⟩
    · rw [frees_append, hfrees1, hfrees2, Nat.add_comm]
    · rcases mem_append.mp hm with hm | hm
      · exact hclear2 m hm
      · exact hclear1 m hm

lemma mono (R : Released M T w w1 weight inside) (hw : ∀ f, weight f = weight1 f)
    (hi : ∀ g, inside g → inside1 g) : Released M T w w1 weight1 inside1 where
  refs f := by rw [R.refs, hw]
  mem g hg := R.mem g fun h => hg (hi g h)
  past := by
    obtain ⟨new, hpast, hfrees, hclear⟩ := R.past
    exact ⟨new, hpast, fun f => by rw [hfrees, hw], hclear⟩

lemma free (w : World) (p : Phys) (hp : T p → ∀ j, M.present (w.mem p j) = false) :
    Released M T w (w.free p) (fun f => if p = f then 1 else 0) (fun _ => False) where
  refs f := by
    rw [World.free_refs]
    by_cases hf : f = p
    · subst hf
      rw [if_pos rfl, if_pos rfl]
    · rw [if_neg hf, if_neg (Ne.symm hf), Nat.sub_zero]
  mem _ _ := rfl
  past := by
    refine ⟨[_], rfl, fun f => ?_, fun m hm f hevent hT => ?_⟩
    · simp [frees]
    · obtain rfl := mem_singleton.mp hm
      obtain rfl := Event.free.inj hevent
      exact hp hT

lemma store (w : World) (t : Phys) (i : Fin ENTRIES) (bits : Bits) :
    Released M T w (w.store t i bits) (fun _ => 0) (fun g => g = t) where
  refs _ := rfl
  mem g hg := update_of_table_ne w.mem t i bits hg
  past := by
    refine ⟨[_], rfl, fun f => by simp [frees], fun m hm f hevent _ => ?_⟩
    obtain rfl := mem_singleton.mp hm
    cases hevent

end Released

/-! ## the walk of one table -/

/-- the references on `f` that a tree of tables holds: one as a table, one for each leaf -/
def load (M : Machine) (mem : Memory) (h : Nat) (t f : Phys) : Nat :=
  total M.format mem (fun g => if g = f then 1 else 0) (names M f) h t

/-- the references on `f` held below one descriptor of a table of height `h` -/
def loadBelow (M : Machine) (mem : Memory) (h : Nat) (bits : Bits) (f : Phys) : Nat :=
  hang M.format mem (fun g => if g = f then 1 else 0) (names M f) h bits

lemma load_eq (mem : Memory) (h : Nat) (t f : Phys) :
    load M mem h t f = (if t = f then 1 else 0) + ∑ i, loadBelow M mem h (mem t i) f :=
  total_eq M.format mem _ _ h t

lemma load_eq_add (mem : Memory) (h : Nat) (t f : Phys) : load M mem h t f =
      tableCount M.format mem h t f + total M.format mem (fun _ => 0) (names M f) h t := by
  rw [tableCount, ← total_add M.format, load]
  simp only [add_zero, zero_add]

lemma loadBelow_absent (h : Nat) (hpres : M.present bits = false) (f : Phys) :
    loadBelow M mem h bits f = 0 := by
  cases h with
  | zero => exact names_absent hpres
  | succ h => exact hang_none M.format (M.child_absent hpres)

/-- no last-level descriptor of the tree names a frame of `T` -/
def NoLeaf (M : Machine) (T : Phys → Prop) (mem : Memory) (h : Nat) (t : Phys) : Prop :=
  ∀ f, T f → total M.format mem (fun _ => 0) (names M f) h t = 0

structure EntryReleased (M : Machine) (T : Phys → Prop) (h : Nat) (phys : Phys) (w w' : World)
    (i : Fin ENTRIES) : Prop where
  released : Released M T w w' (loadBelow M w.mem h (w.mem phys i))
    (fun g => g = phys ∨ 0 < below M.format w.mem h (w.mem phys i) g)
  cleared : M.present (w'.mem phys i) = false
  others : ∀ j, j ≠ i → w'.mem phys j = w.mem phys j

namespace EntryReleased
variable {T : Phys → Prop} {w w' : World}

section
variable (R : EntryReleased M T h phys w w' i)
include R

section
variable (S : Subtree M w.mem h phys)
include S

lemma agrees (g : Phys)
    (hg : 0 < tableCount M.format (update w.mem phys i (w'.mem phys i)) h phys g) :
    w'.mem g = update w.mem phys i (w'.mem phys i) g := by
  by_cases hgp : g = phys
  · subst hgp
    funext j
    by_cases hj : j = i
    · rw [hj, update_self]
    · rw [update_of_ne w.mem g i _ fun hh => hj hh.2, R.others j hj]
  · have hsum := S.tableCount_clear i R.cleared g
    have hone : tableCount M.format w.mem h phys g ≤ 1 := S.separate g
    rw [update_of_table_ne w.mem phys i _ hgp, R.released.mem g]
    rintro (h | h)
    · exact hgp h
    · omega

lemma subtree : Subtree M w'.mem h phys := (S.clear i R.cleared).congr (R.agrees S)

lemma noLeaf (N : NoLeaf M T w.mem h phys) : NoLeaf M T w'.mem h phys := by
  intro f hf
  have hzero := N f hf
  have hsum := S.total_clear (a := fun _ => 0) (b := names M f) i R.cleared fun _ => names_absent
  rw [total_congr M.format _ _ h phys (R.agrees S)]
  omega

lemma below_eq (hj : j ≠ i) (a : Phys → Nat) (b : Bits → Nat) :
    hang M.format w'.mem a b h (w'.mem phys j) = hang M.format w.mem a b h (w.mem phys j) := by
  rw [R.others j hj]
  refine hang_congr M.format a b h _ fun f hf => R.released.mem f ?_
  rintro (hfp | hbelow)
  · have := S.separate.below_self M.format j
    rw [hfp] at hf
    omega
  · have := S.separate.below_other M.format hj hf
    omega

end
end
end EntryReleased

section
variable {T : Phys → Prop} {w : World}

/-- what the walk does with some descriptors of a table, one after the other -/
structure LoopReleased (M : Machine) (T : Phys → Prop) (h : Nat) (phys : Phys) (w w' : World)
    (is : List (Fin ENTRIES)) : Prop where
  released : Released M T w w' (fun f => (is.map fun i => loadBelow M w.mem h (w.mem phys i) f).sum)
    (fun g => g = phys ∨ ∃ i ∈ is, 0 < below M.format w.mem h (w.mem phys i) g)
  cleared : ∀ i ∈ is, M.present (w'.mem phys i) = false
  others : ∀ j, j ∉ is → w'.mem phys j = w.mem phys j

lemma loop_released
    (hentry : ∀ w i, Subtree M w.mem h phys → NoLeaf M T w.mem h phys → EntryReleased M T h phys w (entry w i) i)
    (hnodup : is.Nodup) (S : Subtree M w.mem h phys) (N : NoLeaf M T w.mem h phys) :
    LoopReleased M T h phys w (is.foldl entry w) is := by
  induction is generalizing w with
  | nil =>
    refine ⟨(Released.refl M T w).mono (fun _ => rfl) (fun _ hg => hg.elim), ?_, fun _ _ => rfl⟩
    exact fun _ hi => nomatch hi
  | cons i is ih =>
    obtain ⟨hi, hnodup⟩ := nodup_cons.mp hnodup
    have first := hentry w i S N
    have later := ih hnodup (first.subtree S) (first.noLeaf S N)
    have hne : ∀ j ∈ is, j ≠ i := by
      rintro j hj rfl
      exact hi hj
    refine ⟨(first.released.trans later.released).mono (fun f => ?_) (fun g hg => ?_), ?_, ?_⟩
    · rw [map_cons, sum_cons]
      congr 2
      exact map_congr_left fun j hj => first.below_eq S (hne j hj) _ _
    · rcases hg with (hg | hg) | (hg | ⟨j, hj, hg⟩)
      · exact Or.inl hg
      · exact Or.inr ⟨i, mem_cons_self, hg⟩
      · exact Or.inl hg
      · refine Or.inr ⟨j, mem_cons_of_mem _ hj, ?_⟩
        rwa [below, first.below_eq S (hne j hj)] at hg
    · intro j hj
      rcases mem_cons.mp hj with rfl | hj
      · rw [foldl_cons, later.others j hi]
        exact first.cleared
      · exact later.cleared j hj
    · intro j hj
      rw [mem_cons, not_or] at hj
      rw [foldl_cons, later.others j hj.2, first.others j hj.1]

lemma freeEntry_absent (release : World → Bits → World)
    (hpres : M.present (w.mem phys i) = false) : freeEntry M release phys w i = w := by
  simp [freeEntry, hpres]

lemma freeEntry_present (release : World → Bits → World) (hpres : M.present (w.mem phys i) = true) :
    freeEntry M release phys w i = (release w (w.mem phys i)).store phys i 0 := by
  simp [freeEntry, hpres]

section
variable (L : M.Lawful)
include L

lemma entry_released {release : World → Bits → World}
    (hrelease : ∀ w i, M.present (w.mem phys i) = true → Subtree M w.mem h phys →
      NoLeaf M T w.mem h phys →
      Released M T w (release w (w.mem phys i)) (loadBelow M w.mem h (w.mem phys i)) (fun g => 0 < below M.format w.mem h (w.mem phys i) g))
    (S : Subtree M w.mem h phys) (N : NoLeaf M T w.mem h phys) (i : Fin ENTRIES) :
    EntryReleased M T h phys w (freeEntry M release phys w i) i := by
  cases hpres : M.present (w.mem phys i) with
  | false =>
    rw [freeEntry_absent release hpres]
    exact ⟨(Released.refl M T w).mono (fun f => (loadBelow_absent h hpres f).symm)
      (fun _ hg => hg.elim), hpres, fun _ _ => rfl⟩
  | true =>
    rw [freeEntry_present release hpres]
    have R := hrelease w i hpres S N
    have hself := S.separate.below_self M.format i
    refine ⟨(R.trans (Released.store _ phys i 0)).mono (fun _ => rfl) (fun g hg => hg.symm), ?_, ?_⟩
    · rw [World.store_mem, update_self]
      exact L.present_zero
    · intro j hj
      rw [World.store_mem, update_of_ne _ phys i _ fun hh => hj hh.2, R.mem phys (by omega)]

omit L in
lemma table_released
    (hentry : ∀ w i, Subtree M w.mem h phys → NoLeaf M T w.mem h phys → EntryReleased M T h phys w (entry w i) i)
    (S : Subtree M w.mem h phys) (N : NoLeaf M T w.mem h phys) :
    Released M T w (((finRange ENTRIES).foldl entry w).free phys) (load M w.mem h phys)
      (fun g => 0 < tableCount M.format w.mem h phys g) := by
  have loop := loop_released hentry (nodup_finRange ENTRIES) S N
  refine (loop.released.trans (Released.free _ phys fun _ j =>
    loop.cleared j (mem_finRange j))).mono (fun f => ?_) (fun g hg => ?_)
  · rw [load_eq, add_comm, ← sum_ofFn, ofFn_eq_map]
  · rcases hg with (hg | ⟨i, -, hg⟩) | hg
    · rw [hg]
      exact tableCount_self M.format h phys
    · exact lt_of_lt_of_le hg (below_le_tableCount M.format h phys g i)
    · exact hg.elim

/-- **the walk of one table** gives back what the tree holds, and writes in its tables only -/
theorem freeTable_released (S : Subtree M w.mem h phys) (N : NoLeaf M T w.mem h phys) :
    Released M T w (freeTable M (h + 1) w phys) (load M w.mem h phys)
      (fun g => 0 < tableCount M.format w.mem h phys g) := by
  induction h generalizing w phys with
  | zero =>
    refine table_released (fun w i S N => entry_released L (fun w i hpres _ N => ?_) S N i) S N
    -- the descriptors are leaves, and a leaf names no table
    have hleaf : ¬ T (M.addr (w.mem phys i)) := by
      intro hT
      have hzero := N _ hT
      have hle := hang_le_total M.format w.mem (fun _ => 0)
        (names M (M.addr (w.mem phys i))) 0 phys i
      rw [hzero, hang, names_present hpres, if_pos rfl] at hle
      omega
    refine (Released.free w (M.addr (w.mem phys i)) fun hT => absurd hT hleaf).mono (fun f => ?_)
      (fun _ hg => hg.elim)
    exact (names_present hpres).symm
  | succ h ih =>
    refine table_released (fun w i S N => entry_released L (fun w i hpres S N => ?_) S N i) S N
    obtain ⟨hchild, Sc⟩ := S.child L hpres
    have hends : M.endsWalk (w.mem phys i) (h + 1 + 1) = false := by
      rw [L.endsWalk_succ]
      exact S.noBlock [] phys i (succ_pos h) rfl hpres
    have Nc : NoLeaf M T w.mem h (M.addr (w.mem phys i)) := by
      intro f hf
      have hle := total_child_le M.format (fun _ => 0) (names M f) hchild
      rw [N f hf] at hle
      exact le_zero.mp hle
    rw [hends]
    exact (ih Sc Nc).mono (fun f => (hang_some M.format hchild).symm)
      (fun g hg => by rwa [below_some M.format hchild])

/-! ## the whole teardown -/

lemma Hierarchy.subtree (H : Hierarchy M mem root) : Subtree M mem DEPTH root where
  separate := H.separate
  noBlock p t i hp hw hpres := by
    rw [← endsWalk_of_pos L (show 0 < DEPTH - p.length by omega)]
    exact H.noBlock p t i hp hw hpres

lemma Subtree.hierarchy (S : Subtree M mem DEPTH root) : Hierarchy M mem root where
  separate := S.separate
  noBlock p t i hp hw hpres := by
    rw [endsWalk_of_pos L (show 0 < DEPTH - p.length by omega)]
    exact S.noBlock p t i hp hw hpres

omit L in
lemma Released.flushAll (T : Phys → Prop) (w : World) :
    Released M T w w.flushAll (fun _ => 0) (fun _ => False) where
  refs _ := rfl
  mem _ _ := rfl
  past := by
    refine ⟨[_], rfl, fun f => by simp [frees], fun m hm f hevent _ => ?_⟩
    obtain rfl := mem_singleton.mp hm
    cases hevent

lemma detach_released (T : Phys → Prop) (root : Phys) (hnodup : is.Nodup) (w : World) :
    Released M T w (detach M root is w).1 (fun _ => 0) (fun g => g = root) ∧
      (detach M root is w).2 = is.map (w.mem root) ∧
      (∀ i ∈ is, M.present ((detach M root is w).1.mem root i) = false) ∧
      (∀ j, j ∉ is → (detach M root is w).1.mem root j = w.mem root j) := by
  induction is generalizing w with
  | nil =>
    exact ⟨(Released.refl M T w).mono (fun _ => rfl) (fun _ hg => hg.elim), rfl,
      (fun _ hi => nomatch hi), fun _ _ => rfl⟩
  | cons i is ih =>
    obtain ⟨hi, hnodup⟩ := nodup_cons.mp hnodup
    -- the first descriptor, taken out when it is present
    obtain ⟨w1, hw1, R1, habsent, hothers⟩ : ∃ w1,
        (if M.present (w.mem root i) then w.store root i 0 else w) = w1 ∧
        Released M T w w1 (fun _ => 0) (fun g => g = root) ∧
        M.present (w1.mem root i) = false ∧ ∀ j, j ≠ i → w1.mem root j = w.mem root j := by
      cases hpres : M.present (w.mem root i) with
      | true =>
        refine ⟨_, rfl, Released.store w root i 0, ?_, fun j hj => ?_⟩
        · rw [if_pos rfl, World.store_mem, update_self]
          exact L.present_zero
        · rw [if_pos rfl, World.store_mem, update_of_ne _ root i _ fun hh => hj hh.2]
      | false =>
        exact ⟨_, rfl, (Released.refl M T w).mono (fun _ => rfl) (fun _ hg => hg.elim), hpres,
          fun _ _ => rfl⟩
    obtain ⟨R2, hbits, hcleared, hrest⟩ := ih hnodup w1
    have hne : ∀ j ∈ is, j ≠ i := by
      rintro j hj rfl
      exact hi hj
    rw [detach, hw1]
    refine ⟨(R1.trans R2).mono (fun _ => rfl) (fun g hg => hg.elim id id), ?_, fun j hj => ?_,
      fun j hj => ?_⟩
    · dsimp only
      rw [hbits, map_cons]
      congr 1
      exact map_congr_left fun j hj => hothers j (hne j hj)
    · rcases mem_cons.mp hj with rfl | hj
      · rw [hrest j hi]
        exact habsent
      · exact hcleared j hj
    · rw [mem_cons, not_or] at hj
      dsimp only
      rw [hrest j hj.2, hothers j hj.1]

lemma freeDetached_released (S : Subtree M w.mem DEPTH root) (N : NoLeaf M T w.mem DEPTH root)
    (same : ∀ g, 0 < below M.format w.mem DEPTH (w.mem root i) g → v.mem g = w.mem g) :
    Released M T v (freeDetached M v (w.mem root i)) (loadBelow M w.mem DEPTH (w.mem root i))
      (fun g => 0 < below M.format w.mem DEPTH (w.mem root i) g) := by
  cases hpres : M.present (w.mem root i) with
  | false =>
    have hrun : freeDetached M v (w.mem root i) = v := by simp [freeDetached, hpres]
    rw [hrun]
    exact (Released.refl M T v).mono (fun f => (loadBelow_absent DEPTH hpres f).symm)
      (fun _ hg => hg.elim)
  | true =>
    obtain ⟨hchild, Sc⟩ := Subtree.child (h := 2) L S hpres
    have hends : M.endsWalk (w.mem root i) 3 = false := by
      rw [L.endsWalk_succ]
      exact S.noBlock [] root i (by decide) rfl hpres
    have hrun : freeDetached M v (w.mem root i) = freeTable M 3 v (M.addr (w.mem root i)) := by
      simp [freeDetached, hpres, hends]
    have same' : ∀ g, 0 < tableCount M.format w.mem 2 (M.addr (w.mem root i)) g →
        v.mem g = w.mem g := by
      intro g hg
      rw [← below_some M.format hchild] at hg
      exact same g hg
    have Nc : NoLeaf M T v.mem 2 (M.addr (w.mem root i)) := by
      intro f hf
      have hle := total_child_le M.format (fun _ => 0) (names M f) hchild
      have hzero : total M.format w.mem (fun _ => 0) (names M f) (2 + 1) root = 0 := N f hf
      rw [total_congr M.format _ _ 2 _ same']
      omega
    rw [hrun]
    refine (freeTable_released L (Sc.congr same') Nc).mono (fun f => ?_) (fun g hg => ?_)
    · rw [load, total_congr M.format _ _ 2 _ same', loadBelow, DEPTH, hang_some M.format hchild]
    · rw [tableCount, total_congr M.format _ _ 2 _ same'] at hg
      rw [DEPTH, below_some M.format hchild]
      exact hg

lemma freeAll_released (hnodup : is.Nodup) (S : Subtree M w.mem DEPTH root)
    (N : NoLeaf M T w.mem DEPTH root)
    (same : ∀ i ∈ is, ∀ g, 0 < below M.format w.mem DEPTH (w.mem root i) g → v.mem g = w.mem g) :
    Released M T v ((is.map (w.mem root)).foldl (freeDetached M) v)
      (fun f => (is.map fun i => loadBelow M w.mem DEPTH (w.mem root i) f).sum)
      (fun g => ∃ i ∈ is, 0 < below M.format w.mem DEPTH (w.mem root i) g) := by
  induction is generalizing v with
  | nil => exact (Released.refl M T v).mono (fun _ => rfl) (fun _ hg => hg.elim)
  | cons i is ih =>
    obtain ⟨hi, hnodup⟩ := nodup_cons.mp hnodup
    have first := freeDetached_released L S N (same i mem_cons_self)
    have later := ih hnodup fun j hj g hg => by
      have hne : j ≠ i := by
        rintro rfl
        exact hi hj
      rw [first.mem g, same j (mem_cons_of_mem _ hj) g hg]
      have := S.separate.below_other M.format hne hg
      omega
    refine (first.trans later).mono (fun f => ?_) (fun g hg => ?_)
    · rw [map_cons, sum_cons]
    · rcases hg with hg | ⟨j, hj, hg⟩
      · exact ⟨i, mem_cons_self, hg⟩
      · exact ⟨j, mem_cons_of_mem _ hj, hg⟩

/-- the references on `f` held below the descriptors that a teardown up to `limit` takes -/
def loadUpTo (M : Machine) (mem : Memory) (root : Phys) (limit : Nat) (f : Phys) : Nat :=
  ((topsBelow limit).map fun i => loadBelow M mem DEPTH (mem root i) f).sum

omit L in
lemma nodup_topsBelow (limit : Nat) : (topsBelow limit).Nodup :=
  (nodup_finRange ENTRIES).sublist (take_sublist _ _)

lemma freeBelow_released (S : Subtree M w.mem DEPTH root) (N : NoLeaf M T w.mem DEPTH root)
    (limit : Nat) : Released M T w (freeBelow M w root limit) (loadUpTo M w.mem root limit)
      (fun g => g = root ∨ ∃ i ∈ topsBelow limit, 0 < below M.format w.mem DEPTH (w.mem root i) g) ∧
      (∀ i ∈ topsBelow limit, M.present ((freeBelow M w root limit).mem root i) = false) ∧
      (∀ j, j ∉ topsBelow limit → (freeBelow M w root limit).mem root j = w.mem root j) := by
  obtain ⟨R1, hbits, hcleared, hrest⟩ := detach_released L T root (nodup_topsBelow limit) w
  have hroot : ∀ i, below M.format w.mem DEPTH (w.mem root i) root = 0 :=
    S.separate.below_self M.format
  rw [freeBelow]
  rcases hrun : detach M root (topsBelow limit) w with ⟨w1, detached⟩
  rw [hrun] at R1 hbits hcleared hrest
  obtain rfl : detached = (topsBelow limit).map (w.mem root) := hbits
  have same : ∀ i ∈ topsBelow limit, ∀ g,
      0 < below M.format w.mem DEPTH (w.mem root i) g → w1.flushAll.mem g = w.mem g := by
    intro i _ g hg
    rw [World.flushAll_mem, R1.mem g]
    rintro rfl
    have := hroot i
    omega
  have R2 := freeAll_released L (nodup_topsBelow limit) S N same
  have hkeep : (((topsBelow limit).map (w.mem root)).foldl (freeDetached M) w1.flushAll).mem root =
      w1.mem root := by
    refine R2.mem root ?_
    rintro ⟨i, -, hi⟩
    have := hroot i
    omega
  refine ⟨((R1.trans (Released.flushAll T w1)).trans R2).mono (fun f => ?_) (fun g hg => ?_), ?_, ?_⟩
  · rw [loadUpTo, Nat.zero_add]
  · rcases hg with (hg | hg) | hg
    · exact Or.inl hg
    · exact hg.elim
    · exact Or.inr hg
  · rw [hkeep]
    exact hcleared
  · rw [hkeep]
    exact hrest

end

/-! ## what is left of the hierarchy -/

lemma below_pos_of_walk {js : List (Fin ENTRIES)} (hlen : (j :: js).length ≤ DEPTH)
    (hw : walk M.format mem DEPTH root (j :: js) = some t) :
    0 < below M.format mem DEPTH (mem root j) t := by
  rw [walk_cons, Option.bind_eq_some_iff] at hw
  obtain ⟨c, hc, hw⟩ := hw
  rw [DEPTH] at hc hw hlen
  rw [DEPTH, below_some M.format hc]
  rw [length_cons] at hlen
  exact tableCount_pos_of_walk M.format (by omega) hw

/-- the descriptors `is` of the top table are gone, and what hung elsewhere is as it was -/
structure Pruned (M : Machine) (mem mem' : Memory) (root : Phys) (is : List (Fin ENTRIES)) : Prop where
  absent : ∀ i ∈ is, M.present (mem' root i) = false
  kept : ∀ j, j ∉ is → mem' root j = mem root j
  elsewhere : ∀ g, ¬ (g = root ∨ ∃ i ∈ is, 0 < below M.format mem DEPTH (mem root i) g) →
    mem' g = mem g

namespace Pruned
variable {mem' : Memory} {root : Phys} {is : List (Fin ENTRIES)}

section
variable (P : Pruned M mem mem' root is)
include P

lemma same (S : Subtree M mem DEPTH root) (hj : j ∉ is) (f : Phys)
    (hf : 0 < below M.format mem DEPTH (mem root j) f) : mem' f = mem f := by
  refine P.elsewhere f ?_
  rintro (rfl | ⟨i, hi, hbelow⟩)
  · have := S.separate.below_self M.format j
    omega
  · have hne : j ≠ i := by
      rintro rfl
      exact hj hi
    have := S.separate.below_other M.format hne hf
    omega

lemma walk_eq (S : Subtree M mem DEPTH root) {q : List (Fin ENTRIES)} (hq : q.length ≤ DEPTH) :
    walk M.format mem' DEPTH root (j :: q.drop 1) =
      if j ∈ is then none else walk M.format mem DEPTH root (j :: q.drop 1) := by
  rw [walk_cons, walk_cons]
  split
  · next hj => rw [M.child_absent (P.absent j hj)]; rfl
  · next hj =>
    rw [P.kept j hj]
    cases hc : M.format.child DEPTH (mem root j) with
    | none => rfl
    | some c =>
      refine walk_congr M.format (by rw [length_drop]; omega) fun f hf => P.same S hj f ?_
      rw [DEPTH] at hc
      rw [DEPTH, below_some M.format hc]
      exact hf

lemma total_add (S : Subtree M mem DEPTH root)
    (hnodup : is.Nodup) (a : Phys → Nat) (b : Bits → Nat) : total M.format mem' a b DEPTH root +
        (is.map fun i => hang M.format mem a b DEPTH (mem root i)).sum =
      total M.format mem a b DEPTH root := by
  rw [sum_map_eq hnodup, total_eq, total_eq, add_assoc, ← Finset.sum_add_distrib]
  refine congrArg (a root + ·) ?_
  refine Finset.sum_congr rfl fun j _ => ?_
  by_cases hj : j ∈ is
  · have habsent : hang M.format mem' a b DEPTH (mem' root j) = 0 :=
      hang_none M.format (h := 2) (M.child_absent (P.absent j hj))
    rw [if_pos hj, habsent, zero_add]
  · rw [if_neg hj, add_zero, P.kept j hj]
    exact hang_congr M.format a b DEPTH _ (P.same S hj)

lemma subtree (S : Subtree M mem DEPTH root) (hnodup : is.Nodup) : Subtree M mem' DEPTH root where
  separate f := by
    have hsum := P.total_add S hnodup (fun g => if g = f then 1 else 0) fun _ => 0
    have hone : tableCount M.format mem DEPTH root f ≤ 1 := S.separate f
    rw [tableCount] at hone ⊢
    omega
  noBlock p t i hp hw hpres := by
    cases p with
    | nil =>
      obtain rfl := Option.some.inj hw
      by_cases hi : i ∈ is
      · rw [P.absent i hi] at hpres
        cases hpres
      · rw [P.kept i hi] at hpres ⊢
        exact S.noBlock [] _ i hp rfl hpres
    | cons j js =>
      have hwalk := P.walk_eq (j := j) (q := j :: js) S (le_of_lt hp)
      rw [drop_one, tail_cons, hw] at hwalk
      split at hwalk
      · cases hwalk
      · next hj =>
        have hpos := below_pos_of_walk hp.le hwalk.symm
        rw [P.same S hj t hpos] at hpres ⊢
        exact S.noBlock (j :: js) t i hp hwalk.symm hpres

end
end Pruned

/-! ## the books after a teardown -/

lemma loadBelow_eq_add (mem : Memory) (bits : Bits) (f : Phys) :
    loadBelow M mem DEPTH bits f = below M.format mem DEPTH bits f +
      hang M.format mem (fun _ => 0) (names M f) DEPTH bits := by
  rw [loadBelow, below, DEPTH, hang, hang, hang]
  cases M.format.child (2 + 1) bits with
  | none => rfl
  | some c => exact load_eq_add mem 2 c f

lemma loadUpTo_eq_add (mem : Memory) (root : Phys) (limit : Nat) (f : Phys) :
    loadUpTo M mem root limit f =
      ((topsBelow limit).map fun i => below M.format mem DEPTH (mem root i) f).sum +
        ((topsBelow limit).map fun i =>
          hang M.format mem (fun _ => 0) (names M f) DEPTH (mem root i)).sum := by
  rw [loadUpTo, ← sum_map_add]
  exact congrArg sum (map_congr_left fun i _ => loadBelow_eq_add mem _ f)

variable {roots loose : List Phys} {root : Phys}

def IsTable (M : Machine) (mem : Memory) (roots : List Phys) (f : Phys) : Prop :=
  0 < tablesAll M mem roots f

lemma Balanced.noLeaf (B : Balanced M roots w loose) (hr : root ∈ roots) :
    NoLeaf M (IsTable M w.mem roots) w.mem DEPTH root := by
  intro f hf
  have hle : total M.format w.mem (fun _ => 0) (names M f) DEPTH root ≤ leavesAll M w.mem roots f :=
    total_le_forest M.format _ _ hr
  have hcount := B.counts f
  rw [B.alone f hf] at hcount
  have : 0 < tablesAll M w.mem roots f := hf
  omega

lemma freeBelow_pruned (L : M.Lawful) (B : Balanced M roots w loose) (hr : root ∈ roots)
    (limit : Nat) :
    Released M (IsTable M w.mem roots) w (freeBelow M w root limit) (loadUpTo M w.mem root limit)
      (fun g => g = root ∨ ∃ i ∈ topsBelow limit, 0 < below M.format w.mem DEPTH (w.mem root i) g) ∧
    Pruned M w.mem (freeBelow M w root limit).mem root (topsBelow limit) := by
  obtain ⟨R, habsent, hkept⟩ :=
    freeBelow_released L ((B.hierarchy root hr).subtree L) (B.noLeaf hr) limit
  exact ⟨R, habsent, hkept, R.mem⟩

lemma Balanced.outside (B : Balanced M roots w loose) {r g : Phys} (hr : root ∈ roots)
    (hr' : r ∈ roots) (hne : r ≠ root) (is : List (Fin ENTRIES)) (hg : 0 < tables M w.mem r g) :
    ¬ (g = root ∨ ∃ i ∈ is, 0 < below M.format w.mem DEPTH (w.mem root i) g) := by
  intro hin
  have hpos : 0 < tables M w.mem root g := by
    rcases hin with rfl | ⟨i, -, hbelow⟩
    · exact tableCount_self M.format DEPTH g
    · exact lt_of_lt_of_le hbelow (below_le_tableCount M.format DEPTH root g i)
  have := B.other hr hr' hne hpos
  omega

lemma Pruned.forest_add (B : Balanced M roots w loose) (hr : root ∈ roots) (L : M.Lawful)
    (P : Pruned M w.mem mem' root is) (hnodup : is.Nodup) (a : Phys → Nat) (b : Bits → Nat) :
    forest M.format mem' a b DEPTH roots +
        (is.map fun i => hang M.format w.mem a b DEPTH (w.mem root i)).sum =
      forest M.format w.mem a b DEPTH roots := by
  have S := (B.hierarchy root hr).subtree L
  refine forest_change (nodup_of_forestCount M.format B.separate) hr (P.total_add S hnodup a b)
    fun r hr' hne => ?_
  exact total_congr M.format a b DEPTH r fun g hg => P.elsewhere g (B.outside hr hr' hne is hg)

/-- **a teardown keeps the books**: it gives back what the descriptors it takes held -/
theorem freeBelow_balanced (L : M.Lawful) (B : Balanced M roots w loose) (hr : root ∈ roots)
    (limit : Nat) : Balanced M roots (freeBelow M w root limit) loose := by
  obtain ⟨R, P⟩ := freeBelow_pruned L B hr limit
  have htables (f : Phys) :
      tablesAll M (freeBelow M w root limit).mem roots f +
        ((topsBelow limit).map fun i => below M.format w.mem DEPTH (w.mem root i) f).sum =
      tablesAll M w.mem roots f :=
    P.forest_add B hr L (nodup_topsBelow limit) _ _
  have hleaves (f : Phys) :
      leavesAll M (freeBelow M w root limit).mem roots f + ((topsBelow limit).map fun i =>
          hang M.format w.mem (fun _ => 0) (names M f) DEPTH (w.mem root i)).sum =
      leavesAll M w.mem roots f :=
    P.forest_add B hr L (nodup_topsBelow limit) _ _
  have hload (f : Phys) := loadUpTo_eq_add (M := M) w.mem root limit f
  exact {
    separate := fun f => by
      have := B.separate f
      have := htables f
      omega
    hierarchy := fun r hr' => by
      by_cases hne : r = root
      · rw [hne]
        exact (P.subtree ((B.hierarchy root hr).subtree L) (nodup_topsBelow limit)).hierarchy L
      · exact (B.hierarchy r hr').elsewhere fun g hg => P.elsewhere g (B.outside hr hr' hne _ hg)
    counts := fun f => by
      have hcount := B.counts f
      rw [R.refs, hload]
      have := htables f
      have := hleaves f
      omega
    alone := fun f hf => by
      have hsum := htables f
      have hone := B.alone f (by omega)
      have hcount := B.counts f
      have := B.separate f
      have := hleaves f
      rw [R.refs, hload]
      omega
    frame := fun f hf => by
      rw [R.refs] at hf
      exact B.frame f (by omega) }

end
end ClaudeOs.Mm
