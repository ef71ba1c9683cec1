import Mathlib.Algebra.BigOperators.Fin
import Mathlib.Algebra.Order.BigOperators.Group.Finset

/-!
# Radix trees in a memory of tables

A memory gives every frame `n` entries.  A tree of height `h` is a frame whose entries may name
trees of height `h - 1`; the entries of a frame of height `0` are the leaves.  Nothing in the
memory says which frames are tables of the tree, so two descents could meet in one frame; a tree
is SEPARATE when they do not.

* `Format`  what an entry at a height names: a table below it, or nothing;
* `walk`  the descent along a list of indices;
* `total a b`  the sum of `a` over the tables of a tree and of `b` over its leaf entries, and `hang
  a b` what one entry adds to it; `tableCount` is such a sum;
* `total_congr`  a tree only depends on the entries of its own tables;
* `walk_inj`  in a separate tree a table is reached in one way only;
* `total_update`  writing one entry of a separate tree changes a sum by what hangs there;
* `walk_update`  and leaves every descent that does not read that entry;
* `forest`  the sum over several trees, with `forest_update`.
-/

namespace Radix
open Finset List Option Nat
variable {F E : Type*} {n : Nat}

/-- the table that an entry names, if it names one, when it stands in a table of this height -/
structure Format (F E : Type*) where
  child : Nat → E → Option F

def update [DecidableEq F] (mem : F → Fin n → E) (t : F) (i : Fin n) (e : E) : F → Fin n → E :=
  fun t' j => if t' = t ∧ j = i then e else mem t' j

variable {j : Fin n} {t' r : F} {a : F → Nat} {b : E → Nat} {e : E} {h : Nat} {mem : F → Fin n → E}
  {p q : List (Fin n)} {roots : List F}

section
variable [DecidableEq F] (mem : F → Fin n → E) (t : F) (i : Fin n) (e : E)

@[simp] lemma update_self : update mem t i e t i = e := by simp [update]

lemma update_of_ne (h : ¬(t' = t ∧ j = i)) : update mem t i e t' j = mem t' j := by simp [update, h]

lemma update_of_table_ne (h : t' ≠ t) : update mem t i e t' = mem t' := by
  funext j
  exact update_of_ne mem t i e fun hh => h hh.1

end

variable (fmt : Format F E)

/-! ## descents -/

/-- the table reached from the table `t` of height `h` along a path of indices, top first -/
def walk (mem : F → Fin n → E) : Nat → F → List (Fin n) → Option F
  | _, t, [] => some t
  | h, t, i :: is => (fmt.child h (mem t i)).bind fun c => walk mem (h - 1) c is

section
variable (mem : F → Fin n → E) (h : Nat) (t : F)

@[simp] lemma walk_nil : walk fmt mem h t [] = some t := rfl

lemma walk_cons (i : Fin n) (is : List (Fin n)) : walk fmt mem h t (i :: is) =
      (fmt.child h (mem t i)).bind fun c => walk fmt mem (h - 1) c is := rfl

lemma walk_append (p q : List (Fin n)) : walk fmt mem h t (p ++ q) =
      (walk fmt mem h t p).bind fun c => walk fmt mem (h - p.length) c q := by
  induction p generalizing h t with
  | nil => rfl
  | cons i is ih =>
    rw [cons_append, walk_cons, walk_cons, bind_assoc]
    congr 1
    funext c
    rw [ih, length_cons, Nat.sub_sub, Nat.add_comm 1]

end

/-! ## sums over a tree -/

/-- `a` summed over the tables of the tree of height `h` at `t`, and `b` over its leaf entries -/
def total (mem : F → Fin n → E) (a : F → Nat) (b : E → Nat) : Nat → F → Nat
  | 0, t => a t + ∑ i, b (mem t i)
  | h + 1, t => a t + ∑ i, (fmt.child (h + 1) (mem t i)).elim 0 (total mem a b h)

/-- what an entry of a table of height `h` adds to such a sum -/
def hang (mem : F → Fin n → E) (a : F → Nat) (b : E → Nat) : Nat → E → Nat
  | 0, e => b e
  | h + 1, e => (fmt.child (h + 1) e).elim 0 (total fmt mem a b h)

lemma total_eq (mem : F → Fin n → E) (a : F → Nat) (b : E → Nat) (h : Nat) (t : F) :
    total fmt mem a b h t = a t + ∑ i, hang fmt mem a b h (mem t i) := by
  cases h <;> rfl

lemma hang_none (he : fmt.child (h + 1) e = none) : hang fmt mem a b (h + 1) e = 0 := by
  simp [hang, he]

lemma hang_some {c : F} (he : fmt.child (h + 1) e = some c) :
    hang fmt mem a b (h + 1) e = total fmt mem a b h c := by simp [hang, he]

lemma hang_le_total (mem : F → Fin n → E) (a : F → Nat) (b : E → Nat) (h : Nat) (t : F)
    (i : Fin n) : hang fmt mem a b h (mem t i) ≤ total fmt mem a b h t := by
  rw [total_eq]
  have hi : hang fmt mem a b h (mem t i) ≤ ∑ j, hang fmt mem a b h (mem t j) :=
    single_le_sum (f := fun j => hang fmt mem a b h (mem t j))
      (fun _ _ => zero_le _) (mem_univ i)
  exact le_trans hi (le_add_left _ _)

lemma hang_add_hang_le_total (mem : F → Fin n → E) (a : F → Nat) (b : E → Nat) (h : Nat) (t : F)
    {i : Fin n} (hij : i ≠ j) :
    a t + (hang fmt mem a b h (mem t i) + hang fmt mem a b h (mem t j)) ≤
      total fmt mem a b h t := by
  rw [total_eq]
  refine Nat.add_le_add_left ?_ _
  rw [← sum_pair hij (f := fun k => hang fmt mem a b h (mem t k))]
  exact sum_le_sum_of_subset (subset_univ _)

def tableCount [DecidableEq F] (mem : F → Fin n → E) (h : Nat) (t f : F) : Nat :=
  total fmt mem (fun t' => if t' = f then 1 else 0) (fun _ => 0) h t

/-- how often `f` is a table below an entry of a table of height `h` -/
def below [DecidableEq F] (mem : F → Fin n → E) (h : Nat) (e : E) (f : F) : Nat :=
  hang fmt mem (fun t' => if t' = f then 1 else 0) (fun _ => 0) h e

section
variable [DecidableEq F] {mem mem' : F → Fin n → E} {h : Nat} {t c f : F} {i j : Fin n} {e : E}

lemma below_some (he : fmt.child (h + 1) e = some c) (f : F) :
    below fmt mem (h + 1) e f = tableCount fmt mem h c f := hang_some fmt he

lemma below_none (he : fmt.child (h + 1) e = none) (f : F) :
    below fmt mem (h + 1) e f = 0 := hang_none fmt he

lemma below_zero (e : E) (f : F) : below fmt mem 0 e f = 0 := rfl

lemma tableCount_eq (h : Nat) (t f : F) :
    tableCount fmt mem h t f = (if t = f then 1 else 0) + ∑ i, below fmt mem h (mem t i) f :=
  total_eq fmt mem _ _ h t

lemma below_le_tableCount (h : Nat) (t f : F) (i : Fin n) :
    below fmt mem h (mem t i) f ≤ tableCount fmt mem h t f :=
  hang_le_total fmt mem _ _ h t i

lemma tableCount_self (h : Nat) (t : F) : 0 < tableCount fmt mem h t t := by simp [tableCount_eq]

omit [DecidableEq F] in
lemma total_child_le (a : F → Nat) (b : E → Nat) (hc : fmt.child (h + 1) (mem t i) = some c) :
    total fmt mem a b h c ≤ total fmt mem a b (h + 1) t := by
  rw [← hang_some fmt hc]
  exact hang_le_total fmt mem a b (h + 1) t i

lemma tableCount_child_le (hc : fmt.child (h + 1) (mem t i) = some c) (f : F) :
    tableCount fmt mem h c f ≤ tableCount fmt mem (h + 1) t f :=
  total_child_le fmt _ _ hc

lemma total_congr (a : F → Nat) (b : E → Nat) (h : Nat) (t : F)
    (hm : ∀ f, 0 < tableCount fmt mem h t f → mem' f = mem f) :
    total fmt mem' a b h t = total fmt mem a b h t := by
  induction h generalizing t with
  | zero => rw [total_eq, total_eq, hm t (tableCount_self fmt 0 t)]; rfl
  | succ h ih =>
    rw [total_eq, total_eq, hm t (tableCount_self fmt (h + 1) t)]
    congr 1
    refine sum_congr rfl fun i _ => ?_
    cases hc : fmt.child (h + 1) (mem t i) with
    | none => rw [hang_none fmt hc, hang_none fmt hc]
    | some c =>
      rw [hang_some fmt hc, hang_some fmt hc]
      exact ih c fun f hf => hm f (lt_of_lt_of_le hf (tableCount_child_le fmt hc f))

lemma hang_congr (a : F → Nat) (b : E → Nat) (h : Nat) (e : E)
    (hm : ∀ f, 0 < below fmt mem h e f → mem' f = mem f) :
    hang fmt mem' a b h e = hang fmt mem a b h e := by
  cases h with
  | zero => rfl
  | succ h =>
    cases hc : fmt.child (h + 1) e with
    | none => rw [hang_none fmt hc, hang_none fmt hc]
    | some c =>
      rw [hang_some fmt hc, hang_some fmt hc]
      exact total_congr fmt a b h c fun f hf => hm f (by rwa [below_some fmt hc])

omit [DecidableEq F] in
lemma total_walk_le (a : F → Nat) (b : E → Nat) (hp : p.length ≤ h)
    (hw : walk fmt mem h t p = some c) :
    total fmt mem a b (h - p.length) c ≤ total fmt mem a b h t := by
  induction p generalizing h t with
  | nil =>
    obtain rfl := some.inj hw
    exact Nat.le_refl _
  | cons i is ih =>
    match h, hp with
    | h + 1, hp =>
      rw [walk_cons, bind_eq_some_iff] at hw
      obtain ⟨d, hd, hw⟩ := hw
      rw [length_cons, Nat.add_sub_add_right]
      exact Nat.le_trans (ih (by simpa using hp) hw) (total_child_le fmt a b hd)

lemma tableCount_walk_le (hp : p.length ≤ h) (hw : walk fmt mem h t p = some c) (f : F) :
    tableCount fmt mem (h - p.length) c f ≤ tableCount fmt mem h t f :=
  total_walk_le fmt _ _ hp hw

lemma tableCount_pos_of_walk (hp : p.length ≤ h) (hw : walk fmt mem h t p = some c) :
    0 < tableCount fmt mem h t c :=
  lt_of_lt_of_le (tableCount_self fmt _ c) (tableCount_walk_le fmt hp hw c)

lemma walk_cons_some (hp : (i :: p).length ≤ h + 1)
    (hw : walk fmt mem (h + 1) t (i :: p) = some f) : ∃ c, fmt.child (h + 1) (mem t i) = some c ∧
      walk fmt mem h c p = some f ∧ 0 < below fmt mem (h + 1) (mem t i) f := by
  rw [walk_cons, bind_eq_some_iff] at hw
  obtain ⟨c, hc, hw⟩ := hw
  refine ⟨c, hc, hw, ?_⟩
  rw [below_some fmt hc]
  exact tableCount_pos_of_walk fmt (le_of_succ_le_succ hp) hw

/-! ## separate trees -/

/-- no frame is a table of the tree in two ways -/
def Separate (mem : F → Fin n → E) (h : Nat) (t : F) : Prop :=
  ∀ f, tableCount fmt mem h t f ≤ 1

lemma Separate.child (sep : Separate fmt mem (h + 1) t)
    (hc : fmt.child (h + 1) (mem t i) = some c) : Separate fmt mem h c :=
  fun f => le_trans (tableCount_child_le fmt hc f) (sep f)

section
variable (sep : Separate fmt mem h t)
include sep

lemma Separate.below_self (i : Fin n) : below fmt mem h (mem t i) t = 0 := by
  have hone := sep t
  rw [tableCount_eq, if_pos rfl] at hone
  have hi : below fmt mem h (mem t i) t ≤ ∑ j, below fmt mem h (mem t j) t :=
    single_le_sum (f := fun j => below fmt mem h (mem t j) t)
      (fun _ _ => zero_le _) (mem_univ i)
  omega

lemma Separate.below_other (hij : i ≠ j)
    (hf : 0 < below fmt mem h (mem t i) f) : below fmt mem h (mem t j) f = 0 := by
  have hsum := hang_add_hang_le_total fmt mem (fun t' => if t' = f then 1 else 0)
    (fun _ => 0) h t hij
  have hone := sep f
  have hi : hang fmt mem (fun t' => if t' = f then 1 else 0) (fun _ => 0) h (mem t i) =
    below fmt mem h (mem t i) f := rfl
  have hj : hang fmt mem (fun t' => if t' = f then 1 else 0) (fun _ => 0) h (mem t j) =
    below fmt mem h (mem t j) f := rfl
  have ht : total fmt mem (fun t' => if t' = f then 1 else 0) (fun _ => 0) h t =
    tableCount fmt mem h t f := rfl
  rw [hi, hj, ht] at hsum
  omega

lemma Separate.ne_of_below (hf : 0 < below fmt mem h (mem t i) f) : t ≠ f := by
  rintro rfl
  have := sep.below_self fmt i
  omega

lemma walk_inj (hp : p.length ≤ h) (hq : q.length ≤ h) (hwp : walk fmt mem h t p = some f)
    (hwq : walk fmt mem h t q = some f) : p = q := by
  induction p generalizing h t q with
  | nil =>
    obtain rfl := some.inj hwp
    cases q with
    | nil => rfl
    | cons j js =>
      match h, hq with
      | h + 1, hq =>
        obtain ⟨d, hd, hwq, hpos⟩ := walk_cons_some fmt hq hwq
        exact absurd rfl (sep.ne_of_below fmt hpos)
  | cons i is ih =>
    match h, hp with
    | h + 1, hp =>
      obtain ⟨c, hc, hwp, hpos⟩ := walk_cons_some fmt hp hwp
      cases q with
      | nil =>
        obtain rfl := some.inj hwq
        exact absurd rfl (sep.ne_of_below fmt hpos)
      | cons j js =>
        obtain ⟨d, hd, hwq, hpos'⟩ := walk_cons_some fmt hq hwq
        by_cases hij : i = j
        · subst hij
          obtain rfl := some.inj (hc.symm.trans hd)
          rw [ih (sep.child fmt hc) (by simpa using hp) (by simpa using hq) hwp hwq]
        · have := sep.below_other fmt hij hpos
          omega

end

/-! ## writing one entry -/

lemma walk_congr (hq : q.length ≤ h) (hm : ∀ f, 0 < tableCount fmt mem h t f → mem' f = mem f) :
    walk fmt mem' h t q = walk fmt mem h t q := by
  induction q generalizing h t with
  | nil => rfl
  | cons j js ih =>
    match h, hq with
    | h + 1, hq =>
      rw [walk_cons, walk_cons, hm t (tableCount_self fmt (h + 1) t)]
      cases hc : fmt.child (h + 1) (mem t j) with
      | none => rfl
      | some c =>
        exact ih (by simpa using hq) fun f hf =>
          hm f (lt_of_lt_of_le hf (tableCount_child_le fmt hc f))

lemma update_agrees (hf : tableCount fmt mem h t f = 0) (i : Fin n) (e : E) :
    ∀ f', 0 < tableCount fmt mem h t f' → update mem f i e f' = mem f' := by
  intro f' hf'
  refine update_of_table_ne mem f i e ?_
  rintro rfl
  omega

lemma walk_update (sep : Separate fmt mem h t) (hp : p.length ≤ h) (hq : q.length ≤ h)
    (hw : walk fmt mem h t p = some f) (hpq : ¬ p ++ [i] <+: q) (e : E) :
    walk fmt (update mem f i e) h t q = walk fmt mem h t q := by
  induction q generalizing h t p with
  | nil => rfl
  | cons j js ih =>
    match h, hq with
    | h + 1, hq =>
      rw [walk_cons, walk_cons]
      cases p with
      | nil =>
        obtain rfl := some.inj hw
        have hij : j ≠ i := by
          rintro rfl
          exact hpq (prefix_iff_eq_append.mpr rfl)
        rw [update_of_ne mem t i e fun hh => hij hh.2]
        cases hc : fmt.child (h + 1) (mem t j) with
        | none => rfl
        | some c =>
          refine walk_congr fmt (by simpa using hq) (update_agrees fmt ?_ i e)
          rw [Nat.add_sub_cancel, ← below_some fmt hc]
          exact sep.below_self fmt j
      | cons k ks =>
        obtain ⟨d, hd, hw, hpos⟩ := walk_cons_some fmt hp hw
        rw [update_of_table_ne mem f i e (sep.ne_of_below fmt hpos)]
        by_cases hjk : k = j
        · subst hjk
          rw [hd, bind_some, bind_some]
          refine ih (sep.child fmt hd) (by simpa using hp) (by simpa using hq) hw ?_
          intro hpre
          exact hpq (cons_prefix_cons.mpr ⟨rfl, hpre⟩)
        · cases hc : fmt.child (h + 1) (mem t j) with
          | none => rfl
          | some c =>
            refine walk_congr fmt (by simpa using hq) (update_agrees fmt ?_ i e)
            rw [Nat.add_sub_cancel, ← below_some fmt hc]
            exact sep.below_other fmt hjk hpos

lemma walk_update_through (sep : Separate fmt mem h t) (hp : p.length ≤ h)
    (hw : walk fmt mem h t p = some f) (i : Fin n) (e : E) (q : List (Fin n)) :
    walk fmt (update mem f i e) h t (p ++ i :: q) = (fmt.child (h - p.length) e).bind fun c =>
        walk fmt (update mem f i e) (h - p.length - 1) c q := by
  have hself : walk fmt (update mem f i e) h t p = some f := by
    rw [walk_update fmt sep hp hp hw (i := i) ?_ e, hw]
    intro hpre
    have := hpre.length_le
    simp at this
  rw [walk_append, hself, bind_some, walk_cons, update_self]

lemma sum_map_eq {is : List (Fin n)} (hnodup : is.Nodup) (g : Fin n → Nat) :
    (is.map g).sum = ∑ i, if i ∈ is then g i else 0 := by
  rw [← sum_toFinset g hnodup, ← sum_filter]
  congr 1
  ext i
  simp

lemma sum_exchange {g k : Fin n → Nat} (i : Fin n) (hg : ∀ j, j ≠ i → k j = g j) :
    ∑ j, k j + g i = ∑ j, g j + k i := by
  have hrest : ∑ j ∈ univ.erase i, k j = ∑ j ∈ univ.erase i, g j :=
    sum_congr rfl fun j hj => hg j (ne_of_mem_erase hj)
  have hk := add_sum_erase univ k (mem_univ i)
  have hg := add_sum_erase univ g (mem_univ i)
  omega

lemma hang_update (hf : below fmt mem h e f = 0) (i : Fin n) (e' : E) (a : F → Nat)
    (b : E → Nat) : hang fmt (update mem f i e') a b h e = hang fmt mem a b h e := by
  refine hang_congr fmt a b h e fun f' hf' => update_of_table_ne mem f i e' ?_
  rintro rfl
  omega

section
variable (sep : Separate fmt mem h t)
include sep

section
variable (hp : p.length ≤ h)
include hp

section
variable (hw : walk fmt mem h t p = some f)
include hw

lemma total_update (i : Fin n) (e : E) (he : below fmt mem (h - p.length) e f = 0) (a : F → Nat)
    (b : E → Nat) :
    total fmt (update mem f i e) a b h t + hang fmt mem a b (h - p.length) (mem f i) =
      total fmt mem a b h t + hang fmt mem a b (h - p.length) e := by
  induction p generalizing h t with
  | nil =>
    obtain rfl := some.inj hw
    rw [length_nil, Nat.sub_zero] at he ⊢
    have key := sum_exchange (g := fun j => hang fmt mem a b h (mem t j))
      (k := fun j => hang fmt (update mem t i e) a b h (update mem t i e t j)) i ?_
    · rw [update_self, hang_update fmt he i e a b] at key
      rw [total_eq, total_eq]
      omega
    · intro j hj
      rw [update_of_ne mem t i e fun hh => hj hh.2]
      exact hang_update fmt (sep.below_self fmt j) i e a b
  | cons k ks ih =>
    match h, hp with
    | h + 1, hp =>
      rw [walk_cons, bind_eq_some_iff] at hw
      obtain ⟨d, hd, hw⟩ := hw
      rw [Nat.add_sub_cancel] at hw
      have hks : ks.length ≤ h := by simpa using hp
      rw [length_cons, Nat.add_sub_add_right] at he ⊢
      have sub := ih (sep.child fmt hd) hks hw he
      have hpos := tableCount_pos_of_walk fmt hks hw
      rw [← below_some fmt hd] at hpos
      have htf : update mem f i e t = mem t :=
        update_of_table_ne mem f i e (sep.ne_of_below fmt hpos)
      -- only the entry the descent takes can change
      have key := sum_exchange (g := fun j => hang fmt mem a b (h + 1) (mem t j))
        (k := fun j => hang fmt (update mem f i e) a b (h + 1) (mem t j)) k
        fun j hj => hang_update fmt (sep.below_other fmt hj.symm hpos) i e a b
      rw [hang_some fmt hd, hang_some fmt hd] at key
      rw [total_eq, total_eq, htf]
      omega

lemma tableCount_update (i : Fin n) (e : E) (he : below fmt mem (h - p.length) e f = 0) (g : F) :
    tableCount fmt (update mem f i e) h t g + below fmt mem (h - p.length) (mem f i) g =
      tableCount fmt mem h t g + below fmt mem (h - p.length) e g :=
  total_update fmt sep hp hw i e he _ _

lemma Separate.walk : Separate fmt mem (h - p.length) f :=
  fun g => le_trans (tableCount_walk_le fmt hp hw g) (sep g)

end

lemma walk_update_same (hq : q.length ≤ h) (hw : walk fmt mem h t p = some f)
    (hc : p.length < h → fmt.child (h - p.length) e = fmt.child (h - p.length) (mem f i)) :
    walk fmt (update mem f i e) h t q = walk fmt mem h t q := by
  by_cases hpq : p ++ [i] <+: q
  · obtain ⟨r, rfl⟩ := hpq
    rw [append_assoc, singleton_append] at hq ⊢
    rw [length_append, length_cons] at hq
    rw [walk_update_through fmt sep hp hw, hc (by omega), walk_append, hw, bind_some, walk_cons]
    cases hd : fmt.child (h - p.length) (mem f i) with
    | none => rfl
    | some d =>
      obtain ⟨k, hk⟩ : ∃ k, h - p.length = k + 1 := ⟨h - p.length - 1, by omega⟩
      rw [hk] at hd ⊢
      refine walk_congr fmt (by omega) (update_agrees fmt ?_ i e)
      rw [Nat.add_sub_cancel, ← below_some fmt hd, ← hk]
      exact (sep.walk fmt hp hw).below_self fmt i
  · exact walk_update fmt sep hp hq hw hpq e

end
end

omit [DecidableEq F] in
lemma walk_barren (hb : ∀ k j, fmt.child k (mem t j) = none) (q : List (Fin n)) (h : Nat) :
    walk fmt mem h t q = if q = [] then some t else none := by
  cases q with
  | nil => rfl
  | cons j js => rw [walk_cons, hb]; rfl

lemma tableCount_barren (hb : ∀ k j, fmt.child k (mem t j) = none) (h : Nat) (f : F) :
    tableCount fmt mem h t f = if t = f then 1 else 0 := by
  rw [tableCount_eq]
  cases h with
  | zero => simp [below_zero]
  | succ h => simp [below_none fmt (hb (h + 1) _)]

omit [DecidableEq F] in
lemma total_add (a a' : F → Nat) (b b' : E → Nat) (h : Nat) (t : F) :
    total fmt mem (fun f => a f + a' f) (fun e => b e + b' e) h t =
      total fmt mem a b h t + total fmt mem a' b' h t := by
  induction h generalizing t with
  | zero =>
    simp only [total, sum_add_distrib]
    omega
  | succ h ih =>
    have hsum : ∑ i, (fmt.child (h + 1) (mem t i)).elim 0
        (total fmt mem (fun f => a f + a' f) (fun e => b e + b' e) h) =
        ∑ i, (fmt.child (h + 1) (mem t i)).elim 0 (total fmt mem a b h) +
          ∑ i, (fmt.child (h + 1) (mem t i)).elim 0 (total fmt mem a' b' h) := by
      rw [← sum_add_distrib]
      refine sum_congr rfl fun i _ => ?_
      cases fmt.child (h + 1) (mem t i) with
      | none => rfl
      | some c => exact ih c
    simp only [total, hsum]
    omega

omit [DecidableEq F] in
lemma total_barren (hc : ∀ k j, fmt.child k (mem t j) = none) (hb : ∀ j, b (mem t j) = 0)
    (h : Nat) : total fmt mem a b h t = a t := by
  rw [total_eq]
  cases h with
  | zero => simp [hang, hb]
  | succ h => simp [hang_none fmt (hc (h + 1) _)]

/-! ## several trees -/

def forest (mem : F → Fin n → E) (a : F → Nat) (b : E → Nat) (h : Nat) (roots : List F) : Nat :=
  (roots.map (total fmt mem a b h)).sum

/-- how often `f` is a table of one of them -/
def forestCount (mem : F → Fin n → E) (h : Nat) (roots : List F) (f : F) : Nat :=
  (roots.map fun r => tableCount fmt mem h r f).sum

lemma forestCount_cons (r : F) (roots : List F) (f : F) : forestCount fmt mem h (r :: roots) f =
      tableCount fmt mem h r f + forestCount fmt mem h roots f := rfl

lemma tableCount_le_forestCount (hr : r ∈ roots) (f : F) :
    tableCount fmt mem h r f ≤ forestCount fmt mem h roots f :=
  single_le_sum (fun _ _ => zero_le _) _ (mem_map.mpr ⟨r, hr, rfl⟩)

omit [DecidableEq F] in
lemma total_le_forest (a : F → Nat) (b : E → Nat) (hr : r ∈ roots) :
    total fmt mem a b h r ≤ forest fmt mem a b h roots :=
  single_le_sum (fun _ _ => zero_le _) _ (mem_map.mpr ⟨r, hr, rfl⟩)

lemma tableCount_add_le_forestCount {r' : F} (hr : r ∈ roots) (hr' : r' ∈ roots) (hne : r ≠ r')
    (f : F) :
    tableCount fmt mem h r f + tableCount fmt mem h r' f ≤ forestCount fmt mem h roots f := by
  induction roots with
  | nil => cases hr
  | cons s rest ih =>
    rw [forestCount_cons]
    rcases mem_cons.mp hr with rfl | hin
    · have hin' := (mem_cons.mp hr').resolve_left hne.symm
      exact Nat.add_le_add_left (tableCount_le_forestCount fmt hin' f) _
    · rcases mem_cons.mp hr' with rfl | hin'
      · rw [Nat.add_comm]
        exact Nat.add_le_add_left (tableCount_le_forestCount fmt hin f) _
      · exact Nat.le_trans (ih hin hin') (Nat.le_add_left _ _)

lemma nodup_of_forestCount (sep : ∀ f, forestCount fmt mem h roots f ≤ 1) : roots.Nodup := by
  induction roots with
  | nil => exact nodup_nil
  | cons r rest ih =>
    refine nodup_cons.mpr
      ⟨fun hr => ?_, ih fun f => le_trans (le_add_left _ _) (sep f)⟩
    have hsum := sep r
    have hself : 0 < tableCount fmt mem h r r := tableCount_self fmt h r
    have hle : tableCount fmt mem h r r ≤ forestCount fmt mem h rest r :=
      tableCount_le_forestCount fmt hr r
    rw [forestCount_cons] at hsum
    omega

omit [DecidableEq F] in
lemma forest_change (hnodup : roots.Nodup) (hr : r ∈ roots) {g g' : F → Nat} {x : Nat}
    (hx : g' r + x = g r) (hsame : ∀ r' ∈ roots, r' ≠ r → g' r' = g r') :
    (roots.map g').sum + x = (roots.map g).sum := by
  induction roots with
  | nil => cases hr
  | cons s rest ih =>
    obtain ⟨hs, hnodup⟩ := List.nodup_cons.mp hnodup
    rw [List.map_cons, List.map_cons, List.sum_cons, List.sum_cons]
    rcases List.mem_cons.mp hr with rfl | hrest
    · have htail : rest.map g' = rest.map g := List.map_congr_left fun r' hr' =>
        hsame r' (List.mem_cons_of_mem _ hr') fun heq => hs (heq ▸ hr')
      rw [htail]
      omega
    · have hhead := hsame s List.mem_cons_self fun heq => hs (heq ▸ hrest)
      have htail := ih hnodup hrest fun r' hr' => hsame r' (List.mem_cons_of_mem _ hr')
      omega

lemma forest_congr (a : F → Nat) (b : E → Nat)
    (hm : ∀ f, 0 < forestCount fmt mem h roots f → mem' f = mem f) :
    forest fmt mem' a b h roots = forest fmt mem a b h roots := by
  rw [forest, forest]
  congr 1
  refine map_congr_left fun r hr => total_congr fmt a b h r fun f hf => hm f ?_
  exact lt_of_lt_of_le hf (tableCount_le_forestCount fmt hr f)

lemma forest_update (hr : r ∈ roots) (sep : ∀ f, forestCount fmt mem h roots f ≤ 1)
    (hp : p.length ≤ h) (hw : walk fmt mem h r p = some f) (i : Fin n) (e : E)
    (he : below fmt mem (h - p.length) e f = 0) (a : F → Nat) (b : E → Nat) :
    forest fmt (update mem f i e) a b h roots + hang fmt mem a b (h - p.length) (mem f i) =
      forest fmt mem a b h roots + hang fmt mem a b (h - p.length) e := by
  have hpos := tableCount_pos_of_walk fmt hp hw
  induction roots with
  | nil => cases hr
  | cons r' rest ih =>
    have hsum := sep f
    rw [forestCount_cons] at hsum
    have hagree (hf : forestCount fmt mem h rest f = 0) :
        forest fmt (update mem f i e) a b h rest = forest fmt mem a b h rest := by
      refine forest_congr fmt a b fun g hg => update_of_table_ne mem f i e ?_
      rintro rfl
      omega
    change total fmt (update mem f i e) a b h r' + forest fmt (update mem f i e) a b h rest + _ =
      total fmt mem a b h r' + forest fmt mem a b h rest + _
    rcases mem_cons.mp hr with rfl | hrest
    · have hhead := total_update fmt
        (fun g => le_trans (tableCount_le_forestCount fmt hr g) (sep g)) hp hw i e he a b
      rw [hagree (by omega)]
      omega
    · have hle : tableCount fmt mem h r f ≤ forestCount fmt mem h rest f :=
        tableCount_le_forestCount fmt hrest f
      have hhead : total fmt (update mem f i e) a b h r' = total fmt mem a b h r' :=
        total_congr fmt a b h r' (update_agrees fmt (by omega) i e)
      have htail := ih hrest fun g => le_trans (le_add_left _ _) (sep g)
      rw [hhead]
      omega

end
end Radix
