import ClaudeOs.Fat.Cache

/-!
# The cache as a flat array

Over a device that does what the trait says, the cache and the device together hold one array of
bytes: a cached block holds its part of the array, and every block that is not written in memory is
on the device.

* `Reliable`  a device that never fails, and what it holds;
* `Sound`  the array that cache and device hold together;
* `Sound.flush`  a flush puts all of it on the device;
* `Sound.slot`  a slot is found for every block, and no dirty slot is taken for it.
-/

namespace ClaudeOs.Fat
open Bytes List Option Nat
variable {D : Type}

/-- a device that never fails, with the bytes it holds -/
structure Reliable (B : Blocks D) (held : D → Nat → Byte) : Prop where
  count_lt : ∀ d, B.count d < U64
  read : ∀ d block n, block + n ≤ B.count d → ∃ d',
    B.read d block n = (d', some (slice (held d) (block * BLOCK) (n * BLOCK))) ∧
      held d' = held d ∧ B.count d' = B.count d
  write : ∀ d block n data, data.length = n * BLOCK → block + n ≤ B.count d → ∃ d',
    B.write d block data = (d', true) ∧
      held d' = store (held d) (block * BLOCK) data ∧ B.count d' = B.count d

section
variable (f : Nat → Byte) (block : Nat)

def sector : List Byte := slice f (block * BLOCK) BLOCK

@[simp] lemma length_sector : (sector f block).length = BLOCK := length_slice ..

lemma sector_store_slice (g : Nat → Byte) (first n block : Nat) :
    sector (store f (first * BLOCK) (slice g (first * BLOCK) (n * BLOCK))) block =
      if first ≤ block ∧ block < first + n then sector g block else sector f block := by
  have hin : ∀ i < BLOCK, (first * BLOCK ≤ block * BLOCK + i ∧
      block * BLOCK + i < first * BLOCK + n * BLOCK ↔ first ≤ block ∧ block < first + n) := by
    intro i hi
    simp only [BLOCK] at *
    omega
  split
  · next h => exact slice_congr fun i hi => by rw [store_slice, if_pos ((hin i hi).mpr h)]
  · next h => exact slice_congr fun i hi => by rw [store_slice, if_neg fun h' => h ((hin i hi).mp h')]

lemma eq_of_sectors {f g : Nat → Byte} (h : ∀ block, sector f block = sector g block) : f = g := by
  funext pos
  have e := eq_of_slice (h (pos / BLOCK)) (mod_lt pos (by decide : 0 < BLOCK))
  rwa [mul_comm, div_add_mod] at e

lemma sector_store {other within : Nat} {items : List Byte} (h : within + items.length ≤ BLOCK)
    (hne : other ≠ block) :
    sector (store f (block * BLOCK + within) items) other = sector f other := by
  refine slice_store_outside ?_
  simp only [BLOCK] at *
  omega

end

variable {b block n p place : Nat} {c1 c2 c3 : Cache D} {es : List (Nat × Nat)} {l : List Slot}
  {s t : Slot}

namespace Cache
variable {c c' : Cache D} {B : Blocks D} {held : D → Nat → Byte} {flat : Nat → Byte}

lemma index_insert (index : Std.TreeMap Nat Nat) (block place b : Nat) :
    (index.insert block place)[b]? = if block = b then some place else index[b]? := by
  rw [Std.TreeMap.getElem?_insert]
  simp only [Std.compare_eq_iff_eq]

lemma index_erase (index : Std.TreeMap Nat Nat) (block b : Nat) :
    (index.erase block)[b]? = if block = b then none else index[b]? := by
  rw [Std.TreeMap.getElem?_erase]
  simp only [Std.compare_eq_iff_eq]

/-- the cache and the device together hold the flat bytes: a slot its block of them, the device those
of every block with no dirty slot -/
structure Sound (B : Blocks D) (held : D → Nat → Byte) (c : Cache D) (flat : Nat → Byte) : Prop where
  index_slot : ∀ block place : Nat, c.index[block]? = some place →
    ∃ s : Slot, c.slots[place]? = some s ∧ s.block = block
  slot_index : ∀ (place : Nat) (s : Slot), c.slots[place]? = some s → c.index[s.block]? = some place
  inside : ∀ (place : Nat) (s : Slot), c.slots[place]? = some s → s.block < B.count c.blocks
  data : ∀ (place : Nat) (s : Slot), c.slots[place]? = some s → s.data = sector flat s.block
  device : ∀ block, (∀ (place : Nat) (s : Slot), c.slots[place]? = some s → s.block = block → s.dirty = false) →
    sector (held c.blocks) block = sector flat block
  bounded : c.slots.length ≤ CACHE_BLOCKS

lemma Sound.new (held : D → Nat → Byte) (d : D) : Sound B held (Cache.new d) (held d) where
  index_slot block place h := by
    rw [Cache.new, Std.TreeMap.getElem?_emptyc] at h
    cases h
  slot_index place s h := nomatch h
  inside place s h := nomatch h
  data place s h := nomatch h
  device _ _ := rfl
  bounded := zero_le _

lemma Sound.unique (S : Sound B held c flat) {q : Nat} (hs : c.slots[p]? = some s)
    (ht : c.slots[q]? = some t) (h : s.block = t.block) : p = q := by
  have hp := S.slot_index p s hs
  rw [h, S.slot_index q t ht] at hp
  exact (some.inj hp).symm

lemma getElem?_set_some {i : Nat} {a : Slot} (h : (l.set i a)[p]? = some t) :
    i = p ∧ t = a ∨ i ≠ p ∧ l[p]? = some t := by
  by_cases hp : i = p
  · subst hp
    rw [List.getElem?_set_self (List.length_set ▸ (List.getElem?_eq_some_iff.mp h).1)] at h
    exact .inl ⟨rfl, (some.inj h).symm⟩
  · rw [List.getElem?_set_ne hp] at h
    exact .inr ⟨hp, h⟩

/-! ## changes of the marks -/

structure Alike (B : Blocks D) (c c' : Cache D) : Prop where
  index : c'.index = c.index
  length : c'.slots.length = c.slots.length
  slots : ∀ (p : Nat) (s' : Slot), c'.slots[p]? = some s' →
    ∃ s : Slot, c.slots[p]? = some s ∧ s'.block = s.block ∧ s'.data = s.data
  count : B.count c'.blocks = B.count c.blocks
  writable : c'.writable = c.writable

lemma Alike.refl (B : Blocks D) (c : Cache D) : Alike B c c :=
  ⟨rfl, rfl, fun _ s h => ⟨s, h, rfl, rfl⟩, rfl, rfl⟩

lemma Alike.trans (A : Alike B c1 c2) (A' : Alike B c2 c3) : Alike B c1 c3 where
  index := A'.index.trans A.index
  length := A'.length.trans A.length
  slots p s3 h := by
    obtain ⟨s2, h2, hb, hd⟩ := A'.slots p s3 h
    obtain ⟨s1, h1, hb', hd'⟩ := A.slots p s2 h2
    exact ⟨s1, h1, hb.trans hb', hd.trans hd'⟩
  count := A'.count.trans A.count
  writable := A'.writable.trans A.writable

lemma getElem?_of_length {l' : List Slot} (hlen : l'.length = l.length) (h : l[p]? = some s) :
    ∃ s' : Slot, l'[p]? = some s' :=
  ⟨_, List.getElem?_eq_getElem (hlen ▸ (List.getElem?_eq_some_iff.mp h).1)⟩

lemma Alike.slot_of (A : Alike B c c') (h : c.slots[p]? = some s) :
    ∃ s' : Slot, c'.slots[p]? = some s' ∧ s'.block = s.block ∧ s'.data = s.data := by
  obtain ⟨s', hs'⟩ := getElem?_of_length A.length h
  obtain ⟨t, ht, hb, hd⟩ := A.slots p s' hs'
  rw [h] at ht
  cases ht
  exact ⟨s', hs', hb, hd⟩

/-- the blocks stay in their slots and hold their part of another array -/
lemma Sound.rewrite {flat' : Nat → Byte} (S : Sound B held c flat) (hindex : c'.index = c.index)
    (hlength : c'.slots.length = c.slots.length) (hcount : B.count c'.blocks = B.count c.blocks)
    (hslots : ∀ (p : Nat) (s s' : Slot), c.slots[p]? = some s → c'.slots[p]? = some s' →
      s'.block = s.block ∧ s'.data = sector flat' s.block)
    (hdevice : ∀ block, (∀ (p : Nat) (s s' : Slot), c.slots[p]? = some s → c'.slots[p]? = some s' →
        s.block = block → s'.dirty = false) →
      sector (held c'.blocks) block = sector flat' block) : Sound B held c' flat' where
  index_slot block place h := by
    rw [hindex] at h
    obtain ⟨s, hs, hb⟩ := S.index_slot block place h
    obtain ⟨s', hs'⟩ := getElem?_of_length hlength hs
    exact ⟨s', hs', (hslots place s s' hs hs').1.trans hb⟩
  slot_index place s' h := by
    obtain ⟨s, hs⟩ := getElem?_of_length hlength.symm h
    rw [hindex, (hslots place s s' hs h).1]
    exact S.slot_index place s hs
  inside place s' h := by
    obtain ⟨s, hs⟩ := getElem?_of_length hlength.symm h
    rw [(hslots place s s' hs h).1, hcount]
    exact S.inside place s hs
  data place s' h := by
    obtain ⟨s, hs⟩ := getElem?_of_length hlength.symm h
    obtain ⟨hb, hd⟩ := hslots place s s' hs h
    rw [hb, hd]
  device block hclean := hdevice block fun p s s' hs hs' hb =>
    hclean p s' hs' ((hslots p s s' hs hs').1.trans hb)
  bounded := hlength ▸ S.bounded

/-- a mark goes only when its block is on the device -/
lemma Sound.alike (S : Sound B held c flat) (A : Alike B c c')
    (hdevice : ∀ block, sector (held c'.blocks) block = sector (held c.blocks) block ∨
      sector (held c'.blocks) block = sector flat block)
    (hdirty : ∀ (p : Nat) (s s' : Slot), c.slots[p]? = some s → c'.slots[p]? = some s' → s.dirty = true →
      s'.dirty = true ∨ sector (held c'.blocks) s.block = sector flat s.block) :
    Sound B held c' flat := by
  refine S.rewrite A.index A.length A.count (fun p s s' hs hs' => ?_) fun block hclean => ?_
  · obtain ⟨t, ht, hb, hd⟩ := A.slots p s' hs'
    rw [hs] at ht
    cases ht
    exact ⟨hb, hd.trans (S.data p s hs)⟩
  · by_cases hall : ∀ (place : Nat) (s : Slot), c.slots[place]? = some s → s.block = block → s.dirty = false
    · rcases hdevice block with h | h
      · exact h.trans (S.device block hall)
      · exact h
    · push Not at hall
      obtain ⟨p, s, hs, hb, hd⟩ := hall
      obtain ⟨s', hs', -⟩ := A.slot_of hs
      rcases hdirty p s s' hs hs' (by simpa using hd) with h | h
      · rw [hclean p s s' hs hs' hb] at h
        cases h
      · rwa [hb] at h

/-- only the device, the hand and the `used` marks have changed, the device not in what it holds -/
structure Quiet (B : Blocks D) (held : D → Nat → Byte) (c c' : Cache D) : Prop where
  alike : Alike B c c'
  dirty : ∀ (p : Nat) (s s' : Slot), c.slots[p]? = some s → c'.slots[p]? = some s' → s'.dirty = s.dirty
  device : held c'.blocks = held c.blocks

lemma Quiet.sound (Q : Quiet B held c c') (S : Sound B held c flat) : Sound B held c' flat := by
  refine S.alike Q.alike (fun block => .inl (by rw [Q.device])) fun p s s' hs hs' hd => .inl ?_
  rw [Q.dirty p s s' hs hs']
  exact hd

lemma Quiet.refl (B : Blocks D) (held : D → Nat → Byte) (c : Cache D) : Quiet B held c c :=
  ⟨.refl B c, fun p s s' hs hs' => by rw [hs] at hs'; cases hs'; rfl, rfl⟩

lemma Quiet.trans (Q : Quiet B held c1 c2) (Q' : Quiet B held c2 c3) : Quiet B held c1 c3 where
  alike := Q.alike.trans Q'.alike
  dirty p s1 s3 h1 h3 := by
    obtain ⟨s2, h2, -⟩ := Q.alike.slot_of h1
    exact (Q'.dirty p s2 s3 h2 h3).trans (Q.dirty p s1 s2 h1 h2)
  device := Q'.device.trans Q.device

section
variable (B : Blocks D) (held : D → Nat → Byte) (c : Cache D)

lemma Quiet.mark (hand : Nat) (h : c.slots[place]? = some s) (used : Bool) :
    Quiet B held c { c with hand := hand, slots := c.slots.set place { s with used := used } } := by
  have hget : ∀ (p : Nat) (s' : Slot), (c.slots.set place { s with used := used })[p]? = some s' →
      ∃ t : Slot, c.slots[p]? = some t ∧ s'.block = t.block ∧ s'.data = t.data ∧ s'.dirty = t.dirty := by
    intro p s' hs'
    rcases getElem?_set_some hs' with ⟨rfl, rfl⟩ | ⟨-, hs'⟩
    · exact ⟨s, h, rfl, rfl, rfl⟩
    · exact ⟨s', hs', rfl, rfl, rfl⟩
  refine ⟨⟨rfl, length_set .., fun p s' hs' => ?_, rfl, rfl⟩, fun p t s' ht hs' => ?_, rfl⟩
  · obtain ⟨t, ht, hb, hd, -⟩ := hget p s' hs'
    exact ⟨t, ht, hb, hd⟩
  · obtain ⟨t', ht', -, -, hd⟩ := hget p s' hs'
    rw [ht] at ht'
    cases ht'
    exact hd

/-! ## the hand -/

lemma sweep_spec (n : Nat) (c : Cache D) :
    Quiet B held c (c.sweep n).1 ∧ ∀ place, (c.sweep n).2 = some place →
      ∃ s : Slot, (c.sweep n).1.slots[place]? = some s ∧ s.dirty = false := by
  induction n generalizing c with
  | zero => exact ⟨Quiet.refl B held c, fun place h => nomatch h⟩
  | succ n ih =>
    have hhand : ∀ hand, Quiet B held c { c with hand := hand } := fun hand =>
      ⟨⟨rfl, rfl, (Alike.refl B c).slots, rfl, rfl⟩, (Quiet.refl B held c).dirty, rfl⟩
    rw [sweep]
    split
    · exact ⟨hhand _, fun place h => nomatch h⟩
    · next s hs =>
      by_cases hdirty : s.dirty = true
      · rw [if_pos hdirty]
        obtain ⟨Q, hclean⟩ := ih { c with hand := (c.hand % c.slots.length + 1) % c.slots.length }
        exact ⟨(hhand _).trans Q, hclean⟩
      · rw [if_neg hdirty]
        by_cases hused : s.used = true
        · rw [if_pos hused]
          obtain ⟨Q, hclean⟩ := ih { c with
            hand := (c.hand % c.slots.length + 1) % c.slots.length
            slots := c.slots.set (c.hand % c.slots.length) { s with used := false } }
          exact ⟨(Quiet.mark B held c _ hs false).trans Q, hclean⟩
        · rw [if_neg hused]
          refine ⟨hhand _, fun place h => ?_⟩
          cases h
          exact ⟨s, hs, by simpa using hdirty⟩

def ahead (place : Nat) : Nat :=
  if c.hand % c.slots.length ≤ place then place - c.hand % c.slots.length
  else place + c.slots.length - c.hand % c.slots.length

lemma next_mod {hand len : Nat} (h : hand < len) :
    (hand + 1) % len % len = if hand + 1 = len then 0 else hand + 1 := by
  rw [mod_mod]
  split
  · next e => rw [e, mod_self]
  · exact mod_eq_of_lt (by omega)

lemma sweep_finds (n : Nat) (c : Cache D) (h : c.slots[place]? = some s)
    (hclean : s.dirty = false) (hn : c.ahead place + (if s.used then c.slots.length else 0) < n) :
    (c.sweep n).2.isSome = true := by
  induction n generalizing c s with
  | zero => exact absurd hn (not_lt_zero _)
  | succ n ih =>
    have hplace : place < c.slots.length := (List.getElem?_eq_some_iff.mp h).1
    have hlt : c.hand % c.slots.length < c.slots.length := mod_lt _ (by omega)
    have hnext := next_mod hlt
    rw [sweep]
    split
    · next hnone =>
      rw [List.getElem?_eq_none_iff] at hnone
      omega
    · next t ht =>
      by_cases hdirty : t.dirty = true
      · -- the hand was elsewhere
        have hne : place ≠ c.hand % c.slots.length := by
          rintro rfl
          rw [h] at ht
          cases ht
          rw [hclean] at hdirty
          cases hdirty
        rw [if_pos hdirty]
        refine ih { c with hand := _ } h hclean ?_
        simp only [ahead] at hn ⊢
        rw [hnext]
        split at hn <;> split <;> split <;> omega
      · rw [if_neg hdirty]
        by_cases hused : t.used = true
        · rw [if_pos hused]
          by_cases hne : place = c.hand % c.slots.length
          · -- the first pass takes the mark away, and a whole round is left
            have hs' : (c.slots.set (c.hand % c.slots.length) { t with used := false })[place]? =
                some { t with used := false } := by
              rw [hne, List.getElem?_set_self hlt]
            have hst : s.used = true := by
              rw [← hne, h] at ht
              cases ht
              exact hused
            refine ih { c with hand := _, slots := _ } hs' (by simpa using hdirty) ?_
            simp only [ahead, List.length_set] at hn ⊢
            rw [hnext]
            rw [if_pos hst] at hn
            simp only [Bool.false_eq_true, if_false]
            split at hn <;> split <;> split <;> omega
          · have hs' : (c.slots.set (c.hand % c.slots.length) { t with used := false })[place]? =
                some s := by
              rw [List.getElem?_set_ne (fun e => hne e.symm), h]
            refine ih { c with hand := _, slots := _ } hs' hclean ?_
            simp only [ahead, List.length_set] at hn ⊢
            rw [hnext]
            split at hn <;> split <;> split <;> omega
        · rw [if_neg hused]
          rfl

lemma victim_finds (h : c.slots[place]? = some s) (hclean : s.dirty = false) :
    c.victim.2.isSome = true := by
  have hplace : place < c.slots.length := (List.getElem?_eq_some_iff.mp h).1
  have hlt : c.hand % c.slots.length < c.slots.length := mod_lt _ (by omega)
  rw [victim, if_neg (by omega)]
  refine sweep_finds _ c h hclean ?_
  rw [ahead]
  split <;> split <;> omega

lemma victim_spec : Quiet B held c c.victim.1 ∧ ∀ place, c.victim.2 = some place →
      ∃ s : Slot, c.victim.1.slots[place]? = some s ∧ s.dirty = false := by
  rw [victim]
  split
  · exact ⟨Quiet.refl B held c, fun place h => nomatch h⟩
  · exact sweep_spec B held _ c

end

/-! ## the device -/

section
variable (R : Reliable B held)
include R

lemma deviceRead_spec (c : Cache D) (h : block + n ≤ B.count c.blocks) :
    ∃ c', c.deviceRead B block n = (c', .ok (slice (held c.blocks) (block * BLOCK) (n * BLOCK))) ∧
      c'.slots = c.slots ∧ Quiet B held c c' := by
  have hlt := R.count_lt c.blocks
  obtain ⟨d, hread, hheld, hcount⟩ := R.read c.blocks block n h
  refine ⟨{ c with blocks := d }, ?_, rfl, ⟨rfl, rfl, (Alike.refl B c).slots, hcount, rfl⟩,
    (Quiet.refl B held c).dirty, hheld⟩
  rw [deviceRead, if_pos ⟨by omega, h⟩, hread]

lemma deviceWrite_spec (c : Cache D) {data : List Byte} (hlen : data.length = n * BLOCK)
    (h : block + n ≤ B.count c.blocks) :
    ∃ d, c.deviceWrite B block data = ({ c with blocks := d }, .ok ()) ∧
      held d = store (held c.blocks) (block * BLOCK) data ∧ B.count d = B.count c.blocks := by
  have hlt := R.count_lt c.blocks
  obtain ⟨d, hwrite, hheld, hcount⟩ := R.write c.blocks block n data hlen h
  have hdiv : data.length / BLOCK = n := by rw [hlen, Nat.mul_div_cancel _ (by decide)]
  refine ⟨d, ?_, hheld, hcount⟩
  rw [deviceWrite, hdiv, if_pos ⟨by omega, h⟩, hwrite]

end

/-! ## flushing -/

def Consecutive : Nat → List (Nat × Nat) → Prop
  | _, [] => True
  | b, e :: es => e.1 = b ∧ Consecutive (b + 1) es

lemma splitRun_consecutive (first count : Nat) (entries : List (Nat × Nat)) :
    Consecutive (first + count) (splitRun first count entries).1 := by
  induction entries generalizing count with
  | nil => trivial
  | cons e rest ih =>
    rw [splitRun]
    split
    · trivial
    · next h =>
      rw [not_or, not_not] at h
      exact ⟨h.1, ih (count + 1)⟩

lemma splitRun_append (first count : Nat) (entries : List (Nat × Nat)) :
    (splitRun first count entries).1 ++ (splitRun first count entries).2 = entries := by
  induction entries generalizing count with
  | nil => rfl
  | cons e rest ih =>
    rw [splitRun]
    split
    · rfl
    · rw [cons_append, ih]

lemma Consecutive.mem (h : Consecutive b es) :
    (∃ place, (block, place) ∈ es) ↔ b ≤ block ∧ block < b + es.length := by
  induction es generalizing b with
  | nil => simp
  | cons e es ih =>
    obtain ⟨rfl, hrest⟩ := h
    simp only [mem_cons, exists_or, ih hrest, length_cons]
    constructor
    · rintro (⟨place, rfl⟩ | h)
      · exact ⟨le_refl _, by omega⟩
      · omega
    · intro h
      rcases eq_or_lt_of_le h.1 with heq | hlt
      · exact .inl ⟨e.2, by rw [← heq]⟩
      · exact .inr (by omega)

lemma Consecutive.below (h : Consecutive b es) (hb : b ≤ n) (hes : ∀ e ∈ es, e.1 < n) :
    b + es.length ≤ n := by
  induction es generalizing b with
  | nil => exact hb
  | cons e es ih =>
    obtain ⟨rfl, hrest⟩ := h
    have hhead := hes e mem_cons_self
    have := ih hrest hhead fun e he => hes e (mem_cons_of_mem _ he)
    rw [length_cons]
    omega

lemma Sound.runBytes (S : Sound B held c flat) (hrun : Consecutive b es)
    (hes : ∀ e ∈ es, c.index[e.1]? = some e.2) :
    c.runBytes es = slice flat (b * BLOCK) (es.length * BLOCK) := by
  induction es generalizing b with
  | nil =>
    rw [length_nil, zero_mul]
    rfl
  | cons e es ih =>
    obtain ⟨rfl, hrest⟩ := hrun
    obtain ⟨s, hs, hb⟩ := S.index_slot e.1 e.2 (hes e mem_cons_self)
    have hdata : (c.slots[e.2]?).elim [] Slot.data = slice flat (e.1 * BLOCK) BLOCK := by
      rw [hs, elim_some, S.data e.2 s hs, hb, sector]
    have hmore := ih hrest fun e he => hes e (mem_cons_of_mem _ he)
    rw [Cache.runBytes] at hmore ⊢
    rw [flatMap_cons, hdata, hmore, length_cons, succ_mul, succ_mul,
      add_comm (es.length * BLOCK), slice_append]

lemma markClean_slots (c : Cache D) (run : List (Nat × Nat)) (p : Nat) :
    (c.markClean run).slots[p]? = c.slots[p]?.map fun s =>
      if p ∈ run.map Prod.snd then { s with dirty := false } else s := by
  rw [markClean]
  generalize c.slots = slots
  induction run generalizing slots with
  | nil => simp
  | cons e run ih =>
    rw [foldl_cons, ih, getElem?_modify]
    cases slots[p]? with
    | none => rfl
    | some s =>
      by_cases hp : e.2 = p
      · simp [hp]
      · have hiff : p ∈ (e :: run).map Prod.snd ↔ p ∈ run.map Prod.snd := by
          rw [map_cons, mem_cons]
          exact or_iff_right fun h => hp h.symm
        rw [Option.map_eq_map, map_some, map_some, map_some, if_neg hp]
        by_cases h : p ∈ run.map Prod.snd
        · rw [if_pos h, if_pos (hiff.mpr h)]
        · rw [if_neg h, if_neg fun h' => h (hiff.mp h')]

lemma markClean_alike (B : Blocks D) (c : Cache D) (run : List (Nat × Nat)) :
    Alike B c (c.markClean run) := by
  have hlen : (c.markClean run).slots.length = c.slots.length := by
    rw [markClean]
    generalize c.slots = slots
    induction run generalizing slots with
    | nil => rfl
    | cons e run ih => rw [foldl_cons, ih, length_modify]
  refine ⟨rfl, hlen, fun p s' hs' => ?_, rfl, rfl⟩
  rw [markClean_slots, map_eq_some_iff] at hs'
  obtain ⟨s, hs, rfl⟩ := hs'
  refine ⟨s, hs, ?_⟩
  split <;> exact ⟨rfl, rfl⟩

def Covers (c : Cache D) (entries : List (Nat × Nat)) : Prop :=
  ∀ (p : Nat) (s : Slot), c.slots[p]? = some s → s.dirty = true → (s.block, p) ∈ entries

section
variable (R : Reliable B held)
include R

lemma Sound.flushRuns (S : Sound B held c flat) {entries : List (Nat × Nat)}
    (hin : ∀ e ∈ entries, c.index[e.1]? = some e.2) (hall : c.Covers entries) :
    ∃ c', c.flushRuns B entries = (c', .ok ()) ∧ Sound B held c' flat ∧ Alike B c c' ∧
      ∀ (p : Nat) (s : Slot), c'.slots[p]? = some s → s.dirty = false := by
  induction hn : entries.length using Nat.strongRecOn generalizing c entries with
  | _ n ih =>
    cases entries with
    | nil =>
      refine ⟨c, by rw [Cache.flushRuns], S, .refl B c, fun p s hs => ?_⟩
      by_contra hdirty
      exact not_mem_nil (hall p s hs (by simpa using hdirty))
    | cons e rest =>
      generalize hrun : (splitRun e.1 1 rest).1 = run
      generalize hmore : (splitRun e.1 1 rest).2 = more
      have hsplit : run ++ more = rest := by rw [← hrun, ← hmore, splitRun_append]
      have hmem : ∀ x, x ∈ run ∨ x ∈ more → x ∈ e :: rest := fun x hx =>
        mem_cons_of_mem _ (hsplit ▸ mem_append.mpr hx)
      have hinrun : ∀ x ∈ e :: run, c.index[x.1]? = some x.2 := by
        intro x hx
        rcases mem_cons.mp hx with rfl | hx
        · exact hin x mem_cons_self
        · exact hin x (hmem x (.inl hx))
      have hcons : Consecutive e.1 (e :: run) := ⟨rfl, hrun ▸ splitRun_consecutive e.1 1 rest⟩
      have hbelow : e.1 + (e :: run).length ≤ B.count c.blocks := by
        have hlt : ∀ x ∈ e :: run, x.1 < B.count c.blocks := by
          intro x hx
          obtain ⟨s, hs, hb⟩ := S.index_slot _ _ (hinrun x hx)
          exact hb ▸ S.inside _ s hs
        exact hcons.below (Nat.le_of_lt (hlt e mem_cons_self)) hlt
      have hbytes := S.runBytes hcons hinrun
      have hlen : (c.runBytes (e :: run)).length = (e :: run).length * BLOCK := by
        rw [hbytes, length_slice]
      obtain ⟨d, hwrite, hheld, hcount⟩ := deviceWrite_spec R c hlen hbelow
      rw [hbytes] at hheld
      -- the run is on the device, and its marks go
      have A0 : Alike B c { c with blocks := d } := ⟨rfl, rfl, (Alike.refl B c).slots, hcount, rfl⟩
      have A : Alike B c (markClean { c with blocks := d } (e :: run)) :=
        A0.trans (markClean_alike B _ _)
      have S1 : Sound B held (markClean { c with blocks := d } (e :: run)) flat := by
        have hsector : ∀ block, sector (held d) block =
            if e.1 ≤ block ∧ block < e.1 + (e :: run).length then sector flat block
            else sector (held c.blocks) block := by
          intro block
          rw [hheld, sector_store_slice]
        refine S.alike A (fun block => ?_) fun p s s' hs hs' hdirty => ?_
        · show sector (held d) block = _ ∨ sector (held d) block = _
          rw [hsector]
          split
          · exact .inr rfl
          · exact .inl rfl
        · rw [markClean_slots, map_eq_some_iff] at hs'
          obtain ⟨t, ht, rfl⟩ := hs'
          have hst : s = t := some.inj (hs.symm.trans ht)
          subst hst
          by_cases hp : p ∈ (e :: run).map Prod.snd
          · right
            obtain ⟨x, hx, rfl⟩ := mem_map.mp hp
            obtain ⟨u, hu, hb⟩ := S.index_slot _ _ (hinrun x hx)
            rw [hs] at hu
            cases hu
            show sector (held d) s.block = _
            rw [hsector, if_pos (hcons.mem.mp ⟨x.2, hb ▸ hx⟩)]
          · left
            rw [if_neg hp]
            exact hdirty
      have hmore1 : ∀ x ∈ more, (markClean { c with blocks := d } (e :: run)).index[x.1]? =
          some x.2 := fun x hx => A.index ▸ hin x (hmem x (.inr hx))
      have hcovers : (markClean { c with blocks := d } (e :: run)).Covers more := by
        intro p s' hs' hdirty
        rw [markClean_slots, map_eq_some_iff] at hs'
        obtain ⟨s, hs, rfl⟩ := hs'
        split at hdirty
        · cases hdirty
        · next hp =>
          rw [if_neg hp]
          rcases mem_cons.mp (hall p s hs hdirty) with heq | hx
          · exact absurd (mem_map.mpr ⟨e, mem_cons_self, by rw [← heq]⟩) hp
          · rw [← hsplit] at hx
            rcases mem_append.mp hx with hx | hx
            · exact absurd (mem_map.mpr ⟨_, mem_cons_of_mem _ hx, rfl⟩) hp
            · exact hx
      have hshorter : more.length < n := by
        rw [← hn, ← hsplit, length_cons, length_append]
        omega
      obtain ⟨c', hrec, S', A', hclean⟩ := ih more.length hshorter S1 hmore1 hcovers rfl
      refine ⟨c', ?_, S', A.trans A', hclean⟩
      rw [Cache.flushRuns, hrun, hwrite]
      simp only [hmore]
      exact hrec

/-- **a flush puts the whole array on the device** -/
theorem Sound.flush (S : Sound B held c flat) :
    ∃ c', c.flush B = (c', .ok ()) ∧ Sound B held c' flat ∧ Alike B c c' ∧
      (∀ (p : Nat) (s : Slot), c'.slots[p]? = some s → s.dirty = false) ∧
      held c'.blocks = flat := by
  have hin : ∀ e ∈ c.dirtySlots, c.index[e.1]? = some e.2 := fun e he =>
    Std.TreeMap.mem_toList_iff_getElem?_eq_some.mp (mem_filter.mp he).1
  have hall : c.Covers c.dirtySlots := by
    intro p s hs hdirty
    refine mem_filter.mpr
      ⟨Std.TreeMap.mem_toList_iff_getElem?_eq_some.mpr (S.slot_index p s hs), ?_⟩
    rw [hs]
    exact hdirty
  obtain ⟨c', hrun, S', A, hclean⟩ := S.flushRuns R hin hall
  exact ⟨c', hrun, S', A, hclean, eq_of_sectors fun block =>
    S'.device block fun p s hs _ => hclean p s hs⟩

/-! ## slots -/

/-- a dirty slot of `c` still holds its block in `c'`, or the block is on the device as it was -/
def Spared (held : D → Nat → Byte) (c c' : Cache D) : Prop :=
  ∀ (p : Nat) (s : Slot), c.slots[p]? = some s → s.dirty = true →
    (∃ s' : Slot, c'.slots[p]? = some s' ∧ s'.block = s.block) ∨
      sector (held c'.blocks) s.block = s.data

omit R in
lemma Alike.spared (A : Alike B c c') : Spared held c c' := by
  intro p s hs _
  obtain ⟨s', hs', hb, -⟩ := A.slot_of hs
  exact .inl ⟨s', hs', hb⟩

lemma Sound.room (S : Sound B held c flat) (hpos : 0 < c.slots.length) :
    ∃ c' victim old, c.room B = (c', .ok victim) ∧ Sound B held c' flat ∧ Alike B c c' ∧
      c'.slots[victim]? = some old ∧ old.dirty = false ∧
      ∀ s : Slot, c.slots[victim]? = some s → s.dirty = true →
        sector (held c'.blocks) s.block = s.data := by
  obtain ⟨Q, hfound⟩ := victim_spec B held c
  rw [Cache.room]
  rcases hv : c.victim with ⟨c1, _ | victim⟩
  · -- every slot is dirty: all of them are put on the device
    rw [hv] at Q
    obtain ⟨c2, hflush, S2, A2, hclean, hheld⟩ := (Q.sound S).flush R
    have hlt : 0 < c2.slots.length := by rwa [A2.length, Q.alike.length]
    have hsome := victim_finds c2 (getElem?_eq_getElem hlt)
      (hclean 0 _ (getElem?_eq_getElem hlt))
    obtain ⟨Q3, hfound3⟩ := victim_spec B held c2
    rcases hv3 : c2.victim with ⟨c3, _ | victim⟩
    · rw [hv3] at hsome
      cases hsome
    · rw [hv3] at Q3 hfound3
      obtain ⟨old, hold, hd⟩ := hfound3 victim rfl
      simp only [hflush, hv3]
      refine ⟨c3, victim, old, rfl, Q3.sound S2, (Q.alike.trans A2).trans Q3.alike, hold, hd, ?_⟩
      intro s hs _
      rw [Q3.device, hheld, S.data victim s hs]
  · rw [hv] at Q hfound
    obtain ⟨old, hold, hd⟩ := hfound victim rfl
    refine ⟨c1, victim, old, rfl, Q.sound S, Q.alike, hold, hd, fun s hs hdirty => ?_⟩
    rw [← Q.dirty victim s old hs hold, hd] at hdirty
    cases hdirty

def fresh (flat : Nat → Byte) (block : Nat) : Slot := ⟨block, sector flat block, false, true⟩

omit R in
lemma Sound.uncached (S : Sound B held c flat) (h : c.index[block]? = none) :
    sector (held c.blocks) block = sector flat block := by
  refine S.device block fun p s hs hb => ?_
  rw [← hb, S.slot_index p s hs] at h
  cases h

omit R in
lemma Sound.push (S : Sound B held c flat) (hnone : c.index[block]? = none)
    (hblock : block < B.count c.blocks) (hroom : c.slots.length < CACHE_BLOCKS) :
    Sound B held { c with
      slots := c.slots ++ [fresh flat block]
      index := c.index.insert block c.slots.length } flat := by
  have hget : ∀ (p : Nat) (s : Slot), (c.slots ++ [fresh flat block])[p]? = some s →
      c.slots[p]? = some s ∨ p = c.slots.length ∧ s = fresh flat block := by
    intro p s h
    rw [List.getElem?_append] at h
    split at h
    · exact .inl h
    · next hp =>
      obtain ⟨hlt, heq⟩ := List.getElem?_eq_some_iff.mp h
      rw [List.length_singleton] at hlt
      refine .inr ⟨by omega, ?_⟩
      rw [← heq, List.getElem_singleton]
  refine ⟨fun b p h => ?_, fun p s h => ?_, fun p s h => ?_, fun p s h => ?_, fun b h => ?_, ?_⟩
  · rw [index_insert] at h
    split at h
    · next hb =>
      cases h
      exact ⟨fresh flat block, by rw [List.getElem?_concat_length], hb⟩
    · obtain ⟨s, hs, hb⟩ := S.index_slot b p h
      refine ⟨s, ?_, hb⟩
      rw [List.getElem?_append_left (List.getElem?_eq_some_iff.mp hs).1, hs]
  · rw [index_insert]
    rcases hget p s h with hs | ⟨rfl, rfl⟩
    · rw [if_neg, S.slot_index p s hs]
      intro hb
      rw [hb, S.slot_index p s hs] at hnone
      cases hnone
    · exact if_pos rfl
  · rcases hget p s h with hs | ⟨rfl, rfl⟩
    · exact S.inside p s hs
    · exact hblock
  · rcases hget p s h with hs | ⟨rfl, rfl⟩
    · exact S.data p s hs
    · simp only [fresh]
  · refine S.device b fun p s hs hb => h p s ?_ hb
    rw [List.getElem?_append_left (List.getElem?_eq_some_iff.mp hs).1, hs]
  · rw [List.length_append, List.length_singleton]
    exact hroom

omit R in
lemma Sound.reuse (S : Sound B held c flat) {victim : Nat} {old : Slot}
    (hnone : c.index[block]? = none) (hblock : block < B.count c.blocks)
    (hold : c.slots[victim]? = some old) (hclean : old.dirty = false) : Sound B held { c with
      index := (c.index.erase old.block).insert block victim
      slots := c.slots.set victim (fresh flat block) } flat := by
  have hlt : victim < c.slots.length := (List.getElem?_eq_some_iff.mp hold).1
  have hne : ∀ (p : Nat) (s : Slot), victim ≠ p → c.slots[p]? = some s → old.block ≠ s.block :=
    fun p s hp hs heq => hp (S.unique hold hs heq)
  refine ⟨fun b p h => ?_, fun p s h => ?_, fun p s h => ?_, fun p s h => ?_, fun b h => ?_, ?_⟩
  · rw [index_insert, index_erase] at h
    split at h
    · next hb =>
      cases h
      exact ⟨fresh flat block, by rw [List.getElem?_set_self hlt], hb⟩
    · split at h
      · cases h
      · next hb =>
        obtain ⟨s, hs, hsb⟩ := S.index_slot b p h
        refine ⟨s, ?_, hsb⟩
        rw [List.getElem?_set_ne, hs]
        rintro rfl
        rw [hold] at hs
        cases hs
        exact hb hsb
  · rw [index_insert, index_erase]
    rcases getElem?_set_some h with ⟨rfl, rfl⟩ | ⟨hp, hs⟩
    · exact if_pos rfl
    · rw [if_neg, if_neg (hne p s hp hs), S.slot_index p s hs]
      intro hb
      rw [hb, S.slot_index p s hs] at hnone
      cases hnone
  · rcases getElem?_set_some h with ⟨-, rfl⟩ | ⟨-, hs⟩
    · exact hblock
    · exact S.inside p s hs
  · rcases getElem?_set_some h with ⟨-, rfl⟩ | ⟨-, hs⟩
    · simp only [fresh]
    · exact S.data p s hs
  · refine S.device b fun p s hs hb => ?_
    by_cases hp : victim = p
    · subst hp
      rw [hold] at hs
      cases hs
      exact hclean
    · exact h p s (by rw [List.getElem?_set_ne hp, hs]) hb
  · rw [List.length_set]
    exact S.bounded

structure Slotted (B : Blocks D) (held : D → Nat → Byte) (flat : Nat → Byte) (block : Nat)
    (c c' : Cache D) (place : Nat) : Prop where
  sound : Sound B held c' flat
  slot : ∃ s : Slot, c'.slots[place]? = some s ∧ s.block = block
  spared : Spared held c c'
  count : B.count c'.blocks = B.count c.blocks
  writable : c'.writable = c.writable

lemma Sound.load (S : Sound B held c flat) (hnone : c.index[block]? = none)
    (hblock : block < B.count c.blocks) :
    ∃ c' place, c.load B block = (c', .ok place) ∧ Slotted B held flat block c c' place := by
  obtain ⟨c1, hread, hslots, Q⟩ := deviceRead_spec R c (n := 1) hblock
  have hdata : slice (held c.blocks) (block * BLOCK) (1 * BLOCK) = sector flat block := by
    rw [one_mul]
    exact S.uncached hnone
  have S1 := Q.sound S
  have hnone1 : c1.index[block]? = none := by rw [Q.alike.index, hnone]
  have hblock1 : block < B.count c1.blocks := by rwa [Q.alike.count]
  rw [Cache.load, hread]
  simp only [hdata]
  by_cases hroom : c1.slots.length < CACHE_BLOCKS
  · rw [if_pos hroom]
    refine ⟨_, _, rfl, S1.push hnone1 hblock1 hroom,
      ⟨fresh flat block, List.getElem?_concat_length, rfl⟩, fun p s hs _ => .inl ⟨s, ?_, rfl⟩,
      Q.alike.count, Q.alike.writable⟩
    rw [hslots, List.getElem?_append_left (List.getElem?_eq_some_iff.mp hs).1, hs]
  · rw [if_neg hroom]
    have hpos : 0 < c1.slots.length := by
      have : 0 < CACHE_BLOCKS := by decide
      omega
    obtain ⟨c2, victim, old, hrun, S2, A2, hold, hclean, hput⟩ := S1.room R hpos
    have hlt : victim < c2.slots.length := (List.getElem?_eq_some_iff.mp hold).1
    have hnone2 : c2.index[block]? = none := by rw [A2.index, hnone1]
    simp only [hrun, Cache.reuse, hold]
    refine ⟨_, _, rfl, S2.reuse hnone2 (by rwa [A2.count]) hold hclean,
      ⟨fresh flat block, List.getElem?_set_self hlt, rfl⟩, fun p s hs hdirty => ?_,
      A2.count.trans Q.alike.count, A2.writable.trans Q.alike.writable⟩
    by_cases hp : victim = p
    · subst hp
      exact .inr (hput s (by rw [hslots, hs]) hdirty)
    · obtain ⟨s', hs', hb, -⟩ := A2.slot_of (hslots.symm ▸ hs)
      exact .inl ⟨s', by rw [List.getElem?_set_ne hp, hs'], hb⟩

/-- **a slot is found for every block of the device, and no dirty slot is taken for it** -/
theorem Sound.slot (S : Sound B held c flat) (hblock : block < B.count c.blocks) :
    ∃ c' place, c.slot B block = (c', .ok place) ∧ Slotted B held flat block c c' place := by
  rw [Cache.slot]
  cases hindex : c.index[block]? with
  | none => exact S.load R hindex hblock
  | some place =>
    obtain ⟨s, hs, hb⟩ := S.index_slot block place hindex
    have hlt : place < c.slots.length := (List.getElem?_eq_some_iff.mp hs).1
    have hset : (c.slots.modify place fun s => { s with used := true }) =
        c.slots.set place { s with used := true } := by
      apply List.ext_getElem?
      intro p
      rw [List.getElem?_modify, List.getElem?_set]
      by_cases hp : place = p
      · subst hp
        rw [hs, if_pos rfl, if_pos hlt]
        simp
      · simp [hp]
    have Q := Quiet.mark B held c c.hand hs true
    simp only [filter_some, hlt, decide_true, if_true, hset]
    exact ⟨_, place, rfl, Q.sound S, ⟨_, List.getElem?_set_self hlt, hb⟩, Q.alike.spared, rfl, rfl⟩

end
end Cache
end ClaudeOs.Fat
