import ClaudeOs.Mem.Words

/-!
# The recorded regions stay whole and apart

Every placement asks that the range is free in its own way: the search looks at every region, a hint
is checked, a fixed address has its range removed first, and a mapping that grows in place looks at
every region but its own.  The last two do not look at all of the record under the hold that changes
it.  `Placeable` is what they leave to the caller and to the other threads.

* `Mapping.Whole`, `Turn.Whole`  whole pages, in what a thread has still to do;
* `Placeable`  what the two unchecked placements rest on;
* `regions_sound`  every run of turns with it keeps the regions whole and apart;
* `Housed`, `regions_owned`  and, where each search has room, in the user half;
* `mremap_overlaps`  growth across the region's own pages, which the code lets through.
-/

namespace ClaudeOs.Mem
open Mm Call List Option

/-! ## whole pages -/

/-- a length of whole pages, and an address to match where it is fixed -/
structure Mapping.Whole (m : Mapping) : Prop where
  pos : 0 < m.len
  len : PAGE_SIZE ∣ m.len
  addr : has m.flags MAP_FIXED = true → PAGE_SIZE ∣ m.addr

def Turn.Whole : Turn → Prop
  | .sweep _ _ after => ∀ m ∈ after, m.Whole
  | .place m => m.Whole
  | .populate base len .. | .abandon base len => PAGE_SIZE ∣ base ∧ PAGE_SIZE ∣ len
  | .move _ oldAddr _ oldSize | .finish oldAddr oldSize => PAGE_SIZE ∣ oldAddr ∧ PAGE_SIZE ∣ oldSize
  | _ => True

variable {t u : Turn} {after : Option Mapping} {base len newSize oldSize start stop : Nat}
  {m' m : MemState} {map : Mapping} {nexts : List Turn}

lemma Turn.whole_of_starts (h : t.starts = true) : t.Whole := by
  cases t with
  | brk | mmap | munmap | mprotect | mremap | faultIn | breakCow => trivial
  | sweep | place | populate | abandon | retag | move | finish | commit => cases h

/-- growth starts at the end of a region, and nothing went in where a fixed mapping made room -/
def Placeable (s : AddressSpace) : Turn → Prop
  | .mremap oldAddr oldSize newSize =>
    PAGE_SIZE ∣ oldAddr ∧ (pageAlignUp oldSize < pageAlignUp newSize →
      ∀ v, s.mem.findVma oldAddr = some v → v.stop ≤ oldAddr + pageAlignUp oldSize)
  | .place m => has m.flags MAP_FIXED = true → s.mem.rangeIsFree m.addr (m.addr + m.len)
  | _ => True

/-! ## one turn -/

lemma none_whole : ∀ m ∈ (none : Option Mapping), m.Whole := fun m hm => absurd hm (not_mem_none m)

lemma Follows.whole (h : Follows t u) (ht : t.Whole) : u.Whole := by
  cases h with
  | sweep => exact ht
  | place hm => exact ht _ hm
  | populate => exact ht
  | abandon => exact ht
  | retag => trivial
  | finish => exact ht
  | faultIn => trivial
  | commit => trivial

lemma pageAlignDown_le_up {value more : Nat} : pageAlignDown value ≤ pageAlignUp (value + more) := by
  have := pageAlignDown_le value
  have := le_pageAlignUp (value + more)
  omega

lemma asked_whole {addr length offset : Nat} {prot flags : Bits} {node : Option Nat}
    (hpos : 0 < length) (haddr : has flags MAP_FIXED = true → PAGE_SIZE ∣ addr) :
    (asked addr length prot flags node offset).Whole :=
  ⟨Nat.lt_of_lt_of_le hpos (le_pageAlignUp length), dvd_pageAlignUp _, haddr⟩

section
variable {M : Machine} {s : AddressSpace} {t : Turn}

lemma Unmaps.whole (h : Unmaps t start stop after) (ht : t.Whole) (hplaceable : Placeable s t) :
    start ≤ stop ∧ PAGE_SIZE ∣ start ∧ PAGE_SIZE ∣ stop ∧ ∀ m ∈ after, m.Whole := by
  cases h with
  | mmap hpos _ _ haddr _ =>
    refine ⟨pageAlignDown_le_up, dvd_pageAlignDown _, dvd_pageAlignUp _, fun m hm => ?_⟩
    cases hm
    exact asked_whole hpos fun _ => Nat.dvd_of_mod_eq_zero haddr
  | munmap => exact ⟨pageAlignDown_le_up, dvd_pageAlignDown _, dvd_pageAlignUp _, none_whole⟩
  | shrink hlt _ =>
    exact ⟨Nat.add_le_add_left (Nat.le_of_lt hlt) _, Nat.dvd_add hplaceable.1 (dvd_pageAlignUp _),
      Nat.dvd_add hplaceable.1 (dvd_pageAlignUp _), none_whole⟩
  | abandon => exact ⟨Nat.le_add_right _ _, ht.1, Nat.dvd_add ht.1 ht.2, none_whole⟩
  | finish => exact ⟨Nat.le_add_right _ _, ht.1, Nat.dvd_add ht.1 ht.2, none_whole⟩

lemma Found.dvd (S : s.mem.Sound) (h : Found s.mem.vmas len s.mem.mmapTop base) :
    PAGE_SIZE ∣ base := by
  rcases h.at_end with rfl | ⟨v, hv, rfl⟩
  · exact S.top
  · exact (S.whole v hv).stop

lemma Places.whole (h : Places t map) (ht : t.Whole) (hplaceable : Placeable s t) : map.Whole ∧
      (has map.flags MAP_FIXED = true → s.mem.rangeIsFree map.addr (map.addr + map.len)) := by
  cases h with
  | mmap hpos _ hfree =>
    exact ⟨asked_whole hpos fun h => absurd (hfree.symm.trans h) Bool.false_ne_true,
      fun h => absurd (hfree.symm.trans h) Bool.false_ne_true⟩
  | place => exact ⟨ht, hplaceable⟩

lemma Spot.sound (h : Spot s.mem map m' base) (S : s.mem.Sound) (hmap : map.Whole)
    (hfixed : has map.flags MAP_FIXED = true → s.mem.rangeIsFree map.addr (map.addr + map.len)) :
    m'.Sound ∧ PAGE_SIZE ∣ base ∧ m'.rangeIsFree base (base + map.len) := by
  cases h with
  | fixed h => exact ⟨S, hmap.addr h, hfixed h⟩
  | hint _ hfree => exact ⟨S, dvd_pageAlignDown _, hfree⟩
  | found _ hfound =>
    rw [pageAlignUp_of_dvd hmap.len] at hfound ⊢
    exact ⟨S.setMmapTop (Nat.dvd_add (hfound.dvd S) hmap.len), hfound.dvd S, hfound.free⟩

/-- growth in place: a region in the way is the one that grows -/
lemma Grows.free {oldAddr : Nat} {vma : Vma} (S : s.mem.Sound)
    (h : Grows s.mem oldAddr oldSize newSize vma)
    (hplaceable : Placeable s (.mremap oldAddr oldSize newSize))
    (hclear : ¬ blocked s.mem vma (oldAddr + pageAlignUp oldSize) (oldAddr + pageAlignUp newSize)) :
    s.mem.rangeIsFree (oldAddr + pageAlignUp oldSize) (oldAddr + pageAlignUp newSize) := by
  intro v hv
  by_cases hmeets : v.meets (oldAddr + pageAlignUp oldSize) (oldAddr + pageAlignUp newSize)
  · by_cases hsame : v.start = vma.start
    · obtain rfl := S.eq_of_start hv (mem_of_find?_eq_some h.found) hsame
      exact .inl (hplaceable.2 h.more v h.found)
    · exact absurd ⟨v, hv, hmeets, hsame⟩ hclear
  · simp only [Vma.meets] at hmeets
    omega

lemma Edit.sound (h : Edit M s.mem t nexts m') (S : s.mem.Sound) (ht : t.Whole)
    (hplaceable : Placeable s t) : m'.Sound ∧ ∀ u ∈ nexts, u.Whole := by
  cases h with
  | none hnexts => exact ⟨S, fun u hu => (hnexts u hu).whole ht⟩
  | brk _ hnexts =>
    refine ⟨S.setBrk _, fun u hu => ?_⟩
    rw [hnexts u hu]
    exact none_whole
  | unmap hunmaps =>
    obtain ⟨hle, hstart, hstop, hafter⟩ := hunmaps.whole ht hplaceable
    refine ⟨S.remove hle hstart hstop, fun u hu => ?_⟩
    obtain rfl := mem_singleton.mp hu
    exact hafter
  | protect =>
    refine ⟨S.setVmaProt _ _ _, fun u hu => ?_⟩
    obtain rfl := mem_singleton.mp hu
    trivial
  | record hplaces hspot =>
    obtain ⟨hmap, hfixed⟩ := hplaces.whole ht hplaceable
    obtain ⟨S', hbase, hfree⟩ := hspot.sound S hmap hfixed
    refine ⟨S'.push ⟨Nat.lt_add_of_pos_right hmap.pos, hbase, Nat.dvd_add hbase hmap.len⟩ hfree,
      fun u hu => ?_⟩
    rw [recorded] at hu
    split at hu
    · rcases mem_pair.mp hu with rfl | rfl
      · exact ⟨hbase, hmap.len⟩
      · exact ⟨hbase, hmap.len⟩
    · cases hu
  | stretch hgrows hclear =>
    refine ⟨S.push ⟨Nat.add_lt_add_left hgrows.more _, Nat.dvd_add hplaceable.1 (dvd_pageAlignUp _),
      Nat.dvd_add hplaceable.1 (dvd_pageAlignUp _)⟩ (hgrows.free S hplaceable hclear), ?_⟩
    exact fun u hu => absurd hu not_mem_nil
  | @move oldAddr oldSize newSize base vma hgrows hfound =>
    have hbase := hfound.dvd S
    have hend := Nat.dvd_add hbase (dvd_pageAlignUp newSize)
    refine ⟨(S.setMmapTop hend).push ⟨?_, hbase, hend⟩ hfound.free, fun u hu => ?_⟩
    · exact Nat.lt_add_of_pos_right (Nat.lt_of_le_of_lt (Nat.zero_le _) hgrows.more)
    · obtain rfl := mem_singleton.mp hu
      exact ⟨hplaceable.1, dvd_pageAlignUp _⟩

lemma Turn.regions (F : Frames) (S : s.mem.Sound) (ht : t.Whole) (hplaceable : Placeable s t) :
    Allows (fun nexts s' => s'.mem.Sound ∧ ∀ u ∈ nexts, u.Whole) (fun _ s' => s'.mem.Sound)
      (t.run M F s) := by
  have hdoes := Turn.does (M := M) (P := fun _ => True) (fun _ _ h => h) (fun _ _ h => h) F t (s := s)
    trivial
  exact hdoes.allows.mono (fun _ _ he => he.sound S ht hplaceable) fun _ _ he => he ▸ S

end

/-! ## every run -/

def AddressSpace.empty : AddressSpace := ⟨.empty, fun _ => none⟩

/-- **the recorded regions stay whole and apart**, over every order of turns that leaves the
unchecked placements room -/
theorem regions_sound {M : Machine} {c : Shared} (h : Reached M Placeable .empty c) :
    c.space.mem.vmas.Pairwise Vma.Apart ∧
      ∀ v ∈ c.space.mem.vmas, v.start < v.stop ∧ PAGE_SIZE ∣ v.start ∧ PAGE_SIZE ∣ v.stop := by
  have S := (Reached.kept (P := fun s => s.mem.Sound) (fun t => Turn.whole_of_starts)
    (fun F s t S hwhole hok => Turn.regions F S hwhole hok) MemState.empty_sound h).1
  exact ⟨S.apart, fun v hv => ⟨(S.whole v hv).order, (S.whole v hv).start, (S.whole v hv).stop⟩⟩

/-! ### two pages that grow -/

def noFrames : Frames := ⟨none, fun _ => 0⟩
def twoPages : Vma := ⟨USER_MMAP_BASE, USER_MMAP_BASE + 0x2000, 3, 0x22, none⟩
def twoPagesSpace : AddressSpace := ⟨⟨[twoPages], 0, 0, USER_MMAP_BASE⟩, fun _ => none⟩

lemma twoPages_run : (Turn.mmap USER_MMAP_BASE 0x2000 3 0x22 (.ok none) 0).run x8664 noFrames
    .empty = (.ok [], twoPagesSpace) := by
  rw [Turn.run, mmap, if_neg (by decide), alignUpOk_bind (by decide)]
  dsimp only
  rw [if_neg (by decide), place, if_neg (by decide), get_bind_run, if_pos (by decide), record,
    addOk_bind (by decide)]
  rfl

lemma growth_run (h : oldSize = 0x1000 ∧ newSize = 0x2000 ∨ oldSize = 0x2000 ∧ newSize = 0x3000) :
    (Turn.mremap USER_MMAP_BASE oldSize newSize).run x8664 noFrames twoPagesSpace =
      (.ok [], twoPagesSpace.setMem (twoPagesSpace.mem.push
        ⟨USER_MMAP_BASE + oldSize, USER_MMAP_BASE + newSize, 3, 0x22, none⟩)) := by
  have hvma : twoPagesSpace.mem.findVma USER_MMAP_BASE = some twoPages := by decide
  rcases h with ⟨rfl, rfl⟩ | ⟨rfl, rfl⟩
  all_goals
    rw [Turn.run, mremap, alignUpOk_bind (by decide), alignUpOk_bind (by decide), if_neg (by decide),
      if_neg (by decide), grow, get_bind_run, hvma]
    dsimp only
    rw [addOk_bind (by decide), addOk_bind (by decide), if_pos (by decide)]
    rfl

lemma twoPages_reached {ok : AddressSpace → Turn → Prop}
    (hok : ok .empty (.mmap USER_MMAP_BASE 0x2000 3 0x22 (.ok none) 0)) :
    Reached x8664 ok .empty ⟨twoPagesSpace, []⟩ :=
  .turn none .start (.first rfl) hok twoPages_run fun _ h => absurd h (not_mem_none _)

/-- a page grown behind the two -/
theorem regions_sound_thirdPage :
    [twoPages, ⟨USER_MMAP_BASE + 0x2000, USER_MMAP_BASE + 0x3000, 3, 0x22, none⟩].Pairwise Vma.Apart ∧
      ∀ v ∈ [twoPages, ⟨USER_MMAP_BASE + 0x2000, USER_MMAP_BASE + 0x3000, 3, 0x22, none⟩],
        v.start < v.stop ∧ PAGE_SIZE ∣ v.start ∧ PAGE_SIZE ∣ v.stop := by
  have hend : Placeable twoPagesSpace (.mremap USER_MMAP_BASE 0x2000 0x3000) := by
    refine ⟨by decide, fun _ v hv => ?_⟩
    have hvma : twoPagesSpace.mem.findVma USER_MMAP_BASE = some twoPages := by decide
    rw [hvma] at hv
    cases hv
    decide
  exact regions_sound (.turn none (twoPages_reached trivial) (.first rfl) hend (growth_run (.inr ⟨rfl, rfl⟩))
    fun _ h => absurd h (not_mem_none _))

/-- growth that starts inside its own region is let through: the second page is recorded twice -/
theorem mremap_overlaps : ∃ c, Reached x8664 (fun _ _ => True) .empty c ∧
    ¬ c.space.mem.vmas.Pairwise Vma.Apart := by
  refine ⟨_, .turn none (twoPages_reached trivial) (.first rfl) trivial (growth_run (.inl ⟨rfl, rfl⟩))
    fun _ h => absurd h (not_mem_none _), ?_⟩
  show ¬ [twoPages, ⟨USER_MMAP_BASE + 0x1000, USER_MMAP_BASE + 0x2000, 3, 0x22, none⟩].Pairwise
    Vma.Apart
  intro h
  have hapart := (pairwise_pair.mp h)
  simp only [Vma.Apart, twoPages, USER_MMAP_BASE] at hapart
  omega

/-! ## the user half -/

/-- a span of the length is free behind the placements so far, below the limit -/
def RoomBelow (m : MemState) (len : Nat) : Prop :=
  ∃ base, m.mmapTop ≤ base ∧ base + len ≤ USER_LIMIT ∧ m.rangeIsFree base (base + len)

/-- what the search, which has no upper bound, leaves to the caller -/
def Housed (s : AddressSpace) : Turn → Prop
  | .mmap _ length _ flags _ _ => 0 < length → length ≤ MAX_MAPPING →
    has flags MAP_FIXED = false → RoomBelow s.mem (pageAlignUp length)
  | .mremap _ oldSize newSize =>
    pageAlignUp oldSize < pageAlignUp newSize → RoomBelow s.mem (pageAlignUp newSize)
  | _ => True

def MemState.Owned (m : MemState) : Prop := ∀ v ∈ m.vmas, v.stop ≤ USER_LIMIT
def Mapping.Owned (m : Mapping) : Prop := has m.flags MAP_FIXED = true ∧ m.addr + m.len ≤ USER_LIMIT

/-- a mapping that a thread has still to place has its address, in the user half -/
def Turn.Owned : Turn → Prop
  | .sweep _ _ after => ∀ m ∈ after, m.Owned
  | .place m => m.Owned
  | _ => True

lemma Turn.owned_of_starts (h : t.starts = true) : t.Owned := by
  cases t with
  | brk | mmap | munmap | mprotect | mremap | faultIn | breakCow => trivial
  | sweep | place | populate | abandon | retag | move | finish | commit => cases h

lemma none_owned : ∀ m ∈ (none : Option Mapping), m.Owned := fun m hm => absurd hm (not_mem_none m)

lemma Follows.owned (h : Follows t u) (ht : t.Owned) : u.Owned := by
  cases h with
  | sweep => exact ht
  | place hm => exact ht _ hm
  | populate | abandon | retag | finish | faultIn | commit => trivial

section
variable {M : Machine} {s : AddressSpace} {t : Turn}

lemma Unmaps.owned (h : Unmaps t start stop after) : ∀ m ∈ after, m.Owned := by
  cases h with
  | mmap _ _ hfixed _ huser =>
    intro m hm
    cases hm
    exact ⟨hfixed, huser.le⟩
  | munmap | shrink | abandon | finish => exact none_owned

/-- the search stops at the first free span -/
lemma Found.owned (h : Found m.vmas len m.mmapTop base) (hroom : RoomBelow m len) :
    base + len ≤ USER_LIMIT := by
  obtain ⟨b, hb, hlimit, hfree⟩ := hroom
  have hfirst := h.least b hb hfree
  omega

lemma Places.owned (h : Places t map) (ht : t.Owned) (hok : Housed s t)
    (hspot : Spot s.mem map m' base) : base + map.len ≤ USER_LIMIT := by
  cases hspot with
  | hint huser _ => exact huser.le
  | fixed hfixed =>
    cases h with
    | mmap _ _ hfree => exact absurd (hfree.symm.trans hfixed) Bool.false_ne_true
    | place => exact ht.2
  | found hfree hfound =>
    cases h with
    | mmap hpos hmax hfree =>
      rw [asked, pageAlignUp_of_dvd (dvd_pageAlignUp _)] at hfound
      exact hfound.owned (hok hpos hmax hfree)
    | place => exact absurd (hfree.symm.trans ht.1) Bool.false_ne_true

lemma MemState.Owned.push (O : m.Owned) {v : Vma} (h : v.stop ≤ USER_LIMIT) : (m.push v).Owned := by
  intro u hu
  rcases mem_append.mp hu with hu | hu
  · exact O u hu
  · obtain rfl := mem_singleton.mp hu
    exact h

lemma Edit.owned (h : Edit M s.mem t nexts m') (O : s.mem.Owned) (ht : t.Owned)
    (hok : Housed s t) : m'.Owned ∧ ∀ u ∈ nexts, u.Owned := by
  cases h with
  | none hnexts => exact ⟨O, fun u hu => (hnexts u hu).owned ht⟩
  | brk _ hnexts =>
    refine ⟨O, fun u hu => ?_⟩
    rw [hnexts u hu]
    exact none_owned
  | unmap hunmaps =>
    refine ⟨fun u hu => ?_, fun u hu => ?_⟩
    · obtain ⟨v, hv, hu⟩ := mem_flatMap.mp hu
      exact Nat.le_trans (Vma.mem_without hu).2.1 (O v hv)
    · obtain rfl := mem_singleton.mp hu
      exact hunmaps.owned
  | protect =>
    refine ⟨fun u hu => ?_, fun u hu => ?_⟩
    · obtain ⟨v, hv, rfl⟩ := mem_map.mp hu
      split <;> exact O v hv
    · obtain rfl := mem_singleton.mp hu
      trivial
  | record hplaces hspot =>
    have hend := hplaces.owned ht hok hspot
    refine ⟨MemState.Owned.push ?_ hend, fun u hu => ?_⟩
    · cases hspot <;> exact O
    · rw [recorded] at hu
      split at hu
      · rcases mem_pair.mp hu with rfl | rfl <;> trivial
      · cases hu
  | stretch hgrows => exact ⟨O.push hgrows.user, fun u hu => absurd hu not_mem_nil⟩
  | move hgrows hfound =>
    refine ⟨MemState.Owned.push O (hfound.owned (hok hgrows.more)), fun u hu => ?_⟩
    obtain rfl := mem_singleton.mp hu
    trivial

end

lemma anywhere_run {s : AddressSpace} (length : Nat) (hpos : 0 < length)
    (hmax : length ≤ MAX_MAPPING) (hlen : PAGE_SIZE ∣ length)
    (htop : s.mem.mmapTop + length < WORD) (habove : ∀ v ∈ s.mem.vmas, v.stop ≤ s.mem.mmapTop) :
    (Turn.mmap 0 length 3 0x22 (.ok none) 0).run x8664 noFrames s =
      (.ok [], s.setMem ((s.mem.setMmapTop (s.mem.mmapTop + length)).push
        ⟨s.mem.mmapTop, s.mem.mmapTop + length, 3, 0x22, none⟩)) := by
  have hword : length + PAGE_SIZE < WORD := by
    simp only [MAX_MAPPING, PAGE_SIZE, WORD] at *
    omega
  have halign := pageAlignUp_of_dvd hlen
  rw [Turn.run, mmap, if_neg (by omega), alignUpOk_bind hword, halign]
  dsimp only
  rw [if_neg (by decide), place, if_neg (show ¬ has 0x22 MAP_FIXED = true by decide), get_bind_run,
    if_neg fun h => h.1 (show pageAlignDown 0 = 0 by decide), findFree, Call.bind_assoc, get_bind_run,
    MemState.findFreeRegion, alignUpOk_bind hword, halign, findFrom_above htop habove]
  show record x8664 _ s.mem.mmapTop _ = _
  rw [record, addOk_bind htop]
  rfl

/-- **every recorded region lies in the user half** if those at the start do, over every order of turns
in which each search has room below the limit -/
theorem regions_owned {M : Machine} {start : AddressSpace} {c : Shared} (hstart : start.mem.Owned)
    (h : Reached M Housed start c) : ∀ v ∈ c.space.mem.vmas, v.stop ≤ USER_LIMIT := by
  refine (Reached.kept (P := fun s => s.mem.Owned) (fun t => Turn.owned_of_starts)
    (fun F s t O ht hok => ?_) hstart h).1
  have hdoes := Turn.does (M := M) (P := fun _ => True) (fun _ _ h => h) (fun _ _ h => h) F t (s := s)
    trivial
  exact hdoes.allows.mono (fun _ _ he => he.owned O ht hok) fun _ _ he => he ▸ O

/-- a program of one page -/
def onePage : AddressSpace :=
  ⟨⟨[⟨0x400000, 0x401000, 5, 0x2, none⟩], 0, 0, USER_MMAP_BASE⟩, fun _ => none⟩

/-- two more pages, where the search finds room -/
theorem regions_owned_twoPages : ∃ c, Reached x8664 Housed onePage c ∧
    twoPages ∈ c.space.mem.vmas ∧ twoPages.stop ≤ USER_LIMIT := by
  have hstart : onePage.mem.Owned := forall_mem_singleton.2 (by decide)
  have hroom : Housed onePage (.mmap 0 0x2000 3 0x22 (.ok none) 0) := fun _ _ _ =>
    ⟨USER_MMAP_BASE, by decide, by decide, by decide⟩
  have hrun := anywhere_run (s := onePage) 0x2000 (by decide) (by decide) (by decide) (by decide)
    (by decide)
  have hreached := Reached.turn none .start (.first rfl) hroom hrun fun _ h =>
    absurd h (not_mem_none _)
  have hmem : twoPages ∈ [⟨0x400000, 0x401000, 5, 0x2, none⟩, twoPages] :=
    mem_cons_of_mem _ (mem_singleton_self _)
  exact ⟨_, hreached, hmem, regions_owned hstart hreached twoPages hmem⟩

def wholeArea : AddressSpace := ⟨⟨[⟨USER_MMAP_BASE, USER_LIMIT, 3, 0x22, none⟩], 0, 0, USER_LIMIT⟩,
  fun _ => none⟩

/-- the area is full, and the next page goes to the other half of the address space -/
theorem regions_pass_limit : ∃ c, Reached x8664 (fun _ _ => True) .empty c ∧
    ∃ v ∈ c.space.mem.vmas, ¬ v.stop ≤ USER_LIMIT := by
  have hwhole : Reached x8664 (fun _ _ => True) .empty ⟨wholeArea, []⟩ :=
    .turn none .start (.first rfl) trivial (anywhere_run MAX_MAPPING (by decide)
      (by decide) (by decide) (by decide) fun v hv => absurd hv not_mem_nil)
      fun _ h => absurd h (not_mem_none _)
  refine ⟨_, .turn none hwhole (.first rfl) trivial (anywhere_run PAGE_SIZE (by decide)
    (by decide) (by decide) (by decide) (by decide)) fun _ h => absurd h (not_mem_none _),
    _, mem_append_right _ (mem_singleton_self _), by decide⟩

end ClaudeOs.Mem
