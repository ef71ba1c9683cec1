import ClaudeOs.Mem.Turns

/-!
# The sums of the memory calls

The kernel is built with overflow checks, so a sum that is not a word stops it.  The calls check the
ends of what a program names against the half it owns before they add, with exceptions: sizes and
the break are rounded up before anything is asked about them, the search for a span has no upper
bound, and a file offset is only added to when a region is split.  `InWords` is what those rest on.

* `CEILING`, `MemState.Bounded`  where a record's ends and offsets stay;
* `Turn.Bounded`  the same of what a thread has still to do;
* `InWords`  the arguments, and the room, for which the sums are words;
* `Edit`, `Turn.does`  everything a turn can do to the record;
* `Turn.words`, `Reached.words`  no turn of a run with it stops the machine.
-/

namespace ClaudeOs.Mem
open Mm Call List Option Nat Post

/-! ## whole pages -/

lemma dvd_pageAlignDown (value : Nat) : PAGE_SIZE ∣ pageAlignDown value := dvd_mul_left _ _
lemma dvd_pageAlignUp (value : Nat) : PAGE_SIZE ∣ pageAlignUp value := dvd_mul_left _ _
lemma le_pageAlignUp (value : Nat) : value ≤ pageAlignUp value := by
  simp only [pageAlignUp, PAGE_SIZE]
  omega

lemma pageAlignDown_le (value : Nat) : pageAlignDown value ≤ value := by
  simp only [pageAlignDown, PAGE_SIZE]
  omega

variable {value stop len base oldAddr oldSize : Nat} {t : Turn} {v : Vma} {σ : Type} {map : Mapping}
  {s start : AddressSpace} {m m' : MemState} {R : Failure → AddressSpace → Prop}
  {after : Option Mapping} {nexts : List Turn} {M : Machine} {c : Shared}

lemma pageAlignUp_of_dvd (h : PAGE_SIZE ∣ value) : pageAlignUp value = value := by
  simp only [pageAlignUp, PAGE_SIZE] at *
  omega

def CEILING : Nat := 0xFFFFFFFFFFF00000

lemma ceiling_room {step : Nat} (h : value ≤ CEILING) (hstep : step < 2 ^ 20) :
    value + step < WORD := by
  simp only [CEILING, WORD] at *
  omega

structure MemState.Bounded (m : MemState) : Prop where
  regions : ∀ v ∈ m.vmas, v.stop ≤ CEILING
  offsets : ∀ v ∈ m.vmas, ∀ f ∈ v.file, f.offset + (v.stop - v.start) < WORD
  top : m.mmapTop ≤ CEILING
  brk : m.brk ≤ USER_LIMIT

structure Mapping.Bounded (m : Mapping) : Prop where
  fixed : has m.flags MAP_FIXED = true
  addr : m.addr + m.len ≤ USER_LIMIT
  offset : ∀ f ∈ m.map, f.offset + m.len < WORD

def Turn.Bounded : Turn → Prop
  | .sweep _ stop after => stop ≤ CEILING ∧ ∀ m ∈ after, m.Bounded
  | .place m => m.Bounded
  | .populate base len page _ => base + len ≤ CEILING ∧ base ≤ page
  | .abandon base len => base + len ≤ CEILING
  | .retag _ stop _ => stop ≤ USER_LIMIT
  | .move base oldAddr size oldSize =>
    base + size ≤ CEILING ∧ size ≤ oldSize ∧ oldAddr + oldSize ≤ USER_LIMIT
  | .finish oldAddr oldSize => oldAddr + oldSize ≤ USER_LIMIT
  | _ => True

lemma Turn.bounded_of_starts (h : t.starts = true) : t.Bounded := by
  cases t with
  | brk | mmap | munmap | mprotect | mremap | faultIn | breakCow => trivial
  | sweep | place | populate | abandon | retag | move | finish | commit => cases h

def Roomy (m : MemState) (len : Nat) : Prop :=
  m.mmapTop + len ≤ CEILING ∧ ∀ v ∈ m.vmas, v.stop + len ≤ CEILING

/-- arguments, and room, for which every sum of a turn is a word -/
def InWords (s : AddressSpace) : Turn → Prop
  | .brk request => s.mem.brkStart ≤ request → request + PAGE_SIZE < WORD
  | .mmap _ length _ flags file offset => 0 < length → length ≤ MAX_MAPPING →
    (has flags MAP_FIXED = false → Roomy s.mem (pageAlignUp length)) ∧
      ∀ node, file = .ok (some node) → offset + pageAlignUp length < WORD
  | .mremap _ oldSize newSize => oldSize + PAGE_SIZE < WORD ∧ newSize + PAGE_SIZE < WORD ∧
    (pageAlignUp oldSize < pageAlignUp newSize → pageAlignUp newSize ≤ USER_LIMIT →
      Roomy s.mem (pageAlignUp newSize))
  | _ => True

/-! ## the record -/

section
variable {m : MemState}

section
variable (h : ∀ f ∈ v.file, f.offset + (v.stop - v.start) < WORD)
include h

lemma Vma.Bounded.tailFits (start stop : Nat) : v.TailFits start stop := by
  intro _ htail f hf
  have := h f hf
  omega

lemma Vma.offset_without {u : Vma} {start : Nat} (hu : u ∈ v.without start stop) :
    ∀ f ∈ u.file, f.offset + (u.stop - u.start) < WORD := by
  rw [Vma.without] at hu
  split at hu
  · obtain rfl := mem_singleton.mp hu
    exact h
  · rename_i hin
    rcases mem_append.mp hu with hu | hu
    · split at hu
      · obtain rfl := mem_singleton.mp hu
        intro f hf
        obtain ⟨g, hg, rfl⟩ := map_eq_some_iff.mp hf
        have := h g hg
        simp only [Vma.head]
        omega
      · cases hu
    · split at hu
      · obtain rfl := mem_singleton.mp hu
        intro f hf
        obtain ⟨g, hg, rfl⟩ := map_eq_some_iff.mp hf
        have := h g hg
        simp only [Vma.tail]
        omega
      · cases hu

end

section
variable (B : m.Bounded)
include B

namespace MemState.Bounded

lemma remove (start stop : Nat) : (m.remove start stop).Bounded where
  regions := by
    intro u hu
    obtain ⟨v, hv, hu⟩ := mem_flatMap.mp hu
    exact le_trans (Vma.mem_without hu).2.1 (B.regions v hv)
  offsets := by
    intro u hu
    obtain ⟨v, hv, hu⟩ := mem_flatMap.mp hu
    exact Vma.offset_without (B.offsets v hv) hu
  top := B.top
  brk := B.brk

lemma push (hstop : v.stop ≤ CEILING)
    (hoffset : ∀ f ∈ v.file, f.offset + (v.stop - v.start) < WORD) : (m.push v).Bounded where
  regions := by
    intro u hu
    rcases mem_append.mp hu with hu | hu
    · exact B.regions u hu
    · obtain rfl := mem_singleton.mp hu
      exact hstop
  offsets := by
    intro u hu
    rcases mem_append.mp hu with hu | hu
    · exact B.offsets u hu
    · obtain rfl := mem_singleton.mp hu
      exact hoffset
  top := B.top
  brk := B.brk

lemma setVmaProt (start stop : Nat) (prot : Bits) : (m.setVmaProt start stop prot).Bounded where
  regions := by
    intro u hu
    obtain ⟨v, hv, rfl⟩ := mem_map.mp hu
    split
    · exact B.regions v hv
    · exact B.regions v hv
  offsets := by
    intro u hu
    obtain ⟨v, hv, rfl⟩ := mem_map.mp hu
    split
    · exact B.offsets v hv
    · exact B.offsets v hv
  top := B.top
  brk := B.brk

lemma setMmapTop {top : Nat} (h : top ≤ CEILING) :
    (m.setMmapTop top).Bounded := ⟨B.regions, B.offsets, h, B.brk⟩

lemma setBrk {brk : Nat} (h : brk ≤ USER_LIMIT) :
    (m.setBrk brk).Bounded := ⟨B.regions, B.offsets, B.top, h⟩

end MemState.Bounded
end
end

/-! ## what a turn does to the record -/

/-- what a turn that leaves the record alone leaves to do -/
inductive Follows : Turn → Turn → Prop
  | sweep {page page' stop : Nat} {after : Option Mapping} :
      Follows (.sweep page stop after) (.sweep page' stop after)
  | place {page stop : Nat} {after : Option Mapping} {m : Mapping} : m ∈ after →
      Follows (.sweep page stop after) (.place m)
  | populate {base len page page' : Nat} {bits : Bits} : page ≤ page' →
      Follows (.populate base len page bits) (.populate base len page' bits)
  | abandon {base len page : Nat} {bits : Bits} :
      Follows (.populate base len page bits) (.abandon base len)
  | retag {page page' stop : Nat} {bits : Bits} : Follows (.retag page stop bits) (.retag page' stop bits)
  | finish {base oldAddr size oldSize : Nat} :
      Follows (.move base oldAddr size oldSize) (.finish oldAddr oldSize)
  | faultIn {t : Turn} {addr : Nat} : Follows t (.faultIn addr)
  | commit {t : Turn} {page : Nat} {plan : Plan} : Follows t (.commit page plan)

def asked (addr length : Nat) (prot flags : Bits) (node : Option Nat) (offset : Nat) : Mapping :=
  ⟨addr, pageAlignUp length, prot, flags, node.map fun node => ⟨node, offset, pageAlignUp length⟩⟩

/-- the range a turn takes out of the regions, and the mapping that is to go in after it -/
inductive Unmaps : Turn → Nat → Nat → Option Mapping → Prop
  | mmap {addr length offset : Nat} {prot flags : Bits} {node : Option Nat} : 0 < length →
      length ≤ MAX_MAPPING → has flags MAP_FIXED = true → addr % PAGE_SIZE = 0 →
      inUserSpace addr (pageAlignUp length) →
      Unmaps (.mmap addr length prot flags (.ok node) offset) (pageAlignDown addr)
        (pageAlignUp (addr + pageAlignUp length)) (some (asked addr length prot flags node offset))
  | munmap {addr length : Nat} : inUserSpace addr length →
      Unmaps (.munmap addr length) (pageAlignDown addr) (pageAlignUp (addr + length)) none
  | shrink {oldAddr oldSize newSize : Nat} : pageAlignUp newSize < pageAlignUp oldSize →
      inUserSpace oldAddr (max (pageAlignUp oldSize) (pageAlignUp newSize)) →
      Unmaps (.mremap oldAddr oldSize newSize) (oldAddr + pageAlignUp newSize)
        (oldAddr + pageAlignUp oldSize) none
  | abandon {base len : Nat} : Unmaps (.abandon base len) base (base + len) none
  | finish {oldAddr oldSize : Nat} : Unmaps (.finish oldAddr oldSize) oldAddr (oldAddr + oldSize) none

inductive Places : Turn → Mapping → Prop
  | mmap {addr length offset : Nat} {prot flags : Bits} {node : Option Nat} : 0 < length →
      length ≤ MAX_MAPPING → has flags MAP_FIXED = false →
      Places (.mmap addr length prot flags (.ok node) offset) (asked addr length prot flags node offset)
  | place {map : Mapping} : Places (.place map) map

/-- where a mapping goes, and the record when its place is found -/
inductive Spot (m : MemState) (map : Mapping) : MemState → Nat → Prop
  | fixed : has map.flags MAP_FIXED = true → Spot m map m map.addr
  | hint : inUserSpace (pageAlignDown map.addr) map.len →
      m.rangeIsFree (pageAlignDown map.addr) (pageAlignDown map.addr + map.len) →
      Spot m map m (pageAlignDown map.addr)
  | found {base : Nat} : has map.flags MAP_FIXED = false →
      Found m.vmas (pageAlignUp map.len) m.mmapTop base →
      Spot m map (m.setMmapTop (base + pageAlignUp map.len)) base

def recorded (M : Machine) (map : Mapping) (base : Nat) : List Turn :=
  if map.map.isSome then [.populate base map.len base (protToFlags M map.prot), .abandon base map.len]
  else []

structure Grows (m : MemState) (oldAddr oldSize newSize : Nat) (vma : Vma) : Prop where
  found : m.findVma oldAddr = some vma
  more : pageAlignUp oldSize < pageAlignUp newSize
  user : oldAddr + pageAlignUp newSize ≤ USER_LIMIT

/-- what a turn that returns did to the record, and what it leaves to do -/
inductive Edit (M : Machine) (m : MemState) : Turn → List Turn → MemState → Prop
  | none {t : Turn} {nexts : List Turn} : (∀ u ∈ nexts, Follows t u) → Edit M m t nexts m
  | brk {request : Nat} {nexts : List Turn} : pageAlignUp request ≤ USER_MMAP_BASE →
      (∀ u ∈ nexts, u = .sweep (pageAlignUp request) m.brk none) →
      Edit M m (.brk request) nexts (m.setBrk (pageAlignUp request))
  | unmap {t : Turn} {start stop : Nat} {after : Option Mapping} : Unmaps t start stop after →
      Edit M m t [.sweep start stop after] (m.remove start stop)
  | protect {addr length : Nat} {prot : Bits} : inUserSpace addr length →
      Edit M m (.mprotect addr length prot)
        [.retag (pageAlignDown addr) (pageAlignUp (addr + length)) (protToFlags M prot)]
        (m.setVmaProt (pageAlignDown addr) (pageAlignUp (addr + length)) prot)
  | record {t : Turn} {map : Mapping} {m' : MemState} {base : Nat} : Places t map →
      Spot m map m' base → Edit M m t (recorded M map base)
        (m'.push ⟨base, base + map.len, map.prot, map.flags, map.map⟩)
  | stretch {oldAddr oldSize newSize : Nat} {vma : Vma} : Grows m oldAddr oldSize newSize vma →
      ¬ blocked m vma (oldAddr + pageAlignUp oldSize) (oldAddr + pageAlignUp newSize) →
      Edit M m (.mremap oldAddr oldSize newSize) [] (m.push
        ⟨oldAddr + pageAlignUp oldSize, oldAddr + pageAlignUp newSize, vma.prot, vma.flags, none⟩)
  | move {oldAddr oldSize newSize base : Nat} {vma : Vma} : Grows m oldAddr oldSize newSize vma →
      Found m.vmas (pageAlignUp newSize) m.mmapTop base → Edit M m (.mremap oldAddr oldSize newSize)
        [.move base oldAddr (min (pageAlignUp oldSize) (pageAlignUp newSize)) (pageAlignUp oldSize)]
        ((m.setMmapTop (base + pageAlignUp newSize)).push
          ⟨base, base + pageAlignUp newSize, vma.prot, vma.flags, none⟩)

/-! ## one walk of every turn -/

lemma inUserSpace.le {addr : Nat} (h : inUserSpace addr len) : addr + len ≤ USER_LIMIT := by
  have hstart := h.2.1
  have hend := h.2.2
  simp only [isUserAddr] at hstart hend
  omega

lemma user_add_page (h : value ≤ USER_LIMIT) : value + PAGE_SIZE < WORD := by
  simp only [USER_LIMIT, PAGE_SIZE, WORD] at *
  omega

lemma pageAlignUp_user (h : value ≤ USER_LIMIT) : pageAlignUp value ≤ USER_LIMIT := by
  simp only [USER_LIMIT, pageAlignUp, PAGE_SIZE] at *
  omega

lemma user_le_ceiling : USER_LIMIT ≤ CEILING := by decide

lemma lt_word_of_le_ceiling (h : value ≤ CEILING) : value < WORD :=
  @ceiling_room value 0 h (by decide)

lemma lt_word_of_user (h : value ≤ USER_LIMIT) : value < WORD :=
  lt_word_of_le_ceiling (le_trans h user_le_ceiling)

structure Mapping.Roomed (m : MemState) (map : Mapping) : Prop where
  fixed : has map.flags MAP_FIXED = true → map.addr + map.len ≤ USER_LIMIT
  free : has map.flags MAP_FIXED = false → PAGE_SIZE ∣ map.len ∧ Roomy m map.len
  offset : ∀ f ∈ map.map, f.offset + map.len < WORD

structure Covered (s : AddressSpace) (t : Turn) : Prop where
  record : s.mem.Bounded
  turn : t.Bounded
  words : InWords s t

lemma Places.roomed (h : Places t map) (ht : t.Bounded) (hw : InWords s t) : map.Roomed s.mem := by
  cases h with
  | @mmap addr length offset prot flags node hpos hmax hfree =>
    obtain ⟨hroom, hoffset⟩ := hw hpos hmax
    refine ⟨fun h => absurd (hfree.symm.trans h) Bool.false_ne_true,
      fun h => ⟨dvd_pageAlignUp _, hroom h⟩, fun f hf => ?_⟩
    obtain ⟨n, rfl, rfl⟩ := map_eq_some_iff.mp hf
    exact hoffset n rfl
  | place =>
    exact ⟨fun _ => ht.addr, fun h => absurd (h.symm.trans ht.fixed) Bool.false_ne_true, ht.offset⟩

lemma Spot.le_ceiling (h : Spot m map m' base) (R : map.Roomed m) : base + map.len ≤ CEILING := by
  cases h with
  | fixed hfixed => exact le_trans (R.fixed hfixed) user_le_ceiling
  | hint huser _ => exact le_trans huser.le user_le_ceiling
  | found hfree hfound =>
    obtain ⟨-, htop, hends⟩ := R.free hfree
    rcases hfound.at_end with rfl | ⟨v, hv, rfl⟩
    · exact htop
    · exact hends v hv

section
variable {M : Machine} {P : AddressSpace → Prop} {C : Prop} {s : AddressSpace}
  (hmem : ∀ s mem, P s → P (s.setMem mem)) (hchange : ∀ s c, P s → P (s.change M c))

abbrev Leaves {α : Type} (P : AddressSpace → Prop) (C : Prop) (mem : MemState)
    (r : Outcome Failure α × AddressSpace) : Prop :=
  Ends P C (fun _ s' => s'.mem = mem) (fun _ s' => s'.mem = mem) r

section
include hchange

lemma unmapRange_ends (hstop : C → stop ≤ CEILING) (page : Nat) (hs : P s) :
    Leaves P C s.mem (unmapRange M stop page s) := by
  induction hn : stop - page using Nat.strongRecOn generalizing page s with
  | _ n ih =>
    rw [unmapRange]
    refine ite (fun hlt => ?_) fun _ => ⟨hs, rfl⟩
    have hpage : Leaves P C s.mem (unmapPage M page s) :=
      ite (fun _ => ⟨hchange s _ hs, rfl⟩) fun _ => ⟨hs, rfl⟩
    refine hpage.bind fun _ s1 h1 hsame => Ends.addOk h1 (fun c => ?_) fun _ => ?_
    · exact ceiling_room (Nat.le_trans (Nat.le_of_lt hlt) (hstop c)) (by decide)
    · rw [← hsame]
      refine ih _ ?_ _ h1 rfl
      simp only [PAGE_SIZE]
      omega

lemma retagPage_keeps (page : Nat) (bits : Bits) (hs : P s) :
    P (retagPage M page bits s) ∧ (retagPage M page bits s).mem = s.mem := by
  rw [retagPage]
  cases s.flagsOf page with
  | none => exact ⟨hs, rfl⟩
  | some existing => exact ⟨hchange s _ hs, rfl⟩

lemma retagRange_ends (hstop : C → stop ≤ CEILING) (page : Nat) (bits : Bits) (hs : P s) :
    Leaves P C s.mem (retagRange M stop page bits s) := by
  induction hn : stop - page using Nat.strongRecOn generalizing page s with
  | _ n ih =>
    rw [retagRange]
    refine ite (fun hlt => ?_) fun _ => ⟨hs, rfl⟩
    obtain ⟨h1, hsame⟩ := retagPage_keeps hchange page bits hs
    rw [modify_bind_run]
    refine Ends.addOk h1 (fun c => ?_) fun _ => ?_
    · exact ceiling_room (Nat.le_trans (Nat.le_of_lt hlt) (hstop c)) (by decide)
    · rw [← hsame]
      refine ih _ ?_ _ h1 rfl
      simp only [PAGE_SIZE]
      omega

lemma breakCow_keeps (F : Frames) (addr : Nat) (hs : P s) :
    P (breakCow M F addr s) ∧ (breakCow M F addr s).mem = s.mem := by
  rw [breakCow]
  split
  · exact ⟨hs, rfl⟩
  · split
    · exact ⟨hs, rfl⟩
    · split
      · exact ⟨hchange s _ hs, rfl⟩
      · split
        · exact ⟨hs, rfl⟩
        · exact ⟨hchange s _ hs, rfl⟩

end

lemma plan_ends (B : C → s.mem.Bounded) (page : Nat) (hs : P s) :
    Ends P C (fun _ s' => s' = s) (fun _ s' => s'.mem = s.mem) (plan M s page s) := by
  refine ite (fun _ => ⟨hs, rfl⟩) fun _ => ?_
  cases hvma : s.mem.findVma page with
  | none => exact ⟨hs, rfl⟩
  | some vma =>
    dsimp only
    have hcontains := MemState.contains_of_findVma hvma
    cases hfile : vma.file with
    | none => exact ⟨hs, rfl⟩
    | some file =>
      refine Ends.subOk hs (fun _ => hcontains.1) fun _ => ite (fun _ => ⟨hs, rfl⟩) fun _ => ?_
      refine Ends.addOk hs (fun c => ?_) fun _ => ⟨hs, rfl⟩
      have := (B c).offsets vma (mem_of_find?_eq_some hvma) file hfile
      have hlt := hcontains.2
      omega

lemma Ends.alignUp {α : Type} {f : Nat → Locked AddressSpace α} {Q : α → AddressSpace → Prop}
    (hs : P s) (hfits : C → value + PAGE_SIZE < WORD)
    (hf : Ends P C Q R (f (pageAlignUp value) s)) : Ends P C Q R ((alignUpOk value >>= f) s) := by
  by_cases h : value + PAGE_SIZE < WORD
  · rw [alignUpOk_bind h]
    exact hf
  · rw [alignUpOk_overflow h]
    exact ⟨hs, fun c => h (hfits c)⟩

lemma Edit.of_same (h : m' = m) (hnexts : ∀ u ∈ nexts, Follows t u) : Edit M m t nexts m' := by
  rw [h]
  exact .none hnexts

abbrev Does (M : Machine) (P : AddressSpace → Prop) (s : AddressSpace) (t : Turn) (m : Hold) : Prop :=
  Ends P (Covered s t) (fun nexts s' => Edit M s.mem t nexts s'.mem) (fun _ s' => s'.mem = s.mem) (m s)

lemma does_idle (hs : P s) : Does M P s t (Pure.pure []) :=
  ⟨hs, .none fun _ hu => absurd hu not_mem_nil⟩

include hmem

lemma unmapRecorded_does (hs : P s) {start : Nat} (ht : Unmaps t start stop after) :
    Does M P s t (unmapRecorded start stop after) := by
  rw [Does, unmapRecorded, get_bind_run, Call.bind_run]
  by_cases h : ∀ v ∈ s.mem.vmas, v.TailFits start stop
  · rw [MemState.removeVmaRange_fits h]
    exact ⟨hmem s _ hs, .unmap ht⟩
  · rw [MemState.removeVmaRange_stops h]
    exact ⟨hs, fun c => h fun v hv => Vma.Bounded.tailFits (c.record.offsets v hv) start stop⟩

omit hmem in
lemma findFree_ends {β : Type} {Q : β → AddressSpace → Prop} {f : Nat → Locked AddressSpace β}
    (hs : P s) (hroom : C → PAGE_SIZE ∣ len ∧ Roomy s.mem len)
    (hf : ∀ base, Found s.mem.vmas (pageAlignUp len) s.mem.mmapTop base →
      Ends P C Q R (f base (s.setMem (s.mem.setMmapTop (base + pageAlignUp len))))) :
    Ends P C Q R ((findFree len >>= f) s) := by
  rw [findFree, Call.bind_assoc, get_bind_run, MemState.findFreeRegion, Call.bind_assoc,
    Call.bind_assoc]
  refine Ends.alignUp hs (fun c => ?_) ?_
  · exact ceiling_room (le_trans (le_add_left _ _) (hroom c).2.1) (by decide)
  · rw [Call.bind_assoc, Call.bind_run]
    rcases findFrom_run s.mem.vmas (pageAlignUp len) s.mem.mmapTop s with h | ⟨base, h, hfound⟩
    · rw [h]
      refine ⟨hs, fun c => ?_⟩
      obtain ⟨hlen, htop, hends⟩ := hroom c
      obtain ⟨base, hrun, -⟩ := findFrom_fits s (lt_word_of_le_ceiling htop)
        fun v hv => lt_word_of_le_ceiling (hends v hv)
      rw [pageAlignUp_of_dvd hlen, hrun] at h
      cases h
    · rw [h]
      exact hf base hfound

lemma record_does (ht : Places t map) {s1 : AddressSpace} (hspot : Spot s.mem map s1.mem base)
    (hs : P s1) :
    Ends P (Covered s t) (fun nexts s' => Edit M s.mem t nexts s'.mem) (fun _ s' => s'.mem = s.mem)
      (record M map base s1) := by
  refine Ends.addOk hs (fun c => ?_) fun _ => ⟨hmem s1 _ hs, .record ht hspot⟩
  exact lt_word_of_le_ceiling (hspot.le_ceiling (ht.roomed c.turn c.words))

lemma place_does (ht : Places t map) (hs : P s) : Does M P s t (place M map) := by
  refine ite (fun hfixed => record_does hmem ht (.fixed hfixed) hs) fun hfree => ?_
  rw [get_bind_run]
  refine ite (fun h => record_does hmem ht (.hint h.2.2.1 h.2.2.2) hs) fun _ => ?_
  have hfree := Bool.eq_false_iff.mpr hfree
  refine findFree_ends hs (fun c => (ht.roomed c.turn c.words).free hfree) fun base hfound => ?_
  exact record_does hmem ht (.found hfree hfound) (hmem s _ hs)

lemma mmap_does (addr length : Nat) (prot flags : Bits) (file : Except Errno (Option Nat))
    (offset : Nat) (hs : P s) :
    Does M P s (.mmap addr length prot flags file offset) (mmap M addr length prot flags file offset) := by
  refine ite (fun _ => ⟨hs, rfl⟩) fun hlength => ?_
  rw [not_or, not_lt, ← ne_eq, ← pos_iff_ne_zero] at hlength
  have hmax : length ≤ USER_LIMIT := le_trans hlength.2 (by decide)
  refine Ends.alignUp hs (fun _ => user_add_page hmax) ?_
  cases file with
  | error e => exact ⟨hs, rfl⟩
  | ok node =>
    refine ite (fun hfixed => ite (fun _ => ⟨hs, rfl⟩) fun haddr => ?_) fun hfree => ?_
    · simp only [not_or, not_not] at haddr
      have hend := haddr.2.2.le
      refine Ends.addOk hs (fun _ => lt_word_of_user hend) fun _ => ?_
      refine Ends.alignUp hs (fun _ => user_add_page hend) ?_
      exact unmapRecorded_does hmem hs (.mmap hlength.1 hlength.2 hfixed haddr.2.1 haddr.2.2)
    · exact place_does hmem (.mmap hlength.1 hlength.2 (Bool.eq_false_iff.mpr hfree)) hs

lemma grow_does {newSize : Nat} (hs : P s) (hmore : pageAlignUp oldSize < pageAlignUp newSize)
    (huser : oldAddr + pageAlignUp newSize ≤ USER_LIMIT) :
    Does M P s (.mremap oldAddr oldSize newSize)
      (grow oldAddr (pageAlignUp oldSize) (pageAlignUp newSize)) := by
  rw [Does, grow, get_bind_run]
  cases hvma : s.mem.findVma oldAddr with
  | none => exact ⟨hs, rfl⟩
  | some vma =>
    have hgrows : Grows s.mem oldAddr oldSize newSize vma := ⟨hvma, hmore, huser⟩
    refine Ends.addOk hs (fun _ => lt_word_of_user (by omega)) fun _ => ?_
    refine Ends.addOk hs (fun _ => lt_word_of_user huser) fun _ => ?_
    refine ite (fun hclear => ⟨hmem s _ hs, .stretch hgrows hclear⟩) fun _ => ?_
    refine findFree_ends hs (fun c => ⟨dvd_pageAlignUp _, ?_⟩) fun base hfound => ?_
    · exact c.words.2.2 hmore (by omega)
    · have hbase := hfound.fits
      rw [pageAlignUp_of_dvd (dvd_pageAlignUp _)] at hfound hbase ⊢
      exact Ends.addOk (hmem s _ hs) (fun _ => hbase) fun _ => ⟨hmem _ _ (hmem s _ hs), .move hgrows hfound⟩

lemma mremap_does (oldAddr oldSize newSize : Nat) (hs : P s) :
    Does M P s (.mremap oldAddr oldSize newSize) (mremap oldAddr oldSize newSize) := by
  refine Ends.alignUp hs (fun c => c.words.1) (Ends.alignUp hs (fun c => c.words.2.1) ?_)
  refine ite (fun _ => ⟨hs, rfl⟩) fun huser => ?_
  rw [not_not] at huser
  have hend := huser.le
  refine ite (fun _ => ite (fun hlt => ?_) fun _ => does_idle hs) fun hmore => ?_
  · refine Ends.addOk hs (fun _ => lt_word_of_user (by omega)) fun _ => ?_
    refine Ends.addOk hs (fun _ => lt_word_of_user (by omega)) fun _ => ?_
    exact unmapRecorded_does hmem hs (.shrink hlt huser)
  · exact grow_does hmem hs (Nat.lt_of_not_le hmore) (by omega)

lemma brk_does (request : Nat) (hs : P s) : Does M P s (.brk request) (brk request) := by
  rw [Does, brk, get_bind_run]
  refine ite (fun _ => does_idle hs) fun hrequest => ?_
  rw [not_or, Nat.not_lt] at hrequest
  refine Ends.alignUp hs (fun c => c.words hrequest.2) (ite (fun _ => does_idle hs) fun hbase => ?_)
  rw [modify_bind_run]
  refine ite (fun _ => ⟨hmem s _ hs, .brk (Nat.le_of_not_lt hbase) ?_⟩)
    fun _ => ⟨hmem s _ hs, .brk (Nat.le_of_not_lt hbase) fun u hu => mem_singleton.mp hu⟩
  exact fun u hu => absurd hu not_mem_nil

include hchange

/-- **what one turn does**: whatever its changes cannot break holds after it, however it ends; a turn
that fails leaves the record alone; and the sums of a covered turn do not stop it -/
theorem Turn.does (F : Frames) (t : Turn) (hs : P s) : Does M P s t (t.run M F) := by
  cases t with
  | brk request => exact brk_does hmem request hs
  | mmap addr length prot flags file offset => exact mmap_does hmem addr length prot flags file offset hs
  | munmap addr length =>
    refine ite (fun _ => ⟨hs, rfl⟩) fun h => ?_
    simp only [not_or, not_not] at h
    have hend := h.2.2.le
    refine Ends.addOk hs (fun _ => lt_word_of_user hend) fun _ => ?_
    exact Ends.alignUp hs (fun _ => user_add_page hend) (unmapRecorded_does hmem hs (.munmap h.2.2))
  | mprotect addr length prot =>
    refine ite (fun _ => ⟨hs, rfl⟩) fun h => ?_
    simp only [not_or, not_not] at h
    have hend := h.2.le
    refine Ends.addOk hs (fun _ => lt_word_of_user hend) fun _ => ?_
    exact Ends.alignUp hs (fun _ => user_add_page hend) ⟨hmem s _ hs, .protect h.2⟩
  | mremap oldAddr oldSize newSize => exact mremap_does hmem oldAddr oldSize newSize hs
  | faultIn addr =>
    rw [Does, Turn.run, Mem.faultIn, get_bind_run]
    refine ite (fun _ => does_idle hs) fun _ => ?_
    refine (plan_ends (fun c => c.record) _ hs).bind fun plan s1 h1 hsame =>
      ⟨h1, .of_same (congrArg AddressSpace.mem hsame) fun u hu => ?_⟩
    obtain ⟨p, -, rfl⟩ := mem_map.mp hu
    exact .commit
  | breakCow addr =>
    obtain ⟨h1, hsame⟩ := breakCow_keeps hchange F addr hs
    exact ⟨h1, .of_same hsame fun u hu => absurd hu not_mem_nil⟩
  | sweep page stop after =>
    refine ite (fun hlt => Ends.addOk hs (fun c => ?_) fun _ => ?_) fun _ => ⟨hs, .none fun u hu => ?_⟩
    · exact ceiling_room (le_trans (le_of_lt hlt) c.turn.1) (by decide)
    · refine (unmapRange_ends hchange (fun c => le_trans (min_le_left _ _) c.turn.1) page hs).bind
        fun _ s1 h1 hsame => ⟨h1, .of_same hsame fun u hu => ?_⟩
      obtain rfl := mem_singleton.mp hu
      exact .sweep
    · obtain ⟨m, hm, rfl⟩ := mem_map.mp hu
      exact .place (mem_toList.mp hm)
  | place m => exact place_does hmem .place hs
  | populate base len page bits =>
    refine Ends.addOk hs (fun c => lt_word_of_le_ceiling c.turn.1) fun _ =>
      ite (fun hlt => ?_) fun _ => does_idle hs
    cases F.spare with
    | none =>
      refine ⟨hs, .none fun u hu => ?_⟩
      obtain rfl := mem_singleton.mp hu
      exact .abandon
    | some frame =>
      refine Ends.subOk hs (fun c => c.turn.2) fun _ => ?_
      dsimp only [publishPage]
      rw [modify_bind_run]
      refine Ends.addOk (hchange s _ hs) (fun c => ?_) fun _ => ⟨hchange s _ hs, .none fun u hu => ?_⟩
      · exact ceiling_room (le_trans (le_of_lt hlt) c.turn.1) (by decide)
      · rcases mem_pair.mp hu with rfl | rfl
        · exact .populate (le_add_right _ _)
        · exact .abandon
  | abandon base len =>
    exact Ends.addOk hs (fun c => lt_word_of_le_ceiling c.turn) fun _ =>
      unmapRecorded_does hmem hs .abandon
  | retag page stop bits =>
    refine ite (fun hlt => Ends.addOk hs (fun c => ?_) fun _ => ?_) fun _ => does_idle hs
    · have hstop : stop ≤ USER_LIMIT := c.turn
      simp only [PAGES_PER_TURN, ENTRIES, USER_LIMIT, PAGE_SIZE, WORD] at *
      omega
    · refine (retagRange_ends hchange (fun c => le_trans (min_le_left _ _)
        (le_trans c.turn user_le_ceiling)) page bits hs).bind
          fun _ s1 h1 hsame => ⟨h1, .of_same hsame fun u hu => ?_⟩
      obtain rfl := mem_singleton.mp hu
      exact .retag
  | move base oldAddr size oldSize =>
    refine ⟨hs, .none fun u hu => ?_⟩
    obtain rfl := mem_singleton.mp hu
    exact .finish
  | finish oldAddr oldSize =>
    exact Ends.addOk hs (fun c => lt_word_of_user c.turn) fun _ => unmapRecorded_does hmem hs .finish
  | commit page filled =>
    have hnexts : ∀ u ∈ [Turn.faultIn page], Follows (.commit page filled) u := fun u hu => by
      rw [mem_singleton.mp hu]
      exact .faultIn
    rw [Does, Turn.run, Mem.commit]
    cases F.spare with
    | none => exact does_idle hs
    | some frame =>
      dsimp only
      rw [get_bind_run]
      refine ite (fun _ => does_idle hs) fun _ => ?_
      refine (plan_ends (fun c => c.record) _ hs).bind fun now s1 h1 hsame => ?_
      subst hsame
      exact ite (fun _ => ⟨hchange s1 _ h1, .none hnexts⟩) fun _ => ⟨h1, .none hnexts⟩

end

/-! ## what stays below the ceiling -/

lemma none_bounded : ∀ m ∈ (none : Option Mapping), m.Bounded :=
  fun m hm => absurd hm (not_mem_none m)

lemma Follows.bounded {u : Turn} (h : Follows t u) (ht : t.Bounded) : u.Bounded := by
  cases h with
  | sweep => exact ht
  | place hm => exact ht.2 _ hm
  | populate hle => exact ⟨ht.1, le_trans ht.2 hle⟩
  | abandon => exact ht.1
  | retag => exact ht
  | finish => exact ht.2.2
  | faultIn => trivial
  | commit => trivial

lemma Unmaps.bounded {start : Nat} (h : Unmaps t start stop after) (c : Covered s t) :
    stop ≤ CEILING ∧ ∀ m ∈ after, m.Bounded := by
  cases h with
  | @mmap addr length offset prot flags node hpos hmax hfixed haddr huser =>
    refine ⟨le_trans (pageAlignUp_user huser.le) user_le_ceiling, fun m hm => ?_⟩
    cases hm
    refine ⟨hfixed, huser.le, fun f hf => ?_⟩
    obtain ⟨n, rfl, rfl⟩ := map_eq_some_iff.mp hf
    exact (c.words hpos hmax).2 n rfl
  | munmap huser => exact ⟨le_trans (pageAlignUp_user huser.le) user_le_ceiling, none_bounded⟩
  | shrink hlt huser =>
    have hend := huser.le
    exact ⟨le_trans (by omega) user_le_ceiling, none_bounded⟩
  | abandon => exact ⟨c.turn, none_bounded⟩
  | finish => exact ⟨le_trans c.turn user_le_ceiling, none_bounded⟩

lemma Spot.bounded (h : Spot m map m' base) (R : map.Roomed m) (B : m.Bounded) : m'.Bounded := by
  have hbase := h.le_ceiling R
  cases h with
  | fixed => exact B
  | hint => exact B
  | found hfree =>
    rw [pageAlignUp_of_dvd (R.free hfree).1]
    exact B.setMmapTop hbase

lemma Edit.bounded (h : Edit M s.mem t nexts m') (c : Covered s t) :
    m'.Bounded ∧ ∀ u ∈ nexts, u.Bounded := by
  have B := c.record
  cases h with
  | none hnexts => exact ⟨B, fun u hu => (hnexts u hu).bounded c.turn⟩
  | brk hbase hnexts =>
    refine ⟨B.setBrk (Nat.le_trans hbase (by decide)), fun u hu => ?_⟩
    rw [hnexts u hu]
    exact ⟨Nat.le_trans B.brk user_le_ceiling, none_bounded⟩
  | unmap hunmaps =>
    refine ⟨B.remove _ _, fun u hu => ?_⟩
    obtain rfl := mem_singleton.mp hu
    exact hunmaps.bounded c
  | protect huser =>
    refine ⟨B.setVmaProt _ _ _, fun u hu => ?_⟩
    obtain rfl := mem_singleton.mp hu
    exact pageAlignUp_user huser.le
  | @record _ map m' base hplaces hspot =>
    have R := hplaces.roomed c.turn c.words
    have hbase := hspot.le_ceiling R
    refine ⟨(hspot.bounded R B).push hbase fun f hf => ?_, fun u hu => ?_⟩
    · rw [Nat.add_sub_cancel_left]
      exact R.offset f hf
    · rw [recorded] at hu
      split at hu
      · rcases mem_pair.mp hu with rfl | rfl
        · exact ⟨hbase, Nat.le_refl _⟩
        · exact hbase
      · cases hu
  | stretch hgrows =>
    refine ⟨B.push (Nat.le_trans hgrows.user user_le_ceiling) ?_, fun u hu => absurd hu not_mem_nil⟩
    exact fun f hf => absurd hf (not_mem_none f)
  | @move oldAddr oldSize newSize base vma hgrows hfound =>
    have huser := hgrows.user
    have hmore := hgrows.more
    obtain ⟨htop, hends⟩ := c.words.2.2 hmore (by omega)
    have hbase : base + pageAlignUp newSize ≤ CEILING := by
      rcases hfound.at_end with rfl | ⟨v, hv, rfl⟩
      · exact htop
      · exact hends v hv
    refine ⟨(B.setMmapTop hbase).push hbase fun f hf => absurd hf (not_mem_none f), fun u hu => ?_⟩
    obtain rfl := mem_singleton.mp hu
    exact ⟨Nat.le_trans (Nat.add_le_add_left (Nat.min_le_right _ _) _) hbase, Nat.min_le_left _ _,
      by omega⟩

/-! ## every run -/

section
variable (hstart : start.mem.Bounded)
include hstart

lemma Reached.bounded (h : Reached M InWords start c) :
    c.space.mem.Bounded ∧ ∀ t ∈ c.pending, t.Bounded := by
  refine Reached.kept (P := fun s => s.mem.Bounded) (fun _ => Turn.bounded_of_starts)
    (fun F s t B ht hok => ?_) hstart h
  have hdoes := Turn.does (M := M) (P := fun _ => True) (fun _ _ h => h) (fun _ _ h => h) F t (s := s)
    trivial
  exact hdoes.allows.mono (fun _ _ he => he.bounded ⟨B, ht, hok⟩) fun _ _ he => he ▸ B

lemma Reached.words (h : Reached M InWords start c) (F : Frames) {rest : List Turn}
    (htakes : Takes c t rest) (hwords : InWords c.space t) : (t.run M F c.space).1 ≠ .stopped := by
  obtain ⟨B, hpending⟩ := h.bounded hstart
  have ht : t.Bounded := htakes.mem.1.elim Turn.bounded_of_starts (hpending t)
  have hdoes := Turn.does (M := M) (P := fun _ => True) (fun _ _ h => h) (fun _ _ h => h) F t
    (s := c.space) trivial
  exact (hdoes.holds ⟨B, ht, hwords⟩).not_stopped

lemma Reached.move_words (h : Reached M InWords start c) {size : Nat}
    (hmem : Turn.move base oldAddr size oldSize ∈ c.pending) (S : Space σ) (u : σ) :
    (Uaccess.copyWithinUserIn S base oldAddr size u).1 ≠ .stopped := by
  obtain ⟨hbase, hsize, hold⟩ := (h.bounded hstart).2 _ hmem
  refine ((Uaccess.Tally.copyWithinUserIn (T := .blind S) (fun _ => trivial) trivial).holds
    (.inr (.inr (.inr ⟨?_, ?_⟩)))).not_stopped
  · exact Uaccess.not_inTopPage (le_trans (le_add_right _ _) hold)
  · simp only [Uaccess.InTopPage, CEILING, WORD, PAGE_SIZE] at *
    omega

end
end ClaudeOs.Mem
