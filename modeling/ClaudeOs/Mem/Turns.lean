import ClaudeOs.Mem.Record
import ClaudeOs.Mm.PageMap

/-!
# The memory calls, one turn of the lock at a time

The calls of `syscall::mem`, the faults of `mm::space` and the sweeps they share, cut where the
address space's lock is let go.  A turn is what one hold of it does: it changes the record and the
pages together, and leaves the turns the thread may go on with, of which it takes one or none.
Between two turns any other thread of the address space may take any of its own.

* `AddressSpace`  the record and the pages, which only `PageMap.call` changes;
* `Turn`  what a thread is about to do under the lock;
* `Reached`  the states of an address space and its threads, in any order of turns.
-/

namespace ClaudeOs.Mem
open Mm Call

structure AddressSpace where
  mem : MemState
  pages : PageMap

namespace AddressSpace
variable (s : AddressSpace)

def setMem (mem : MemState) : AddressSpace := ⟨mem, s.pages⟩
def setPages (pages : PageMap) : AddressSpace := ⟨s.mem, pages⟩

@[simp] lemma setPages_pages (pages : PageMap) : (s.setPages pages).pages = pages := rfl

def flagsOf (virt : Nat) : Option Bits := (s.pages (pageOf virt)).map (·.2)
def change (M : Machine) (c : Mm.Call) : AddressSpace := s.setPages (s.pages.call M true c).1
def inHeap (page : Nat) : Prop := s.mem.brkStart ≤ page ∧ page < s.mem.brk

instance (page : Nat) : Decidable (s.inHeap page) := inferInstanceAs (Decidable (_ ∧ _))

end AddressSpace

structure Frames where
  spare : Option Phys
  references : Phys → Nat

inductive Source where
  | zero
  | file (node offset want : Nat)
deriving DecidableEq, Repr

/-- what the record says a fault should put at an address -/
structure Plan where
  flags : Bits
  source : Source
deriving DecidableEq, Repr

structure Mapping where
  addr : Nat
  len : Nat
  prot : Bits
  flags : Bits
  map : Option FileMap

/-- what a thread does with one hold of the lock -/
inductive Turn where
  -- the calls and the faults, from their first hold on
  | brk (request : Nat)
  | mmap (addr length : Nat) (prot flags : Bits) (file : Except Errno (Option Nat)) (offset : Nat)
  | munmap (addr length : Nat)
  | mprotect (addr length : Nat) (prot : Bits)
  | mremap (oldAddr oldSize newSize : Nat)
  | faultIn (addr : Nat)
  | breakCow (addr : Nat)
  -- what they leave for later
  | sweep (page stop : Nat) (after : Option Mapping)
  | place (m : Mapping)
  | populate (base len page : Nat) (bits : Bits)
  | abandon (base len : Nat)
  | retag (page stop : Nat) (bits : Bits)
  | move (base oldAddr size oldSize : Nat)
  | finish (oldAddr oldSize : Nat)
  | commit (page : Nat) (plan : Plan)

def Turn.starts : Turn → Bool
  | brk .. | mmap .. | munmap .. | mprotect .. | mremap .. | faultIn .. | breakCow .. => true
  | _ => false

/-- a turn: what it does, and what may follow it -/
abbrev Hold : Type := Locked AddressSpace (List Turn)

def MAX_MAPPING : Nat := 2 ^ 40
def UNMAP_CHUNK : Nat := 128
def PAGES_PER_TURN : Nat := ENTRIES

section
variable (M : Machine)

/-! ## taking pages away -/

def unmapPage (virt : Nat) : Locked AddressSpace Unit :=
  if isUserAddr virt then modify fun s => s.change M (.unmap (pageOf virt))
  else fail .assertion

def unmapRange (stop page : Nat) : Locked AddressSpace Unit :=
  if page < stop then
    unmapPage M page >>= fun _ =>
      addOk page PAGE_SIZE >>= fun _ => unmapRange stop (page + PAGE_SIZE)
  else Pure.pure ()
termination_by stop - page
decreasing_by
  simp only [PAGE_SIZE]
  omega

def sweep (page stop : Nat) (after : Option Mapping) : Hold :=
  if page < stop then
    addOk page (UNMAP_CHUNK * PAGE_SIZE) >>= fun _ =>
      unmapRange M (min stop (page + UNMAP_CHUNK * PAGE_SIZE)) page >>= fun _ =>
        Pure.pure [.sweep (min stop (page + UNMAP_CHUNK * PAGE_SIZE)) stop after]
  else Pure.pure (after.toList.map .place)

def unmapRecorded (start stop : Nat) (after : Option Mapping) : Hold :=
  get >>= fun s => s.mem.removeVmaRange start stop >>= fun mem =>
    modify (·.setMem mem) >>= fun _ => Pure.pure [.sweep start stop after]

/-! ## the calls -/

def brk (request : Nat) : Hold :=
  get >>= fun s =>
    if request = 0 ∨ request < s.mem.brkStart then Pure.pure []
    else alignUpOk request >>= fun newBrk =>
      if newBrk > USER_MMAP_BASE then Pure.pure []
      else modify (fun s => s.setMem (s.mem.setBrk newBrk)) >>= fun _ =>
        if newBrk ≥ s.mem.brk then Pure.pure [] else Pure.pure [.sweep newBrk s.mem.brk none]

def record (m : Mapping) (base : Nat) : Hold :=
  addOk base m.len >>= fun _ =>
    modify (fun s => s.setMem (s.mem.push ⟨base, base + m.len, m.prot, m.flags, m.map⟩)) >>= fun _ =>
      Pure.pure (if m.map.isSome then
        [.populate base m.len base (protToFlags M m.prot), .abandon base m.len] else [])

def findFree (len : Nat) : Locked AddressSpace Nat :=
  get >>= fun s => s.mem.findFreeRegion len >>= fun found =>
    modify (·.setMem found.2) >>= fun _ => Pure.pure found.1

/-- placement, the check that the range is free, and the region going in -/
def place (m : Mapping) : Hold :=
  if has m.flags MAP_FIXED then record M m m.addr
  else get >>= fun s =>
    if pageAlignDown m.addr ≠ 0 ∧ pageAlignDown m.addr ≥ USER_MMAP_BASE ∧
        inUserSpace (pageAlignDown m.addr) m.len ∧
        s.mem.rangeIsFree (pageAlignDown m.addr) (pageAlignDown m.addr + m.len) then
      record M m (pageAlignDown m.addr)
    else findFree m.len >>= fun base => record M m base

section
variable (addr length : Nat)

/-- `file` is nothing for an anonymous mapping, a node, or an error -/
def mmap (prot flags : Bits) (file : Except Errno (Option Nat)) (offset : Nat) : Hold :=
  if length = 0 ∨ length > MAX_MAPPING then fail (.errno .EINVAL)
  else alignUpOk length >>= fun len =>
    match file with
    | .error e => fail (.errno e)
    | .ok node =>
      if has flags MAP_FIXED then
        if addr = 0 ∨ addr % PAGE_SIZE ≠ 0 ∨ ¬ inUserSpace addr len then fail (.errno .EINVAL)
        else addOk addr len >>= fun _ => alignUpOk (addr + len) >>= fun stop =>
          unmapRecorded (pageAlignDown addr) stop
            (some ⟨addr, len, prot, flags, node.map fun node => ⟨node, offset, len⟩⟩)
      else place M ⟨addr, len, prot, flags, node.map fun node => ⟨node, offset, len⟩⟩

def publishPage (page : Nat) (frame : Phys) (bits : Bits) : Locked AddressSpace Unit :=
  modify fun s => s.change M (.publish (pageOf page) frame bits .empty)

/-- the next page of a file-backed mapping, read before the lock was taken -/
def populate (F : Frames) (base len page : Nat) (bits : Bits) : Hold :=
  addOk base len >>= fun _ =>
    if page < base + len then
      match F.spare with
      | none => Pure.pure [.abandon base len]
      | some frame =>
        subOk page base >>= fun _ => publishPage M page frame bits >>= fun _ =>
          addOk page PAGE_SIZE >>= fun _ =>
            Pure.pure [.populate base len (page + PAGE_SIZE) bits, .abandon base len]
    else Pure.pure []

def abandon (base len : Nat) : Hold :=
  addOk base len >>= fun _ => unmapRecorded base (base + len) none

def munmap : Hold :=
  if length = 0 ∨ addr % PAGE_SIZE ≠ 0 ∨ ¬ inUserSpace addr length then fail (.errno .EINVAL)
  else addOk addr length >>= fun _ => alignUpOk (addr + length) >>= fun stop =>
    unmapRecorded (pageAlignDown addr) stop none

def mprotect (prot : Bits) : Hold :=
  if addr % PAGE_SIZE ≠ 0 ∨ ¬ inUserSpace addr length then fail (.errno .EINVAL)
  else addOk addr length >>= fun _ => alignUpOk (addr + length) >>= fun stop =>
    modify (fun s => s.setMem (s.mem.setVmaProt (pageAlignDown addr) stop prot)) >>= fun _ =>
      Pure.pure [.retag (pageAlignDown addr) stop (protToFlags M prot)]

/-- a page still shared after a fork keeps its mark and stays read-only -/
def retagged (existing bits : Bits) : Bits :=
  if has existing M.cowBit then (bits &&& ~~~M.writableBit) ||| M.cowBit else bits

def retagPage (page : Nat) (bits : Bits) (s : AddressSpace) : AddressSpace :=
  match s.flagsOf page with
  | none => s
  | some existing => s.change M (.protect (pageOf page) (retagged M existing bits))

def retagRange (stop page : Nat) (bits : Bits) : Locked AddressSpace Unit :=
  if page < stop then
    modify (retagPage M page bits) >>= fun _ =>
      addOk page PAGE_SIZE >>= fun _ => retagRange stop (page + PAGE_SIZE) bits
  else Pure.pure ()
termination_by stop - page
decreasing_by
  simp only [PAGE_SIZE]
  omega

def retag (page stop : Nat) (bits : Bits) : Hold :=
  if page < stop then
    addOk page (PAGES_PER_TURN * PAGE_SIZE) >>= fun _ =>
      retagRange M (min stop (page + PAGES_PER_TURN * PAGE_SIZE)) page bits >>= fun _ =>
        Pure.pure [.retag (min stop (page + PAGES_PER_TURN * PAGE_SIZE)) stop bits]
  else Pure.pure []

/-- a region in the way of growth at the end of the region `vma` -/
def blocked (m : MemState) (vma : Vma) (start stop : Nat) : Prop :=
  ∃ v ∈ m.vmas, v.meets start stop ∧ v.start ≠ vma.start

instance (m : MemState) (vma : Vma) (start stop : Nat) : Decidable (blocked m vma start stop) :=
  inferInstanceAs (Decidable (∃ v ∈ _, _))

/-- deciding where a mapping that grows goes, and recording it there; the sizes are whole pages -/
def grow (oldAddr oldSize newSize : Nat) : Hold :=
  get >>= fun s =>
    match s.mem.findVma oldAddr with
    | none => fail (.errno .EFAULT)
    | some vma =>
      addOk oldAddr oldSize >>= fun _ => addOk oldAddr newSize >>= fun _ =>
        if ¬ blocked s.mem vma (oldAddr + oldSize) (oldAddr + newSize) then
          modify (fun s => s.setMem (s.mem.push
            ⟨oldAddr + oldSize, oldAddr + newSize, vma.prot, vma.flags, none⟩)) >>= fun _ =>
              Pure.pure []
        else findFree newSize >>= fun base => addOk base newSize >>= fun _ =>
          modify (fun s => s.setMem (s.mem.push
            ⟨base, base + newSize, vma.prot, vma.flags, none⟩)) >>= fun _ =>
              Pure.pure [.move base oldAddr (min oldSize newSize) oldSize]

def mremap (oldAddr oldSize newSize : Nat) : Hold :=
  alignUpOk oldSize >>= fun oldSize => alignUpOk newSize >>= fun newSize =>
    if ¬ inUserSpace oldAddr (max oldSize newSize) then fail (.errno .EINVAL)
    else if newSize ≤ oldSize then
      if newSize < oldSize then
        addOk oldAddr newSize >>= fun _ => addOk oldAddr oldSize >>= fun _ =>
          unmapRecorded (oldAddr + newSize) (oldAddr + oldSize) none
      else Pure.pure []
    else grow oldAddr oldSize newSize

/-- the old range of a mapping that moved goes, once its bytes are copied -/
def finish (oldAddr oldSize : Nat) : Hold :=
  addOk oldAddr oldSize >>= fun _ => unmapRecorded oldAddr (oldAddr + oldSize) none

/-! ## faults -/

def plan (s : AddressSpace) (page : Nat) : Locked AddressSpace (Option Plan) :=
  if s.inHeap page then
    Pure.pure (some ⟨M.presentBit ||| M.writableBit ||| M.userBit ||| M.noExecuteBit, .zero⟩)
  else
    match s.mem.findVma page with
    | none => Pure.pure none
    | some vma =>
      match vma.file with
      | none => Pure.pure (some ⟨vma.pageFlags M, .zero⟩)
      | some file =>
        subOk page vma.start >>= fun _ =>
          if page - vma.start ≥ file.length then Pure.pure (some ⟨vma.pageFlags M, .zero⟩)
          else addOk file.offset (page - vma.start) >>= fun _ =>
            Pure.pure (some ⟨vma.pageFlags M, .file file.node (file.offset + (page - vma.start))
              (min (file.length - (page - vma.start)) PAGE_SIZE)⟩)

def faultIn : Hold :=
  get >>= fun s =>
    if (s.pages (pageOf (pageAlignDown addr))).isSome then Pure.pure []
    else plan M s (pageAlignDown addr) >>= fun plan =>
      Pure.pure (plan.toList.map (.commit (pageAlignDown addr)))

end

def commit (F : Frames) (page : Nat) (filled : Plan) : Hold :=
  match F.spare with
  | none => Pure.pure []
  | some frame =>
    get >>= fun s =>
      if (s.pages (pageOf page)).isSome then Pure.pure []
      else plan M s page >>= fun now =>
        if now = some filled then
          publishPage M page frame filled.flags >>= fun _ => Pure.pure [.faultIn page]
        else Pure.pure [.faultIn page]

def breakCow (F : Frames) (addr : Nat) (s : AddressSpace) : AddressSpace :=
  match s.pages (pageOf (pageAlignDown addr)) with
  | none => s
  | some (phys, flags) =>
    if !has flags M.cowBit then s
    else if F.references phys ≤ 1 then
      s.change M (.protect (pageOf (pageAlignDown addr)) (unshared M flags))
    else
      match F.spare with
      | none => s
      | some copy => s.change M (.replace (pageOf (pageAlignDown addr)) copy (unshared M flags))

def Turn.run (F : Frames) : Turn → Hold
  | .brk request => Mem.brk request
  | .mmap addr length prot flags file offset => Mem.mmap M addr length prot flags file offset
  | .munmap addr length => Mem.munmap addr length
  | .mprotect addr length prot => Mem.mprotect M addr length prot
  | .mremap oldAddr oldSize newSize => Mem.mremap oldAddr oldSize newSize
  | .faultIn addr => Mem.faultIn M addr
  | .breakCow addr => modify (Mem.breakCow M F addr) >>= fun _ => Pure.pure []
  | .sweep page stop after => Mem.sweep M page stop after
  | .place m => Mem.place M m
  | .populate base len page bits => Mem.populate M F base len page bits
  | .abandon base len => Mem.abandon base len
  | .retag page stop bits => Mem.retag M page stop bits
  | .move _ oldAddr _ oldSize => Pure.pure [.finish oldAddr oldSize]
  | .finish oldAddr oldSize => Mem.finish oldAddr oldSize
  | .commit page filled => Mem.commit M F page filled

/-! ## threads -/

structure Shared where
  space : AddressSpace
  pending : List Turn

/-- a thread takes a turn: one it was about to take, or the first of a call -/
inductive Takes (c : Shared) : Turn → List Turn → Prop
  | first {t : Turn} : t.starts = true → Takes c t c.pending
  | next {t : Turn} {rest : List Turn} : c.pending.Perm (t :: rest) → Takes c t rest

inductive Reached (ok : AddressSpace → Turn → Prop) (start : AddressSpace) : Shared → Prop
  | start : Reached ok start ⟨start, []⟩
  /-- a turn that leaves the thread one of several to go on with, or done -/
  | turn {c : Shared} {t : Turn} {rest nexts : List Turn} {F : Frames} {space : AddressSpace}
      (next : Option Turn) : Reached ok start c → Takes c t rest → ok c.space t →
      t.run M F c.space = (.ok nexts, space) → (∀ t' ∈ next, t' ∈ nexts) →
      Reached ok start ⟨space, next.toList ++ rest⟩
  | failed {c : Shared} {t : Turn} {rest : List Turn} {F : Frames} {space : AddressSpace}
      {e : Errno} : Reached ok start c → Takes c t rest → ok c.space t →
      t.run M F c.space = (.error (.errno e), space) → Reached ok start ⟨space, rest⟩

end

lemma Takes.mem {c : Shared} {t : Turn} {rest : List Turn} (h : Takes c t rest) :
    (t.starts = true ∨ t ∈ c.pending) ∧ ∀ u ∈ rest, u ∈ c.pending := by
  cases h with
  | first h => exact ⟨.inl h, fun u hu => hu⟩
  | next h =>
    exact ⟨.inr (h.mem_iff.mpr (List.mem_cons_self ..)),
      fun u hu => h.mem_iff.mpr (List.mem_cons_of_mem _ hu)⟩

lemma Reached.kept {M : Machine} {ok : AddressSpace → Turn → Prop} {start : AddressSpace}
    {P : AddressSpace → Prop} {W : Turn → Prop} (hstarts : ∀ t, t.starts = true → W t)
    (hturn : ∀ F s t, P s → W t → ok s t →
      Allows (fun nexts s' => P s' ∧ ∀ t' ∈ nexts, W t') (fun _ s' => P s') (t.run M F s))
    (hstart : P start) {c : Shared} (h : Reached M ok start c) :
    P c.space ∧ ∀ t ∈ c.pending, W t := by
  induction h with
  | start => exact ⟨hstart, fun t ht => absurd ht List.not_mem_nil⟩
  | @turn c t rest nexts F space next _ htakes hok hrun hnext ih =>
    have ht : W t := htakes.mem.1.elim (hstarts t) (ih.2 t)
    have hkept := hturn F c.space t ih.1 ht hok
    rw [hrun] at hkept
    refine ⟨hkept.1, fun u hu => ?_⟩
    rcases List.mem_append.mp hu with hu | hu
    · exact hkept.2 u (hnext u (Option.mem_toList.mp hu))
    · exact ih.2 u (htakes.mem.2 u hu)
  | @failed c t rest F space e _ htakes hok hrun ih =>
    have ht : W t := htakes.mem.1.elim (hstarts t) (ih.2 t)
    have hkept := hturn F c.space t ih.1 ht hok
    rw [hrun] at hkept
    exact ⟨hkept, fun u hu => ih.2 u (htakes.mem.2 u hu)⟩

end ClaudeOs.Mem
