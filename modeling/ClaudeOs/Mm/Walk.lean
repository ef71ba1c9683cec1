import ClaudeOs.Mm.Machine

/-!
# The walk of a four-level table, and every change to one

The functions of `mm::walk`, over a world that is physical memory read as tables of descriptors,
the reference counts of the frame allocator, and the moments that led here: every store, every
invalidation and every change of a count leaves one behind, which is what the processor and the
allocator can be asked about afterwards.

* `World`  memory, counts, and what happened to them;
* `Tlb`, `TableStock`  what a change collects and what it brings;
* `leafTableCreating`  the descent that puts missing tables in;
* `shareFrom`, `freeBelow`  the fork walk and the teardown.
-/

namespace ClaudeOs.Mm

abbrev ENTRIES : Nat := 512
def DEPTH : Nat := 3
def PAGE_BITS : Nat := 12
def LEVEL_BITS : Nat := 9
def PAGE_SIZE : Nat := 4096
def SPAN : Nat := 2 ^ (PAGE_BITS + LEVEL_BITS * 4)

/-- the descriptor of an address at a level: 3 in the top table, 0 at the last -/
def indexOf (virt level : Nat) : Fin ENTRIES :=
  ⟨virt / 2 ^ (PAGE_BITS + LEVEL_BITS * level) % ENTRIES, Nat.mod_lt _ (by decide)⟩

/-- how much of the address space one descriptor at a level covers -/
def levelSize (level : Nat) : Nat := 2 ^ (PAGE_BITS + LEVEL_BITS * level)

/-- the levels above the last that a walk from a table of height `h` goes through -/
def down : Nat → List Nat
  | 0 => []
  | h + 1 => (h + 1) :: down h

/-! ## the world -/

abbrev Memory := Phys → Fin ENTRIES → Bits

inductive Event where
  | store (table : Phys) (index : Fin ENTRIES) (bits : Bits)
  | fill (phys : Phys)
  | flushPage (virt : Nat)
  | flushAll
  | alloc (phys : Phys)
  | share (phys : Phys)
  | free (phys : Phys)
deriving DecidableEq

/-- something that happened, with memory and the counts as it left them -/
structure Moment where
  event : Event
  mem : Memory
  refs : Phys → Nat

structure World where
  mem : Memory
  refs : Phys → Nat
  /-- latest first -/
  past : List Moment

def MAX_REFERENCES : Nat := 65535

namespace World
variable (w : World)

def bump (refs : Phys → Nat) (phys : Phys) (n : Nat) : Phys → Nat :=
  fun p => if p = phys then n else refs p

def store (table : Phys) (index : Fin ENTRIES) (bits : Bits) : World where
  mem := Radix.update w.mem table index bits
  refs := w.refs
  past := ⟨.store table index bits, Radix.update w.mem table index bits, w.refs⟩ :: w.past

def fill (phys : Phys) (words : Fin ENTRIES → Bits) : World where
  mem := fun p => if p = phys then words else w.mem p
  refs := w.refs
  past := ⟨.fill phys, fun p => if p = phys then words else w.mem p, w.refs⟩ :: w.past

def flushPage (virt : Nat) : World where
  mem := w.mem
  refs := w.refs
  past := ⟨.flushPage virt, w.mem, w.refs⟩ :: w.past

def flushAll : World where
  mem := w.mem
  refs := w.refs
  past := ⟨.flushAll, w.mem, w.refs⟩ :: w.past

def recount (event : Event) (refs : Phys → Nat) : World where
  mem := w.mem
  refs := refs
  past := ⟨event, w.mem, refs⟩ :: w.past

def alloc (phys : Phys) : World := w.recount (.alloc phys) (bump w.refs phys 1)
def allocZeroed (phys : Phys) : World := (w.alloc phys).fill phys fun _ => 0

/-- drop one reference; a frame the allocator has not handed out is left alone -/
def free (phys : Phys) : World := w.recount (.free phys) (bump w.refs phys (w.refs phys - 1))

/-- add a reference to a frame that is handed out, as far as the count goes -/
def share (phys : Phys) : World :=
  w.recount (.share phys)
    (if w.refs phys = 0 then w.refs else bump w.refs phys (min (w.refs phys + 1) MAX_REFERENCES))

def references (phys : Phys) : Nat := w.refs phys

section
variable (t phys : Phys) (i : Fin ENTRIES) (bits : Bits) (virt : Nat) (words : Fin ENTRIES → Bits)

@[simp] lemma store_mem : (w.store t i bits).mem = Radix.update w.mem t i bits := by rfl
@[simp] lemma store_refs : (w.store t i bits).refs = w.refs := by rfl
@[simp] lemma flushAll_mem : w.flushAll.mem = w.mem := by rfl
@[simp] lemma alloc_mem : (w.alloc phys).mem = w.mem := by rfl
@[simp] lemma share_mem : (w.share phys).mem = w.mem := by rfl
@[simp] lemma free_mem : (w.free phys).mem = w.mem := by rfl
lemma fill_mem (p : Phys) : (w.fill phys words).mem p = if p = phys then words else w.mem p := by
  rfl

lemma alloc_refs (p : Phys) : (w.alloc phys).refs p = if p = phys then 1 else w.refs p := by rfl

lemma free_refs (p : Phys) :
    (w.free phys).refs p = if p = phys then w.refs phys - 1 else w.refs p := by rfl

lemma share_refs (hpos : 0 < w.refs phys) (hroom : w.refs phys < MAX_REFERENCES) (p : Phys) :
    (w.share phys).refs p = if p = phys then w.refs phys + 1 else w.refs p := by
  have hne : w.refs phys ≠ 0 := by omega
  simp only [share, recount, if_neg hne, bump, Nat.min_eq_left hroom]

end
end World

/-! ## what a change brings and what it leaves -/

/-- translations that a change under way has left behind -/
inductive Tlb where
  | clean
  | page (virt : Nat)
  | all
deriving DecidableEq, Repr

namespace Tlb

def note : Tlb → Nat → Tlb
  | clean, virt => page virt
  | page already, virt => if already = virt then page virt else all
  | all, _ => all

/-- a table descriptor has changed, or anything else that reaches more than one address -/
def noteAll (_ : Tlb) : Tlb := all

def flush : Tlb → World → World
  | clean, w => w
  | page virt, w => w.flushPage virt
  | all, w => w.flushAll

end Tlb

/-- zeroed frames a walk may put missing tables in, the next to be taken first -/
structure TableStock where
  frames : List Phys
deriving DecidableEq

namespace TableStock

def empty : TableStock := ⟨[]⟩
def len (stock : TableStock) : Nat := stock.frames.length
def push (stock : TableStock) (phys : Phys) : TableStock := ⟨phys :: stock.frames⟩

def take (stock : TableStock) : Option (Phys × TableStock) :=
  match stock.frames with
  | [] => none
  | phys :: rest => some (phys, ⟨rest⟩)

end TableStock

inductive Refused where
  | occupied
  | shortOfTables
  | blocked
deriving DecidableEq, Repr

/-! ## the descent -/

namespace Tables
variable (M : Machine)

variable (w : World) (root : Phys) (virt : Nat)

def step (level : Nat) (table : Phys) : Option Phys :=
  let bits := w.mem table (indexOf virt level)
  if !M.present bits || M.endsWalk bits level then none else some (M.addr bits)

def descend (w : World) (virt : Nat) : List Nat → Phys → Option Phys
  | [], table => some table
  | level :: rest, table => (step M w virt level table).bind (descend w virt rest)

def leafTable : Option Phys :=
  descend M w virt (down DEPTH) root

/-- a table descriptor opened for a leaf with these flags, where the machine asks for that -/
def widenAt (table : Phys) (index : Fin ENTRIES) (under : Bits) : World :=
  match M.widen (w.mem table index) under with
  | some wider => w.store table index wider
  | none => w

/-- the descent through these levels, with the stock's frames put in where one is missing -/
def createFrom (virt : Nat) (under : Bits) :
    List Nat → World → TableStock → Phys → World × TableStock × Except Refused Phys
  | [], w, stock, table => (w, stock, .ok table)
  | level :: rest, w, stock, table =>
    let index := indexOf virt level
    let bits := w.mem table index
    if !M.present bits then
      match stock.take with
      | none => (w, stock, .error .shortOfTables)
      | some (fresh, stock) =>
        createFrom virt under rest (w.store table index (M.table fresh under)) stock fresh
    else if M.endsWalk bits level then (w, stock, .error .blocked)
    else createFrom virt under rest (widenAt M w table index under) stock (M.addr bits)

def leafTableCreating (under : Bits) (stock : TableStock) :
    World × TableStock × Except Refused Phys :=
  createFrom M virt under (down DEPTH) w stock root

def missingFrom (w : World) (virt : Nat) : List Nat → Phys → Nat
  | [], _ => 0
  | level :: rest, table =>
    match step M w virt level table with
    | some next => missingFrom w virt rest next
    | none => level

def missingTables : Nat :=
  missingFrom M w virt (down DEPTH) root

/-- the search for a last-level table, which skips what a missing descriptor covers -/
def nextFrom (w : World) (root : Phys) (limit virt : Nat) : Option Nat :=
  if virt < limit then
    match missingTables M w root virt with
    | 0 => some virt
    | level + 1 =>
      nextFrom w root limit
        (virt / levelSize (level + 1) * levelSize (level + 1) + levelSize (level + 1))
  else none
termination_by limit - virt
decreasing_by
  have hpos : 0 < levelSize (level + 1) := Nat.two_pow_pos _
  have := Nat.lt_div_mul_add (a := virt) hpos
  omega

def nextPopulated (start limit : Nat) : Option Nat :=
  nextFrom M w root (min limit SPAN) (start / levelSize 1 * levelSize 1)

def leaf : Option Bits :=
  (leafTable M w root virt).bind fun table =>
    let bits := w.mem table (indexOf virt 0)
    if M.present bits then some bits else none

def flagsOf : Option Bits :=
  (leaf M w root virt).map M.flags

def offsetIn (level : Nat) : Phys := BitVec.ofNat 64 (virt % levelSize level)

def translateFrom (w : World) (virt : Nat) : List Nat → Phys → Option Phys
  | [], table =>
    let bits := w.mem table (indexOf virt 0)
    if !M.present bits then none else some (M.addr bits ||| offsetIn virt 0)
  | level :: rest, table =>
    let bits := w.mem table (indexOf virt level)
    if !M.present bits then none
    else if M.endsWalk bits level then
      -- a block: the output address without the bits the offset supplies
      some ((M.addr bits &&& ~~~(BitVec.ofNat 64 (levelSize level - 1))) ||| offsetIn virt level)
    else translateFrom w virt rest (M.addr bits)

/-- the physical address an address reaches, with its offset in the page -/
def translate : Option Phys :=
  translateFrom M w virt (down DEPTH) root

/-! ## changes to one page -/

def publish (phys : Phys) (flags : Bits) (stock : TableStock) (tlb : Tlb) :
    World × TableStock × Tlb × Except Refused Unit :=
  match leafTableCreating M w root virt flags stock with
  | (w, stock, .error refused) => (w, stock, tlb, .error refused)
  | (w, stock, .ok table) =>
    if M.present (w.mem table (indexOf virt 0)) then (w, stock, tlb, .error .occupied)
    else (w.store table (indexOf virt 0) (M.leaf phys flags), stock, tlb.note virt, .ok ())

/-- change the descriptor of a mapped page with one store; the descriptor it had -/
def rewrite (change : Bits → Bits) (tlb : Tlb) : World × Tlb × Option Bits :=
  match leafTable M w root virt with
  | none => (w, tlb, none)
  | some table =>
    let old := w.mem table (indexOf virt 0)
    if !M.present old then (w, tlb, none)
    else (w.store table (indexOf virt 0) (change old), tlb.note virt, some old)

/-- put a frame in over what was there, handing back what the descriptor held -/
def replace (phys : Phys) (flags : Bits) (tlb : Tlb) : World × Tlb × Option Phys :=
  match rewrite M w root virt (fun _ => M.leaf phys flags) tlb with
  | (w, tlb, old) => (w, tlb, old.map M.addr)

def protect (flags : Bits) (tlb : Tlb) : World × Tlb × Option Phys :=
  match rewrite M w root virt (fun old => M.leaf (M.addr old) flags) tlb with
  | (w, tlb, old) => (w, tlb, old.map M.addr)

/-- nothing in the table is present; the sweep starts one past the descriptor just cleared -/
def tableIsEmpty (phys : Phys) (cleared : Fin ENTRIES) : Bool :=
  (List.range' 1 ENTRIES).all fun step => !M.present (w.mem phys (cleared + Fin.ofNat ENTRIES step))

/-- hand back the tables an unmap has left empty, from these levels upwards -/
def reclaimFrom (root : Phys) (virt : Nat) :
    List Nat → World → Tlb → TableStock → World × Tlb × TableStock
  | [], w, tlb, reclaimed => (w, tlb, reclaimed)
  | level :: rest, w, tlb, reclaimed =>
    match descend M w virt ((down DEPTH).filter (level < ·)) root with
    | none => (w, tlb, reclaimed)
    | some parent =>
      match step M w virt level parent with
      | none => (w, tlb, reclaimed)
      | some table =>
        if !tableIsEmpty M w table (indexOf virt (level - 1)) || w.references table != 1 then
          (w, tlb, reclaimed)
        else
          reclaimFrom root virt rest (w.store parent (indexOf virt level) 0) tlb.noteAll
            (reclaimed.push table)

def reclaim (tlb : Tlb) (reclaimed : TableStock) : World × Tlb × TableStock :=
  reclaimFrom M root virt [1, 2, 3] w tlb reclaimed

def unmap (tlb : Tlb) (reclaimed : TableStock) : World × Tlb × TableStock × Option Phys :=
  match rewrite M w root virt (fun _ => 0) tlb with
  | (w, tlb, none) => (w, tlb, reclaimed, none)
  | (w, tlb, some old) =>
    match reclaim M w root virt tlb reclaimed with
    | (w, tlb, reclaimed) => (w, tlb, reclaimed, some (M.addr old))

/-! ## the fork walk -/

/-- the end of a share: the page goes in here, or the reference taken for it goes back -/
def publishShared (child : Phys) (virt : Nat) (phys : Phys) (flags : Bits) (stock : TableStock)
    (tlb : Tlb) : World × TableStock × Tlb × Except Refused Unit :=
  match publish M w child virt phys flags stock tlb with
  | (w, stock, tlb, .ok ()) => (w, stock, tlb, .ok ())
  | (w, stock, tlb, .error err) => (w.free phys, stock, tlb, .error err)

def shareFrom (child parent : Phys) (virt : Nat) (stock : TableStock) (tlb : Tlb) :
    World × TableStock × Tlb × Except Refused Unit :=
  match leafTable M w parent virt with
  | none => (w, stock, tlb, .ok ())
  | some table =>
    let bits := w.mem table (indexOf virt 0)
    if !M.present bits then (w, stock, tlb, .ok ())
    else
      let phys := M.addr bits
      let w := w.share phys
      match M.shared (M.flags bits) with
      | some shared =>
        -- the parent's page loses write permission too, or the child would see its writes
        publishShared M (w.store table (indexOf virt 0) (M.leaf phys shared)) child virt phys shared
          stock (tlb.note virt)
      | none => publishShared M w child virt phys (M.flags bits) stock tlb

def shareRange (child parent : Phys) :
    Nat → Nat → World → TableStock → Tlb → World × TableStock × Tlb × Except Refused Unit
  | _, 0, w, stock, tlb => (w, stock, tlb, .ok ())
  | start, count + 1, w, stock, tlb =>
    match shareFrom M w child parent start stock tlb with
    | (w, stock, tlb, .ok ()) => shareRange child parent (start + PAGE_SIZE) count w stock tlb
    | (w, stock, tlb, .error err) => (w, stock, tlb, .error err)

/-! ## the teardown -/

def freeEntry (release : World → Bits → World) (phys : Phys) (w : World) (index : Fin ENTRIES) :
    World :=
  let bits := w.mem phys index
  if !M.present bits then w else (release w bits).store phys index 0

/-- release every frame the table reaches, then the table; a table of level 1 holds leaves -/
def freeTable : Nat → World → Phys → World
  | 0, w, _ => w
  | level + 1, w, phys =>
    ((List.finRange ENTRIES).foldl
      (freeEntry M (fun w bits =>
        if level == 0 || M.endsWalk bits (level + 1) then w.free (M.addr bits)
        else freeTable level w (M.addr bits)) phys) w).free phys

/-- take descriptors out of the top table, and say what they held -/
def detach (root : Phys) : List (Fin ENTRIES) → World → World × List Bits
  | [], w => (w, [])
  | index :: rest, w =>
    let bits := w.mem root index
    let w := if M.present bits then w.store root index 0 else w
    match detach root rest w with
    | (w, detached) => (w, bits :: detached)

def freeDetached (bits : Bits) : World :=
  if M.present bits && !M.endsWalk bits 3 then freeTable M 3 w (M.addr bits) else w

def topsBelow (limit : Nat) : List (Fin ENTRIES) :=
  (List.finRange ENTRIES).take (limit / 2 ^ (PAGE_BITS + LEVEL_BITS * 3))

def freeBelow (limit : Nat) : World :=
  match detach M root (topsBelow limit) w with
  | (w, detached) => detached.foldl (freeDetached M) w.flushAll

end Tables
end ClaudeOs.Mm
