import ClaudeOs.Mm.Walk

/-!
# An address space under its lock

`MmGuard` of `mm::space`: the tables of one address space while its lock is held, the translations
the changes made under it have left behind, and the frames that wait for those to go.  A frame a
descriptor held goes back to the allocator from `flush` only, after the invalidation.

* `Guard`  the guard; `Guard.flush`, `Guard.retire` the order that keeps a frame back;
* `Guard.unmap`  and the other changes, each with what it hands back;
* `breakCow`  the private copy that a write to a shared page needs.
-/

namespace ClaudeOs.Mm

/-- the most frames one guard holds back before it invalidates and releases them -/
def RETIRED_MAX : Nat := 32

def USER_LIMIT : Nat := 0x0000800000000000

/-- the locked address space whose top table is `root` -/
structure Guard where
  w : World
  root : Phys
  tlb : Tlb
  retired : List Phys

/-- a page with its contents in it, and frames for the tables the walk to it may have to create -/
structure Prepared where
  page : Phys
  tables : TableStock

def pageAlignDown (virt : Nat) : Nat := virt / PAGE_SIZE * PAGE_SIZE
def pageAlignUp (value : Nat) : Nat := (value + (PAGE_SIZE - 1)) / PAGE_SIZE * PAGE_SIZE

namespace Guard
variable (M : Machine)

def lock (w : World) (root : Phys) : Guard := ⟨w, root, .clean, []⟩

variable (g : Guard) (virt : Nat)

/-- throw away the translations left behind, then give back the frames that waited on that -/
def flush : Guard :=
  ⟨g.retired.foldl World.free (g.tlb.flush g.w), g.root, .clean, []⟩

/-- hold frames no table names any more until the invalidation -/
def retire (stale : List Phys) : Guard :=
  let g := if g.retired.length + stale.length > RETIRED_MAX then g.flush else g
  ⟨g.w, g.root, g.tlb, g.retired ++ stale⟩

/-- put a prepared page in; a refusal leaves the page with the caller -/
def publish (prepared : Prepared) (flags : Bits) : Guard × TableStock × Except Refused Phys :=
  match Tables.publish M g.w g.root virt prepared.page flags prepared.tables g.tlb with
  | (w, stock, tlb, .ok ()) => (⟨w, g.root, tlb, g.retired⟩, stock, .ok prepared.page)
  | (w, stock, tlb, .error .shortOfTables) =>
    (⟨w, g.root, tlb, g.retired⟩, stock, .error .shortOfTables)
  | (w, stock, tlb, .error _) => (⟨w, g.root, tlb, g.retired⟩, stock, .error .occupied)

/-- put a frame in over what is mapped; what the descriptor held, or the frame back -/
def replace (frame : Phys) (flags : Bits) : Guard × Option (List Phys) :=
  match Tables.replace M g.w g.root virt frame flags g.tlb with
  | (w, tlb, old) => (⟨w, g.root, tlb, g.retired⟩, old.map fun phys => [phys])

def protect (flags : Bits) : Guard × Option Phys :=
  match Tables.protect M g.w g.root virt flags g.tlb with
  | (w, tlb, old) => (⟨w, g.root, tlb, g.retired⟩, old)

/-- take the mapping away: the page's frame, and the tables that left empty -/
def unmap : Guard × Option (List Phys) :=
  match Tables.unmap M g.w g.root virt g.tlb .empty with
  | (w, tlb, reclaimed, old) =>
    (⟨w, g.root, tlb, g.retired⟩, old.map fun phys => phys :: reclaimed.frames)

/-- the lock let go: nothing leaves it half done -/
def drop : World := g.flush.w

end Guard

/-! ## the private copy -/

def giveBack (w : World) : Option Phys → World
  | some phys => w.free phys
  | none => w

/-- the flags of a page whose sharing has been broken -/
def unshared (M : Machine) (flags : Bits) : Bits := (flags &&& ~~~M.cowBit) ||| M.writableBit

/-- the copy of a page shared with others: its contents into `copy`, and `copy` in its place -/
def copyPage (M : Machine) (w : World) (root : Phys) (page : Nat) (phys copy : Phys)
    (flags : Bits) : World × Bool :=
  let g := Guard.lock (w.fill copy (w.mem phys)) root
  match Guard.replace M g page copy (unshared M flags) with
  | (g, some stale) => ((g.retire stale).drop, true)
  | (g, none) => ((g.drop).free copy, false)

/-- a private copy of the shared page at `addr`, in the frame `spare` -/
def breakCow (M : Machine) (w : World) (root : Phys) (addr : Nat) (spare : Option Phys) :
    World × Bool :=
  let page := pageAlignDown addr
  match Tables.flagsOf M w root page with
  | none => (giveBack w spare, false)
  | some flags =>
    if !has flags M.cowBit then
      -- a sibling may have taken the copy already; the permissions say whether a write can be made
      (giveBack w spare, has flags M.writableBit && has flags M.userBit)
    else
      match (Tables.translate M w root page).map (· &&& ~~~(0xFFF : Phys)) with
      | none => (giveBack w spare, false)
      | some phys =>
        if w.references phys ≤ 1 then
          -- the last owner takes the page back
          match Guard.protect M (Guard.lock w root) page (unshared M flags) with
          | (g, old) => (giveBack g.drop spare, old.isSome)
        else
          match spare with
          | none => (w, false)
          | some copy => copyPage M w root page phys copy flags

end ClaudeOs.Mm
