import ClaudeOs.Lib.Bytes
import ClaudeOs.Elf.Headers

/-!
# The image a program file is loaded as

The second half of `elf::load_at`.  The pages that have more than one source are assembled before they
are mapped; the rest are left to the faults, which find the file through the record of regions.

* `pageFlags`, `eager`  what each page may be used for, and the pages that are assembled;
* `pieces`, `gather`  the copies into them, in order;
* `publish`  the assembled pages go into the address space;
* `LoadedImage`, `loadAt`  what the loader hands back, and the whole of it;
* `recorded`, `touch`  the regions as `exec` records them, and the page a program finds at an
  address: mapped already, or filled by the fault.
-/

namespace ClaudeOs.Elf
open Mm Mem

/-! ## pages with more than one source -/

def addFlags (flags : Nat) (map : Nat → Option Nat) (page : Nat) : Nat → Option Nat := fun p =>
  if p = page then some ((map page).getD 0 ||| flags) else map p

section
variable (loads : List Load)

def pageFlags : Nat → Option Nat :=
  loads.foldl (fun map l => (l.extent.pagesFrom l.extent.start).foldl (addFlags l.ph.pFlags) map)
    fun _ => none

def imagePages : List Nat :=
  ((loads.flatMap fun l => l.extent.pagesFrom l.extent.start).dedup).insertionSort (· ≤ ·)

def Load.edges (l : Load) : List Nat :=
  l.extent.start :: l.extent.pagesFrom (pageAlignDown l.extent.fileEnd)

def seePage (index : Nat) (found : (Nat → Option Nat) × List Nat) (page : Nat) :
    (Nat → Option Nat) × List Nat :=
  (fun p => if p = page then some index else found.1 p, match found.1 page with
    | some other => if other ≠ index then page :: found.2 else found.2
    | none => found.2)

def sharedPages : List Nat :=
  (loads.foldl (fun found l => (l.extent.pagesFrom l.extent.start).foldl (seePage l.index) found)
    (fun _ => none, [])).2

/-- the pages that cannot be left to a fault, in order -/
def eager : List Nat :=
  ((loads.flatMap Load.edges ++ sharedPages loads).dedup).insertionSort (· ≤ ·)

/-! ## their contents -/

abbrev Page := Nat → UInt8

structure Piece where
  off : Nat
  page : Nat
  into : Nat
  len : Nat
  deriving DecidableEq

/-- the copies of a segment from `offset` on, each up to the end of a page and of a byte at least -/
def Extent.pieces (e : Extent) : (fuel offset : Nat) → List Piece
  | 0, _ => []
  | fuel + 1, offset =>
    if offset < e.fileLen then
      let address := e.vaddr + offset
      let page := pageAlignDown address
      let chunk := min (page + PAGE_SIZE - address) (e.fileLen - offset)
      ⟨e.fileOffset + offset, page, address - page, chunk⟩ :: e.pieces fuel (offset + chunk)
    else []

def copies : List Piece :=
  (loads.flatMap fun l => l.extent.pieces l.extent.fileLen 0).filter fun piece =>
    decide (piece.page ∈ eager loads)

end

def fillPiece (piece : Piece) (bytes : List UInt8) (fresh : Nat → Page) : Nat → Page := fun page =>
  if page = piece.page then Bytes.store (fresh page) piece.into bytes else fresh page

def gatherPiece (node : Node) (fresh : Nat → Page) (piece : Piece) : Except Refusal (Nat → Page) := do
  let bytes ← readInto node piece.off piece.len
  return fillPiece piece bytes fresh

def gather (node : Node) (pieces : List Piece) : Except Refusal (Nat → Page) :=
  pieces.foldlM (gatherPiece node) fun _ _ => 0

/-! ## into the address space -/

def pageBits (M : Machine) (write execute : Bool) : Bits :=
  M.presentBit ||| M.userBit ||| (if write then M.writableBit else 0) |||
    (if execute then 0 else M.noExecuteBit)

def flagBits (M : Machine) (flags : Nat) : Bits :=
  pageBits M (flags.testBit PF_W) (flags.testBit PF_X)

abbrev Space := Nat → Option (Page × Bits)

/-- the frames there are for pages, and whether a page can get its tables -/
structure Memory where
  frames : Nat
  tables : Nat → Bool

def publishPage (mem : Memory) (space : Space) (page : Nat) (contents : Page) (bits : Bits) :
    Except Refusal Space :=
  if (space page).isSome ∨ mem.tables page = false then .error .ENOMEM
  else .ok fun p => if p = page then some (contents, bits) else space p

def publish (M : Machine) (mem : Memory) (loads : List Load) (fresh : Nat → Page) :
    Space → List Nat → Except Refusal Space
  | space, [] => .ok space
  | space, page :: pages =>
    if page ∈ eager loads then do
      let space ← publishPage mem space page (fresh page)
        (flagBits M ((pageFlags loads page).getD 0))
      publish M mem loads fresh space pages
    else publish M mem loads fresh space pages

/-! ## what the loader hands back -/

structure Segment where
  start : Nat
  stop : Nat
  prot : Bits
  file : FileMap

structure LoadedImage where
  entry : Nat
  phdrAddr : Nat
  phent : Nat
  phnum : Nat
  base : Nat
  /-- first page-aligned address past every loaded segment -/
  brkStart : Nat
  interp : Option (List UInt8)
  segments : List Segment

/-- the last `PT_PHDR` says where the table is in memory -/
def phdrEntry (base : Nat) (phdrs : List ProgramHeader) : Except Refusal Nat :=
  phdrs.foldlM (fun addr ph => if ph.pType = PT_PHDR then sum [base, ph.pVaddr] else .ok addr) 0

def phdrInside (phoff tableEnd : Nat) : List Load → Nat
  | [] => 0
  | l :: loads =>
    if l.ph.pOffset ≤ phoff ∧ tableEnd ≤ l.extent.fileOffset + l.extent.fileLen then
      l.extent.vaddr + (phoff - l.ph.pOffset)
    else phdrInside phoff tableEnd loads

def phdrAddr (h : Headers) (base : Nat) (loads : List Load) : Except Refusal Nat := do
  let addr ← phdrEntry base h.phdrs
  if addr = 0 then
    let tableEnd ← sum [h.head.phoff, h.head.phnum * h.head.phent]
    return phdrInside h.head.phoff tableEnd loads
  else return addr

/-- bytes that are text, without the zeros at their end -/
def pathOf (name : List UInt8) : Option (List UInt8) :=
  if (ByteArray.mk name.toArray).validateUTF8 then some (name.reverse.dropWhile (· == 0)).reverse
  else none

def noteHeader (node : Node) (base size : Nat) (interp : Option (List UInt8)) (ph : ProgramHeader) :
    Except Refusal (Option (List UInt8)) :=
  if ph.pType = PT_INTERP then do
    let stop ← sum [ph.pOffset, ph.pFilesz]
    if stop > size then .error .ENOEXEC
    else
      let name ← readInto node ph.pOffset (min ph.pFilesz 4096)
      return (pathOf name).or interp
  else if ph.pType = PT_TLS then do
    let _ ← sum [base, ph.pVaddr]
    return interp
  else .ok interp

def PROT_READ : Bits := 1

def protOf (flags : Nat) : Bits :=
  (if flags.testBit PF_R then PROT_READ else 0) ||| (if flags.testBit PF_W then PROT_WRITE else 0) |||
    (if flags.testBit PF_X then PROT_EXEC else 0)

/-- a segment as the region it will be; its file mapping is described from its page-aligned start -/
def Load.segment (ino : Nat) (l : Load) : Except Refusal Segment :=
  if l.extent.intoPage ≤ l.extent.fileOffset then
    .ok ⟨l.extent.start, l.extent.stop, protOf l.ph.pFlags,
      ⟨ino, l.extent.fileOffset - l.extent.intoPage, l.extent.fileLen + l.extent.intoPage⟩⟩
  else .error .panicked

structure Layout where
  headers : Headers
  base : Nat
  loads : List Load

/-- where everything goes; a relocatable image is put where the caller says -/
def Layout.of (headers : Headers) (baseOverride : Option Nat) : Except Refusal Layout := do
  let base := if headers.head.eType = ET_DYN then baseOverride.getD DYN_BASE else 0
  let loads ← collect base headers.head.size 0 0 headers.phdrs
  if loads = [] then .error .ENOEXEC else .ok ⟨headers, base, loads⟩

def Layout.image (L : Layout) (node : Node) : Except Refusal LoadedImage := do
  let phdrAddr ← phdrAddr L.headers L.base L.loads
  let interp ← L.headers.phdrs.foldlM (noteHeader node L.base L.headers.head.size) none
  let segments ← L.loads.mapM (Load.segment node.ino)
  let entry ← sum [L.base, L.headers.head.eEntry]
  return ⟨entry, phdrAddr, L.headers.head.phent, L.headers.head.phnum, L.base,
    L.loads.foldl (fun top l => max top l.extent.stop) 0, interp, segments⟩

def loadAt (M : Machine) (machine : Nat) (mem : Memory) (space : Space) (node : Node)
    (baseOverride : Option Nat) : Except Refusal (Space × LoadedImage) := do
  let headers ← Headers.read machine node
  let L ← Layout.of headers baseOverride
  if (eager L.loads).length > mem.frames then .error .ENOMEM
  else
    let fresh ← gather node (copies L.loads)
    let space ← publish M mem L.loads fresh space (imagePages L.loads)
    let image ← L.image node
    return (space, image)

/-! ## what a program finds -/

def MAP_PRIVATE : Bits := 2
def Segment.vma (s : Segment) : Vma := ⟨s.start, s.stop, s.prot, MAP_PRIVATE, some s.file⟩

def recorded (image : LoadedImage) : MemState :=
  ⟨image.segments.map Segment.vma, image.brkStart, image.brkStart, USER_MMAP_BASE⟩

def fill (node : Node) : Source → Option (Except Refusal Page)
  | .zero => some (.ok fun _ => 0)
  | .file _ offset want =>
    match readInto node offset want with
    | .ok bytes => some (.ok (Bytes.store (fun _ => 0) 0 bytes))
    | .error (.card _) => none
    | .error e => some (.error e)

def touch (M : Machine) (space : Space) (mem : MemState) (node : Node) (address : Nat) :
    Option (Page × Bits) :=
  match space (pageAlignDown address) with
  | some page => some page
  | none =>
    let s : AddressSpace := ⟨mem, fun _ => none⟩
    match (plan M s (pageAlignDown address) s).1 with
    | .ok (some plan) =>
      match fill node plan.source with
      | some (.ok page) => some (page, plan.flags)
      | _ => none
    | _ => none

end ClaudeOs.Elf
