import ClaudeOs.Fs.FdTable
import ClaudeOs.Mem.Turns

/-!
# The headers of a program file

The first half of `elf::load_at`: what is read out of the file before anything is mapped, and where
every segment lands.  Each number is taken from the file once, and sums of them are checked.

* `Node`, `readInto`  a file, and a read of a piece of it; an index past the end of the contents of
  a file in memory stops the machine;
* `Head`, `Headers`  the header of the file and the table of its segments;
* `Extent`  where one segment lands;
* `Load`, `collect`  the segments that are loaded, in the order of the table.
-/

namespace ClaudeOs.Elf
open Mm Mem

inductive Refusal where
  | ENOEXEC
  | ENOMEM
  | card (e : Fs.Fd.Errno)
  /-- an index past the end of a slice, or a difference below zero: the machine stops -/
  | panicked
  deriving DecidableEq

/-! ## the file -/

/-- a file with its contents as they are now; one on the data volume may fail a read of a range -/
structure Node where
  ino : Nat
  data : List UInt8
  stored : Bool
  fails : Nat → Nat → Option Fs.Fd.Errno

def readInto (node : Node) (off len : Nat) : Except Refusal (List UInt8) :=
  if node.stored then
    match node.fails off len with
    | some e => .error (.card e)
    | none => .ok ((node.data.drop off).take len)
  else if off ≤ node.data.length then .ok ((node.data.drop off).take len)
  else .error .panicked

lemma readInto_ok {node : Node} {off len : Nat} {bytes : List UInt8}
    (h : readInto node off len = .ok bytes) : bytes = (node.data.drop off).take len := by
  unfold readInto at h
  split at h
  · split at h
    · cases h
    · cases h
      rfl
  · split at h
    · cases h
      rfl
    · cases h

section
variable (data : List UInt8) (off : Nat)

def field (len : Nat) : Except Refusal (List UInt8) :=
  if off + len ≤ data.length then .ok ((data.drop off).take len) else .error .ENOEXEC

def fromLeBytes (bytes : List UInt8) : Nat := bytes.foldr (fun b rest => b.toNat + 256 * rest) 0
def rd16 : Except Refusal Nat := fromLeBytes <$> field data off 2
def rd32 : Except Refusal Nat := fromLeBytes <$> field data off 4
def rd64 : Except Refusal Nat := fromLeBytes <$> field data off 8

/-! ## headers -/

def ET_EXEC : Nat := 2
def ET_DYN : Nat := 3
def PT_LOAD : Nat := 1
def PT_INTERP : Nat := 3
def PT_PHDR : Nat := 6
def PT_TLS : Nat := 7
def PF_X : Nat := 0
def PF_W : Nat := 1
def PF_R : Nat := 2

/-- where a position-independent program goes, and where its interpreter -/
def DYN_BASE : Nat := 0x20000000
def INTERP_BASE : Nat := 0x70000000
def MAX_PHDR_BYTES : Nat := 65536
def MAX_IMAGE_PAGES : Nat := 64 * 1024

structure ProgramHeader where
  pType : Nat
  pFlags : Nat
  pOffset : Nat
  pVaddr : Nat
  pFilesz : Nat
  pMemsz : Nat
  pAlign : Nat
  deriving DecidableEq, Repr

def ProgramHeader.parse (base : Nat) : Except Refusal ProgramHeader := do
  let pType ← rd32 data base
  let pFlags ← rd32 data (base + 4)
  let pOffset ← rd64 data (base + 8)
  let pVaddr ← rd64 data (base + 16)
  let pFilesz ← rd64 data (base + 32)
  let pMemsz ← rd64 data (base + 40)
  let pAlign ← rd64 data (base + 48)
  return ⟨pType, pFlags, pOffset, pVaddr, pFilesz, pMemsz, pAlign⟩

end

def headOf (node : Node) : Except Refusal (List UInt8 × Nat) :=
  if node.data.length < 64 then .error .ENOEXEC
  else if node.stored then do
    let head ← readInto node 0 64
    if head.length < 64 then .error .ENOEXEC else .ok (head, node.data.length)
  else .ok (node.data.take 64, node.data.length)

/-- a 64-bit little-endian ELF for this machine, and which of the two kinds it is -/
def validate (machine : Nat) (head : List UInt8) : Except Refusal Nat := do
  if head.length < 64 ∨ head.take 4 ≠ [0x7F, 0x45, 0x4C, 0x46] then .error .ENOEXEC
  else if head[4]? ≠ some 2 ∨ head[5]? ≠ some 1 then .error .ENOEXEC
  else
    let eType ← rd16 head 16
    let eMachine ← rd16 head 18
    if eMachine ≠ machine then .error .ENOEXEC
    else if eType ≠ ET_EXEC ∧ eType ≠ ET_DYN then .error .ENOEXEC
    else .ok eType

def sum (values : List Nat) : Except Refusal Nat :=
  values.foldlM (fun total value =>
    if total + value < Call.WORD then .ok (total + value) else .error .ENOEXEC) 0

def pageUp (value : Nat) : Except Refusal Nat := pageAlignDown <$> sum [value, PAGE_SIZE - 1]

/-- what the header of the file says, before the table is read -/
structure Head where
  size : Nat
  eType : Nat
  eEntry : Nat
  phoff : Nat
  phent : Nat
  phnum : Nat
  deriving DecidableEq

def Head.of (machine : Nat) (head : List UInt8) (size : Nat) : Except Refusal Head := do
  let eType ← validate machine head
  let eEntry ← rd64 head 24
  let phoff ← rd64 head 32
  let phent ← rd16 head 54
  let phnum ← rd16 head 56
  if phent < 56 then .error .ENOEXEC
  else if phnum * phent > MAX_PHDR_BYTES then .error .ENOEXEC
  else
    let stop ← sum [phoff, phnum * phent]
    if stop > size then .error .ENOEXEC else .ok ⟨size, eType, eEntry, phoff, phent, phnum⟩

def Head.table (h : Head) (node : Node) : Except Refusal (List ProgramHeader) :=
  if node.stored then do
    let table ← readInto node h.phoff (h.phnum * h.phent)
    if table.length < h.phnum * h.phent then .error .ENOEXEC
    else (List.range h.phnum).mapM fun i => ProgramHeader.parse table (i * h.phent)
  else (List.range h.phnum).mapM fun i => ProgramHeader.parse node.data (h.phoff + i * h.phent)

structure Headers where
  head : Head
  phdrs : List ProgramHeader

def Headers.read (machine : Nat) (node : Node) : Except Refusal Headers := do
  let (bytes, size) ← headOf node
  let head ← Head.of machine bytes size
  let phdrs ← head.table node
  return ⟨head, phdrs⟩

/-! ## where the segments land -/

structure Extent where
  /-- the segment's first byte, and the page it falls in -/
  vaddr : Nat
  start : Nat
  /-- first page-aligned address past the segment -/
  stop : Nat
  fileOffset : Nat
  fileLen : Nat
  deriving DecidableEq

namespace Extent

def of (ph : ProgramHeader) (base fileSize : Nat) : Except Refusal Extent := do
  if ph.pFilesz > ph.pMemsz then .error .ENOEXEC
  else if ph.pOffset % PAGE_SIZE ≠ ph.pVaddr % PAGE_SIZE then .error .ENOEXEC
  else
    let fileStop ← sum [ph.pOffset, ph.pFilesz]
    if fileStop > fileSize then .error .ENOEXEC
    else
      let vaddr ← sum [base, ph.pVaddr]
      let memStop ← sum [vaddr, ph.pMemsz]
      let stop ← pageUp memStop
      if stop > USER_MMAP_BASE then .error .ENOMEM
      else .ok ⟨vaddr, pageAlignDown vaddr, stop, ph.pOffset, ph.pFilesz⟩

variable (e : Extent)

def pages : Nat := (e.stop - e.start) / PAGE_SIZE

/-- past the segment's bytes from the file; from here to `stop` is .bss -/
def fileEnd : Nat := e.vaddr + e.fileLen

def intoPage : Nat := e.vaddr - e.start

def pagesFrom (page : Nat) : List Nat :=
  (List.range ((e.stop - page) / PAGE_SIZE)).map fun i => page + i * PAGE_SIZE

end Extent

structure Load where
  index : Nat
  ph : ProgramHeader
  extent : Extent
  deriving DecidableEq

/-- where every segment lands; `pages` is how many pages those before take -/
def collect (base size : Nat) : (index pages : Nat) → List ProgramHeader → Except Refusal (List Load)
  | _, _, [] => .ok []
  | index, pages, ph :: phdrs =>
    if ph.pType ≠ PT_LOAD then collect base size (index + 1) pages phdrs
    else do
      let extent ← Extent.of ph base size
      if ph.pMemsz = 0 then collect base size (index + 1) pages phdrs
      else if pages + extent.pages > MAX_IMAGE_PAGES then .error .ENOMEM
      else
        let loads ← collect base size (index + 1) (pages + extent.pages) phdrs
        return ⟨index, ph, extent⟩ :: loads

end ClaudeOs.Elf
