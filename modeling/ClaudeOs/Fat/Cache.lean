import ClaudeOs.Lib.Bytes

/-!
# The blocks of a volume, and the cache in front of them

`storage::fat::cache`.  Requests are byte ranges; the device moves whole blocks.  A request for whole
blocks goes to the device, a smaller one goes through a slot that holds the block, and a write to a
slot reaches the device in `flush`, or when the cache is full of such slots.

The device is any type with the three operations of the trait `Blocks`; what it does is not fixed
here, and it may fail.

* `Cache.slot`  the slot of a block, with `victim` and `flush` to make room.
-/

namespace ClaudeOs.Fat
open Bytes

abbrev Byte := UInt8

def BLOCK : Nat := 512
def CACHE_BLOCKS : Nat := 8192
def DIRECT_MAX : Nat := 256
def U64 : Nat := 2 ^ 64

/-- a device of so many blocks, which may fail a read or a write -/
structure Blocks (D : Type) where
  count : D → Nat
  read : D → Nat → Nat → D × Option (List Byte)
  write : D → Nat → List Byte → D × Bool

inductive CacheError where
  | device
  | outOfRange
  | readOnly
deriving DecidableEq, Repr

structure Slot where
  block : Nat
  data : List Byte
  dirty : Bool
  /-- used since the eviction hand last passed -/
  used : Bool
deriving DecidableEq, Repr

def Slot.put (s : Slot) (within : Nat) (source : List Byte) : Slot :=
  { s with data := copyInto s.data within source, dirty := true }

structure Cache (D : Type) where
  blocks : D
  slots : List Slot
  index : Std.TreeMap Nat Nat
  hand : Nat
  writable : Bool

namespace Cache
variable {D : Type}

def new (blocks : D) : Cache D := ⟨blocks, [], ∅, 0, false⟩

section
variable (c : Cache D)

def setWritable (on : Bool) : Cache D := { c with writable := on }

def cachedIn (block count : Nat) : List (Nat × Nat) :=
  c.index.toList.filter fun e => block ≤ e.1 && e.1 < block + count

/-! ## eviction -/

/-- the hand moves on, at most so many times, to a clean slot not used since it last passed -/
def sweep : Nat → Cache D → Cache D × Option Nat
  | 0, c => (c, none)
  | n + 1, c =>
    let place := c.hand % c.slots.length
    let hand := (place + 1) % c.slots.length
    match c.slots[place]? with
    | none => ({ c with hand := hand }, none)
    | some s =>
      if s.dirty then sweep n { c with hand := hand }
      else if s.used then
        sweep n { c with hand := hand, slots := c.slots.set place { s with used := false } }
      else ({ c with hand := hand }, some place)

def victim : Cache D × Option Nat :=
  if c.slots.length = 0 then (c, none) else c.sweep (2 * c.slots.length)

def reuse (victim : Nat) (fresh : Slot) : Cache D × Except CacheError Nat :=
  match c.slots[victim]? with
  | none => (c, .error .device)
  | some old =>
    ({ c with
        index := (c.index.erase old.block).insert fresh.block victim
        slots := c.slots.set victim fresh }, .ok victim)

end

section
variable (B : Blocks D)

variable (c : Cache D) (block count : Nat)

def bytes : Nat := min (B.count c.blocks * BLOCK) (U64 - 1)

def check (offset len : Nat) : Bool :=
  decide (offset + len < U64) && decide (offset + len ≤ c.bytes B)

def deviceRead : Cache D × Except CacheError (List Byte) :=
  if block + count < U64 ∧ block + count ≤ B.count c.blocks then
    match B.read c.blocks block count with
    | (blocks, some buf) => ({ c with blocks := blocks }, .ok buf)
    | (blocks, none) => ({ c with blocks := blocks }, .error .device)
  else (c, .error .outOfRange)

def deviceWrite (data : List Byte) : Cache D × Except CacheError Unit :=
  if block + data.length / BLOCK < U64 ∧ block + data.length / BLOCK ≤ B.count c.blocks then
    match B.write c.blocks block data with
    | (blocks, true) => ({ c with blocks := blocks }, .ok ())
    | (blocks, false) => ({ c with blocks := blocks }, .error .device)
  else (c, .error .outOfRange)

/-! ## flushing -/

def dirtySlots : List (Nat × Nat) :=
  c.index.toList.filter fun e => (c.slots[e.2]?).any Slot.dirty

/-- the entries that follow `first` block by block, and the others -/
def splitRun (first : Nat) : Nat → List (Nat × Nat) → List (Nat × Nat) × List (Nat × Nat)
  | _, [] => ([], [])
  | count, e :: rest =>
    if e.1 ≠ first + count ∨ DIRECT_MAX ≤ count then ([], e :: rest)
    else
      let run := splitRun first (count + 1) rest
      (e :: run.1, run.2)

lemma splitRun_length (first count : Nat) (entries : List (Nat × Nat)) :
    (splitRun first count entries).2.length ≤ entries.length := by
  induction entries generalizing count with
  | nil => exact Nat.le_refl _
  | cons e rest ih =>
    rw [splitRun]
    split
    · exact Nat.le_refl _
    · exact Nat.le_succ_of_le (ih _)

def runBytes (run : List (Nat × Nat)) : List Byte :=
  run.flatMap fun e => (c.slots[e.2]?).elim [] Slot.data

def markClean (run : List (Nat × Nat)) : Cache D :=
  { c with
    slots := run.foldl (fun slots e => slots.modify e.2 fun s => { s with dirty := false }) c.slots }

def flushRuns (c : Cache D) : List (Nat × Nat) → Cache D × Except CacheError Unit
  | [] => (c, .ok ())
  | e :: rest =>
    let run := e :: (splitRun e.1 1 rest).1
    match c.deviceWrite B e.1 (c.runBytes run) with
    | (c, .error err) => (c, .error err)
    | (c, .ok ()) => flushRuns (c.markClean run) (splitRun e.1 1 rest).2
termination_by entries => entries.length
decreasing_by
  have := splitRun_length e.1 1 rest
  rw [List.length_cons]
  omega

def flush : Cache D × Except CacheError Unit := c.flushRuns B c.dirtySlots

/-! ## slots -/

/-- a slot to take: when all are written and not yet on the device, they are put there first -/
def room : Cache D × Except CacheError Nat :=
  match c.victim with
  | (c, some victim) => (c, .ok victim)
  | (c, none) =>
    match c.flush B with
    | (c, .error err) => (c, .error err)
    | (c, .ok ()) =>
      match c.victim with
      | (c, some victim) => (c, .ok victim)
      | (c, none) => (c, .error .device)

def load : Cache D × Except CacheError Nat :=
  match c.deviceRead B block 1 with
  | (c, .error err) => (c, .error err)
  | (c, .ok data) =>
    if c.slots.length < CACHE_BLOCKS then
      ({ c with
          slots := c.slots ++ [⟨block, data, false, true⟩]
          index := c.index.insert block c.slots.length }, .ok c.slots.length)
    else
      match c.room B with
      | (c, .error err) => (c, .error err)
      | (c, .ok victim) => c.reuse victim ⟨block, data, false, true⟩

def slot : Cache D × Except CacheError Nat :=
  match c.index[block]?.filter (· < c.slots.length) with
  | some place =>
    ({ c with slots := c.slots.modify place fun s => { s with used := true } }, .ok place)
  | none => c.load B block

/-! ## requests -/

section
variable (pos left : Nat)

def chunk : Nat :=
  if pos % BLOCK = 0 ∧ BLOCK ≤ left then min (left / BLOCK) DIRECT_MAX * BLOCK
  else min (BLOCK - pos % BLOCK) left

lemma chunk_pos {left : Nat} (h : 0 < left) : 0 < chunk pos left := by
  rw [chunk]
  split <;> simp only [BLOCK, DIRECT_MAX] at * <;> omega

lemma chunk_le : chunk pos left ≤ left := by
  rw [chunk]
  split <;> simp only [BLOCK, DIRECT_MAX] at * <;> omega

def overlay (part : List Byte) : List Byte :=
  (c.cachedIn block count).foldl (fun part e =>
    match c.slots[e.2]? with
    | some s =>
      if s.dirty = true ∧ (e.1 - block) * BLOCK + BLOCK ≤ part.length then
        copyInto part ((e.1 - block) * BLOCK) s.data
      else part
    | none => part) part

def readDirect : Cache D × Except CacheError (List Byte) :=
  match c.deviceRead B block count with
  | (c, .error err) => (c, .error err)
  | (c, .ok part) => (c, .ok (c.overlay block count part))

def readSlot (within n : Nat) : Cache D × Except CacheError (List Byte) :=
  match c.slot B block with
  | (c, .error err) => (c, .error err)
  | (c, .ok place) =>
    match c.slots[place]? with
    | none => (c, .error .outOfRange)
    | some s =>
      if within + n ≤ s.data.length then (c, .ok ((s.data.drop within).take n))
      else (c, .error .outOfRange)

def readPart : Cache D × Except CacheError (List Byte) :=
  if pos % BLOCK = 0 ∧ BLOCK ≤ left then
    c.readDirect B (pos / BLOCK) (min (left / BLOCK) DIRECT_MAX)
  else c.readSlot B (pos / BLOCK) (pos % BLOCK) (chunk pos left)

def readFrom (c : Cache D) (pos left : Nat) : Cache D × Except CacheError (List Byte) :=
  if left = 0 then (c, .ok [])
  else
    match c.readPart B pos left with
    | (c, .error err) => (c, .error err)
    | (c, .ok part) =>
      match readFrom c (pos + chunk pos left) (left - chunk pos left) with
      | (c, .error err) => (c, .error err)
      | (c, .ok rest) => (c, .ok (part ++ rest))
termination_by left
decreasing_by
  have := chunk_pos pos (Nat.pos_of_ne_zero ‹_›)
  omega

def readAt (offset len : Nat) : Cache D × Except CacheError (List Byte) :=
  if c.check B offset len then c.readFrom B offset len else (c, .error .outOfRange)

/-- what the device now holds replaces any cached copy, written in memory or not -/
def refresh (part : List Byte) : Cache D :=
  { c with
    slots := (c.cachedIn block count).foldl (fun slots e =>
      if (e.1 - block) * BLOCK + BLOCK ≤ part.length then
        slots.modify e.2 fun s =>
          { s with data := (part.drop ((e.1 - block) * BLOCK)).take BLOCK, dirty := false }
      else slots) c.slots }

def writeDirect (part : List Byte) : Cache D × Except CacheError Unit :=
  match c.deviceWrite B block part with
  | (c, .error err) => (c, .error err)
  | (c, .ok ()) => (c.refresh block (part.length / BLOCK) part, .ok ())

def writeSlot (within : Nat) (source : List Byte) : Cache D × Except CacheError Unit :=
  match c.slot B block with
  | (c, .error err) => (c, .error err)
  | (c, .ok place) =>
    match c.slots[place]? with
    | none => (c, .error .outOfRange)
    | some s =>
      if within + source.length ≤ s.data.length then
        ({ c with slots := c.slots.set place (s.put within source) }, .ok ())
      else (c, .error .outOfRange)

def writePart (data : List Byte) : Cache D × Except CacheError Unit :=
  if pos % BLOCK = 0 ∧ BLOCK ≤ data.length then
    c.writeDirect B (pos / BLOCK) (data.take (chunk pos data.length))
  else c.writeSlot B (pos / BLOCK) (pos % BLOCK) (data.take (chunk pos data.length))

end

def writeFrom (c : Cache D) (pos : Nat) (data : List Byte) : Cache D × Except CacheError Unit :=
  if data.length = 0 then (c, .ok ())
  else
    match c.writePart B pos data with
    | (c, .error err) => (c, .error err)
    | (c, .ok ()) => writeFrom c (pos + chunk pos data.length) (data.drop (chunk pos data.length))
termination_by data.length
decreasing_by
  have := chunk_pos pos (Nat.pos_of_ne_zero ‹_›)
  rw [List.length_drop]
  omega

def writeAt (offset : Nat) (data : List Byte) : Cache D × Except CacheError Unit :=
  if !c.writable then (c, .error .readOnly)
  else if c.check B offset data.length then c.writeFrom B offset data
  else (c, .error .outOfRange)

end
end Cache
end ClaudeOs.Fat
