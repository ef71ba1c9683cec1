import ClaudeOs.Fat.Cache

/-!
# Where things are on a volume

`storage::fat::boot`, and the errors and little-endian fields of `storage::fat`.  A boot sector that
`parse` accepts gives a layout in which every cluster number of the volume is a position inside it and
has an entry in every copy of the FAT.

* `FsError`  what an operation fails with;
* `le16`, `put16`  fields of an on-card structure;
* `Layout`  where the FAT copies and the clusters are;
* `parse`  the layout of a boot sector, or why the volume is not mounted;
* `Layout.Sound`  what `parse` has checked;
* `parse_places`  so everything is inside the partition, and nothing is over anything else.
-/

namespace ClaudeOs.Fat
open List Option Nat

inductive FsError where
  | NotFound | Exists | NotDir | IsDir | NotEmpty | NoSpace | NameTooLong | BadName | TooBig | Invalid
  | Io | Corrupt | ReadOnly
deriving DecidableEq, Repr

/-! ## fields -/

section
variable (bytes : List Byte) (pos : Nat)

def le16 : Nat :=
  match bytes[pos]?, bytes[pos + 1]? with
  | some a, some b => a.toNat + b.toNat * 2 ^ 8
  | _, _ => 0

def le32 : Nat :=
  match bytes[pos]?, bytes[pos + 1]?, bytes[pos + 2]?, bytes[pos + 3]? with
  | some a, some b, some c, some d =>
    a.toNat + b.toNat * 2 ^ 8 + c.toNat * 2 ^ 16 + d.toNat * 2 ^ 24
  | _, _, _, _ => 0

def put8 (value : Byte) : List Byte := bytes.set pos value
def leBytes16 (value : Nat) : List Byte := [UInt8.ofNat value, UInt8.ofNat (value / 2 ^ 8)]

def leBytes32 (value : Nat) : List Byte :=
  [UInt8.ofNat value, UInt8.ofNat (value / 2 ^ 8), UInt8.ofNat (value / 2 ^ 16),
    UInt8.ofNat (value / 2 ^ 24)]

def putAll (bytes : List Byte) (pos : Nat) : List Byte → List Byte
  | [] => bytes
  | b :: rest => putAll (put8 bytes pos b) (pos + 1) rest

def put16 (value : Nat) : List Byte := putAll bytes pos (leBytes16 value)
def put32 (value : Nat) : List Byte := putAll bytes pos (leBytes32 value)

end

/-! ## the layout -/

def MIN_CLUSTERS : Nat := 65525
def MAX_CLUSTERS : Nat := 0x0FFFFFF5

structure Layout where
  sectors : Nat
  clusterBlocks : Nat
  clusterBytes : Nat
  fatStart : Nat
  fatBlocks : Nat
  fats : Nat
  /-- the first sector of cluster 2 -/
  dataStart : Nat
  /-- data clusters, numbered from 2 -/
  clusters : Nat
  rootCluster : Nat
  fsinfo : Option Nat
  /-- nothing when every FAT copy is kept the same, or the one copy in use -/
  activeFat : Option Nat
deriving DecidableEq, Repr

namespace Layout
variable (l : Layout)

/-- whether `cluster` names a data cluster -/
def isCluster (cluster : Nat) : Bool := decide (2 ≤ cluster) && decide (cluster - 2 < l.clusters)

def clusterOffset (cluster : Nat) : Option Nat :=
  if l.isCluster cluster then some ((l.dataStart + (cluster - 2) * l.clusterBlocks) * BLOCK) else none

def fatOffset (copy entry : Nat) : Nat := (l.fatStart + copy * l.fatBlocks) * BLOCK + entry * 4

end Layout

/-! ## the boot sector -/

def hex (digits n : Nat) : String :=
  "0x" ++ String.ofList (replicate (digits - (toDigits 16 n).length) '0' ++ toDigits 16 n)

section
variable (sector : List Byte)

def byteAt (pos : Nat) : Nat := (sector[pos]?.getD 0).toNat
def isPowerOfTwo (n : Nat) : Bool := decide (2 ^ log2 n = n)

/-- the layout from the boot sector of a partition of `blocks` sectors, or why it is not mounted -/
def parse (blocks : Nat) : Except String Layout :=
  if (sector.drop 510).take 2 ≠ [0x55, 0xAA] then
    .error "the volume's boot sector has no 55 AA signature"
  else if (sector.drop 3).take 8 = [0x45, 0x58, 0x46, 0x41, 0x54, 0x20, 0x20, 0x20] then
    .error "the volume is exFAT, and only FAT32 is mounted"
  else
    let sectorSize := le16 sector 11
    let perCluster := byteAt sector 13
    let reserved := le16 sector 14
    let fats := byteAt sector 16
    let rootEntries := le16 sector 17
    let sectors16 := le16 sector 19
    let media := byteAt sector 21
    let fat16 := le16 sector 22
    let sectors32 := le32 sector 32
    let fat32 := le32 sector 36
    let extFlags := le16 sector 40
    let version := le16 sector 42
    let rootCluster := le32 sector 44
    let fsinfo := le16 sector 48
    if sectorSize ≠ BLOCK then
      .error ("the volume's sectors are " ++ toString sectorSize ++ " bytes, and only 512 is read")
    else if perCluster = 0 || !isPowerOfTwo perCluster then
      .error ("the boot sector gives " ++ toString perCluster ++ " sectors per cluster")
    else if reserved = 0 then .error "the boot sector gives no reserved sectors"
    else if ¬ (1 ≤ fats ∧ fats ≤ 2) then
      .error ("the boot sector gives " ++ toString fats ++ " FATs, where 1 or 2 are mounted")
    else
      let fatSize := if fat16 ≠ 0 then fat16 else fat32
      let total := if sectors16 ≠ 0 then sectors16 else sectors32
      let rootSectors := (rootEntries * 32 + BLOCK - 1) / BLOCK
      let dataStart := reserved + fats * fatSize + rootSectors
      let clusters := (total - dataStart) / perCluster
      if rootEntries ≠ 0 ∨ fat16 ≠ 0 ∨ sectors16 ≠ 0 ∨ clusters < MIN_CLUSTERS then
        let kind := if clusters < 4085 then "FAT12"
          else if clusters < MIN_CLUSTERS then "FAT16" else "FAT12 or FAT16 in its fields"
        .error ("the volume is " ++ kind ++ " (" ++ toString clusters ++
          " clusters), and only FAT32 is mounted")
      else if media ≠ 0xF0 ∧ media < 0xF8 then
        .error ("the boot sector's media byte " ++ hex 2 media ++ " is not one FAT defines")
      else if version ≠ 0 then
        .error ("the volume is FAT32 version " ++ hex 4 version ++ ", and only version 0 is defined")
      else if fat32 = 0 then .error "the boot sector gives a FAT of no sectors"
      else if blocks < total then
        .error ("the boot sector claims " ++ toString total ++ " sectors and the partition has " ++
          toString blocks)
      else if total ≤ dataStart then .error "the boot sector's FATs do not fit in the volume"
      else if MAX_CLUSTERS < clusters then
        .error (toString clusters ++ " clusters is more than FAT32 can number")
      else if fat32 * (BLOCK / 4) < clusters + 2 then
        .error ("a FAT of " ++ toString fat32 ++ " sectors does not have entries for " ++
          toString clusters ++ " clusters")
      else if rootCluster < 2 ∨ clusters + 2 ≤ rootCluster then
        .error ("the root directory's cluster " ++ toString rootCluster ++ " is not in the volume")
      else
        let activeFat := if extFlags.testBit 7 then some (extFlags % 16) else none
        if activeFat.any (fats ≤ ·) then
          .error ("the boot sector makes FAT " ++ toString (extFlags % 16) ++
            " the only active one, and there are " ++ toString fats)
        else
          .ok {
            sectors := total
            clusterBlocks := perCluster
            clusterBytes := perCluster * BLOCK
            fatStart := reserved
            fatBlocks := fat32
            fats := fats
            dataStart := dataStart
            clusters := clusters
            rootCluster := rootCluster
            fsinfo := if 1 ≤ fsinfo ∧ fsinfo < reserved then some fsinfo else none
            activeFat := activeFat }

/-! ## what the checks give -/

/-- where a volume of `blocks` blocks has its FAT copies and clusters, as `parse` checks it -/
structure Layout.Sound (l : Layout) (blocks : Nat) : Prop where
  clusterBytes : l.clusterBytes = l.clusterBlocks * BLOCK
  clusterBlocks : 0 < l.clusterBlocks
  clusterBlocks_le : l.clusterBlocks ≤ 255
  fatStart : 0 < l.fatStart
  fats : 0 < l.fats
  fats_le : l.fats ≤ 2
  fatBlocks : l.fatBlocks < 2 ^ 32
  dataStart : l.dataStart = l.fatStart + l.fats * l.fatBlocks
  inside : l.dataStart + l.clusters * l.clusterBlocks ≤ l.sectors
  sectors : l.sectors ≤ blocks
  sectors_lt : l.sectors < 2 ^ 32
  entries : l.clusters + 2 ≤ l.fatBlocks * (BLOCK / 4)
  clusters : MIN_CLUSTERS ≤ l.clusters
  clusters_le : l.clusters ≤ MAX_CLUSTERS
  root : l.isCluster l.rootCluster = true
  fsinfo : ∀ s, l.fsinfo = some s → 0 < s ∧ s < l.fatStart
  active : ∀ copy, l.activeFat = some copy → copy < l.fats

lemma le32_lt (bytes : List Byte) (pos : Nat) : le32 bytes pos < 2 ^ 32 := by
  rw [le32]
  split
  · next a b c d _ _ _ _ =>
    have ha := a.toNat_lt
    have hb := b.toNat_lt
    have hc := c.toNat_lt
    have hd := d.toNat_lt
    omega
  · decide

lemma byteAt_lt (bytes : List Byte) (pos : Nat) : byteAt bytes pos < 256 := UInt8.toNat_lt _

lemma passed {ε α : Type} {c : Prop} [Decidable c] {e : ε} {x : Except ε α} {a : α}
    (h : (if c then .error e else x) = .ok a) : ¬ c ∧ x = .ok a := by
  split at h
  · cases h
  · next hc => exact ⟨hc, h⟩

/-- **A layout that `parse` gives is checked.** -/
theorem parse_sound {sector : List Byte} {blocks : Nat} {l : Layout}
    (h : parse sector blocks = .ok l) : l.Sound blocks := by
  obtain ⟨-, h⟩ := passed h
  obtain ⟨-, h⟩ := passed h
  obtain ⟨-, h⟩ := passed h
  obtain ⟨hper, h⟩ := passed h
  obtain ⟨hres, h⟩ := passed h
  obtain ⟨hfats, h⟩ := passed h
  obtain ⟨hkind, h⟩ := passed h
  obtain ⟨-, h⟩ := passed h
  obtain ⟨-, h⟩ := passed h
  obtain ⟨-, h⟩ := passed h
  obtain ⟨hblocks, h⟩ := passed h
  obtain ⟨-, h⟩ := passed h
  obtain ⟨hmax, h⟩ := passed h
  obtain ⟨hent, h⟩ := passed h
  obtain ⟨hroot, h⟩ := passed h
  obtain ⟨hact, h⟩ := passed h
  simp only [not_or, Decidable.not_not, Nat.not_lt] at hkind hroot
  obtain ⟨hre, hf16, hs16, hmin⟩ := hkind
  have hzero : (0 * 32 + BLOCK - 1) / BLOCK = 0 := by decide
  simp only [hre, hf16, hs16, ne_eq, not_true_eq_false, if_false, hzero, Nat.add_zero]
    at h hmin hblocks hmax hent hroot
  have hper' := byteAt_lt sector 13
  have htot := le32_lt sector 32
  have hper0 : byteAt sector 13 ≠ 0 := fun h0 => hper (by rw [h0]; rfl)
  cases h
  exact {
    clusterBytes := rfl
    clusterBlocks := Nat.pos_of_ne_zero hper0
    clusterBlocks_le := Nat.le_of_lt_succ hper'
    fatStart := Nat.pos_of_ne_zero hres
    fats := (Decidable.not_not.mp hfats).1
    fats_le := (Decidable.not_not.mp hfats).2
    fatBlocks := le32_lt sector 36
    dataStart := rfl
    inside := by
      have hle := Nat.div_mul_le_self
        (le32 sector 32 - (le16 sector 14 + byteAt sector 16 * le32 sector 36)) (byteAt sector 13)
      have hpos := Nat.div_pos_iff.mp (Nat.lt_of_lt_of_le (by decide) hmin)
      simp only []
      omega
    sectors := Nat.le_of_not_lt hblocks
    sectors_lt := htot
    entries := Nat.le_of_not_lt hent
    clusters := hmin
    clusters_le := Nat.le_of_not_lt hmax
    root := by
      simp only [Layout.isCluster, Bool.and_eq_true, decide_eq_true_eq]
      omega
    fsinfo := by
      intro s hs
      simp only [] at hs
      split at hs
      · next hc =>
        cases hs
        exact hc
      · cases hs
    active := by
      intro copy hcopy
      simp only [] at hcopy
      rw [hcopy] at hact
      simpa using hact }

/-! ## where the parts of a volume are -/

/-- the bytes of the reserved sectors, of each copy of the FAT and of the clusters -/
def Layout.areas (l : Layout) : List (Nat × Nat) :=
  (0, l.fatStart * BLOCK) ::
    ((range l.fats).map fun copy => (l.fatOffset copy 0, l.fatOffset copy 0 + l.fatBlocks * BLOCK)) ++
    [(l.dataStart * BLOCK, (l.dataStart + l.clusters * l.clusterBlocks) * BLOCK)]

/-- the layout with each field cast to 32 bits, as it is kept -/
def Layout.kept (l : Layout) : Layout where
  sectors := l.sectors % 2 ^ 32
  clusterBlocks := l.clusterBlocks % 2 ^ 32
  clusterBytes := l.clusterBytes % 2 ^ 32
  fatStart := l.fatStart % 2 ^ 32
  fatBlocks := l.fatBlocks % 2 ^ 32
  fats := l.fats % 2 ^ 32
  dataStart := l.dataStart % 2 ^ 32
  clusters := l.clusters % 2 ^ 32
  rootCluster := l.rootCluster % 2 ^ 32
  fsinfo := l.fsinfo.map (· % 2 ^ 32)
  activeFat := l.activeFat.map (· % 2 ^ 32)

/-- the products and sums of `parse`, which it makes in 64 bits -/
def parseWords : List Nat :=
  let fatSize := if le16 sector 22 ≠ 0 then le16 sector 22 else le32 sector 36
  let rootBytes := le16 sector 17 * 32
  let dataStart := le16 sector 14 + byteAt sector 16 * fatSize + (rootBytes + BLOCK - 1) / BLOCK
  [rootBytes, byteAt sector 16 * fatSize, dataStart, byteAt sector 13 * BLOCK,
    le32 sector 36 * (BLOCK / 4), (le32 sector 32 - dataStart) / byteAt sector 13 + 2]

structure Layout.Placed (l : Layout) (blocks : Nat) : Prop where
  inside : l.sectors ≤ blocks
  words : l.sectors * BLOCK < 2 ^ 64
  areas : l.areas.Pairwise fun a b => a.2 ≤ b.1
  within : ∀ a ∈ l.areas, a.2 ≤ l.sectors * BLOCK
  entry : ∀ copy < l.fats, ∀ e < l.clusters + 2, l.fatOffset copy 0 ≤ l.fatOffset copy e ∧
    l.fatOffset copy e + 4 ≤ l.fatOffset copy 0 + l.fatBlocks * BLOCK
  cluster : ∀ c, 2 ≤ c → c < l.clusters + 2 → ∃ at_, l.clusterOffset c = some at_ ∧
    l.dataStart * BLOCK ≤ at_ ∧
    at_ + l.clusterBytes ≤ (l.dataStart + l.clusters * l.clusterBlocks) * BLOCK
  root : 2 ≤ l.rootCluster ∧ l.rootCluster < l.clusters + 2

namespace Layout
variable {l : Layout} {blocks : Nat}

lemma fatOffset_zero (copy : Nat) :
    l.fatOffset copy 0 = (l.fatStart + copy * l.fatBlocks) * BLOCK := add_zero _

lemma fatOffset_le {copy n : Nat} (h : copy < n) :
    l.fatOffset copy 0 + l.fatBlocks * BLOCK ≤ (l.fatStart + n * l.fatBlocks) * BLOCK := by
  rw [fatOffset_zero, ← Nat.add_mul, Nat.add_assoc, ← Nat.succ_mul]
  exact Nat.mul_le_mul_right _ (Nat.add_le_add_left (Nat.mul_le_mul_right _ h) _)

section
variable (h : l.Sound blocks)
include h

lemma Sound.areas_apart : l.areas.Pairwise fun a b => a.2 ≤ b.1 := by
  have hfat (n : Nat) : l.fatStart * BLOCK ≤ (l.fatStart + n * l.fatBlocks) * BLOCK :=
    mul_le_mul_right _ (le_add_right _ _)
  simp only [areas, h.dataStart, fatOffset_zero]
  refine pairwise_cons.mpr ⟨fun b hb => ?_, pairwise_append.mpr
    ⟨?_, pairwise_singleton .., fun a ha b hb => ?_⟩⟩
  · rcases mem_append.mp hb with hb | hb
    · obtain ⟨copy, -, rfl⟩ := mem_map.mp hb
      exact hfat copy
    · rw [mem_singleton.mp hb]
      exact hfat l.fats
  · refine pairwise_map.mpr (pairwise_lt_range.imp fun hlt => ?_)
    rw [← fatOffset_zero]
    exact fatOffset_le hlt
  · obtain ⟨copy, hcopy, rfl⟩ := mem_map.mp ha
    rw [mem_singleton.mp hb, ← fatOffset_zero]
    exact fatOffset_le (mem_range.mp hcopy)

lemma Sound.areas_within : ∀ a ∈ l.areas, a.2 ≤ l.sectors * BLOCK := by
  have hdata : l.dataStart ≤ l.sectors := le_trans (le_add_right _ _) h.inside
  intro a ha
  rcases mem_cons.mp ha with rfl | ha
  · have hfat := h.dataStart
    exact mul_le_mul_right _ (by omega)
  · rcases mem_append.mp ha with ha | ha
    · obtain ⟨copy, hcopy, rfl⟩ := mem_map.mp ha
      refine le_trans (fatOffset_le (mem_range.mp hcopy)) ?_
      rw [← h.dataStart]
      exact mul_le_mul_right _ hdata
    · rw [mem_singleton.mp ha]
      exact mul_le_mul_right _ h.inside

lemma Sound.cluster {c : Nat} (hlow : 2 ≤ c) (hc : c < l.clusters + 2) :
    ∃ at_, l.clusterOffset c = some at_ ∧ l.dataStart * BLOCK ≤ at_ ∧
      at_ + l.clusterBytes ≤ (l.dataStart + l.clusters * l.clusterBlocks) * BLOCK := by
  have his : l.isCluster c = true := by
    simp only [isCluster, Bool.and_eq_true, decide_eq_true_eq]
    omega
  refine ⟨_, if_pos his, Nat.mul_le_mul_right _ (Nat.le_add_right _ _), ?_⟩
  rw [h.clusterBytes, ← Nat.add_mul, Nat.add_assoc, ← Nat.succ_mul]
  exact Nat.mul_le_mul_right _ (Nat.add_le_add_left (Nat.mul_le_mul_right _ (by omega)) _)

lemma Sound.placed : l.Placed blocks where
  inside := h.sectors
  words := by
    have hlt := h.sectors_lt
    simp only [BLOCK]
    omega
  areas := h.areas_apart
  within := h.areas_within
  entry copy _ e he := by
    have hroom := h.entries
    simp only [fatOffset, BLOCK] at *
    omega
  cluster _ hlow hc := h.cluster hlow hc
  root := by
    have hroot := h.root
    simp only [isCluster, Bool.and_eq_true, decide_eq_true_eq] at hroot
    omega

lemma Sound.kept_eq : l.kept = l := by
  have hlt := h.sectors_lt
  have hin := h.inside
  have hdata := h.dataStart
  have hper := h.clusterBlocks_le
  have hmax := h.clusters_le
  have hbytes := h.clusterBytes
  have hfats := h.fats_le
  have hfat := h.fatBlocks
  have hroot := h.placed.root
  have hfsinfo : l.fsinfo.map (· % 2 ^ 32) = l.fsinfo := by
    refine (map_congr fun s hs => mod_eq_of_lt ?_).trans map_id'
    have := h.fsinfo s hs
    omega
  have hactive : l.activeFat.map (· % 2 ^ 32) = l.activeFat := by
    refine (map_congr fun copy hcopy => mod_eq_of_lt ?_).trans map_id'
    have := h.active copy hcopy
    omega
  simp only [BLOCK, MAX_CLUSTERS] at *
  rw [kept, hfsinfo, hactive]
  congr 1 <;> exact mod_eq_of_lt (by omega)

end
end Layout

lemma le16_lt (bytes : List Byte) (pos : Nat) : le16 bytes pos < 2 ^ 16 := by
  rw [le16]
  split
  · next a b _ _ =>
    have ha := a.toNat_lt
    have hb := b.toNat_lt
    omega
  · decide

lemma parseWords_lt : ∀ n ∈ parseWords sector, n < 2 ^ 64 := by
  have h14 := le16_lt sector 14
  have h17 := le16_lt sector 17
  have h32 := le32_lt sector 32
  have h36 := le32_lt sector 36
  have h13 := byteAt_lt sector 13
  have hsize : (if le16 sector 22 ≠ 0 then le16 sector 22 else le32 sector 36) ≤ 2 ^ 32 := by
    have h22 := le16_lt sector 22
    split <;> omega
  have hfats := mul_le_mul (le_of_lt (byteAt_lt sector 16)) hsize
  intro n hn
  simp only [parseWords, mem_cons, not_mem_nil, or_false] at hn
  generalize byteAt sector 16 * _ = fats at hn hfats
  generalize hdata : le16 sector 14 + fats + _ = dataStart at hn
  have hclusters := div_le_self (le32 sector 32 - dataStart) (byteAt sector 13)
  simp only [BLOCK] at hn hdata
  rcases hn with rfl | rfl | rfl | rfl | rfl | rfl <;> omega

end

/-- **a mounted volume is inside the partition**: its parts are apart, each FAT copy has an entry
for each cluster, and no cast or product loses anything -/
theorem parse_places {sector : List Byte} {blocks : Nat} {l : Layout}
    (h : parse sector blocks = .ok l) :
    l.Placed blocks ∧ l.kept = l ∧ ∀ n ∈ parseWords sector, n < 2 ^ 64 :=
  ⟨(parse_sound h).placed, (parse_sound h).kept_eq, parseWords_lt sector⟩

def smallVolume : List Byte :=
  let sector := putAll (replicate 512 0) 510 [0x55, 0xAA]
  let sector := put8 (put8 (put16 (put16 sector 11 512) 14 32) 13 1) 16 2
  put32 (put32 (put32 (put8 sector 21 0xF8) 32 67000) 36 520) 44 2

/-- a volume of 67000 blocks in a partition of 70000 -/
theorem parse_places_smallVolume :
    ∃ l, parse smallVolume 70000 = .ok l ∧ l.clusters = 65928 ∧ l.Placed 70000 := by
  have hok : (parse smallVolume 70000).toOption.map Layout.clusters = some 65928 := by decide +kernel
  rcases hparse : parse smallVolume 70000 with _ | l
  · rw [hparse] at hok
    cases hok
  · rw [hparse] at hok
    exact ⟨l, rfl, some.inj hok, (parse_places hparse).1⟩

end ClaudeOs.Fat
