import ClaudeOs.Elf.Image
import Mathlib.Data.List.Find

/-!
# The bytes a program finds in its image

An image is assembled by two mechanisms: the loader copies the pages that have more than one source, and
the faults fill the rest from the file.  Both are followed here to the byte at every address of a
segment.

* `Collected`  what the accepted segments satisfy;
* `pageFlags_testBit`  the flags of a page are those of its segments;
* `eq_index_of_not_shared` a page that is not assembled is in one segment;
* `filled_copies`  the assembled pages, byte by byte;
* `Accepted.plan_lazy`  what a fault is to put at the other pages;
* `specByte`, `Right`  what the file says is at an address;
* `image_right_iff`  the program finds that exactly when no .bss lies over a byte of an earlier
  segment;
* `hidden_byte_shows`  a file for which it does.
-/

namespace ClaudeOs.Elf
open Mm Mem List Nat

/-! ## accepted segments -/

variable {α β : Type} {base size page i machine address : Nat} {e : Extent} {ph : ProgramHeader}
  {loads : List Load} {phdrs : List ProgramHeader} {l l' : Load} {fresh : Nat → Page} {node : Node}
  {M : Machine} {space : Space} {mem : MemState}

lemma bind_ok {x : Except Refusal α} {f : α → Except Refusal β} {b : β} (h : (x >>= f) = .ok b) :
    ∃ a, x = .ok a ∧ f a = .ok b := by
  cases x with
  | error e => cases h
  | ok a => exact ⟨a, rfl, h⟩

lemma sum_pair {a b c : Nat} (h : sum [a, b] = .ok c) : c = a + b ∧ a + b < Call.WORD := by
  have hsum : sum [a, b] =
      (if 0 + a < Call.WORD then Except.ok (0 + a) else .error Refusal.ENOEXEC) >>= fun total =>
        (if total + b < Call.WORD then Except.ok (total + b) else .error .ENOEXEC) >>= fun total =>
          .ok total := rfl
  rw [hsum] at h
  obtain ⟨first, hfirst, h⟩ := bind_ok h
  obtain ⟨second, hsecond, h⟩ := bind_ok h
  split at hfirst
  · cases hfirst
    split at hsecond
    · cases hsecond
      cases h
      rw [zero_add] at *
      exact ⟨rfl, ‹_›⟩
    · cases hsecond
  · cases hfirst

lemma pageUp_ok {value r : Nat} (h : pageUp value = .ok r) : r = pageAlignUp value := by
  unfold pageUp at h
  cases hs : sum [value, PAGE_SIZE - 1] with
  | error e => rw [hs] at h; cases h
  | ok total =>
    rw [hs] at h
    cases h
    rw [(sum_pair hs).1]
    rfl

structure Extent.Fits (e : Extent) (ph : ProgramHeader) (base size : Nat) : Prop where
  vaddr : e.vaddr = base + ph.pVaddr
  start : e.start = pageAlignDown (base + ph.pVaddr)
  stop : e.stop = pageAlignUp (base + ph.pVaddr + ph.pMemsz)
  fileOffset : e.fileOffset = ph.pOffset
  fileLen : e.fileLen = ph.pFilesz
  inside : ph.pFilesz ≤ ph.pMemsz
  inFile : ph.pOffset + ph.pFilesz ≤ size
  word : ph.pOffset + ph.pFilesz < Call.WORD
  aligned : ph.pOffset % PAGE_SIZE = ph.pVaddr % PAGE_SIZE
  low : e.stop ≤ USER_MMAP_BASE

lemma Extent.of_fits (h : Extent.of ph base size = .ok e) : e.Fits ph base size := by
  unfold Extent.of at h
  split at h
  · cases h
  split at h
  · cases h
  obtain ⟨fileStop, hfile, h⟩ := bind_ok h
  split at h
  · cases h
  obtain ⟨vaddr, hvaddr, h⟩ := bind_ok h
  obtain ⟨memStop, hmem, h⟩ := bind_ok h
  obtain ⟨stop, hstop, h⟩ := bind_ok h
  split at h
  · cases h
  cases h
  obtain ⟨rfl, hword⟩ := sum_pair hfile
  obtain ⟨rfl, -⟩ := sum_pair hvaddr
  obtain ⟨rfl, -⟩ := sum_pair hmem
  obtain rfl := pageUp_ok hstop
  exact ⟨rfl, rfl, rfl, rfl, rfl, by omega, by omega, hword, by_contra ‹_›, le_of_not_gt ‹_›⟩

def Loaded (ph : ProgramHeader) : Prop := ph.pType = PT_LOAD ∧ ph.pMemsz ≠ 0

instance (ph : ProgramHeader) : Decidable (Loaded ph) := inferInstanceAs (Decidable (_ ∧ _))

structure Collected (base size index : Nat) (phdrs : List ProgramHeader) (loads : List Load) :
    Prop where
  headers : loads.map (·.ph) = phdrs.filter fun ph => decide (Loaded ph)
  fits : ∀ l ∈ loads, l.extent.Fits l.ph base size
  above : ∀ l ∈ loads, index ≤ l.index
  ordered : loads.Pairwise fun l l' => l.index < l'.index
  checked : ∀ ph ∈ phdrs, ph.pType = PT_LOAD → ph.pFilesz ≤ ph.pMemsz

lemma collect_collected {index pages : Nat} (h : collect base size index pages phdrs = .ok loads) :
    Collected base size index phdrs loads := by
  induction phdrs generalizing index pages loads with
  | nil =>
    cases h
    exact ⟨rfl, fun _ hl => absurd hl not_mem_nil, fun _ hl => absurd hl not_mem_nil,
      List.Pairwise.nil, fun _ hph => absurd hph not_mem_nil⟩
  | cons ph phdrs ih =>
    have hskip {pages : Nat} (hph : ¬ Loaded ph)
        (hchecked : ph.pType = PT_LOAD → ph.pFilesz ≤ ph.pMemsz)
        (h : collect base size (index + 1) pages phdrs = .ok loads) :
        Collected base size index (ph :: phdrs) loads := by
      obtain ⟨hheaders, hfits, habove, hordered, hrest⟩ := ih h
      refine ⟨?_, hfits, fun l hl => le_of_succ_le (habove l hl), hordered, ?_⟩
      · rw [filter_cons_of_neg (by rw [decide_eq_true_eq]; exact hph), hheaders]
      · intro ph' hmem
        rcases mem_cons.mp hmem with rfl | hmem
        · exact hchecked
        · exact hrest ph' hmem
    unfold collect at h
    split at h
    · rename_i hne
      exact hskip (fun hl => hne hl.1) (fun ht => absurd ht hne) h
    obtain ⟨extent, hextent, h⟩ := bind_ok h
    have hfit := Extent.of_fits hextent
    split at h
    · rename_i hzero
      exact hskip (fun hl => hl.2 hzero) (fun _ => hfit.inside) h
    split at h
    · cases h
    obtain ⟨rest, hrest, h⟩ := bind_ok h
    cases h
    obtain ⟨hheaders, hfits, habove, hordered, hchecked⟩ := ih hrest
    have hloaded : Loaded ph := ⟨by_contra ‹_›, ‹_›⟩
    refine ⟨?_, ?_, ?_, ?_, ?_⟩
    · rw [filter_cons_of_pos (by rw [decide_eq_true_eq]; exact hloaded), map_cons, hheaders]
    · intro l hl
      rcases mem_cons.mp hl with rfl | hl
      · exact hfit
      · exact hfits l hl
    · intro l hl
      rcases mem_cons.mp hl with rfl | hl
      · exact le_refl _
      · exact le_of_succ_le (habove l hl)
    · exact pairwise_cons.mpr ⟨fun l hl => habove l hl, hordered⟩
    · intro ph' hmem
      rcases mem_cons.mp hmem with rfl | hmem
      · exact fun _ => hfit.inside
      · exact hchecked ph' hmem

/-! ## pages -/

def Load.Holds (l : Load) (page : Nat) : Prop :=
  l.extent.start ≤ page ∧ page < l.extent.stop ∧ PAGE_SIZE ∣ page

lemma mem_pagesFrom {from_ : Nat} (hfrom : PAGE_SIZE ∣ from_) (hstop : PAGE_SIZE ∣ e.stop) :
    page ∈ e.pagesFrom from_ ↔ from_ ≤ page ∧ page < e.stop ∧ PAGE_SIZE ∣ page := by
  simp only [Extent.pagesFrom, mem_map, mem_range, PAGE_SIZE] at *
  constructor
  · rintro ⟨i, hi, rfl⟩
    omega
  · rintro ⟨hle, hlt, hdvd⟩
    exact ⟨(page - from_) / 4096, by omega, by omega⟩

structure Extent.Whole (e : Extent) : Prop where
  start : PAGE_SIZE ∣ e.start
  stop : PAGE_SIZE ∣ e.stop

lemma Extent.Fits.whole (h : e.Fits ph base size) : e.Whole :=
  ⟨h.start ▸ dvd_mul_left .., h.stop ▸ dvd_mul_left ..⟩

lemma mem_pages (h : l.extent.Whole) : page ∈ l.extent.pagesFrom l.extent.start ↔ l.Holds page :=
  mem_pagesFrom h.start h.stop

/-! ## flags of a page -/

lemma foldl_addFlags (flags : Nat) (pages : List Nat) (map : Nat → Option Nat) (page k : Nat) :
    ((pages.foldl (addFlags flags) map page).getD 0).testBit k =
      (((map page).getD 0).testBit k || decide (page ∈ pages) && flags.testBit k) := by
  induction pages generalizing map with
  | nil => simp
  | cons p pages ih =>
    rw [foldl_cons, ih, addFlags]
    by_cases hp : page = p
    · subst hp
      rw [if_pos rfl, Option.getD_some, testBit_or]
      have hmem : page ∈ page :: pages := mem_cons_self
      simp only [hmem, decide_true, Bool.true_and]
      cases flags.testBit k <;> simp
    · rw [if_neg hp]
      simp [hp]

section
variable (hwhole : ∀ l ∈ loads, l.extent.Whole)
include hwhole

lemma pageFlags_testBit (page k : Nat) : ((pageFlags loads page).getD 0).testBit k = true ↔
      ∃ l ∈ loads, l.Holds page ∧ l.ph.pFlags.testBit k = true := by
  have hfold (map : Nat → Option Nat) :
      ((loads.foldl (fun map l =>
        (l.extent.pagesFrom l.extent.start).foldl (addFlags l.ph.pFlags) map) map page).getD 0).testBit k
          = true ↔ ((map page).getD 0).testBit k = true ∨
          ∃ l ∈ loads, l.Holds page ∧ l.ph.pFlags.testBit k = true := by
    induction loads generalizing map with
    | nil => simp
    | cons l loads ih =>
      rw [foldl_cons, ih (fun l' hl => hwhole l' (mem_cons_of_mem _ hl)), foldl_addFlags,
        Bool.or_eq_true, Bool.and_eq_true, decide_eq_true_eq, mem_pages (hwhole l mem_cons_self),
        exists_mem_cons_iff, or_assoc]
  rw [pageFlags, hfold]
  simp

/-! ## pages in two segments -/

omit hwhole in
lemma foldl_seePage (index : Nat) (pages : List Nat) (found : (Nat → Option Nat) × List Nat)
    (page : Nat) : (pages.foldl (seePage index) found).1 page =
        (if page ∈ pages then some index else found.1 page) ∧
      found.2 ⊆ (pages.foldl (seePage index) found).2 ∧
      ∀ other, found.1 page = some other → other ≠ index → page ∈ pages →
        page ∈ (pages.foldl (seePage index) found).2 := by
  induction pages generalizing found with
  | nil => exact ⟨rfl, List.Subset.refl _, fun _ _ _ hmem => absurd hmem not_mem_nil⟩
  | cons p pages ih =>
    obtain ⟨hseen, hsub, hadd⟩ := ih (seePage index found p)
    have hstep : found.2 ⊆ (seePage index found p).2 := by
      unfold seePage
      split
      · split
        · exact subset_cons_self ..
        · exact List.Subset.refl _
      · exact List.Subset.refl _
    refine ⟨?_, fun x hx => hsub (hstep hx), fun other hother hne hmem => ?_⟩
    · rw [foldl_cons, hseen]
      by_cases hp : page = p
      · subst hp
        simp [seePage]
      · simp [seePage, hp]
    · rw [foldl_cons]
      by_cases hp : page = p
      · subst hp
        apply hsub
        simp only [seePage, hother, if_pos hne]
        exact mem_cons_self
      · refine hadd other ?_ hne ((mem_cons.mp hmem).resolve_left hp)
        simp only [seePage, if_neg hp]
        exact hother

lemma foldl_seen (found : (Nat → Option Nat) × List Nat)
    (h : page ∉ (loads.foldl (fun found l =>
      (l.extent.pagesFrom l.extent.start).foldl (seePage l.index) found) found).2) :
    page ∉ found.2 ∧
    (∀ l ∈ loads, l.Holds page → ∀ other, found.1 page = some other → other = l.index) ∧
    ∀ l ∈ loads, ∀ l' ∈ loads, l.Holds page → l'.Holds page → l.index = l'.index := by
  induction loads generalizing found with
  | nil =>
    exact ⟨h, fun _ hl => absurd hl not_mem_nil, fun _ hl => absurd hl not_mem_nil⟩
  | cons l loads ih =>
    obtain ⟨hnot, hnext, hrest⟩ := ih (fun l' hl => hwhole l' (mem_cons_of_mem _ hl)) _ h
    obtain ⟨hseen, hsub, hadd⟩ :=
      foldl_seePage l.index (l.extent.pagesFrom l.extent.start) found page
    have hmem : page ∈ l.extent.pagesFrom l.extent.start ↔ l.Holds page :=
      mem_pages (hwhole l mem_cons_self)
    have hself (hp : l.Holds page) (other : Nat) (hother : found.1 page = some other) :
        other = l.index := by
      by_contra hne
      exact hnot (hadd other hother hne (hmem.mpr hp))
    have htail (hp : l.Holds page) (l' : Load) (hl' : l' ∈ loads) (hp' : l'.Holds page) :
        l.index = l'.index := hnext l' hl' hp' l.index (by rw [hseen, if_pos (hmem.mpr hp)])
    refine ⟨fun hin => hnot (hsub hin), fun l' hl' hp' other hother => ?_, ?_⟩
    · rcases mem_cons.mp hl' with rfl | hl'
      · exact hself hp' other hother
      · by_cases hp : l.Holds page
        · rw [hself hp other hother, htail hp l' hl' hp']
        · exact hnext l' hl' hp' other (by rw [hseen, if_neg (mt hmem.mp hp), hother])
    · intro l1 h1 l2 h2 hp1 hp2
      rcases mem_cons.mp h1 with e1 | t1
      · rcases mem_cons.mp h2 with e2 | t2
        · rw [e1, e2]
        · rw [e1] at hp1 ⊢
          exact htail hp1 l2 t2 hp2
      · rcases mem_cons.mp h2 with e2 | t2
        · rw [e2] at hp2 ⊢
          exact (htail hp2 l1 t1 hp1).symm
        · exact hrest l1 t1 l2 t2 hp1 hp2

lemma eq_index_of_not_shared (h : page ∉ sharedPages loads) (hl : l ∈ loads) (hl' : l' ∈ loads)
    (hpage : l.Holds page) (hpage' : l'.Holds page) : l.index = l'.index :=
  (foldl_seen hwhole _ h).2.2 l hl l' hl' hpage hpage'

end

/-! ## the copies -/

def Node.byte (node : Node) (off : Nat) : UInt8 := node.data[off]?.getD 0

/-- the copies made, into what the pages hold -/
def filled (node : Node) (pieces : List Piece) (fresh : Nat → Page) : Nat → Page :=
  pieces.foldl (fun fresh piece =>
    fillPiece piece ((node.data.drop piece.off).take piece.len) fresh) fresh

lemma gather_ok {pieces : List Piece} (h : gather node pieces = .ok fresh) :
    fresh = filled node pieces fun _ _ => 0 := by
  unfold gather at h
  unfold filled
  generalize (fun _ _ => 0 : Nat → Page) = start at h ⊢
  induction pieces generalizing start with
  | nil =>
    cases h
    rfl
  | cons piece pieces ih =>
    rw [foldlM_cons] at h
    obtain ⟨next, hnext, h⟩ := bind_ok h
    unfold gatherPiece at hnext
    obtain ⟨bytes, hbytes, hnext⟩ := bind_ok hnext
    cases hnext
    rw [foldl_cons, ← readInto_ok hbytes]
    exact ih _ h

section
variable (node : Node)

lemma filled_append (ps qs : List Piece) (fresh : Nat → Page) :
    filled node (ps ++ qs) fresh = filled node qs (filled node ps fresh) := foldl_append

lemma filled_cons (piece : Piece) (ps : List Piece) (fresh : Nat → Page) :
    filled node (piece :: ps) fresh = filled node ps
      (fillPiece piece ((node.data.drop piece.off).take piece.len) fresh) := rfl

lemma filled_filter {q : Piece → Bool} (hq : ∀ piece : Piece, piece.page = page → q piece = true)
    (ps : List Piece) {fresh' : Nat → Page} (h : fresh page = fresh' page) :
    filled node (ps.filter q) fresh page = filled node ps fresh' page := by
  induction ps generalizing fresh fresh' with
  | nil => exact h
  | cons piece ps ih =>
    cases hpiece : q piece with
    | true =>
      rw [filter_cons_of_pos hpiece, filled_cons, filled_cons]
      refine ih ?_
      unfold fillPiece
      rw [h]
    | false =>
      rw [filter_cons_of_neg (by rw [hpiece]; exact Bool.false_ne_true), filled_cons]
      refine ih ?_
      have hne : page ≠ piece.page := by
        rintro rfl
        rw [hq piece rfl] at hpiece
        cases hpiece
      unfold fillPiece
      rw [if_neg hne, h]

lemma store_read (page : Page) (into : Nat) {off len : Nat} (h : off + len ≤ node.data.length)
    (i : Nat) : Bytes.store page into ((node.data.drop off).take len) i =
      if into ≤ i ∧ i < into + len then node.byte (off + (i - into)) else page i := by
  have hlen : ((node.data.drop off).take len).length = len := by
    rw [length_take, length_drop]
    omega
  by_cases hin : into ≤ i ∧ i < into + len
  · have hi : off + (i - into) < node.data.length := by omega
    rw [if_pos hin, Bytes.store, if_pos hin.1, getElem?_take, if_pos (by omega),
      getElem?_drop, Node.byte, getElem?_eq_getElem hi, Option.getD_some, Option.getD_some]
  · rw [if_neg hin, Bytes.store_outside]
    rw [hlen]
    omega

def Extent.HasByte (e : Extent) (offset address : Nat) : Prop :=
  e.vaddr + offset ≤ address ∧ address < e.fileEnd

instance (e : Extent) (offset address : Nat) : Decidable (e.HasByte offset address) :=
  inferInstanceAs (Decidable (_ ∧ _))

lemma filled_pieces (e : Extent) (hfile : e.fileOffset + e.fileLen ≤ node.data.length)
    (hpage : PAGE_SIZE ∣ page) (hi : i < PAGE_SIZE) (fuel offset : Nat)
    (hfuel : e.fileLen - offset ≤ fuel) (fresh : Nat → Page) :
    filled node (e.pieces fuel offset) fresh page i =
      if e.HasByte offset (page + i) then node.byte (e.fileOffset + (page + i - e.vaddr))
      else fresh page i := by
  induction fuel generalizing offset fresh with
  | zero =>
    rw [if_neg]
    · rfl
    · simp only [Extent.HasByte, Extent.fileEnd]
      omega
  | succ fuel ih =>
    rw [Extent.pieces]
    split
    · rename_i hlt
      have hlow : pageAlignDown (e.vaddr + offset) ≤ e.vaddr + offset ∧
          e.vaddr + offset < pageAlignDown (e.vaddr + offset) + PAGE_SIZE := by
        simp only [pageAlignDown, PAGE_SIZE]
        omega
      have hdvd : PAGE_SIZE ∣ pageAlignDown (e.vaddr + offset) := dvd_mul_left ..
      dsimp only
      generalize hp : pageAlignDown (e.vaddr + offset) = p at hlow hdvd ⊢
      generalize hc : min (p + PAGE_SIZE - (e.vaddr + offset)) (e.fileLen - offset) = chunk
      have hchunk : 0 < chunk ∧ offset + chunk ≤ e.fileLen ∧
          e.vaddr + offset + chunk ≤ p + PAGE_SIZE := by omega
      rw [filled_cons, ih _ (by omega), fillPiece]
      by_cases hsame : page = p
      · rw [if_pos hsame, store_read _ _ _ (by dsimp only; omega)]
        by_cases hnow : e.vaddr + offset - p ≤ i ∧ i < e.vaddr + offset - p + chunk
        · have hX : e.fileOffset + offset + (i - (e.vaddr + offset - p)) =
              e.fileOffset + (page + i - e.vaddr) := by omega
          have hnext : ¬ e.HasByte (offset + chunk) (page + i) := by
            simp only [Extent.HasByte]
            omega
          have hhere : e.HasByte offset (page + i) := by
            simp only [Extent.HasByte, Extent.fileEnd]
            omega
          rw [if_neg hnext, if_pos hnow, if_pos hhere, hX]
        · have hiff : e.HasByte (offset + chunk) (page + i) ↔ e.HasByte offset (page + i) := by
            simp only [Extent.HasByte, Extent.fileEnd]
            omega
          rw [if_neg hnow]
          simp only [hiff]
      · rw [if_neg hsame]
        have hiff : e.HasByte (offset + chunk) (page + i) ↔ e.HasByte offset (page + i) := by
          simp only [Extent.HasByte, Extent.fileEnd, PAGE_SIZE] at *
          omega
        simp only [hiff]
    · rw [if_neg]
      · rfl
      · simp only [Extent.HasByte, Extent.fileEnd]
        omega

lemma foldl_last (p : α → Bool) (f : α → β) (xs : List α) (b : β) :
    xs.foldl (fun b x => if p x then f x else b) b = ((xs.reverse.find? p).map f).getD b := by
  induction xs generalizing b with
  | nil => rfl
  | cons x xs ih =>
    rw [foldl_cons, ih, reverse_cons, find?_append]
    cases hfind : xs.reverse.find? p with
    | some y => rfl
    | none =>
      rw [Option.none_or, Option.map_none, Option.getD_none]
      cases hx : p x <;> simp [hx]

section
variable (hfile : ∀ l ∈ loads, l.extent.fileOffset + l.extent.fileLen ≤ node.data.length)
include hfile

lemma filled_loads (hpage : PAGE_SIZE ∣ page) (hi : i < PAGE_SIZE) (fresh : Nat → Page) :
    filled node (loads.flatMap fun l => l.extent.pieces l.extent.fileLen 0) fresh page i =
      loads.foldl (fun b l => if decide (l.extent.HasByte 0 (page + i)) then
        node.byte (l.extent.fileOffset + (page + i - l.extent.vaddr)) else b) (fresh page i) := by
  induction loads generalizing fresh with
  | nil => rfl
  | cons l loads ih =>
    rw [flatMap_cons, filled_append, ih (fun l' hl => hfile l' (mem_cons_of_mem _ hl)),
      foldl_cons, filled_pieces node l.extent (hfile l mem_cons_self) hpage hi _ 0
        (sub_le ..)]
    simp only [decide_eq_true_eq]

lemma filled_copies (hpage : PAGE_SIZE ∣ page) (hi : i < PAGE_SIZE)
    (heager : page ∈ eager loads) : filled node (copies loads) (fun _ _ => 0) page i =
      ((loads.reverse.find? fun l => decide (l.extent.HasByte 0 (page + i))).map fun l =>
        node.byte (l.extent.fileOffset + (page + i - l.extent.vaddr))).getD 0 := by
  have hall : ∀ piece : Piece, piece.page = page → decide (piece.page ∈ eager loads) = true := by
    intro piece hp
    rw [hp]
    exact decide_eq_true heager
  have hsame : filled node (copies loads) (fun _ _ => 0) page =
      filled node (loads.flatMap fun l => l.extent.pieces l.extent.fileLen 0) (fun _ _ => 0) page :=
    filled_filter node hall _ rfl
  rw [hsame, filled_loads node hfile hpage hi, foldl_last]

end
end

/-! ## the pages that are mapped -/

lemma publish_ok {mem : Memory} {space' : Space} {pages : List Nat}
    (h : publish M mem loads fresh space pages = .ok space') (page : Nat) :
    space' page = if page ∈ pages ∧ page ∈ eager loads then
      some (fresh page, flagBits M ((pageFlags loads page).getD 0)) else space page := by
  induction pages generalizing space with
  | nil =>
    cases h
    rw [if_neg (fun hp => not_mem_nil hp.1)]
  | cons p pages ih =>
    have hiff (hne : page ≠ p) : (page ∈ p :: pages ∧ page ∈ eager loads) ↔
        (page ∈ pages ∧ page ∈ eager loads) := by rw [mem_cons, or_iff_right hne]
    unfold publish at h
    split at h
    · rename_i hp
      obtain ⟨next, hnext, h⟩ := bind_ok h
      unfold publishPage at hnext
      split at hnext
      · cases hnext
      cases hnext
      rw [ih h]
      by_cases hsame : page = p
      · subst hsame
        rw [if_pos rfl, ite_self, if_pos ⟨mem_cons_self, hp⟩]
      · simp only [hiff hsame, if_neg hsame]
    · rename_i hp
      rw [ih h]
      by_cases hsame : page = p
      · subst hsame
        rw [if_neg (fun hin => hp hin.2), if_neg (fun hin => hp hin.2)]
      · simp only [hiff hsame]

lemma mem_eager :
    page ∈ eager loads ↔ (∃ l ∈ loads, page ∈ l.edges) ∨ page ∈ sharedPages loads := by
  rw [eager, mem_insertionSort, mem_dedup, mem_append, mem_flatMap]

lemma mem_imagePages (hwhole : ∀ l ∈ loads, l.extent.Whole) :
    page ∈ imagePages loads ↔ ∃ l ∈ loads, l.Holds page := by
  rw [imagePages, mem_insertionSort, mem_dedup, mem_flatMap]
  constructor
  · rintro ⟨l, hl, hp⟩
    exact ⟨l, hl, (mem_pages (hwhole l hl)).mp hp⟩
  · rintro ⟨l, hl, hp⟩
    exact ⟨l, hl, (mem_pages (hwhole l hl)).mpr hp⟩

/-! ## what the loader hands back -/

lemma Head.of_size {bytes : List UInt8} {h : Head} (hof : Head.of machine bytes size = .ok h) :
    h.size = size := by
  obtain ⟨_, -, hof⟩ := bind_ok hof
  obtain ⟨_, -, hof⟩ := bind_ok hof
  obtain ⟨_, -, hof⟩ := bind_ok hof
  obtain ⟨_, -, hof⟩ := bind_ok hof
  obtain ⟨_, -, hof⟩ := bind_ok hof
  split at hof
  · cases hof
  split at hof
  · cases hof
  obtain ⟨_, -, hof⟩ := bind_ok hof
  split at hof
  · cases hof
  cases hof
  rfl

lemma headOf_size {found : List UInt8 × Nat} (h : headOf node = .ok found) :
    found.2 = node.data.length := by
  unfold headOf at h
  split at h
  · cases h
  split at h
  · obtain ⟨_, -, h⟩ := bind_ok h
    split at h
    · cases h
    cases h
    rfl
  · cases h
    rfl

lemma Headers.read_size {h : Headers} (hread : Headers.read machine node = .ok h) :
    h.head.size = node.data.length := by
  obtain ⟨found, hfound, hread⟩ := bind_ok hread
  obtain ⟨head, hhead, hread⟩ := bind_ok hread
  obtain ⟨_, -, hread⟩ := bind_ok hread
  cases hread
  rw [show head.size = found.2 from Head.of_size hhead, headOf_size hfound]

def Load.region (ino : Nat) (l : Load) : Segment :=
  ⟨l.extent.start, l.extent.stop, protOf l.ph.pFlags,
    ⟨ino, l.extent.fileOffset - l.extent.intoPage, l.extent.fileLen + l.extent.intoPage⟩⟩

lemma mapM_segment {ino : Nat} {segments : List Segment}
    (h : loads.mapM (Load.segment ino) = .ok segments) : segments = loads.map (Load.region ino) ∧
      ∀ l ∈ loads, l.extent.intoPage ≤ l.extent.fileOffset := by
  induction loads generalizing segments with
  | nil =>
    cases h
    exact ⟨rfl, fun _ hl => absurd hl not_mem_nil⟩
  | cons l loads ih =>
    rw [mapM_cons] at h
    obtain ⟨s, hs, h⟩ := bind_ok h
    obtain ⟨rest, hrest, h⟩ := bind_ok h
    cases h
    obtain ⟨hmap, hinto⟩ := ih hrest
    unfold Load.segment at hs
    split at hs
    · rename_i hl
      cases hs
      refine ⟨by rw [map_cons, hmap, Load.region], fun l' hl' => ?_⟩
      rcases mem_cons.mp hl' with rfl | hl'
      · exact hl
      · exact hinto l' hl'
    · cases hs

lemma stop_le_foldl (hl : l ∈ loads) (top : Nat) :
    l.extent.stop ≤ loads.foldl (fun top l => max top l.extent.stop) top := by
  have hmono (loads : List Load) (top : Nat) :
      top ≤ loads.foldl (fun top l => max top l.extent.stop) top := by
    induction loads generalizing top with
    | nil => exact le_refl _
    | cons l loads ih => exact (le_max_left ..).trans (ih _)
  induction loads generalizing top with
  | nil => exact absurd hl not_mem_nil
  | cons l' loads ih =>
    rcases mem_cons.mp hl with rfl | hl
    · exact (le_max_right ..).trans (hmono loads _)
    · exact ih hl _

structure Accepted (M : Machine) (machine : Nat) (node : Node) (space : Space) (image : LoadedImage)
    (headers : Headers) (loads : List Load) : Prop where
  read : Headers.read machine node = .ok headers
  collected : Collected image.base node.data.length 0 headers.phdrs loads
  mapped : ∀ page, space page = if page ∈ imagePages loads ∧ page ∈ eager loads then
    some (filled node (copies loads) (fun _ _ => 0) page,
      flagBits M ((pageFlags loads page).getD 0)) else none
  segments : image.segments = loads.map (Load.region node.ino)
  into : ∀ l ∈ loads, l.extent.intoPage ≤ l.extent.fileOffset
  below : ∀ l ∈ loads, l.extent.stop ≤ image.brkStart

lemma loadAt_accepted {mem : Memory} {baseOverride : Option Nat} {image : LoadedImage}
    (h : loadAt M machine mem (fun _ => none) node baseOverride = .ok (space, image)) :
    ∃ headers loads, Accepted M machine node space image headers loads := by
  obtain ⟨headers, hread, h⟩ := bind_ok h
  obtain ⟨L, hL, h⟩ := bind_ok h
  split at h
  · cases h
  obtain ⟨fresh, hfresh, h⟩ := bind_ok h
  obtain ⟨space', hspace, h⟩ := bind_ok h
  obtain ⟨image', himage, h⟩ := bind_ok h
  cases h
  obtain ⟨loads, hloads, hL⟩ := bind_ok hL
  split at hL
  · cases hL
  cases hL
  obtain ⟨addr, -, himage⟩ := bind_ok himage
  obtain ⟨interp, -, himage⟩ := bind_ok himage
  obtain ⟨segments, hsegments, himage⟩ := bind_ok himage
  obtain ⟨entry, -, himage⟩ := bind_ok himage
  cases himage
  obtain ⟨hmap, hinto⟩ := mapM_segment hsegments
  refine ⟨headers, loads, hread, ?_, fun page => ?_, hmap, hinto, fun l hl => stop_le_foldl hl 0⟩
  · rw [← Headers.read_size hread]
    exact collect_collected hloads
  · rw [publish_ok hspace, ← gather_ok hfresh]

/-! ## the pages that are left to a fault -/

lemma find?_unique {q : α → Bool} {xs : List α} {x : α} (hx : x ∈ xs) (hq : q x = true)
    (hone : ∀ y ∈ xs, q y = true → y = x) : xs.find? q = some x := by
  cases hfind : xs.find? q with
  | none => exact absurd hq (find?_eq_none.mp hfind x hx)
  | some y => rw [hone y (mem_of_find?_eq_some hfind) (find?_some hfind)]

/-- the record has the regions of the image before any others, and the heap is above it -/
structure Records (mem : MemState) (image : LoadedImage) : Prop where
  vmas : image.segments.map Segment.vma <+: mem.vmas
  heap : image.brkStart ≤ mem.brkStart

lemma recorded_records (image : LoadedImage) : Records (recorded image) image :=
  ⟨prefix_rfl, le_refl _⟩

/-- a page left to a fault is inside one segment, between its first page and the end of its bytes -/
structure Lazy (loads : List Load) (l : Load) (page : Nat) : Prop where
  mem : l ∈ loads
  holds : l.Holds page
  only : ∀ l' ∈ loads, l'.Holds page → l' = l
  inside : l.extent.start + PAGE_SIZE ≤ page ∧ page + PAGE_SIZE ≤ l.extent.fileEnd

section
variable {M : Machine} {machine : Nat} {node : Node} {space : Space} {image : LoadedImage}
  {headers : Headers} {loads : List Load}

section
variable (h : Accepted M machine node space image headers loads)
include h

lemma Accepted.whole : ∀ l ∈ loads, l.extent.Whole := fun l hl => (h.collected.fits l hl).whole

lemma Accepted.eq_of_index (hl : l ∈ loads) (hl' : l' ∈ loads) (hindex : l.index = l'.index) :
    l = l' := by
  by_contra hne
  have hdiff : loads.Pairwise fun l l' => l.index ≠ l'.index :=
    h.collected.ordered.imp fun hlt => ne_of_lt hlt
  have hsymm : Std.Symm fun l l' : Load => l.index ≠ l'.index := ⟨fun _ _ hxy => hxy.symm⟩
  exact hdiff.forall hl hl' hne hindex

lemma Accepted.lazy (hl : l ∈ loads) (hpage : l.Holds page) (hnot : page ∉ eager loads) :
    Lazy loads l page := by
  rw [mem_eager, not_or] at hnot
  obtain ⟨hedges, hshared⟩ := hnot
  have hfits := h.collected.fits l hl
  refine ⟨hl, hpage, fun l' hl' hp' => ?_, ?_⟩
  · exact h.eq_of_index hl' hl (eq_index_of_not_shared h.whole hshared hl' hl hp' hpage)
  · have hout : page ∉ l.edges := fun hin => hedges ⟨l, hl, hin⟩
    have hdvd : PAGE_SIZE ∣ pageAlignDown l.extent.fileEnd := Nat.dvd_mul_left ..
    rw [Load.edges, mem_cons, not_or, mem_pagesFrom hdvd hfits.whole.stop] at hout
    obtain ⟨hstart, hend⟩ := hout
    have hwhole := hfits.whole.start
    obtain ⟨hlow, hhigh, hdvd⟩ := hpage
    have hdown : page < pageAlignDown l.extent.fileEnd := by
      by_contra hge
      exact hend ⟨Nat.le_of_not_lt hge, hhigh, hdvd⟩
    simp only [pageAlignDown, PAGE_SIZE] at *
    omega

end

lemma plan_file {s : AddressSpace} {vma : Vma} {file : FileMap} (hheap : ¬ s.inHeap page)
    (hfind : s.mem.findVma page = some vma) (hfile : vma.file = some file) (hlow : vma.start ≤ page)
    (hlen : page - vma.start < file.length) (hword : file.offset + (page - vma.start) < Call.WORD) :
    (plan M s page s).1 = .ok (some ⟨vma.pageFlags M, .file file.node
      (file.offset + (page - vma.start)) (min (file.length - (page - vma.start)) PAGE_SIZE)⟩) := by
  unfold plan
  rw [if_neg hheap, hfind]
  simp only [hfile]
  rw [Call.subOk_bind hlow, if_neg (Nat.not_le_of_lt hlen), Call.addOk_bind hword]
  rfl

lemma Accepted.plan_lazy (h : Accepted M machine node space image headers loads)
    (hrec : Records mem image) (hlazy : Lazy loads l page) (s : AddressSpace) (hs : s.mem = mem) :
    (plan M s page s).1 = .ok (some ⟨protToFlags M (protOf l.ph.pFlags),
      .file node.ino (l.extent.fileOffset + (page - l.extent.vaddr)) PAGE_SIZE⟩) := by
  obtain ⟨hl, ⟨hlow, hhigh, hdvd⟩, honly, hinside⟩ := hlazy
  have hfits := h.collected.fits l hl
  have hword := hfits.word
  have hinto := h.into l hl
  rw [← hfits.fileOffset, ← hfits.fileLen] at hword
  have hvaddr : l.extent.start ≤ l.extent.vaddr ∧ l.extent.vaddr < l.extent.start + PAGE_SIZE := by
    rw [hfits.start, hfits.vaddr]
    simp only [pageAlignDown, PAGE_SIZE]
    omega
  have hheap : ¬ s.inHeap page := by
    rintro ⟨hge, -⟩
    have hbelow := h.below l hl
    have hheap := hrec.heap
    rw [hs] at hge
    omega
  have hfind : s.mem.findVma page = some (l.region node.ino).vma := by
    obtain ⟨others, hvmas⟩ := hrec.vmas
    rw [hs, MemState.findVma, ← hvmas, h.segments, map_map, find?_append, find?_map]
    rw [find?_unique hl]
    · rfl
    · exact decide_eq_true ⟨hlow, hhigh⟩
    · intro l' hl' hcontains
      have hin : (l'.region node.ino).vma.contains page := of_decide_eq_true hcontains
      exact honly l' hl' ⟨hin.1, hin.2, hdvd⟩
  simp only [Extent.fileEnd, Extent.intoPage] at *
  have hsum : l.extent.fileOffset - (l.extent.vaddr - l.extent.start) + (page - l.extent.start) =
      l.extent.fileOffset + (page - l.extent.vaddr) := by omega
  have hwant : min (l.extent.fileLen + (l.extent.vaddr - l.extent.start) - (page - l.extent.start))
      PAGE_SIZE = PAGE_SIZE := by omega
  rw [plan_file hheap hfind rfl hlow (show page - l.extent.start <
    l.extent.fileLen + (l.extent.vaddr - l.extent.start) by omega)
    (show l.extent.fileOffset - (l.extent.vaddr - l.extent.start) + (page - l.extent.start) < Call.WORD
      by omega)]
  simp only [Segment.vma, Load.region, Extent.intoPage, Vma.pageFlags, hsum, hwant]

end

/-! ## what the file says -/

def Covers (base : Nat) (ph : ProgramHeader) (address : Nat) : Prop :=
  ph.pType = PT_LOAD ∧ base + ph.pVaddr ≤ address ∧ address < base + ph.pVaddr + ph.pMemsz

instance (base : Nat) (ph : ProgramHeader) (address : Nat) : Decidable (Covers base ph address) :=
  inferInstanceAs (Decidable (_ ∧ _ ∧ _))

def HasBytes (base : Nat) (ph : ProgramHeader) (address : Nat) : Prop :=
  ph.pType = PT_LOAD ∧ base + ph.pVaddr ≤ address ∧ address < base + ph.pVaddr + ph.pFilesz

instance (base : Nat) (ph : ProgramHeader) (address : Nat) : Decidable (HasBytes base ph address) :=
  inferInstanceAs (Decidable (_ ∧ _ ∧ _))

def fileByte (node : Node) (base address : Nat) (ph : ProgramHeader) : UInt8 :=
  node.byte (ph.pOffset + (address - ph.pVaddr - base))

def winner (base : Nat) (phdrs : List ProgramHeader) (address : Nat) : Option ProgramHeader :=
  phdrs.reverse.find? fun ph => decide (Covers base ph address)

def lastBytes (base : Nat) (phdrs : List ProgramHeader) (address : Nat) : Option ProgramHeader :=
  phdrs.reverse.find? fun ph => decide (HasBytes base ph address)

lemma winner_some (h : winner base phdrs address = some ph) :
    ph ∈ phdrs ∧ Covers base ph address := by
  have hfound := find?_some h
  exact ⟨mem_reverse.mp (mem_of_find?_eq_some h), of_decide_eq_true hfound⟩

lemma lastBytes_some (h : lastBytes base phdrs address = some ph) :
    ph ∈ phdrs ∧ HasBytes base ph address := by
  have hfound := find?_some h
  exact ⟨mem_reverse.mp (mem_of_find?_eq_some h), of_decide_eq_true hfound⟩

def specByte (node : Node) (base : Nat) (phdrs : List ProgramHeader) (address : Nat) : Option UInt8 :=
  (winner base phdrs address).map fun ph =>
    if HasBytes base ph address then fileByte node base address ph else 0

def Permits (base : Nat) (phdrs : List ProgramHeader) (page flag : Nat) : Prop :=
  ∃ ph ∈ phdrs, (∃ address, pageAlignDown address = page ∧ Covers base ph address) ∧
    ph.pFlags.testBit flag = true

/-- the page at an address is the one the file says, with its permissions -/
structure Right (M : Machine) (node : Node) (base : Nat) (phdrs : List ProgramHeader) (address : Nat)
    (found : Page × Bits) : Prop where
  byte : specByte node base phdrs address = some (found.1 (address - pageAlignDown address))
  bits : ∃ write execute, found.2 = pageBits M write execute ∧
    (write = true ↔ Permits base phdrs (pageAlignDown address) PF_W) ∧
    (execute = true ↔ Permits base phdrs (pageAlignDown address) PF_X)

/-- where the last segment has no byte of the file, one that it hides has a zero -/
def NothingHidden (node : Node) (base : Nat) (phdrs : List ProgramHeader) : Prop :=
  ∀ address top under, winner base phdrs address = some top → ¬ HasBytes base top address →
    lastBytes base phdrs address = some under → fileByte node base address under = 0

section
variable {M : Machine} {machine : Nat} {node : Node} {space : Space} {image : LoadedImage}
  {headers : Headers} {loads : List Load}

lemma protToFlags_protOf (M : Machine) (flags : Nat) :
    protToFlags M (protOf flags) = flagBits M flags := by
  have hwrite : has (protOf flags) PROT_WRITE = flags.testBit PF_W := by
    unfold protOf
    cases flags.testBit PF_R <;> cases flags.testBit PF_W <;> cases flags.testBit PF_X <;> decide
  have hexec : has (protOf flags) PROT_EXEC = flags.testBit PF_X := by
    unfold protOf
    cases flags.testBit PF_R <;> cases flags.testBit PF_W <;> cases flags.testBit PF_X <;> decide
  rw [protToFlags, hwrite, hexec]
  rfl

section
variable (h : Accepted M machine node space image headers loads)
include h

namespace Accepted

lemma loaded (hl : l ∈ loads) : l.ph ∈ headers.phdrs ∧ Loaded l.ph := by
  have hmem : l.ph ∈ loads.map (·.ph) := mem_map_of_mem hl
  rw [h.collected.headers, mem_filter, decide_eq_true_eq] at hmem
  exact hmem

lemma holds_iff (hl : l ∈ loads) (page : Nat) :
    l.Holds page ↔ ∃ address, pageAlignDown address = page ∧ Covers image.base l.ph address := by
  have hfits := h.collected.fits l hl
  obtain ⟨-, htype, hmem⟩ := h.loaded hl
  rw [Load.Holds, hfits.start, hfits.stop]
  simp only [Covers, htype, true_and, pageAlignDown, pageAlignUp, PAGE_SIZE]
  constructor
  · rintro ⟨hlow, hhigh, hdvd⟩
    exact ⟨max page (image.base + l.ph.pVaddr), by omega, by omega, by omega⟩
  · rintro ⟨address, rfl, hlow, hhigh⟩
    omega

lemma exists_load (hph : ph ∈ headers.phdrs) (hcovers : Covers image.base ph address) :
    ∃ l ∈ loads, l.ph = ph := by
  have hloaded : Loaded ph := ⟨hcovers.1, by have := hcovers.2; omega⟩
  have hmem : ph ∈ loads.map (·.ph) := by
    rw [h.collected.headers, mem_filter, decide_eq_true_eq]
    exact ⟨hph, hloaded⟩
  obtain ⟨l, hl, rfl⟩ := mem_map.mp hmem
  exact ⟨l, hl, rfl⟩

lemma permits_iff (page flag : Nat) : Permits image.base headers.phdrs page flag ↔
      ∃ l ∈ loads, l.Holds page ∧ l.ph.pFlags.testBit flag = true := by
  constructor
  · rintro ⟨ph, hph, ⟨address, hpage, hcovers⟩, hflag⟩
    obtain ⟨l, hl, rfl⟩ := h.exists_load hph hcovers
    exact ⟨l, hl, (h.holds_iff hl page).mpr ⟨address, hpage, hcovers⟩, hflag⟩
  · rintro ⟨l, hl, hpage, hflag⟩
    exact ⟨l.ph, (h.loaded hl).1, (h.holds_iff hl page).mp hpage, hflag⟩

lemma lastBytes_eq (address : Nat) :
    (lastBytes image.base headers.phdrs address).map (fileByte node image.base address) =
      (loads.reverse.find? fun l => decide (l.extent.HasByte 0 address)).map fun l =>
        node.byte (l.extent.fileOffset + (address - l.extent.vaddr)) := by
  have hheaders : lastBytes image.base headers.phdrs address =
      (loads.map (·.ph)).reverse.find? fun ph => decide (HasBytes image.base ph address) := by
    rw [h.collected.headers, ← filter_reverse, find?_filter, lastBytes]
    refine find?_congr fun ph hph => ?_
    have hchecked := h.collected.checked ph (mem_reverse.mp hph)
    have himp : HasBytes image.base ph address → Loaded ph := by
      rintro ⟨htype, hlow, hhigh⟩
      have hlen := hchecked htype
      exact ⟨htype, by omega⟩
    rw [decide_eq_decide, decide_eq_true_eq, decide_eq_true_eq]
    exact ⟨fun hb => ⟨himp hb, hb⟩, And.right⟩
  have hloads (l : Load) (hl : l ∈ loads) : HasBytes image.base l.ph address ↔
      l.extent.HasByte 0 address := by
    have hfits := h.collected.fits l hl
    rw [HasBytes, Extent.HasByte, Extent.fileEnd, hfits.vaddr, hfits.fileLen, Nat.add_zero,
      and_iff_right (h.loaded hl).2.1]
  rw [hheaders, ← map_reverse, find?_map, Option.map_map]
  have hcongr : loads.reverse.find? ((fun ph => decide (HasBytes image.base ph address)) ∘ (·.ph)) =
      loads.reverse.find? fun l => decide (l.extent.HasByte 0 address) :=
    find?_congr fun l hl => decide_eq_decide.mpr (hloads l (mem_reverse.mp hl))
  rw [hcongr]
  cases hfind : loads.reverse.find? fun l => decide (l.extent.HasByte 0 address) with
  | none => rfl
  | some l =>
    have hfits := h.collected.fits l (mem_reverse.mp (mem_of_find?_eq_some hfind))
    simp only [Option.map_some, Function.comp_apply, fileByte, hfits.fileOffset, hfits.vaddr]
    rw [Nat.sub_sub, Nat.add_comm l.ph.pVaddr]

lemma found (hrec : Records mem image) {found : Page × Bits} (hl : l ∈ loads)
    (hpage : l.Holds (pageAlignDown address))
    (htouch : touch M space mem node address = some found) :
    found.1 (address - pageAlignDown address) =
        ((lastBytes image.base headers.phdrs address).map (fileByte node image.base address)).getD 0 ∧
      ∃ write execute, found.2 = pageBits M write execute ∧
        (write = true ↔ Permits image.base headers.phdrs (pageAlignDown address) PF_W) ∧
        (execute = true ↔ Permits image.base headers.phdrs (pageAlignDown address) PF_X) := by
  have hdvd : PAGE_SIZE ∣ pageAlignDown address := dvd_mul_left ..
  have hoff : address - pageAlignDown address < PAGE_SIZE ∧
      pageAlignDown address + (address - pageAlignDown address) = address := by
    simp only [pageAlignDown, PAGE_SIZE]
    omega
  have hfile : ∀ l ∈ loads, l.extent.fileOffset + l.extent.fileLen ≤ node.data.length := by
    intro l hl
    have hfits := h.collected.fits l hl
    rw [hfits.fileOffset, hfits.fileLen]
    exact hfits.inFile
  unfold touch at htouch
  rw [h.mapped] at htouch
  rw [h.lastBytes_eq]
  simp only [h.permits_iff]
  by_cases heager : pageAlignDown address ∈ eager loads
  · rw [if_pos ⟨(mem_imagePages h.whole).mpr ⟨l, hl, hpage⟩, heager⟩] at htouch
    cases htouch
    refine ⟨?_, _, _, rfl, pageFlags_testBit h.whole .., pageFlags_testBit h.whole ..⟩
    show filled node (copies loads) (fun _ _ => 0) (pageAlignDown address)
      (address - pageAlignDown address) = _
    rw [filled_copies node hfile hdvd hoff.1 heager, hoff.2]
  · rw [if_neg fun hin => heager hin.2] at htouch
    have hlazy := h.lazy hl hpage heager
    dsimp only at htouch
    rw [h.plan_lazy hrec hlazy _ rfl] at htouch
    dsimp only [fill] at htouch
    cases hread : readInto node (l.extent.fileOffset + (pageAlignDown address - l.extent.vaddr))
      PAGE_SIZE with
    | error e => cases e <;> simp [hread] at htouch
    | ok bytes =>
      simp only [hread, Option.some.injEq] at htouch
      subst htouch
      obtain ⟨-, -, honly, hinside⟩ := hlazy
      have hfits := h.collected.fits l hl
      have hstart : l.extent.vaddr < l.extent.start + PAGE_SIZE := by
        rw [hfits.start, hfits.vaddr]
        simp only [pageAlignDown, PAGE_SIZE]
        omega
      have hflag (flag : Nat) : l.ph.pFlags.testBit flag = true ↔
          ∃ l ∈ loads, l.Holds (pageAlignDown address) ∧ l.ph.pFlags.testBit flag = true := by
        refine ⟨fun hbit => ⟨l, hl, hpage, hbit⟩, ?_⟩
        rintro ⟨l', hl', hpage', hbit⟩
        rwa [honly l' hl' hpage'] at hbit
      refine ⟨?_, _, _, protToFlags_protOf M _, hflag PF_W, hflag PF_X⟩
      have hfind : loads.reverse.find? (fun l => decide (l.extent.HasByte 0 address)) = some l := by
        refine find?_unique (mem_reverse.mpr hl) (decide_eq_true ?_) fun l' hl' hbyte => ?_
        · simp only [Extent.HasByte]
          omega
        · have hl' := mem_reverse.mp hl'
          have hin : l'.extent.HasByte 0 address := of_decide_eq_true hbyte
          have hfits' := h.collected.fits l' hl'
          simp only [Extent.HasByte, Extent.fileEnd, hfits'.vaddr, hfits'.fileLen] at hin
          refine honly l' hl' ((h.holds_iff hl' _).mpr ⟨address, rfl, (h.loaded hl').2.1, ?_⟩)
          have hsize := hfits'.inside
          omega
      have hfile := hfile l hl
      have hend : l.extent.fileEnd = l.extent.vaddr + l.extent.fileLen := rfl
      rw [hfind, readInto_ok hread, Option.map_some, Option.getD_some]
      dsimp only
      rw [store_read node _ 0 (by omega), if_pos (by omega)]
      have heq : l.extent.fileOffset + (pageAlignDown address - l.extent.vaddr) +
          (address - pageAlignDown address - 0) = l.extent.fileOffset + (address - l.extent.vaddr) := by
        omega
      rw [heq]

lemma touch_eager (mem : MemState) (hl : l ∈ loads)
    (hpage : l.Holds (pageAlignDown address)) (heager : pageAlignDown address ∈ eager loads) :
    (touch M space mem node address).isSome = true := by
  unfold touch
  rw [h.mapped, if_pos ⟨(mem_imagePages h.whole).mpr ⟨l, hl, hpage⟩, heager⟩]
  rfl

lemma served (hrec : Records mem image) (hl : l ∈ loads)
    (hpage : l.Holds (pageAlignDown address)) (hstored : node.stored = false) :
    (touch M space mem node address).isSome = true := by
  by_cases heager : pageAlignDown address ∈ eager loads
  · exact h.touch_eager mem hl hpage heager
  · have hlazy := h.lazy hl hpage heager
    have hfits := h.collected.fits l hl
    have hfile := hfits.inFile
    rw [← hfits.fileOffset, ← hfits.fileLen] at hfile
    have hread : readInto node (l.extent.fileOffset + (pageAlignDown address - l.extent.vaddr))
        PAGE_SIZE = .ok ((node.data.drop
          (l.extent.fileOffset + (pageAlignDown address - l.extent.vaddr))).take PAGE_SIZE) := by
      have hinside := hlazy.inside
      have hend : l.extent.fileEnd = l.extent.vaddr + l.extent.fileLen := rfl
      rw [readInto, hstored, if_neg Bool.false_ne_true, if_pos (by omega)]
    unfold touch
    rw [h.mapped, if_neg fun hin => heager hin.2]
    dsimp only
    rw [h.plan_lazy hrec hlazy _ rfl]
    dsimp only [fill]
    rw [hread]
    rfl

end Accepted
end
end

lemma find?_of_imp {p q : α → Bool} {xs : List α} {x : α}
    (himp : ∀ y ∈ xs, q y = true → p y = true) (hfind : xs.find? p = some x) (hq : q x = true) :
    xs.find? q = some x := by
  obtain ⟨-, before, after, rfl, hbefore⟩ := find?_eq_some_iff_append.mp hfind
  refine find?_eq_some_iff_append.mpr ⟨hq, before, after, rfl, fun y hy => ?_⟩
  have hnot := hbefore y hy
  cases hqy : q y with
  | false => rfl
  | true =>
    rw [himp y (mem_append_left _ hy) hqy] at hnot
    cases hnot

/-- **the image is what the file says**, byte by byte and page by page, exactly when no segment hides
a byte of an earlier one under its .bss -/
theorem image_right_iff (M : Machine) (machine : Nat) (memory : Memory) (node : Node)
    (baseOverride : Option Nat) (space : Space) (image : LoadedImage) (headers : Headers)
    (record : MemState) (hread : Headers.read machine node = .ok headers)
    (h : loadAt M machine memory (fun _ => none) node baseOverride = .ok (space, image))
    (hrec : Records record image) :
    (∀ address, (∃ ph ∈ headers.phdrs, Covers image.base ph address) →
      (node.stored = false → (touch M space record node address).isSome = true) ∧
      ∀ found, touch M space record node address = some found →
        Right M node image.base headers.phdrs address found) ↔
      NothingHidden node image.base headers.phdrs := by
  obtain ⟨headers', loads, hacc⟩ := loadAt_accepted h
  obtain rfl : headers' = headers := by
    have heq := hacc.read.symm.trans hread
    cases heq
    rfl
  have hthere (address : Nat) (hcovers : ∃ ph ∈ headers'.phdrs, Covers image.base ph address) :
      ∃ l ∈ loads, l.Holds (pageAlignDown address) := by
    obtain ⟨ph, hph, hcovers⟩ := hcovers
    obtain ⟨l, hl, rfl⟩ := hacc.exists_load hph hcovers
    exact ⟨l, hl, (hacc.holds_iff hl _).mpr ⟨address, rfl, hcovers⟩⟩
  have hcoversOf {address : Nat} (ph : ProgramHeader) (hph : ph ∈ headers'.phdrs)
      (hbytes : HasBytes image.base ph address) : Covers image.base ph address := by
    obtain ⟨htype, hlow, hhigh⟩ := hbytes
    have hchecked := hacc.collected.checked ph hph htype
    exact ⟨htype, hlow, by omega⟩
  constructor
  · intro hright address top under htop hnone hunder
    obtain ⟨htopMem, htopCovers⟩ := winner_some htop
    obtain ⟨hunderMem, hunderBytes⟩ := lastBytes_some hunder
    have hunderCovers := hcoversOf under hunderMem hunderBytes
    obtain ⟨l, hl, rfl⟩ := hacc.exists_load htopMem htopCovers
    obtain ⟨l', hl', rfl⟩ := hacc.exists_load hunderMem hunderCovers
    have hpage := (hacc.holds_iff hl _).mpr ⟨address, rfl, htopCovers⟩
    have hpage' := (hacc.holds_iff hl' _).mpr ⟨address, rfl, hunderCovers⟩
    have heager : pageAlignDown address ∈ eager loads := by
      by_contra hnot
      have hsame := (hacc.lazy hl hpage hnot).only l' hl' hpage'
      rw [hsame] at hunderBytes
      exact hnone hunderBytes
    obtain ⟨found, htouch⟩ := Option.isSome_iff_exists.mp (hacc.touch_eager record hl hpage heager)
    have hbyte := ((hright address ⟨l.ph, htopMem, htopCovers⟩).2 found htouch).byte
    rw [(hacc.found hrec hl hpage htouch).1, hunder, specByte, htop, Option.map_some, if_neg hnone,
      Option.map_some, Option.getD_some, Option.some.injEq] at hbyte
    exact hbyte.symm
  · intro hhidden address hcovers
    obtain ⟨l, hl, hpage⟩ := hthere address hcovers
    refine ⟨hacc.served hrec hl hpage, fun found htouch => ?_⟩
    obtain ⟨hbyte, hbits⟩ := hacc.found hrec hl hpage htouch
    refine ⟨?_, hbits⟩
    obtain ⟨ph, hph, hph'⟩ := hcovers
    cases htop : winner image.base headers'.phdrs address with
    | none =>
      have hnot := find?_eq_none.mp htop ph (mem_reverse.mpr hph)
      exact absurd (decide_eq_true hph') hnot
    | some top =>
      rw [specByte, htop, Option.map_some, hbyte, Option.some.injEq]
      by_cases hbytes : HasBytes image.base top address
      · have hlast : lastBytes image.base headers'.phdrs address = some top := by
          refine find?_of_imp (fun ph' hph' hbytes' => ?_) htop (decide_eq_true hbytes)
          exact decide_eq_true
            (hcoversOf ph' (mem_reverse.mp hph') (of_decide_eq_true hbytes'))
        rw [if_pos hbytes, hlast]
        rfl
      · rw [if_neg hbytes]
        cases hunder : lastBytes image.base headers'.phdrs address with
        | none => rfl
        | some under => exact (hhidden address top under htop hbytes hunder).symm

/-! ## files -/

def leBytes (count value : Nat) : List UInt8 :=
  (range count).map fun i => UInt8.ofNat (value / 256 ^ i)

def ProgramHeader.bytes (ph : ProgramHeader) : List UInt8 :=
  leBytes 4 ph.pType ++ leBytes 4 ph.pFlags ++ leBytes 8 ph.pOffset ++ leBytes 8 ph.pVaddr ++
    leBytes 8 ph.pVaddr ++ leBytes 8 ph.pFilesz ++ leBytes 8 ph.pMemsz ++ leBytes 8 ph.pAlign

def program (phdrs : List ProgramHeader) : Node where
  ino := 1
  data := [0x7F, 0x45, 0x4C, 0x46, 2, 1, 1, 0] ++ replicate 8 0 ++ leBytes 2 ET_EXEC ++
    leBytes 2 0x3E ++ leBytes 4 1 ++ leBytes 8 0x400000 ++ leBytes 8 64 ++ leBytes 8 0 ++ leBytes 4 0 ++
    leBytes 2 64 ++ leBytes 2 56 ++ leBytes 2 phdrs.length ++ leBytes 6 0 ++
    phdrs.flatMap ProgramHeader.bytes
  stored := false
  fails := fun _ _ => none

def text : ProgramHeader := ⟨PT_LOAD, 5, 0, 0x400000, 64, 100, 4096⟩

def bss : ProgramHeader := ⟨PT_LOAD, 6, 0, 0x400000, 0, 1, 4096⟩

/-- in the page of `text`, behind it -/
def behind : ProgramHeader := ⟨PT_LOAD, 6, 100, 0x400064, 20, 20, 4096⟩

def enough : Memory := ⟨4, fun _ => true⟩

lemma ok_of_map {ε : Type} {x : Except ε α} {f : α → β} {b : β} (h : x.toOption.map f = some b) :
    ∃ a, x = .ok a ∧ f a = b := by
  cases x with
  | error e => cases h
  | ok a => exact ⟨a, rfl, Option.some.inj h⟩

/-- two segments that share a page -/
theorem image_right_iff_behind :
    ∃ space image headers, Headers.read 0x3E (program [text, behind]) = .ok headers ∧
      loadAt x8664 0x3E enough (fun _ => none) (program [text, behind]) none = .ok (space, image) ∧
      ∀ address, (∃ ph ∈ headers.phdrs, Covers image.base ph address) →
        ((program [text, behind]).stored = false →
          (touch x8664 space (recorded image) (program [text, behind]) address).isSome = true) ∧
        ∀ found, touch x8664 space (recorded image) (program [text, behind]) address = some found →
          Right x8664 (program [text, behind]) image.base headers.phdrs address found := by
  have hok : (loadAt x8664 0x3E enough (fun _ => none) (program [text, behind]) none).toOption.map
      (fun _ => ()) = some () := by decide +kernel
  have hread : (Headers.read 0x3E (program [text, behind])).toOption.map (·.phdrs) =
      some [text, behind] := by decide +kernel
  obtain ⟨loaded, hload, -⟩ := ok_of_map hok
  obtain ⟨headers, hheaders, hphdrs⟩ := ok_of_map hread
  refine ⟨loaded.1, loaded.2, headers, hheaders, hload, ?_⟩
  refine (image_right_iff x8664 0x3E enough (program [text, behind]) none loaded.1 loaded.2 headers
    (recorded loaded.2) hheaders hload (recorded_records _)).mpr ?_
  intro address top under htop hnone hunder
  obtain ⟨htopMem, hcovers⟩ := winner_some htop
  obtain ⟨hunderMem, hbytes⟩ := lastBytes_some hunder
  rw [hphdrs] at htopMem hunderMem
  rcases mem_pair.mp htopMem with rfl | rfl
  · rcases mem_pair.mp hunderMem with rfl | rfl
    · exact absurd hbytes hnone
    · exact absurd (hcovers.2.2.trans_le hbytes.2.1) (lt_irrefl _)
  · exact absurd hcovers hnone

/-- a .bss over the first byte of `text`: the file's byte is there, not zero -/
theorem hidden_byte_shows :
    ∃ space image headers found, Headers.read 0x3E (program [text, bss]) = .ok headers ∧
      loadAt x8664 0x3E enough (fun _ => none) (program [text, bss]) none = .ok (space, image) ∧
      (∃ ph ∈ headers.phdrs, Covers image.base ph 0x400000) ∧
      touch x8664 space (recorded image) (program [text, bss]) 0x400000 = some found ∧
      found.1 0 = 0x7F ∧
      specByte (program [text, bss]) image.base headers.phdrs 0x400000 = some 0 := by
  have hloaded : (loadAt x8664 0x3E enough (fun _ => none) (program [text, bss]) none).toOption.map
      (fun loaded => (touch x8664 loaded.1 (recorded loaded.2) (program [text, bss]) 0x400000).map
        fun found => (found.1 0, loaded.2.base)) = some (some (0x7F, 0)) := by decide +kernel
  have hread : (Headers.read 0x3E (program [text, bss])).toOption.map (·.phdrs) =
      some [text, bss] := by decide +kernel
  obtain ⟨loaded, hload, htouched⟩ := ok_of_map hloaded
  obtain ⟨headers, hheaders, hphdrs⟩ := ok_of_map hread
  obtain ⟨found, htouch, hfound⟩ := Option.map_eq_some_iff.mp htouched
  obtain ⟨hbyte, hbase⟩ := Prod.mk.inj hfound
  refine ⟨loaded.1, loaded.2, headers, found, hheaders, hload, ?_, htouch, hbyte, ?_⟩
  · rw [hphdrs, hbase]
    exact ⟨bss, by decide, by decide⟩
  · rw [hphdrs, hbase]
    decide +kernel

end ClaudeOs.Elf
