import ClaudeOs.Mm.Sharing
import ClaudeOs.Mm.Accounts
import ClaudeOs.Mem.Turns

/-!
# The address space a forked child starts with

`Mm::fork`: a walk over the last-level tables of the parent, block by block, that shares every page
of each block with the child, and a copy of the record.  The blocks are found from the top again
each time, so nothing is carried from one to the next but an address.

* `stockUp`, `sharePieces`  the frames for a block's tables, and the block in pieces;
* `Alive`  what the parent's tables stand on;
* `fork_copies`  the child has every page of the parent, and both are marked.
-/

namespace ClaudeOs.Mm
open Mem Forking Radix List Option Tables

/-! ## a walk driven by address -/

variable {block : Nat} {M : Machine} {root : Phys} {w : World} {choose : World → Option Phys}

section
variable {σ : Type} (size limit : Nat) (next : σ → Nat → Option Nat)
  (body : Nat → σ → σ × Bool)

/-- do something to each block from `start` on, until one fails -/
def walkBlocks (above : ∀ {s start block}, next s start = some block → start < block + size)
    (start : Nat) (s : σ) : σ × Bool :=
  if start < limit then
    match _h : next s start with
    | none => (s, true)
    | some block =>
      match body block s with
      | (s, false) => (s, false)
      | (s, true) => walkBlocks above (block + size) s
  else (s, true)
termination_by limit - start
decreasing_by
  have := above _h
  omega

lemma walkBlocks_upTo {I : Nat → σ → Prop}
    (above : ∀ {s start block}, next s start = some block → start < block + size)
    (hrest : ∀ {start s}, start < limit → I start s → next s start = none → I limit s)
    (hblock : ∀ {start s block s'}, start < limit → I start s → next s start = some block →
      body block s = (s', true) → block + size ≤ limit ∧ I (block + size) s')
    {start : Nat} {s s' : σ} (hle : start ≤ limit) (h : I start s)
    (hrun : walkBlocks size limit next body above start s = (s', true)) : I limit s' := by
  induction hn : limit - start using Nat.strongRecOn generalizing start s with
  | _ n ih =>
    rw [walkBlocks] at hrun
    by_cases hlt : start < limit
    · rw [if_pos hlt] at hrun
      split at hrun
      · next hnone =>
        cases hrun
        exact hrest hlt h hnone
      · next block hsome =>
        rcases hbody : body block s with ⟨s1, done⟩
        rw [hbody] at hrun
        cases done with
        | false => cases hrun
        | true =>
          obtain ⟨hle1, h1⟩ := hblock hlt h hsome hbody
          have := above hsome
          exact ih _ (by omega) hle1 h1 hrun rfl
    · rw [if_neg hlt] at hrun
      cases hrun
      have : start = limit := by omega
      exact this ▸ h

end

structure MmSpace where
  root : Phys
  mem : MemState

section
variable (M : Machine) (choose : World → Option Phys)

def stockUp : Nat → World → TableStock → World × Option TableStock
  | 0, w, stock => (w, some stock)
  | n + 1, w, stock =>
    match choose w with
    | none => (w, none)
    | some phys => stockUp n (w.allocZeroed phys) (stock.push phys)

def sharePieces (child parent : Phys) (stop piece : Nat) (w : World) (stock : TableStock) :
    World × TableStock × Except Refused Unit :=
  if piece < stop then
    match shareRange M child parent piece UNMAP_CHUNK w stock .clean with
    | (w, stock, tlb, .ok ()) =>
      sharePieces child parent stop (piece + UNMAP_CHUNK * PAGE_SIZE) (tlb.flush w) stock
    | (w, stock, tlb, .error err) => (tlb.flush w, stock, .error err)
  else (w, stock, .ok ())
termination_by stop - piece
decreasing_by
  simp only [UNMAP_CHUNK, PAGE_SIZE]
  omega

def unstock (w : World) (stock : TableStock) : World := stock.frames.foldl World.free w

end

lemma nextPopulated_above {start limit : Nat}
    (h : nextPopulated M w root start limit = some block) : start < block + levelSize 1 := by
  rw [nextPopulated] at h
  have N := (nextFrom_spec root _ _).1 block h
  have := Nat.lt_div_mul_add (a := start) (levelSize_pos 1)
  have := N.above
  omega

section
variable (M : Machine) (choose : World → Option Phys)

def forkBlock (child parent : Phys) (block : Nat) (w : World) : World × Bool :=
  match stockUp choose DEPTH w .empty with
  | (w, none) => (w, false)
  | (w, some stock) =>
    let shared := sharePieces M child parent (block + levelSize 1) block w stock
    (unstock shared.1 shared.2.1, shared.2.2.isOk)

/-- the walk from `start` on; whether it came to the end -/
def forkFrom (child parent : Phys) (start : Nat) (w : World) : World × Bool :=
  walkBlocks (levelSize 1) USER_LIMIT (fun w start => nextPopulated M w parent start USER_LIMIT)
    (forkBlock M choose child parent) nextPopulated_above start w

def dropTables (w : World) (root : Phys) : World := (freeBelow M w root USER_LIMIT).free root

/-- a child that shares every page of `parent`, and a copy of its record -/
def fork (w : World) (parent : MmSpace) : World × Option MmSpace :=
  match choose w with
  | none => (w, none)
  | some root =>
    let walked := forkFrom M choose root parent.root 0 (w.allocZeroed root)
    if walked.2 then (walked.1, some ⟨root, parent.mem⟩) else (dropTables M walked.1 root, none)

end

/-! ## the frames brought along -/

section
variable {M : Machine} {parent child : Phys} {kept : Phys → Prop} {mem0 : Memory} {m0 : PageMap}
  {w w' : World} {stock stock' : TableStock} {stop : Nat}

lemma SharedTo.push (S : SharedTo M parent child kept mem0 m0 stop w stock) {phys : Phys}
    (hzero : w.refs phys = 0) (hframe : M.Frame phys) :
    SharedTo M parent child kept mem0 m0 stop (w.allocZeroed phys) (stock.push phys) := by
  have F := S.forking
  have hfree : ¬ (0 < tables M w.mem parent phys ∨ 0 < tables M w.mem child phys ∨
      phys ∈ stock.frames ∨ kept phys) := by
    intro h
    have := F.counted phys h
    omega
  simp only [not_or] at hfree
  obtain ⟨hparent, hchild, hstock, hkept⟩ := hfree
  have hother : ∀ f, f ≠ phys → (w.allocZeroed phys).mem f = w.mem f := fun f hf => if_neg hf
  have Up : Untouched M parent w (w.allocZeroed phys) := by
    intro f hf
    refine hother f ?_
    rintro rfl
    exact hparent hf
  have Uc : Untouched M child w (w.allocZeroed phys) := by
    intro f hf
    refine hother f ?_
    rintro rfl
    exact hchild hf
  refine ⟨⟨F.hierarchy.elsewhere Up, ⟨F.growing.hierarchy.elsewhere Uc, ?_⟩, ?_, ?_, ?_, ?_⟩,
    Up.holds F.hierarchy S.parent, Uc.holds F.growing.hierarchy S.child⟩
  · have T := F.growing.stocked
    refine ⟨nodup_cons.mpr ⟨hstock, T.nodup⟩, fun c hc => ?_, fun c hc => ?_, fun c hc => ?_⟩
    · rcases mem_cons.mp hc with rfl | hc
      · exact hframe
      · exact T.frame c hc
    · rcases mem_cons.mp hc with rfl | hc
      · intro i
        show (if c = c then fun _ => 0 else w.mem c) i = 0
        rw [if_pos rfl]
      · intro i
        rw [hother c (fun heq => hstock (heq ▸ hc))]
        exact T.zeroed c hc i
    · rw [Uc.tables_eq]
      rcases mem_cons.mp hc with rfl | hc
      · omega
      · exact T.fresh c hc
  · intro f hf
    rw [Up.tables_eq] at hf
    rw [Uc.tables_eq]
    refine ⟨(F.apart f hf).1, fun h => ?_⟩
    rcases mem_cons.mp h with rfl | h
    · exact hparent hf
    · exact (F.apart f hf).2 h
  · intro f hf
    rw [Up.tables_eq, Uc.tables_eq] at hf
    show 0 < if f = phys then 1 else w.refs f
    split
    · exact Nat.one_pos
    · next hne =>
      refine F.counted f ?_
      rcases hf with hf | hf | hf | hf
      · exact .inl hf
      · exact .inr (.inl hf)
      · exact .inr (.inr (.inl ((mem_cons.mp hf).resolve_left hne)))
      · exact .inr (.inr (.inr hf))
  · intro f hf
    rw [Up.tables_eq, Uc.tables_eq]
    obtain ⟨hp, hc, hs⟩ := F.outside f hf
    refine ⟨hp, hc, fun h => ?_⟩
    rcases mem_cons.mp h with rfl | h
    · exact hkept hf
    · exact hs h
  · intro f hf
    refine (hother f ?_).trans (F.same f hf)
    rintro rfl
    exact hkept hf

/-- the allocator hands out frames that nobody holds -/
def Gives (M : Machine) (choose : World → Option Phys) : Prop :=
  ∀ w phys, choose w = some phys → w.refs phys = 0 ∧ M.Frame phys

section
variable (S : SharedTo M parent child kept mem0 m0 stop w stock)
include S

lemma SharedTo.stockUp (hgives : Gives M choose) {n : Nat}
    (h : Mm.stockUp choose n w stock = (w', some stock')) :
    SharedTo M parent child kept mem0 m0 stop w' stock' := by
  induction n generalizing w stock with
  | zero =>
    cases h
    exact S
  | succ n ih =>
    rw [Mm.stockUp] at h
    cases hchoose : choose w with
    | none =>
      rw [hchoose] at h
      cases h
    | some phys =>
      rw [hchoose] at h
      obtain ⟨hzero, hframe⟩ := hgives w phys hchoose
      exact ih (S.push hzero hframe) h

lemma SharedTo.recount (hmem : w'.mem = w.mem) (F : Forking M parent child kept mem0 w' stock') :
    SharedTo M parent child kept mem0 m0 stop w' stock' where
  forking := F
  parent := S.parent.same fun q j _ => by rw [hmem]
  child := S.child.same fun q j _ => by rw [hmem]

lemma SharedTo.flush (tlb : Tlb) :
    SharedTo M parent child kept mem0 m0 stop (tlb.flush w) stock := by
  have hmem : (tlb.flush w).mem = w.mem := by cases tlb <;> rfl
  have hrefs : (tlb.flush w).refs = w.refs := by cases tlb <;> rfl
  exact S.recount hmem (S.forking.recount hmem fun f hf => hrefs ▸ hf)

end

lemma Forking.unstock {c : Phys} {rest : List Phys}
    (F : Forking M parent child kept mem0 w ⟨c :: rest⟩) :
    Forking M parent child kept mem0 (w.free c) ⟨rest⟩ := by
  have T := F.growing.stocked
  have hc : c ∈ c :: rest := mem_cons_self ..
  obtain ⟨hnot, hnodup⟩ := nodup_cons.mp T.nodup
  refine ⟨F.hierarchy, ⟨F.growing.hierarchy, hnodup, ?_, ?_, ?_⟩, ?_, ?_, ?_, F.same⟩
  · exact fun d hd => T.frame d (mem_cons_of_mem c hd)
  · exact fun d hd => T.zeroed d (mem_cons_of_mem c hd)
  · exact fun d hd => T.fresh d (mem_cons_of_mem c hd)
  · exact fun f hf => ⟨(F.apart f hf).1, fun h => (F.apart f hf).2 (mem_cons_of_mem c h)⟩
  · intro f hf
    have hne : f ≠ c := by
      rintro rfl
      rcases hf with hf | hf | hf | hf
      · exact (F.apart f hf).2 hc
      · have : tables M w.mem child f = 0 := T.fresh f hc
        have : 0 < tables M w.mem child f := hf
        omega
      · exact hnot hf
      · exact (F.outside f hf).2.2 hc
    rw [World.free_refs, if_neg hne]
    refine F.counted f ?_
    rcases hf with hf | hf | hf | hf
    · exact .inl hf
    · exact .inr (.inl hf)
    · exact .inr (.inr (.inl (mem_cons_of_mem c hf)))
    · exact .inr (.inr (.inr hf))
  · intro f hf
    obtain ⟨hp, hz, hs⟩ := F.outside f hf
    exact ⟨hp, hz, fun h => hs (mem_cons_of_mem c h)⟩

lemma SharedTo.unstock (S : SharedTo M parent child kept mem0 m0 stop w stock) :
    SharedTo M parent child kept mem0 m0 stop (Mm.unstock w stock) .empty := by
  obtain ⟨frames⟩ := stock
  induction frames generalizing w with
  | nil => exact S
  | cons c rest ih => exact ih (S.recount rfl (Forking.unstock S.forking))

/-! ## the blocks -/

lemma SharedTo.sharePieces {piece : Nat} (S : SharedTo M parent child kept mem0 m0 piece w stock)
    (L : M.Lawful) (hpage : pageOf piece = piece) (hstop : stop < SPAN)
    (hwhole : UNMAP_CHUNK * PAGE_SIZE ∣ stop - piece) (hle : piece ≤ stop)
    (h : Mm.sharePieces M child parent stop piece w stock = (w', stock', .ok ())) :
    SharedTo M parent child kept mem0 m0 stop w' stock' := by
  induction hn : stop - piece using Nat.strongRecOn generalizing piece w stock with
  | _ n ih =>
    rw [Mm.sharePieces] at h
    by_cases hlt : piece < stop
    · rw [if_pos hlt] at h
      rcases hrun : Tables.shareRange M child parent piece UNMAP_CHUNK w stock .clean with
        ⟨w1, stock1, tlb1, res⟩
      rw [hrun] at h
      cases res with
      | error err => cases h
      | ok u =>
        -- the last piece ends at the end of the block
        have hfits : UNMAP_CHUNK * PAGE_SIZE ≤ stop - piece := Nat.le_of_dvd (by omega) hwhole
        have hchunk : 0 < UNMAP_CHUNK * PAGE_SIZE := by decide
        have S1 := (S.shareRange L hpage (by omega) hrun).flush tlb1
        refine ih _ ?_ S1 ?_ ?_ (by omega) h rfl
        · omega
        · rw [pageOf, Nat.mod_eq_of_lt (by omega)] at hpage ⊢
          rw [Nat.add_mul_div_right _ _ (by decide), Nat.add_mul, hpage]
        · rw [← Nat.sub_sub]
          exact Nat.dvd_sub hwhole (dvd_refl _)
    · rw [if_neg hlt] at h
      cases h
      have : piece = stop := by omega
      exact this ▸ S

lemma SharedTo.forkBlock (S : SharedTo M parent child kept mem0 m0 block w .empty) (L : M.Lawful)
    (hgives : Gives M choose) (hblock : levelSize 1 ∣ block)
    (hlimit : block + levelSize 1 ≤ USER_LIMIT)
    (h : Mm.forkBlock M choose child parent block w = (w', true)) :
    SharedTo M parent child kept mem0 m0 (block + levelSize 1) w' .empty := by
  rw [Mm.forkBlock] at h
  -- the end of the block as a name: the size of a block is a large number to count with
  have hsize : UNMAP_CHUNK * PAGE_SIZE ∣ levelSize 1 := by decide
  generalize hstop : block + levelSize 1 = stop at h hlimit ⊢
  rcases hstock : Mm.stockUp choose DEPTH w .empty with ⟨w1, _ | stock1⟩
  · rw [hstock] at h
    cases h
  · rw [hstock] at h
    obtain ⟨hw', hok⟩ := Prod.mk.inj h
    rcases hpieces : Mm.sharePieces M child parent stop block w1 stock1 with ⟨w2, stock2, done⟩
    rw [hpieces] at hw' hok
    have hend : stop < SPAN := Nat.lt_of_le_of_lt hlimit (by decide)
    have hpage : pageOf block = block := by
      rw [pageOf, Nat.mod_eq_of_lt (by omega)]
      exact Nat.div_mul_cancel (Nat.dvd_trans (by decide) hblock)
    cases done with
    | error err => cases hok
    | ok u =>
      rw [← hw']
      refine ((S.stockUp hgives hstock).sharePieces L hpage hend ?_ (by omega) hpieces).unstock
      rwa [← hstop, Nat.add_sub_cancel_left]

lemma SharedTo.absent {v : Nat} (S : SharedTo M parent child kept mem0 m0 stop w stock)
    (hv : pageOf v = v) (hle : stop ≤ v) (hnone : leafTable M w parent v = none) : m0 v = none := by
  have hpage := S.parent.at_page hv
  rw [parentAt, if_neg (by omega), leaf, hnone] at hpage
  exact hpage.symm

lemma SharedTo.forkFrom (S : SharedTo M parent child kept mem0 m0 0 w .empty) (L : M.Lawful)
    (hgives : Gives M choose) (h : Mm.forkFrom M choose child parent 0 w = (w', true)) :
    SharedTo M parent child kept mem0 m0 USER_LIMIT w' .empty := by
  have hspan : min USER_LIMIT SPAN = USER_LIMIT := by decide
  have hdown : ∀ {n}, levelSize 1 ∣ n → n / levelSize 1 * levelSize 1 = n :=
    fun h => Nat.div_mul_cancel h
  rw [Mm.forkFrom] at h
  have hrun := walkBlocks_upTo (levelSize 1) USER_LIMIT _ _
    (I := fun start w => levelSize 1 ∣ start ∧
      SharedTo M parent child kept mem0 m0 start w .empty) nextPopulated_above
    ?_ ?_ (Nat.zero_le _) ⟨Nat.dvd_zero _, S⟩ h
  · exact hrun.2
  · -- nothing is found: no page from here on
    rintro start w hlt ⟨hwhole, S⟩ hnone
    rw [nextPopulated] at hnone
    have hskip := (nextFrom_spec (M := M) (w := w) parent _ _).2 hnone
    rw [hspan, hdown hwhole] at hskip
    refine ⟨by decide, S.skip (Nat.le_of_lt hlt) fun v hv hlo hhi => ?_⟩
    exact S.absent hv hlo (hskip v hlo hhi)
  · rintro start w block w1 hlt ⟨hwhole, S⟩ hsome hbody
    rw [nextPopulated] at hsome
    have N := (nextFrom_spec (M := M) (w := w) parent _ _).1 block hsome
    rw [hspan, hdown hwhole] at N
    have hblock := N.whole hwhole
    have hend : block + levelSize 1 ≤ USER_LIMIT := by
      obtain ⟨k, hk⟩ := hblock
      have hlimit : USER_LIMIT = levelSize 1 * 67108864 := by decide
      have hbelow := N.below
      rw [hk, hlimit] at hbelow
      have hk' : k + 1 ≤ 67108864 := Nat.lt_of_mul_lt_mul_left hbelow
      calc block + levelSize 1 = levelSize 1 * (k + 1) := by rw [hk, Nat.mul_succ]
        _ ≤ levelSize 1 * 67108864 := Nat.mul_le_mul_left _ hk'
        _ = USER_LIMIT := hlimit.symm
    have S1 := S.skip N.above fun v hv hlo hhi => S.absent hv hlo (N.skipped v hlo hhi)
    exact ⟨hend, Dvd.dvd.add hblock (dvd_refl _), S1.forkBlock L hgives hblock hend hbody⟩

end

/-! ## the call -/

/-- the tables are on frames that are handed out, and no page is one of them -/
structure Alive (M : Machine) (w : World) (root : Phys) : Prop where
  hierarchy : Hierarchy M w.mem root
  counted : ∀ f, 0 < tables M w.mem root f → 0 < w.refs f
  leaves : ∀ virt bits, leaf M w root virt = some bits →
    0 < w.refs (M.addr bits) ∧ tables M w.mem root (M.addr bits) = 0

def Leaf (M : Machine) (w : World) (root f : Phys) : Prop :=
  ∃ virt bits, leaf M w root virt = some bits ∧ M.addr bits = f

lemma Balanced.alive {roots loose : List Phys} (B : Balanced M roots w loose)
    (hr : root ∈ roots) : Alive M w root where
  hierarchy := B.hierarchy root hr
  counted f hf := by
    have hle : tables M w.mem root f ≤ tablesAll M w.mem roots f := tables_le_tablesAll hr f
    have := B.alone f (by omega)
    omega
  leaves virt bits hleaf := by
    obtain ⟨-, hpos⟩ := leavesAll_pos hr hleaf
    have hle : tables M w.mem root (M.addr bits) ≤ tablesAll M w.mem roots (M.addr bits) :=
      tables_le_tablesAll hr _
    have hzero := B.not_table_of_leaf hpos
    have hcount := B.counts (M.addr bits)
    omega

section
variable {M : Machine} {w w' : World} {parent child : MmSpace}

lemma Alive.start (A : Alive M w parent.root) (L : M.Lawful) (hzero : w.refs root = 0) :
    SharedTo M parent.root root (Leaf M w parent.root) w.mem (pages M w parent.root) 0
      (w.allocZeroed root) .empty := by
  have hother : ∀ f, f ≠ root → (w.allocZeroed root).mem f = w.mem f := fun f hf => if_neg hf
  have hparent : tables M w.mem parent.root root = 0 := by
    rcases Nat.eq_zero_or_pos (tables M w.mem parent.root root) with h | h
    · exact h
    · have := A.counted root h
      omega
  have U : Untouched M parent.root w (w.allocZeroed root) := by
    intro f hf
    refine hother f ?_
    rintro rfl
    omega
  have hz : Zeroed (w.allocZeroed root).mem root := by
    intro i
    show (if root = root then fun _ => 0 else w.mem root) i = 0
    rw [if_pos rfl]
  have hchild : ∀ f, tables M (w.allocZeroed root).mem root f = if root = f then 1 else 0 :=
    fun f => tableCount_barren M.format (hz.barren L) DEPTH f
  have hleaf : ∀ f, Leaf M w parent.root f → f ≠ root ∧ 0 < w.refs f ∧
      tables M w.mem parent.root f = 0 := by
    rintro f ⟨virt, bits, hbits, rfl⟩
    obtain ⟨hpos, htable⟩ := A.leaves virt bits hbits
    refine ⟨?_, hpos, htable⟩
    intro heq
    rw [heq] at hpos
    omega
  refine ⟨⟨A.hierarchy.elsewhere U, ⟨hz.hierarchy L, ⟨nodup_nil, ?_, ?_, ?_⟩⟩, ?_, ?_, ?_, ?_⟩,
    ?_, ?_⟩
  · exact fun c hc => absurd hc not_mem_nil
  · exact fun c hc => absurd hc not_mem_nil
  · exact fun c hc => absurd hc not_mem_nil
  · intro f hf
    rw [U.tables_eq] at hf
    refine ⟨?_, not_mem_nil⟩
    rw [hchild, if_neg]
    rintro rfl
    omega
  · intro f hf
    rw [U.tables_eq, hchild] at hf
    show 0 < if f = root then 1 else w.refs f
    split
    · exact Nat.one_pos
    · next hne =>
      rcases hf with hf | hf | hf | hf
      · exact A.counted f hf
      · rw [if_neg fun h => hne h.symm] at hf
        exact absurd hf (Nat.lt_irrefl _)
      · exact absurd hf not_mem_nil
      · exact (hleaf f hf).2.1
  · intro f hf
    obtain ⟨hne, -, htable⟩ := hleaf f hf
    rw [U.tables_eq, hchild, if_neg fun h => hne h.symm]
    exact ⟨htable, rfl, not_mem_nil⟩
  · exact fun f hf => hother f (hleaf f hf).1
  · refine U.holds A.hierarchy fun virt => ?_
    rw [parentAt, if_neg (Nat.not_lt_zero _), pages_pageOf]
  · intro virt
    rw [childAt, if_neg (Nat.not_lt_zero _), pages_eq_held, held]
    cases hw : walk M.format (w.allocZeroed root).mem DEPTH root (route virt DEPTH) with
    | none => rfl
    | some t =>
      rw [walk_barren M.format (hz.barren L)] at hw
      split at hw
      · obtain rfl := some.inj hw
        rw [bind_some, hz, L.present_zero]
        rfl
      · cases hw

/-- what a fork makes of one page: the same frame on both sides, marked and closed to stores if it
could be written -/
def Copied (M : Machine) (before parent child : Option (Phys × Bits)) : Prop :=
  match before with
  | none => parent = none ∧ child = none
  | some (frame, flags) => ∃ flagsP flagsC,
      parent = some (frame, flagsP) ∧ child = some (frame, flagsC) ∧
      (has flags M.writableBit = true → has flagsP M.cowBit = true ∧ has flagsC M.cowBit = true ∧
        (M.grants flagsP 0).write = false ∧ (M.grants flagsC 0).write = false) ∧
      (has flags M.writableBit = false →
        flagsP = flags ∧ ∀ bit ∈ M.permissions, has flagsC bit = has flags bit)

def byteAt (M : Machine) (w : World) (root : Phys) (virt : Nat) : Option (BitVec 8) :=
  (pages M w root virt).map fun e =>
    (w.mem e.1 ⟨virt % PAGE_SIZE / 8, Nat.div_lt_of_lt_mul (Nat.mod_lt _ (by decide))⟩).extractLsb'
      (virt % 8 * 8) 8

lemma entry_present (L : M.Lawful) {frame : Phys} {flags : Bits} (hframe : M.Frame frame)
    (h : has flags M.presentBit = true) :
    entry M frame flags = some (frame, M.flags (M.leaf frame flags)) := by
  rw [entry, if_pos (L.present_leaf frame flags h), read, L.addr_leaf, hframe]

lemma copied (L : M.Lawful) (K : M.Marks) {before : Option Bits}
    (hpresent : ∀ bits, before = some bits → M.present bits = true) :
    Copied M (before.map (read M)) ((before.map (read M)).bind (markSide M))
      ((before.map (read M)).bind (copySide M)) := by
  cases before with
  | none => exact ⟨rfl, rfl⟩
  | some bits =>
    have hflags := L.present_flags bits (hpresent bits rfl)
    have hframe := L.frame_addr bits
    simp only [map_some, bind_some, read, markSide, copySide]
    cases hshared : M.shared (M.flags bits) with
    | none =>
      have hread := (K.shared_none _).mp hshared
      refine ⟨_, _, rfl, entry_present L hframe hflags, fun h => ?_, fun _ => ⟨rfl, ?_⟩⟩
      · rw [hread] at h
        cases h
      · exact L.flags_leaf _ _
    | some shared =>
      have hcow := K.cow_shared _ _ hshared
      have hwrite := K.write_shared (M.addr bits) _ _ hshared
      have hentry := entry_present L hframe (L.present_shared _ _ hshared hflags)
      refine ⟨_, _, hentry, hentry, fun _ => ?_, fun h => ?_⟩
      · rw [L.flags_leaf _ _ _ (by simp [Machine.permissions])]
        exact ⟨hcow, hcow, hwrite, hwrite⟩
      · rw [(K.shared_none _).mpr h] at hshared
        cases hshared

lemma leaf_present {virt : Nat} {bits : Bits} (h : leaf M w root virt = some bits) :
    M.present bits = true := by
  obtain ⟨table, -, hbits⟩ := bind_eq_some_iff.mp h
  simp only [ite_none_right_eq_some, some.injEq] at hbits
  obtain ⟨hpresent, rfl⟩ := hbits
  exact hpresent

lemma fork_shared (L : M.Lawful) (hgives : Gives M choose) (A : Alive M w parent.root)
    (h : fork M choose w parent = (w', some child)) : child.mem = parent.mem ∧
      SharedTo M parent.root child.root (Leaf M w parent.root) w.mem (pages M w parent.root)
        USER_LIMIT w' .empty := by
  rw [fork] at h
  cases hchoose : choose w with
  | none =>
    rw [hchoose] at h
    cases h
  | some root =>
    rw [hchoose] at h
    have S := A.start L (hgives w root hchoose).1
    rcases hrun : forkFrom M choose root parent.root 0 (w.allocZeroed root) with ⟨w1, done⟩
    simp only [hrun] at h
    cases done with
    | false => cases (Prod.mk.inj h).2
    | true =>
      obtain ⟨rfl, hchild⟩ := Prod.mk.inj h
      obtain rfl := some.inj hchild
      exact ⟨rfl, S.forkFrom L hgives hrun⟩

/-- **a fork copies the address space**: the record, and below the limit every page, with what is in
it -/
theorem fork_copies (L : M.Lawful) (K : M.Marks) {choose : World → Option Phys}
    (hgives : Gives M choose) (A : Alive M w parent.root)
    (h : fork M choose w parent = (w', some child)) : child.mem = parent.mem ∧ ∀ virt < USER_LIMIT,
      Copied M (pages M w parent.root virt) (pages M w' parent.root virt)
        (pages M w' child.root virt) ∧
      byteAt M w' child.root virt = byteAt M w parent.root virt := by
  obtain ⟨hmem, S⟩ := fork_shared L hgives A h
  refine ⟨hmem, fun virt hvirt => ?_⟩
  have hpage : pageOf virt < USER_LIMIT :=
    Nat.lt_of_le_of_lt (Nat.le_trans (Nat.div_mul_le_self _ _) (Nat.mod_le _ _)) hvirt
  have hparent : pages M w' parent.root virt = (pages M w parent.root virt).bind (markSide M) := by
    rw [S.parent virt, parentAt, if_pos hpage, ← pages_pageOf]
  have hchild : pages M w' child.root virt = (pages M w parent.root virt).bind (copySide M) := by
    rw [S.child virt, childAt, if_pos hpage, ← pages_pageOf]
  have hcopied : Copied M (pages M w parent.root virt) (pages M w' parent.root virt)
      (pages M w' child.root virt) := by
    rw [hparent, hchild]
    exact copied L K fun bits hbits => leaf_present hbits
  refine ⟨hcopied, ?_⟩
  cases hbefore : leaf M w parent.root virt with
  | none =>
    have hnone : pages M w parent.root virt = none := by rw [pages, hbefore, map_none]
    rw [byteAt, byteAt, hchild, hnone]
    rfl
  | some bits =>
    have hsome : pages M w parent.root virt = some (read M bits) := by
      rw [pages, hbefore, map_some]
    rw [hsome] at hcopied
    obtain ⟨flagsP, flagsC, -, hto, -⟩ := hcopied
    -- the frame is one the parent's pages are in, and those are not stored to
    have hsame := S.forking.same (M.addr bits) ⟨virt, bits, hbefore, rfl⟩
    rw [byteAt, byteAt, hto, hsome, map_some, map_some, hsame]
    rfl

end

/-! ## a page that can be written -/

def onePageWritable : Ledger :=
  (Op.publish 0x1000 0 0x5000 (X8664.PRESENT ||| X8664.WRITABLE) ⟨[0x2000, 0x3000, 0x4000]⟩
    .clean).run x8664 ((Op.create 0x1000).run x8664 fiveFrames)

lemma onePageWritable_reached : onePageWritable.Reached x8664 := by
  refine .call _ (.call _ (.start fiveFrames_start) ⟨by decide, by decide, fun _ => rfl⟩ trivial)
    ⟨by decide, ?_, ?_⟩ (show has (X8664.PRESENT ||| X8664.WRITABLE) X8664.PRESENT = true by decide)
  · exact List.Perm.subperm (by decide)
  · intro c hc
    simp only [mem_cons, not_mem_nil, or_false] at hc
    rcases hc with rfl | rfl | rfl <;> exact ⟨fun _ => rfl, by decide⟩

def eightMore (w : World) : Option Phys :=
  [(0x6000 : Phys), 0x7000, 0x8000, 0x9000, 0xa000, 0xb000, 0xc000, 0xd000].find? (w.refs · == 0)

lemma eightMore_gives : Gives x8664 eightMore := by
  intro w phys h
  refine ⟨by simpa using find?_some h, ?_⟩
  have hmem := mem_of_find?_eq_some h
  simp only [mem_cons, not_mem_nil, or_false] at hmem
  rcases hmem with rfl | rfl | rfl | rfl | rfl | rfl | rfl | rfl <;>
    simp [Machine.Frame, x8664, X8664.ADDR_MASK]

def onePageProgram : MmSpace := ⟨0x1000, ⟨[], 0, 0, 0⟩⟩

lemma onePageProgram_forks :
    (fork x8664 eightMore onePageWritable.w onePageProgram).2.isSome = true := by decide +kernel

/-- a page that could be written -/
theorem fork_copies_onePage : ∃ w' child,
    fork x8664 eightMore onePageWritable.w onePageProgram = (w', some child) ∧
      Copied x8664 (pages x8664 onePageWritable.w 0x1000 0) (pages x8664 w' 0x1000 0)
        (pages x8664 w' child.root 0) := by
  have hroot : onePageProgram.root ∈ onePageWritable.roots := by decide
  have A := (onePageWritable_reached.books x8664_lawful).alive hroot
  have hforks := onePageProgram_forks
  rcases h : fork x8664 eightMore onePageWritable.w onePageProgram with ⟨w', _ | child⟩
  · rw [h] at hforks
    cases hforks
  · have copies := fork_copies x8664_lawful x8664_marks eightMore_gives A h
    exact ⟨w', child, rfl, (copies.2 0 (by decide)).1⟩

end ClaudeOs.Mm
