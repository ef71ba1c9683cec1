import ClaudeOs.Mem.Words
import ClaudeOs.Mm.Marks

/-!
# Whether a page is there when a copy touches it

The address space of a task as the copies of `uaccess` reach it, with siblings that run while
interrupts are on, and while a fault reads a file that makes it sleep.  A watch keeps what was found
ready in the block, whether a fault slept after that, and whether a page was missing when it was
touched.

* `Answer`  what the machine and the siblings do next;
* `Watch`  the address space, and what is watched of it;
* `accessPage`, `backPage`  the look at a page, and the fault that backs it;
* `touched_mapped`  no copy faults unless a fault slept inside a block.
-/

namespace ClaudeOs.Mem
open Mm Call AddressSpace List

/-- flags under which the kernel may touch the page, for a store or not -/
def lets (M : Machine) (write : Bool) (flags : Bits) : Bool :=
  !write || (has flags M.writableBit && !has flags M.cowBit)

namespace AddressSpace
variable (M : Machine) (s : AddressSpace)

def touchable (va : Nat) (write : Bool) : Bool := (s.flagsOf va).any (lets M write)

def Present : Prop := ∀ page e, s.pages page = some e → has e.2 M.presentBit = true

end AddressSpace

section
variable (M : Machine)

structure Answer where
  frames : Frames
  filled : Bool
  enough : Bool
  byte : UInt8
  siblings : AddressSpace → AddressSpace
  kept : ∀ {s : AddressSpace}, s.Present M → (siblings s).Present M

end

structure Watch where
  space : AddressSpace
  clock : Nat
  /-- pages found ready since interrupts went off, for a store or not -/
  held : List (Nat × Bool)
  /-- a fault slept while a page was held -/
  disturbed : Bool
  /-- an access found its page missing, or not to be stored to -/
  faulted : Bool

def planOf (M : Machine) (s : AddressSpace) (page : Nat) : Option Plan :=
  match (plan M s page s).1 with
  | .ok found => found
  | _ => none

/-- whether a store may be made after `breakCow` -/
def cowBroken (M : Machine) (F : Frames) (addr : Nat) (s : AddressSpace) : Bool :=
  match s.pages (pageOf (pageAlignDown addr)) with
  | none => false
  | some (phys, flags) =>
    if !has flags M.cowBit then has flags M.writableBit && has flags M.userBit
    else decide (F.references phys ≤ 1) || F.spare.isSome

namespace Watch
variable {M : Machine} (A : Nat → Answer M) (sleeps : Nat → Bool) (w : Watch)

def tick : Watch := ⟨w.space, w.clock + 1, w.held, w.disturbed, w.faulted⟩
def setSpace (space : AddressSpace) : Watch := ⟨space, w.clock, w.held, w.disturbed, w.faulted⟩

def hold (page : Nat) (write : Bool) : Watch :=
  ⟨w.space, w.clock, (page, write) :: w.held, w.disturbed, w.faulted⟩

def gap : Watch := ⟨(A w.clock).siblings w.space, w.clock + 1, [], w.disturbed, w.faulted⟩

def sleep : Watch :=
  ⟨(A w.clock).siblings w.space, w.clock, w.held, w.disturbed || !w.held.isEmpty, w.faulted⟩

def touch (M : Machine) (va : Nat) (write : Bool) : Watch :=
  ⟨w.space, w.clock, w.held, w.disturbed, w.faulted || !w.space.touchable M va write⟩

/-- a page shared after a fork is taken back for a store; the mark decides, not the permission -/
def accessPage (page : Nat) (write : Bool) : PageAccess × Watch :=
  match w.space.flagsOf (pageAlignDown page) with
  | none => (.absent, w)
  | some flags =>
    if write && (has flags M.cowBit || !has flags M.writableBit) then
      if cowBroken M (A w.clock).frames page w.space then
        (.ready, ((w.setSpace (breakCow M (A w.clock).frames page w.space)).hold page write).tick)
      else (.refused, (w.setSpace (breakCow M (A w.clock).frames page w.space)).tick)
    else (.ready, w.hold page write)

/-- the page is read from whatever the plan names; a file on the data volume waits for the card -/
def fill (plan : Plan) : Watch :=
  match plan.source with
  | .zero => w.tick
  | .file node _ _ => if sleeps node then (w.sleep A).tick else w.tick

def backPage : Nat → Nat → Watch → Bool × Watch
  | 0, _, w => (false, w)
  | tries + 1, page, w =>
    if (w.space.pages (pageOf page)).isSome then (true, w)
    else
      match planOf M w.space page, (A w.clock).frames.spare with
      | none, _ => (false, w)
      | some _, none => (false, w.tick)
      | some plan, some frame =>
        let v := w.fill A sleeps plan
        if !(A w.clock).filled then (false, v)
        else if (v.space.pages (pageOf page)).isSome then (true, v)
        else if planOf M v.space page = some plan ∧ (A w.clock).enough then
          (true, v.setSpace (v.space.change M (.publish (pageOf page) frame plan.flags .empty)))
        else backPage tries page v

def TRIES : Nat := 8

def watched : Space Watch where
  gap := gap A
  accessPage page write w := w.accessPage A page write
  faultIn page w := backPage A sleeps TRIES (pageAlignDown page) w
  load va w := ((A w.clock).byte, (w.touch M va false).tick)
  store va _ w := w.touch M va true

end Watch

/-! ## what every turn of a sibling keeps -/

section
variable {M : Machine} {s : AddressSpace}

lemma AddressSpace.Present.change (L : M.Lawful) (h : s.Present M) (c : Mm.Call) :
    (s.change M c).Present M := by
  intro page e he
  have hset : ∀ {at' : Nat} {new : Option (Phys × Bits)}, PageMap.set s.pages at' new page = some e →
      (∀ e, new = some e → has e.2 M.presentBit = true) → has e.2 M.presentBit = true := by
    intro at' new hnew hpresent
    rw [PageMap.set] at hnew
    by_cases heq : page = at'
    · rw [if_pos heq] at hnew
      exact hpresent e hnew
    · rw [if_neg heq] at hnew
      exact h page e hnew
  have hchange : ∀ {at' : Nat} {new : Phys → Option (Phys × Bits)},
      (PageMap.change s.pages at' new).1 page = some e →
      (∀ p e, new p = some e → has e.2 M.presentBit = true) → has e.2 M.presentBit = true := by
    intro at' new hnew hpresent
    rw [PageMap.change] at hnew
    cases hat : s.pages at' with
    | none =>
      rw [hat] at hnew
      exact h page e hnew
    | some old =>
      rw [hat] at hnew
      exact hset hnew (hpresent old.1)
  cases c with
  | publish virt phys flags stock =>
    rw [AddressSpace.change, AddressSpace.setPages_pages, PageMap.call, PageMap.callWith, Bool.not_true,
      if_neg Bool.false_ne_true] at he
    cases hvirt : s.pages virt with
    | some old =>
      rw [hvirt] at he
      exact h page e he
    | none =>
      rw [hvirt] at he
      exact hset he fun e hentry => (entry_flags L hentry).1
  | replace virt phys flags => exact hchange he fun p e hentry => (entry_flags L hentry).1
  | protect virt flags => exact hchange he fun p e hentry => (entry_flags L hentry).1
  | unmap virt => exact hchange he fun p e hentry => absurd hentry.symm (Option.some_ne_none e)

end

/-! ## what stays touchable -/

lemma pageOf_pageAlignDown (va : Nat) : pageOf (pageAlignDown va) = pageOf va := by
  simp only [pageOf, pageAlignDown, PAGE_SIZE, SPAN, PAGE_BITS, LEVEL_BITS]
  omega

variable {addr page va : Nat} {flags : Bits} {frame : Phys} {v write : Bool}

section
variable {M : Machine} {s : AddressSpace}

lemma touchable_pageAlignDown (va : Nat) (v : Bool) :
    s.touchable M (pageAlignDown va) v = s.touchable M va v := by
  rw [touchable, touchable, flagsOf, flagsOf, pageOf_pageAlignDown]

lemma touchable_read (h : s.touchable M va v = true) : s.touchable M va false = true := by
  rw [touchable, Option.any_eq_true] at h ⊢
  obtain ⟨flags, hflags, _⟩ := h
  exact ⟨flags, hflags, rfl⟩

lemma touchable_of_write (h : s.touchable M va true = true) (v : Bool) :
    s.touchable M va v = true := by
  cases v with
  | true => exact h
  | false => exact touchable_read h

lemma touchable_publish (hnone : ¬ (s.pages (pageOf page)).isSome) (h : s.touchable M va v = true) :
    (s.change M (.publish (pageOf page) frame flags .empty)).touchable M va v = true := by
  rw [← h]
  have hne : pageOf va ≠ pageOf page := by
    intro heq
    rw [touchable, flagsOf, heq, Option.not_isSome_iff_eq_none.mp hnone] at h
    cases h
  rw [touchable, touchable, flagsOf, flagsOf, change, setPages_pages, PageMap.call,
    PageMap.callWith_other _ _ _ hne]

lemma breakCow_cases (L : M.Lawful) (K : M.Marks) (hs : s.Present M) (F : Frames) (addr : Nat) :
    (breakCow M F addr s = s ∧ (cowBroken M F addr s = true → s.touchable M addr true = true)) ∨
    ∃ frame kept, lets M true kept = true ∧ (breakCow M F addr s).pages =
        PageMap.set s.pages (pageOf (pageAlignDown addr)) (some (frame, kept)) := by
  rw [breakCow, cowBroken]
  cases hpage : s.pages (pageOf (pageAlignDown addr)) with
  | none => exact .inl ⟨rfl, fun h => absurd h Bool.false_ne_true⟩
  | some e =>
    obtain ⟨phys, flags⟩ := e
    have hpresent : has flags M.presentBit = true := hs _ _ hpage
    -- what a change of this page to the flags of a page taken back gives
    have hnew : ∀ old, ∃ frame kept, lets M true kept = true ∧
        entry M old (unshared M flags) = some (frame, kept) := by
      intro old
      obtain ⟨frame, kept, hentry, hw, hc⟩ := entry_unshared L K old hpresent
      exact ⟨frame, kept, by rw [lets, hw, hc]; rfl, hentry⟩
    dsimp only
    cases hcow : has flags M.cowBit with
    | false =>
      refine .inl ⟨if_pos rfl, fun h => ?_⟩
      rw [Bool.not_false, if_pos rfl, Bool.and_eq_true] at h
      rw [← touchable_pageAlignDown, touchable, flagsOf, hpage]
      show lets M true flags = true
      rw [lets, h.1, hcow]
      rfl
    | true =>
      rw [Bool.not_true, if_neg Bool.false_ne_true, if_neg Bool.false_ne_true]
      by_cases hlast : F.references phys ≤ 1
      · rw [if_pos hlast]
        obtain ⟨frame, kept, hlets, hentry⟩ := hnew phys
        refine .inr ⟨frame, kept, hlets, ?_⟩
        rw [change, setPages_pages, PageMap.call, PageMap.callWith, PageMap.change, hpage, ← hentry]
      · rw [if_neg hlast]
        cases hspare : F.spare with
        | none => exact .inl ⟨rfl, fun h => by simp [hlast] at h⟩
        | some copy =>
          obtain ⟨frame, kept, hlets, hentry⟩ := hnew copy
          refine .inr ⟨frame, kept, hlets, ?_⟩
          dsimp only
          rw [change, setPages_pages, PageMap.call, PageMap.callWith, PageMap.change, hpage, ← hentry]

lemma touchable_set {s' : AddressSpace} {e : Phys × Bits}
    (hpages : s'.pages = PageMap.set s.pages (pageOf (pageAlignDown addr)) (some e))
    (hlets : lets M true e.2 = true) (h : s.touchable M va v = true ∨ pageOf va = pageOf addr) :
    s'.touchable M va v = true := by
  rw [pageOf_pageAlignDown] at hpages
  by_cases heq : pageOf va = pageOf addr
  · refine touchable_of_write ?_ v
    rw [touchable, flagsOf, hpages, PageMap.set, if_pos heq]
    exact hlets
  · have hold := h.resolve_right heq
    rw [← hold, touchable, touchable, flagsOf, flagsOf, hpages, PageMap.set, if_neg heq]

lemma touchable_breakCow (L : M.Lawful) (K : M.Marks) (hs : s.Present M) (F : Frames) (addr : Nat)
    (h : s.touchable M va v = true) : (breakCow M F addr s).touchable M va v = true := by
  rcases breakCow_cases L K hs F addr with ⟨hsame, -⟩ | ⟨frame, kept, hlets, hpages⟩
  · rw [hsame]
    exact h
  · exact touchable_set hpages hlets (.inl h)

lemma touchable_of_cowBroken (L : M.Lawful) (K : M.Marks) (hs : s.Present M) {F : Frames}
    (h : cowBroken M F addr s = true) (v : Bool) :
    (breakCow M F addr s).touchable M addr v = true := by
  rcases breakCow_cases L K hs F addr with ⟨hsame, htouch⟩ | ⟨frame, kept, hlets, hpages⟩
  · rw [hsame]
    exact touchable_of_write (htouch h) v
  · exact touchable_set hpages hlets (.inr rfl)

end

/-! ## the steps of a copy -/

namespace Watch
variable {M : Machine} {A : Nat → Answer M} {sleeps : Nat → Bool} {w : Watch}

structure Sound (M : Machine) (w : Watch) : Prop where
  faulted : w.faulted = false
  held : ∀ h ∈ w.held, w.space.touchable M h.1 h.2 = true

lemma accessPage_cases (w : Watch) (page : Nat) (write : Bool) :
    w.accessPage A page write = (.absent, w) ∨ w.accessPage A page write =
      (.refused, (w.setSpace (breakCow M (A w.clock).frames page w.space)).tick) ∨
    cowBroken M (A w.clock).frames page w.space = true ∧ w.accessPage A page write =
      (.ready, ((w.setSpace (breakCow M (A w.clock).frames page w.space)).hold page write).tick) ∨
    w.space.touchable M page write = true ∧
      w.accessPage A page write = (.ready, w.hold page write) := by
  rw [accessPage, ← touchable_pageAlignDown, touchable]
  cases w.space.flagsOf (pageAlignDown page) with
  | none => exact .inl rfl
  | some flags =>
    dsimp only
    cases hask : write && (has flags M.cowBit || !has flags M.writableBit) with
    | false =>
      refine .inr (.inr (.inr ⟨?_, rfl⟩))
      rw [Option.any_some, lets]
      revert hask
      cases write <;> cases has flags M.cowBit <;> cases has flags M.writableBit <;> decide
    | true =>
      cases hbroken : cowBroken M (A w.clock).frames page w.space with
      | false => exact .inr (.inl rfl)
      | true => exact .inr (.inr (.inl ⟨rfl, rfl⟩))

lemma sound_accessPage (L : M.Lawful) (K : M.Marks) (hp : w.space.Present M) (page : Nat)
    (write : Bool) : (w.accessPage A page write).2.space.Present M ∧
      (w.Sound M → (w.accessPage A page write).2.Sound M) := by
  have hpresent := (breakCow_keeps (P := AddressSpace.Present M) (fun _ c h => h.change L c)
    (A w.clock).frames page hp).1
  have hcow : w.Sound M → ∀ h ∈ w.held,
      (breakCow M (A w.clock).frames page w.space).touchable M h.1 h.2 = true :=
    fun S h hh => touchable_breakCow L K hp _ page (S.held h hh)
  rcases accessPage_cases (A := A) w page write with h | h | ⟨hbroken, h⟩ | ⟨htouch, h⟩ <;> rw [h]
  · exact ⟨hp, id⟩
  · exact ⟨hpresent, fun S => ⟨S.faulted, hcow S⟩⟩
  · refine ⟨hpresent, fun S => ⟨S.faulted, fun h hh => ?_⟩⟩
    rcases mem_cons.mp hh with rfl | hh
    · exact touchable_of_cowBroken L K hp hbroken write
    · exact hcow S h hh
  · refine ⟨hp, fun S => ⟨S.faulted, fun h hh => ?_⟩⟩
    rcases mem_cons.mp hh with rfl | hh
    · exact htouch
    · exact S.held h hh

lemma kept_accessPage (page : Nat) (write : Bool) :
    (w.accessPage A page write).2.disturbed = w.disturbed ∧
      w.held ⊆ (w.accessPage A page write).2.held := by
  rcases accessPage_cases (A := A) w page write with h | h | ⟨_, h⟩ | ⟨_, h⟩ <;> rw [h]
  · exact ⟨rfl, List.Subset.refl _⟩
  · exact ⟨rfl, List.Subset.refl _⟩
  · exact ⟨rfl, subset_cons_self ..⟩
  · exact ⟨rfl, subset_cons_self ..⟩

lemma ready_accessPage (hready : (w.accessPage A page write).1 = .ready) :
    (page, write) ∈ (w.accessPage A page write).2.held := by
  rcases accessPage_cases (A := A) w page write with h | h | ⟨_, h⟩ | ⟨_, h⟩ <;> rw [h] at hready ⊢
  · cases hready
  · cases hready
  · exact mem_cons_self ..
  · exact mem_cons_self ..

lemma absent_accessPage (habsent : (w.accessPage A page write).1 = .absent) :
    (w.accessPage A page write).2 = w := by
  rcases accessPage_cases (A := A) w page write with h | h | ⟨_, h⟩ | ⟨_, h⟩ <;> rw [h] at habsent ⊢
  · cases habsent
  · cases habsent
  · cases habsent

/-! ## backing a page -/

/-- what a fault leaves is still held, and still touchable unless it slept -/
structure Backed (M : Machine) (w v : Watch) : Prop where
  present : v.space.Present M
  held : v.held = w.held
  first : w.held = [] → v.disturbed = w.disturbed
  calm : v.disturbed = false → w.disturbed = false
  sound : v.disturbed = false → w.Sound M → v.Sound M

section
variable (hp : w.space.Present M)
include hp

lemma Backed.refl : Backed M w w := ⟨hp, rfl, fun _ => rfl, id, fun _ => id⟩

omit hp in
lemma Backed.trans {u v : Watch} (h : Backed M w u) (h' : Backed M u v) : Backed M w v where
  present := h'.present
  held := h'.held.trans h.held
  first hnil := (h'.first (h.held.trans hnil)).trans (h.first hnil)
  calm hv := h.calm (h'.calm hv)
  sound hv hw := h'.sound hv (h.sound (h'.calm hv) hw)

lemma Backed.tick : Backed M w w.tick := ⟨hp, rfl, fun _ => rfl, id, fun _ h => ⟨h.faulted, h.held⟩⟩

lemma Backed.sleep : Backed M w (w.sleep A) where
  present := (A w.clock).kept hp
  held := rfl
  first hnil := by
    show (w.disturbed || !w.held.isEmpty) = w.disturbed
    rw [hnil]
    exact Bool.or_false _
  calm hv := (Bool.or_eq_false_iff.mp hv).1
  sound hv hw := by
    have hnil : w.held = [] := by
      have hempty := (Bool.or_eq_false_iff.mp hv).2
      rw [Bool.not_eq_false'] at hempty
      exact isEmpty_iff.mp hempty
    refine ⟨hw.faulted, fun h hh => ?_⟩
    have hin : h ∈ w.held := hh
    rw [hnil] at hin
    exact absurd hin not_mem_nil

lemma Backed.fill (plan : Plan) : Backed M w (w.fill A sleeps plan) := by
  rw [Watch.fill]
  cases plan.source with
  | zero => exact .tick hp
  | file node offset want =>
    dsimp only
    split
    · exact (Backed.sleep hp).trans (.tick ((A w.clock).kept hp))
    · exact .tick hp

end

lemma Backed.publish (L : M.Lawful) (hp : w.space.Present M)
    (hnone : ¬ (w.space.pages (pageOf page)).isSome) :
    Backed M w (w.setSpace (w.space.change M (.publish (pageOf page) frame flags .empty))) where
  present := hp.change L _
  held := rfl
  first _ := rfl
  calm hv := hv
  sound _ hw := ⟨hw.faulted, fun h hh => touchable_publish hnone (hw.held h hh)⟩

lemma backPage_backed (L : M.Lawful) (sleeps : Nat → Bool) (tries page : Nat)
    (hp : w.space.Present M) : Backed M w (backPage A sleeps tries page w).2 := by
  induction tries generalizing w with
  | zero => exact .refl hp
  | succ tries ih =>
    rw [backPage]
    split
    · exact .refl hp
    · split
      · exact .refl hp
      · exact .tick hp
      · rename_i plan frame _ _
        have hfill : Backed M w (w.fill A sleeps plan) := .fill hp plan
        dsimp only
        split
        · exact hfill
        · split
          · exact hfill
          · rename_i hnone
            split
            · exact hfill.trans (.publish L hfill.present hnone)
            · exact hfill.trans (ih hfill.present)

/-! ## the copies -/

lemma Sound.touch (S : w.Sound M) (h : w.space.touchable M va v = true) :
    (w.touch M va v).Sound M := by
  refine ⟨?_, S.held⟩
  show (w.faulted || !w.space.touchable M va v) = false
  rw [S.faulted, h]
  rfl

lemma Sound.touchable (S : w.Sound M) (hheld : (pageAlignDown va, v) ∈ w.held) :
    w.space.touchable M va v = true := by
  have h := S.held _ hheld
  rwa [touchable_pageAlignDown] at h

lemma Sound.tick (S : w.Sound M) : w.tick.Sound M := ⟨S.faulted, S.held⟩

/-- an account that holds until a fault sleeps with a page held -/
def quiet (L : M.Lawful) (K : M.Marks) (A : Nat → Answer M) (sleeps : Nat → Bool) :
    Uaccess.Tally (watched A sleeps) where
  Good w := w.space.Present M ∧ (w.disturbed = false → w.Sound M)
  Calm _ := True
  Held w page v := w.disturbed = false → (page, v) ∈ w.held
  gap := fun {w} h => ⟨⟨(A w.clock).kept h.1, fun hd =>
    ⟨(h.2 hd).faulted, fun _ hh => absurd hh not_mem_nil⟩⟩, trivial⟩
  accessPage page write h :=
    have S := sound_accessPage L K h.1 page write
    ⟨S.1, fun hd => S.2 (h.2 ((kept_accessPage page write).1 ▸ hd))⟩
  keeps_accessPage page write _ _ _ hh hd :=
    have kept := kept_accessPage page write
    kept.2 (hh (kept.1 ▸ hd))
  ready _ hready _ := ready_accessPage hready
  absent _ _ := trivial
  faultIn page h _ :=
    have B := backPage_backed (A := A) L sleeps TRIES (pageAlignDown page) h.1
    ⟨B.present, fun hd => B.sound hd (h.2 (B.calm hd))⟩
  keeps_faultIn page _ _ h hh hd :=
    have B := backPage_backed (A := A) L sleeps TRIES (pageAlignDown page) h.1
    B.held ▸ hh (B.calm hd)
  load h hh := ⟨h.1, fun hd => ((h.2 hd).touch (touchable_read ((h.2 hd).touchable (hh hd)))).tick⟩
  keeps_load h := h
  store h hh := ⟨h.1, fun hd => (h.2 hd).touch ((h.2 hd).touchable (hh hd))⟩
  keeps_store h := h

/-- an account for blocks that back a page only before any is held -/
def single (L : M.Lawful) (K : M.Marks) (A : Nat → Answer M) (sleeps : Nat → Bool) :
    Uaccess.Tally (watched A sleeps) where
  Good w := w.space.Present M ∧ w.disturbed = false ∧ w.Sound M
  Calm w := w.held = []
  Held w page v := (page, v) ∈ w.held
  gap := fun {w} h => ⟨⟨(A w.clock).kept h.1, h.2.1, h.2.2.faulted,
    fun _ hh => absurd hh not_mem_nil⟩, rfl⟩
  accessPage page write h :=
    have S := sound_accessPage L K h.1 page write
    ⟨S.1, (kept_accessPage page write).1.trans h.2.1, S.2 h.2.2⟩
  keeps_accessPage page write _ _ _ hh := (kept_accessPage page write).2 hh
  ready _ hready := ready_accessPage hready
  absent hcalm habsent := (congrArg Watch.held (absent_accessPage habsent)).trans hcalm
  faultIn page h hcalm :=
    have B := backPage_backed (A := A) L sleeps TRIES (pageAlignDown page) h.1
    have hd := (B.first hcalm).trans h.2.1
    ⟨B.present, hd, B.sound hd h.2.2⟩
  keeps_faultIn page _ _ h hh :=
    have B := backPage_backed (A := A) L sleeps TRIES (pageAlignDown page) h.1
    B.held ▸ hh
  load h hh := ⟨h.1, h.2.1, (h.2.2.touch (touchable_read (h.2.2.touchable hh))).tick⟩
  keeps_load h := h
  store h hh := ⟨h.1, h.2.1, h.2.2.touch (h.2.2.touchable hh)⟩
  keeps_store h := h

structure Fresh (M : Machine) (w : Watch) : Prop where
  present : w.space.Present M
  held : w.held = []
  disturbed : w.disturbed = false
  faulted : w.faulted = false

lemma Fresh.sound (F : w.Fresh M) : w.Sound M := ⟨F.faulted, fun h hh => by
    rw [F.held] at hh
    exact absurd hh not_mem_nil⟩

end Watch

open Uaccess Watch

/-- **copies touch mapped pages**: one that checks a page at a time never finds it missing, nor does
another unless a fault slept after a page of its block was found ready -/
theorem touched_mapped {M : Machine} (L : M.Lawful) (K : M.Marks) (A : Nat → Answer M)
    (sleeps : Nat → Bool) (utf8 : List UInt8 → Bool) (c : UserCall) {w : Watch} (hw : w.Fresh M) :
    ((c.run (watched A sleeps) utf8 w).2.disturbed = false →
      (c.run (watched A sleeps) utf8 w).2.faulted = false) ∧
    (c.OnePage → (c.run (watched A sleeps) utf8 w).2.faulted = false) := by
  constructor
  · intro hquiet
    have hrun := UserCall.touches (T := quiet L K A sleeps) (s := w) utf8 (c := c)
      (.inl fun _ => trivial) ⟨hw.present, fun _ => hw.sound⟩
    exact (hrun.snd.2 hquiet).faulted
  · intro hone
    have hrun := UserCall.touches (T := single L K A sleeps) (s := w) utf8 (.inr hone)
      ⟨hw.present, hw.disturbed, hw.sound⟩
    exact hrun.snd.2.2.faulted

def Answer.turns {M : Machine} (L : M.Lawful) (F : Frames) (turns : List Turn) : Answer M where
  frames := F
  filled := true
  enough := true
  byte := 0
  siblings s := turns.foldl (fun s t => (t.run M F s).2) s
  kept := by
    intro s hs
    induction turns generalizing s with
    | nil => exact hs
    | cons t turns ih =>
      exact ih (Turn.does (P := AddressSpace.Present M) (fun _ _ h => h) (fun _ c h => h.change L c) F t
        hs).snd

def besideFile : Watch where
  space := {
    mem := ⟨[⟨USER_MMAP_BASE, USER_MMAP_BASE + 0x1000, PROT_WRITE, 0, none⟩,
      ⟨USER_MMAP_BASE + 0x1000, USER_MMAP_BASE + 0x2000, PROT_WRITE, 0, some ⟨7, 0, 0x1000⟩⟩],
      0, 0, USER_MMAP_BASE + 0x2000⟩
    pages := PageMap.set (fun _ => none) USER_MMAP_BASE
      (entry x8664 0x5000 (protToFlags x8664 PROT_WRITE)) }
  clock := 0
  held := []
  disturbed := false
  faulted := false

def oneFrame : Frames := ⟨some 0x6000, fun _ => 1⟩

lemma besideFile_fresh : besideFile.Fresh x8664 where
  present page e he := by
    simp only [besideFile, PageMap.set] at he
    split at he
    · exact (entry_flags x8664_lawful he).1
    · cases he
  held := rfl
  disturbed := rfl
  faulted := rfl

/-- a sibling that takes the first page away, if it runs at tick 1 -/
def unmapsFirst (n : Nat) : Answer x8664 := .turns x8664_lawful oneFrame
  (if n = 1 then [.munmap USER_MMAP_BASE 0x1000,
    .sweep USER_MMAP_BASE (USER_MMAP_BASE + 0x1000) none] else [])

/-- a value in the file's page, while the sibling runs as that is read in -/
theorem touched_mapped_besideFile :
    let w := ((UserCall.readStruct (USER_MMAP_BASE + 0x1000) 16).run
      (watched unmapsFirst fun _ => true) (fun _ => true) besideFile).2
    w.space.mem.vmas.length = 1 ∧ w.faulted = false :=
  ⟨by decide +kernel,
    (touched_mapped x8664_lawful x8664_marks _ _ _ _ besideFile_fresh).1 (by decide +kernel)⟩

/-- the first page was found ready, and is gone when it is read -/
theorem touched_missing : besideFile.Fresh x8664 ∧
    ((UserCall.readStruct (USER_MMAP_BASE + 0xff8) 16).run
      (watched unmapsFirst fun _ => true) (fun _ => true) besideFile).2.faulted = true :=
  ⟨besideFile_fresh, by decide +kernel⟩

end ClaudeOs.Mem
