import ClaudeOs.Mm.Frame

/-!
# The references on frames

The frame allocator with the references that are out: what `alloc` and `alloc_contiguous` handed
out and `share` added, and those of the boot map.  A caller frees a reference it has, once.

* `Pool`  the allocator and the references that are out, by frame;
* `Sound`  the four views agree with them;
* `Sound.call`  one call keeps that, as long as a count that is full is not shared;
* `frames_handed_out`  what holds after every run of calls.
-/

namespace ClaudeOs.Mm
open List Nat BitmapAllocator
variable {phys count f refs : Nat}

namespace BitmapAllocator
variable {a : BitmapAllocator} {f g : Nat}

lemma test_take : (a.take f).test g = (decide (g = f) || a.test g) := test_set f g
lemma count_take : (a.take f).count g = if g = f then 1 else a.count g := rfl

lemma inUse_take (hf : f < a.frames) (hclear : a.test f = false) :
    (a.take f).inUse = a.inUse + 1 := inUse_set hf hclear

section
variable {l : List Nat}

@[simp] lemma takeRun_frames : (a.takeRun l).frames = a.frames := by
  induction l generalizing a with
  | nil => rfl
  | cons x l ih => exact ih

lemma test_takeRun : (a.takeRun l).test g = (decide (g ∈ l) || a.test g) := by
  induction l generalizing a with
  | nil => simp [takeRun]
  | cons x l ih =>
    have hstep : (a.takeRun (x :: l)).test g = (((a.set x).setCount x 1).takeRun l).test g := rfl
    rw [hstep, ih, setCount_test, test_set]
    by_cases hx : g = x
    · simp [hx]
    · simp [hx]

lemma count_takeRun : (a.takeRun l).count g = if g ∈ l then 1 else a.count g := by
  induction l generalizing a with
  | nil => simp [takeRun]
  | cons x l ih =>
    have hstep : (a.takeRun (x :: l)).count g = (((a.set x).setCount x 1).takeRun l).count g := rfl
    rw [hstep, ih, count, setCount_refcounts, set_refcounts]
    by_cases hx : g = x
    · simp [hx]
    · simp [hx, count]

lemma inUse_takeRun (hl : l.Nodup) (hf : ∀ x ∈ l, x < a.frames ∧ a.test x = false) :
    (a.takeRun l).inUse = a.inUse + l.length := by
  induction l generalizing a with
  | nil => rfl
  | cons x l ih =>
    obtain ⟨hx, hl⟩ := nodup_cons.mp hl
    obtain ⟨hlt, hclear⟩ := hf x mem_cons_self
    have hrest : ∀ y ∈ l, y < ((a.set x).setCount x 1).frames ∧
        ((a.set x).setCount x 1).test y = false := by
      intro y hy
      obtain ⟨hy', hclear'⟩ := hf y (mem_cons_of_mem x hy)
      have hne : y ≠ x := by
        rintro rfl
        exact hx hy
      exact ⟨hy', by simp [test_set, hne, hclear']⟩
    have hfirst : ((a.set x).setCount x 1).inUse = a.inUse + 1 := inUse_set hlt hclear
    have hstep : (a.takeRun (x :: l)).inUse = (((a.set x).setCount x 1).takeRun l).inUse := rfl
    rw [hstep, ih hl hrest, hfirst, length_cons]
    omega

end

/-- **a run of neighbours** was clear, every frame of it -/
theorem allocContiguous_spec (hused : a.used = a.inUse) (count : Nat) :
    a.allocContiguous count = (a, none) ∨ (∃ f < a.frames, a.test f = false ∧ count = 1 ∧
      a.allocContiguous count = (a.take f, some (f * PAGE_SIZE))) ∨
    ∃ first, first + count ≤ a.frames ∧ (∀ x, first ≤ x → x < first + count → a.test x = false) ∧
      a.allocContiguous count = ((a.takeRun (range' first count)).setUsed (a.used + count),
          some (first * PAGE_SIZE)) := by
  rw [allocContiguous]
  split
  · exact Or.inl rfl
  · next hpos =>
    split
    · next hone =>
      rcases alloc_spec hused with ⟨hnone, -⟩ | ⟨f, hf, hclear, hsome⟩
      · exact Or.inl hnone
      · exact Or.inr (Or.inl ⟨f, hf, hclear, hone, hsome⟩)
    · next hmany =>
      cases hrun : a.findRun count a.frames 0 0 with
      | none => exact Or.inl rfl
      | some f =>
        obtain ⟨hlt, hle, hclear⟩ := findRun_sound (le_refl 0) (by omega)
          (fun x _ hx => absurd hx (not_lt_zero x)) hrun
        exact Or.inr (Or.inr ⟨f + 1 - count, by omega,
          fun x hx hx' => hclear x (by omega) (by omega), rfl⟩)

section
variable (hf : phys / PAGE_SIZE < a.frames)
include hf

section
variable (hset : a.test (phys / PAGE_SIZE) = true)
include hset

lemma free_shared (hmore : 1 < a.count (phys / PAGE_SIZE)) :
    a.free phys = a.setCount (phys / PAGE_SIZE) (a.count (phys / PAGE_SIZE) - 1) := by
  have hremain : a.count (phys / PAGE_SIZE) - 1 > 0 := by omega
  rw [free]
  simp [not_le.mpr hf, hset, hremain]

lemma free_last (hlast : a.count (phys / PAGE_SIZE) ≤ 1) :
    (a.free phys).frames = a.frames ∧ (a.free phys).used = a.used - 1 ∧
      (∀ g, (a.free phys).test g = (decide (g ≠ phys / PAGE_SIZE) && a.test g)) ∧
      ∀ g, g ≠ phys / PAGE_SIZE → (a.free phys).count g = a.count g := by
  have hremain : ¬ a.count (phys / PAGE_SIZE) - 1 > 0 := by omega
  rw [free]
  simp only [ge_iff_le, not_le.mpr hf, decide_false, hset, Bool.not_true, Bool.or_self,
    Bool.false_eq_true, if_false, hremain]
  split
  · refine ⟨rfl, rfl, fun g => ?_, fun g hg => ?_⟩
    · rw [setHint_test, test_clear, setUsed_test, setCount_test]
    · exact if_neg hg
  · refine ⟨rfl, rfl, fun g => ?_, fun g hg => ?_⟩
    · rw [test_clear, setUsed_test, setCount_test]
    · exact if_neg hg

lemma share_spec : a.share phys =
      a.setCount (phys / PAGE_SIZE) (min (a.count (phys / PAGE_SIZE) + 1) MAX_REFERENCES) := by
  rw [share]
  simp [hf, hset]

end
end

lemma share_unused (h : ¬ (phys / PAGE_SIZE < a.frames ∧ a.test (phys / PAGE_SIZE) = true)) :
    a.share phys = a := by
  rw [share]
  simp only [Bool.and_eq_true, decide_eq_true_eq, h, if_false]

end BitmapAllocator

/-- the allocator and the references that are out, by frame -/
structure Pool where
  a : BitmapAllocator
  held : List Nat

inductive FrameCall where
  | alloc
  | allocContiguous (count : Nat)
  | share (phys : Nat)
  | free (phys : Nat)

namespace Pool

def run (s : Pool) : FrameCall → Pool
  | .alloc =>
    match s.a.alloc with
    | (a, some phys) => ⟨a, phys / PAGE_SIZE :: s.held⟩
    | (a, none) => ⟨a, s.held⟩
  | .allocContiguous count =>
    match s.a.allocContiguous count with
    | (a, some phys) => ⟨a, range' (phys / PAGE_SIZE) count ++ s.held⟩
    | (a, none) => ⟨a, s.held⟩
  | .share phys =>
    -- a share of a frame that is not in use adds no reference
    if phys / PAGE_SIZE < s.a.frames && s.a.test (phys / PAGE_SIZE) then
      ⟨s.a.share phys, phys / PAGE_SIZE :: s.held⟩
    else ⟨s.a.share phys, s.held⟩
  | .free phys => ⟨s.a.free phys, s.held.erase (phys / PAGE_SIZE)⟩

def Allowed (s : Pool) : FrameCall → Prop
  | .free phys => phys / PAGE_SIZE ∈ s.held
  | _ => True

def Meets (s : Pool) : FrameCall → Prop
  | .share phys => s.a.count (phys / PAGE_SIZE) < MAX_REFERENCES
  | _ => True

inductive Reached (ok : Pool → FrameCall → Prop) (s₀ : Pool) : Pool → Prop
  | start : Reached ok s₀ s₀
  | call {s : Pool} (before : Reached ok s₀ s) (c : FrameCall) (h : ok s c) :
      Reached ok s₀ (s.run c)

/-- the bits, the number in use, the counts and the references that are out agree -/
structure Sound (s : Pool) : Prop where
  used : s.a.used = s.a.inUse
  held : ∀ f ∈ s.held, f < s.a.frames ∧ s.a.test f = true
  counts : ∀ f < s.a.frames, s.a.test f = true → s.a.count f = s.held.count f

variable {s : Pool} {f : Nat}

lemma Sound.not_held (S : s.Sound) (hclear : s.a.test f = false) : f ∉ s.held := by
  intro hf
  rw [(S.held f hf).2] at hclear
  cases hclear

lemma page_div (f : Nat) : f * PAGE_SIZE / PAGE_SIZE = f := Nat.mul_div_cancel f (by decide)

lemma Sound.take (S : s.Sound) (hf : f < s.a.frames) (hclear : s.a.test f = false) :
    Sound ⟨s.a.take f, f :: s.held⟩ where
  used := by
    rw [inUse_take hf hclear, ← S.used]
    rfl
  held g hg := by
    refine ⟨?_, ?_⟩
    · rcases mem_cons.mp hg with rfl | hg
      · exact hf
      · exact (S.held g hg).1
    · rw [test_take]
      rcases mem_cons.mp hg with rfl | hg
      · simp
      · simp [(S.held g hg).2]
  counts g hg hset := by
    rw [count_take]
    by_cases hgf : g = f
    · rw [if_pos hgf, hgf, count_cons_self, count_eq_zero.mpr (S.not_held hclear)]
    · rw [test_take] at hset
      rw [if_neg hgf, count_cons_of_ne (Ne.symm hgf)]
      exact S.counts g hg (by simpa [hgf] using hset)

lemma Sound.takeRun (S : s.Sound) {first : Nat} (hle : first + count ≤ s.a.frames)
    (hclear : ∀ x, first ≤ x → x < first + count → s.a.test x = false) :
    Sound ⟨(s.a.takeRun (range' first count)).setUsed (s.a.used + count),
      range' first count ++ s.held⟩ where
  used := by
    have hfree : ∀ x ∈ range' first count, x < s.a.frames ∧ s.a.test x = false := by
      intro x hx
      obtain ⟨hlo, hhi⟩ := mem_range'_1.mp hx
      exact ⟨by omega, hclear x hlo hhi⟩
    have hcount := inUse_takeRun nodup_range' hfree
    rw [length_range'] at hcount
    rw [setUsed_used, S.used, ← hcount]
    rfl
  held g hg := by
    rw [setUsed_frames, takeRun_frames, setUsed_test, test_takeRun]
    rcases mem_append.mp hg with hg | hg
    · have := mem_range'_1.mp hg
      exact ⟨by omega, by simp [hg]⟩
    · exact ⟨(S.held g hg).1, by simp [(S.held g hg).2]⟩
  counts g hg hset := by
    rw [setUsed_frames, takeRun_frames] at hg
    rw [setUsed_test, test_takeRun] at hset
    have hcount : ((s.a.takeRun (range' first count)).setUsed (s.a.used + count)).count g = _ :=
      count_takeRun
    rw [hcount, count_append]
    by_cases hin : g ∈ range' first count
    · have hbounds := mem_range'_1.mp hin
      rw [if_pos hin, count_eq_one_of_mem nodup_range' hin,
        count_eq_zero.mpr (S.not_held (hclear g hbounds.1 hbounds.2))]
    · rw [if_neg hin, count_eq_zero.mpr hin, zero_add]
      exact S.counts g hg (by simpa [hin] using hset)

lemma Sound.share (S : s.Sound) (hf : phys / PAGE_SIZE < s.a.frames)
    (hset : s.a.test (phys / PAGE_SIZE) = true)
    (hroom : s.a.count (phys / PAGE_SIZE) < MAX_REFERENCES) :
    Sound ⟨s.a.share phys, phys / PAGE_SIZE :: s.held⟩ := by
  rw [BitmapAllocator.share_spec hf hset, min_eq_left hroom]
  exact {
    used := S.used
    held := fun g hg => by
      rcases mem_cons.mp hg with rfl | hg
      · exact ⟨hf, hset⟩
      · exact S.held g hg
    counts := fun g hg hset' => by
      rw [BitmapAllocator.count, BitmapAllocator.setCount_refcounts, count_cons]
      have hold := S.counts g hg hset'
      by_cases hgf : g = phys / PAGE_SIZE
      · rw [if_pos hgf, ← hgf, hold]
        simp
      · rw [if_neg hgf]
        simp only [beq_iff_eq, Ne.symm hgf, if_false, add_zero]
        exact hold }

lemma Sound.free (S : s.Sound) (hheld : phys / PAGE_SIZE ∈ s.held) :
    Sound ⟨s.a.free phys, s.held.erase (phys / PAGE_SIZE)⟩ ∧ ∀ g, (s.a.free phys).test g =
        if g = phys / PAGE_SIZE ∧ s.held.count g = 1 then false else s.a.test g := by
  obtain ⟨hf, hset⟩ := S.held _ hheld
  have hcount := S.counts _ hf hset
  have hpos := count_pos_iff.mpr hheld
  have herase (g : Nat) : (s.held.erase (phys / PAGE_SIZE)).count g =
      if g = phys / PAGE_SIZE then s.held.count g - 1 else s.held.count g := by
    split
    · next hg => rw [hg, count_erase_self]
    · next hg => exact count_erase_of_ne hg
  by_cases hmore : 1 < s.a.count (phys / PAGE_SIZE)
  · rw [BitmapAllocator.free_shared hf hset hmore]
    refine ⟨{
      used := S.used
      held := fun g hg => S.held g (mem_of_mem_erase hg)
      counts := fun g hg hset' => ?_ }, fun g => ?_⟩
    · rw [herase, BitmapAllocator.count, BitmapAllocator.setCount_refcounts]
      split
      · next hgf => rw [hgf, hcount]
      · exact S.counts g hg hset'
    · rw [BitmapAllocator.setCount_test, if_neg]
      rintro ⟨rfl, hone⟩
      omega
  · have hone : s.held.count (phys / PAGE_SIZE) = 1 := by omega
    obtain ⟨hframes, hused, htest, hcounts⟩ :=
      BitmapAllocator.free_last hf hset (Nat.le_of_not_lt hmore)
    have htests (g : Nat) : (s.a.free phys).test g =
        if g = phys / PAGE_SIZE ∧ s.held.count g = 1 then false else s.a.test g := by
      rw [htest]
      by_cases hgf : g = phys / PAGE_SIZE
      · subst hgf
        simp [hone]
      · simp [hgf]
    refine ⟨{
      used := ?_
      held := fun g hg => ?_
      counts := fun g hg hset' => ?_ }, htests⟩
    · have hclear := BitmapAllocator.inUse_clear hf hset
      have hsame : (s.a.free phys).inUse = (s.a.clear (phys / PAGE_SIZE)).inUse := by
        rw [BitmapAllocator.inUse, BitmapAllocator.inUse, hframes]
        exact countP_congr fun g _ => by rw [htest, BitmapAllocator.test_clear]
      have := S.used
      show (s.a.free phys).used = (s.a.free phys).inUse
      omega
    · have hne : g ≠ phys / PAGE_SIZE := by
        rintro rfl
        have := count_pos_iff.mpr hg
        rw [herase, if_pos rfl] at this
        omega
      rw [hframes, htest]
      obtain ⟨hlt, hset'⟩ := S.held g (mem_of_mem_erase hg)
      exact ⟨hlt, by simp [hne, hset']⟩
    · rw [hframes] at hg
      rw [htest] at hset'
      have hne : g ≠ phys / PAGE_SIZE := by
        rintro rfl
        simp at hset'
      rw [hcounts g hne, herase, if_neg hne]
      exact S.counts g hg (by simpa [hne] using hset')

def Releases (s : Pool) (c : FrameCall) (f : Nat) : Prop :=
  ∃ phys, c = .free phys ∧ phys / PAGE_SIZE = f ∧ s.held.count f = 1

/-- **one call**: the views agree after it, it keeps the range, and a frame becomes free exactly
when the call frees its last reference -/
theorem Sound.call (S : s.Sound) (c : FrameCall) (allowed : s.Allowed c) (meets : s.Meets c) :
    (s.run c).Sound ∧ (s.run c).a.frames = s.a.frames ∧
      ∀ f, s.a.test f = true ∧ (s.run c).a.test f = false ↔ s.Releases c f := by
  -- a call that sets bits and clears none releases nothing
  have keeps {s' : Pool} (hrun : s.run c = s') (S' : s'.Sound) (hframes : s'.a.frames = s.a.frames)
      (hup : ∀ f, s.a.test f = true → s'.a.test f = true) (hfree : ∀ phys, c ≠ .free phys) :
      (s.run c).Sound ∧ (s.run c).a.frames = s.a.frames ∧
        ∀ f, s.a.test f = true ∧ (s.run c).a.test f = false ↔ s.Releases c f := by
    rw [hrun]
    refine ⟨S', hframes, fun f => ⟨?_, ?_⟩⟩
    · rintro ⟨hset, hclear⟩
      rw [hup f hset] at hclear
      cases hclear
    · rintro ⟨phys, hc, -⟩
      exact absurd hc (hfree phys)
  have takes {f : Nat} (g : Nat) (hg : s.a.test g = true) : (s.a.take f).test g = true := by
    rw [test_take]
    simp [hg]
  cases c with
  | alloc =>
    rcases alloc_spec S.used with ⟨hnone, -⟩ | ⟨f, hf, hclear, hsome⟩
    · exact keeps (by rw [run, hnone]) S rfl (fun _ h => h) fun _ h => by cases h
    · refine keeps ?_ (S.take hf hclear) rfl takes fun _ h => by cases h
      rw [run, hsome]
      dsimp only
      rw [page_div]
  | allocContiguous count =>
    rcases allocContiguous_spec S.used count with
      hnone | ⟨f, hf, hclear, hone, hsome⟩ | ⟨first, hle, hclear, hsome⟩
    · exact keeps (by rw [run, hnone]) S rfl (fun _ h => h) fun _ h => by cases h
    · refine keeps ?_ (S.take hf hclear) rfl takes fun _ h => by cases h
      rw [run, hsome]
      dsimp only
      rw [page_div, hone]
      rfl
    · refine keeps ?_ (S.takeRun hle hclear) takeRun_frames (fun g hg => ?_)
        fun _ h => by cases h
      · rw [run, hsome]
        dsimp only
        rw [page_div]
      · rw [setUsed_test, test_takeRun]
        simp [hg]
  | share phys =>
    by_cases hin : phys / PAGE_SIZE < s.a.frames ∧ s.a.test (phys / PAGE_SIZE) = true
    · refine keeps (by rw [run, if_pos (by simpa using hin)]) (S.share hin.1 hin.2 meets) ?_
        (fun g hg => ?_) fun _ h => by cases h
      · rw [share_spec hin.1 hin.2]
        rfl
      · rw [share_spec hin.1 hin.2, setCount_test]
        exact hg
    · refine keeps ?_ S rfl (fun _ h => h) fun _ h => by cases h
      rw [run, if_neg (by simpa using hin), share_unused hin]
  | free phys =>
    obtain ⟨S', htest⟩ := S.free allowed
    obtain ⟨hf, hset⟩ := S.held _ allowed
    refine ⟨S', ?_, fun f => ?_⟩
    · by_cases hmore : 1 < s.a.count (phys / PAGE_SIZE)
      · rw [run, free_shared hf hset hmore]
        rfl
      · exact (free_last hf hset (Nat.le_of_not_lt hmore)).1
    · have hrun : (s.run (.free phys)).a.test f = _ := htest f
      rw [hrun]
      constructor
      · rintro ⟨hset', hclear⟩
        split at hclear
        · next h => exact ⟨phys, rfl, h.1.symm, h.2⟩
        · rw [hset'] at hclear
          cases hclear
      · rintro ⟨phys', hc, hphys, hone⟩
        obtain rfl := FrameCall.free.inj hc
        rw [if_pos ⟨hphys.symm, hone⟩]
        exact ⟨by rw [← hphys]; exact hset, rfl⟩

/-! ## the boot map -/

def bootHeld (a : BitmapAllocator) : Nat → List Nat
  | 0 => []
  | n + 1 => (if a.test n then replicate (a.refcounts n) n else []) ++ bootHeld a n

/-- the allocator as the boot map leaves it, with the references that keep frames out of
circulation -/
def boot (a : BitmapAllocator) : Pool := ⟨a, bootHeld a a.frames⟩

lemma count_bootHeld (a : BitmapAllocator) (n f : Nat) :
    (bootHeld a n).count f = if f < n ∧ a.test f = true then a.refcounts f else 0 := by
  induction n with
  | zero => simp [bootHeld]
  | succ n ih =>
    have hhead : (if a.test n then replicate (a.refcounts n) n else []).count f =
        if f = n ∧ a.test f = true then a.refcounts f else 0 := by
      by_cases hfn : f = n
      · subst hfn
        cases htest : a.test f with
        | false => simp
        | true => simp
      · cases htest : a.test n with
        | false => simp [hfn]
        | true => simp [hfn, count_replicate, Ne.symm hfn]
    rw [bootHeld, count_append, ih, hhead]
    by_cases hfn : f = n
    · simp [hfn]
    · have hlt : f < n + 1 ↔ f < n := by omega
      simp [hfn, hlt]

lemma Sound.boot {a : BitmapAllocator} (hused : a.used = a.inUse) : (boot a).Sound where
  used := hused
  held f hf := by
    have hpos := count_pos_iff.mpr hf
    rw [Pool.boot, count_bootHeld] at hpos
    split at hpos
    · next h => exact h
    · omega
  counts f hf hset := by
    rw [Pool.boot, count_bootHeld, if_pos ⟨hf, hset⟩]
    rfl

end Pool

namespace BitmapAllocator
variable {a : BitmapAllocator}

/-- the number of set bits is right, and the search starts inside the range -/
def Right (a : BitmapAllocator) : Prop := a.used = a.inUse ∧ a.hint ≤ a.frames

lemma inUse_congr {a b : BitmapAllocator} (hframes : a.frames = b.frames)
    (htest : ∀ f, a.test f = b.test f) : a.inUse = b.inUse := by
  rw [inUse, inUse, hframes]
  exact countP_congr fun f _ => by rw [htest]

lemma Right.markUsed (R : a.Right) (hf : f < a.frames) :
    (a.markUsed f).Right ∧ (a.markUsed f).frames = a.frames := by
  obtain ⟨hused, hhint⟩ := R
  rw [BitmapAllocator.markUsed]
  cases hset : a.test f with
  | true =>
    refine ⟨⟨?_, hhint⟩, rfl⟩
    have hsame : ((a.set f).setCount f 1).inUse = a.inUse := by
      refine inUse_congr rfl fun g => ?_
      rw [setCount_test, test_set]
      by_cases hg : g = f
      · simp [hg, hset]
      · simp [hg]
    exact hused.trans hsame.symm
  | false =>
    refine ⟨⟨?_, hhint⟩, rfl⟩
    have hmore : (a.set f).inUse = a.inUse + 1 := inUse_set hf hset
    rw [← hused] at hmore
    exact hmore.symm

lemma Right.markFree (R : a.Right) (hf : f < a.frames) :
    (a.markFree f).Right ∧ (a.markFree f).frames = a.frames := by
  obtain ⟨hused, hhint⟩ := R
  rw [BitmapAllocator.markFree]
  cases hset : a.test f with
  | true =>
    refine ⟨⟨?_, hhint⟩, rfl⟩
    have hless : (a.clear f).inUse + 1 = a.inUse := inUse_clear hf hset
    have hback : ((a.setUsed (a.used - 1)).clear f).inUse = (a.clear f).inUse := rfl
    have hval : ((a.setUsed (a.used - 1)).clear f).used = a.used - 1 := rfl
    rw [if_pos rfl, hval, hback]
    omega
  | false =>
    refine ⟨⟨?_, hhint⟩, rfl⟩
    have hsame : (a.clear f).inUse = a.inUse := by
      refine inUse_congr rfl fun g => ?_
      rw [test_clear]
      by_cases hg : g = f
      · simp [hg, hset]
      · simp [hg]
    exact hused.trans hsame.symm

lemma Right.foldl {α : Type} {step : BitmapAllocator → α → BitmapAllocator} {n : Nat} {l : List α}
    (hstep : ∀ x ∈ l, ∀ a : BitmapAllocator, a.Right → a.frames = n →
      (step a x).Right ∧ (step a x).frames = n) (R : a.Right) (hn : a.frames = n) :
    (l.foldl step a).Right ∧ (l.foldl step a).frames = n := by
  induction l generalizing a with
  | nil => exact ⟨R, hn⟩
  | cons x l ih =>
    obtain ⟨R', hn'⟩ := hstep x mem_cons_self a R hn
    exact ih (fun y hy => hstep y (mem_cons_of_mem x hy)) R' hn'

lemma Right.markRangeUsed (R : a.Right) (range : Nat × Nat) :
    (a.markRangeUsed range).Right ∧ (a.markRangeUsed range).frames = a.frames := by
  refine Right.foldl (fun f hf b Rb hb => ?_) R rfl
  have hbounds := mem_range'_1.mp hf
  rw [← hb]
  exact Rb.markUsed (by omega)

lemma Right.markRangeFree (R : a.Right) (range : Nat × Nat) :
    (a.markRangeFree range).Right ∧ (a.markRangeFree range).frames = a.frames := by
  refine Right.foldl (fun f hf b Rb hb => ?_) R rfl
  have hbounds := mem_range'_1.mp hf
  rw [← hb]
  exact Rb.markFree (by omega)

/-- **every boot map** leaves the number of set bits right -/
theorem build_right (limit : Nat) (usable taken : List (Nat × Nat)) :
    (build limit usable taken).Right := by
  have fresh : Right ⟨fun _ => BitVec.allOnes 64, fun _ => 0, limit / PAGE_SIZE,
      limit / PAGE_SIZE, 0⟩ := by
    refine ⟨Eq.symm ?_, zero_le _⟩
    refine inUse_eq_frames.mpr fun f _ => ?_
    rw [test, BitVec.getLsbD_allOnes]
    exact decide_eq_true (mod_lt f (by decide))
  have released := Right.foldl (l := usable.map fun r => (r.1, min r.2 limit))
    (fun range _ b Rb hb => hb ▸ Rb.markRangeFree range) fresh rfl
  exact (Right.foldl (l := taken) (fun range _ b Rb hb => hb ▸ Rb.markRangeUsed range) released.1
    released.2).1

end BitmapAllocator

/-! ## whole runs -/

namespace Pool
variable {s0 s : Pool}

lemma Reached.sound (S0 : s0.Sound) (R : Reached (fun s c => s.Allowed c ∧ s.Meets c) s0 s) :
    s.Sound := by
  induction R with
  | start => exact S0
  | call _ c h ih => exact (ih.call c h.1 h.2).1

/-- **the frames handed out** by any calls that share no full count: the bits count the frames in
use, a reference keeps its frame, `alloc` finds one if there is one, and the last free frees it -/
theorem frames_handed_out {a : BitmapAllocator} (hboot : a.Right)
    (R : Reached (fun s c => s.Allowed c ∧ s.Meets c) (boot a) s) :
    s.a.used = s.a.inUse ∧ (∀ f ∈ s.held, f < s.a.frames ∧ s.a.test f = true) ∧
    (s.a.alloc.2 = none ↔ ∀ f < s.a.frames, s.a.test f = true) ∧
    (∀ phys, s.a.alloc.2 = some phys → ∃ f < s.a.frames, phys = f * PAGE_SIZE ∧
      s.a.test f = false ∧ f ∉ s.held) ∧
    (∀ count phys, (s.a.allocContiguous count).2 = some phys → ∃ first, phys = first * PAGE_SIZE ∧
      ∀ f, first ≤ f → f < first + count → f < s.a.frames ∧ s.a.test f = false ∧ f ∉ s.held) ∧
    ∀ c, s.Allowed c → s.Meets c → ∀ f,
      s.a.test f = true ∧ (s.run c).a.test f = false ↔ s.Releases c f := by
  have S := R.sound (Sound.boot hboot.1)
  refine ⟨S.used, S.held, ?_, fun phys hphys => ?_, fun count phys hphys => ?_,
    fun c allowed meets => (S.call c allowed meets).2.2⟩
  · rcases alloc_spec S.used with ⟨hnone, hfull⟩ | ⟨f, hf, hclear, hsome⟩
    · rw [hnone]
      exact ⟨fun _ => hfull, fun _ => rfl⟩
    · rw [hsome]
      refine ⟨fun h => absurd h (by simp), fun hfull => ?_⟩
      rw [hfull f hf] at hclear
      cases hclear
  · rcases alloc_spec S.used with ⟨hnone, -⟩ | ⟨f, hf, hclear, hsome⟩
    · rw [hnone] at hphys
      cases hphys
    · rw [hsome] at hphys
      exact ⟨f, hf, (Option.some.inj hphys).symm, hclear, S.not_held hclear⟩
  · rcases allocContiguous_spec S.used count with
      hnone | ⟨f, hf, hclear, hone, hsome⟩ | ⟨first, hle, hclear, hsome⟩
    · rw [hnone] at hphys
      cases hphys
    · rw [hsome] at hphys
      refine ⟨f, (Option.some.inj hphys).symm, fun g hlo hhi => ?_⟩
      obtain rfl : g = f := by omega
      exact ⟨hf, hclear, S.not_held hclear⟩
    · rw [hsome] at hphys
      refine ⟨first, (Option.some.inj hphys).symm, fun g hlo hhi => ?_⟩
      exact ⟨by omega, hclear g hlo hhi, S.not_held (hclear g hlo hhi)⟩

/-! ## one frame, shared past what its count holds -/

structure One (s : Pool) (count refs : Nat) : Prop where
  frames : s.a.frames = 1
  used : s.a.used = 1
  inUse : s.a.test 0 = true
  count : s.a.count 0 = count
  held : s.held = replicate refs 0

lemma One.at_zero (O : One s count refs) :
    0 / PAGE_SIZE < s.a.frames ∧ s.a.test (0 / PAGE_SIZE) = true :=
  ⟨by rw [O.frames]; decide, O.inUse⟩

lemma One.share (O : One s count refs) :
    One (s.run (.share 0)) (min (count + 1) MAX_REFERENCES) (refs + 1) := by
  obtain ⟨hf, hset⟩ := O.at_zero
  have hrun : s.run (.share 0) = ⟨s.a.share 0, 0 :: s.held⟩ := by
    rw [run, if_pos (by rw [hset, decide_eq_true hf]; rfl)]
    rfl
  rw [hrun, share_spec hf hset]
  refine ⟨O.frames, O.used, O.inUse, ?_, ?_⟩
  · rw [← O.count]
    rfl
  · rw [O.held]
    rfl

lemma One.free (O : One s (count + 2) (refs + 1)) : One (s.run (.free 0)) (count + 1) refs := by
  obtain ⟨hf, hset⟩ := O.at_zero
  have hcount : s.a.count (0 / PAGE_SIZE) = count + 2 := O.count
  have hrun : s.run (.free 0) = ⟨s.a.free 0, s.held.erase 0⟩ := rfl
  rw [hrun, free_shared hf hset (by omega), hcount]
  refine ⟨O.frames, O.used, O.inUse, rfl, ?_⟩
  rw [O.held, replicate_succ, erase_cons_head]

lemma One.shares (R : Reached Allowed s0 s) (O : One s count refs) (hle : count ≤ MAX_REFERENCES)
    (n : Nat) :
    ∃ s', Reached Allowed s0 s' ∧ One s' (min (count + n) MAX_REFERENCES) (refs + n) := by
  induction n with
  | zero => exact ⟨s, R, by rwa [add_zero, add_zero, min_eq_left hle]⟩
  | succ n ih =>
    obtain ⟨s', R', O'⟩ := ih
    refine ⟨_, R'.call (.share 0) trivial, ?_⟩
    have hnext : min (min (count + n) MAX_REFERENCES + 1) MAX_REFERENCES =
        min (count + (n + 1)) MAX_REFERENCES := by omega
    have O'' := O'.share
    rwa [hnext] at O''

lemma One.frees (count refs n : Nat) (R : Reached Allowed s0 s)
    (O : One s (count + 1 + n) (refs + n)) :
    ∃ s', Reached Allowed s0 s' ∧ One s' (count + 1) refs := by
  induction n generalizing s with
  | zero => exact ⟨s, R, O⟩
  | succ n ih =>
    have hheld : 0 / PAGE_SIZE ∈ s.held := by
      rw [O.held, ← add_assoc, replicate_succ]
      exact mem_cons_self
    have hcount : count + 1 + (n + 1) = count + n + 2 := by omega
    rw [hcount] at O
    have O' := O.free
    have hcount' : count + n + 1 = count + 1 + n := by omega
    rw [hcount'] at O'
    exact ih (R.call (.free 0) hheld) O'

/-- the last reference the count knows of, with one more out: the next `alloc` hands the frame out
again -/
lemma One.handed_out_again (R : Reached Allowed s0 s) (O : One s 1 2) :
    ∃ s', Reached Allowed s0 s' ∧ 0 ∈ s'.held ∧ s'.a.alloc.2 = some 0 := by
  obtain ⟨hf, hset⟩ := O.at_zero
  have hheld : 0 / PAGE_SIZE ∈ s.held := by
    rw [O.held]
    decide
  obtain ⟨hframes, hused, htest, -⟩ := BitmapAllocator.free_last hf hset (le_of_eq O.count)
  refine ⟨_, R.call (.free 0) hheld, ?_, ?_⟩
  · show 0 ∈ s.held.erase 0
    rw [O.held]
    decide
  · show (s.a.free 0).alloc.2 = some 0
    have hclear : (s.a.free 0).test 0 = false := by
      rw [htest]
      rfl
    have hright : (s.a.free 0).used = (s.a.free 0).inUse := by
      rw [hused, O.used, BitmapAllocator.inUse, hframes, O.frames]
      simp [range_succ, hclear]
    rcases BitmapAllocator.alloc_spec hright with ⟨-, hfull⟩ | ⟨f, hlt, -, hsome⟩
    · rw [hfull 0 (by rw [hframes, O.frames]; decide)] at hclear
      cases hclear
    · rw [hframes, O.frames, lt_one_iff] at hlt
      rw [hsome, hlt]
      rfl

def oneFrame : BitmapAllocator := .build PAGE_SIZE [(0, PAGE_SIZE)] []

/-- **a full count loses a reference**: a frame shared 65535 times and freed as often is handed out
again while a reference to it is out -/
theorem full_count_handed_out : ∃ s, Reached Allowed (boot oneFrame) s ∧ 0 ∈ s.held ∧
    s.a.alloc.2 = some 0 := by
  have R₁ : Reached Allowed (boot oneFrame) ((boot oneFrame).run .alloc) :=
    Reached.start.call .alloc trivial
  have O₁ : One ((boot oneFrame).run .alloc) 1 1 :=
    ⟨by decide +kernel, by decide +kernel, by decide +kernel, by decide +kernel, by decide +kernel⟩
  obtain ⟨s₂, R₂, O₂⟩ := O₁.shares R₁ (by decide) 65535
  have hfull : min (1 + 65535) MAX_REFERENCES = 0 + 1 + 65534 := by decide
  rw [hfull] at O₂
  obtain ⟨s₃, R₃, O₃⟩ := One.frees 0 2 65534 R₂ O₂
  exact O₃.handed_out_again R₃

/-- one frame given out, shared and freed once -/
theorem frames_handed_out_oneFrame :
    ∃ s, Reached (fun s c => s.Allowed c ∧ s.Meets c) (boot oneFrame) s ∧ s.a.used = s.a.inUse := by
  have R₁ : Reached (fun s c => s.Allowed c ∧ s.Meets c) (boot oneFrame)
      ((boot oneFrame).run .alloc) := Reached.start.call .alloc ⟨trivial, trivial⟩
  have hroom : ((boot oneFrame).run .alloc).a.count 0 < MAX_REFERENCES := by
    decide +kernel
  have R₂ := R₁.call (.share 0) ⟨trivial, hroom⟩
  have hheld : 0 ∈ (((boot oneFrame).run .alloc).run (.share 0)).held := by
    decide +kernel
  have R₃ := R₂.call (.free 0) ⟨hheld, trivial⟩
  exact ⟨_, R₃, (frames_handed_out (build_right _ _ _) R₃).1⟩

end Pool
end ClaudeOs.Mm
