import ClaudeOs.Mm.Guard

/-!
# The frame allocator

`BitmapAllocator` of `mm::frame`: a bit and a count of sixteen bits for every frame, the number of
bits set, and where the next search starts.

* `BitmapAllocator`  the four views, with `test`, `set`, `clear` on the bits;
* `build`  the state the boot map leaves;
* `scan_spec`  what the two passes over the words find;
* `findRun_spec`  what the sweep for neighbours finds.
-/

namespace ClaudeOs.Mm
open List Option BitVec Nat

/-- a bit per frame over the whole usable range, set when the frame is in use -/
structure BitmapAllocator where
  bitmap : Nat → BitVec 64
  refcounts : Nat → Nat
  frames : Nat
  used : Nat
  hint : Nat

namespace BitmapAllocator
variable (a : BitmapAllocator)

section
variable (frame : Nat)

def test : Bool := (a.bitmap (frame / 64)).getLsbD (frame % 64)

def set : BitmapAllocator where
  bitmap := fun w => if w = frame / 64 then a.bitmap w ||| (1#64 <<< (frame % 64)) else a.bitmap w
  refcounts := a.refcounts
  frames := a.frames
  used := a.used
  hint := a.hint

def clear : BitmapAllocator where
  bitmap := fun w =>
    if w = frame / 64 then a.bitmap w &&& ~~~(1#64 <<< (frame % 64)) else a.bitmap w
  refcounts := a.refcounts
  frames := a.frames
  used := a.used
  hint := a.hint

def count : Nat := a.refcounts frame

def setCount (value : Nat) : BitmapAllocator where
  bitmap := a.bitmap
  refcounts := fun f => if f = frame then value else a.refcounts f
  frames := a.frames
  used := a.used
  hint := a.hint

def setUsed (used : Nat) : BitmapAllocator where
  bitmap := a.bitmap
  refcounts := a.refcounts
  frames := a.frames
  used := used
  hint := a.hint

def setHint (hint : Nat) : BitmapAllocator where
  bitmap := a.bitmap
  refcounts := a.refcounts
  frames := a.frames
  used := a.used
  hint := hint

/-! ## the boot map -/

def covered : Nat := a.frames * PAGE_SIZE

/-- take one frame out of circulation, with the reference that keeps it out -/
def markUsed : BitmapAllocator :=
  let a := if a.test frame then a else a.setUsed (a.used + 1)
  (a.set frame).setCount frame 1

def markFree : BitmapAllocator :=
  let a := if a.test frame then a.setUsed (a.used - 1) else a
  a.clear frame

def markRangeUsed (range : Nat × Nat) : BitmapAllocator :=
  let first := min range.1 a.covered / PAGE_SIZE
  let last := min (pageAlignUp (min range.2 a.covered) / PAGE_SIZE) a.frames
  (range' first (last - first)).foldl markUsed a

def markRangeFree (range : Nat × Nat) : BitmapAllocator :=
  let first := pageAlignUp (min range.1 a.covered) / PAGE_SIZE
  let last := min (min range.2 a.covered / PAGE_SIZE) a.frames
  (range' first (last - first)).foldl markFree a

/-- the allocator over a map: what it calls usable released, then what is spoken for taken back -/
def build (limit : Nat) (usable taken : List (Nat × Nat)) : BitmapAllocator :=
  let fresh : BitmapAllocator :=
    ⟨fun _ => allOnes 64, fun _ => 0, limit / PAGE_SIZE, limit / PAGE_SIZE, 0⟩
  let released := (usable.map fun r => (r.1, min r.2 limit)).foldl markRangeFree fresh
  taken.foldl markRangeUsed released

/-! ## the calls -/

/-- the first word from `w` on, of the `n` that follow, with a clear bit: its lowest clear bit -/
def scan : Nat → Nat → Option Nat
  | 0, _ => none
  | n + 1, w =>
    let word := a.bitmap w
    if word != allOnes 64 then
      let frame := w * 64 + (~~~word).ctz.toNat
      if frame < a.frames && !a.test frame then some frame else scan n (w + 1)
    else scan n (w + 1)

/-- one pass of the search, over the words of the frames in `[start, stop)` -/
def pass (start stop : Nat) : Option Nat := a.scan ((stop + 63) / 64 - start / 64) (start / 64)

def take : BitmapAllocator :=
  (((a.set frame).setCount frame 1).setUsed (a.used + 1)).setHint (frame + 1)

end

def alloc : BitmapAllocator × Option Nat :=
  if a.used ≥ a.frames then (a, none)
  else
    match (a.pass a.hint a.frames).or (a.pass 0 a.hint) with
    | some frame => (a.take frame, some (frame * PAGE_SIZE))
    | none => (a, none)

/-- the last frame of the first run of `count` clear ones among `n`, after `run` clear ones -/
def findRun (count : Nat) : Nat → Nat → Nat → Option Nat
  | 0, _, _ => none
  | n + 1, f, run =>
    if a.test f then findRun count n (f + 1) 0
    else if run + 1 = count then some f
    else findRun count n (f + 1) (run + 1)

def takeRun (frames : List Nat) : BitmapAllocator :=
  frames.foldl (fun a x => (a.set x).setCount x 1) a

def allocContiguous (count : Nat) : BitmapAllocator × Option Nat :=
  if count = 0 then (a, none)
  else if count = 1 then a.alloc
  else
    match a.findRun count a.frames 0 0 with
    | some f =>
      let first := f + 1 - count
      ((a.takeRun (range' first count)).setUsed (a.used + count), some (first * PAGE_SIZE))
    | none => (a, none)

/-- drop one reference; the frame is released when the last goes -/
def free (phys : Nat) : BitmapAllocator :=
  let frame := phys / PAGE_SIZE
  if frame ≥ a.frames || !a.test frame then a
  else
    let remaining := a.count frame - 1
    let a := a.setCount frame remaining
    if remaining > 0 then a
    else
      let a := (a.setUsed (a.used - 1)).clear frame
      if frame < a.hint then a.setHint frame else a

def share (phys : Nat) : BitmapAllocator :=
  let frame := phys / PAGE_SIZE
  if frame < a.frames && a.test frame then
    a.setCount frame (min (a.count frame + 1) MAX_REFERENCES)
  else a

/-! ## the bits -/

section
variable {a} (f g n : Nat)

@[simp] lemma set_refcounts : (a.set f).refcounts = a.refcounts := rfl
@[simp] lemma set_frames : (a.set f).frames = a.frames := rfl
@[simp] lemma setCount_test : (a.setCount f n).test = a.test := rfl
@[simp] lemma setUsed_test : (a.setUsed n).test = a.test := rfl
@[simp] lemma setUsed_frames : (a.setUsed n).frames = a.frames := rfl
@[simp] lemma setUsed_used : (a.setUsed n).used = n := rfl
@[simp] lemma setHint_test : (a.setHint n).test = a.test := rfl

lemma setCount_refcounts : (a.setCount f n).refcounts g = if g = f then n else a.refcounts g := rfl

lemma mask_getLsbD {j k : Nat} (hj : j < 64) : (1#64 <<< k).getLsbD j = decide (j = k) := by
  simp only [getLsbD_shiftLeft, getLsbD_one, hj, decide_true, Bool.true_and]
  by_cases hjk : j = k
  · simp [hjk]
  · by_cases hlt : j < k
    · simp [hlt, hjk]
    · have : j - k ≠ 0 := by omega
      simp [hlt, hjk, this]

lemma test_set : (a.set f).test g = (decide (g = f) || a.test g) := by
  rw [test, test]
  by_cases hw : g / 64 = f / 64
  · have hgf : g % 64 = f % 64 ↔ g = f := by omega
    simp only [set, hw, if_true, getLsbD_or, mask_getLsbD (mod_lt g (by decide)), hgf]
    exact Bool.or_comm _ _
  · have hgf : g ≠ f := by
      rintro rfl
      exact hw rfl
    simp [set, hw, hgf]

lemma test_clear : (a.clear f).test g = (decide (g ≠ f) && a.test g) := by
  rw [test, test]
  by_cases hw : g / 64 = f / 64
  · have hlt : g % 64 < 64 := mod_lt g (by decide)
    have hgf : g % 64 = f % 64 ↔ g = f := by omega
    simp only [clear, hw, if_true, getLsbD_and, getLsbD_not, hlt, decide_true,
      Bool.true_and, mask_getLsbD hlt, hgf, ne_eq, decide_not]
    exact Bool.and_comm _ _
  · have hgf : g ≠ f := by
      rintro rfl
      exact hw rfl
    simp [clear, hw, hgf]

end

def inUse : Nat := (range a.frames).countP a.test

lemma countP_or {l : List Nat} (hl : l.Nodup) {f : Nat} (hf : f ∈ l) {p : Nat → Bool}
    (hp : p f = false) : l.countP (fun g => decide (g = f) || p g) = l.countP p + 1 := by
  induction l with
  | nil => cases hf
  | cons g l ih =>
    obtain ⟨hg, hl⟩ := nodup_cons.mp hl
    by_cases hgf : g = f
    · subst hgf
      have hrest : l.countP (fun x => decide (x = g) || p x) = l.countP p := by
        refine countP_congr fun x hx => ?_
        have hne : x ≠ g := by
          rintro rfl
          exact hg hx
        simp [hne]
      rw [countP_cons, countP_cons, hrest]
      simp [hp]
    · have hf : f ∈ l := (mem_cons.mp hf).resolve_left (Ne.symm hgf)
      rw [countP_cons, countP_cons, ih hl hf]
      simp only [hgf, decide_false, Bool.false_or]
      omega

section
variable {a} {f : Nat}

lemma inUse_set (hf : f < a.frames) (hclear : a.test f = false) :
    (a.set f).inUse = a.inUse + 1 := by
  have htest : (a.set f).test = fun g => decide (g = f) || a.test g := funext fun g => test_set f g
  rw [inUse, inUse, htest, set_frames]
  exact countP_or nodup_range (mem_range.mpr hf) hclear

lemma inUse_clear (hf : f < a.frames) (hset : a.test f = true) :
    (a.clear f).inUse + 1 = a.inUse := by
  have hclear : (a.clear f).test f = false := by simp [test_clear]
  rw [← inUse_set (a := a.clear f) hf hclear, inUse, inUse]
  refine countP_congr fun g _ => ?_
  rw [test_set, test_clear]
  by_cases hgf : g = f
  · simp [hgf, hset]
  · simp [hgf]

lemma inUse_le : a.inUse ≤ a.frames := by
  have h := countP_le_length (p := a.test) (l := range a.frames)
  rwa [length_range] at h

lemma inUse_eq_frames : a.inUse = a.frames ↔ ∀ f < a.frames, a.test f = true := by
  have h := countP_eq_length (p := a.test) (l := range a.frames)
  rw [length_range] at h
  rw [inUse, h]
  simp only [mem_range]

end

/-! ## the search -/

section
variable {a} {n w f : Nat}

lemma scan_sound (h : a.scan n w = some f) : f < a.frames ∧ a.test f = false := by
  induction n generalizing w with
  | zero => cases h
  | succ n ih =>
    rw [scan] at h
    split at h
    · dsimp only at h
      split at h
      · next hfound =>
        obtain rfl := some.inj h
        simpa using hfound
      · exact ih h
    · exact ih h

lemma lowest_clear {word : BitVec 64} {j : Nat} (hj : j < 64) (hclear : word.getLsbD j = false) :
    word ≠ allOnes 64 ∧ (~~~word).ctz.toNat ≤ j ∧ word.getLsbD (~~~word).ctz.toNat = false := by
  have hbit : (~~~word).getLsbD j = true := by
    rw [getLsbD_not, hclear]
    simp [hj]
  have hle : (~~~word).ctz.toNat ≤ j := by
    by_contra hlt
    rw [getLsbD_false_of_lt_ctz (by omega)] at hbit
    cases hbit
  have hne : ~~~word ≠ 0#64 := by
    intro hzero
    rw [hzero] at hbit
    simp at hbit
  refine ⟨?_, hle, ?_⟩
  · rintro rfl
    rw [getLsbD_allOnes] at hclear
    simp [hj] at hclear
  · have hlow := getLsbD_true_ctz_of_ne_zero hne
    rw [getLsbD_not] at hlow
    simp only [Bool.and_eq_true, Bool.not_eq_true'] at hlow
    exact hlow.2

lemma scan_complete (hf : f < a.frames) (hclear : a.test f = false) (hlo : w ≤ f / 64)
    (hhi : f / 64 < w + n) : ∃ g, a.scan n w = some g := by
  induction n generalizing w with
  | zero => omega
  | succ n ih =>
    rw [scan]
    by_cases hw : f / 64 = w
    · obtain ⟨hne, hle, hlow⟩ := lowest_clear (mod_lt f (by decide)) hclear
      rw [hw] at hne hle hlow
      have hframe : w * 64 + (~~~a.bitmap w).ctz.toNat < a.frames := by omega
      have hdiv : (w * 64 + (~~~a.bitmap w).ctz.toNat) / 64 = w := by omega
      have hmod : (w * 64 + (~~~a.bitmap w).ctz.toNat) % 64 = (~~~a.bitmap w).ctz.toNat := by omega
      have htest : a.test (w * 64 + (~~~a.bitmap w).ctz.toNat) = false := by
        rw [test, hdiv, hmod]
        exact hlow
      refine ⟨w * 64 + (~~~a.bitmap w).ctz.toNat, ?_⟩
      rw [if_pos (by simpa only [bne_iff_ne] using hne)]
      simp [hframe, htest]
    · obtain ⟨g, hg⟩ := ih (w := w + 1) (by omega) (by omega)
      split
      · dsimp only
        split
        · exact ⟨_, rfl⟩
        · exact ⟨g, hg⟩
      · exact ⟨g, hg⟩

lemma passes_complete (hf : f < a.frames) (hclear : a.test f = false) :
    ∃ g, (a.pass a.hint a.frames).or (a.pass 0 a.hint) = some g := by
  by_cases hside : a.hint / 64 ≤ f / 64
  · obtain ⟨g, hg⟩ : ∃ g, a.pass a.hint a.frames = some g :=
      scan_complete hf hclear hside (by omega)
    exact ⟨g, by rw [hg, some_or]⟩
  · obtain ⟨g, hg⟩ : ∃ g, a.pass 0 a.hint = some g := scan_complete hf hclear (by omega) (by omega)
    cases h : a.pass a.hint a.frames with
    | none => exact ⟨g, by rw [none_or, hg]⟩
    | some g' => exact ⟨g', rfl⟩

/-- **an allocation** hands out a clear frame, and fails only when there is none -/
theorem alloc_spec (hused : a.used = a.inUse) :
    (a.alloc = (a, none) ∧ ∀ f < a.frames, a.test f = true) ∨
    ∃ f < a.frames, a.test f = false ∧ a.alloc = (a.take f, some (f * PAGE_SIZE)) := by
  rw [alloc]
  split
  · next hfull =>
    exact Or.inl ⟨rfl, inUse_eq_frames.mp (le_antisymm inUse_le (hused ▸ hfull))⟩
  · next hroom =>
    have hsome : ∃ f < a.frames, a.test f = false := by
      by_contra hnone
      refine hroom (le_of_eq ?_)
      rw [hused]
      refine (inUse_eq_frames.mpr fun f hf => ?_).symm
      by_contra htest
      exact hnone ⟨f, hf, by simpa using htest⟩
    obtain ⟨f, hf, hclear⟩ := hsome
    obtain ⟨g, hg⟩ := passes_complete hf hclear
    obtain ⟨hlt, htest⟩ : g < a.frames ∧ a.test g = false := by
      rcases or_eq_some_iff.mp hg with h | ⟨-, h⟩
      · exact scan_sound h
      · exact scan_sound h
    exact Or.inr ⟨g, hlt, htest, by rw [hg]⟩

lemma findRun_sound {count run : Nat} (hrun : run ≤ f) (hlt : run < count)
    (hclear : ∀ x, f ≤ x + run → x < f → a.test x = false) {g : Nat}
    (h : a.findRun count n f run = some g) :
    g < f + n ∧ count ≤ g + 1 ∧ ∀ x, g < x + count → x ≤ g → a.test x = false := by
  induction n generalizing f run with
  | zero => cases h
  | succ n ih =>
    rw [findRun] at h
    split at h
    · obtain ⟨hg, hrest⟩ := ih (zero_le _) (by omega) (fun x hx hx' => by omega) h
      exact ⟨by omega, hrest⟩
    · next htest =>
      have hclear' : ∀ x, f + 1 ≤ x + (run + 1) → x < f + 1 → a.test x = false := by
        intro x hx hx'
        rcases lt_or_eq_of_le (le_of_lt_succ hx') with hx'' | rfl
        · exact hclear x (by omega) hx''
        · simpa using htest
      split at h
      · next hcount =>
        obtain rfl := some.inj h
        exact ⟨by omega, by omega, fun x hx hx' => hclear' x (by omega) (by omega)⟩
      · next hcount =>
        obtain ⟨hg, hrest⟩ := ih (by omega) (by omega) hclear' h
        exact ⟨by omega, hrest⟩

end
end BitmapAllocator
end ClaudeOs.Mm
