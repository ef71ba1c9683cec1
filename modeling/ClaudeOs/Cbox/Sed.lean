import Mathlib.Data.List.NodupEquivFin

/-!
# Ranges and substitution in sed

`Address::matches`, `Command::selects` and `substitute` of cbox's sed, over the cycles that come to
a command and over what a pattern finds in a line.

* `posix`  the lines of the ranges in a whole input;
* `run_posix`  those are selected, if no range opens with its end beside or behind it;
* `proper`, `replaced`  the matches that count, and the line with the selected ones replaced;
* `substitute_iff`  when that comes out.
-/

namespace ClaudeOs.Cbox.Sed
open List

/-- the number of a line, whether it is the last, and the pattern space -/
structure Cycle where
  number : Nat
  last : Bool
  space : List UInt8

inductive Address where
  | always
  | line (want : Nat)
  | last
  | pattern (isMatch : List UInt8 → Bool)

def Address.matches (cycle : Cycle) : Address → Bool
  | always => true
  | line want => cycle.number == want
  | last => cycle.last
  | pattern isMatch => isMatch cycle.space

structure Command where
  start : Address
  stop : Option Address
  active : Bool
  negated : Bool

namespace Command

/-- whether the line is chosen, and whether the range is open afterwards -/
def chosen (c : Command) (cycle : Cycle) : Bool × Bool :=
  match c.stop with
  | none => (c.start.matches cycle, c.active)
  | some stop =>
    if c.active then (true, !stop.matches cycle)
    else if c.start.matches cycle then (true, !stop.matches ⟨cycle.number + 1, false, []⟩)
    else (false, false)

def selects (c : Command) (cycle : Cycle) : Bool × Command :=
  ((c.chosen cycle).1 != c.negated, { c with active := (c.chosen cycle).2 })

/-- the lines a command chooses, before negation -/
def run (c : Command) : List Cycle → List Bool
  | [] => []
  | cycle :: cycles => (c.chosen cycle).1 :: (c.selects cycle).2.run cycles

end Command

/-- the cycles of `run` over an input -/
def cyclesOf (lines : List (List UInt8)) : List Cycle :=
  lines.mapIdx fun index line => ⟨index + 1, index + 1 == lines.length, line⟩

/-! ## the lines of the ranges -/

/-- a line number that is not past `number` -/
def Address.notPast (number : Nat) : Address → Bool
  | line want => decide (want ≤ number)
  | _ => false

/-- a range is one line long, or goes to the first later line that its end matches -/
def posix (start stop : Address) : List Cycle → List Bool
  | [] => []
  | cycle :: cycles =>
    if start.matches cycle = false then false :: posix start stop cycles
    else if stop.notPast cycle.number then true :: posix start stop cycles
    else
      let rest := cycles.dropWhile fun c => !stop.matches c
      true :: (cycles.takeWhile (fun c => !stop.matches c) ++ rest.take 1).map (fun _ => true) ++
        posix start stop rest.tail
  termination_by cycles => cycles.length
  decreasing_by
    · exact Nat.lt_succ_self _
    · exact Nat.lt_succ_self _
    · exact Nat.lt_succ_of_le ((tail_suffix _).trans (dropWhile_suffix _)).length_le

/-- the end of a range is neither on the next line nor behind -/
def Address.Beyond (number : Nat) : Address → Prop
  | always => False
  | line want => number + 1 < want
  | last => True
  | pattern isMatch => isMatch [] = false

/-- no line opens a range that ends beside or behind it -/
def Command.Clear (c : Command) : List Cycle → Prop
  | [] => True
  | cycle :: cycles =>
    (c.active = false → c.start.matches cycle = true → ∀ stop ∈ c.stop, stop.Beyond cycle.number) ∧
      (c.selects cycle).2.Clear cycles

variable {start stop : Address} {negated : Bool}

lemma Address.Beyond.notPast {number : Nat} (h : stop.Beyond number) :
    stop.notPast number = false := by
  cases stop with
  | line want => exact decide_eq_false (by simp only [Beyond] at h; omega)
  | _ => rfl

lemma Address.Beyond.opens {number : Nat} (h : stop.Beyond number) :
    stop.matches ⟨number + 1, false, []⟩ = false := by
  cases stop with
  | always => exact h.elim
  | line want => exact beq_false_of_ne (Nat.ne_of_lt h)
  | last => rfl
  | pattern isMatch => exact h

/-- what is selected from inside a range on -/
def through (start stop : Address) (cycles : List Cycle) : List Bool :=
  let rest := cycles.dropWhile fun c => !stop.matches c
  (cycles.takeWhile (fun c => !stop.matches c) ++ rest.take 1).map (fun _ => true) ++
    posix start stop rest.tail

lemma through_cons (cycle : Cycle) (cycles : List Cycle) : through start stop (cycle :: cycles) =
    true :: if !stop.matches cycle then through start stop cycles else posix start stop cycles := by
  cases h : stop.matches cycle <;> simp [through, h]

lemma run_eq (active : Bool) (cycles : List Cycle)
    (h : Command.Clear ⟨start, some stop, active, negated⟩ cycles) :
    Command.run ⟨start, some stop, active, negated⟩ cycles =
      if active then through start stop cycles else posix start stop cycles := by
  induction cycles generalizing active with
  | nil => cases active <;> simp [Command.run, through, posix]
  | cons cycle cycles ih =>
    rw [Command.run, Command.selects, ih _ h.2]
    cases active with
    | true => rw [if_pos rfl, through_cons]; rfl
    | false =>
      cases hstart : start.matches cycle with
      | false => simp [Command.chosen, posix, hstart]
      | true =>
        have hbeyond := h.1 rfl hstart stop rfl
        simp [Command.chosen, hbeyond.opens, hstart, posix, hbeyond.notPast, through]

/-- **the lines of the ranges are selected**, if none opens with its end next to it or behind -/
theorem run_posix (start stop : Address) (negated : Bool) (cycles : List Cycle)
    (h : Command.Clear ⟨start, some stop, false, negated⟩ cycles) :
    Command.run ⟨start, some stop, false, negated⟩ cycles = posix start stop cycles :=
  run_eq false cycles h

/-- the range 1,3 of three lines -/
theorem run_posix_three :
    Command.run ⟨.line 1, some (.line 3), false, false⟩ (cyclesOf [[], [], []]) =
      posix (.line 1) (.line 3) (cyclesOf [[], [], []]) :=
  run_posix _ _ _ _ (by
    simp [Command.Clear, Command.selects, Command.chosen, cyclesOf, Address.matches, Address.Beyond])

/-- **the range 2,3 loses its second line** -/
theorem run_loses_line :
    Command.run ⟨.line 2, some (.line 3), false, false⟩ (cyclesOf [[], [], []]) =
      [false, true, false] ∧
    posix (.line 2) (.line 3) (cyclesOf [[], [], []]) = [false, true, true] :=
  ⟨rfl, by simp [posix, cyclesOf, Address.matches, Address.notPast]⟩

/-! ## substitution -/

/-- a start, an end, and what the groups took -/
abbrev Span (γ : Type*) := Nat × Nat × γ

/-- what `find_captures` gives in a text of some length, from a place on -/
structure Finder (γ : Type*) (length : Nat) where
  find : Nat → Option (Span γ)
  bounds : ∀ {cursor s e g}, find cursor = some (s, e, g) → cursor ≤ s ∧ s ≤ e ∧ e ≤ length

variable {γ : Type*}

/-- an empty match does not advance on its own -/
def next (m : Span γ) : Nat := if m.2.1 = m.1 then m.1 + 1 else m.2.1

lemma Finder.next_lt {length cursor : Nat} {m : Span γ} (regex : Finder γ length)
    (h : regex.find cursor = some m) : length + 1 - next m < length + 1 - cursor := by
  obtain ⟨s, e, g⟩ := m
  have := regex.bounds h
  simp only [next]
  split <;> omega

/-- the bytes from `s` up to `e` -/
def between (line : List UInt8) (s e : Nat) : List UInt8 := (line.drop s).take (e - s)

/-- a replacement: `&` is the match, and a backslash with a digit is a group -/
def expand (text : List UInt8) : List UInt8 → Span (List (Option (Nat × Nat))) → List UInt8
  | [], _ => []
  | 38 :: rest, m => between text m.1 m.2.1 ++ expand text rest m
  | 92 :: b :: rest, m =>
    (if b = 110 then [10]
    else if b = 116 then [9]
    else if 48 ≤ b ∧ b ≤ 57 then
      match m.2.2[(b - 48).toNat]? with
      | some (some (s, e)) => between text s e
      | _ => []
    else [b]) ++ expand text rest m
  | b :: rest, m => b :: expand text rest m

section
variable (line : List UInt8) (fill : Span γ → List UInt8) (global : Bool) (which : Nat)

def takes (seen : Nat) : Bool := decide (which ≤ seen) && (global || seen == which)

/-- the text put in the place of a match -/
def placed (seen : Nat) (m : Span γ) : List UInt8 :=
  if takes global which seen then fill m else between line m.1 m.2.1

/-- the loop of `substitute`: the new text, and whether it changed; past the end nothing is found -/
def substituteFrom (regex : Finder γ line.length) (cursor seen : Nat) : List UInt8 × Bool :=
  match _ : regex.find cursor with
  | none => (line.drop cursor, false)
  | some m =>
    let out := between line cursor m.1 ++ placed line fill global which (seen + 1) m ++
      if m.2.1 = m.1 then (line.drop m.1).take 1 else []
    if takes global which (seen + 1) && !global then (out ++ line.drop (next m), true)
    else
      let rest := substituteFrom regex (next m) (seen + 1)
      (out ++ rest.1, takes global which (seen + 1) || rest.2)
  termination_by line.length + 1 - cursor
  decreasing_by exact regex.next_lt ‹_›

def substitute (regex : Finder γ line.length) : List UInt8 × Bool :=
  substituteFrom line fill global which regex 0 0

/-- the line from `cursor` on, with the selected matches replaced -/
def replaced (cursor seen : Nat) : List (Span γ) → List UInt8
  | [] => line.drop cursor
  | m :: ms => between line cursor m.1 ++ placed line fill global which (seen + 1) m ++
      replaced m.2.1 (seen + 1) ms

end

/-- the successive matches, leftmost first, that do not overlap -/
def Finder.found {length : Nat} (regex : Finder γ length) (cursor : Nat) : List (Span γ) :=
  match _ : regex.find cursor with
  | none => []
  | some m => m :: regex.found (next m)
  termination_by length + 1 - cursor
  decreasing_by exact regex.next_lt ‹_›

/-- without the empty ones right after another -/
def proper (last : Option Nat) : List (Span γ) → List (Span γ)
  | [] => []
  | m :: ms =>
    if m.2.1 = m.1 ∧ last = some m.1 then proper (some m.2.1) ms else m :: proper (some m.2.1) ms

/-- each begins no earlier than the one before ends -/
def Ordered (cursor : Nat) : List (Span γ) → Prop
  | [] => True
  | m :: ms => cursor ≤ m.1 ∧ m.1 ≤ m.2.1 ∧ Ordered m.2.1 ms

variable {length : Nat} {m : Span γ} {line : List UInt8} {fill : Span γ → List UInt8}
  {global : Bool} {which : Nat} {ms : List (Span γ)} {a b c cursor : Nat}

lemma between_drop (line : List UInt8) (h : a ≤ b) :
    between line a b ++ line.drop b = line.drop a := by
  have e : line.drop b = (line.drop a).drop (b - a) := by rw [drop_drop, Nat.add_sub_cancel' h]
  rw [between, e, take_append_drop]

lemma between_append (hab : a ≤ b) (hbc : b ≤ c) :
    between line a b ++ between line b c = between line a c := by
  have h := between_drop (line.take c) hab
  simpa [between, drop_take, take_take, Nat.sub_le_sub_right hbc, hbc] using h

lemma Ordered.mono (h : Ordered b ms) (hab : a ≤ b) : Ordered a ms := by
  cases ms with
  | nil => trivial
  | cons m ms => exact ⟨Nat.le_trans hab h.1, h.2⟩

lemma le_next (m : Span γ) : m.2.1 ≤ next m := by
  unfold next
  split <;> omega

lemma Finder.ordered (regex : Finder γ length) (cursor : Nat) :
    Ordered cursor (regex.found cursor) := by
  fun_induction regex.found cursor with
  | case1 => trivial
  | case2 cursor m h ih =>
    obtain ⟨hs, he, -⟩ := regex.bounds h
    exact ⟨hs, he, ih.mono (le_next m)⟩

/-- bytes before the next match come out as they are -/
lemma replaced_from (h : Ordered b ms) (hab : a ≤ b) (seen : Nat) :
    replaced line fill global which a seen ms =
      between line a b ++ replaced line fill global which b seen ms := by
  cases ms with
  | nil => exact (between_drop line hab).symm
  | cons m ms => simp only [replaced, ← append_assoc, between_append hab h.1]

/-- matches that are not taken, or that are put back, leave the line -/
lemma replaced_same {seen : Nat} (h : Ordered cursor ms) (hf : ∀ i m, ms[i]? = some m →
    takes global which (seen + 1 + i) = true → fill m = between line m.1 m.2.1) :
    replaced line fill global which cursor seen ms = line.drop cursor := by
  induction ms generalizing cursor seen with
  | nil => rfl
  | cons m ms ih =>
    have hplaced : placed line fill global which (seen + 1) m = between line m.1 m.2.1 := by
      unfold placed
      split
      · next ht => exact hf 0 m rfl ht
      · rfl
    rw [replaced, hplaced, ih h.2.2 fun i x hx ht => hf (i + 1) x hx (by rwa [Nat.add_right_comm] at ht),
      append_assoc, between_drop line h.2.1, between_drop line h.1]

/-- after the one that was asked for nothing is replaced -/
lemma replaced_done {seen : Nat} (h : Ordered cursor ms) (hw : which ≤ seen) :
    replaced line fill false which cursor seen ms = line.drop cursor := by
  refine replaced_same h fun i m _ ht => ?_
  simp only [takes, Bool.false_or, Bool.and_eq_true, decide_eq_true_eq, beq_iff_eq] at ht
  omega

lemma Finder.found_some (regex : Finder γ length)
    (h : regex.find cursor = some m) : regex.found cursor = m :: regex.found (next m) := by
  rw [found.eq_def]
  split <;> simp_all

/-- a step over an empty match copies one byte -/
lemma step_replaced (h : Ordered (next m) ms) (seen : Nat) :
    (if m.2.1 = m.1 then (line.drop m.1).take 1 else []) ++
      replaced line fill global which (next m) seen ms =
        replaced line fill global which m.2.1 seen ms := by
  by_cases he : m.2.1 = m.1
  · rw [replaced_from h (le_next m) seen, if_pos he, he, between, next, if_pos he,
      Nat.add_sub_cancel_left]
  · rw [if_neg he, next, if_neg he, nil_append]

lemma substituteFrom_eq (regex : Finder γ line.length) (cursor seen : Nat) :
    (substituteFrom line fill global which regex cursor seen).1 =
      replaced line fill global which cursor seen (regex.found cursor) := by
  fun_induction substituteFrom line fill global which regex cursor seen with
  | case1 cursor seen h =>
    rw [Finder.found.eq_def]
    split
    · rfl
    · simp_all
  | case2 cursor seen m h out htake =>
    rw [Bool.and_eq_true, Bool.not_eq_true'] at htake
    obtain ⟨htake, rfl⟩ := htake
    have hw : which ≤ seen + 1 := by
      simp only [takes, Bool.and_eq_true, decide_eq_true_eq] at htake
      exact htake.1
    have ho := regex.ordered (next m)
    rw [regex.found_some h, replaced, ← step_replaced ho, replaced_done ho hw, ← append_assoc]
    rfl
  | case3 cursor seen m h out htake rest ih =>
    rw [regex.found_some h, replaced, ← step_replaced (regex.ordered (next m)), ← ih, ← append_assoc]
    rfl

lemma proper_sublist (last : Option Nat) (ms : List (Span γ)) : (proper last ms).Sublist ms := by
  induction ms generalizing last with
  | nil => exact .slnil
  | cons m ms ih =>
    rw [proper]
    split
    · exact (ih _).cons m
    · exact (ih _).cons_cons m

lemma Ordered.proper (h : Ordered cursor ms) (last : Option Nat) :
    Ordered cursor (proper last ms) := by
  induction ms generalizing cursor last with
  | nil => trivial
  | cons m ms ih =>
    rw [Sed.proper]
    split
    · exact (ih h.2.2 _).mono (Nat.le_trans h.1 h.2.1)
    · exact ⟨h.1, h.2.1, ih h.2.2 _⟩

/-- a replacement that is longer than its match shows -/
lemma length_replaced (h : Ordered cursor ms)
    (hle : ∀ m : Span γ, (between line m.1 m.2.1).length ≤ (fill m).length) (seen : Nat) :
    (line.drop cursor).length ≤ (replaced line fill global which cursor seen ms).length ∧
    ∀ i m, ms[i]? = some m → takes global which (seen + 1 + i) = true →
      (between line m.1 m.2.1).length < (fill m).length →
      (line.drop cursor).length < (replaced line fill global which cursor seen ms).length := by
  induction ms generalizing cursor seen with
  | nil => exact ⟨le_rfl, nofun⟩
  | cons m ms ih =>
    have hline := congrArg length (between_drop line h.1)
    have hmatch := congrArg length (between_drop line h.2.1)
    have hplaced : (between line m.1 m.2.1).length ≤
        (placed line fill global which (seen + 1) m).length := by
      unfold placed
      split
      · exact hle m
      · rfl
    obtain ⟨hrest, hlonger⟩ := ih h.2.2 (seen + 1)
    simp only [replaced, length_append] at hline hmatch ⊢
    refine ⟨by omega, fun i x hx ht hlt => ?_⟩
    cases i with
    | zero =>
      cases hx
      rw [placed, if_pos ht]
      omega
    | succ i =>
      have := hlonger i x hx (by rwa [Nat.add_right_comm]) hlt
      omega

lemma Ordered.le (h : Ordered cursor ms) : ∀ m ∈ ms, cursor ≤ m.1 := by
  induction ms generalizing cursor with
  | nil => exact nofun
  | cons m ms ih =>
    intro x hx
    rcases mem_cons.1 hx with rfl | hx
    · exact h.1
    · exact h.1.trans (h.2.1.trans (ih h.2.2 x hx))

/-- no two matches begin at one place -/
lemma Finder.starts (regex : Finder γ length) (cursor : Nat) :
    ((regex.found cursor).map Prod.fst).Nodup := by
  fun_induction regex.found cursor with
  | case1 => exact nodup_nil
  | case2 cursor m h ih =>
    have hlt : m.1 < next m := by
      have hm : m.1 ≤ m.2.1 := (regex.bounds h).2.1
      unfold next
      split <;> omega
    refine nodup_cons.2 ⟨fun hm => ?_, ih⟩
    obtain ⟨x, hx, hstart⟩ := mem_map.1 hm
    have := (regex.ordered (next m)).le x hx
    omega

/-- the matches that the loop gets to -/
def reached (global : Bool) (which : Nat) (ms : List (Span γ)) : List (Span γ) :=
  if global then ms else ms.take which

/-- what is found behind those makes no difference -/
lemma replaced_reached {seen : Nat} {back back' : List (Span γ)} (h : Ordered cursor (ms ++ back))
    (h' : Ordered cursor (ms ++ back')) (hw : which ≤ seen + ms.length) :
    replaced line fill false which cursor seen (ms ++ back) =
      replaced line fill false which cursor seen (ms ++ back') := by
  induction ms generalizing cursor seen with
  | nil => exact (replaced_done h hw).trans (replaced_done h' hw).symm
  | cons m ms ih =>
    have hrest := @ih _ (seen + 1) h.2.2 h'.2.2 (by rw [length_cons] at hw; omega)
    simp only [cons_append, replaced, hrest]

/-- a sublist with all of a list's front in it begins with that -/
lemma keeps_front {front back kept : List (Span γ)} (hn : (front ++ back).Nodup)
    (hs : kept.Sublist (front ++ back)) (h : ∀ m ∈ front, m ∈ kept) :
    ∃ back', kept = front ++ back' := by
  obtain ⟨kept', back', rfl, hfront, hback⟩ := sublist_append_iff.1 hs
  have hall : front ⊆ kept' := fun m hm => (mem_append.1 (h m hm)).resolve_right fun hm' =>
    disjoint_of_nodup_append hn hm (hback.mem hm')
  exact ⟨back', by rw [hfront.eq_of_length_le (subperm_of_subset hn.of_append_left hall).length_le]⟩

section
variable {regex : Finder γ line.length}

/-- a match that is replaced has to be a proper one that is -/
lemma taken_proper (h : ∀ fill, replaced line fill global which 0 0 (regex.found 0) =
      replaced line fill global which 0 0 (proper none (regex.found 0))) {j : Nat}
    (hm : (regex.found 0)[j]? = some m) (ht : takes global which (j + 1) = true) :
    ∃ i, (proper none (regex.found 0))[i]? = some m ∧ takes global which (i + 1) = true := by
  by_contra hnone
  have hordered := regex.ordered 0
  -- a replacement that only this match shows in
  let fill (x : Span γ) := (if x.1 = m.1 then [0] else []) ++ between line x.1 x.2.1
  have hfill (x : Span γ) : (between line x.1 x.2.1).length ≤ (fill x).length := by simp [fill]
  have hlong := (length_replaced hordered hfill 0).2 j m hm
    (by rwa [Nat.zero_add, Nat.add_comm]) (by simp [fill])
  rw [h fill, replaced_same (hordered.proper none)] at hlong
  · exact lt_irrefl _ hlong
  intro i x hx hti
  have hne : x.1 ≠ m.1 := fun e => by
    obtain rfl := inj_on_of_nodup_map (regex.starts 0)
      ((proper_sublist none _).mem (mem_of_getElem? hx)) (mem_of_getElem? hm) e
    exact hnone ⟨i, hx, by rwa [Nat.zero_add, Nat.add_comm] at hti⟩
  simp [fill, hne]

/-- **the selected matches are replaced**, whatever the replacement, just when there are too few of
them or the loop gets to no empty one right after another -/
theorem substitute_iff (line : List UInt8) (regex : Finder γ line.length) (global : Bool)
    (which : Nat) :
    (∀ fill, (substitute line fill global which regex).1 =
      replaced line fill global which 0 0 (proper none (regex.found 0))) ↔
    (which ≤ (regex.found 0).length →
      ∀ m ∈ reached global which (regex.found 0), m ∈ proper none (regex.found 0)) := by
  have hordered := regex.ordered 0
  have hsub := proper_sublist none (regex.found 0)
  have hnodup := Nodup.of_map _ (regex.starts 0)
  simp only [substitute, substituteFrom_eq]
  constructor
  · intro h hw m hm
    obtain ⟨e, he⟩ := sublist_iff_exists_orderEmbedding_getElem?_eq.1 hsub
    obtain ⟨j, hj, hjw⟩ : ∃ j, (regex.found 0)[j]? = some m ∧ (global = true ∨ j < which) := by
      cases global with
      | true => exact (mem_iff_getElem?.1 hm).imp fun j hj => ⟨hj, .inl rfl⟩
      | false =>
        obtain ⟨j, hj⟩ := mem_iff_getElem?.1 hm
        rw [reached, if_neg Bool.false_ne_true, getElem?_take] at hj
        split at hj
        · next hlt => exact ⟨j, hj, .inr hlt⟩
        · cases hj
    by_cases hlast : which ≤ j + 1
    · have ht : takes global which (j + 1) = true := by
        simp only [takes, hlast, decide_true, Bool.true_and, Bool.or_eq_true, beq_iff_eq]
        exact hjw.imp_right fun _ => by omega
      obtain ⟨i, hi, -⟩ := taken_proper h hj ht
      exact mem_of_getElem? hi
    -- the one asked for is at its own place, so none before it is left out
    obtain ⟨w, rfl⟩ : ∃ w, which = w + 1 := ⟨which - 1, by omega⟩
    obtain ⟨i, hi, ht⟩ := taken_proper h (getElem?_eq_getElem hw) (by simp [takes])
    have hei : e i = w := by
      rw [he, ← getElem?_eq_getElem hw] at hi
      exact ((getElem?_inj hw hnodup).1 hi.symm).symm
    have hle : w + 1 ≤ i + 1 := by
      simp only [takes, Bool.and_eq_true, decide_eq_true_eq] at ht
      exact ht.1
    have hej := e.strictMono.add_le_nat (i - j) j
    have hij := e.strictMono.add_le_nat j 0
    rw [Nat.sub_add_cancel (by omega), hei] at hej
    rw [Nat.add_zero] at hij
    have hfix : e j = j := by omega
    exact mem_of_getElem? (((he j).trans (by rw [hfix])).trans hj)
  · intro h fill
    by_cases hw : which ≤ (regex.found 0).length
    · cases global with
      | true => rw [hsub.eq_of_length_le (subperm_of_subset hnodup (h hw)).length_le]
      | false =>
        have hfound := take_append_drop which (regex.found 0)
        rw [← hfound] at hnodup hordered
        obtain ⟨back, hback⟩ := keeps_front hnodup (hfound.symm ▸ hsub) (h hw)
        have hlen : which ≤ 0 + ((regex.found 0).take which).length := by
          rw [length_take, Nat.min_eq_left hw, Nat.zero_add]
        have hsame : replaced line fill false which 0 0 _ = replaced line fill false which 0 0 _ :=
          replaced_reached hordered (hback ▸ (regex.ordered 0).proper none) hlen
        rwa [hfound, ← hback] at hsame
    · have hnone (ms : List (Span γ)) (hms : ms.Sublist (regex.found 0)) (ho : Ordered 0 ms) :
          replaced line fill global which 0 0 ms = line.drop 0 := by
        refine replaced_same ho fun i m hm ht => absurd ?_ hw
        have hi := (List.getElem?_eq_some_iff.1 hm).1
        have := hms.length_le
        simp only [takes, Bool.and_eq_true, decide_eq_true_eq] at ht
        omega
      rw [hnone _ (Sublist.refl _) hordered, hnone _ hsub (hordered.proper none)]

end

/-- what `x*` finds in a line of one `x` -/
def manyX : Finder (List (Option (Nat × Nat))) 1 where
  find | 0 => some (0, 1, []) | 1 => some (1, 1, []) | _ => none
  bounds := by
    rintro (_ | _ | _) _ _ _ ⟨⟩ <;> decide

/-- **one run of x is replaced twice** -/
theorem substitute_twice : (substitute [120] (expand [120] [45]) true 1 manyX).1 = [45, 45] ∧
    replaced [120] (expand [120] [45]) true 1 0 0 (proper none (manyX.found 0)) = [45] := by
  have hfound : manyX.found 0 = [(0, 1, []), (1, 1, [])] := by
    rw [manyX.found_some rfl, manyX.found_some rfl, Finder.found.eq_def]
    rfl
  rw [substitute, substituteFrom_eq, hfound]
  decide

end ClaudeOs.Cbox.Sed
