import Mathlib.Data.Char
import Mathlib.Data.List.Basic

/-!
# The shell's patterns

`match_class` and `matches_pattern` of cbox's shell.  An index into the pattern or the name is the
list from there on; the two indices that the loop saves are what follows the last star and the part
of the name that it was last tried at.

* `matchClass`, `matchFrom`  the class at a bracket, and the loop;
* `tokens`, `Language`  what a pattern denotes;
* `matchFrom_iff`  only the last star need be tried again;
* `matchesPattern_right`  what is answered, and when it is right.
-/

namespace ClaudeOs.Cbox
open List Nat
variable {c : Char} {n p next : List Char} {star : Option (List Char × List Char)}

/-- one item of a class, and the pattern after it -/
def classItem : Char → List Char → (Char × Char) × List Char
  | low, '-' :: high :: rest =>
    if high ≠ ']' then ((low, high), rest) else ((low, low), '-' :: high :: rest)
  | low, rest => ((low, low), rest)

lemma classItem_le (low : Char) (rest : List Char) :
    (classItem low rest).2.length ≤ rest.length := by
  unfold classItem
  split
  · split <;> simp only [length_cons] <;> omega
  · exact le_refl _

def within (c : Char) (range : Char × Char) : Bool := decide (range.1 ≤ c ∧ c ≤ range.2)

/-- the loop of `match_class` -/
def matchClassFrom (c : Char) (negated first hit : Bool) : List Char → Option (Bool × List Char)
  | [] => none
  | low :: rest =>
    if low = ']' ∧ first = false then some (hit != negated, rest)
    else
      matchClassFrom c negated false (hit || within c (classItem low rest).1) (classItem low rest).2
  termination_by p => p.length
  decreasing_by exact lt_succ_of_le (classItem_le ..)

def classNegated (p : List Char) : Bool := p.head? == some '!' || p.head? == some '^'
def classBody (p : List Char) : List Char := if classNegated p then p.tail else p

/-- `match_class`, from past the bracket: whether the class takes `c`, and the pattern after it -/
def matchClass (p : List Char) (c : Char) : Option (Bool × List Char) :=
  matchClassFrom c (classNegated p) true false (classBody p)

/-- what one turn of the loop does -/
inductive Move where
  | advance (p : List Char)
  | star (p : List Char)
  | retry

def move (c : Char) : List Char → Move
  | [] => .retry
  | x :: rest =>
    match if x = '[' then matchClass rest c else none with
    | some (true, p) => .advance p
    | some (false, _) => .retry
    | none =>
      if x = '?' ∨ x = c then .advance rest
      else if x = '*' then .star rest
      else .retry

/-! ## what a pattern denotes -/

/-- the ranges of a class up to its closing bracket, and the pattern after it -/
def classRanges (first : Bool) : List Char → Option (List (Char × Char) × List Char)
  | [] => none
  | low :: rest =>
    if low = ']' ∧ first = false then some ([], rest)
    else
      (classRanges false (classItem low rest).2).map fun x => ((classItem low rest).1 :: x.1, x.2)
  termination_by p => p.length
  decreasing_by exact lt_succ_of_le (classItem_le ..)

inductive Token where
  | star
  | any
  | literal (c : Char)
  | range (negated : Bool) (ranges : List (Char × Char))

def Token.accepts (c : Char) : Token → Bool
  | .star => false
  | .any => true
  | .literal x => x == c
  | .range negated ranges => ranges.any (within c) != negated

lemma matchClassFrom_eq (negated first hit : Bool) : matchClassFrom c negated first hit p =
    (classRanges first p).map fun x => ((hit || x.1.any (within c)) != negated, x.2) := by
  fun_induction matchClassFrom c negated first hit p with
  | case1 => simp [classRanges]
  | case2 first hit low rest h => simp [classRanges, h]
  | case3 first hit low rest h ih =>
    rw [ih, classRanges, if_neg h, Option.map_map]
    congr 1
    funext x
    simp [Bool.or_assoc]

lemma classRanges_length (first : Bool) (p : List Char) :
    ∀ x ∈ classRanges first p, x.2.length < p.length := by
  fun_induction classRanges first p with
  | case1 => exact nofun
  | case2 first low rest hc =>
    rintro x ⟨⟩
    exact lt_succ_self _
  | case3 first low rest hc ih =>
    intro x hx
    obtain ⟨y, hy, rfl⟩ := Option.map_eq_some_iff.1 hx
    exact lt_succ_of_lt (lt_of_lt_of_le (ih y hy) (classItem_le ..))

lemma classBody_le (p : List Char) : (classBody p).length ≤ p.length := by
  unfold classBody
  split <;> simp

/-- the token a pattern begins with, and the pattern after it -/
def nextToken (x : Char) (rest : List Char) : Token × List Char :=
  if x = '*' then (.star, rest)
  else if x = '?' then (.any, rest)
  else
    match if x = '[' then classRanges true (classBody rest) else none with
    | some (ranges, p) => (.range (classNegated rest) ranges, p)
    | none => (.literal x, rest)

lemma nextToken_le (x : Char) (rest : List Char) : (nextToken x rest).2.length ≤ rest.length := by
  unfold nextToken
  split
  · exact le_refl _
  split
  · exact le_refl _
  split
  · next h =>
    split at h
    · exact le_of_lt (lt_of_lt_of_le (classRanges_length _ _ _ h) (classBody_le rest))
    · cases h
  · exact le_refl _

def tokens : List Char → List Token
  | [] => []
  | x :: rest => (nextToken x rest).1 :: tokens (nextToken x rest).2
  termination_by p => p.length
  decreasing_by exact lt_succ_of_le (nextToken_le ..)

def Language : List Token → List Char → Prop
  | [], n => n = []
  | .star :: ts, n => ∃ k, Language ts (n.drop k)
  | _ :: _, [] => False
  | t :: ts, c :: n => t.accepts c = true ∧ Language ts n

/-- a turn of the loop reads the next token -/
lemma move_cons (x : Char) (hc : x = '*' → c ≠ '*') (rest : List Char) : move c (x :: rest) =
    match nextToken x rest with
    | (.star, p) => .star p
    | (t, p) => if t.accepts c then .advance p else .retry := by
  by_cases hb : x = '['
  · subst hb
    have hm : matchClass rest c = (classRanges true (classBody rest)).map fun x =>
        (x.1.any (within c) != classNegated rest, x.2) := matchClassFrom_eq ..
    cases hr : classRanges true (classBody rest) with
    | none => simp [move, nextToken, hm, hr, Token.accepts]
    | some r =>
      have haccepts : (Token.range (classNegated rest) r.1).accepts c =
        (r.1.any (within c) != classNegated rest) := rfl
      rw [hr, Option.map_some, ← haccepts] at hm
      cases h : (Token.range (classNegated rest) r.1).accepts c with
      | false => simp [move, nextToken, hm, hr, h]
      | true => simp [move, nextToken, hm, hr, h]
  by_cases hstar : x = '*'
  · simp [move, nextToken, hstar, Ne.symm (hc hstar)]
  by_cases hany : x = '?'
  · simp [move, nextToken, hany, Token.accepts]
  simp [move, nextToken, hb, hstar, hany, Token.accepts]

/-! ## the loop -/

lemma matchClass_length (p : List Char) (c : Char) :
    ∀ x ∈ matchClass p c, x.2.length < p.length := by
  rw [matchClass, matchClassFrom_eq]
  intro x hx
  obtain ⟨y, hy, rfl⟩ := Option.map_eq_some_iff.1 hx
  exact lt_of_lt_of_le (classRanges_length _ _ y hy) (classBody_le p)

def Move.pattern : Move → Option (List Char)
  | .advance p | .star p => some p
  | .retry => none

lemma move_length (c : Char) (p : List Char) : ∀ q ∈ (move c p).pattern, q.length < p.length := by
  fun_cases move c p with
  | case1 => exact nofun
  | case2 x rest q h =>
    rintro _ ⟨⟩
    split at h
    · exact lt_succ_of_lt (matchClass_length rest c _ h)
    · cases h
  | case3 => exact nofun
  | case4 x rest h => rintro _ ⟨⟩; exact lt_succ_self _
  | case5 x rest h => rintro _ ⟨⟩; exact lt_succ_self _
  | case6 => exact nofun

/-- `matches_pattern`, with the pattern after the last star and the part of the name it was last
tried at -/
def matchFrom : List Char → List Char → Option (List Char × List Char) → Bool
  | [], p, _ => p.all (· == '*')
  | c :: n, p, star =>
    match _ : move c p with
    | .advance q => matchFrom n q star
    | .star q => matchFrom (c :: n) q (some (q, c :: n))
    | .retry =>
      match star with
      | some (ps, _ :: back) => matchFrom back ps (some (ps, back))
      | _ => false
  termination_by n p star =>
    (star.elim p.length fun x => max x.1.length p.length, star.elim 0 fun x => x.2.length, n.length)
  decreasing_by
    · have hq := move_length c p q (by rw [‹move c p = _›]; rfl)
      cases star <;> simp [Prod.lex_def] <;> omega
    · have hq := move_length c p q (by rw [‹move c p = _›]; rfl)
      cases star <;> simp [Prod.lex_def] <;> omega
    · simp [Prod.lex_def]
      omega

def matchesPattern (name pattern : List Char) : Bool := matchFrom name pattern none

/-- where the loop comes to stand: what is left of the name and of the pattern, and the last star -/
inductive Stands (name pattern : List Char) :
    List Char → List Char → Option (List Char × List Char) → Prop
  | start : Stands name pattern name pattern none
  | advance {c n p q star} (h : Stands name pattern (c :: n) p star) (hm : move c p = .advance q) :
      Stands name pattern n q star
  | star {c n p q star} (h : Stands name pattern (c :: n) p star) (hm : move c p = .star q) :
      Stands name pattern (c :: n) q (some (q, c :: n))
  | retry {c n p ps b back} (h : Stands name pattern (c :: n) p (some (ps, b :: back)))
      (hm : move c p = .retry) : Stands name pattern back ps (some (ps, back))

/-- the loop never asks a star of the pattern about a star of the name -/
def Unstarred (name pattern : List Char) : Prop :=
  ∀ n p star, ¬Stands name pattern ('*' :: n) ('*' :: p) star

/-- since the last star, tokens for one character each took what lies between -/
def Resumes (n p : List Char) : Option (List Char × List Char) → Prop
  | none => True
  | some (ps, back) => ∃ seg, Token.star ∉ seg ∧ tokens ps = seg ++ tokens p ∧
      n = back.drop seg.length

/-- the last star can still be tried further on -/
def Later : Option (List Char × List Char) → Prop
  | none => False
  | some (ps, back) => ∃ k, Language (tokens ps) (back.drop (k + 1))

lemma language_append {seg ts : List Token} (hseg : Token.star ∉ seg)
    (h : Language (seg ++ ts) n) : Language ts (n.drop seg.length) := by
  induction seg generalizing n with
  | nil => exact h
  | cons t seg ih =>
    rw [mem_cons, not_or] at hseg
    cases t with
    | star => exact absurd rfl hseg.1
    | _ =>
      cases n with
      | nil => exact h.elim
      | cons c n => exact ih hseg.2 h.2

/-- **what is left of a star** is a place further on for what the loop stands at -/
theorem Later.here (h : Later star) (hr : Resumes n p star) :
    ∃ k, Language (tokens p) (n.drop (k + 1)) := by
  match star, h, hr with
  | some (ps, back), ⟨k, hk⟩, ⟨seg, hseg, hps, hn⟩ =>
    refine ⟨k, ?_⟩
    rw [hn, drop_drop, Nat.add_comm, ← drop_drop]
    exact language_append hseg (hps ▸ hk)

lemma language_nil (p : List Char) : Language (tokens p) [] ↔ p.all (· == '*') = true := by
  induction p with
  | nil => simp [tokens, Language]
  | cons x rest ih =>
    rw [tokens]
    by_cases hx : x = '*'
    · simp [nextToken, hx, Language, ih]
    · have hfalse (t : Token) (ht : t ≠ .star) (ts : List Token) : ¬Language (t :: ts) [] := by
        cases t <;> simp_all [Language]
      refine iff_of_false (hfalse _ ?_ _) (by simp [hx])
      unfold nextToken
      rw [if_neg hx]
      split
      · nofun
      · split <;> nofun

/-- a turn of the loop, in terms of the language -/
lemma move_spec (hc : ∀ q, p = '*' :: q → c ≠ '*') : match move c p with
    | .advance q => ∃ t, t ≠ Token.star ∧ t.accepts c = true ∧ tokens p = t :: tokens q
    | .star q => tokens p = .star :: tokens q
    | .retry => ∀ n, ¬Language (tokens p) (c :: n) := by
  cases p with
  | nil => simp [move, tokens, Language]
  | cons x rest =>
    rw [move_cons x (fun e => hc rest (e ▸ rfl)), tokens]
    obtain ⟨t, q⟩ := nextToken x rest
    cases t with
    | star => rfl
    | _ =>
      dsimp only
      split_ifs with h
      · exact ⟨_, by nofun, h, rfl⟩
      · exact fun n hl => h hl.1

lemma Language.cons_iff {t : Token} {ts : List Token} (ht : t ≠ .star) (ha : t.accepts c = true) :
    Language (t :: ts) (c :: n) ↔ Language ts n := by
  cases t <;> simp_all [Language]

lemma exists_drop_iff (ts : List Token) (n : List Char) : (∃ k, Language ts (n.drop k)) ↔
    Language ts n ∨ ∃ k, Language ts (n.drop (k + 1)) := by
  constructor
  · rintro ⟨_ | k, hk⟩
    · exact .inl hk
    · exact .inr ⟨k, hk⟩
  · rintro (h | ⟨k, hk⟩)
    · exact ⟨0, h⟩
    · exact ⟨k + 1, hk⟩

lemma Resumes.advance (h : Resumes (c :: n) p star) {t : Token} (ht : t ≠ .star)
    (hp : tokens p = t :: tokens next) : Resumes n next star := by
  match star, h with
  | none, _ => trivial
  | some (ps, back), ⟨seg, hseg, hps, hn⟩ =>
    refine ⟨seg ++ [t], by simp [hseg, Ne.symm ht], by rw [hps, hp, append_assoc]; rfl, ?_⟩
    rw [length_append, ← drop_drop, ← hn]
    rfl

/-- **the loop is right about what is left to try** -/
theorem matchFrom_iff {name pattern : List Char} (clear : Unstarred name pattern)
    (hs : Stands name pattern n p star) (h : Resumes n p star) :
    matchFrom n p star = true ↔ Language (tokens p) n ∨ Later star := by
  have hmove {c n p star} (hs : Stands name pattern (c :: n) p star) :=
    @move_spec c p (by rintro q rfl rfl; exact clear _ _ _ hs)
  fun_induction matchFrom n p star with
  | case1 p star =>
    rw [← language_nil]
    refine ⟨.inl, Or.rec id fun hl => ?_⟩
    obtain ⟨k, hk⟩ := hl.here h
    rwa [drop_nil] at hk
  | case2 c n p star q hm ih =>
    have hspec := hmove hs
    rw [hm] at hspec
    obtain ⟨t, ht, ha, hp⟩ := hspec
    rw [hp, Language.cons_iff ht ha]
    exact ih (hs.advance hm) (h.advance ht hp)
  | case3 c n p star q hm ih =>
    have hp := hmove hs
    rw [hm] at hp
    have hall : Language (tokens p) (c :: n) ∨ Later star ↔
        ∃ k, Language (tokens q) ((c :: n).drop k) := by
      rw [hp]
      refine ⟨Or.rec id fun hl => ?_, .inl⟩
      obtain ⟨k, hk⟩ := hl.here h
      rw [hp] at hk
      obtain ⟨j, hj⟩ := hk
      exact ⟨k + 1 + j, by rwa [drop_drop] at hj⟩
    rw [hall, exists_drop_iff]
    exact ih (hs.star hm) ⟨[], nofun, rfl, rfl⟩
  | case4 c n p hm ps b back ih =>
    have hnot := hmove hs
    rw [hm] at hnot
    rw [or_iff_right (hnot n)]
    exact (ih (hs.retry hm) ⟨[], nofun, rfl, rfl⟩).trans (exists_drop_iff (tokens ps) back).symm
  | case5 c n p star hm hstar =>
    have hnot := hmove hs
    rw [hm] at hnot
    refine iff_of_false nofun (not_or.2 ⟨hnot n, fun hl => ?_⟩)
    match star, hl, h with
    | some (ps, []), _, ⟨seg, _, _, hn⟩ => cases hn.trans drop_nil
    | some (ps, b :: back), _, _ => exact hstar ps b back rfl

/-- a star that is taken for a star of the name has taken one character -/
lemma move_sound : match move c p with
    | .advance q => ∀ n, Language (tokens q) n → Language (tokens p) (c :: n)
    | .star q => tokens p = .star :: tokens q
    | .retry => True := by
  by_cases hc : ∀ q, p = '*' :: q → c ≠ '*'
  · have hspec := move_spec hc
    revert hspec
    cases move c p with
    | advance q =>
      rintro ⟨t, ht, ha, hp⟩ n
      exact hp ▸ (Language.cons_iff ht ha).2
    | star q => exact id
    | retry => exact fun _ => trivial
  · push Not at hc
    obtain ⟨q, rfl, rfl⟩ := hc
    simp only [move, tokens, nextToken]
    exact fun n h => ⟨1, h⟩

/-- **what the loop takes is in the language**, whatever stands in the name -/
theorem matchFrom_sound (h : matchFrom n p star = true) : Language (tokens p) n ∨ Later star := by
  fun_induction matchFrom n p star with
  | case1 p star => exact .inl ((language_nil p).2 h)
  | case2 c n p star q hm ih =>
    have hspec := @move_sound c p
    rw [hm] at hspec
    exact (ih h).imp_left (hspec n)
  | case3 c n p star q hm ih =>
    have hp := @move_sound c p
    rw [hm] at hp
    exact .inl (hp ▸ (exists_drop_iff (tokens q) (c :: n)).2 (ih h))
  | case4 c n p hm ps b back ih => exact .inr ((exists_drop_iff (tokens ps) back).2 (ih h))
  | case5 => cases h

/-- **a name that is taken is in the language**, and one that is refused is not, unless the loop asks
a star of the pattern about a star of the name -/
theorem matchesPattern_right (name pattern : List Char) :
    (matchesPattern name pattern = true → Language (tokens pattern) name) ∧
    (Unstarred name pattern →
      (matchesPattern name pattern = true ↔ Language (tokens pattern) name)) := by
  refine ⟨fun h => (matchFrom_sound h).resolve_right id, fun clear => ?_⟩
  exact (matchFrom_iff clear .start trivial).trans (or_iff_left id)

/-- the star of the name `*a` is asked about by `?` only -/
theorem matchesPattern_right_any : Unstarred ['*', 'a'] ['?', 'a'] ∧
    matchesPattern ['*', 'a'] ['?', 'a'] = true := by
  have clear : Unstarred ['*', 'a'] ['?', 'a'] := by
    have hall {n p star} (h : Stands ['*', 'a'] ['?', 'a'] n p star) :
        star = none ∧ ((n, p) = (['*', 'a'], ['?', 'a']) ∨ (n, p) = (['a'], ['a']) ∨ n = []) := by
      induction h with
      | start => simp
      | advance _ hm ih | star _ hm ih => rcases ih with ⟨rfl, h | h | h⟩ <;> simp_all [move]
      | retry _ _ ih => cases ih.1
    intro n p star h
    simpa using (hall h).2
  refine ⟨clear, ((matchesPattern_right _ _).2 clear).2 ?_⟩
  simp [tokens, nextToken, Language, Token.accepts]

/-- the pattern of one star refuses the name `*a` -/
theorem matchesPattern_star_name : matchesPattern ['*', 'a'] ['*'] = false ∧
    Language (tokens ['*']) ['*', 'a'] := by
  refine ⟨?_, ?_⟩
  · simp [matchesPattern, matchFrom, move]
  rw [tokens]
  exact ⟨2, by simp [nextToken, tokens, Language]⟩

end ClaudeOs.Cbox
