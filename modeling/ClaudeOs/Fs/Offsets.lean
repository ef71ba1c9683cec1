import ClaudeOs.Fs.Contents

/-!
# Reads and writes at a shared position

`OpenFile::read` and `OpenFile::write` on one file in memory, by any tasks, through any number of
open file descriptions: a call finds its position, which for an append is the end of the file and
otherwise the description's offset, moves its bytes, and stores the offset, each under a lock of its
own.

* `Opened`, `ioObject`  the file with its descriptions, and the calls in sections;
* `Transfer`  a range of the file a call moved; `Opened.log` has them all;
* `Contents.Turns`  everything a section of a write can do;
* `Apart`  appends keep clear of each other;
* `Lined`  the calls of one description go on where the last one stopped;
* `transfers_keep_apart`  both, in every run that is undisturbed;
* `transfers_overlap`  calls that found the same position.
-/

namespace ClaudeOs.Fs.File
open Nat Linear Sections
open List hiding count

/-! ## calls through descriptions -/

/-- the range one call moved, through the description `desc` -/
structure Transfer where
  desc : Nat
  offset : Nat
  count : Nat
  append : Bool
  deriving DecidableEq

def Transfer.stop (e : Transfer) : Nat := e.offset + e.count

/-- a file and the descriptions open on it; `log` is every transfer so far, which nothing reads -/
structure Opened where
  file : Contents
  offsets : Nat → Nat
  log : List Transfer

namespace Opened

def setFile (s : Opened) (file : Contents) : Opened := { s with file := file }

def setOffset (s : Opened) (desc offset : Nat) : Opened :=
  { s with offsets := fun k => if k = desc then offset else s.offsets k }

def note (s : Opened) (es : List Transfer) : Opened := { s with log := s.log ++ es }

end Opened

inductive IoCall where
  | read (desc len : Nat)
  | write (desc : Nat) (buf : List UInt8)
  deriving DecidableEq

def IoCall.desc : IoCall → Nat
  | .read desc _ => desc
  | .write desc _ => desc

inductive IoPhase where
  | start
  /-- the position is found; a write is at `step` of its change -/
  | located (offset : Nat) (step : Step)
  /-- the bytes are moved and the offset is not stored -/
  | transferred (offset count : Nat) (res : FileAnswer)
  deriving DecidableEq

def moved (append : Bool) (desc offset : Nat) : Step → List Transfer
  | .releasing (.done n) => [⟨desc, offset, n, append⟩]
  | _ => []

section
variable (append : Nat → Bool) (s : Opened) (available : Nat)

def writeSection (desc offset : Nat) (buf : List UInt8) (step : Step) :
    Opened × (IoPhase ⊕ FileAnswer) :=
  match s.file.change available (.write offset buf) step with
  | (file, .inl next) =>
    ((s.setFile file).note (moved (append desc) desc offset next), .inl (.located offset next))
  | (file, .inr (.done n)) => (s.setFile file, .inl (.transferred offset n (.done n)))
  | (file, .inr res) => (s.setFile file, .inr res)

/-- the next section of a call; `append` says which descriptions have `O_APPEND` -/
def ioAdvance : IoCall → IoPhase → Opened × (IoPhase ⊕ FileAnswer)
  | .read desc _, .start => (s, .inl (.located (s.offsets desc) .waiting))
  | .write desc _, .start =>
    (s, .inl (.located (if append desc then s.file.data.length else s.offsets desc) .waiting))
  | .read desc len, .located offset _ =>
    if offset + len < 2 ^ 64 then
      let bytes := (s.file.data.drop offset).take len
      (s.note [⟨desc, offset, bytes.length, false⟩],
        .inl (.transferred offset bytes.length (.bytes bytes)))
    else (s, .inr (.error .EINVAL))
  | .write desc buf, .located offset step =>
    if offset + buf.length < 2 ^ 64 then writeSection append s available desc offset buf step
    else (s, .inr (.error .EINVAL))
  | op, .transferred offset count res =>
    if offset + count < 2 ^ 64 then (s.setOffset op.desc (offset + count), .inr res)
    else (s, .inr (.error .EINVAL))

lemma ioAdvance_transferred (op : IoCall) (offset count : Nat) (res : FileAnswer) :
    ioAdvance append s available op (.transferred offset count res) =
      if offset + count < 2 ^ 64 then (s.setOffset op.desc (offset + count), .inr res)
      else (s, .inr (.error .EINVAL)) := by
  cases op <;> rfl

def ioObject : Object Opened IoCall IoPhase FileAnswer Nat where
  begin _ := .start
  advance s available op phase := ioAdvance append s available op phase

abbrev IoThreads := Threads Opened IoCall IoPhase

/-! ## runs that keep the calls apart -/

/-- the call `k` has found its position on `desc` and not yet returned -/
def Located (w : IoThreads) (desc k : Nat) : Prop :=
  ∃ op phase, w.calls k = .running op phase ∧ op.desc = desc ∧ phase ≠ .start

/-- descriptions are used by one call at a time, and an append finds the file ending where it looked
-/
def IoClear (w : IoThreads) : IoCall → IoPhase → Prop
  | op, .start => append op.desc = true ∨ ∀ k, ¬ Located w op.desc k
  | .write desc _, .located offset .claimed =>
    append desc = true → offset = w.shared.file.data.length
  | _, _ => True

def IoUndisturbed (w : IoThreads) : Sections.Action IoCall Nat → Prop
  | .call _ _ => True
  | .go id _ => ∀ op phase, w.calls id = .running op phase → IoClear append w op phase

end

/-! ## the sections of a write -/

/-- what the step of a change says about the file, when nobody else can change it -/
def Ready (c : Contents) (target : Nat) : Step → Prop
  | .copying grown held _ =>
    held = c.data.length ∧ grown = c.data.take grown.length ∧ held < target
  | .roomy _ => target ≤ c.data.length
  | .releasing res => ∀ n, res = .done n → target ≤ c.data.length
  | _ => True

def Step.Past : Step → Prop
  | .copying _ _ _ => True
  | .roomy _ => True
  | _ => False

variable {buf : List UInt8} {desc k offset pos : Nat} {e : Transfer} {p : Progress IoCall IoPhase}
  {s : Opened}

lemma Step.Past.holding {step : Step} (h : step.Past) : step.Holding := by
  cases step with
  | waiting => exact h
  | _ => trivial

/-- the bytes a change has put in, before it lets go of the claim -/
def Step.put : Step → Option Nat
  | .releasing (.done n) => some n
  | _ => none

lemma Step.Past.put {step : Step} (h : step.Past) : step.put = none := by
  cases step with
  | releasing => exact h.elim
  | _ => rfl

/-- everything a section of a write can do -/
inductive Contents.Turns (c : Contents) (target count : Nat) :
    Step → Contents × (Step ⊕ FileAnswer) → Prop
  | waits : c.changing = true → Turns c target count .waiting (c, .inl .waiting)
  | claims : c.changing = false → Turns c target count .waiting (c.setChanging true, .inl .claimed)
  | reserves {room : Nat} : c.data.length < target →
      Turns c target count .claimed (c, .inl (.copying [] c.data.length room))
  | refuses : Turns c target count .claimed (c, .inl (.releasing (.error .ENOSPC)))
  | enough : target ≤ c.data.length → Turns c target count .claimed (c, .inl (.roomy false))
  | copies {grown grown' : List UInt8} {held room : Nat} : grown' = c.data.take grown'.length →
      Turns c target count (.copying grown held room) (c, .inl (.copying grown' held room))
  | grows {step : Step} {c' : Contents} : step = .claimed ∨ step.Past →
      c.data.length < target → c'.data.length = target → c'.changing = c.changing →
      Turns c target count step (c', .inl (.roomy true))
  | puts {grew : Bool} {c' : Contents} : c'.data.length = c.data.length → c'.changing = c.changing →
      Turns c target count (.roomy grew) (c', .inl (.releasing (.done count)))
  | releases {res : FileAnswer} :
      Turns c target count (.releasing res) (c.setChanging false, .inr res)

lemma Contents.turns (c : Contents) (available offset : Nat) (buf : List UInt8) (step : Step)
    (h : Ready c (offset + buf.length) step) :
    c.Turns (offset + buf.length) buf.length step (c.change available (.write offset buf) step) := by
  cases step with
  | waiting =>
    rw [change_waiting]
    cases hc : c.changing with
    | true => exact .waits hc
    | false => exact .claims hc
  | claimed =>
    rw [change_claimed]
    by_cases hfits : offset + buf.length ≤ c.capacity
    · rw [if_pos (show (Change.write offset buf).target ≤ c.capacity from hfits)]
      by_cases hlt : c.data.length < offset + buf.length
      · rw [if_pos (show c.data.length < (Change.write offset buf).target from hlt)]
        exact .grows (.inl rfl) hlt (length_resize ..) rfl
      · rw [if_neg (show ¬ c.data.length < (Change.write offset buf).target from hlt)]
        exact .enough (Nat.le_of_not_lt hlt)
    · rw [if_neg (show ¬ (Change.write offset buf).target ≤ c.capacity from hfits)]
      have hcap := c.fits
      cases hroom : roomFor c.capacity (Change.write offset buf).target available with
      | error e =>
        rw [roomFor_error hroom]
        exact .refuses
      | ok room => exact .reserves (by omega)
  | copying grown held room =>
    obtain ⟨hheld, hgrown, hlt⟩ := h
    rw [change_copying]
    by_cases hmore : grown.length < held
    · have hstop : min (grown.length + PIECE) held ≤ c.data.length := by
        rw [hheld]
        exact Nat.min_le_right ..
      rw [if_pos hmore, if_pos hstop]
      exact .copies (take_append_take hgrown hstop (by omega))
    · rw [if_neg hmore]
      exact .grows (.inr trivial) (hheld ▸ hlt) (length_resize ..) rfl
  | roomy grew =>
    have hin : offset + buf.length ≤ c.data.length := h
    rw [change_roomy, apply, if_pos hin]
    exact .puts (Bytes.length_copyInto hin) rfl
  | releasing res => exact .releases

/-! ## who has the claim -/

def HoldsClaim (p : Progress IoCall IoPhase) : Prop :=
  ∃ desc buf offset step, p = .running (.write desc buf) (.located offset step) ∧ step.Holding

/-- one write at a time has the claim, and the file is as its step says -/
structure Owned (w : IoThreads) : Prop where
  changing : ∀ {id desc buf offset step},
    w.calls id = .running (.write desc buf) (.located offset step) → step.Holding →
      w.shared.file.changing = true ∧ Ready w.shared.file (offset + buf.length) step
  one : ∀ {id id'}, HoldsClaim (w.calls id) → HoldsClaim (w.calls id') → id = id'

section
variable {append : Nat → Bool} {w : IoThreads} {id : Nat} {op : IoCall} {phase : IoPhase}

namespace Owned

lemma ready (h : Owned w) {step : Step}
    (hrun : w.calls id = .running (.write desc buf) (.located offset step)) :
    Ready w.shared.file (offset + buf.length) step := by
  cases step with
  | waiting => trivial
  | _ => exact (h.changing hrun trivial).2

lemma alone (h : Owned w) (hid : HoldsClaim (w.calls id)) (hk : k ≠ id) :
    ¬ HoldsClaim (w.calls k) :=
  fun hold => hk (h.one hold hid)

lemma free (h : Owned w) (hfree : w.shared.file.changing = false) (k : Nat) :
    ¬ HoldsClaim (w.calls k) := by
  rintro ⟨desc, buf, offset, step, hrun, hold⟩
  have hchanging := (h.changing hrun hold).1
  rw [hfree] at hchanging
  cases hchanging

lemma set (h : Owned w) (hfile : s.file = w.shared.file ∨ ∀ k, k ≠ id → ¬ HoldsClaim (w.calls k))
    (hp : ∀ desc buf offset step, p = .running (.write desc buf) (.located offset step) →
      step.Holding → s.file.changing = true ∧ Ready s.file (offset + buf.length) step)
    (hone : HoldsClaim p → ∀ k, k ≠ id → ¬ HoldsClaim (w.calls k)) : Owned (w.set s id p) where
  changing {k desc buf offset step} hk hold := by
    rcases Threads.calls_set_eq _ _ _ hk with ⟨-, heq⟩ | ⟨hne, hw⟩
    · exact hp desc buf offset step heq hold
    · rcases hfile with hsame | hnone
      · rw [Threads.shared_set, hsame]
        exact h.changing hw hold
      · exact absurd ⟨desc, buf, offset, step, hw, hold⟩ (hnone k hne)
  one {k k'} hk hk' := by
    by_cases hid : k = id
    · by_cases hid' : k' = id
      · rw [hid, hid']
      · rw [hid, Threads.calls_set_self] at hk
        rw [Threads.calls_set_ne _ _ _ hid'] at hk'
        exact absurd hk' (hone hk k' hid')
    · rw [Threads.calls_set_ne _ _ _ hid] at hk
      by_cases hid' : k' = id
      · rw [hid', Threads.calls_set_self] at hk'
        exact absurd hk (hone hk' k hid)
      · rw [Threads.calls_set_ne _ _ _ hid'] at hk'
        exact h.one hk hk'

end Owned

/-! ## appends -/

/-- every append starts behind those that were made before it -/
structure Apart (append : Nat → Bool) (w : IoThreads) : Prop where
  within : ∀ e ∈ w.shared.log, e.append = true → e.stop ≤ w.shared.file.data.length
  clear : ∀ {id desc buf offset step},
    w.calls id = .running (.write desc buf) (.located offset step) → append desc = true →
      step.Past → ∀ e ∈ w.shared.log, e.append = true → e.stop ≤ offset
  apart : w.shared.log.Pairwise fun e e' =>
    e.append = true → e'.append = true → e.stop ≤ e'.offset

namespace Apart

lemma set_quiet (h : Apart append w) (hlog : s.log = w.shared.log)
    (hlen : w.shared.file.data.length ≤ s.file.data.length)
    (hp : ∀ desc buf offset step, p = .running (.write desc buf) (.located offset step) →
      append desc = true → step.Past → ∀ e ∈ w.shared.log, e.append = true → e.stop ≤ offset) :
    Apart append (w.set s id p) where
  within e he happ := by
    rw [Threads.shared_set, hlog] at he
    exact le_trans (h.within e he happ) hlen
  clear {k desc buf offset step} hk happ hpast e he hea := by
    rw [Threads.shared_set, hlog] at he
    rcases Threads.calls_set_eq _ _ _ hk with ⟨-, heq⟩ | ⟨-, hw⟩
    · exact hp desc buf offset step heq happ hpast e he hea
    · exact h.clear hw happ hpast e he hea
  apart := by
    rw [Threads.shared_set, hlog]
    exact h.apart

lemma set_moved (h : Apart append w) (hlog : s.log = w.shared.log ++ [e])
    (hlen : w.shared.file.data.length ≤ s.file.data.length)
    (hwithin : e.append = true → e.stop ≤ s.file.data.length)
    (hbehind : e.append = true → ∀ e' ∈ w.shared.log, e'.append = true → e'.stop ≤ e.offset)
    (hp : ∀ desc buf offset step, p = .running (.write desc buf) (.located offset step) → ¬ step.Past)
    (hothers : e.append = true → ∀ k, k ≠ id → ¬ HoldsClaim (w.calls k)) :
    Apart append (w.set s id p) where
  within e' he' happ := by
    rw [Threads.shared_set, hlog] at he'
    rcases mem_append.mp he' with hold | hnew
    · exact le_trans (h.within e' hold happ) hlen
    · rw [mem_singleton.mp hnew] at happ ⊢
      exact hwithin happ
  clear {k desc buf offset step} hk happ hpast e' he' hea := by
    rw [Threads.shared_set, hlog] at he'
    rcases Threads.calls_set_eq _ _ _ hk with ⟨-, heq⟩ | ⟨hne, hw⟩
    · exact absurd hpast (hp desc buf offset step heq)
    · rcases mem_append.mp he' with hold | hnew
      · exact h.clear hw happ hpast e' hold hea
      · rw [mem_singleton.mp hnew] at hea
        exact absurd ⟨desc, buf, offset, step, hw, hpast.holding⟩ (hothers hea k hne)
  apart := by
    rw [Threads.shared_set, hlog]
    refine pairwise_append.mpr ⟨h.apart, pairwise_singleton .., ?_⟩
    intro e' he' e'' he'' happ' happ''
    rw [mem_singleton.mp he''] at happ'' ⊢
    exact hbehind happ'' e' he' happ'

end Apart

/-! ## the calls of one description -/

def endOf (start : Nat) : List Transfer → Nat
  | [] => start
  | e :: es => endOf e.stop es

/-- each range begins where the one before it ends, and the first at `start` -/
def Joined (start : Nat) : List Transfer → Prop
  | [] => True
  | e :: es => e.offset = start ∧ Joined e.stop es

lemma endOf_concat (start : Nat) (es : List Transfer) (e : Transfer) :
    endOf start (es ++ [e]) = e.stop := by
  induction es generalizing start with
  | nil => rfl
  | cons e' es ih => exact ih e'.stop

lemma joined_concat {start : Nat} {es : List Transfer} (h : Joined start es)
    (he : e.offset = endOf start es) : Joined start (es ++ [e]) := by
  induction es generalizing start with
  | nil => exact ⟨he, trivial⟩
  | cons e' es ih => exact ⟨h.1, ih h.2 he⟩

def ofDesc (desc : Nat) (log : List Transfer) : List Transfer :=
  log.filter fun e => decide (e.desc = desc)

lemma ofDesc_concat_self (log : List Transfer) (e : Transfer) :
    ofDesc e.desc (log ++ [e]) = ofDesc e.desc log ++ [e] := by
  rw [ofDesc, filter_append, ofDesc]
  congr 1
  exact filter_cons_of_pos (decide_eq_true rfl)

lemma ofDesc_concat_ne (log : List Transfer) (h : desc ≠ e.desc) :
    ofDesc desc (log ++ [e]) = ofDesc desc log := by
  rw [ofDesc, filter_append, filter_cons_of_neg (by simpa using Ne.symm h), filter_nil, append_nil]
  rfl

lemma moved_eq_nil {append : Bool} {step : Step} (hstep : step.put = none) :
    moved append desc offset step = [] := by
  unfold moved
  split
  · cases hstep
  · rfl

def PlacedAt (offset last : Nat) : IoCall → IoPhase → Prop
  | _, .start => True
  | .read _ _, .located pos _ => offset = pos ∧ last = pos
  | .write _ buf, .located pos step =>
    offset = pos ∧ match step.put with
      | some n => n = buf.length ∧ pos + n < 2 ^ 64 ∧ last = pos + n
      | none => last = pos
  | _, .transferred pos n _ => pos + n < 2 ^ 64 ∧ last = pos + n

lemma placedAt_located {last : Nat} {step : Step} (hstep : step.put = none) :
    PlacedAt offset last (.write desc buf) (.located pos step) ↔ offset = pos ∧ last = pos := by
  rw [PlacedAt, hstep]

/-- calls of a description without `O_APPEND` go on where the last one stopped -/
structure Lined (append : Nat → Bool) (first : Nat → Nat) (w : IoThreads) : Prop where
  joined : ∀ {desc}, append desc = false → Joined (first desc) (ofDesc desc w.shared.log)
  lone : ∀ {desc k k'}, append desc = false → Located w desc k → Located w desc k' → k = k'
  rest : ∀ {desc}, append desc = false → (∀ k, ¬ Located w desc k) →
    w.shared.offsets desc = endOf (first desc) (ofDesc desc w.shared.log)
  place : ∀ {k op phase}, w.calls k = .running op phase → append op.desc = false →
    PlacedAt (w.shared.offsets op.desc) (endOf (first op.desc) (ofDesc op.desc w.shared.log)) op phase

variable {first : Nat → Nat}

lemma located_set_ne (hk : k ≠ id) : Located (w.set s id p) desc k ↔ Located w desc k := by
  simp only [Located, Threads.calls_set_ne _ _ _ hk]

namespace Lined

lemma alone (h : Lined append first w) (hrun : w.calls id = .running op phase)
    (hphase : phase ≠ .start) (happ : append op.desc = false) (k : Nat) (hk : k ≠ id) :
    ¬ Located w op.desc k :=
  fun hloc => hk (h.lone happ hloc ⟨op, phase, hrun, rfl, hphase⟩)

/-- a range that starts where the last one ended -/
lemma concat (h : Lined append first w) (happ : append e.desc = false)
    (hlast : endOf (first e.desc) (ofDesc e.desc w.shared.log) = e.offset) :
    Joined (first e.desc) (ofDesc e.desc (w.shared.log ++ [e])) ∧
      endOf (first e.desc) (ofDesc e.desc (w.shared.log ++ [e])) = e.stop := by
  rw [ofDesc_concat_self]
  exact ⟨joined_concat (h.joined happ) hlast.symm, endOf_concat ..⟩

lemma set (h : Lined append first w) (hrun : w.calls id = .running op phase)
    (hp : p = .returned ∨ ∃ next, p = .running op next)
    (hoff : ∀ desc, desc ≠ op.desc → s.offsets desc = w.shared.offsets desc)
    (hlog : ∀ desc, desc ≠ op.desc → ofDesc desc s.log = ofDesc desc w.shared.log)
    (hown : append op.desc = false → (∀ k, k ≠ id → ¬ Located w op.desc k) ∧
      Joined (first op.desc) (ofDesc op.desc s.log) ∧ (p = .returned →
      s.offsets op.desc = endOf (first op.desc) (ofDesc op.desc s.log)) ∧
      ∀ next, p = .running op next → next ≠ .start ∧
      PlacedAt (s.offsets op.desc) (endOf (first op.desc) (ofDesc op.desc s.log)) op next) :
    Lined append first (w.set s id p) := by
  -- who is on another description is so before and after
  have hother {desc k : Nat} (hdesc : desc ≠ op.desc) :
      Located (w.set s id p) desc k ↔ Located w desc k := by
    by_cases hk : k = id
    · subst hk
      refine iff_of_false ?_ ?_
      · rintro ⟨op', phase', hk', hd, -⟩
        rw [Threads.calls_set_self] at hk'
        rcases hp with rfl | ⟨next, rfl⟩
        · cases hk'
        · cases hk'
          exact hdesc hd.symm
      · rintro ⟨op', phase', hk', hd, -⟩
        rw [hrun] at hk'
        cases hk'
        exact hdesc hd.symm
    · exact located_set_ne hk
  refine ⟨fun {desc} happ => ?_, fun {desc k k'} happ hk hk' => ?_, fun {desc} happ hnone => ?_,
    fun {k op' phase'} hk happ => ?_⟩
  · by_cases hdesc : desc = op.desc
    · subst hdesc
      exact (hown happ).2.1
    · rw [Threads.shared_set, hlog desc hdesc]
      exact h.joined happ
  · by_cases hdesc : desc = op.desc
    · subst hdesc
      have honly {j : Nat} (hj : Located (w.set s id p) op.desc j) : j = id := by
        by_contra hne
        exact (hown happ).1 j hne ((located_set_ne hne).mp hj)
      rw [honly hk, honly hk']
    · exact h.lone happ ((hother hdesc).mp hk) ((hother hdesc).mp hk')
  · by_cases hdesc : desc = op.desc
    · subst hdesc
      rcases hp with hp | ⟨next, hp⟩
      · exact (hown happ).2.2.1 hp
      · have hstart := ((hown happ).2.2.2 next hp).1
        exact absurd ⟨op, next, by rw [Threads.calls_set_self, hp], rfl, hstart⟩ (hnone id)
    · rw [Threads.shared_set, hoff desc hdesc, hlog desc hdesc]
      exact h.rest happ fun k hk => hnone k ((hother hdesc).mpr hk)
  · rcases Threads.calls_set_eq _ _ _ hk with ⟨-, heq⟩ | ⟨hne, hw⟩
    · rcases hp with hp | ⟨next, hp⟩
      · rw [hp] at heq
        cases heq
      · rw [hp] at heq
        cases heq
        exact ((hown happ).2.2.2 _ hp).2
    · by_cases hdesc : op'.desc = op.desc
      · -- another call on this description has not found its position
        have hstart : phase' = .start := by
          by_contra hne'
          exact (hown (hdesc ▸ happ)).1 k hne ⟨op', phase', hw, hdesc, hne'⟩
        rw [hstart]
        trivial
      · rw [Threads.shared_set, hoff _ hdesc, hlog _ hdesc]
        exact h.place hw happ

end Lined

/-! ## every section -/

/-- who holds a claim, where appends lie and what each descriptor has moved over, together -/
structure Kept (append : Nat → Bool) (first : Nat → Nat) (w : IoThreads) : Prop where
  owned : Owned w
  apart : Apart append w
  lined : Lined append first w

lemma kept_start (s : Opened) (hlog : s.log = []) : Kept append s.offsets (.start s) := by
  have hempty : (Threads.start s : IoThreads).shared.log = [] := hlog
  refine ⟨⟨fun h => ?_, fun h => ?_⟩, ⟨fun e he => ?_, fun h => ?_, ?_⟩,
    ⟨fun _ => ?_, fun _ h => ?_, fun _ _ => ?_, fun h => ?_⟩⟩
  · cases h
  · obtain ⟨_, _, _, _, hrun, _⟩ := h
    cases hrun
  · rw [hempty] at he
    cases he
  · cases h
  · rw [hempty]
    exact List.Pairwise.nil
  · rw [hempty]
    trivial
  · obtain ⟨_, _, hrun, _⟩ := h
    cases hrun
  · rw [hempty]
    rfl
  · cases h

namespace Kept
section
variable (h : Kept append first w)
include h

lemma locate (hrun : w.calls id = .running op .start)
    (hclear : append op.desc = true ∨ ∀ k, ¬ Located w op.desc k)
    (hpos : append op.desc = false → pos = w.shared.offsets op.desc) :
    Kept append first (w.set w.shared id (.running op (.located pos .waiting))) where
  owned := by
    refine h.owned.set (.inl rfl) (fun _ _ _ _ heq hold => ?_) ?_
    · cases heq
      exact hold.elim
    · rintro ⟨_, _, _, _, heq, hold⟩
      cases heq
      exact hold.elim
  apart := by
    refine h.apart.set_quiet rfl (le_refl _) fun _ _ _ _ heq _ hpast => ?_
    cases heq
    exact hpast.elim
  lined := by
    refine h.lined.set hrun (.inr ⟨_, rfl⟩) (fun _ _ => rfl) (fun _ _ => rfl) fun happ => ?_
    have hnone : ∀ k, ¬ Located w op.desc k := by
      refine hclear.resolve_left fun htrue => ?_
      rw [happ] at htrue
      cases htrue
    refine ⟨fun k _ => hnone k, h.lined.joined happ, fun heq => (by cases heq), fun next heq => ?_⟩
    cases heq
    refine ⟨fun hs => (by cases hs), ?_⟩
    have hrest := h.lined.rest happ hnone
    rw [hpos happ]
    cases op with
    | read desc len => exact ⟨rfl, hrest.symm⟩
    | write desc buf => exact ⟨rfl, hrest.symm⟩

lemma readMoves {len count : Nat} {step : Step}
    (hrun : w.calls id = .running (.read desc len) (.located pos step)) (hcount : count ≤ len)
    (hrange : pos + len < 2 ^ 64) (res : FileAnswer) :
    Kept append first (w.set (w.shared.note [⟨desc, pos, count, false⟩]) id
      (.running (.read desc len) (.transferred pos count res))) where
  owned := by
    refine h.owned.set (.inl rfl) (fun _ _ _ _ heq _ => by cases heq) ?_
    rintro ⟨_, _, _, _, heq, -⟩
    cases heq
  apart := by
    refine h.apart.set_moved rfl (le_refl _) ?_ ?_ (fun _ _ _ _ heq => ?_) ?_
    · exact fun happ => absurd happ Bool.false_ne_true
    · exact fun happ => absurd happ Bool.false_ne_true
    · cases heq
    · exact fun happ => absurd happ Bool.false_ne_true
  lined := by
    refine h.lined.set hrun (.inr ⟨_, rfl⟩) (fun _ _ => rfl)
      (fun d hd => ofDesc_concat_ne _ hd) fun happ => ?_
    obtain ⟨-, hlast⟩ := h.lined.place hrun happ
    obtain ⟨hjoined, hend⟩ := h.lined.concat (e := ⟨desc, pos, count, false⟩) happ hlast
    refine ⟨h.lined.alone hrun (fun hs => by cases hs) happ, hjoined, fun heq => (by cases heq),
      fun next heq => ?_⟩
    cases heq
    exact ⟨fun hs => (by cases hs), by omega, hend⟩

lemma ret (hrun : w.calls id = .running op phase) (hphase : phase ≠ .start)
    (hfile : s.file = w.shared.file ∨ ∀ k, k ≠ id → ¬ HoldsClaim (w.calls k))
    (hlen : w.shared.file.data.length ≤ s.file.data.length) (hlog : s.log = w.shared.log)
    (hoff : ∀ desc, desc ≠ op.desc → s.offsets desc = w.shared.offsets desc)
    (hown : append op.desc = false →
      s.offsets op.desc = endOf (first op.desc) (ofDesc op.desc w.shared.log)) :
    Kept append first (w.set s id .returned) where
  owned := by
    refine h.owned.set hfile (fun _ _ _ _ heq => by cases heq) ?_
    rintro ⟨_, _, _, _, heq, -⟩
    cases heq
  apart := h.apart.set_quiet hlog hlen fun _ _ _ _ heq => by cases heq
  lined := by
    refine h.lined.set hrun (.inl rfl) hoff (fun d _ => by rw [hlog]) fun happ => ?_
    refine ⟨h.lined.alone hrun hphase happ, ?_, fun _ => ?_, fun next heq => by cases heq⟩
    · rw [hlog]
      exact h.lined.joined happ
    · rw [hlog]
      exact hown happ

section
variable {desc pos : Nat} {buf : List UInt8} {step next : Step} {c : Contents}

omit h in
lemma writeGoes (h : Kept append first w)
    (hrun : w.calls id = .running (.write desc buf) (.located pos step))
    (hfile : c = w.shared.file ∨ ∀ k, k ≠ id → ¬ HoldsClaim (w.calls k))
    (hlen : w.shared.file.data.length ≤ c.data.length)
    (hready : next.Holding → c.changing = true ∧ Ready c (pos + buf.length) next)
    (hone : next.Holding → ∀ k, k ≠ id → ¬ HoldsClaim (w.calls k))
    (hpast : append desc = true → next.Past → ∀ e ∈ w.shared.log, e.append = true → e.stop ≤ pos)
    (hstep : step.put = none) (hnext : next.put = none) : Kept append first
      (w.set ((w.shared.setFile c).note (moved (append desc) desc pos next)) id
        (.running (.write desc buf) (.located pos next))) := by
  have hlog : ((w.shared.setFile c).note (moved (append desc) desc pos next)).log =
      w.shared.log := by
    rw [moved_eq_nil hnext]
    exact append_nil _
  refine ⟨h.owned.set hfile (fun _ _ _ _ heq hold => ?_) ?_,
    h.apart.set_quiet hlog hlen fun _ _ _ _ heq happ hpast' => ?_,
    h.lined.set hrun (.inr ⟨_, rfl⟩) (fun _ _ => rfl) (fun d _ => by rw [hlog]) fun happ => ?_⟩
  · cases heq
    exact hready hold
  · rintro ⟨_, _, _, _, heq, hold⟩
    cases heq
    exact hone hold
  · cases heq
    exact hpast happ hpast'
  · rw [hlog]
    refine ⟨h.lined.alone hrun (fun hs => by cases hs) happ, h.lined.joined happ,
      fun heq => (by cases heq), fun phase heq => ?_⟩
    cases heq
    refine ⟨fun hs => (by cases hs), (placedAt_located hnext).mpr ?_⟩
    exact (placedAt_located hstep).mp (h.lined.place hrun happ)

omit h in
lemma writePuts (h : Kept append first w) {grew : Bool}
    (hrun : w.calls id = .running (.write desc buf) (.located pos (.roomy grew)))
    (hrange : pos + buf.length < 2 ^ 64) (hlen : c.data.length = w.shared.file.data.length)
    (hchanging : c.changing = w.shared.file.changing) : Kept append first
      (w.set ((w.shared.setFile c).note [⟨desc, pos, buf.length, append desc⟩]) id
        (.running (.write desc buf) (.located pos (.releasing (.done buf.length))))) := by
  obtain ⟨hclaim, hroom⟩ := h.owned.changing hrun trivial
  have hroom : pos + buf.length ≤ c.data.length := by
    rw [hlen]
    exact hroom
  have halone : ∀ k, k ≠ id → ¬ HoldsClaim (w.calls k) :=
    fun k hk => h.owned.alone ⟨desc, buf, pos, _, hrun, trivial⟩ hk
  refine ⟨h.owned.set (.inr halone) (fun _ _ _ _ heq hold => ?_) (fun _ => halone),
    h.apart.set_moved rfl (le_of_eq hlen.symm) (fun _ => hroom)
      (fun happ => h.apart.clear hrun happ trivial) (fun _ _ _ _ heq => ?_) (fun _ => halone),
    h.lined.set hrun (.inr ⟨_, rfl⟩) (fun _ _ => rfl)
      (fun d hd => ofDesc_concat_ne _ hd) fun happ => ?_⟩
  · cases heq
    exact ⟨hchanging.trans hclaim, fun _ _ => hroom⟩
  · cases heq
    exact fun hpast => hpast
  · obtain ⟨hoff, hlast⟩ := (placedAt_located rfl).mp (h.lined.place hrun happ)
    obtain ⟨hjoined, hend⟩ := h.lined.concat (e := ⟨desc, pos, buf.length, append desc⟩) happ hlast
    refine ⟨h.lined.alone hrun (fun hs => by cases hs) happ, hjoined, fun heq => (by cases heq),
      fun phase heq => ?_⟩
    cases heq
    exact ⟨fun hs => (by cases hs), hoff, rfl, hrange, hend⟩

omit h in
lemma writeEnds (h : Kept append first w) {n : Nat}
    (hrun : w.calls id = .running (.write desc buf) (.located pos (.releasing (.done n)))) :
    Kept append first (w.set (w.shared.setFile (w.shared.file.setChanging false)) id
      (.running (.write desc buf) (.transferred pos n (.done n)))) := by
  have halone : ∀ k, k ≠ id → ¬ HoldsClaim (w.calls k) :=
    fun k hk => h.owned.alone ⟨desc, buf, pos, _, hrun, trivial⟩ hk
  refine ⟨h.owned.set (.inr halone) (fun _ _ _ _ heq => by cases heq) ?_,
    h.apart.set_quiet rfl (le_refl _) fun _ _ _ _ heq => (by cases heq),
    h.lined.set hrun (.inr ⟨_, rfl⟩) (fun _ _ => rfl) (fun _ _ => rfl) fun happ => ?_⟩
  · rintro ⟨_, _, _, _, heq, -⟩
    cases heq
  · obtain ⟨-, -, hrange, hlast⟩ := h.lined.place hrun happ
    refine ⟨h.lined.alone hrun (fun hs => by cases hs) happ, h.lined.joined happ,
      fun heq => (by cases heq), fun phase heq => ?_⟩
    cases heq
    exact ⟨fun hs => (by cases hs), hrange, hlast⟩

omit h in
lemma writeFails (h : Kept append first w)
    (hrun : w.calls id = .running (.write desc buf) (.located pos step))
    (hfile : c = w.shared.file ∨ ∀ k, k ≠ id → ¬ HoldsClaim (w.calls k))
    (hlen : w.shared.file.data.length ≤ c.data.length)
    (hput : append desc = false → step.put = none) :
    Kept append first (w.set (w.shared.setFile c) id .returned) := by
  refine h.ret hrun (fun hs => by cases hs) hfile hlen rfl (fun _ _ => rfl) fun happ => ?_
  obtain ⟨hoff, hlast⟩ := (placedAt_located (hput happ)).mp (h.lined.place hrun happ)
  exact hoff.trans hlast.symm

def AfterTurn (append : Nat → Bool) (first : Nat → Nat) (w : IoThreads) (id desc pos : Nat)
    (buf : List UInt8) : Contents × (Step ⊕ FileAnswer) → Prop
  | (c, .inl next) => Kept append first
      (w.set ((w.shared.setFile c).note (moved (append desc) desc pos next)) id
        (.running (.write desc buf) (.located pos next)))
  | (c, .inr (.done n)) => Kept append first
      (w.set (w.shared.setFile c) id (.running (.write desc buf) (.transferred pos n (.done n))))
  | (c, .inr _) => Kept append first (w.set (w.shared.setFile c) id .returned)

omit h in
lemma afterTurn (h : Kept append first w)
    (hrun : w.calls id = .running (.write desc buf) (.located pos step))
    (hclear : IoClear append w (.write desc buf) (.located pos step))
    (hrange : pos + buf.length < 2 ^ 64) {t : Contents × (Step ⊕ FileAnswer)}
    (ht : w.shared.file.Turns (pos + buf.length) buf.length step t) :
    AfterTurn append first w id desc pos buf t := by
  have hclaimed (hold : step.Holding) : w.shared.file.changing = true :=
    (h.owned.changing hrun hold).1
  have halone (hold : step.Holding) : ∀ k, k ≠ id → ¬ HoldsClaim (w.calls k) :=
    fun k hk => h.owned.alone ⟨desc, buf, pos, step, hrun, hold⟩ hk
  -- an append that has just claimed the file is behind every append so far
  have hbehind (hstep : step = .claimed ∨ step.Past) (happ : append desc = true) :
      ∀ e ∈ w.shared.log, e.append = true → e.stop ≤ pos := by
    rcases hstep with rfl | hpast
    · intro e he hea
      rw [hclear happ]
      exact h.apart.within e he hea
    · exact h.apart.clear hrun happ hpast
  cases ht with
  | waits _ =>
    refine h.writeGoes hrun (.inl rfl) (le_refl _) (fun hold => hold.elim)
      (fun hold => hold.elim) (fun _ hpast => hpast.elim) rfl rfl
  | claims hfree =>
    refine h.writeGoes hrun (.inr fun k _ => h.owned.free hfree k) (le_refl _)
      (fun _ => ⟨rfl, trivial⟩) (fun _ k _ => h.owned.free hfree k) (fun _ hpast => hpast.elim) rfl rfl
  | reserves hlt =>
    refine h.writeGoes hrun (.inl rfl) (le_refl _) (fun _ => ⟨hclaimed trivial, rfl, rfl, hlt⟩)
      (fun _ => halone trivial) (fun happ _ => hbehind (.inl rfl) happ) rfl rfl
  | refuses =>
    refine h.writeGoes hrun (.inl rfl) (le_refl _)
      (fun _ => ⟨hclaimed trivial, fun n hn => by cases hn⟩)
      (fun _ => halone trivial) (fun _ hpast => hpast.elim) rfl rfl
  | enough hle =>
    refine h.writeGoes hrun (.inl rfl) (le_refl _) (fun _ => ⟨hclaimed trivial, hle⟩)
      (fun _ => halone trivial) (fun happ _ => hbehind (.inl rfl) happ) rfl rfl
  | copies hgrown =>
    obtain ⟨hheld, -, hlt⟩ := h.owned.ready hrun
    refine h.writeGoes hrun (.inl rfl) (le_refl _)
      (fun _ => ⟨hclaimed trivial, hheld, hgrown, hlt⟩)
      (fun _ => halone trivial) (fun happ _ => hbehind (.inr trivial) happ) rfl rfl
  | grows hstep hlt hlen hchanging =>
    have hold : step.Holding := by
      rcases hstep with rfl | hpast
      · trivial
      · exact hpast.holding
    refine h.writeGoes hrun (.inr (halone hold)) (by omega)
      (fun _ => ⟨hchanging.trans (hclaimed hold), le_of_eq hlen.symm⟩)
      (fun _ => halone hold) (fun happ _ => hbehind hstep happ) ?_ rfl
    rcases hstep with rfl | hpast
    · rfl
    · exact hpast.put
  | puts hlen hchanging => exact h.writePuts hrun hrange hlen hchanging
  | @releases res =>
    cases res with
    | done n => exact h.writeEnds hrun
    | _ => exact h.writeFails hrun (.inr (halone trivial)) (le_refl _) fun _ => rfl

end

lemma call (hrun : w.calls id = .absent) (op : IoCall) :
    Kept append first (w.set w.shared id (.running op .start)) := by
  have hloc {desc k : Nat} : Located (w.set w.shared id (.running op .start)) desc k ↔
      Located w desc k := by
    by_cases hk : k = id
    · subst hk
      refine iff_of_false ?_ ?_
      · rintro ⟨op', phase', hk', -, hstart⟩
        rw [Threads.calls_set_self] at hk'
        cases hk'
        exact hstart rfl
      · rintro ⟨op', phase', hk', -⟩
        rw [hrun] at hk'
        cases hk'
    · exact located_set_ne hk
  refine ⟨h.owned.set (.inl rfl) (fun _ _ _ _ heq => by cases heq) ?_,
    h.apart.set_quiet rfl (le_refl _) fun _ _ _ _ heq => (by cases heq),
    ⟨h.lined.joined, fun happ hk hk' => h.lined.lone happ (hloc.mp hk) (hloc.mp hk'),
      fun happ hnone => h.lined.rest happ fun k hk => hnone k (hloc.mpr hk),
      fun {k op' phase'} hk happ => ?_⟩⟩
  · rintro ⟨_, _, _, _, heq, -⟩
    cases heq
  · rcases Threads.calls_set_eq _ _ _ hk with ⟨-, heq⟩ | ⟨-, hw⟩
    · cases heq
      cases op <;> trivial
    · exact h.lined.place hw happ

def After (append : Nat → Bool) (first : Nat → Nat) (w : IoThreads) (id : Nat) (op : IoCall) :
    Opened × (IoPhase ⊕ FileAnswer) → Prop
  | (s, .inl next) => Kept append first (w.set s id (.running op next))
  | (s, .inr _) => Kept append first (w.set s id .returned)

omit h in
lemma afterWrite {available : Nat} {step : Step}
    (h : AfterTurn append first w id desc pos buf
      (w.shared.file.change available (.write pos buf) step)) :
    After append first w id (.write desc buf)
      (writeSection append w.shared available desc pos buf step) := by
  unfold writeSection
  rcases hch : w.shared.file.change available (.write pos buf) step with ⟨c, next | res⟩
  · rw [hch] at h
    exact h
  · rw [hch] at h
    cases res with
    | _ => exact h

lemma fails (hrun : w.calls id = .running op phase) (hphase : phase ≠ .start)
    (hplace : append op.desc = false → w.shared.offsets op.desc = endOf (first op.desc) (ofDesc op.desc w.shared.log))
    (e : Fd.Errno) : After append first w id op (w.shared, .inr (.error e)) :=
  h.ret hrun hphase (.inl rfl) (le_refl _) rfl (fun _ _ => rfl) hplace

lemma go (hrun : w.calls id = .running op phase) (hclear : IoClear append w op phase)
    (available : Nat) :
    After append first w id op (ioAdvance append w.shared available op phase) := by
  cases phase with
  | start =>
    cases op with
    | read desc len => exact h.locate hrun hclear fun _ => rfl
    | write desc buf =>
      refine h.locate hrun hclear fun happ => if_neg ?_
      rw [show append desc = false from happ]
      exact Bool.false_ne_true
  | located pos step =>
    cases op with
    | read desc len =>
      rw [ioAdvance]
      split
      · rename_i hrange
        exact h.readMoves hrun (length_take_le ..) hrange _
      · refine h.fails hrun (fun hs => by cases hs) (fun happ => ?_) _
        obtain ⟨hoff, hlast⟩ := h.lined.place hrun happ
        exact hoff.trans hlast.symm
    | write desc buf =>
      rw [ioAdvance]
      split
      · rename_i hrange
        exact afterWrite (h.afterTurn hrun hclear hrange
          (w.shared.file.turns available pos buf step (h.owned.ready hrun)))
      · rename_i hrange
        refine h.writeFails (c := w.shared.file) hrun (.inl rfl) (le_refl _) fun happ => ?_
        -- a write whose bytes are in had a range
        have hplace := h.lined.place hrun happ
        rw [PlacedAt] at hplace
        cases hput : step.put with
        | none => rfl
        | some n =>
          rw [hput] at hplace
          obtain ⟨-, rfl, hrange', -⟩ := hplace
          exact absurd hrange' hrange
  | transferred pos n res =>
    have hplace (happ : append op.desc = false) : pos + n < 2 ^ 64 ∧
        endOf (first op.desc) (ofDesc op.desc w.shared.log) = pos + n := by
      have hplaced := h.lined.place hrun happ
      cases op with
      | read desc len => exact hplaced
      | write desc buf => exact hplaced
    rw [ioAdvance_transferred]
    split
    · refine h.ret hrun (fun hs => by cases hs) (.inl rfl) (le_refl _) rfl
        (fun d hd => if_neg hd) fun happ => ?_
      exact (if_pos rfl).trans (hplace happ).2.symm
    · rename_i hrange
      exact h.fails hrun (fun hs => by cases hs) (fun happ => absurd (hplace happ).1 hrange) _

lemma step {act : Sections.Action IoCall Nat} {w' : IoThreads}
    {evs : List (Event IoCall FileAnswer)} (hclear : IoUndisturbed append w act)
    (hap : (ioObject append).Happens w act w' evs) : Kept append first w' := by
  cases hap with
  | idle => exact h
  | called op hrun => exact h.call hrun op
  | @goesOn id available op phase next s hrun hadv =>
    have hgo := h.go hrun (hclear op phase hrun) available
    rw [show ioAdvance append w.shared available op phase = (s, .inl next) from hadv] at hgo
    exact hgo
  | @returns id available op phase s res hrun hadv =>
    have hgo := h.go hrun (hclear op phase hrun) available
    rw [show ioAdvance append w.shared available op phase = (s, .inr res) from hadv] at hgo
    exact hgo

end
end Kept
end

/-- **transfers keep apart**: where calls do not share a description at once and an append finds the
file ending where it looked, appends follow one another, and so do the ranges of a description
without `O_APPEND` -/
theorem transfers_keep_apart (append : Nat → Bool) (s : Opened) (hlog : s.log = [])
    (as : List (Sections.Action IoCall Nat))
    (h : Run.Allowed (ioObject append).step (IoUndisturbed append) (.start s) as) :
    ((Run.run (ioObject append).step (.start s) as).shared.log.Pairwise fun e e' =>
        e.append = true → e'.append = true → e.stop ≤ e'.offset) ∧
      ∀ desc, append desc = false → Joined (s.offsets desc)
        (ofDesc desc (Run.run (ioObject append).step (.start s) as).shared.log) := by
  have hkept := h.keeps (I := Kept append s.offsets)
      (fun w act hw hact => hw.step hact ((ioObject append).happens w act))
    (kept_start s hlog)
  exact ⟨hkept.apart.apart, fun desc happ => hkept.lined.joined happ⟩

def justOpened : Opened := ⟨empty, fun _ => 0, []⟩
def twoAppend (desc : Nat) : Bool := decide (desc < 2)

def oneAppend : List (Sections.Action IoCall Nat) :=
  [.call 1 (.write 0 [7]), .go 1 100, .go 1 100, .go 1 100, .go 1 100, .go 1 100, .go 1 100, .go 1 100]

/-- two appends, and a write and a read through a description without `O_APPEND` -/
def inTurn : List (Sections.Action IoCall Nat) :=
  .call 1 (.write 0 [7]) :: .call 2 (.write 1 [8]) :: replicate 7 (.go 1 100) ++
    replicate 7 (.go 2 100) ++ .call 3 (.write 2 [9]) :: .call 4 (.read 2 1) ::
    replicate 7 (.go 3 100) ++ replicate 3 (.go 4 100)

def ioChecks (append : Nat → Bool) (ids : List Nat) (w : IoThreads) :
    Sections.Action IoCall Nat → Bool
  | .call _ _ => true
  | .go id _ =>
    match w.calls id with
    | .running op .start => append op.desc || ids.all fun k =>
        match w.calls k with
        | .running op' phase => op'.desc != op.desc || decide (phase = .start)
        | _ => true
    | .running (.write desc _) (.located offset .claimed) =>
      !append desc || offset == w.shared.file.data.length
    | _ => true

lemma undisturbed_of_checks {append : Nat → Bool} {ids : List Nat} (w : IoThreads)
    (act : Sections.Action IoCall Nat) (habsent : ∀ k ∉ ids, w.calls k = .absent)
    (h : ioChecks append ids w act = true) : IoUndisturbed append w act := by
  cases act with
  | call id op => trivial
  | go id e =>
    intro op phase hrun
    fun_cases IoClear append w op phase with
    | case1 op =>
      simp only [ioChecks, hrun, Bool.or_eq_true, all_eq_true] at h
      refine h.imp_right fun hall k => ?_
      rintro ⟨op', phase', hk, hdesc, hstart⟩
      have hin : k ∈ ids := by_contra fun hk' => by cases hk.symm.trans (habsent k hk')
      have := hall k hin
      simp [hk, hdesc, hstart] at this
    | case2 desc buf offset =>
      simp only [ioChecks, hrun, Bool.or_eq_true, Bool.not_eq_true', beq_iff_eq] at h
      exact fun happ => h.resolve_left (by rw [happ]; exact Bool.noConfusion)
    | case3 => trivial

/-- one append after the other, then a write and a read through a third description -/
theorem transfers_keep_apart_inTurn :
    (Run.run (ioObject twoAppend).step (.start justOpened) inTurn).shared.log =
      [⟨0, 0, 1, true⟩, ⟨1, 1, 1, true⟩, ⟨2, 0, 1, false⟩, ⟨2, 1, 1, false⟩] ∧
    ((Run.run (ioObject twoAppend).step (.start justOpened) inTurn).shared.log.Pairwise
      fun e e' => e.append = true → e'.append = true → e.stop ≤ e'.offset) ∧
    Joined 0 [⟨2, 0, 1, false⟩, ⟨2, 1, 1, false⟩] := by
  have hlog : (Run.run (ioObject twoAppend).step (.start justOpened) inTurn).shared.log =
      [⟨0, 0, 1, true⟩, ⟨1, 1, 1, true⟩, ⟨2, 0, 1, false⟩, ⟨2, 1, 1, false⟩] := by decide +kernel
  have hok : Run.Allowed (ioObject twoAppend).step (IoUndisturbed twoAppend) (.start justOpened)
      inTurn := Sections.Object.allowed_of_checks [1, 2, 3, 4] undisturbed_of_checks
      (fun _ _ => rfl) (by decide) (by decide +kernel)
  obtain ⟨hpair, hjoin⟩ := transfers_keep_apart twoAppend justOpened rfl inTurn hok
  have hdesc := hjoin 2 rfl
  rw [hlog] at hdesc
  exact ⟨hlog, hpair, hdesc⟩

/-! ## calls that found the same position -/

def appendsTogether : List (Sections.Action IoCall Nat) :=
  [.call 1 (.write 0 [7]), .call 2 (.write 1 [8]), .go 1 100, .go 2 100] ++
    replicate 6 (.go 1 100) ++ replicate 6 (.go 2 100)

/-- two reads of one byte through one description, which look at its offset before either stores it -/
def readsTogether : List (Sections.Action IoCall Nat) :=
  [.call 3 (.read 5 1), .call 4 (.read 5 1), .go 3 100, .go 4 100, .go 3 100, .go 4 100]

/-- the second append overwrites the first, and the two reads move the same byte -/
theorem transfers_overlap :
    (¬ (Run.run (ioObject twoAppend).step (.start justOpened) appendsTogether).shared.log.Pairwise
        fun e e' => e.append = true → e'.append = true → e.stop ≤ e'.offset) ∧
      (Run.run (ioObject twoAppend).step (.start justOpened) appendsTogether).shared.file.data =
        [8] ∧ ¬ Joined 0 (ofDesc 5
        (Run.run (ioObject twoAppend).step (.start justOpened) (oneAppend ++ readsTogether)).shared.log) := by
  have happends : (Run.run (ioObject twoAppend).step (.start justOpened) appendsTogether).shared.log =
      [⟨0, 0, 1, true⟩, ⟨1, 0, 1, true⟩] := rfl
  have hreads : ofDesc 5 (Run.run (ioObject twoAppend).step (.start justOpened)
      (oneAppend ++ readsTogether)).shared.log = [⟨5, 0, 1, false⟩, ⟨5, 0, 1, false⟩] := rfl
  refine ⟨?_, rfl, ?_⟩
  · rw [happends]
    decide
  · rw [hreads]
    rintro ⟨-, hjoin, -⟩
    cases hjoin

end ClaudeOs.Fs.File
