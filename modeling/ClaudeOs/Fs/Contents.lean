import ClaudeOs.Lib.Bytes
import ClaudeOs.Lib.Sections
import ClaudeOs.Fs.FdTable

/-!
# The contents of a file in memory

A file's bytes under one lock, with calls of any number of tasks.  A change of the contents claims
the file first, makes the room it needs, in pieces when the buffer has to be replaced, and does its
own part in a section after that; a read is one section and asks for no claim.

* `Contents`, `Contents.change`  the file, and the next section of a change;
* `FileCall`, `FileCall.Legal`  the calls, and what they are for;
* `Growing`  a write has lengthened the file and not yet put its bytes there;
* `file_calls_linearized`  runs in which no read comes then are those of the calls made whole one
  after another;
* `read_between_not_linearizable`  a read that finds the zeros.
-/

namespace ClaudeOs.Fs.File
open Linear Sections List Threads

/-! ## the file -/

section
variable (data : List UInt8)

/-- `Vec::resize` with zeros -/
def resize (n : Nat) : List UInt8 :=
  data.take n ++ replicate (n - data.length) 0

@[simp] lemma length_resize (n : Nat) : (resize data n).length = n := by
  rw [resize, length_append, length_take, length_replicate]
  omega

lemma resize_of_le {data : List UInt8} {n : Nat} (h : n ≤ data.length) :
    resize data n = data.take n := by
  rw [resize, Nat.sub_eq_zero_of_le h, replicate_zero, append_nil]

lemma resize_self : resize data data.length = data := by
  rw [resize_of_le (Nat.le_refl _), take_length]

structure Contents where
  data : List UInt8
  capacity : Nat
  /-- a task is changing the contents in pieces -/
  changing : Bool
  fits : data.length ≤ capacity

namespace Contents

def setChanging (c : Contents) (changing : Bool) : Contents := { c with changing := changing }

def replace (c : Contents) (data : List UInt8) (room : Nat) : Contents where
  data := data
  capacity := max room data.length
  changing := c.changing
  fits := Nat.le_max_right ..

end Contents

/-- how big a buffer to ask for; `available` is what memory is left -/
def roomFor (current target available : Nat) : Except Fd.Errno Nat :=
  let roomy := max target (current + current / 2)
  if current + roomy ≤ available then .ok roomy
  else if current + target ≤ available then .ok target
  else .error .ENOSPC

/-- how much is copied under one turn of the lock -/
def PIECE : Nat := 1024 * 1024

inductive FileAnswer where
  | bytes (data : List UInt8)
  | done (n : Nat)
  | error (e : Fd.Errno)
  /-- an index outside the contents, which stops the machine -/
  | panicked
  deriving DecidableEq

/-- what a task does to the contents once it has the claim -/
inductive Change where
  | write (offset : Nat) (buf : List UInt8)
  | truncate (len : Nat)
  deriving DecidableEq

def Change.target : Change → Nat
  | .write offset buf => offset + buf.length
  | .truncate len => len

inductive Step where
  | waiting
  | claimed
  /-- `grown` is what of the file has been copied into a buffer of `room` bytes -/
  | copying (grown : List UInt8) (held room : Nat)
  /-- there is room; `grew` says whether the file had to be made longer -/
  | roomy (grew : Bool)
  | releasing (res : FileAnswer)
  deriving DecidableEq

def putBytes (offset : Nat) (buf : List UInt8) : List UInt8 :=
  Bytes.copyInto (if data.length < offset + buf.length then resize data (offset + buf.length) else data)
    offset buf

namespace Contents

def apply (c : Contents) : Change → Contents × FileAnswer
  | .write offset buf =>
    if offset + buf.length ≤ c.data.length then
      (c.replace (Bytes.copyInto c.data offset buf) c.capacity, .done buf.length)
    else (c, .panicked)
  | .truncate len => (c.replace (resize c.data len) c.capacity, .done 0)

def change (c : Contents) (available : Nat) (ch : Change) : Step → Contents × (Step ⊕ FileAnswer)
  | .waiting => if c.changing then (c, .inl .waiting) else (c.setChanging true, .inl .claimed)
  | .claimed =>
    if ch.target ≤ c.capacity then
      if c.data.length < ch.target then
        (c.replace (resize c.data ch.target) c.capacity, .inl (.roomy true))
      else (c, .inl (.roomy false))
    else
      match roomFor c.capacity ch.target available with
      | .error e => (c, .inl (.releasing (.error e)))
      | .ok room => (c, .inl (.copying [] c.data.length room))
  | .copying grown held room =>
    if grown.length < held then
      let stop := min (grown.length + PIECE) held
      if stop ≤ c.data.length then
        (c, .inl (.copying (grown ++ (c.data.drop grown.length).take (stop - grown.length)) held room))
      else (c, .inl (.releasing .panicked))
    else (c.replace (resize grown ch.target) room, .inl (.roomy true))
  | .roomy _ => ((c.apply ch).1, .inl (.releasing (c.apply ch).2))
  | .releasing res => (c.setChanging false, .inr res)

section
variable (c : Contents) (available : Nat) (ch : Change)

lemma change_waiting : c.change available ch .waiting =
    if c.changing then (c, .inl .waiting) else (c.setChanging true, .inl .claimed) := rfl

lemma change_claimed : c.change available ch .claimed = if ch.target ≤ c.capacity then
      if c.data.length < ch.target then
        (c.replace (resize c.data ch.target) c.capacity, .inl (.roomy true))
      else (c, .inl (.roomy false))
    else
      match roomFor c.capacity ch.target available with
      | .error e => (c, .inl (.releasing (.error e)))
      | .ok room => (c, .inl (.copying [] c.data.length room)) := rfl

lemma change_copying (grown : List UInt8) (held room : Nat) :
    c.change available ch (.copying grown held room) = if grown.length < held then
        if min (grown.length + PIECE) held ≤ c.data.length then
          (c, .inl (.copying (grown ++
            (c.data.drop grown.length).take (min (grown.length + PIECE) held - grown.length))
            held room))
        else (c, .inl (.releasing .panicked))
      else (c.replace (resize grown ch.target) room, .inl (.roomy true)) := rfl

lemma change_roomy (grew : Bool) : c.change available ch (.roomy grew) =
    ((c.apply ch).1, .inl (.releasing (c.apply ch).2)) := rfl

end
end Contents

/-! ## the calls -/

inductive FileCall where
  | openat (trunc : Bool)
  | read (offset len : Nat)
  | write (offset : Nat) (buf : List UInt8)
  | truncate (len : Nat)
  deriving DecidableEq

namespace FileCall

/-- the change a call makes; a position past the range of a word has none -/
def change : FileCall → Option Change
  | .openat true => some (.truncate 0)
  | .openat false => none
  | .read _ _ => none
  | .write offset buf =>
    if offset + buf.length < 2 ^ 64 then some (.write offset buf) else none
  | .truncate len => some (.truncate len)

def answer : FileCall → FileAnswer
  | .openat _ => .done 0
  | .read offset len =>
    if offset + len < 2 ^ 64 then .bytes ((data.drop offset).take len) else .error .EINVAL
  | .write _ _ => .error .EINVAL
  | .truncate _ => .done 0

end FileCall

/-- the file as an object its calls share; a section is told how much memory is left -/
def fileObject : Object Contents FileCall Step FileAnswer Nat where
  begin _ := .waiting
  advance c available op step :=
    match op.change with
    | some ch => c.change available ch step
    | none => (c, .inr (op.answer c.data))

abbrev FileThreads := Threads Contents FileCall Step

/-! ## what they are for -/

/-- a change made whole; one that needs the file longer may find no memory -/
def Change.Legal (res : FileAnswer) (data' : List UInt8) : Change → Prop
  | .write offset buf =>
    res = .done buf.length ∧ data' = putBytes data offset buf ∨
      res = .error .ENOSPC ∧ data.length < offset + buf.length ∧ data' = data
  | .truncate len =>
    res = .done 0 ∧ data' = resize data len ∨
      res = .error .ENOSPC ∧ data.length < len ∧ data' = data

def FileCall.Legal (op : FileCall) (res : FileAnswer) (data' : List UInt8) : Prop :=
  match op.change with
  | some ch => ch.Legal data res data'
  | none => res = op.answer data ∧ data' = data

end

/-! ## where a call takes effect -/

/-- a growing truncation has taken effect when there is room, every other change with its last
section -/
def Change.point : Change → Step → Option FileAnswer
  | _, .releasing res => some res
  | .truncate _, .roomy true => some (.done 0)
  | _, _ => none

def FileCall.point (op : FileCall) (step : Step) : Option FileAnswer :=
  match op.change with
  | some ch => ch.point step
  | none => none

def Growing (w : FileThreads) : Prop :=
  ∃ id offset buf, w.calls id = .running (.write offset buf) (.roomy true)

def Undisturbed (w : FileThreads) : Sections.Action FileCall Nat → Prop
  | .call _ _ => True
  | .go id _ => ∀ offset len step, w.calls id = .running (.read offset len) step → ¬ Growing w

def Step.Holding : Step → Prop
  | .waiting => False
  | _ => True

/-- the file beside the specification's bytes, as the change that has the claim leaves it -/
def Change.Shows (c : Contents) (a : List UInt8) (ch : Change) : Step → Prop
  | .waiting => True
  | .claimed => c.data = a
  | .copying grown held _ =>
    c.data = a ∧ held = c.data.length ∧ grown = c.data.take grown.length ∧ held < ch.target
  | .roomy grew =>
    match ch with
    | .write offset buf =>
      if grew then a.length < offset + buf.length ∧ c.data = resize a (offset + buf.length)
      else c.data = a ∧ offset + buf.length ≤ a.length
    | .truncate len => c.data = a ∧ if grew then a.length = len else len ≤ a.length
  | .releasing _ => c.data = a

/-- the threads beside the specification's bytes -/
structure Holds (w : FileThreads) (a : List UInt8) : Prop where
  idle : w.shared.changing = false → w.shared.data = a
  claimed : w.shared.changing = true → ∃ id op ch step, w.calls id = .running op step ∧
    step.Holding ∧ op.change = some ch
  holder : ∀ {id op step}, w.calls id = .running op step → step.Holding →
    w.shared.changing = true ∧ ∃ ch, op.change = some ch ∧ ch.Shows w.shared a step
  one : ∀ {id id' op op' step step'}, w.calls id = .running op step → step.Holding →
    w.calls id' = .running op' step' → step'.Holding → id = id'

/-! ## small facts -/

section
variable {op : FileCall} {ch : Change}

lemma FileCall.point_eq (h : op.change = some ch) (step : Step) : op.point step = ch.point step := by
  rw [FileCall.point, h]

lemma FileCall.legal_iff (h : op.change = some ch) {data data' : List UInt8} {res : FileAnswer} :
    op.Legal data res data' ↔ ch.Legal data res data' := by rw [FileCall.Legal, h]

lemma FileCall.eq_write {offset : Nat} {buf : List UInt8}
    (h : op.change = some (.write offset buf)) : op = .write offset buf := by
  cases op with
  | openat trunc => cases trunc <;> cases h
  | read => cases h
  | truncate => cases h
  | write offset' buf' =>
    have hif : (if offset' + buf'.length < 2 ^ 64 then some (Change.write offset' buf') else none) =
        some (.write offset buf) := h
    split at hif
    · cases hif
      rfl
    · cases hif

lemma roomFor_error {current target available : Nat} {e : Fd.Errno}
    (h : roomFor current target available = .error e) : e = .ENOSPC := by
  unfold roomFor at h
  dsimp only at h
  split at h
  · cases h
  · split at h
    · cases h
    · cases h
      rfl

lemma take_append_take {data grown : List UInt8} {stop : Nat}
    (hgrown : grown = data.take grown.length) (hstop : stop ≤ data.length)
    (hle : grown.length ≤ stop) : grown ++ (data.drop grown.length).take (stop - grown.length) =
      data.take (grown ++ (data.drop grown.length).take (stop - grown.length)).length := by
  have hall : grown ++ (data.drop grown.length).take (stop - grown.length) = data.take stop := by
    have hsum : stop = grown.length + (stop - grown.length) := by omega
    rw [hsum, take_add, ← hgrown, Nat.add_sub_cancel_left]
  rw [hall, length_take, Nat.min_eq_left hstop]

end

lemma holds_start (c : Contents) (h : c.changing = false) : Holds (.start c) c.data where
  idle _ := rfl
  claimed hc := by
    rw [show (start c : FileThreads).shared = c from rfl, h] at hc
    cases hc
  holder hrun := by cases hrun
  one hrun := by cases hrun

section
variable {w : FileThreads} {a a' : List UInt8} {id : Nat} {op : FileCall} {ch : Change} {step : Step}

abbrev Advances (w : FileThreads) (a : List UInt8) (id : Nat) (op : FileCall) (step : Step) :
    Contents × (Step ⊕ FileAnswer) → Prop :=
  Object.Advances FileCall.Legal FileCall.point Holds w a id op step

namespace Holds
section
variable (h : Holds w a)
include h

section
variable (hrun : w.calls id = .running op step)
include hrun

lemma alone (hold : step.Holding) {k : Nat} {op' : FileCall} {step' : Step} (hk : k ≠ id)
    (hrun' : w.calls k = .running op' step') : ¬ step'.Holding :=
  fun hold' => hk (h.one hrun' hold' hrun hold)

lemma set_running (hold : step.Holding) {c : Contents} {next : Step} (hch : op.change = some ch)
    (hchanging : c.changing = true) (hnext : next.Holding) (hshows : ch.Shows c a' next) :
    Holds (w.set c id (.running op next)) a' where
  idle hc := by
    rw [shared_set, hchanging] at hc
    cases hc
  claimed _ := ⟨id, op, ch, next, calls_set_self .., hnext, hch⟩
  holder {k op' step'} hk hstep' := by
    rcases calls_set_eq _ _ _ hk with ⟨-, heq⟩ | ⟨hne, hw⟩
    · injection heq with hop hst
      subst hop hst
      exact ⟨hchanging, ch, hch, hshows⟩
    · exact absurd hstep' (h.alone hrun hold hne hw)
  one {k k' op1 op2 step1 step2} hk hstep1 hk' hstep2 := by
    rcases calls_set_eq _ _ _ hk with ⟨rfl, -⟩ | ⟨hne, hw⟩
    · rcases calls_set_eq _ _ _ hk' with ⟨rfl, -⟩ | ⟨hne', hw'⟩
      · rfl
      · exact absurd hstep2 (h.alone hrun hold hne' hw')
    · exact absurd hstep1 (h.alone hrun hold hne hw)

lemma release (hold : step.Holding) (hdata : w.shared.data = a) :
    Holds (w.set (w.shared.setChanging false) id .returned) a where
  idle _ := hdata
  claimed hc := by cases hc
  holder {k op' step'} hk hstep' := by
    rcases calls_set_eq _ _ _ hk with ⟨-, heq⟩ | ⟨hne, hw⟩
    · cases heq
    · exact absurd hstep' (h.alone hrun hold hne hw)
  one {k k' op1 op2 step1 step2} hk hstep1 hk' hstep2 := by
    rcases calls_set_eq _ _ _ hk with ⟨-, heq⟩ | ⟨hne, hw⟩
    · cases heq
    · exact absurd hstep1 (h.alone hrun hold hne hw)

end

lemma set_other {p : Progress FileCall Step}
    (hbefore : ∀ op step, w.calls id = .running op step → ¬ step.Holding)
    (hafter : ∀ op step, p = .running op step → ¬ step.Holding) :
    Holds (w.set w.shared id p) a where
  idle hc := h.idle hc
  claimed hc := by
    obtain ⟨k, op, ch, step, hk, hold, hch⟩ := h.claimed hc
    have hne : k ≠ id := by
      intro heq
      subst heq
      exact hbefore op step hk hold
    exact ⟨k, op, ch, step, by rw [calls_set_ne _ _ _ hne]; exact hk, hold, hch⟩
  holder {k op' step'} hk hstep' := by
    rcases calls_set_eq _ _ _ hk with ⟨-, heq⟩ | ⟨-, hw⟩
    · exact absurd hstep' (hafter op' step' heq)
    · exact h.holder hw hstep'
  one {k k' op1 op2 step1 step2} hk hstep1 hk' hstep2 := by
    rcases calls_set_eq _ _ _ hk with ⟨-, heq⟩ | ⟨-, hw⟩
    · exact absurd hstep1 (hafter op1 step1 heq)
    · rcases calls_set_eq _ _ _ hk' with ⟨-, heq'⟩ | ⟨-, hw'⟩
      · exact absurd hstep2 (hafter op2 step2 heq')
      · exact h.one hw hstep1 hw' hstep2

lemma claim (hfree : w.shared.changing = false) (hch : op.change = some ch) :
    Holds (w.set (w.shared.setChanging true) id (.running op .claimed)) a := by
  have hnone {k : Nat} {op' : FileCall} {step' : Step} (hk : w.calls k = .running op' step') :
      ¬ step'.Holding := by
    intro hold
    have hchanging := (h.holder hk hold).1
    rw [hfree] at hchanging
    cases hchanging
  refine ⟨fun hc => ?_, fun _ => ?_, fun {k op' step'} hk hstep' => ?_,
    fun {k k' op1 op2 step1 step2} hk hstep1 hk' hstep2 => ?_⟩
  · cases hc
  · exact ⟨id, op, ch, .claimed, calls_set_self .., trivial, hch⟩
  · rcases calls_set_eq _ _ _ hk with ⟨-, heq⟩ | ⟨-, hw⟩
    · injection heq with hop hst
      subst hop hst
      exact ⟨rfl, ch, hch, h.idle hfree⟩
    · exact absurd hstep' (hnone hw)
  · rcases calls_set_eq _ _ _ hk with ⟨rfl, -⟩ | ⟨-, hw⟩
    · rcases calls_set_eq _ _ _ hk' with ⟨rfl, -⟩ | ⟨-, hw'⟩
      · rfl
      · exact absurd hstep2 (hnone hw')
    · exact absurd hstep1 (hnone hw)

lemma data_of_not_growing (hgrow : ¬ Growing w) : w.shared.data = a := by
  cases hc : w.shared.changing with
  | false => exact h.idle hc
  | true =>
    obtain ⟨id, op, ch, step, hrun, hold, hch⟩ := h.claimed hc
    obtain ⟨-, ch', hch', hshows⟩ := h.holder hrun hold
    rw [hch] at hch'
    cases hch'
    cases step with
    | waiting => exact hold.elim
    | claimed => exact hshows
    | copying grown held room => exact hshows.1
    | releasing res => exact hshows
    | roomy grew =>
      cases ch with
      | truncate len => exact hshows.1
      | write offset buf =>
        cases grew with
        | false => exact hshows.1
        | true =>
          refine absurd ⟨id, offset, buf, ?_⟩ hgrow
          rw [hrun, FileCall.eq_write hch]

end
end Holds

/-! ## every section -/

namespace Holds
variable (available : Nat)

section
variable (h : Holds w a)
include h

lemma grown (hrun : w.calls id = .running op step) (hold : step.Holding)
    (hpoint : op.point step = none) (hch : op.change = some ch) (hlt : a.length < ch.target)
    (room : Nat) :
    Advances w a id op step (w.shared.replace (resize a ch.target) room, .inl (.roomy true)) := by
  obtain ⟨hchanging, -⟩ := h.holder hrun hold
  cases ch with
  | write offset buf =>
    refine .goesOn ?_ (h.set_running hrun hold hch hchanging trivial ?_)
    · rw [hpoint, FileCall.point_eq hch]
      rfl
    · exact ⟨hlt, rfl⟩
  | truncate len =>
    have hlegal : op.Legal a (.done 0) (resize a len) :=
      (FileCall.legal_iff hch).mpr (.inl ⟨rfl, rfl⟩)
    have hshows : (Change.truncate len).Shows (w.shared.replace (resize a len) room) (resize a len)
        (.roomy true) := ⟨rfl, length_resize a len⟩
    exact .takesEffect hpoint (FileCall.point_eq hch _) hlegal
      (h.set_running hrun hold hch hchanging trivial hshows)

lemma waiting (hrun : w.calls id = .running op .waiting) (hch : op.change = some ch) :
    Advances w a id op .waiting (w.shared.change available ch .waiting) := by
  rw [Contents.change_waiting]
  cases hc : w.shared.changing with
  | true =>
    rw [if_pos rfl]
    refine .goesOn rfl (h.set_other ?_ ?_)
    · intro op' step' hw hold
      rw [hrun] at hw
      cases hw
      exact hold
    · intro op' step' heq hold
      cases heq
      exact hold
  | false =>
    rw [if_neg Bool.false_ne_true]
    refine .goesOn ?_ (h.claim hc hch)
    rw [FileCall.point_eq hch, FileCall.point_eq hch]
    cases ch <;> rfl

lemma claimed_section (hrun : w.calls id = .running op .claimed)
    (hch : op.change = some ch) (hdata : w.shared.data = a) :
    Advances w a id op .claimed (w.shared.change available ch .claimed) := by
  have hpoint : op.point .claimed = none := by
    rw [FileCall.point_eq hch]
    cases ch <;> rfl
  have hchanging := (h.holder hrun trivial).1
  rw [Contents.change_claimed]
  by_cases hfits : ch.target ≤ w.shared.capacity
  · rw [if_pos hfits]
    by_cases hlt : w.shared.data.length < ch.target
    · rw [if_pos hlt, hdata]
      exact h.grown hrun trivial hpoint hch (hdata ▸ hlt) _
    · rw [if_neg hlt]
      refine .goesOn ?_ (h.set_running hrun trivial hch hchanging trivial ?_)
      · rw [hpoint, FileCall.point_eq hch]
        cases ch <;> rfl
      · rw [hdata] at hlt
        cases ch with
        | write offset buf => exact ⟨hdata, Nat.le_of_not_lt hlt⟩
        | truncate len => exact ⟨hdata, Nat.le_of_not_lt hlt⟩
  · rw [if_neg hfits]
    have hlt : a.length < ch.target := by
      have hcap := w.shared.fits
      rw [hdata] at hcap
      omega
    cases hroom : roomFor w.shared.capacity ch.target available with
    | error e =>
      have hlegal : op.Legal a (.error e) a := by
        rw [FileCall.legal_iff hch, roomFor_error hroom]
        cases ch with
        | write offset buf => exact .inr ⟨rfl, hlt, rfl⟩
        | truncate len => exact .inr ⟨rfl, hlt, rfl⟩
      exact .takesEffect hpoint (FileCall.point_eq hch _) hlegal
        (h.set_running hrun trivial hch hchanging trivial hdata)
    | ok room =>
      refine .goesOn ?_ (h.set_running hrun trivial hch hchanging trivial ?_)
      · rw [hpoint, FileCall.point_eq hch]
        cases ch <;> rfl
      · exact ⟨hdata, rfl, rfl, hdata ▸ hlt⟩

lemma copying_section {grown : List UInt8} {held room : Nat}
    (hrun : w.calls id = .running op (.copying grown held room)) (hch : op.change = some ch)
    (hshows : ch.Shows w.shared a (.copying grown held room)) :
    Advances w a id op (.copying grown held room)
      (w.shared.change available ch (.copying grown held room)) := by
  obtain ⟨hdata, hheld, hgrown, hlt⟩ := hshows
  have hpoint : op.point (.copying grown held room) = none := by
    rw [FileCall.point_eq hch]
    cases ch <;> rfl
  have hchanging := (h.holder hrun trivial).1
  rw [Contents.change_copying]
  by_cases hmore : grown.length < held
  · have hstop : min (grown.length + PIECE) held ≤ w.shared.data.length := by
      rw [hheld]
      exact Nat.min_le_right ..
    rw [if_pos hmore, if_pos hstop]
    refine .goesOn ?_ (h.set_running hrun trivial hch hchanging trivial ?_)
    · rw [hpoint, FileCall.point_eq hch]
      cases ch <;> rfl
    · refine ⟨hdata, hheld, ?_, hlt⟩
      exact take_append_take hgrown hstop (by omega)
  · have hall : grown = a := by
      rw [hgrown, ← hdata, take_of_length_le (by omega)]
    rw [if_neg hmore, show resize grown ch.target = resize a ch.target by rw [hall]]
    exact h.grown hrun trivial hpoint hch (by rw [← hdata, ← hheld]; exact hlt) room

lemma roomy_section {grew : Bool}
    (hrun : w.calls id = .running op (.roomy grew)) (hch : op.change = some ch)
    (hshows : ch.Shows w.shared a (.roomy grew)) :
    Advances w a id op (.roomy grew) (w.shared.change available ch (.roomy grew)) := by
  have hchanging := (h.holder hrun trivial).1
  cases ch with
  | write offset buf =>
    have hin : offset + buf.length ≤ w.shared.data.length ∧
        Bytes.copyInto w.shared.data offset buf = putBytes a offset buf := by
      unfold putBytes
      cases grew with
      | true =>
        obtain ⟨hlt, hdata⟩ := hshows
        rw [if_pos hlt, hdata, length_resize]
        exact ⟨Nat.le_refl _, rfl⟩
      | false =>
        obtain ⟨hdata, hle⟩ := hshows
        rw [if_neg (Nat.not_lt.mpr hle), hdata]
        exact ⟨hle, rfl⟩
    have happly : w.shared.apply (.write offset buf) =
        (w.shared.replace (putBytes a offset buf) w.shared.capacity, .done buf.length) := by
      rw [Contents.apply, if_pos hin.1, hin.2]
    have hnone : op.point (.roomy grew) = none := by
      rw [FileCall.point_eq hch]
      cases grew <;> rfl
    have hlegal : op.Legal a (.done buf.length) (putBytes a offset buf) :=
      (FileCall.legal_iff hch).mpr (.inl ⟨rfl, rfl⟩)
    rw [Contents.change_roomy, happly]
    exact .takesEffect hnone (FileCall.point_eq hch _) hlegal
      (h.set_running hrun trivial hch hchanging trivial rfl)
  | truncate len =>
    obtain ⟨hdata, hgrew⟩ := hshows
    rw [Contents.change_roomy, Contents.apply, hdata]
    cases grew with
    | true =>
      -- it had its effect when the file grew
      have hsame : resize a len = a := by
        have hlen : a.length = len := hgrew
        rw [← hlen, resize_self]
      rw [hsame]
      refine .goesOn ?_ (h.set_running hrun trivial hch hchanging trivial rfl)
      rw [FileCall.point_eq hch, FileCall.point_eq hch]
      rfl
    | false =>
      have hnone : op.point (.roomy false) = none := FileCall.point_eq hch _
      have hlegal : op.Legal a (.done 0) (resize a len) :=
        (FileCall.legal_iff hch).mpr (.inl ⟨rfl, rfl⟩)
      exact .takesEffect hnone (FileCall.point_eq hch _) hlegal
        (h.set_running hrun trivial hch hchanging trivial rfl)

lemma change_section (hrun : w.calls id = .running op step)
    (hch : op.change = some ch) : Advances w a id op step (w.shared.change available ch step) := by
  by_cases hold : step.Holding
  · obtain ⟨-, ch', hch', hshows⟩ := h.holder hrun hold
    rw [hch] at hch'
    cases hch'
    cases step with
    | waiting => exact hold.elim
    | claimed => exact h.claimed_section available hrun hch hshows
    | copying grown held room => exact h.copying_section available hrun hch hshows
    | roomy grew => exact h.roomy_section available hrun hch hshows
    | releasing res => exact .returns (FileCall.point_eq hch _) (h.release hrun hold hshows)
  · cases step with
    | waiting => exact h.waiting available hrun hch
    | claimed => exact absurd trivial hold
    | copying => exact absurd trivial hold
    | roomy => exact absurd trivial hold
    | releasing => exact absurd trivial hold

lemma answer_section (hrun : w.calls id = .running op step) (hch : op.change = none)
    (hread : ∀ offset len, op = .read offset len → ¬ Growing w) :
    Advances w a id op step (w.shared, .inr (op.answer w.shared.data)) := by
  have hanswer : op.answer w.shared.data = op.answer a := by
    cases op with
    | openat trunc => rfl
    | read offset len => rw [h.data_of_not_growing (hread offset len rfl)]
    | write offset buf => rfl
    | truncate len => rfl
  have hnone : op.point step = none := by rw [FileCall.point, hch]
  have hlegal : op.Legal a (op.answer w.shared.data) a := by
    rw [FileCall.Legal, hch]
    exact ⟨hanswer, rfl⟩
  refine .ends hnone hlegal (h.set_other ?_ ?_)
  · intro op' step' hw hold
    rw [hrun] at hw
    cases hw
    obtain ⟨-, ch, hch', -⟩ := h.holder hrun hold
    rw [hch] at hch'
    cases hch'
  · intro op' step' heq
    cases heq

end
end Holds

lemma file_points : fileObject.Points FileCall.Legal FileCall.point Holds Undisturbed where
  fresh op := by
    unfold FileCall.point
    cases op.change with
    | none => rfl
    | some ch => cases ch <;> rfl
  call op h hrun := by
    refine h.set_other ?_ ?_
    · intro op' step' hw
      rw [hrun] at hw
      cases hw
    · intro op' step' heq hold
      cases heq
      exact hold
  go h hrun hok := by
    rename_i w a id op step available
    show Advances w a id op step (match op.change with
      | some ch => w.shared.change available ch step
      | none => (w.shared, .inr (op.answer w.shared.data)))
    cases hch : op.change with
    | some ch => exact h.change_section available hrun hch
    | none =>
      refine h.answer_section hrun hch fun offset len heq => ?_
      subst heq
      exact hok offset len step hrun

end

/-- **calls on one file** have an order, keeping a call that had returned in front of one made
later, in which made whole they give the answers they gave, if no read comes between a write's
growth and its bytes -/
theorem file_calls_linearized (c : Contents) (hc : c.changing = false)
    (as : List (Sections.Action FileCall Nat)) (h : Run.Allowed fileObject.step Undisturbed (.start c) as) :
    Linearizable FileCall.Legal c.data (history fileObject.step fileObject.events (.start c) as) := by
  obtain ⟨order, -, hlin, -⟩ := file_points.linearized (holds_start c hc) h
  exact ⟨order, hlin⟩

def empty : Contents := ⟨[], 0, false, length_nil.le⟩

def readAfter : List (Sections.Action FileCall Nat) :=
  [.call 1 (.write 0 [7]), .go 1 100, .go 1 100, .go 1 100, .go 1 100, .go 1 100,
    .call 2 (.read 0 1), .go 2 100]

/-- a read after a write that made the file longer -/
theorem file_calls_linearized_readAfter :
    Run.Allowed fileObject.step Undisturbed (.start empty) readAfter ∧
    history fileObject.step fileObject.events (.start empty) readAfter =
      [.call 1 (.write 0 [7]), .ret 1 (.done 1), .call 2 (.read 0 1), .ret 2 (.bytes [7])] ∧
    Linearizable FileCall.Legal []
      (history fileObject.step fileObject.events (.start empty) readAfter) := by
  have hwrite (w : FileThreads) (offset : Nat) (buf : List UInt8) (step : Step)
      (h : w.calls 1 = .running (.write offset buf) step) (available : Nat) :
      Undisturbed w (.go 1 available) := by
    intro offset len step' hrun
    rw [h] at hrun
    cases hrun
  have hok : Run.Allowed fileObject.step Undisturbed (.start empty) readAfter := by
    refine ⟨trivial, hwrite _ 0 [7] _ rfl _, hwrite _ 0 [7] _ rfl _, hwrite _ 0 [7] _ rfl _,
      hwrite _ 0 [7] _ rfl _, hwrite _ 0 [7] _ rfl _, trivial, ?_, trivial⟩
    rintro _ _ _ - ⟨id, offset, buf, hrun⟩
    by_cases h₁ : id = 1
    · subst h₁
      cases hrun
    by_cases h₂ : id = 2
    · subst h₂
      cases hrun
    have habsent := fileObject.calls_run_absent empty (readAfter.take 7) (k := id)
      (by simp [readAfter, Sections.Action.id, h₁, h₂])
    exact absurd (habsent.symm.trans hrun) (fun heq => by cases heq)
  exact ⟨hok, rfl, file_calls_linearized empty rfl readAfter hok⟩

/-! ## a read between the two -/

def readBetween : List (Sections.Action FileCall Nat) :=
  [.call 1 (.write 0 [7]), .go 1 100, .go 1 100, .go 1 100, .call 2 (.read 0 1), .go 2 100,
    .go 1 100, .go 1 100]

lemma follows_write {u : List UInt8} {order : List (Entry FileCall FileAnswer)}
    (h : Follows FileCall.Legal [] order u) (hops : ∀ b ∈ order, b.op = .write 0 [7]) :
    u = [] ∨ u = [7] := by
  induction h with
  | nil => exact .inl rfl
  | @snoc t t' es e _ hlegal ih =>
    have ht := ih fun b hb => hops b (mem_append_left _ hb)
    rw [hops e (mem_append_right _ (mem_singleton_self e))] at hlegal
    rcases hlegal with ⟨-, hput⟩ | ⟨-, -, hsame⟩
    · rcases ht with rfl | rfl
      · exact .inr hput
      · exact .inr hput
    · rwa [hsame]

/-- the read finds a zero that the file holds neither before the write nor after it -/
theorem read_between_not_linearizable :
    history fileObject.step fileObject.events (.start empty) readBetween =
      [.call 1 (.write 0 [7]), .call 2 (.read 0 1), .ret 2 (.bytes [0]), .ret 1 (.done 1)] ∧
    ¬ Linearizable FileCall.Legal []
      (history fileObject.step fileObject.events (.start empty) readBetween) := by
  have hist : history fileObject.step fileObject.events (.start empty) readBetween =
      [.call 1 (.write 0 [7]), .call 2 (.read 0 1), .ret 2 (.bytes [0]), .ret 1 (.done 1)] := rfl
  refine ⟨hist, ?_⟩
  rw [hist]
  rintro ⟨order, hlin⟩
  obtain ⟨op, before, u, u', hcall, hbefore, hlegal, hother⟩ :=
    hlin.place (show Event.ret 2 (.bytes [0]) ∈ _ by simp)
  have hop : op = .read 0 1 := by simpa using hcall
  -- in front of the read there can only be the write
  have hops : ∀ b ∈ before, b.op = .write 0 [7] := by
    intro b hb
    obtain ⟨hne, hb⟩ := hother b hb
    simp only [mem_cons, Event.call.injEq, reduceCtorEq, not_mem_nil, or_false, hne,
      false_and, or_self] at hb
    exact hb.2
  rw [hop] at hlegal
  rcases follows_write hbefore hops with rfl | rfl
  · exact absurd hlegal.1 (by decide)
  · exact absurd hlegal.1 (by decide)

end ClaudeOs.Fs.File
