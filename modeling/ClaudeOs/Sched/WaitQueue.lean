import ClaudeOs.Sched.Table

/-!
# A queue of tasks waiting for a condition

`WaitQueue` of `sched`, with any number of tasks waiting in it and the rest of the kernel around
them.  A task asks for its condition, registers and goes to sleep in one section with interrupts off;
it is put back on the run queue by a wake, by a tick, or by something else that had a reason to; and
it takes itself off the queue and asks again.  Between any two of these steps the processor may be
given to another task.

* `Wait`, `Phase`  the call a task made, and where it is in it;
* `no_lost_wakeups`  a wake reaches whoever sleeps, and a deadline ends a sleep.
-/

namespace ClaudeOs.Sched
open Procs Option

def U64_MAX : Nat := 2 ^ 64 - 1

/-- `wait_until`, or `wait_until_or_at` with its deadline -/
inductive Wait where
  | plain
  | orAt (deadline : Nat)
deriving DecidableEq, Repr

/-- the deadline the task goes to sleep with, zero for none -/
def Wait.wakeAt : Wait → Nat
  | .plain => 0
  | .orAt deadline => if deadline = U64_MAX then 0 else deadline

def Wait.timedOut : Wait → Nat → Bool
  | .plain, _ => false
  | .orAt deadline, ticks => deadline ≤ ticks

def Wait.Ahead (wait : Wait) (ticks : Nat) : Prop :=
  ∀ deadline, wait = .orAt deadline → deadline ≠ U64_MAX → ticks < deadline

inductive Phase where
  | out
  | asking (wait : Wait)
  | parked (wait : Wait)
  | back (wait : Wait)
deriving DecidableEq, Repr

/-- one queue, the tasks and their places, their conditions and the tick count -/
structure Queue where
  procs : Procs
  waiters : List Nat
  phase : Nat → Phase
  ready : Nat → Bool
  ticks : Nat

namespace Queue
variable (s : Queue) (pid : Nat)

def moveTo (phase : Phase) : Queue :=
  { s with phase := fun p => if p = pid then phase else s.phase p }

/-- the section with interrupts off: the condition, the deadline, the entry and the sleep -/
def ask (wait : Wait) : Queue :=
  if s.ready pid || wait.timedOut s.ticks then s.moveTo pid .out
  else
    { s with
      waiters := s.waiters ++ [pid]
      procs := s.procs.change pid (·.sleep wait.wakeAt)
      phase := fun p => if p = pid then .parked wait else s.phase p }

def unlist (wait : Wait) : Queue :=
  { s with
    waiters := s.waiters.filter (· ≠ pid)
    phase := fun p => if p = pid then .asking wait else s.phase p }

def wakeAll : Queue :=
  { s with procs := s.waiters.foldl Procs.wake s.procs, waiters := [] }

def tick : Queue :=
  { s with
    ticks := s.ticks + 1
    procs := s.procs.update
      (fun t => t.state = .sleeping && t.wakeAt ≠ 0 && t.wakeAt ≤ s.ticks + 1) Task.deadlineReached }

end Queue

/-- a step of a waiting task, a change of a condition, a wake, a tick, or the rest of the kernel -/
inductive Act where
  | enter (pid : Nat) (wait : Wait)
  | ask (pid : Nat) (wait : Wait)
  | resume (pid : Nat) (wait : Wait)
  | unlist (pid : Nat) (wait : Wait)
  | setReady (pid : Nat) (value : Bool)
  | wakeAll
  | tick
  | other (procs : Procs)

namespace Act

def run (s : Queue) : Act → Queue
  | enter pid wait => s.moveTo pid (.asking wait)
  | ask pid wait => s.ask pid wait
  | resume pid wait => s.moveTo pid (.back wait)
  | unlist pid wait => s.unlist pid wait
  | setReady pid value => { s with ready := fun p => if p = pid then value else s.ready p }
  | wakeAll => s.wakeAll
  | tick => s.tick
  | other procs => { s with procs := procs }

/-- a task runs when it is runnable, and the rest of the kernel at most wakes a waiting one -/
def Enabled (s : Queue) : Act → Prop
  | enter pid _ => s.phase pid = .out ∧ ∃ t, s.procs.find pid = some t ∧ t.state = .runnable
  | ask pid wait => s.phase pid = .asking wait
  | resume pid wait =>
    s.phase pid = .parked wait ∧ ∃ t, s.procs.find pid = some t ∧ t.state = .runnable
  | unlist pid wait => s.phase pid = .back wait
  | other procs => ∀ pid t, s.phase pid ≠ .out → s.procs.find pid = some t →
      ∃ t', procs.find pid = some t' ∧
        (t'.state = t.state ∧ t'.wakeAt = t.wakeAt ∨ t'.state = .runnable)
  | setReady _ _ => True
  | wakeAll => True
  | tick => True

end Act

inductive Queue.Reached : Queue → Prop
  | start (procs : Procs) (ready : Nat → Bool) (ticks : Nat) :
      Queue.Reached ⟨procs, [], fun _ => .out, ready, ticks⟩
  | step {s : Queue} (act : Act) : Queue.Reached s → act.Enabled s → Queue.Reached (act.run s)

/-! ## the table -/

lemma find_wakes (pids : List Nat) (procs : Procs) (other : Nat) :
    (pids.foldl Procs.wake procs).find other =
      (procs.find other).map fun t => if other ∈ pids then t.wake else t := by
  induction pids generalizing procs with
  | nil => simp
  | cons pid pids ih =>
    rw [List.foldl_cons, ih, find_wake]
    cases procs.find other with
    | none => simp
    | some t =>
      have hwake : t.wake.wake = t.wake := by
        simp only [Task.wake]
        split <;> simp [*]
      by_cases h : other = pid
      · simp [h, hwake]
      · simp [h]

/-! ## what every step keeps -/

/-- a task in a wait is runnable, or on the queue with its deadline ahead -/
structure Queue.Sound (s : Queue) : Prop where
  waiting : ∀ pid, s.phase pid ≠ .out → ∃ t, s.procs.find pid = some t ∧
    (t.state = .runnable ∨ t.state = .sleeping ∧ ∃ wait, s.phase pid = .parked wait ∧
      pid ∈ s.waiters ∧ t.wakeAt = wait.wakeAt ∧ wait.Ahead s.ticks)

def Queue.Asleep (s : Queue) (pid : Nat) : Prop :=
  s.phase pid ≠ .out ∧ ∃ t, s.procs.find pid = some t ∧ t.state = .sleeping

section
variable {s : Queue} {pid : Nat} {wait : Wait}

section
variable (S : s.Sound)
include S

namespace Queue.Sound

lemma moveTo {phase : Phase}
    (h : phase = .out ∨ ∃ t, s.procs.find pid = some t ∧ t.state = .runnable) :
    (s.moveTo pid phase).Sound := by
  constructor
  intro p hp
  by_cases hpid : p = pid
  · subst hpid
    simp only [Queue.moveTo, if_true] at hp
    obtain ⟨t, ht, hstate⟩ := h.resolve_left hp
    exact ⟨t, ht, .inl hstate⟩
  · simp only [Queue.moveTo, if_neg hpid] at hp ⊢
    exact S.waiting p hp

lemma asking (h : s.phase pid = .asking wait) :
    ∃ t, s.procs.find pid = some t ∧ t.state = .runnable := by
  obtain ⟨t, ht, hstate | ⟨-, w, hw, -⟩⟩ := S.waiting pid (by rw [h]; exact Phase.noConfusion)
  · exact ⟨t, ht, hstate⟩
  · rw [h] at hw
    cases hw

lemma ask (h : s.phase pid = .asking wait) : (s.ask pid wait).Sound := by
  rw [Queue.ask]
  split
  · exact S.moveTo (.inl rfl)
  · next hno =>
    simp only [Bool.or_eq_true, not_or, Bool.not_eq_true] at hno
    obtain ⟨t, ht, -⟩ := S.asking h
    constructor
    intro p hp
    by_cases hpid : p = pid
    · subst hpid
      refine ⟨t.sleep wait.wakeAt, ?_, .inr ⟨rfl, wait, if_pos rfl, ?_, rfl, ?_⟩⟩
      · rw [find_change (Task.sleep_pid wait.wakeAt), if_pos rfl, ht, map_some]
      · exact List.mem_append.mpr (.inr (List.mem_singleton.mpr rfl))
      · -- the deadline was looked at in the same section
        rintro deadline rfl -
        simpa only [Wait.timedOut, decide_eq_false_iff_not, Nat.not_le] using hno.2
    · simp only [if_neg hpid] at hp
      obtain ⟨u, hu, hstate⟩ := S.waiting p hp
      refine ⟨u, ?_, hstate.imp id ?_⟩
      · rw [find_change (Task.sleep_pid wait.wakeAt), if_neg hpid, hu]
      · rintro ⟨hsleep, w, hw, hmem, hrest⟩
        exact ⟨hsleep, w, (if_neg hpid).trans hw, List.mem_append.mpr (.inl hmem), hrest⟩

lemma unlist (h : s.phase pid = .back wait) : (s.unlist pid wait).Sound := by
  constructor
  intro p hp
  by_cases hpid : p = pid
  · subst hpid
    obtain ⟨t, ht, hstate | ⟨-, w, hw, -⟩⟩ := S.waiting p (by rw [h]; exact Phase.noConfusion)
    · exact ⟨t, ht, .inl hstate⟩
    · rw [h] at hw
      cases hw
  · simp only [Queue.unlist, if_neg hpid] at hp ⊢
    obtain ⟨t, ht, hstate⟩ := S.waiting p hp
    refine ⟨t, ht, hstate.imp id ?_⟩
    rintro ⟨hsleep, w, hw, hmem, hrest⟩
    exact ⟨hsleep, w, hw, List.mem_filter.mpr ⟨hmem, by simpa using hpid⟩, hrest⟩

lemma awake {p : Nat} (hp : s.phase p ≠ .out) :
    ∃ t, s.wakeAll.procs.find p = some t ∧ t.state = .runnable := by
  obtain ⟨t, ht, hstate⟩ := S.waiting p hp
  refine ⟨_, by rw [Queue.wakeAll, find_wakes, ht, map_some], ?_⟩
  rcases hstate with hrun | ⟨hsleep, w, -, hmem, -⟩
  · split
    · exact Task.wake_state t (.inl hrun)
    · exact hrun
  · rw [if_pos hmem]
    exact Task.wake_state t (.inr hsleep)

lemma wakeAll : s.wakeAll.Sound := by
  constructor
  intro p hp
  obtain ⟨t, ht, hstate⟩ := S.awake hp
  exact ⟨t, ht, .inl hstate⟩

lemma tick : s.tick.Sound := by
  constructor
  intro p hp
  obtain ⟨t, ht, hstate⟩ := S.waiting p hp
  refine ⟨_, by rw [Queue.tick, find_update Task.deadlineReached_pid, ht, map_some], ?_⟩
  split
  · exact .inl rfl
  · next hlate =>
    refine hstate.imp id ?_
    rintro ⟨hsleep, w, hw, hmem, hwake, hahead⟩
    refine ⟨hsleep, w, hw, hmem, hwake, ?_⟩
    rintro deadline rfl hmax
    have hlt := hahead deadline rfl hmax
    rw [Wait.wakeAt, if_neg hmax] at hwake
    simp only [hsleep, hwake, decide_true, Bool.true_and, Bool.and_eq_true, decide_eq_true_eq,
      not_and, Nat.not_le] at hlate
    exact hlate (by omega)

lemma other {procs : Procs} (h : (Act.other procs).Enabled s) :
    Queue.Sound { s with procs := procs } := by
  constructor
  intro p hp
  obtain ⟨t, ht, hstate⟩ := S.waiting p hp
  obtain ⟨t', ht', ⟨hs, hw⟩ | hrun⟩ := h p t hp ht
  · refine ⟨t', ht', ?_⟩
    rw [hs, hw]
    exact hstate
  · exact ⟨t', ht', .inl hrun⟩

lemma step {act : Act} (h : act.Enabled s) : (act.run s).Sound := by
  cases act with
  | enter pid wait => exact S.moveTo (.inr h.2)
  | ask pid wait => exact S.ask h
  | resume pid wait => exact S.moveTo (.inr h.2)
  | unlist pid wait => exact S.unlist h
  | setReady pid value => exact ⟨S.waiting⟩
  | wakeAll => exact S.wakeAll
  | tick => exact S.tick
  | other procs => exact S.other h

end Queue.Sound
end

lemma Queue.Reached.sound (R : s.Reached) : s.Sound := by
  induction R with
  | start procs ready ticks => exact ⟨fun pid hp => absurd rfl hp⟩
  | step act _ h S => exact S.step h

end

/-! ## wake-ups -/

/-- a run in which the condition of a task holds all the time -/
inductive Queue.While (pid : Nat) : Queue → Queue → Prop
  | refl {s : Queue} : s.ready pid = true → Queue.While pid s s
  | step {s s' : Queue} (act : Act) : Queue.While pid s s' → act.Enabled s' →
      (act.run s').ready pid = true → Queue.While pid s (act.run s')

lemma Act.asleep_before {s : Queue} (S : s.Sound) {act : Act} (h : act.Enabled s) {pid : Nat}
    (hready : s.ready pid = true) (hasleep : (act.run s).Asleep pid) : s.Asleep pid := by
  obtain ⟨hphase, t, ht, hstate⟩ := hasleep
  have moved : ∀ p phase, (∃ u, s.procs.find p = some u ∧ u.state = .runnable) →
      (s.moveTo p phase).phase pid ≠ .out → s.procs.find pid = some t → s.Asleep pid := by
    rintro p phase ⟨u, hu, hrun⟩ hout ht
    by_cases hp : pid = p
    · subst hp
      exact absurd hstate (not_sleeping hu hrun ht)
    · exact ⟨by simpa only [Queue.moveTo, if_neg hp] using hout, t, ht, hstate⟩
  cases act with
  | enter p wait => exact moved p _ h.2 hphase ht
  | ask p wait =>
    simp only [Act.run, Queue.ask] at hphase ht
    by_cases hp : pid = p
    · subst hp
      simp only [hready, Bool.true_or, if_true, Queue.moveTo, ne_eq, not_true] at hphase
    · split at hphase
      · next hdone =>
        rw [if_pos hdone] at ht
        exact ⟨by simpa only [Queue.moveTo, if_neg hp] using hphase, t, ht, hstate⟩
      · next hdone =>
        rw [if_neg hdone] at ht
        simp only [find_change (Task.sleep_pid wait.wakeAt), if_neg hp] at ht
        exact ⟨by simpa only [if_neg hp] using hphase, t, ht, hstate⟩
  | resume p wait => exact moved p _ h.2 hphase ht
  | unlist p wait =>
    refine ⟨fun hout => hphase ?_, t, ht, hstate⟩
    by_cases hp : pid = p
    · subst hp
      have hback : s.phase pid = .back wait := h
      rw [hout] at hback
      cases hback
    · exact (if_neg hp).trans hout
  | setReady p value => exact ⟨hphase, t, ht, hstate⟩
  | wakeAll =>
    obtain ⟨u, hu, hrun⟩ := S.awake hphase
    exact absurd hstate (not_sleeping hu hrun ht)
  | tick =>
    simp only [Act.run, Queue.tick, find_update Task.deadlineReached_pid, map_eq_some_iff] at ht
    obtain ⟨u, hu, rfl⟩ := ht
    split at hstate
    · cases hstate
    · exact ⟨hphase, u, hu, hstate⟩
  | other procs =>
    obtain ⟨u, hu, -⟩ := S.waiting pid hphase
    obtain ⟨u', hu', hsame | hrun⟩ := h pid u hphase hu
    · obtain rfl := some.inj (hu'.symm.trans ht)
      exact ⟨hphase, u, hu, hsame.1 ▸ hstate⟩
    · exact absurd hstate (not_sleeping hu' hrun ht)

lemma Queue.While.reached {s s' : Queue} {pid : Nat} (W : Queue.While pid s s') (R : s.Reached) :
    s'.Reached ∧ s'.ready pid = true := by
  induction W with
  | refl h => exact ⟨R, h⟩
  | step act _ h hready ih => exact ⟨.step act ih.1 h, hready⟩

/-- **no wake-up is lost**: a task whose condition holds since before a wake does not sleep after
it, and nobody sleeps past their deadline -/
theorem no_lost_wakeups {s : Queue} (R : s.Reached) :
    (∀ pid s', s.ready pid = true → Queue.While pid s.wakeAll s' → ¬ s'.Asleep pid) ∧
    ∀ pid deadline, s.phase pid = .parked (.orAt deadline) → deadline ≠ U64_MAX →
      s.Asleep pid → s.ticks < deadline := by
  refine ⟨fun pid s' _ W => ?_, fun pid deadline hphase hmax hasleep => ?_⟩
  · have R₁ : s.wakeAll.Reached := .step .wakeAll R trivial
    induction W with
    | refl _ =>
      rintro ⟨hphase, t, ht, hstate⟩
      obtain ⟨u, hu, hrun⟩ := R.sound.awake hphase
      exact not_sleeping hu hrun ht hstate
    | step act W h hready ih =>
      obtain ⟨R', hready'⟩ := W.reached R₁
      exact fun hasleep => ih (Act.asleep_before R'.sound h hready' hasleep)
  · obtain ⟨hout, t, ht, hsleep⟩ := hasleep
    obtain ⟨u, hu, hrun | ⟨-, w, hw, -, -, hahead⟩⟩ := R.sound.waiting pid hout
    · exact absurd hsleep (not_sleeping hu hrun ht)
    · rw [hphase] at hw
      cases hw
      exact hahead deadline rfl hmax

/-! ## one waiter -/

/-- task 5 went to sleep in the queue, and its condition was made true since -/
def oneWaiter : Queue :=
  let start : Queue := ⟨⟨[plainTask 5], fun _ => ⟨∅, none⟩⟩, [], fun _ => .out, fun _ => false, 0⟩
  (Act.setReady 5 true).run ((Act.ask 5 .plain).run ((Act.enter 5 .plain).run start))

lemma oneWaiter_reached : oneWaiter.Reached := by
  refine .step (.setReady 5 true) (.step (.ask 5 .plain) (.step (.enter 5 .plain) (.start _ _ _) ?_)
    ?_) trivial
  · exact ⟨rfl, plainTask 5, rfl, rfl⟩
  · rfl

/-- the wake ends the wait -/
theorem no_lost_wakeups_oneWaiter : oneWaiter.Asleep 5 ∧ ¬ oneWaiter.wakeAll.Asleep 5 := by
  refine ⟨⟨Phase.noConfusion, _, rfl, rfl⟩, ?_⟩
  exact (no_lost_wakeups oneWaiter_reached).1 5 _ rfl (.refl rfl)

end ClaudeOs.Sched
