import ClaudeOs.Sched.Post
import ClaudeOs.Sched.WaitQueue

/-!
# Sleeps that a signal ends

The three ways a task sleeps until a signal comes: `sleep_ticks`, a wait on a queue whose condition
asks for pending signals, and `FUTEX_WAIT`.  The first two ask whether a signal waits in the section
with interrupts off that also puts the task to sleep.  A futex wait asks before it, and between the
question and the sleep the processor may be given to a task that posts one.

* `Place`  where a task is in such a call;
* `Move`, `Move.run`  the steps, with posts among them;
* `signals_end_sleeps`  after a post the thread it is for does not sleep with the signal pending,
  when it was not between the question and the sleep of a futex wait at the post;
* `futex_sleeps_through`  and when it was.
-/

namespace ClaudeOs.Sched
open Procs

structure Key where
  space : Nat
  address : Nat
deriving DecidableEq, Repr

structure FutexWaiter where
  pid : Nat
  key : Key
  woken : Bool
deriving DecidableEq, Repr

/-- where a task is: outside these calls, in `sleep_ticks`, in a wait on the queue, or at a point of
`FUTEX_WAIT` -/
inductive Place where
  | out
  | toDoze (ticks : Nat)
  | dozing
  | asking (wait : Wait)
  | parked (wait : Wait)
  | back (wait : Wait)
  | register (key : Key) (deadline : Nat)
  | reread (key : Key) (deadline : Nat)
  | look (key : Key) (deadline : Nat)
  | park (key : Key) (deadline : Nat)
  | slept (key : Key) (deadline : Nat)
  | leave (key : Key) (deadline : Nat) (again : Bool)
deriving DecidableEq, Repr

def Place.sleeps : Place → Bool
  | .dozing | .parked _ | .slept _ _ => true
  | _ => false

def Place.between : Place → Bool
  | .park _ _ => true
  | _ => false

structure Sleepers where
  procs : Procs
  waiters : List Nat
  futexes : List FutexWaiter
  place : Nat → Place
  /-- what the condition of a wait on the queue says, signals apart -/
  ready : Nat → Bool
  ticks : Nat

namespace Sleepers
variable (s : Sleepers) (pid : Nat) (key : Key)

def moveTo (place : Place) : Sleepers :=
  { s with place := fun p => if p = pid then place else s.place p }

def sleepAt (wakeAt : Nat) (place : Place) : Sleepers :=
  { s with
    procs := s.procs.change pid (·.sleep wakeAt)
    place := fun p => if p = pid then place else s.place p }

def signalled : Bool :=
  (s.procs.find pid).any s.procs.hasPendingSignal

def doze (ticks : Nat) : Sleepers :=
  if s.signalled pid then s.moveTo pid .out else s.sleepAt pid (s.ticks + max ticks 1) .dozing

def ask (wait : Wait) : Sleepers :=
  if s.ready pid || s.signalled pid || wait.timedOut s.ticks then s.moveTo pid .out
  else { s.sleepAt pid wait.wakeAt (.parked wait) with waiters := s.waiters ++ [pid] }

def registerFutex : Sleepers :=
  { s with futexes := s.futexes ++ [⟨pid, key, false⟩] }

def unregisterFutex : Sleepers :=
  { s with futexes := s.futexes.filter fun w => !(w.pid == pid && w.key == key) }

/-- the section of `futex::sleep_until` -/
def parkFutex (deadline : Nat) : Sleepers :=
  if s.futexes.any fun w => w.pid == pid && w.key == key && w.woken then
    s.moveTo pid (.leave key deadline true)
  else if deadline ≤ s.ticks then s.moveTo pid (.leave key deadline false)
  else s.sleepAt pid (if deadline = U64_MAX then 0 else deadline) (.slept key deadline)

/-- the first half of `futex::wake`: up to `count` entries marked -/
def markFutexes (key : Key) : Nat → List FutexWaiter → List FutexWaiter
  | 0, entries => entries
  | _, [] => []
  | count + 1, w :: entries =>
    if w.key = key ∧ w.woken = false then ⟨w.pid, w.key, true⟩ :: markFutexes key count entries
    else w :: markFutexes key (count + 1) entries

def tick : Sleepers :=
  { s with
    ticks := s.ticks + 1
    procs := s.procs.update
      (fun t => t.state = .sleeping && t.wakeAt ≠ 0 && t.wakeAt ≤ s.ticks + 1) Task.deadlineReached }

end Sleepers

/-- a step of a task in one of these calls, a post, or a step of the rest of the kernel -/
inductive Move where
  | enter (pid : Nat) (place : Place)
  | doze (pid ticks : Nat)
  | ask (pid : Nat) (wait : Wait)
  | resume (pid : Nat)
  | unlist (pid : Nat) (wait : Wait)
  | register (pid : Nat) (key : Key) (deadline : Nat)
  /-- the word read again, which may be what it was or not, and may not be readable -/
  | reread (pid : Nat) (key : Key) (deadline : Nat) (same : Bool)
  | look (pid : Nat) (key : Key) (deadline : Nat)
  | park (pid : Nat) (key : Key) (deadline : Nat)
  | leave (pid : Nat) (key : Key) (deadline : Nat) (again : Bool)
  | setReady (pid : Nat) (value : Bool)
  | wakeAll
  | markFutexes (key : Key) (count : Nat)
  | tick
  | post (task : Task) (signal : Signal)
  | postProcess (member : Task) (signal : Signal)
  | other (procs : Procs)

open Move
namespace Move

def onward : Place → Place
  | .parked wait => .back wait
  | .slept key deadline => .leave key deadline true
  | _ => .out

def run (s : Sleepers) : Move → Sleepers
  | enter pid place => s.moveTo pid place
  | doze pid ticks => s.doze pid ticks
  | ask pid wait => s.ask pid wait
  | resume pid => s.moveTo pid (onward (s.place pid))
  | unlist pid wait => { s.moveTo pid (.asking wait) with waiters := s.waiters.filter (· ≠ pid) }
  | register pid key deadline => (s.registerFutex pid key).moveTo pid (.reread key deadline)
  | reread pid key deadline same =>
    s.moveTo pid (if same then .look key deadline else .leave key deadline false)
  | look pid key deadline =>
    s.moveTo pid (if s.signalled pid then .leave key deadline false else .park key deadline)
  | park pid key deadline => s.parkFutex pid key deadline
  | leave pid key deadline again =>
    (s.unregisterFutex pid key).moveTo pid (if again then .register key deadline else .out)
  | setReady pid value => { s with ready := fun p => if p = pid then value else s.ready p }
  | wakeAll => { s with procs := s.waiters.foldl Procs.wake s.procs, waiters := [] }
  | markFutexes key count => { s with futexes := Sleepers.markFutexes key count s.futexes }
  | tick => s.tick
  | post task signal => { s with procs := s.procs.postSignal task signal }
  | postProcess member signal => { s with procs := s.procs.postProcessSignal member signal }
  | other procs => { s with procs := procs }

def starts : Place → Bool
  | .toDoze _ | .asking _ | .register _ _ => true
  | _ => false

def Enabled (s : Sleepers) : Move → Prop
  | enter pid place => s.place pid = .out ∧ starts place = true ∧ (s.procs.find pid).isSome = true
  | doze pid ticks => s.place pid = .toDoze ticks
  | ask pid wait => s.place pid = .asking wait
  | resume pid => (s.place pid).sleeps = true ∧ ∃ t, s.procs.find pid = some t ∧ t.state = .runnable
  | unlist pid wait => s.place pid = .back wait
  | register pid key deadline => s.place pid = .register key deadline
  | reread pid key deadline _ => s.place pid = .reread key deadline
  | look pid key deadline => s.place pid = .look key deadline
  | park pid key deadline => s.place pid = .park key deadline
  | leave pid key deadline again => s.place pid = .leave key deadline again
  | post task _ => s.procs.find task.pid = some task
  | postProcess member _ => s.procs.find member.pid = some member
  | other procs => ∀ pid t, s.place pid ≠ .out → s.procs.find pid = some t →
      ∃ t', procs.find pid = some t' ∧
        (t'.state = t.state ∧ t'.wakeAt = t.wakeAt ∨ t'.state = .runnable)
  | setReady _ _ => True
  | wakeAll => True
  | markFutexes _ _ => True
  | tick => True

def For (s : Sleepers) (pid : Nat) (signal : Signal) : Move → Prop
  | post task sent => task.pid = pid ∧ sent = signal
  | postProcess member sent => sent = signal ∧ s.procs.For member signal pid
  | _ => False

end Move

namespace Sleepers

inductive Reached : Sleepers → Prop
  | start (procs : Procs) (ready : Nat → Bool) (ticks : Nat) :
      Reached ⟨procs, [], [], fun _ => .out, ready, ticks⟩
  | step {s : Sleepers} (move : Move) : Reached s → move.Enabled s →
      Reached (move.run s)

def Asleep (s : Sleepers) (pid : Nat) : Prop :=
  (s.place pid).sleeps = true ∧ ∃ t, s.procs.find pid = some t ∧ t.state = .sleeping

/-- the signal is pending for a task that does not block it and whose action is not to ignore it -/
def Acting (s : Sleepers) (pid : Nat) (signal : Signal) : Prop :=
  ∃ t, s.procs.find pid = some t ∧ signal ∈ s.procs.pending t ∧
    (signal ∉ t.blocked ∨ signal = SIGKILL ∨ signal = SIGSTOP) ∧ t.ignores signal = false

/-- a run in which the signal stays pending and the task neither blocks nor ignores it -/
inductive While (pid : Nat) (signal : Signal) : Sleepers → Sleepers → Prop
  | refl {s : Sleepers} : s.Acting pid signal → While pid signal s s
  | step {s s' : Sleepers} (move : Move) : While pid signal s s' → move.Enabled s' →
      (move.run s').Acting pid signal → While pid signal s (move.run s')

end Sleepers

/-! ## what a step can do to a task -/

variable {move : Move} {p : Nat}

section
variable {s : Sleepers} {pid : Nat} {signal : Signal}

lemma Sleepers.Acting.signalled (h : s.Acting pid signal) : s.signalled pid = true := by
  obtain ⟨t, ht, hpending, hblocked, hignore⟩ := h
  rw [Sleepers.signalled, ht, Option.any_some, hasPendingSignal, decide_eq_true_iff]
  exact ⟨signal, hpending, hblocked, hignore⟩

/-! ## a signal that stays pending -/

/-- the task does not sleep, and is not between the question and the sleep of a futex wait -/
structure Sleepers.Free (s : Sleepers) (pid : Nat) : Prop where
  awake : ¬ s.Asleep pid
  between : (s.place pid).between = false

section
variable (F : s.Free pid)
include F

namespace Sleepers

lemma Free.same {s' : Sleepers} (hplace : s'.place pid = s.place pid)
    (hfind : s'.procs.find pid = s.procs.find pid) : s'.Free pid := by
  refine ⟨?_, by rw [hplace, F.between]⟩
  rw [Asleep, hplace, hfind]
  exact F.awake

lemma Free.moveTo {place : Place}
    (h : p = pid → place.sleeps = false ∧ place.between = false) : (s.moveTo p place).Free pid := by
  by_cases hp : pid = p
  · obtain ⟨hsleeps, hbetween⟩ := h hp.symm
    have hplace : (s.moveTo p place).place pid = place := if_pos hp
    refine ⟨fun hasleep => ?_, by rw [hplace, hbetween]⟩
    rw [Asleep, hplace, hsleeps] at hasleep
    exact absurd hasleep.1 Bool.false_ne_true
  · exact F.same (if_neg hp) rfl

lemma Free.sleepAt {wakeAt : Nat} {place : Place} (h : p ≠ pid) :
    (s.sleepAt p wakeAt place).Free pid := by
  refine F.same (if_neg h.symm) ?_
  show (s.procs.change p _).find pid = _
  rw [find_change (Task.sleep_pid wakeAt), if_neg h.symm]

lemma Free.procs {procs : Procs}
    (h : ∀ t', procs.find pid = some t' → t'.state = .sleeping → (s.place pid).sleeps = true →
      ∃ t, s.procs.find pid = some t ∧ t.state = .sleeping) :
    Free { s with procs := procs } pid := by
  refine ⟨fun hasleep => F.awake ?_, F.between⟩
  obtain ⟨hsleeps, t', ht', hstate⟩ := hasleep
  exact ⟨hsleeps, h t' ht' hstate hsleeps⟩

lemma Free.gentle (A : s.Acting pid signal) {procs : Procs} (g : s.procs.Gentle procs) :
    Free { s with procs := procs } pid := by
  refine F.procs fun t' ht' hstate hsleeps => ?_
  obtain ⟨t, ht, -⟩ := A
  obtain ⟨u, hu, hg⟩ := g.task pid t ht
  rw [ht'] at hu
  cases hu
  rcases hg.state with hs | hrun
  · exact ⟨t, ht, hs ▸ hstate⟩
  · rw [hrun] at hstate
    cases hstate

end Sleepers
end

/-- **a step does not put a task to sleep while the signal is pending** -/
theorem Move.free (h : move.Enabled s) (A : s.Acting pid signal) (F : s.Free pid) :
    (move.run s).Free pid := by
  have hsignal := A.signalled
  cases move with
  | enter p place =>
    refine F.moveTo fun _ => ?_
    have hstart : starts place = true := h.2.1
    cases place <;> first | exact ⟨rfl, rfl⟩ | exact absurd hstart Bool.false_ne_true
  | doze p ticks =>
    rw [run, Sleepers.doze]
    split
    · exact F.moveTo fun _ => ⟨rfl, rfl⟩
    · next hno =>
      refine F.sleepAt ?_
      rintro rfl
      exact hno hsignal
  | ask p wait =>
    rw [run, Sleepers.ask]
    split
    · exact F.moveTo fun _ => ⟨rfl, rfl⟩
    · next hno =>
      have hne : p ≠ pid := by
        rintro rfl
        exact hno (by rw [hsignal, Bool.or_true, Bool.true_or])
      exact (F.sleepAt hne).same rfl rfl
  | resume p =>
    refine F.moveTo fun _ => ?_
    cases s.place p <;> exact ⟨rfl, rfl⟩
  | unlist p wait =>
    have moved : (s.moveTo p (.asking wait)).Free pid := F.moveTo fun _ => ⟨rfl, rfl⟩
    exact moved.same rfl rfl
  | register p key deadline =>
    have moved : (s.moveTo p (.reread key deadline)).Free pid := F.moveTo fun _ => ⟨rfl, rfl⟩
    exact moved.same rfl rfl
  | reread p key deadline same =>
    refine F.moveTo fun _ => ?_
    cases same <;> exact ⟨rfl, rfl⟩
  | look p key deadline =>
    refine F.moveTo ?_
    rintro rfl
    rw [if_pos hsignal]
    exact ⟨rfl, rfl⟩
  | park p key deadline =>
    have hne : p ≠ pid := by
      rintro rfl
      have := F.between
      rw [show s.place p = .park key deadline from h] at this
      cases this
    rw [run, Sleepers.parkFutex]
    split
    · exact F.moveTo fun hp => absurd hp hne
    · split
      · exact F.moveTo fun hp => absurd hp hne
      · exact F.sleepAt hne
  | leave p key deadline again =>
    have unlisted : (s.unregisterFutex p key).Free pid := F.same rfl rfl
    refine unlisted.moveTo fun _ => ?_
    cases again <;> exact ⟨rfl, rfl⟩
  | setReady p value => exact F.same rfl rfl
  | wakeAll => exact (F.gentle A (wakes_gentle s.procs s.waiters)).same rfl rfl
  | markFutexes key count => exact F.same rfl rfl
  | tick =>
    have ticked : Sleepers.Free { s with procs := s.tick.procs } pid := by
      refine F.procs fun t' ht' hstate _ => ?_
      rw [Sleepers.tick, find_update Task.deadlineReached_pid, Option.map_eq_some_iff] at ht'
      obtain ⟨t, ht, rfl⟩ := ht'
      split at hstate
      · cases hstate
      · exact ⟨t, ht, hstate⟩
    exact ticked.same rfl rfl
  | post task sent => exact F.gentle A (postSignal_gentle h sent)
  | postProcess member sent => exact F.gentle A (postProcessSignal_gentle h sent)
  | other procs =>
    refine F.procs fun t' ht' hstate hsleeps => ?_
    have hout : s.place pid ≠ .out := by
      intro hp
      rw [hp] at hsleeps
      cases hsleeps
    obtain ⟨t, ht, -⟩ := A
    obtain ⟨u, hu, ⟨hs, -⟩ | hrun⟩ := h pid t hout ht
    · rw [ht'] at hu
      cases hu
      exact ⟨t, ht, hs ▸ hstate⟩
    · exact absurd hstate (not_sleeping hu hrun ht')

lemma Move.For.awake (h : move.Enabled s) (hfor : move.For s pid signal) :
    ¬ (move.run s).Asleep pid := by
  rintro ⟨-, t, ht, hstate⟩
  cases move with
  | post task sent =>
    obtain ⟨rfl, rfl⟩ := hfor
    exact postSignal_awake h ht hstate
  | postProcess member sent =>
    obtain ⟨rfl, hfor⟩ := hfor
    exact postProcessSignal_awake hfor ht hstate
  | _ => exact hfor

lemma Move.For.place (hfor : move.For s pid signal) : (move.run s).place = s.place := by
  cases move with
  | post task sent => rfl
  | postProcess member sent => rfl
  | _ => exact hfor.elim

end

/-- **signals end sleeps**: after a post that did not come between the question and the sleep of a
futex wait, the thread does not sleep while the signal is pending and neither blocked nor ignored -/
theorem signals_end_sleeps {s s' : Sleepers} {pid : Nat} {signal : Signal} {move : Move}
    (h : move.Enabled s) (hfor : move.For s pid signal)
    (hwindow : (s.place pid).between = false) (W : Sleepers.While pid signal (move.run s) s') :
    ¬ s'.Asleep pid := by
  have hrun : s'.Acting pid signal ∧ s'.Free pid := by
    induction W with
    | refl A => exact ⟨A, hfor.awake h, by rw [hfor.place, hwindow]⟩
    | step next _ hnext A ih => exact ⟨A, next.free hnext ih.1 ih.2⟩
  exact hrun.2.awake

def oneSleeper : Sleepers :=
  ⟨⟨[plainTask 5], fun _ => ⟨∅, none⟩⟩, [], [], fun _ => .out, fun _ => false, 0⟩

def dozingSleeper : Sleepers := (doze 5 8).run ((enter 5 (.toDoze 8)).run oneSleeper)

lemma dozingSleeper_reached : dozingSleeper.Reached :=
  .step (.doze 5 8) (.step (.enter 5 (.toDoze 8)) (.start _ _ _) ⟨rfl, rfl, rfl⟩) rfl

/-- a kill wakes a task in `sleep_ticks` -/
theorem signals_end_sleeps_dozingSleeper : dozingSleeper.Reached ∧ dozingSleeper.Asleep 5 ∧
    ¬ ((post ((plainTask 5).sleep 8) SIGKILL).run dozingSleeper).Asleep 5 := by
  let post : Move := .post ((plainTask 5).sleep 8) SIGKILL
  have henabled : post.Enabled dozingSleeper := rfl
  have hfor : post.For dozingSleeper 5 SIGKILL := ⟨rfl, rfl⟩
  refine ⟨dozingSleeper_reached, ⟨rfl, (plainTask 5).sleep 8, rfl, rfl⟩, ?_⟩
  refine signals_end_sleeps henabled hfor rfl (.refl ?_)
  exact ⟨_, rfl, by decide, .inr (.inl rfl), rfl⟩

/-- the task in `FUTEX_WAIT`, past the question whether a signal waits -/
def askedSleeper (key : Key) : Sleepers :=
  (look 5 key U64_MAX).run ((reread 5 key U64_MAX true).run
    ((register 5 key U64_MAX).run ((enter 5 (.register key U64_MAX)).run oneSleeper)))

/-- **a futex wait sleeps through a kill** posted between its question and its sleep, with no deadline
to wake it -/
theorem futex_sleeps_through : ∃ (s s' : Sleepers) (move : Move), s.Reached ∧ move.Enabled s ∧
    move.For s 5 SIGKILL ∧ Sleepers.While 5 SIGKILL (move.run s) s' ∧ s'.Asleep 5 := by
  let key : Key := ⟨1, 64⟩
  let post : Move := .post (plainTask 5) SIGKILL
  have R : (askedSleeper key).Reached := by
    refine .step (.look 5 key U64_MAX) (.step (.reread 5 key U64_MAX true)
      (.step (.register 5 key U64_MAX) (.step (.enter 5 (.register key U64_MAX)) (.start _ _ _)
        ⟨rfl, rfl, rfl⟩) rfl) rfl) rfl
  refine ⟨askedSleeper key, (park 5 key U64_MAX).run (post.run (askedSleeper key)), post, R, rfl,
    ⟨rfl, rfl⟩, .step (.park 5 key U64_MAX) (.refl ?_) ?_ ?_, ?_⟩
  · exact ⟨_, rfl, by decide, .inr (.inl rfl), rfl⟩
  · rfl
  · exact ⟨_, rfl, by decide, .inr (.inl rfl), rfl⟩
  · exact ⟨rfl, _, rfl, rfl⟩

end ClaudeOs.Sched
