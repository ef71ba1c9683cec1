import Mathlib.Data.Finset.Basic
import Mathlib.Algebra.Order.Ring.Int

/-!
# The process table

The tasks of `sched` and `task` as far as their states and their signals go: what puts a task to
sleep, wakes it, stops it and restarts it, and what posting a signal does.  Each function here is one
step of the kernel, made with the table held or with interrupts off, so nothing comes between its
parts; the table's order is the order the kernel looks in.

* `Task`, `Procs`  a task, and the table with what the threads of a group share;
* `hasPendingSignal`  whether a signal waits that would do something.
-/

namespace ClaudeOs.Sched

inductive State where
  | runnable
  | sleeping
  | stopped
  | zombie
deriving DecidableEq, Repr

structure Signal where
  number : Nat
  valid : 1 ≤ number ∧ number < 64
deriving DecidableEq

def SIGKILL : Signal := ⟨9, by decide⟩
def SIGCHLD : Signal := ⟨17, by decide⟩
def SIGCONT : Signal := ⟨18, by decide⟩
def SIGSTOP : Signal := ⟨19, by decide⟩
def SIGTSTP : Signal := ⟨20, by decide⟩
def SIGTTIN : Signal := ⟨21, by decide⟩
def SIGTTOU : Signal := ⟨22, by decide⟩
def SIGURG : Signal := ⟨23, by decide⟩
def SIGWINCH : Signal := ⟨28, by decide⟩
def STOPS : Finset Signal := {SIGSTOP, SIGTSTP, SIGTTIN, SIGTTOU}
def Signal.stops (signal : Signal) : Bool := signal ∈ STOPS

def defaultIsIgnore (signal : Signal) : Bool :=
  signal = SIGCHLD || signal = SIGCONT || signal = SIGURG || signal = SIGWINCH

inductive Handler where
  | default
  | ignore
  | program (address : Nat)
deriving DecidableEq, Repr

structure SigAction where
  handler : Handler
  noCldWait : Bool
deriving DecidableEq, Repr

structure Task where
  pid : Nat
  tgid : Nat
  ppid : Nat
  state : State
  /-- the tick to wake at, or zero for no deadline -/
  wakeAt : Nat
  own : Finset Signal
  blocked : Finset Signal
  actions : Signal → SigAction
  stopSignal : Option Signal
  reportStop : Bool
  reportContinue : Bool
  /-- what `wait4` was asked for, while the task is in it -/
  waitingFor : Option Int
  exitCode : Int
  vforkParent : Option Nat
  releasedAtExit : Bool

/-- what the threads of a group share: the signals sent to the process, and the status its end was
given first -/
structure Group where
  pending : Finset Signal
  exit : Option Int

structure Procs where
  tasks : List Task
  group : Nat → Group

namespace Task
variable (t : Task) (signal : Signal)

/-- park the task until a tick, or until something wakes it -/
def sleep (wakeAt : Nat) : Task := { t with state := .sleeping, wakeAt := wakeAt }

def wake : Task :=
  if t.state = .sleeping then { t with state := .runnable, wakeAt := 0 } else t

def restartForKill : Task :=
  if t.state = .stopped then { t with state := .runnable, wakeAt := 0 } else t

def deadlineReached : Task := { t with wakeAt := 0, state := .runnable }
def addPending : Task := { t with own := insert signal t.own }
def dropPending (signals : Finset Signal) : Task := { t with own := t.own \ signals }

def markStopped : Task :=
  { t with stopSignal := some signal, reportStop := true, state := .stopped }

def markContinued : Task :=
  { t with state := .runnable, wakeAt := 0, reportStop := false, reportContinue := true }

def canTake : Bool :=
  (t.state = .runnable || t.state = .sleeping) &&
    (signal = SIGKILL || signal = SIGSTOP || signal ∉ t.blocked)

def ignores : Bool :=
  (t.actions signal).handler = .ignore ||
    (t.actions signal).handler = .default && defaultIsIgnore signal

end Task

def plainTask (pid : Nat) : Task where
  pid := pid
  tgid := pid
  ppid := 1
  state := .runnable
  wakeAt := 0
  own := ∅
  blocked := ∅
  actions _ := ⟨.default, false⟩
  stopSignal := none
  reportStop := false
  reportContinue := false
  waitingFor := none
  exitCode := 0
  vforkParent := none
  releasedAtExit := false

namespace Procs
variable (s : Procs) (member : Task) (signal : Signal)

def find (pid : Nat) : Option Task := s.tasks.find? (·.pid == pid)

def update (pick : Task → Bool) (f : Task → Task) : Procs :=
  { s with tasks := s.tasks.map fun t => if pick t then f t else t }

def change (pid : Nat) (f : Task → Task) : Procs := s.update (·.pid == pid) f

def setGroup (tgid : Nat) (g : Group) : Procs :=
  { s with group := fun n => if n = tgid then g else s.group n }

def forEach (f : Procs → Nat → Procs) : Procs := (s.tasks.map Task.pid).foldl f s

def onThreads (tgid : Nat) (f : Procs → Task → Procs) : Procs :=
  s.forEach fun s pid =>
    match s.find pid with
    | some t => if t.tgid = tgid then f s t else s
    | none => s

def wake (pid : Nat) : Procs := s.change pid Task.wake

/-- the signals a task could take: its own and its group's -/
def pending (t : Task) : Finset Signal := t.own ∪ (s.group t.tgid).pending

def addSharedPending (tgid : Nat) (signal : Signal) : Procs :=
  s.setGroup tgid { s.group tgid with pending := insert signal (s.group tgid).pending }

def dropPending (t : Task) (signals : Finset Signal) : Procs :=
  (s.change t.pid (·.dropPending signals)).setGroup t.tgid
    { s.group t.tgid with pending := (s.group t.tgid).pending \ signals }

/-! ## signals -/

/-- the thread chosen to take a signal sent to a process: `member` when it can, otherwise the first
that can -/
def taker : Option Nat :=
  if member.canTake signal then some member.pid
  else (s.tasks.find? fun t => t.tgid == member.tgid && t.canTake signal).map Task.pid

def sendToProcess : Procs :=
  let s := s.addSharedPending member.tgid signal
  match s.taker member signal with
  | some pid => s.wake pid
  | none => s

def wakeWaiters (tgid : Nat) : Procs :=
  s.update (fun t => t.tgid == tgid && t.waitingFor.isSome) Task.wake

/-- the process told that a child changed state -/
def notifyParent (ppid : Nat) : Procs :=
  match s.find ppid with
  | some parent => (s.sendToProcess parent SIGCHLD).wakeWaiters parent.tgid
  | none => s

/-- the task off the run queue and its parent told, in one step -/
def stop (t : Task) (signal : Signal) : Procs :=
  (s.change t.pid (·.markStopped signal)).notifyParent t.ppid

def continueAfterStop (t : Task) : Procs :=
  if t.state = .stopped then (s.change t.pid Task.markContinued).notifyParent t.ppid else s

def endThreadGroup (status : Int) : Procs × Int :=
  let status := (s.group member.tgid).exit.getD status
  let s := s.setGroup member.tgid { s.group member.tgid with exit := some status }
  (s.update (fun t => t.tgid == member.tgid && t.state ≠ .zombie)
    (fun t => (t.restartForKill.addPending SIGKILL).wake), status)

def prepareSignal : Procs × Bool :=
  if signal = SIGKILL then ((s.endThreadGroup member SIGKILL.number).1, false)
  else if signal = SIGCONT then
    (s.onThreads member.tgid fun s t => (s.dropPending t STOPS).continueAfterStop t, true)
  else if !signal.stops then (s, true)
  else
    let s := s.onThreads member.tgid fun s t => s.dropPending t {SIGCONT}
    if signal ≠ SIGSTOP ∧ (member.actions signal).handler ≠ .default then (s, true)
    else
      (s.update (fun t => t.tgid == member.tgid && t.state ≠ .zombie)
        (fun t => (t.addPending signal).wake), false)

def postSignal (task : Task) (signal : Signal) : Procs :=
  match s.prepareSignal task signal with
  | (s, true) => (s.change task.pid (·.addPending signal)).wake task.pid
  | (s, false) => s

def postProcessSignal : Procs :=
  match s.prepareSignal member signal with
  | (s, true) =>
    match s.find member.pid with
    | some member => s.sendToProcess member signal
    | none => s
  | (s, false) => s

def hasPendingSignal (t : Task) : Bool :=
  decide (∃ signal ∈ s.pending t,
    (signal ∉ t.blocked ∨ signal = SIGKILL ∨ signal = SIGSTOP) ∧ t.ignores signal = false)

end Procs

/-! ## finding tasks -/

section
variable {s : Procs} {pid : Nat} {t : Task}

lemma Procs.find_update {pick : Task → Bool} {f : Task → Task} (hf : ∀ t, (f t).pid = t.pid) :
    (s.update pick f).find pid = (s.find pid).map fun t => if pick t then f t else t := by
  rw [find, update, find, List.find?_map]
  congr 1
  have hsame : ((fun t : Task => t.pid == pid) ∘ fun t => if pick t then f t else t) =
      fun t => t.pid == pid := by
    funext t
    simp only [Function.comp_apply]
    split
    · rw [hf]
    · rfl
  rw [hsame]

lemma Procs.pid_of_find (h : s.find pid = some t) : t.pid = pid := by simpa using List.find?_some h

lemma Procs.find_change {f : Task → Task} (hf : ∀ t, (f t).pid = t.pid) (other : Nat) :
    (s.change pid f).find other = if other = pid then (s.find other).map f else s.find other := by
  rw [change, find_update hf]
  cases hfind : s.find other with
  | none => simp
  | some t =>
    have := pid_of_find hfind
    subst this
    simp only [Option.map_some, beq_iff_eq]
    split <;> rfl

lemma Procs.not_sleeping {u : Task} (hu : s.find pid = some u) (hrun : u.state = .runnable)
    (ht : s.find pid = some t) : t.state ≠ .sleeping := by
  rw [hu] at ht
  cases ht
  rw [hrun]
  exact State.noConfusion

namespace Task

lemma sleep_pid (wakeAt : Nat) (t : Task) : (t.sleep wakeAt).pid = t.pid := rfl
lemma deadlineReached_pid (t : Task) : t.deadlineReached.pid = t.pid := rfl
lemma wake_pid (t : Task) : t.wake.pid = t.pid := by
  rw [wake]
  split <;> rfl

lemma wake_state (t : Task) (h : t.state = .runnable ∨ t.state = .sleeping) :
    t.wake.state = .runnable := by
  rw [wake]
  split
  · rfl
  · exact h.resolve_right ‹_›

end Task

lemma Procs.find_wake (s : Procs) (pid other : Nat) : (s.wake pid).find other =
      if other = pid then (s.find other).map Task.wake else s.find other :=
  find_change Task.wake_pid other

end
end ClaudeOs.Sched
