import ClaudeOs.Sched.Post

/-!
# Stops and kills

`check_signals` takes a stop out of the pending sets and stops the task later, in a section of its
own; `stop_if_requested` and `stop_for_signal` do the same from inside a system call.  A kill restarts
the stopped threads of its group when it is posted.  The section that stops looks for a continue that
came in between, and not for a kill.

* `Place`, `Kernel.advance`  where a task is in these functions, and what it does next there;
* `Kernel.Reached`  the states of runs with posts and the rest of the kernel in between;
* `Killable`  no stopped task has a kill pending: kept by every post;
* `stopped_without_kill`  it holds in runs that stop no task with a kill pending;
* `stopped_with_kill`  and not in every run.
-/

namespace ClaudeOs.Sched
open Procs

def Signal.all : List Signal :=
  (List.finRange 63).map fun n => ⟨n.val + 1, by have := n.isLt; omega⟩

def SIGSEGV : Signal := ⟨11, by decide⟩

def Task.resetAction (t : Task) (signal : Signal) : Task :=
  { t with actions := fun s => if s = signal then ⟨.default, false⟩ else t.actions s }

def Procs.dropShared (s : Procs) (tgid : Nat) (signals : Finset Signal) : Procs :=
  s.setGroup tgid { s.group tgid with pending := (s.group tgid).pending \ signals }

namespace JobControl

/-- where a task is: outside these functions, or at a point of `check_signals`, `exit_group`,
`stop_if_requested`, `stop_for_signal` or `stop_current` -/
inductive Place where
  | out
  | begin
  | scan (rest : List Signal)
  | takeOwn (signal : Signal) (rest : List Signal)
  | takeShared (signal : Signal) (rest : List Signal)
  | taken (signal : Signal) (rest : List Signal)
  | ending (status : Int)
  | leaving
  | asking (rest : List Signal)
  | dropOwn (signal : Signal)
  | dropShared (signal : Signal)
  | stopping (signal : Signal) (scans : Bool)
  | halted (scans : Bool)
  | settling
deriving DecidableEq

def Place.starts : Place → Bool
  | .begin | .dropOwn _ => true
  | .asking rest => rest = [SIGSTOP, SIGTSTP, SIGTTIN, SIGTTOU]
  | _ => false

/-- where a task goes on after `stop_current` -/
def Place.afterStop (scans : Bool) : Place := if scans then .begin else .settling

structure Reading where
  fault : Option Signal
  fromUser : Bool
  resets : Bool
  delivered : Bool

structure Kernel where
  procs : Procs
  place : Nat → Place

namespace Kernel
variable (k : Kernel) (t : Task)

def moveTo (pid : Nat) (place : Place) : Kernel :=
  { k with place := fun p => if p = pid then place else k.place p }

def put (procs : Procs) (pid : Nat) (place : Place) : Kernel :=
  { procs := procs, place := fun p => if p = pid then place else k.place p }

def act (reading : Reading) (signal : Signal) (rest : List Signal) : Kernel :=
  if signal = SIGKILL then k.moveTo t.pid (.ending signal.number)
  else if signal = SIGSTOP ∨ signal.stops = true ∧ (t.actions signal).handler = .default then
    if reading.fromUser then k.moveTo t.pid (.stopping signal true)
    else k.put (k.procs.change t.pid (·.addPending signal)) t.pid .out
  else
    match (t.actions signal).handler with
    | .ignore => k.moveTo t.pid (.scan rest)
    | .default =>
      if defaultIsIgnore signal then k.moveTo t.pid (.scan rest)
      else k.moveTo t.pid (.ending signal.number)
    | .program _ =>
      if !reading.fromUser then k.put (k.procs.change t.pid (·.addPending signal)) t.pid .out
      else
        let procs := if reading.resets then k.procs.change t.pid (·.resetAction signal) else k.procs
        k.put procs t.pid (if reading.delivered then .out else .ending SIGSEGV.number)

def stopCurrent (signal : Signal) (scans : Bool) : Kernel :=
  if SIGCONT ∈ k.procs.pending t then k.moveTo t.pid (.afterStop scans)
  else k.put (k.procs.stop t signal) t.pid (.halted scans)

def advance (reading : Reading) : Place → Kernel
  | .out => k
  | .begin =>
    k.moveTo t.pid
      (if k.procs.pending t = ∅ then .out else .scan (reading.fault.toList ++ Signal.all))
  | .scan [] => k.moveTo t.pid .out
  | .scan (signal :: rest) =>
    if signal ∈ k.procs.pending t ∧ (signal ∉ t.blocked ∨ signal = SIGKILL ∨ signal = SIGSTOP) then
      k.moveTo t.pid (.takeOwn signal rest)
    else k.moveTo t.pid (.scan rest)
  | .takeOwn signal rest =>
    k.put (k.procs.change t.pid (·.dropPending {signal})) t.pid
      (if signal ∈ t.own then .taken signal rest else .takeShared signal rest)
  | .takeShared signal rest =>
    k.put (k.procs.dropShared t.tgid {signal}) t.pid
      (if signal ∈ (k.procs.group t.tgid).pending then .taken signal rest else .scan rest)
  | .taken signal rest => k.act t reading signal rest
  | .ending status => k.put (k.procs.endThreadGroup t status).1 t.pid .leaving
  | .leaving => k
  | .asking [] => k.moveTo t.pid .out
  | .asking (signal :: rest) =>
    if signal ∈ k.procs.pending t ∧ (signal = SIGSTOP ∨ (t.actions signal).handler = .default) then
      k.moveTo t.pid (.dropOwn signal)
    else k.moveTo t.pid (.asking rest)
  | .dropOwn signal =>
    k.put (k.procs.change t.pid (·.dropPending {signal})) t.pid (.dropShared signal)
  | .dropShared signal =>
    k.put (k.procs.dropShared t.tgid {signal}) t.pid (.stopping signal false)
  | .stopping signal scans => k.stopCurrent t signal scans
  | .halted scans => k.moveTo t.pid (.afterStop scans)
  | .settling =>
    if (t.actions SIGCONT).handler = .default then
      k.put (k.procs.dropPending t {SIGCONT}) t.pid .out
    else k.moveTo t.pid .out

end Kernel

inductive Move where
  | enter (pid : Nat) (place : Place)
  | step (pid : Nat) (reading : Reading)
  | post (task : Task) (signal : Signal)
  | postProcess (member : Task) (signal : Signal)
  | other (procs : Procs)

namespace Move

def run (k : Kernel) : Move → Kernel
  | enter pid place => k.moveTo pid place
  | step pid reading =>
    match k.procs.find pid with
    | some t => k.advance t reading (k.place pid)
    | none => k
  | post task signal => { k with procs := k.procs.postSignal task signal }
  | postProcess member signal => { k with procs := k.procs.postProcessSignal member signal }
  | other procs => { k with procs := procs }

/-- a task moves when it has the processor, and the rest of the kernel stops nobody and kills nobody
-/
def Enabled (k : Kernel) : Move → Prop
  | enter pid place => k.place pid = .out ∧ place.starts = true ∧
      ∃ t, k.procs.find pid = some t ∧ t.state = .runnable
  | step pid _ => ∃ t, k.procs.find pid = some t ∧ t.state = .runnable
  | post task _ => k.procs.find task.pid = some task
  | postProcess member _ => k.procs.find member.pid = some member
  | other procs =>
    (∀ pid t', procs.find pid = some t' → t'.state = .stopped → ∃ t, k.procs.find pid = some t ∧
      t.state = .stopped ∧ (SIGKILL ∈ t'.own → SIGKILL ∈ t.own)) ∧
    ∀ tgid, SIGKILL ∈ (procs.group tgid).pending → SIGKILL ∈ (k.procs.group tgid).pending

def Careful (k : Kernel) : Move → Prop
  | step pid _ => ∀ t signal scans, k.procs.find pid = some t → k.place pid = .stopping signal scans →
      SIGKILL ∉ k.procs.pending t
  | _ => True

end Move

/-- the states of runs whose moves are `allowed`, from a table with nobody stopped -/
inductive Kernel.Reached (allowed : Kernel → Move → Prop) : Kernel → Prop
  | start (procs : Procs) : (∀ pid t, procs.find pid = some t → t.state ≠ .stopped) →
      (∀ tgid, (procs.group tgid).pending = ∅) → Kernel.Reached allowed ⟨procs, fun _ => .out⟩
  | step {k : Kernel} (move : Move) : Kernel.Reached allowed k → move.Enabled k → allowed k move →
      Kernel.Reached allowed (move.run k)

end JobControl

/-! ## what posts do to stopped tasks -/

/-- no stopped task has a kill pending, of its own or its group's; a kill is never sent to a group -/
structure Procs.Killable (s : Procs) : Prop where
  own : ∀ pid t, s.find pid = some t → t.state = .stopped → SIGKILL ∉ t.own
  shared : ∀ tgid, SIGKILL ∉ (s.group tgid).pending

variable (tgid pid : Nat) (signals : Finset Signal)

variable {signal : Signal} {t : Task}

namespace Procs.Killable
variable {s : Procs}

lemma pending (K : s.Killable) {pid : Nat} (ht : s.find pid = some t)
    (hstopped : t.state = .stopped) : SIGKILL ∉ s.pending t := by
  rw [Procs.pending, Finset.mem_union, not_or]
  exact ⟨K.own pid t ht hstopped, K.shared t.tgid⟩

structure Keeps (t t' : Task) : Prop where
  tgid : t'.tgid = t.tgid
  stopped : t'.state = .stopped → t.state = .stopped ∧ (SIGKILL ∈ t'.own → SIGKILL ∈ t.own)

def Spared (_ : Nat) (g g' : Group) : Prop := SIGKILL ∈ g'.pending → SIGKILL ∈ g.pending

lemma Keeps.wake (t : Task) : Keeps t t.wake := by
  rw [Task.wake]
  split
  · exact ⟨rfl, State.noConfusion⟩
  · exact ⟨rfl, fun hstopped => ⟨hstopped, id⟩⟩

lemma keeps_lawful : Lawful Keeps Spared where
  refl t := ⟨rfl, fun hstopped => ⟨hstopped, id⟩⟩
  trans h h' := by
    refine ⟨h'.tgid.trans h.tgid, fun hstopped => ?_⟩
    obtain ⟨hmid, hkill'⟩ := h'.stopped hstopped
    obtain ⟨hs, hkill⟩ := h.stopped hmid
    exact ⟨hs, fun hk => hkill (hkill' hk)⟩
  tgid h := h.tgid
  wake := .wake
  continued t := ⟨rfl, State.noConfusion⟩
  killed t := by
    have hrestart : t.restartForKill.state ≠ .stopped := by
      rw [Task.restartForKill]
      split
      · exact State.noConfusion
      · assumption
    have hgentle := (Task.Gentle.restartForKill t).trans (.addPending _ SIGKILL)
    refine ⟨(hgentle.trans (.wake _)).tgid, fun hstopped => ?_⟩
    exact absurd ((Keeps.wake _).stopped hstopped).1 hrestart
  groupRefl _ _ := id
  groupTrans h h' hkill := h (h' hkill)
  child _ _ hkill := (Finset.mem_insert.mp hkill).resolve_left (by decide)
  ended _ _ _ := id

lemma keeps_drops : Drops Keeps Spared tgid signals where
  own _ _ := ⟨rfl, fun hstopped => ⟨hstopped, fun hkill => (Finset.mem_sdiff.mp hkill).1⟩⟩
  shared _ hkill := (Finset.mem_sdiff.mp hkill).1

lemma Keeps.addPending (t : Task) (h : signal ≠ SIGKILL) : Keeps t (t.addPending signal) :=
  ⟨rfl, fun hstopped => ⟨hstopped, fun hkill =>
    (Finset.mem_insert.mp hkill).resolve_left fun e => h e.symm⟩⟩

lemma keeps_sends (signal : Signal) : Sends Keeps Spared tgid signal where
  continues _ := keeps_drops tgid STOPS
  stops _ := keeps_drops tgid {SIGCONT}
  own h t _ := .addPending t h
  shared h _ hkill := (Finset.mem_insert.mp hkill).resolve_left fun e => h e.symm

section
variable (K : s.Killable)
include K

lemma turns {s' : Procs} (h : s.Turns Keeps Spared s') : s'.Killable := by
  refine ⟨fun pid t' ht' hstopped hkill => ?_, fun tgid hkill => K.shared tgid (h.group tgid hkill)⟩
  obtain ⟨t, ht, hkeeps⟩ := h.came ht'
  obtain ⟨hs, hk⟩ := hkeeps.stopped hstopped
  exact K.own pid t ht hs (hk hkill)

lemma change {f : Task → Task} (hpid : ∀ t, (f t).pid = t.pid) (hf : ∀ t, Keeps t (f t)) :
    (s.change pid f).Killable :=
  K.turns (.change keeps_lawful s hpid fun t _ => hf t)

lemma addPending (h : signal ≠ SIGKILL) : (s.change pid (·.addPending signal)).Killable :=
  K.change pid (fun _ => rfl) fun t => .addPending t h

lemma dropOwn : (s.change pid (·.dropPending signals)).Killable :=
  K.change pid (fun _ => rfl) fun t => (keeps_drops t.tgid signals).own t rfl

lemma dropShared : (s.dropShared tgid signals).Killable :=
  K.turns (.setGroup keeps_lawful s ((keeps_drops tgid signals).shared _))

lemma stop (ht : s.find t.pid = some t) (signal : Signal) (hkill : SIGKILL ∉ s.pending t) :
    (s.stop t signal).Killable := by
  have hown : SIGKILL ∉ t.own := fun h => hkill (Finset.mem_union_left _ h)
  have hmarked : (s.change t.pid (·.markStopped signal)).Killable := by
    refine ⟨fun pid u hu hstopped => ?_, K.shared⟩
    rw [find_change (f := (·.markStopped signal)) fun _ => rfl] at hu
    by_cases hpid : pid = t.pid
    · rw [if_pos hpid, hpid, ht] at hu
      cases hu
      exact hown
    · rw [if_neg hpid] at hu
      exact K.own pid u hu hstopped
  exact hmarked.turns (.notifyParent keeps_lawful _ _)

end
end Procs.Killable

namespace JobControl

/-! ## runs -/

section
variable {k : Kernel} {t : Task}

namespace Kernel

lemma act_killable (K : k.procs.Killable) (reading : Reading) (signal : Signal)
    (rest : List Signal) : (k.act t reading signal rest).procs.Killable := by
  rw [act]
  split
  · exact K
  · next hkill =>
    split
    · split
      · exact K
      · exact K.addPending t.pid hkill
    · split
      · exact K
      · split <;> exact K
      · split
        · exact K.addPending t.pid hkill
        · split
          · exact K.change t.pid (fun _ => rfl) fun _ => ⟨rfl, fun hstopped => ⟨hstopped, id⟩⟩
          · exact K

/-- a task's own steps keep stopped tasks free of kills -/
lemma advance_killable (K : k.procs.Killable) (ht : k.procs.find t.pid = some t)
    (reading : Reading) (place : Place)
    (hcareful : ∀ signal scans, place = .stopping signal scans → SIGKILL ∉ k.procs.pending t) :
    (k.advance t reading place).procs.Killable := by
  cases place with
  | out => exact K
  | begin => exact K
  | scan rest =>
    cases rest with
    | nil => exact K
    | cons signal rest =>
      rw [advance]
      split <;> exact K
  | takeOwn signal rest => exact K.dropOwn t.pid {signal}
  | takeShared signal rest => exact K.dropShared t.tgid {signal}
  | taken signal rest => exact k.act_killable K reading signal rest
  | ending status => exact K.turns (.endThreadGroup Procs.Killable.keeps_lawful _ t status)
  | leaving => exact K
  | asking rest =>
    cases rest with
    | nil => exact K
    | cons signal rest =>
      rw [advance]
      split <;> exact K
  | dropOwn signal => exact K.dropOwn t.pid {signal}
  | dropShared signal => exact K.dropShared t.tgid {signal}
  | stopping signal scans =>
    rw [advance, stopCurrent]
    split
    · exact K
    · exact K.stop ht signal (hcareful signal scans rfl)
  | halted scans => exact K
  | settling =>
    rw [advance]
    split
    · exact K.turns (.dropPending Procs.Killable.keeps_lawful _ ht (Procs.Killable.keeps_drops ..))
    · exact K

end Kernel

lemma Move.run_step {pid : Nat} (ht : k.procs.find pid = some t) (reading : Reading) :
    (Move.step pid reading).run k = k.advance t reading (k.place pid) := by rw [Move.run, ht]

lemma Move.killable (K : k.procs.Killable) {move : Move} (h : move.Enabled k)
    (hcareful : move.Careful k) : (move.run k).procs.Killable := by
  cases move with
  | enter pid place => exact K
  | step pid reading =>
    obtain ⟨t, ht, -⟩ := h
    have hpid := pid_of_find ht
    rw [Move.run_step ht]
    refine Kernel.advance_killable K (by rw [hpid, ht]) reading _ fun signal scans hplace => ?_
    exact hcareful t signal scans ht hplace
  | post task signal =>
    exact K.turns (.postSignal Procs.Killable.keeps_lawful _ (Procs.Killable.keeps_sends ..) h)
  | postProcess member signal =>
    exact K.turns (.postProcessSignal Procs.Killable.keeps_lawful _ (Procs.Killable.keeps_sends ..) h)
  | other procs =>
    refine ⟨fun pid t' ht' hstopped hkill => ?_, fun tgid hkill => K.shared tgid (h.2 tgid hkill)⟩
    obtain ⟨t, ht, hs, hk⟩ := h.1 pid t' ht' hstopped
    exact K.own pid t ht hs (hk hkill)

end

lemma Kernel.Reached.killable {k : Kernel} (R : k.Reached fun k move => move.Careful k) :
    k.procs.Killable := by
  induction R with
  | start procs hstopped hshared =>
    refine ⟨fun pid t ht hs => absurd hs (hstopped pid t ht), fun tgid => ?_⟩
    show SIGKILL ∉ (procs.group tgid).pending
    rw [hshared tgid]
    exact Finset.notMem_empty _
  | step move _ h hcareful K => exact move.killable K h hcareful

/-- **no task is stopped with a kill pending** for it or for its process, in every run that enters the
section of `stop_current` only without one -/
theorem stopped_without_kill {k : Kernel} (R : k.Reached fun k move => move.Careful k) {pid : Nat}
    {t : Task} (ht : k.procs.find pid = some t) (hstopped : t.state = .stopped) :
    SIGKILL ∉ k.procs.pending t :=
  R.killable.pending ht hstopped

/-! ## a stop and a kill -/

section
variable {allowed : Kernel → Move → Prop} {k : Kernel} {pid : Nat} {t : Task}

namespace Kernel

lemma moveTo_moveTo (k : Kernel) (pid : Nat) (place place' : Place) :
    (k.moveTo pid place).moveTo pid place' = k.moveTo pid place' := by
  simp only [moveTo, mk.injEq, true_and]
  funext p
  split <;> rfl

lemma advance_scan (h : signal ∉ k.procs.pending t) (reading : Reading) (rest : List Signal) :
    k.advance t reading (.scan (signal :: rest)) = k.moveTo t.pid (.scan rest) :=
  if_neg fun hpending => h hpending.1

lemma Reached.skip (hallowed : ∀ k pid reading signals,
      k.place pid = .scan signals → allowed k (.step pid reading))
    (ht : k.procs.find pid = some t) (hrun : t.state = .runnable) (signals rest : List Signal)
    (hnone : ∀ signal ∈ signals, signal ∉ k.procs.pending t)
    (R : (k.moveTo pid (.scan (signals ++ rest))).Reached allowed) :
    (k.moveTo pid (.scan rest)).Reached allowed := by
  induction signals with
  | nil => exact R
  | cons signal signals ih =>
    refine ih (fun s hs => hnone s (List.mem_cons_of_mem _ hs)) ?_
    have hpid := pid_of_find ht
    have hplace : (k.moveTo pid (.scan (signal :: signals ++ rest))).place pid =
        .scan (signal :: signals ++ rest) := if_pos rfl
    have hstep := Reached.step (.step pid ⟨none, true, false, true⟩) R ⟨t, ht, hrun⟩
      (hallowed _ _ _ _ hplace)
    have hnot : signal ∉ k.procs.pending t := hnone signal (List.mem_cons_self ..)
    rw [Move.run_step (k := k.moveTo pid _) ht, hplace, List.cons_append,
      advance_scan (k := k.moveTo pid _) hnot, hpid, moveTo_moveTo] at hstep
    exact hstep

lemma Reached.mono {allowed' : Kernel → Move → Prop} (h : ∀ k move, allowed k move →
    allowed' k move) (R : k.Reached allowed) : k.Reached allowed' := by
  induction R with
  | start procs hstopped hshared => exact .start procs hstopped hshared
  | step move _ henabled hallowed ih => exact .step move ih henabled (h _ _ hallowed)

end Kernel
end

def Reading.user : Reading := ⟨none, true, false, true⟩

def stopPosted : Kernel :=
  (Move.post (plainTask 5) SIGSTOP).run ⟨⟨[plainTask 5], fun _ => ⟨∅, none⟩⟩, fun _ => .out⟩

def stopNext : Kernel := stopPosted.moveTo 5 (.scan (SIGSTOP :: Signal.all.drop 19))

/-- the stop taken out of the pending sets, and the section of `stop_current` next -/
def stopTaken : Kernel :=
  (Move.step 5 .user).run ((Move.step 5 .user).run ((Move.step 5 .user).run stopNext))

lemma stopNext_reached : stopNext.Reached fun k move => move.Careful k := by
  have hposted : stopPosted.Reached fun k move => move.Careful k := by
    refine .step (.post (plainTask 5) SIGSTOP) (.start _ (fun pid t ht => ?_) fun _ => rfl) rfl trivial
    have : t = plainTask 5 := List.mem_singleton.mp (List.mem_of_find?_eq_some ht)
    rw [this]
    exact State.noConfusion
  have hbegun : (stopPosted.moveTo 5 .begin).Reached fun k move => move.Careful k :=
    .step (.enter 5 .begin) hposted ⟨rfl, rfl, _, rfl, rfl⟩ trivial
  have hscan := Kernel.Reached.step (.step 5 .user) hbegun ⟨_, rfl, rfl⟩
    fun t signal scans _ hplace => Place.noConfusion hplace
  have hsplit : Signal.all = Signal.all.take 18 ++ SIGSTOP :: Signal.all.drop 19 := by decide
  have hall : (Move.step 5 .user).run (stopPosted.moveTo 5 .begin) =
      stopPosted.moveTo 5 (.scan (Signal.all.take 18 ++ SIGSTOP :: Signal.all.drop 19)) := by
    rw [← hsplit]
    exact Kernel.moveTo_moveTo stopPosted 5 .begin (.scan Signal.all)
  rw [hall] at hscan
  refine hscan.skip (t := (plainTask 5).addPending SIGSTOP) ?_ rfl rfl _ _ ?_
  · intro k pid reading signals hplace t signal scans _ hstopping
    rw [hplace] at hstopping
    cases hstopping
  · decide

lemma stopTaken_reached : stopTaken.Reached fun k move => move.Careful k := by
  refine .step _ (.step _ (.step _ stopNext_reached ⟨_, rfl, rfl⟩ ?_) ⟨_, rfl, rfl⟩ ?_) ⟨_, rfl, rfl⟩ ?_
  all_goals exact fun t signal scans _ hplace => Place.noConfusion hplace

/-- a thread that has stopped, with no kill pending -/
theorem stopped_without_kill_stopTaken : ∃ t,
    ((Move.step 5 .user).run stopTaken).procs.find 5 = some t ∧ t.state = .stopped ∧
      SIGKILL ∉ ((Move.step 5 .user).run stopTaken).procs.pending t := by
  have R : ((Move.step 5 .user).run stopTaken).Reached fun k move => move.Careful k := by
    refine .step _ stopTaken_reached ⟨_, rfl, rfl⟩ fun t signal scans ht _ => ?_
    cases ht
    decide
  obtain ⟨t, ht, hstopped⟩ : ∃ t, ((Move.step 5 .user).run stopTaken).procs.find 5 = some t ∧
      t.state = .stopped := ⟨_, rfl, rfl⟩
  exact ⟨t, ht, hstopped, stopped_without_kill R ht hstopped⟩

/-- **a task stops with a kill pending**: the kill is posted after `check_signals` took the stop and
before the section of `stop_current` -/
theorem stopped_with_kill : ∃ (k : Kernel) (t : Task), (k.Reached fun _ _ => True) ∧
    k.procs.find 5 = some t ∧ t.state = .stopped ∧ SIGKILL ∈ k.procs.pending t := by
  have hkilled : ((Move.post (plainTask 5) SIGKILL).run stopTaken).Reached fun _ _ => True := by
    refine .step _ (stopTaken_reached.mono fun _ _ _ => trivial) ?_ trivial
    rfl
  exact ⟨_, _, .step (.step 5 .user) hkilled ⟨_, rfl, rfl⟩ trivial, rfl, rfl, by decide⟩

end JobControl
end ClaudeOs.Sched
