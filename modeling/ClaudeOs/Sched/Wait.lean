import ClaudeOs.Uaccess

/-!
# Waiting for a child

`wait4` of `syscall::proc` over the task table of `sched`: one round of its loop, from the first look
at the table to the sleep.  A round reads and changes the table under the table's lock, and other
tasks change it between rounds, so what is said of a round is said of every table.

* `Entry`, `Tasks`  a task as a wait looks at it, and the table with the memory;
* `matchesWant`  the pid argument, whose negation names a group;
* `waitRound_ends`  when no sum and no negation of it stops the machine.
-/

namespace ClaudeOs.Sched
open Mm Call Post

structure Entry where
  pid : Nat
  tgid : Nat
  ppid : Nat
  pgid : Nat
  releasedAtExit : Bool
  zombie : Bool
  groupExit : Option Int
  exitCode : Int
  reportStop : Bool
  reportContinue : Bool
  stopSignal : Option Nat
deriving DecidableEq, Repr

structure Tasks (σ : Type) where
  table : List Entry
  mem : σ

def WNOHANG : Bits := 1
def WUNTRACED : Bits := 2
def WCONTINUED : Bits := 8

def toI32 (value : Int) : Int := value.bmod (2 ^ 32)

def u32Bytes (value : Nat) : List UInt8 :=
  (List.range 4).map fun i => UInt8.ofNat (value / 256 ^ i % 256)

variable {σ : Type}

abbrev Waiting (σ α : Type) : Type := Call Errno (Tasks σ) α

def isChildProcess (task : Entry) (parent : Nat) : Bool :=
  task.ppid == parent && task.pid == task.tgid && !task.releasedAtExit

/-- above zero one task, below minus one the group its negation names, otherwise any child -/
def matchesWant (task : Entry) (want : Int) : Waiting σ Bool :=
  if want > 0 then Pure.pure (task.pid == want.toNat)
  else if want < -1 then negOk want >>= fun _ => Pure.pure (task.pgid == (-want).toNat)
  else Pure.pure true

def groupExited (table : List Entry) (tgid : Nat) : Bool :=
  table.all fun task => task.tgid != tgid || task.zombie

def finishedProcess (table : List Entry) (task : Entry) : Bool :=
  task.zombie && groupExited table task.tgid

def findTask (ask : Entry → Waiting σ Bool) : List Entry → Waiting σ (Option Entry)
  | [] => Pure.pure none
  | task :: tasks =>
    ask task >>= fun yes => if yes then Pure.pure (some task) else findTask ask tasks

section
variable (parent : Nat) (want : Int)

/-- the first child that matches and about which `news` has something to say -/
def findChild (news : Entry → Bool) (table : List Entry) : Waiting σ (Option Entry) :=
  findTask (fun task =>
    if isChildProcess task parent then
      matchesWant task want >>= fun yes => Pure.pure (yes && news task)
    else Pure.pure false) table

def reapChild : Waiting σ (Option (Nat × Int)) :=
  get >>= fun s =>
    findChild parent want (finishedProcess s.table) s.table >>= fun leader =>
      match leader with
      | none => Pure.pure none
      | some leader =>
        modify (fun s => ⟨s.table.filter (·.tgid != leader.tgid), s.mem⟩) >>= fun _ =>
          Pure.pure (some (leader.pid, leader.groupExit.getD leader.exitCode))

variable (untraced continued : Bool)

def changed (task : Entry) : Bool :=
  (untraced && task.reportStop) || (continued && task.reportContinue)

def report (task : Entry) : Entry × Int :=
  if untraced && task.reportStop then
    (⟨task.pid, task.tgid, task.ppid, task.pgid, task.releasedAtExit, task.zombie, task.groupExit,
      task.exitCode, false, task.reportContinue, task.stopSignal⟩,
      (task.stopSignal.getD 0 * 256 + 0x7F : Nat))
  else
    (⟨task.pid, task.tgid, task.ppid, task.pgid, task.releasedAtExit, task.zombie, task.groupExit,
      task.exitCode, task.reportStop, false, task.stopSignal⟩, 0xFFFF)

def childStatusChange : Waiting σ (Option (Nat × Int)) :=
  get >>= fun s =>
    findChild parent want (changed untraced continued) s.table >>= fun child =>
      match child with
      | none => Pure.pure none
      | some child =>
        modify (fun s => ⟨s.table.map fun task =>
          if task = child then (report untraced child).1 else task, s.mem⟩) >>= fun _ =>
            Pure.pure (some (child.pid, (report untraced child).2))

def hasChildren : Waiting σ Bool :=
  get >>= fun s => findChild parent want (fun _ => true) s.table >>= fun child =>
    Pure.pure child.isSome

def childEventPending : Waiting σ Bool :=
  get >>= fun s =>
    findChild parent want (fun task => finishedProcess s.table task ||
      changed untraced continued task) s.table >>= fun child => Pure.pure child.isSome

end

def putStatus (S : Space σ) (statusAddr : Nat) (status : Int) : Waiting σ Unit :=
  if statusAddr = 0 then Pure.pure ()
  else Call.lift Tasks.mem (fun mem s => ⟨s.table, mem⟩)
    (Uaccess.writeBytesIn S statusAddr (u32Bytes (status % 2 ^ 32).toNat))

/-- one round: the child that is returned, zero for none, or nothing when the task slept and looks
again -/
def waitRound (S : Space σ) (me : Nat) (pid : Int) (statusAddr : Nat) (options : Bits)
    (interrupted : Bool) : Waiting σ (Option Nat) :=
  reapChild me (toI32 pid) >>= fun reaped =>
    match reaped with
    | some (child, status) => putStatus S statusAddr status >>= fun _ => Pure.pure (some child)
    | none =>
      childStatusChange me (toI32 pid) (has options WUNTRACED) (has options WCONTINUED) >>=
        fun change =>
          match change with
          | some (child, status) => putStatus S statusAddr status >>= fun _ => Pure.pure (some child)
          | none =>
            hasChildren me (toI32 pid) >>= fun any =>
              if !any then fail .ECHILD
              else if has options WNOHANG then Pure.pure (some 0)
              else
                -- asked again with interrupts off, right before the sleep
                childEventPending me (toI32 pid) (has options WUNTRACED) (has options WCONTINUED)
                  >>= fun pending =>
                    (if pending then Pure.pure true else hasChildren me (toI32 pid)) >>= fun _ =>
                      if interrupted then fail .EINTR else Pure.pure none

/-! ## the negation of the pid -/

/-- the most negative pid, which has no negation, is asked about nobody -/
def WantFits (want : Int) (me : Nat) (table : List Entry) : Prop :=
  -2 ^ 31 < want ∨ ∀ task ∈ table, isChildProcess task me = false

/-- a call that does not stop, with what the table is afterwards -/
abbrev EndsWith {α : Type} (P : List Entry → Prop) (m : Waiting σ α) (s : Tasks σ) : Prop :=
  Outcome.Holds (fun _ s' => P s'.table) (fun _ s' => P s'.table) (m s)

section
variable {s : Tasks σ} {me : Nat} {want : Int}

lemma matchesWant_ends (h : -2 ^ 31 < want) (task : Entry) (s : Tasks σ) :
    Outcome.Holds (fun _ s' => s' = s) (fun _ _ => False) (matchesWant task want s) := by
  refine ite (fun _ => rfl) fun _ => ite (fun _ => ?_) fun _ => rfl
  rw [negOk_bind h]
  rfl

lemma findTask_ends {ask : Entry → Waiting σ Bool} {tasks : List Entry}
    (hask : ∀ task ∈ tasks, Outcome.Holds (fun _ s' => s' = s) (fun _ _ => False) (ask task s)) :
    Outcome.Holds (fun _ s' => s' = s) (fun _ _ => False) (findTask ask tasks s) := by
  induction tasks with
  | nil => rfl
  | cons task tasks ih =>
    refine (hask task (List.mem_cons_self ..)).bind fun yes s' h => ?_
    subst h
    exact ite (fun _ => rfl) fun _ => ih fun t ht => hask t (List.mem_cons_of_mem _ ht)

lemma findChild_ends {table : List Entry} (h : WantFits want me table) (news : Entry → Bool)
    (s : Tasks σ) :
    Outcome.Holds (fun _ s' => s' = s) (fun _ _ => False) (findChild me want news table s) := by
  refine findTask_ends fun task htask => ?_
  refine ite (fun hchild => ?_) fun _ => rfl
  rcases h with hwant | hnone
  · exact (matchesWant_ends hwant task s).bind fun _ _ hs => hs
  · exact absurd hchild (by rw [hnone task htask]; exact Bool.false_ne_true)

lemma report_isChildProcess (untraced : Bool) (task : Entry) (me : Nat) :
    isChildProcess (report untraced task).1 me = isChildProcess task me := by
  rw [report]
  split <;> rfl

section
variable (h : WantFits want me s.table)
include h

lemma reapChild_ends : EndsWith (WantFits want me) (reapChild me want) s := by
  rw [EndsWith, reapChild, get_bind_run]
  refine ((findChild_ends h _ s).mono (fun _ _ hs => hs) fun _ _ hf => hf.elim).bind
    fun leader s' hs => ?_
  subst hs
  cases leader with
  | none => exact h
  | some leader => exact h.imp id fun hnone task htask => hnone task (List.mem_filter.mp htask).1

lemma childStatusChange_ends (untraced continued : Bool) :
    EndsWith (WantFits want me) (childStatusChange me want untraced continued) s := by
  rw [EndsWith, childStatusChange, get_bind_run]
  refine ((findChild_ends h _ s).mono (fun _ _ hs => hs) fun _ _ hf => hf.elim).bind
    fun child s' hs => ?_
  subst hs
  cases child with
  | none => exact h
  | some child =>
    refine h.imp id fun hnone task htask => ?_
    obtain ⟨old, hold, rfl⟩ := List.mem_map.mp htask
    split
    · rename_i heq
      rw [report_isChildProcess, ← heq]
      exact hnone old hold
    · exact hnone old hold

lemma hasChildren_ends : EndsWith (WantFits want me) (hasChildren me want) s := by
  rw [EndsWith, hasChildren, get_bind_run]
  refine ((findChild_ends h _ s).mono (fun _ _ hs => hs) fun _ _ hf => hf.elim).bind
    fun child s' hs => ?_
  subst hs
  exact h

lemma childEventPending_ends (untraced continued : Bool) :
    EndsWith (WantFits want me) (childEventPending me want untraced continued) s := by
  rw [EndsWith, childEventPending, get_bind_run]
  refine ((findChild_ends h _ s).mono (fun _ _ hs => hs) fun _ _ hf => hf.elim).bind
    fun child s' hs => ?_
  subst hs
  exact h

end

def StatusFits (statusAddr : Nat) : Prop :=
  statusAddr = 0 ∨ WORD ≤ statusAddr + 4 ∨ ¬ Uaccess.InTopPage statusAddr

lemma putStatus_ends (S : Space σ) {statusAddr : Nat} (h : StatusFits statusAddr) (status : Int)
    (s : Tasks σ) : EndsWith (fun _ => True) (putStatus S statusAddr status) s := by
  refine ite (fun _ => trivial) fun hne => lift ?_
  have hwrite := Uaccess.Tally.writeBytesIn (T := .blind S) (s := s.mem) statusAddr
    (u32Bytes (status % 2 ^ 32).toNat) trivial
  exact (hwrite.holds (.inr (h.resolve_left hne))).mono (fun _ _ _ => trivial) fun _ _ _ => trivial

/-- **a round does not stop the machine** when the pid has a negation or is asked about nobody, and
the status goes nowhere near the end of the address space -/
theorem waitRound_ends (S : Space σ) {pid : Int} {statusAddr : Nat} (options : Bits)
    (interrupted : Bool) (hwant : WantFits (toI32 pid) me s.table) (hstatus : StatusFits statusAddr) :
    EndsWith (fun _ => True) (waitRound S me pid statusAddr options interrupted) s := by
  have hput : ∀ (child : Nat) (status : Int) (s : Tasks σ), EndsWith (fun _ => True)
      (putStatus S statusAddr status >>= fun _ => Pure.pure (some child)) s :=
    fun child status s => (putStatus_ends S hstatus status s).bind fun _ _ _ => trivial
  have hdone : ∀ {α : Type} {m : Waiting σ α} {s : Tasks σ},
      EndsWith (WantFits (toI32 pid) me) m s →
        Outcome.Holds (fun _ s' => WantFits (toI32 pid) me s'.table) (fun _ _ => True) (m s) :=
    fun h => h.mono (fun _ _ h => h) fun _ _ _ => trivial
  refine (hdone (reapChild_ends hwant)).bind fun reaped s1 h1 => ?_
  cases reaped with
  | some reaped => exact hput reaped.1 reaped.2 s1
  | none =>
    refine (hdone (childStatusChange_ends h1 _ _)).bind fun change s2 h2 => ?_
    cases change with
    | some change => exact hput change.1 change.2 s2
    | none =>
      refine (hdone (hasChildren_ends h2)).bind fun any s3 h3 => ?_
      refine ite (fun _ => trivial) fun _ => ite (fun _ => trivial)
        fun _ => ?_
      refine (hdone (childEventPending_ends h3 _ _)).bind fun pending s4 h4 => ?_
      have hagain : Outcome.Holds (fun _ _ => True) (fun _ _ => True)
          ((if pending then Pure.pure true else hasChildren me (toI32 pid) : Waiting σ Bool) s4) :=
        ite (fun _ => trivial) fun _ =>
          (hasChildren_ends h4).mono (fun _ _ _ => trivial) fun _ _ _ => trivial
      refine hagain.bind fun _ _ _ => ?_
      exact ite (fun _ => trivial) fun _ => trivial

end
end ClaudeOs.Sched
