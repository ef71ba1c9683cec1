import ClaudeOs.Signal.Return

/-!
# The threads of a process, and what a new one starts with

Dispositions are kept in each task and copied by `clone`, so the threads of a process agree on them
only as long as none of several changes its own.  The blocked set of a new task is the empty one it was
made with, whatever its parent blocks.

* `Entry`, `Table`  the tasks by number, with the process of each;
* `fork_inherits_iff`  what a child has of its parent;
* `Alters`, `Alone`  the steps that change dispositions, and a task that may take them;
* `dispositions_agree`  the threads of a process agree, if only lone threads change dispositions.
-/

namespace ClaudeOs.Signal
open Mm Call Option Function

def CLONE_THREAD : Bits := 0x10000

/-- a task in the table: its process, and the signals sent to it alone -/
structure Entry where
  tgid : Nat
  pending : Bits
  task : Task

abbrev Table : Type := Nat → Option Entry

variable {σ : Type} (S : Space σ)

namespace Entry
variable (e : Entry)

def system (cpu : TaskContext) (mem : σ) : System σ := ⟨e.task, [], cpu, mem, [], false⟩

/-- a task made by `clone`: a thread is in its parent's process, and nothing was sent to it -/
def child (args : CloneArgs) (task : Task) : Entry :=
  ⟨if has args.flags CLONE_THREAD then e.tgid else args.childPid, 0, task⟩

/-- a blocked or ignored signal cannot wait when a fault raised it -/
def forced (signal : Nat) : Prop :=
  has e.task.blocked (1#64 <<< (signal - 1)) = true ∨ (e.task.actions signal).handler = SIG_IGN

instance (signal : Nat) : Decidable (e.forced signal) := inferInstanceAs (Decidable (_ ∨ _))

def forceFault (signal : Nat) : Entry :=
  let t := e.task
  ⟨e.tgid, e.pending ||| (1#64 <<< (signal - 1)), if e.forced signal then
      ⟨t.frame, t.sigStack, t.blocked &&& ~~~(1#64 <<< (signal - 1)), update t.actions signal
        ⟨SIG_DFL, (t.actions signal).flags, (t.actions signal).restorer, (t.actions signal).mask⟩,
        t.record, t.exited⟩
    else t⟩

end Entry

section
variable (table : Table) (pid : Nat) (e : Entry)

def Table.spawn : KernelCall → List Task → Table
  | .clone args _, task :: _ => update table args.childPid (some (e.child args task))
  | _, _ => table

def Table.put (c : KernelCall) (s : System σ) : Table :=
  Table.spawn (update table pid (some ⟨e.tgid, e.pending, s.me⟩)) e c s.rest

def Table.call (c : KernelCall) (cpu : TaskContext) (mem : σ) : Table :=
  table.put pid e c (c.run S (e.system cpu mem)).2

/-! ## what a child has of its parent -/

section
variable {S} {s : System σ}

lemma tellTid_same (args : CloneArgs) (flag : Bits) (addr : Nat) :
    Allows (fun _ s' => s'.me = s.me ∧ s'.rest = s.rest) (fun _ _ => False)
      (tellTid S args flag addr s) := by
  refine .ite (fun _ => ?_) fun _ => ⟨rfl, rfl⟩
  refine (Post.attempt (Q := fun _ s' => s'.me = s.me ∧ s'.rest = s.rest) ?_).bind
    fun _ _ h => ?_
  · exact Post.lift (Allows.of_forall fun _ => ⟨rfl, rfl⟩)
  · exact h

lemma clone_spec (args : CloneArgs) (room : Bool) :
    Allows (fun _ s' => s'.me = s.me ∧ s'.rest = childOf args s :: s.rest)
      (fun _ s' => room = false ∧ s' = s) (clone S args room s) := by
  refine .ite (fun hroom => ⟨Bool.eq_false_iff.mpr hroom, rfl⟩) fun _ => ?_
  rw [get_bind_run]
  refine ((tellTid_same args CLONE_PARENT_SETTID args.parentTid).mono (fun _ _ h => h)
    fun _ _ h => h.elim).bind fun _ s1 h1 => ?_
  refine ((tellTid_same args CLONE_CHILD_SETTID args.childTid).mono (fun _ _ h => h)
    fun _ _ h => h.elim).bind fun _ s2 h2 => ?_
  exact ⟨h2.1.trans h1.1, congrArg (childOf args s :: ·) (h2.2.trans h1.2)⟩

end

structure Inherits (args : CloneArgs) (parent : Entry) (cpu : TaskContext) (child : Entry) : Prop where
  blocked : child.task.blocked = parent.task.blocked
  actions : child.task.actions = parent.task.actions
  pending : child.pending = 0
  frame : child.task.frame = { parent.task.frame with
    rax := 0, rsp := if args.stack ≠ 0 then args.stack else parent.task.frame.rsp }
  record : child.task.record = { cpu with
    fsBase := if has args.flags CLONE_SETTLS then args.tls else cpu.fsBase }

/-- **a child starts as its parent is** just when its parent blocks nothing -/
theorem fork_inherits_iff (table : Table) (pid : Nat) (parent : Entry) (args : CloneArgs)
    (cpu : TaskContext) (mem : σ)
    (h : ((KernelCall.clone args true).run S (parent.system cpu mem)).1 ≠ .stopped) :
    ∃ child, table.call S pid parent (.clone args true) cpu mem args.childPid = some child ∧
      (Inherits args parent cpu child ↔ parent.task.blocked = 0) := by
  refine ⟨parent.child args (childOf args (parent.system cpu mem)), ?_,
    fun h => h.blocked.symm, fun h => ⟨h.symm, rfl, rfl, rfl, rfl⟩⟩
  have hclone := clone_spec (S := S) (s := parent.system cpu mem) args true
  rw [Table.call, KernelCall.run]
  rw [KernelCall.run] at h
  rcases hrun : clone S args true (parent.system cpu mem) with ⟨_ | _ | _, s'⟩
  · rw [hrun] at hclone
    rw [Table.put, hclone.2]
    exact update_self ..
  · rw [hrun] at hclone
    cases hclone.1
  · rw [hrun] at h
    exact absurd rfl h

/-! ### a program that forks -/

def forker (blocked : Bits) : Entry :=
  ⟨1, 0, firstFrame, .default, blocked, fun _ => .default, ⟨0, 0, initialFpu⟩, false⟩

/-- a `clone` with the flags alone, for the task 2 -/
def plainClone (flags : Bits) : CloneArgs := ⟨flags, 0, 0, 0, 0, 2⟩

/-- `fork`, by a program that blocks nothing -/
theorem fork_inherits_iff_open : ∃ child,
    Table.call Uaccess.openSpace (fun _ => none) 1 (forker 0) (.clone (plainClone 17) true)
      ⟨0, 0, initialFpu⟩ () 2 = some child ∧
    Inherits (plainClone 17) (forker 0) ⟨0, 0, initialFpu⟩ child := by
  obtain ⟨child, hchild, hiff⟩ := fork_inherits_iff Uaccess.openSpace (fun _ => none) 1 (forker 0)
    (plainClone 17) ⟨0, 0, initialFpu⟩ () fun h => by cases h
  exact ⟨child, hchild, hiff.mpr rfl⟩

/-- the child of a program that blocks SIGINT does not block it -/
theorem fork_forgets_mask : ∃ child,
    Table.call Uaccess.openSpace (fun _ => none) 1 (forker 2) (.clone (plainClone 17) true)
      ⟨0, 0, initialFpu⟩ () 2 = some child ∧
    ¬ Inherits (plainClone 17) (forker 2) ⟨0, 0, initialFpu⟩ child :=
  ⟨_, rfl, fun h => absurd h.blocked (by decide)⟩

/-! ## the dispositions of a process -/

inductive ThreadStep where
  | call (c : KernelCall)
  | fault (signal : Nat)

def Alters : ThreadStep → Prop
  | .call (.rtSigaction _ act _) => act ≠ 0
  | .call (.deliver signal _) => has (e.task.actions signal).flags SA_RESETHAND = true
  | .call (.exec loaded) => ∃ image, loaded = .ok image
  | .call _ => False
  | .fault signal => e.forced signal

def Alone : Prop :=
  ∀ q f, table q = some f → f.tgid = e.tgid → f.task.exited = false → q = pid

/-- a clone that makes a process gets a number that no live process has -/
def FreshNumber : ThreadStep → Prop
  | .call (.clone args _) => has args.flags CLONE_THREAD = false →
      ∀ q f, table q = some f → f.task.exited = false → f.tgid ≠ args.childPid
  | _ => True

/-- the tables reached from one process by live tasks that meet `ok` -/
inductive Peopled (ok : Table → Nat → Entry → ThreadStep → Prop) : Table → Prop
  | boot (pid : Nat) (task : Task) :
      Peopled ok (update (fun _ => none) pid (some ⟨pid, 0, task⟩))
  | call {table : Table} {pid : Nat} {e : Entry} {c : KernelCall} (cpu : TaskContext) (mem : σ) :
      Peopled ok table → table pid = some e → e.task.exited = false → ok table pid e (.call c) →
      (c.run S (e.system cpu mem)).1 ≠ .stopped → Peopled ok (table.call S pid e c cpu mem)
  | fault {table : Table} {pid : Nat} {e : Entry} (signal : Nat) : Peopled ok table →
      table pid = some e → e.task.exited = false → ok table pid e (.fault signal) →
      Peopled ok (update table pid (some (e.forceFault signal)))

def Agreed : Prop :=
  ∀ p q e f, table p = some e → table q = some f → e.tgid = f.tgid → e.task.exited = false →
    f.task.exited = false → e.task.actions = f.task.actions

end

variable {args : CloneArgs} {s : System σ} {α : Type}

section
variable {S} {table : Table} {pid : Nat} {e e' : Entry} {cpu : TaskContext} {mem : σ} {c : KernelCall}

/-- no task is added, and the dispositions are kept if the call does not alter them -/
abbrev Keeps (e : Entry) (c : KernelCall) (s : System σ) : Prop :=
  s.rest = [] ∧ (¬ Alters e (.call c) → s.me.actions = e.task.actions)

lemma onThread_keeps (h : Keeps e c s) (m : Signalled σ α) :
    Guards (Keeps e c) (onThread m) s := Post.lift (Allows.of_forall fun _ => h)

lemma onMemory_keeps (h : Keeps e c s) (m : Uaccess.Access σ α) :
    Guards (Keeps e c) (onMemory m) s := Post.lift (Allows.of_forall fun _ => h)

lemma KernelCall.keeps (hc : ∀ args room, c ≠ .clone args room) :
    Guards (Keeps e c) (c.run S) (e.system cpu mem) := by
  have hsame : Keeps e c (e.system cpu mem) := ⟨rfl, fun _ => rfl⟩
  cases c with
  | rtSigaction signal act old =>
    refine .ite (fun _ => hsame) fun _ => .ite (fun _ => hsame) fun _ => ?_
    rw [get_bind_run]
    refine Post.bind (Q := fun _ => Keeps e (.rtSigaction signal act old)) ?_ fun _ s1 h1 => ?_
    · exact .ite (fun _ => onMemory_keeps hsame _) fun _ => hsame
    · refine .ite (fun hact => ?_) fun _ => h1
      exact (onMemory_keeps h1 _).bind fun _ _ h2 => ⟨h2.1, fun h => absurd hact h⟩
  | sigaltstack new old => exact (onThread_keeps hsame _).bind fun _ _ h => h
  | deliver signal fault =>
    rw [Guards, KernelCall.run, Signal.deliver, get_bind_run]
    refine .ite (fun _ => hsame) fun _ => ?_
    refine Post.bind (Q := fun _ => Keeps e (.deliver signal fault)) ?_ fun _ s1 h1 => ?_
    · exact .ite (fun hreset => ⟨rfl, fun h => absurd hreset h⟩) fun _ => hsame
    · exact (onThread_keeps h1 _).bind fun _ _ h2 => .ite (fun _ => h2) fun _ => h2
  | rtSigreturn => exact (onThread_keeps hsame _).bind fun _ _ h => h
  | archPrctl code addr =>
    exact .ite (fun _ => hsame) fun _ => .ite (fun _ => hsame) fun _ =>
      .ite (fun _ => onMemory_keeps hsame _) fun _ => .ite (fun _ => onMemory_keeps hsame _)
        fun _ => hsame
  | clone args room => exact absurd rfl (hc args room)
  | exec loaded =>
    cases loaded with
    | error e => exact hsame
    | ok image => exact ⟨rfl, fun h => absurd ⟨image, rfl⟩ h⟩
  | exit => exact hsame

section
variable (h : Agreed table)
include h

lemma Agreed.insert
    (hnew : ∀ q f, q ≠ pid → table q = some f → f.tgid = e'.tgid → f.task.exited = false →
      f.task.actions = e'.task.actions) : Agreed (update table pid (some e')) := by
  intro p q a b hp hq htgid hlive hlive'
  rw [update_apply] at hp hq
  split at hp <;> split at hq
  · rw [← some.inj hp, ← some.inj hq]
  · rename_i hne
    rw [← some.inj hp] at htgid ⊢
    exact (hnew q b hne hq htgid.symm hlive').symm
  · rename_i hne _
    rw [← some.inj hq] at htgid ⊢
    exact hnew p a hne hp htgid hlive
  · exact h p q a b hp hq htgid hlive hlive'

section
variable (hpid : table pid = some e)
include hpid

section
variable (hlive : e.task.exited = false)
include hlive

lemma Agreed.change (htgid : e'.tgid = e.tgid) {step : ThreadStep}
    (hlone : Alters e step → Alone table pid e)
    (hkept : ¬ Alters e step → e'.task.actions = e.task.actions) :
    Agreed (update table pid (some e')) := by
  refine h.insert fun q f hne hq hsame hl => ?_
  by_cases halters : Alters e step
  · exact absurd (hlone halters q f hq (hsame.trans htgid) hl) hne
  · rw [hkept halters]
    exact h q pid f e hq hpid (hsame.trans htgid) hl hlive

lemma Agreed.spawn {task : Task} {room : Bool} (hactions : task.actions = e.task.actions)
    (hfresh : FreshNumber table (.call (.clone args room))) :
    Agreed (update table args.childPid (some (e.child args task))) := by
  refine h.insert fun q f _ hq hsame hl => ?_
  rw [Entry.child] at hsame
  split at hsame
  · exact (h q pid f e hq hpid hsame hl hlive).trans hactions.symm
  · rename_i hthread
    exact absurd hsame (hfresh (Bool.eq_false_of_not_eq_true hthread) q f hq hl)

lemma Agreed.clone {room : Bool} (hfresh : FreshNumber table (.call (.clone args room)))
    (hends : ((KernelCall.clone args room).run S (e.system cpu mem)).1 ≠ .stopped) :
    Agreed (table.call S pid e (.clone args room) cpu mem) := by
  have hspec : (Signal.clone S args room (e.system cpu mem)).2.me = e.task ∧
      ((Signal.clone S args room (e.system cpu mem)).2.rest = [] ∨
        (Signal.clone S args room (e.system cpu mem)).2.rest = [childOf args (e.system cpu mem)]) := by
    refine Allows.snd (P := fun s' => s'.me = e.task ∧ (s'.rest = [] ∨ s'.rest = [childOf args _]))
      ((clone_spec args room).mono (fun _ _ h => ⟨h.1, .inr h.2⟩) fun _ _ h => ?_) hends
    rw [h.2]
    exact ⟨rfl, .inl rfl⟩
  have hsame : update table pid (some ⟨e.tgid, e.pending, e.task⟩) = table := by
    rw [← show table pid = some ⟨e.tgid, e.pending, e.task⟩ from hpid]
    exact update_eq_self ..
  rw [Table.call, KernelCall.run, Table.put, hspec.1, hsame]
  rcases hspec.2 with hrest | hrest
  · rw [hrest]
    exact h
  · rw [hrest]
    exact h.spawn hpid hlive rfl hfresh

lemma Agreed.call (hlone : Alters e (.call c) → Alone table pid e)
    (hfresh : FreshNumber table (.call c))
    (hends : (c.run S (e.system cpu mem)).1 ≠ .stopped) :
    Agreed (table.call S pid e c cpu mem) := by
  by_cases hclone : ∃ args room, c = .clone args room
  · obtain ⟨args, room, rfl⟩ := hclone
    exact h.clone hpid hlive hfresh hends
  · have hkeeps : Guards (Keeps e c) (c.run S) (e.system cpu mem) :=
      KernelCall.keeps fun args room hc => hclone ⟨args, room, hc⟩
    have hkept := hkeeps.snd hends
    have hspawn (table : Table) : table.spawn e c [] = table := by cases c <;> rfl
    rw [Table.call, Table.put, hkept.1, hspawn]
    exact h.change hpid hlive rfl hlone hkept.2

end
end
end
end

/-- **the live threads of a process have the same dispositions**, in every run in which dispositions
are changed only by a task that is alone in its process and no number is given out twice -/
theorem dispositions_agree {table : Table}
    (h : Peopled S (fun table pid e step =>
      (Alters e step → Alone table pid e) ∧ FreshNumber table step) table) :
    Agreed table := by
  induction h with
  | boot pid task =>
    have hempty : Agreed fun _ => none := fun _ _ _ _ hp => absurd hp.symm (some_ne_none _)
    exact hempty.insert fun q f _ hq => absurd hq.symm (some_ne_none _)
  | call cpu mem _ hpid hlive hok hends ih => exact ih.call hpid hlive hok.1 hok.2 hends
  | @fault table pid e signal _ hpid hlive hok ih =>
    refine ih.change hpid hlive rfl hok.1 fun hkept => ?_
    rw [Entry.forceFault]
    exact congrArg Task.actions (if_neg hkept)

/-! ### two threads -/

def handlerMemory : Space Unit :=
  { Uaccess.openSpace with load := fun va s => (if va % 32 = 2 then 0x40 else 0, s) }

def threadClone : KernelCall := .clone (plainClone 0x50f00) true
def alone (e : Entry) : Table := update (fun _ => none) 1 (some e)

def twoThreads : Table :=
  (alone (forker 0)).call handlerMemory 1 (forker 0) threadClone ⟨0, 0, initialFpu⟩ ()

lemma twoThreads_peopled : Peopled handlerMemory (fun _ _ _ _ => True) twoThreads :=
  .call _ _ (.boot 1 (forker 0).task) rfl rfl trivial fun h => by cases h

/-- a lone thread installs a handler -/
def handled : Table :=
  (alone (forker 0)).call handlerMemory 1 (forker 0) (.rtSigaction 10 0x1000 0) ⟨0, 0, initialFpu⟩ ()

/-- and then makes a second one -/
def handledTwice (e : Entry) : Table :=
  handled.call handlerMemory 1 e threadClone ⟨0, 0, initialFpu⟩ ()

/-- both threads have the handler -/
theorem dispositions_agree_handled : ∃ e, handled 1 = some e ∧ Agreed (handledTwice e) ∧
    (handledTwice e 2).map (fun f => (f.tgid, (f.task.actions 10).handler)) =
      some (1, (e.task.actions 10).handler) ∧ (e.task.actions 10).handler ≠ 0 := by
  have hfirst : Peopled handlerMemory (fun table pid e step =>
      (Alters e step → Alone table pid e) ∧ FreshNumber table step) handled := by
    refine .call _ _ (.boot 1 (forker 0).task) rfl rfl ⟨fun _ q f hq _ _ => ?_, trivial⟩
      (by decide +kernel)
    by_contra hne
    rw [alone, update_of_ne hne] at hq
    cases hq
  refine ⟨_, rfl, dispositions_agree handlerMemory (.call _ _ hfirst rfl (by decide +kernel)
    ⟨fun h => h.elim, fun h => absurd h (by decide)⟩ fun h => by cases h), ?_, ?_⟩
  · decide +kernel
  · decide +kernel

/-- the second thread installs a handler that the first does not get -/
theorem dispositions_differ :
    ∃ table, Peopled handlerMemory (fun _ _ _ _ => True) table ∧ ¬ Agreed table := by
  refine ⟨_, @Peopled.call _ _ _ _ 2 _ (.rtSigaction 10 0x1000 0) ⟨0, 0, initialFpu⟩ ()
    twoThreads_peopled rfl rfl trivial (by decide +kernel), fun h => ?_⟩
  have hsame := h 1 2 _ _ rfl rfl rfl rfl (by decide +kernel)
  have hhandler := congrArg (fun actions => (actions 10).handler) hsame
  revert hhandler
  decide +kernel

end ClaudeOs.Signal
