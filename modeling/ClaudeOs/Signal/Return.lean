import ClaudeOs.Signal.Frame

/-!
# What the kernel gives the processor

A return to user mode through a frame with an address that is not canonical faults in the kernel, and
so does a segment base that is not.  Both are chosen by programs: a handler, the frame of
`rt_sigreturn`, a thread pointer, the entry of an executable.  They sit in the record of a task until
a later return or switch uses them, so what is said of one use is said of every task at every step.

* `Task`, `System`  the tasks, the one that runs, and what the processor was given so far;
* `KernelCall`  the calls, deliveries and switches;
* `UserFrame`, `Safe`  frames and bases the processor takes;
* `Reached`  every order of them, with programs running in between;
* `returns_safe`  the processor takes everything, when the values are canonical.
-/

namespace ClaudeOs.Signal
open Mm Call List Function Uaccess

def USER_DATA : Nat := 0x1B
def USER_CODE : Nat := 0x23
def VECTOR_SYSCALL : Nat := 0x100
def INTERRUPT_FLAG : Bits := 0x200
def IO_PRIVILEGE : Bits := 0x3000
def SIG_DFL : Nat := 0
def SIG_IGN : Nat := 1
def SIGKILL : Nat := 9
def SIGSTOP : Nat := 19
def SA_RESETHAND : Bits := 0x80000000
def ARCH_SET_GS : Nat := 0x1001
def ARCH_SET_FS : Nat := 0x1002
def ARCH_GET_FS : Nat := 0x1003
def ARCH_GET_GS : Nat := 0x1004
def CLONE_VM : Bits := 0x100
def CLONE_SETTLS : Bits := 0x80000
def CLONE_PARENT_SETTID : Bits := 0x100000
def CLONE_CHILD_SETTID : Bits := 0x1000000

/-- an address the processor takes: the upper bits repeat bit 47 -/
def Canonical (addr : Nat) : Prop := addr < 2 ^ 47 ∨ 2 ^ 64 - 2 ^ 47 ≤ addr ∧ addr < 2 ^ 64

instance (addr : Nat) : Decidable (Canonical addr) := inferInstanceAs (Decidable (_ ∨ _))

/-! ## tasks -/

def SigAction.default : SigAction := ⟨SIG_DFL, 0, 0, 0⟩

/-- a task: its frame, its signal state and the registers not in the frame -/
structure Task where
  frame : TrapFrame
  sigStack : SigAltStack
  blocked : Bits
  actions : Nat → SigAction
  record : TaskContext
  exited : Bool

/-- what the processor was given: a frame to return through, or a segment base -/
inductive Emit where
  | returned (frame : TrapFrame)
  | wroteFs (value : Nat)
  | wroteGs (value : Nat)

/-- the tasks, the registers, the memory and what the processor was given; `inUser` in the program
-/
structure System (σ : Type) where
  me : Task
  rest : List Task
  cpu : TaskContext
  mem : σ
  log : List Emit
  inUser : Bool

abbrev Kernel (σ α : Type) : Type := Call Errno (System σ) α

variable {σ : Type} (S : Space σ)

namespace System
variable (s : System σ)

def thread : Thread σ := ⟨s.me.frame, s.me.sigStack, s.me.blocked, s.me.record, s.cpu, s.mem⟩

/-- the running task with its signal state replaced -/
def putThread (t : Thread σ) : System σ :=
  ⟨⟨t.frame, t.sigStack, t.blocked, s.me.actions, t.record, s.me.exited⟩, s.rest, t.cpu, t.mem,
    s.log, s.inUser⟩

def setMe (me : Task) : System σ := ⟨me, s.rest, s.cpu, s.mem, s.log, s.inUser⟩
def setRest (rest : List Task) : System σ := ⟨s.me, rest, s.cpu, s.mem, s.log, s.inUser⟩
def setMem (mem : σ) : System σ := ⟨s.me, s.rest, s.cpu, mem, s.log, s.inUser⟩

def writeFs (value : Nat) : System σ :=
  ⟨s.me, s.rest, ⟨value, s.cpu.gsBase, s.cpu.fpu⟩, s.mem, s.log ++ [.wroteFs value], s.inUser⟩

def writeGs (value : Nat) : System σ :=
  ⟨s.me, s.rest, ⟨s.cpu.fsBase, value, s.cpu.fpu⟩, s.mem, s.log ++ [.wroteGs value], s.inUser⟩

def setFpu (fpu : Bytes) : System σ :=
  ⟨s.me, s.rest, ⟨s.cpu.fsBase, s.cpu.gsBase, fpu⟩, s.mem, s.log, s.inUser⟩

end System

namespace Task
variable (t : Task)

def setAction (signal : Nat) (action : SigAction) : Task :=
  ⟨t.frame, t.sigStack, t.blocked, update t.actions signal action, t.record, t.exited⟩

def setRecord (record : TaskContext) : Task :=
  ⟨t.frame, t.sigStack, t.blocked, t.actions, record, t.exited⟩

def exit : Task := ⟨t.frame, t.sigStack, t.blocked, t.actions, t.record, true⟩

end Task

def onThread {α : Type} (m : Signalled σ α) : Kernel σ α :=
  Call.lift System.thread (fun t s => s.putThread t) m

def onMemory {α : Type} (m : Uaccess.Access σ α) : Kernel σ α :=
  Call.lift System.mem (fun mem s => s.setMem mem) m

/-! ## the calls -/

def actionBytes (action : SigAction) : List UInt8 :=
  (range 32).map (putAll (fun _ => 0)
    [(0, action.handler), (8, action.flags.toNat), (16, action.restorer), (24, action.mask.toNat)])

def actionOf (bytes : List UInt8) : SigAction :=
  ⟨get64 (ofList bytes) 0, BitVec.ofNat 64 (get64 (ofList bytes) 8), get64 (ofList bytes) 16,
    BitVec.ofNat 64 (get64 (ofList bytes) 24)⟩

def rtSigaction (signal : Int) (act old : Nat) : Kernel σ Unit :=
  if signal < 1 ∨ 64 ≤ signal then fail .EINVAL
  else if signal.toNat = SIGKILL ∨ signal.toNat = SIGSTOP then fail .EINVAL
  else get >>= fun s =>
    (if old ≠ 0 then
      onMemory (writeBytesIn S old (actionBytes (s.me.actions signal.toNat)))
    else Pure.pure ()) >>= fun _ =>
      if act ≠ 0 then
        onMemory (readBytesIn S act 32) >>= fun bytes =>
          modify (fun s => s.setMe (s.me.setAction signal.toNat (actionOf bytes)))
      else Pure.pure ()

/-- a signal with a handler, on the way back to user mode; a frame that cannot be written ends the
program -/
def deliver (signal : Nat) (fault : Option Fault) : Kernel σ Unit :=
  get >>= fun s =>
    let action := s.me.actions signal
    if action.handler = SIG_IGN ∨ action.handler = SIG_DFL then Pure.pure ()
    else
      (if has action.flags SA_RESETHAND then
        modify (fun s => s.setMe (s.me.setAction signal .default)) else Pure.pure ()) >>= fun _ =>
          onThread (enterSignalHandler S signal action fault) >>= fun entered =>
            if entered then Pure.pure () else modify fun s => s.setMe s.me.exit

def rtSigreturn : Kernel σ Unit := onThread (leaveSignalHandler S) >>= fun _ => Pure.pure ()

def u64Bytes (value : Nat) : List UInt8 :=
  (range 8).map (put64 (fun _ => 0) 0 value)

def archPrctl (code addr : Nat) : Kernel σ Unit :=
  if code = ARCH_SET_FS then
    modify fun s => (s.writeFs addr).setMe
      (s.me.setRecord ⟨addr, s.me.record.gsBase, s.me.record.fpu⟩)
  else if code = ARCH_SET_GS then
    modify fun s => (s.writeGs addr).setMe
      (s.me.setRecord ⟨s.me.record.fsBase, addr, s.me.record.fpu⟩)
  else if code = ARCH_GET_FS then
    get >>= fun s => onMemory (writeBytesIn S addr (u64Bytes s.cpu.fsBase))
  else if code = ARCH_GET_GS then
    get >>= fun s => onMemory (writeBytesIn S addr (u64Bytes s.cpu.gsBase))
  else fail .EINVAL

def forkChildFrame (f : TrapFrame) (stack : Nat) : TrapFrame :=
  ⟨0, f.rbx, f.rcx, f.rdx, f.rsi, f.rdi, f.rbp, f.r8, f.r9, f.r10, f.r11, f.r12, f.r13, f.r14, f.r15,
    f.vector, f.errorCode, f.rip, f.cs, f.rflags, if stack ≠ 0 then stack else f.rsp, f.ss⟩

structure CloneArgs where
  flags : Bits
  stack : Nat
  parentTid : Nat
  childTid : Nat
  tls : Nat
  childPid : Nat

/-- the registers the parent holds now, with the thread pointer the caller named -/
def childRecord (args : CloneArgs) (cpu : TaskContext) : TaskContext :=
  ⟨if has args.flags CLONE_SETTLS then args.tls else cpu.fsBase, cpu.gsBase, cpu.fpu⟩

def childOf (args : CloneArgs) (s : System σ) : Task :=
  ⟨forkChildFrame s.me.frame args.stack,
    if has args.flags CLONE_VM then .default else s.me.sigStack, 0, s.me.actions,
    childRecord args s.cpu, false⟩

/-- the number of the new task, where it was asked for; a failure is passed over -/
def tellTid (args : CloneArgs) (flag : Bits) (addr : Nat) : Kernel σ Unit :=
  if has args.flags CLONE_VM && has args.flags flag && addr != 0 then
    attempt (onMemory (writeBytesIn S addr
      ((range 4).map (putBytes 4 (fun _ => 0) 0 args.childPid)))) >>= fun _ => Pure.pure ()
  else Pure.pure ()

/-- `room` is whether there was memory for the new task and its copy of the address space -/
def clone (args : CloneArgs) (room : Bool) : Kernel σ Unit :=
  if ¬ room then fail .ENOMEM
  else get >>= fun s =>
    tellTid S args CLONE_PARENT_SETTID args.parentTid >>= fun _ =>
      tellTid S args CLONE_CHILD_SETTID args.childTid >>= fun _ =>
        modify fun s' => s'.setRest (childOf args s :: s'.rest)

def startUserAt (entry stack : Nat) : TrapFrame :=
  ⟨0, 0, 0, 0, 0, 0, 0, 0, 0, 0, 0, 0, 0, 0, 0, VECTOR_SYSCALL, 0, entry, USER_CODE, 0x202, stack,
    USER_DATA⟩

def initialFpu : Bytes := fun i =>
  if i = 0 then 0x7F else if i = 1 then 0x03 else if i = 24 then 0x80 else if i = 25 then 0x1F
  else if i = 28 ∨ i = 29 then 0xFF else 0

/-- handlers do not survive, but ignored signals stay ignored -/
def resetActions (actions : Nat → SigAction) : Nat → SigAction := fun signal =>
  if (actions signal).handler = SIG_IGN then actions signal else .default

def Task.start (t : Task) (entry stack : Nat) : Task :=
  ⟨startUserAt entry stack, .default, t.blocked, resetActions t.actions,
    ⟨0, t.record.gsBase, initialFpu⟩, t.exited⟩

/-- `loaded` is what became of loading the image: its entry and the stack, or the error -/
def exec (loaded : Except Errno (Nat × Nat)) : Kernel σ Unit :=
  match loaded with
  | .error e => fail e
  | .ok (entry, stack) =>
    modify fun s => ((s.setFpu initialFpu).writeFs 0).setMe (s.me.start entry stack)

def System.switchTo (s : System σ) (next : Task) (others : List Task) (mem : σ) : System σ :=
  ⟨next, s.me.setRecord s.cpu :: others, next.record, mem,
    s.log ++ [.wroteFs next.record.fsBase, .wroteGs next.record.gsBase], s.inUser⟩

inductive KernelCall where
  | rtSigaction (signal : Int) (act old : Nat)
  | sigaltstack (new old : Nat)
  | deliver (signal : Nat) (fault : Option Fault)
  | rtSigreturn
  | archPrctl (code addr : Nat)
  | clone (args : CloneArgs) (room : Bool)
  | exec (loaded : Except Errno (Nat × Nat))
  | exit

def KernelCall.run : KernelCall → Kernel σ Unit
  | .rtSigaction signal act old => Signal.rtSigaction S signal act old
  | .sigaltstack new old => onThread (Signal.sigaltstack S new old) >>= fun _ => Pure.pure ()
  | .deliver signal fault => Signal.deliver S signal fault
  | .rtSigreturn => Signal.rtSigreturn S
  | .archPrctl code addr => Signal.archPrctl S code addr
  | .clone args room => Signal.clone S args room
  | .exec loaded => Signal.exec loaded
  | .exit => modify fun s => s.setMe s.me.exit

/-- the program's memory once the action it had is written where it asked -/
def reported (s : System σ) (signal old : Nat) : σ :=
  if old ≠ 0 then (writeBytesIn S old (actionBytes (s.me.actions signal)) s.mem).2 else s.mem

/-- the addresses a program chose are canonical: those in its memory, where the call reads them, and
those it passes -/
def Chosen (s : System σ) : KernelCall → Prop
  | .rtSigaction signal act old => act ≠ 0 → ∀ bytes,
      (readBytesIn S act 32 (reported S s signal.toNat old)).1 = .ok bytes →
        Canonical (actionOf bytes).handler
  | .rtSigreturn => ∀ bytes, (readBytesIn S (frameBase s.thread) FRAME_SIZE s.mem).1 = .ok bytes →
      Canonical (get64 (ofList bytes) (MCONTEXT + SC_RIP))
  | .archPrctl code addr => code = ARCH_SET_FS ∨ code = ARCH_SET_GS → Canonical addr
  | .clone args _ => has args.flags CLONE_SETTLS = true → Canonical args.tls
  | .exec loaded => ∀ image, loaded = .ok image → Canonical image.1
  | _ => True

/-! ## runs -/

/-- the frame of a trap out of a program, which cannot change its selectors, privilege or interrupt
flag -/
structure Trapped (before after : TrapFrame) : Prop where
  cs : after.cs = USER_CODE
  ss : after.ss = USER_DATA
  interrupts : after.rflags &&& INTERRUPT_FLAG = before.rflags &&& INTERRUPT_FLAG
  privilege : after.rflags &&& IO_PRIVILEGE = before.rflags &&& IO_PRIVILEGE

/-- the system from its first program on.  A call that stops the machine goes nowhere -/
inductive Running (ok : System σ → KernelCall → Prop) (trap : Nat → Prop) (start : System σ) :
    System σ → Prop
  | start : Running ok trap start start
  | call {s : System σ} {c : KernelCall} : Running ok trap start s → s.inUser = false → ok s c →
      (c.run S s).1 ≠ .stopped → Running ok trap start (c.run S s).2
  /-- another task is given the processor, with whatever its tables map -/
  | switch {s : System σ} {next : Task} {others : List Task} (mem : σ) : Running ok trap start s →
      s.inUser = false → s.rest.Perm (next :: others) → next.exited = false →
      Running ok trap start (s.switchTo next others mem)
  | leave {s : System σ} : Running ok trap start s → s.inUser = false → s.me.exited = false →
      Running ok trap start
        ⟨s.me, s.rest, s.cpu, s.mem, s.log ++ [.returned s.me.frame], true⟩
  /-- the program runs, and comes back with any registers it can have, and any memory -/
  | enter {s : System σ} (frame : TrapFrame) (cpu : TaskContext) (mem : σ) :
      Running ok trap start s → s.inUser = true → Trapped s.me.frame frame → trap frame.rip →
      Canonical cpu.fsBase → Canonical cpu.gsBase → Running ok trap start
        ⟨⟨frame, s.me.sigStack, s.me.blocked, s.me.actions, s.me.record, s.me.exited⟩, s.rest, cpu,
          mem, s.log, false⟩

/-! ## what the processor takes -/

structure UserFrame (f : TrapFrame) : Prop where
  rip : Canonical f.rip
  cs : f.cs = USER_CODE
  ss : f.ss = USER_DATA
  interrupts : f.rflags &&& INTERRUPT_FLAG = INTERRUPT_FLAG
  privilege : f.rflags &&& IO_PRIVILEGE = 0

def Emit.Taken : Emit → Prop
  | .returned frame => UserFrame frame
  | .wroteFs value => Canonical value
  | .wroteGs value => Canonical value

structure Bases (c : TaskContext) : Prop where
  fs : Canonical c.fsBase
  gs : Canonical c.gsBase

/-- what a task is resumed with, and its handlers, are what the processor takes -/
structure Task.Safe (t : Task) : Prop where
  frame : UserFrame t.frame
  handlers : ∀ signal, Canonical (t.actions signal).handler
  record : Bases t.record

/-- so is every task's, and so was all that was written -/
structure System.Safe (s : System σ) : Prop where
  me : s.me.Safe
  rest : ∀ t ∈ s.rest, t.Safe
  cpu : Bases s.cpu
  log : ∀ e ∈ s.log, e.Taken

/-! ## the running task -/

structure Thread.Safe (t : Thread σ) : Prop where
  frame : UserFrame t.frame
  record : Bases t.record
  cpu : Bases t.cpu

/-- a call that leaves what the processor takes, if it comes to an end -/
abbrev Guards {τ α : Type} (P : τ → Prop) (m : Call Errno τ α) (s : τ) : Prop :=
  Allows (fun _ => P) (fun _ => P) (m s)

variable {action : SigAction} {f : TrapFrame} {α ε τ : Type} {args : CloneArgs} {entry value : Nat}
  {t : Task} {s : System σ}

section
variable {S} {t : Thread σ}

lemma SigAltStack.contains_same (alt : SigAltStack) (sp : Nat) (s : τ) :
    Allows (fun _ s' => s' = s) (fun _ s' => s' = s) ((alt.contains sp : Call ε τ Bool) s) :=
  .ite (fun _ => Allows.addOk fun _ => rfl) fun _ => rfl

lemma SigAltStack.flagsAt_same (alt : SigAltStack) (sp : Nat) (s : τ) :
    Allows (fun _ s' => s' = s) (fun _ s' => s' = s)
      ((alt.flagsAt sp : Call ε τ (BitVec 32)) s) :=
  .ite (fun _ => rfl) fun _ => (alt.contains_same sp s).bind fun _ _ h => h

lemma handlerTop_same (t : Thread σ) (action : SigAction) (s : Thread σ) :
    Allows (fun _ s' => s' = s) (fun _ s' => s' = s) (handlerTop t action s) := by
  refine .ite (fun _ => ?_) fun _ => rfl
  refine (t.sigStack.contains_same t.frame.rsp s).bind ?_
  rintro inside _ rfl
  exact .ite (fun _ => Allows.addOk fun _ => rfl) fun _ => rfl

lemma Guards.of_same {P : τ → Prop} {m : Call Errno τ α} {s : τ} (hs : P s)
    (h : Allows (fun _ s' => s' = s) (fun _ s' => s' = s) (m s)) : Guards P m s :=
  h.mono (fun _ _ h => h ▸ hs) fun _ _ h => h ▸ hs

lemma onMem_guards (h : t.Safe) (m : Uaccess.Access σ α) : Guards Thread.Safe (onMem m) t :=
  Post.lift (Allows.of_forall fun _ => ⟨h.frame, h.record, h.cpu⟩)

lemma onMem_reads (h : t.Safe) (m : Uaccess.Access σ α) :
    Allows (fun a t1 => t1.Safe ∧ (m t.mem).1 = .ok a) (fun _ => Thread.Safe) (onMem m t) :=
  Post.lift (Allows.self.mono
    (fun _ _ heq => ⟨⟨h.frame, h.record, h.cpu⟩, congrArg Prod.fst heq⟩)
    fun _ _ _ => ⟨h.frame, h.record, h.cpu⟩)

lemma handlerFrame_user (h : UserFrame f) (signal : Nat) (haction : Canonical action.handler)
    (sp : Nat) : UserFrame (handlerFrame f signal action sp) :=
  ⟨haction, h.cs, h.ss, h.interrupts, h.privilege⟩

lemma enterSignalHandler_guards (h : t.Safe) (signal : Nat) (haction : Canonical action.handler)
    (fault : Option Fault) : Guards Thread.Safe (enterSignalHandler S signal action fault) t := by
  refine .ite (fun _ => h) fun _ => ?_
  rw [get_bind_run]
  refine ((handlerTop_same t action t).mono (fun _ _ h => h) fun _ _ hs => hs ▸ h).bind ?_
  rintro top t1 rfl
  refine ((t1.sigStack.flagsAt_same _ t1).mono (fun _ _ h => h) fun _ _ hs => hs ▸ h).bind ?_
  rintro altFlags t1 rfl
  rw [modify_bind_run]
  refine Allows.addOk fun _ => ?_
  have hsaved : t1.saveFpu.Safe := ⟨h.frame, ⟨h.record.fs, h.record.gs⟩, h.cpu⟩
  refine (Post.attempt (Q := fun _ => Thread.Safe) (onMem_guards hsaved _)).bind
    fun written t2 h2 => ?_
  cases written with
  | error => exact h2
  | ok =>
    refine Allows.addOk fun _ => Allows.addOk fun _ => ?_
    exact ⟨handlerFrame_user h2.frame signal haction _, h2.record, h2.cpu⟩

lemma restored_flags (flags : Bits) :
    ((flags &&& 0x8D5) ||| 0x202) &&& INTERRUPT_FLAG = INTERRUPT_FLAG ∧
      ((flags &&& 0x8D5) ||| 0x202) &&& IO_PRIVILEGE = 0 := by
  constructor
  · rw [BitVec.and_or_distrib_right, BitVec.and_assoc]
    simp [INTERRUPT_FLAG]
  · rw [BitVec.and_or_distrib_right, BitVec.and_assoc]
    simp [IO_PRIVILEGE]

lemma TrapFrame.restore_user (h : UserFrame f) {word : Nat → Nat}
    (hrip : Canonical (word SC_RIP)) : UserFrame (f.restore word) :=
  ⟨hrip, h.cs, h.ss, (restored_flags _).1, (restored_flags _).2⟩

lemma Thread.Safe.setFrame (h : t.Safe) (hf : UserFrame f) (blocked : Bits) :
    ((t.setFrame f).setBlocked blocked).Safe :=
  ⟨hf, h.record, h.cpu⟩

lemma Thread.Safe.setSigStack (h : t.Safe) (alt : SigAltStack) : (t.setSigStack alt).Safe :=
  ⟨h.frame, h.record, h.cpu⟩

lemma Thread.Safe.loadFpu (h : t.Safe) (c : Prop) [Decidable c] (fpu : Bytes) :
    (if c then t.loadFpu fpu else t).Safe := by
  split
  · exact ⟨h.frame, ⟨h.record.fs, h.record.gs⟩, ⟨h.cpu.fs, h.cpu.gs⟩⟩
  · exact h

lemma restoreAltStack_guards (h : t.Safe) (buf : Bytes) (sp : Nat) :
    Guards Thread.Safe (restoreAltStack buf sp) t := by
  rw [Guards, restoreAltStack, get_bind_run]
  refine ((t.sigStack.contains_same sp t).mono (fun _ _ h => h) fun _ _ hs => hs ▸ h).bind ?_
  rintro inside t1 rfl
  exact .ite (fun _ => h) fun _ => h.setSigStack _

/-- the address in the frame read is the one returned to -/
lemma leaveSignalHandler_guards (h : t.Safe)
    (hrip : ∀ bytes, (readBytesIn S (frameBase t) FRAME_SIZE t.mem).1 = .ok bytes →
      Canonical (get64 (ofList bytes) (MCONTEXT + SC_RIP))) :
    Guards Thread.Safe (leaveSignalHandler S) t := by
  rw [Guards, leaveSignalHandler, get_bind_run]
  refine (onMem_reads h _).bind ?_
  rintro bytes t1 ⟨h1, hbytes⟩
  rw [restoreFrom, modify_bind_run, restoredFrame]
  have hframe : UserFrame (t1.frame.restore fun offset => get64 (ofList bytes) (MCONTEXT + offset)) :=
    TrapFrame.restore_user h1.frame (hrip bytes hbytes)
  refine (restoreAltStack_guards (h1.setFrame hframe _) _ _).bind fun _ t2 h2 => ?_
  rw [modify_bind_run]
  exact h2.loadFpu _ _

lemma installStack_guards (h : t.Safe) (asked : SigAltStack) :
    Guards Thread.Safe (installStack asked) t :=
  .ite (fun _ => h) fun _ => .ite (fun _ => ⟨h.frame, h.record, h.cpu⟩) fun _ =>
    .ite (fun _ => h) fun _ => ⟨h.frame, h.record, h.cpu⟩

lemma sigaltstack_guards (h : t.Safe) (new old : Nat) :
    Guards Thread.Safe (sigaltstack S new old) t := by
  rw [Guards, sigaltstack, get_bind_run]
  refine ((t.sigStack.contains_same _ t).mono (fun _ _ h => h) fun _ _ hs => hs ▸ h).bind ?_
  rintro onIt t1 rfl
  have hreport : Guards Thread.Safe (if old ≠ 0 then
      t1.sigStack.flagsAt t1.frame.rsp >>= fun flags => onMem
        (writeStruct S old (stackBytes ⟨t1.sigStack.ssSp, flags, t1.sigStack.ssSize⟩))
      else Pure.pure ()) t1 :=
    .ite (fun _ => (Guards.of_same h (t1.sigStack.flagsAt_same _ t1)).bind fun _ _ h2 =>
      onMem_guards h2 _) fun _ => h
  refine hreport.bind fun _ t2 h2 => .ite (fun _ => h2) fun _ => .ite (fun _ => h2) fun _ => ?_
  exact (onMem_guards h2 _).bind fun bytes t3 h3 => installStack_guards h3 _

end

/-! ## every call -/

section
variable {S} {s : System σ}

lemma canonical_zero : Canonical 0 := .inl (by decide)
lemma Bases.zero : Bases ⟨0, 0, initialFpu⟩ := ⟨canonical_zero, canonical_zero⟩
lemma Task.Safe.exit (h : t.Safe) : t.exit.Safe := ⟨h.frame, h.handlers, h.record⟩

lemma Task.Safe.setAction (h : t.Safe) (signal : Nat) (haction : Canonical action.handler) :
    (t.setAction signal action).Safe := by
  refine ⟨h.frame, fun other => ?_, h.record⟩
  show Canonical (update t.actions signal action other).handler
  by_cases heq : other = signal
  · rw [heq, update_self]
    exact haction
  · rw [update_of_ne heq]
    exact h.handlers other

section
variable (h : s.Safe)
include h

namespace System.Safe

lemma setMe {me : Task} (hme : me.Safe) : (s.setMe me).Safe := ⟨hme, h.rest, h.cpu, h.log⟩

lemma thread : s.thread.Safe := ⟨h.me.frame, h.me.record, h.cpu⟩

lemma putThread {t : Thread σ} (ht : t.Safe) : (s.putThread t).Safe :=
  ⟨⟨ht.frame, h.me.handlers, ht.record⟩, h.rest, ht.cpu, h.log⟩

lemma emit {e : Emit} (he : e.Taken) : ∀ e' ∈ s.log ++ [e], e'.Taken := by
  intro e' he'
  rcases mem_append.mp he' with he' | he'
  · exact h.log e' he'
  · exact mem_singleton.mp he' ▸ he

lemma writeFs (hvalue : Canonical value) : (s.writeFs value).Safe :=
  ⟨h.me, h.rest, ⟨hvalue, h.cpu.gs⟩, h.emit (e := .wroteFs value) hvalue⟩

lemma writeGs (hvalue : Canonical value) : (s.writeGs value).Safe :=
  ⟨h.me, h.rest, ⟨h.cpu.fs, hvalue⟩, h.emit (e := .wroteGs value) hvalue⟩

end System.Safe

lemma onMemory_guards (m : Uaccess.Access σ α) : Guards System.Safe (onMemory m) s :=
  Post.lift (Allows.of_forall fun _ => { h with })

lemma onMemory_reads (m : Uaccess.Access σ α) : Allows
    (fun a s1 => s1.Safe ∧ m s.mem = (.ok a, s1.mem)) (fun _ => System.Safe) (onMemory m s) :=
  Post.lift (Allows.self.mono (fun _ _ heq => ⟨{ h with }, heq⟩) fun _ _ _ => { h with })

lemma onThread_guards {m : Signalled σ α} (hm : Guards Thread.Safe m s.thread) :
    Guards System.Safe (onThread m) s :=
  Post.lift (hm.mono (fun _ _ ht => h.putThread ht) fun _ _ ht => h.putThread ht)

/-- the handler in the action read is the one stored -/
lemma rtSigaction_guards {signal : Int} {act old : Nat} (hact : act ≠ 0 → ∀ bytes,
      (readBytesIn S act 32 (reported S s signal.toNat old)).1 = .ok bytes →
        Canonical (actionOf bytes).handler) :
    Guards System.Safe (rtSigaction S signal act old) s := by
  refine .ite (fun _ => h) fun _ => .ite (fun _ => h) fun _ => ?_
  rw [get_bind_run]
  have hold : Allows (fun _ s1 => s1.Safe ∧ s1.mem = reported S s signal.toNat old)
      (fun _ => System.Safe) ((if old ≠ 0 then
      onMemory (writeBytesIn S old (actionBytes (s.me.actions signal.toNat)))
      else Pure.pure ()) s) := by
    refine .ite (fun hne => ?_) fun hnot => ⟨h, (if_neg hnot).symm⟩
    refine (onMemory_reads h _).mono (fun _ s1 h1 => ⟨h1.1, ?_⟩) fun _ _ h1 => h1
    rw [reported, if_pos hne, h1.2]
  refine hold.bind ?_
  rintro _ s1 ⟨h1, hmem⟩
  refine .ite (fun hne => ?_) fun _ => h1
  refine (onMemory_reads h1 _).bind ?_
  rintro bytes s2 ⟨h2, hbytes⟩
  exact h2.setMe (h2.me.setAction _ (hact hne bytes (by rw [← hmem, hbytes])))

lemma deliver_guards (signal : Nat) (fault : Option Fault) :
    Guards System.Safe (deliver S signal fault) s := by
  rw [Guards, deliver, get_bind_run]
  refine .ite (fun _ => h) fun _ => ?_
  have hreset : Guards System.Safe (if has (s.me.actions signal).flags SA_RESETHAND then
      modify (fun s => s.setMe (s.me.setAction signal .default)) else Pure.pure ()) s :=
    .ite (fun _ => h.setMe (h.me.setAction signal canonical_zero)) fun _ => h
  refine hreset.bind fun _ s1 h1 => ?_
  refine (onThread_guards h1 (enterSignalHandler_guards h1.thread signal (h.me.handlers signal)
    fault)).bind fun entered s2 h2 => ?_
  exact .ite (fun _ => h2) fun _ => h2.setMe h2.me.exit

lemma archPrctl_guards {code addr : Nat}
    (haddr : code = ARCH_SET_FS ∨ code = ARCH_SET_GS → Canonical addr) :
    Guards System.Safe (archPrctl S code addr) s := by
  refine .ite (fun hcode => ?_) fun _ => .ite (fun hcode => ?_) fun _ =>
    .ite (fun _ => onMemory_guards h _) fun _ => .ite (fun _ => onMemory_guards h _) fun _ => h
  · have hcanonical := haddr (.inl hcode)
    exact (h.writeFs hcanonical).setMe ⟨h.me.frame, h.me.handlers, hcanonical, h.me.record.gs⟩
  · have hcanonical := haddr (.inr hcode)
    exact (h.writeGs hcanonical).setMe ⟨h.me.frame, h.me.handlers, h.me.record.fs, hcanonical⟩

lemma tellTid_guards (args : CloneArgs) (flag : Bits) (addr : Nat) :
    Guards System.Safe (tellTid S args flag addr) s :=
  .ite (fun _ => (Post.attempt (Q := fun _ => System.Safe) (onMemory_guards h _)).bind
    fun _ _ h => h) fun _ => h

lemma childOf_safe (htls : has args.flags CLONE_SETTLS = true → Canonical args.tls) :
    (childOf args s).Safe := by
  refine ⟨⟨h.me.frame.rip, h.me.frame.cs, h.me.frame.ss, h.me.frame.interrupts,
    h.me.frame.privilege⟩, h.me.handlers, ⟨?_, h.cpu.gs⟩⟩
  show Canonical (if has args.flags CLONE_SETTLS then args.tls else s.cpu.fsBase)
  split
  · rename_i hset
    exact htls hset
  · exact h.cpu.fs

lemma clone_guards (room : Bool) (htls : has args.flags CLONE_SETTLS = true → Canonical args.tls) :
    Guards System.Safe (clone S args room) s := by
  refine .ite (fun _ => h) fun _ => ?_
  rw [get_bind_run]
  refine (tellTid_guards h args _ _).bind fun _ s1 h1 => ?_
  refine (tellTid_guards h1 args _ _).bind fun _ s2 h2 => ?_
  refine ⟨h2.me, fun t ht => ?_, h2.cpu, h2.log⟩
  rcases mem_cons.mp ht with rfl | ht
  · exact childOf_safe h htls
  · exact h2.rest t ht

end

lemma startUserAt_user (hentry : Canonical entry) (stack : Nat) :
    UserFrame (startUserAt entry stack) :=
  ⟨hentry, rfl, rfl, (by decide : (0x202 : Bits) &&& INTERRUPT_FLAG = INTERRUPT_FLAG),
    (by decide : (0x202 : Bits) &&& IO_PRIVILEGE = 0)⟩

lemma resetActions_canonical {actions : Nat → SigAction}
    (h : ∀ signal, Canonical (actions signal).handler) (signal : Nat) :
    Canonical (resetActions actions signal).handler := by
  rw [resetActions]
  split
  · exact h signal
  · exact canonical_zero

lemma exec_guards (h : s.Safe) {loaded : Except Errno (Nat × Nat)}
    (hentry : ∀ image, loaded = .ok image → Canonical image.1) :
    Guards System.Safe (exec loaded) s := by
  cases loaded with
  | error e => exact h
  | ok image =>
    have hfpu : (s.setFpu initialFpu).Safe := ⟨h.me, h.rest, ⟨h.cpu.fs, h.cpu.gs⟩, h.log⟩
    refine (hfpu.writeFs canonical_zero).setMe ⟨startUserAt_user (hentry image rfl) _, ?_, ?_⟩
    · exact resetActions_canonical h.me.handlers
    · exact ⟨canonical_zero, h.me.record.gs⟩

lemma KernelCall.safe (h : s.Safe) {c : KernelCall} (hchosen : Chosen S s c)
    (hends : (c.run S s).1 ≠ .stopped) : (c.run S s).2.Safe := by
  cases c with
  | rtSigaction signal act old => exact (rtSigaction_guards h hchosen).snd hends
  | sigaltstack new old =>
    have hcall : Guards System.Safe ((KernelCall.sigaltstack new old).run S) s :=
      (onThread_guards h (sigaltstack_guards h.thread new old)).bind fun _ _ h => h
    exact hcall.snd hends
  | deliver signal fault => exact (deliver_guards h signal fault).snd hends
  | rtSigreturn =>
    have hcall : Guards System.Safe (KernelCall.rtSigreturn.run S) s :=
      (onThread_guards h (leaveSignalHandler_guards h.thread hchosen)).bind fun _ _ h => h
    exact hcall.snd hends
  | archPrctl code addr => exact (archPrctl_guards h hchosen).snd hends
  | clone args room => exact (clone_guards h room hchosen).snd hends
  | exec loaded => exact (exec_guards h hchosen).snd hends
  | exit => exact h.setMe h.me.exit

end

/-! ## every run -/

def System.boot (entry stack : Nat) (mem : σ) : System σ :=
  ⟨⟨startUserAt entry stack, .default, 0, fun _ => .default, ⟨0, 0, initialFpu⟩, false⟩, [],
    ⟨0, 0, initialFpu⟩, mem, [], false⟩

lemma System.boot_safe (hentry : Canonical entry) (stack : Nat) (mem : σ) :
    (System.boot entry stack mem).Safe :=
  ⟨⟨startUserAt_user hentry stack, fun _ => canonical_zero, .zero⟩,
    fun _ h => absurd h not_mem_nil, .zero, fun _ h => absurd h not_mem_nil⟩

lemma System.Safe.switchTo (h : s.Safe) {next : Task} {others : List Task}
    (hperm : s.rest.Perm (next :: others)) (mem : σ) : (s.switchTo next others mem).Safe := by
  have hnext : next.Safe := h.rest next (hperm.mem_iff.mpr mem_cons_self)
  refine ⟨hnext, fun t ht => ?_, hnext.record, fun e he => ?_⟩
  · rcases mem_cons.mp ht with rfl | ht
    · exact ⟨h.me.frame, h.me.handlers, h.cpu⟩
    · exact h.rest t (hperm.mem_iff.mpr (mem_cons_of_mem _ ht))
  · rcases mem_append.mp he with he | he
    · exact h.log e he
    · rcases mem_pair.mp he with rfl | rfl
      · exact hnext.record.fs
      · exact hnext.record.gs

lemma UserFrame.trapped {before after : TrapFrame} (h : UserFrame before)
    (htrap : Trapped before after) (hrip : Canonical after.rip) : UserFrame after :=
  ⟨hrip, htrap.cs, htrap.ss, htrap.interrupts.trans h.interrupts, htrap.privilege.trans h.privilege⟩

lemma Running.safe {S : Space σ} {start : System σ} (hstart : start.Safe)
    (h : Running S (Chosen S) Canonical start s) : s.Safe := by
  induction h with
  | start => exact hstart
  | call _ _ hchosen hends ih => exact KernelCall.safe ih hchosen hends
  | switch mem _ _ hperm _ ih => exact ih.switchTo hperm mem
  | leave _ _ _ ih => exact ⟨ih.me, ih.rest, ih.cpu, ih.emit (e := .returned _) ih.me.frame⟩
  | enter frame cpu mem _ _ htrap hrip hfs hgs ih =>
    exact ⟨⟨ih.me.frame.trapped htrap hrip, ih.me.handlers, ih.me.record⟩, ih.rest, ⟨hfs, hgs⟩, ih.log⟩

/-- **the processor takes every frame and every base it is given**, in every run whose chosen values
are canonical -/
theorem returns_safe {S : Space σ} {entry : Nat} (hentry : Canonical entry) {stack : Nat} {mem : σ}
    {s : System σ} (h : Running S (Chosen S) Canonical (.boot entry stack mem) s) :
    ∀ e ∈ s.log, e.Taken :=
  (h.safe (System.boot_safe hentry stack mem)).log

/-! ### a program that makes one call -/

def firstFrame : TrapFrame := startUserAt 0x400000 0x7FFFFFFFE000

def firstCall : System Unit :=
  ⟨⟨firstFrame, .default, 0, fun _ => .default, ⟨0, 0, initialFpu⟩, false⟩, [],
    ⟨0, 0, initialFpu⟩, (), [.returned firstFrame], false⟩

lemma firstCall_running {S : Space Unit} {ok : System Unit → KernelCall → Prop}
    {trap : Nat → Prop} (htrap : trap 0x400000) :
    Running S ok trap (.boot 0x400000 0x7FFFFFFFE000 ()) firstCall :=
  .enter firstFrame ⟨0, 0, initialFpu⟩ () (.leave .start rfl rfl) rfl ⟨rfl, rfl, rfl, rfl⟩ htrap
    canonical_zero canonical_zero

/-- a program sets its thread pointer -/
theorem returns_safe_threadPointer :
    (Emit.returned firstFrame).Taken ∧ (Emit.wroteFs 0x7F0000000000).Taken := by
  have hcall := returns_safe (S := openSpace)
    (show Canonical 0x400000 from .inl (by decide))
    (.call (c := .archPrctl ARCH_SET_FS 0x7F0000000000) (firstCall_running (.inl (by decide))) rfl
      (fun _ => .inl (by decide)) (fun h => nomatch h))
  exact ⟨hcall _ (mem_append_left _ (mem_singleton_self _)),
    hcall _ (mem_append_right _ (mem_singleton_self _))⟩

def evenMemory : Space Unit where
  gap s := s
  accessPage _ _ s := (.ready, s)
  faultIn _ s := (true, s)
  load _ s := (0x80, s)
  store _ _ s := s

/-- **programs choose what the processor does not take**: a thread pointer of `arch_prctl`, and the
address in a frame for `rt_sigreturn` -/
theorem returns_unsafe : (∃ s, Running openSpace (fun _ _ => True) (fun _ => True)
      (.boot 0x400000 0x7FFFFFFFE000 ()) s ∧ ∃ value, .wroteFs value ∈ s.log ∧ ¬ Canonical value) ∧
    ∃ s, Running evenMemory (fun _ _ => True) (fun _ => True) (.boot 0x400000 0x7FFFFFFFE000 ()) s ∧
      ∃ frame, .returned frame ∈ s.log ∧ ¬ Canonical frame.rip := by
  constructor
  · refine ⟨_, .call (c := .archPrctl ARCH_SET_FS (2 ^ 63)) (firstCall_running trivial) rfl trivial
      (fun h => nomatch h), 2 ^ 63, ?_, by decide⟩
    exact mem_append_right _ (mem_singleton_self _)
  · have hends : ((KernelCall.rtSigreturn).run evenMemory firstCall).1 ≠ .stopped := by
      decide +kernel
    have hexited : ((KernelCall.rtSigreturn).run evenMemory firstCall).2.me.exited = false := by
      decide +kernel
    have huser : ((KernelCall.rtSigreturn).run evenMemory firstCall).2.inUser = false := by
      decide +kernel
    refine ⟨_, .leave (.call (c := .rtSigreturn) (firstCall_running trivial) rfl trivial hends) huser
      hexited, _, mem_append_right _ (mem_singleton_self _), ?_⟩
    decide +kernel

end ClaudeOs.Signal
