import ClaudeOs.Uaccess

/-!
# Signal frames on x86-64

The frame of `arch::x86_64::signal_frame`: written to the user stack when a handler is entered, and
read back by `rt_sigreturn`; with the alternate stack of `sigaltstack` that it may be written to.

* `Bytes`, `put64`, `get64`  a buffer, and the words in it;
* `TrapFrame`, `Thread`  the registers of a program, and what the task keeps;
* `SigAltStack`  the stack a handler may ask for;
* `sigaltstack`, `enterSignalHandler`,
  `leaveSignalHandler`                      the three calls.
-/

namespace ClaudeOs.Signal
open Mm Call

/-! ## buffers -/

abbrev Bytes := Nat → UInt8

/-- `n` bytes of a value from an offset on, low byte first -/
def putBytes (n : Nat) (buf : Bytes) (offset value : Nat) : Bytes := fun i =>
  if offset ≤ i ∧ i < offset + n then UInt8.ofNat (value / 256 ^ (i - offset) % 256) else buf i

def put64 : Bytes → Nat → Nat → Bytes := putBytes 8

def getBytes (buf : Bytes) (offset : Nat) : Nat → Nat
  | 0 => 0
  | n + 1 => getBytes buf offset n + (buf (offset + n)).toNat * 256 ^ n

def get64 (buf : Bytes) (offset : Nat) : Nat := getBytes buf offset 8
def ofList (bytes : List UInt8) : Bytes := fun i => bytes.getD i 0

/-! ## the task -/

/-- the registers of a program on its way into or out of the kernel -/
structure TrapFrame where
  rax : Nat
  rbx : Nat
  rcx : Nat
  rdx : Nat
  rsi : Nat
  rdi : Nat
  rbp : Nat
  r8 : Nat
  r9 : Nat
  r10 : Nat
  r11 : Nat
  r12 : Nat
  r13 : Nat
  r14 : Nat
  r15 : Nat
  vector : Nat
  errorCode : Nat
  rip : Nat
  cs : Nat
  rflags : Bits
  rsp : Nat
  ss : Nat

structure SigAltStack where
  ssSp : Nat
  ssFlags : BitVec 32
  ssSize : Nat
deriving DecidableEq, Repr

structure SigAction where
  handler : Nat
  flags : Bits
  restorer : Nat
  mask : Bits

structure Fault where
  code : Nat
  address : Nat

/-- register state that the frame on the kernel stack does not hold -/
structure TaskContext where
  fsBase : Nat
  gsBase : Nat
  fpu : Bytes

/-- a task as signals see it: its record, its registers and its memory -/
structure Thread (σ : Type) where
  frame : TrapFrame
  sigStack : SigAltStack
  blocked : Bits
  record : TaskContext
  cpu : TaskContext
  mem : σ

def SA_ONSTACK : Bits := 0x08000000
def SA_NODEFER : Bits := 0x40000000
def SS_ONSTACK : BitVec 32 := 1
def SS_DISABLE : BitVec 32 := 2
def MIN_ALT_STACK : Nat := 2048

namespace SigAltStack

def default : SigAltStack := ⟨0, 0, 0⟩

variable {ε τ : Type} (alt : SigAltStack)

def installed : Bool := alt.ssSize != 0

/-- whether a stack pointer is inside; the end is added up only for one at or above the start -/
def contains (sp : Nat) : Call ε τ Bool :=
  if alt.installed && decide (alt.ssSp ≤ sp) then
    addOk alt.ssSp alt.ssSize >>= fun _ => Pure.pure (decide (sp < alt.ssSp + alt.ssSize))
  else Pure.pure false

def flagsAt (sp : Nat) : Call ε τ (BitVec 32) :=
  if !alt.installed then Pure.pure SS_DISABLE
  else alt.contains sp >>= fun inside => Pure.pure (if inside then SS_ONSTACK else 0)

def Fits : Prop := alt.ssSp + alt.ssSize < WORD

instance : Decidable alt.Fits := Nat.decLt _ _

lemma default_fits : SigAltStack.default.Fits := by decide

variable {alt}

lemma contains_fits (h : alt.Fits) (sp : Nat) : (alt.contains sp : Call ε τ Bool) =
      Pure.pure (alt.installed && decide (alt.ssSp ≤ sp) && decide (sp < alt.ssSp + alt.ssSize)) := by
  rw [contains]
  cases hin : alt.installed && decide (alt.ssSp ≤ sp) with
  | true =>
    rw [if_pos rfl, addOk_bind h]
    rfl
  | false =>
    rw [if_neg Bool.false_ne_true]
    rfl

end SigAltStack

namespace Thread
variable {σ : Type} (t : Thread σ)

def setMem (mem : σ) : Thread σ := ⟨t.frame, t.sigStack, t.blocked, t.record, t.cpu, mem⟩
def setSigStack (alt : SigAltStack) : Thread σ := ⟨t.frame, alt, t.blocked, t.record, t.cpu, t.mem⟩

def setFrame (frame : TrapFrame) : Thread σ :=
  ⟨frame, t.sigStack, t.blocked, t.record, t.cpu, t.mem⟩

def setBlocked (blocked : Bits) : Thread σ :=
  ⟨t.frame, t.sigStack, blocked, t.record, t.cpu, t.mem⟩

def saveFpu : Thread σ :=
  ⟨t.frame, t.sigStack, t.blocked, ⟨t.record.fsBase, t.record.gsBase, t.cpu.fpu⟩, t.cpu, t.mem⟩

def loadFpu (fpu : Bytes) : Thread σ :=
  ⟨t.frame, t.sigStack, t.blocked, ⟨t.record.fsBase, t.record.gsBase, fpu⟩,
    ⟨t.cpu.fsBase, t.cpu.gsBase, fpu⟩, t.mem⟩

section
variable (frame : TrapFrame) (blocked : Bits)

@[simp] lemma setFrame_sigStack : (t.setFrame frame).sigStack = t.sigStack := rfl
@[simp] lemma setBlocked_sigStack : (t.setBlocked blocked).sigStack = t.sigStack := rfl

end
end Thread

abbrev Signalled (σ α : Type) : Type := Call Errno (Thread σ) α

variable {σ : Type} (S : Space σ)

def onMem {α : Type} (m : Uaccess.Access σ α) : Signalled σ α :=
  Call.lift Thread.mem (fun mem t => t.setMem mem) m

/-! ## the frame -/

def UC_OFFSET : Nat := 8
def UC_FLAGS : Nat := UC_OFFSET
def UC_LINK : Nat := UC_OFFSET + 8
def UC_STACK : Nat := UC_OFFSET + 16
def MCONTEXT : Nat := UC_OFFSET + 40
def UC_SIGMASK : Nat := MCONTEXT + 256
def INFO_OFFSET : Nat := UC_SIGMASK + 8
def FPSTATE_OFFSET : Nat := INFO_OFFSET + 128
def FPU_STATE_SIZE : Nat := 512
def FRAME_SIZE : Nat := FPSTATE_OFFSET + FPU_STATE_SIZE
def SC_RAX : Nat := 104
def SC_RSP : Nat := 120
def SC_RIP : Nat := 128
def SC_EFLAGS : Nat := 136
def SC_CS : Nat := 144
def SC_CR2 : Nat := 176
def SC_FPSTATE : Nat := 184

def registers (f : TrapFrame) : List (Nat × Nat) :=
  [(0, f.r8), (8, f.r9), (16, f.r10), (24, f.r11), (32, f.r12), (40, f.r13), (48, f.r14),
    (56, f.r15), (64, f.rdi), (72, f.rsi), (80, f.rbp), (88, f.rbx), (96, f.rdx), (SC_RAX, f.rax),
    (112, f.rcx), (SC_RSP, f.rsp), (SC_RIP, f.rip), (SC_EFLAGS, f.rflags.toNat)]

def putAll (buf : Bytes) (words : List (Nat × Nat)) : Bytes :=
  words.foldl (fun buf word => put64 buf word.1 word.2) buf

def signalFrame (t : Thread σ) (signal : Nat) (action : SigAction) (fault : Option Fault)
    (altFlags : BitVec 32) (sp : Nat) : Bytes :=
  let buf := putAll (fun _ => 0) [(0, action.restorer), (UC_FLAGS, 0), (UC_LINK, 0),
    (UC_STACK, t.sigStack.ssSp), (UC_STACK + 8, altFlags.toNat), (UC_STACK + 16, t.sigStack.ssSize)]
  let buf := putAll buf ((registers t.frame).map fun word => (MCONTEXT + word.1, word.2))
  let buf := putBytes 2 buf (MCONTEXT + SC_CS) t.frame.cs
  let buf := put64 buf UC_SIGMASK t.blocked.toNat
  let buf : Bytes := fun i =>
    if FPSTATE_OFFSET ≤ i ∧ i < FRAME_SIZE then t.cpu.fpu (i - FPSTATE_OFFSET) else buf i
  let buf := put64 buf (MCONTEXT + SC_FPSTATE) (sp + FPSTATE_OFFSET)
  let buf := putBytes 4 buf INFO_OFFSET signal
  let buf := putBytes 4 buf (INFO_OFFSET + 4) 0
  let buf := putBytes 4 buf (INFO_OFFSET + 8) (fault.elim 0 Fault.code)
  putAll buf [(INFO_OFFSET + 16, fault.elim 0 Fault.address),
    (MCONTEXT + SC_CR2, fault.elim 0 Fault.address)]

/-- where a frame below `top` goes: a word below sixteen, as a call would have left it -/
def frameBelow (top : Nat) : Nat := ((top - FRAME_SIZE) / 16 * 16 + (WORD - 8)) % WORD

def handlerTop (t : Thread σ) (action : SigAction) : Signalled σ Nat :=
  if has action.flags SA_ONSTACK && t.sigStack.installed then
    t.sigStack.contains t.frame.rsp >>= fun inside =>
      if !inside then
        addOk t.sigStack.ssSp t.sigStack.ssSize >>= fun _ =>
          Pure.pure (t.sigStack.ssSp + t.sigStack.ssSize)
      else Pure.pure (t.frame.rsp - 128)
  else Pure.pure (t.frame.rsp - 128)

def handlerFrame (f : TrapFrame) (signal : Nat) (action : SigAction) (sp : Nat) : TrapFrame :=
  ⟨0, f.rbx, f.rcx, sp + UC_OFFSET, sp + INFO_OFFSET, signal, f.rbp, f.r8, f.r9, f.r10, f.r11, f.r12,
    f.r13, f.r14, f.r15, f.vector, f.errorCode, action.handler, f.cs, f.rflags, sp, f.ss⟩

def handlerBlocked (blocked : Bits) (signal : Nat) (action : SigAction) : Bits :=
  let blocked := blocked ||| action.mask
  if has action.flags SA_NODEFER then blocked else blocked ||| (1#64 <<< (signal - 1))

/-- build a frame and enter the handler; false when the frame could not be written -/
def enterSignalHandler (signal : Nat) (action : SigAction) (fault : Option Fault) :
    Signalled σ Bool :=
  if action.restorer = 0 then Pure.pure false
  else get >>= fun t =>
    handlerTop t action >>= fun top => t.sigStack.flagsAt t.frame.rsp >>= fun altFlags =>
      modify (·.saveFpu) >>= fun _ => addOk (frameBelow top) FPSTATE_OFFSET >>= fun _ =>
        attempt (onMem (Uaccess.writeBytesIn S (frameBelow top) ((List.range FRAME_SIZE).map
          (signalFrame t signal action fault altFlags (frameBelow top))))) >>= fun written =>
            match written with
            | .error _ => Pure.pure false
            | .ok () =>
              addOk (frameBelow top) INFO_OFFSET >>= fun _ =>
                addOk (frameBelow top) UC_OFFSET >>= fun _ =>
                  modify (fun t => (t.setBlocked (handlerBlocked t.blocked signal action)).setFrame
                    (handlerFrame t.frame signal action (frameBelow top))) >>= fun _ =>
                      Pure.pure true

/-- registers from the words of a saved context; only the flags a program may set are taken -/
def TrapFrame.restore (f : TrapFrame) (word : Nat → Nat) : TrapFrame :=
  ⟨word SC_RAX, word 88, word 112, word 96, word 72, word 64, word 80, word 0, word 8, word 16,
    word 24, word 32, word 40, word 48, word 56, f.vector, f.errorCode, word SC_RIP, f.cs,
    (BitVec.ofNat 64 (word SC_EFLAGS) &&& 0x8D5) ||| 0x202, word SC_RSP, f.ss⟩

def restoredFrame (f : TrapFrame) (buf : Bytes) : TrapFrame :=
  f.restore fun offset => get64 buf (MCONTEXT + offset)

def restoredStack (buf : Bytes) : SigAltStack :=
  if BitVec.ofNat 32 (get64 buf (UC_STACK + 8)) &&& SS_DISABLE ≠ 0 ∨
      get64 buf (UC_STACK + 16) < MIN_ALT_STACK then .default
  else ⟨get64 buf UC_STACK, 0, get64 buf (UC_STACK + 16)⟩

/-- a handler still standing on the stack cannot have it taken away -/
def restoreAltStack (buf : Bytes) (sp : Nat) : Signalled σ Unit :=
  get >>= fun t => t.sigStack.contains sp >>= fun inside =>
    if inside then Pure.pure () else modify (·.setSigStack (restoredStack buf))

/-- the floating point image of a frame, without the control bits the hardware would fault on -/
def restoredFpu (buf : Bytes) : Bytes := fun i =>
  if i = 24 then buf (FPSTATE_OFFSET + 24) &&& 0xBF
  else if i = 26 ∨ i = 27 then 0
  else buf (FPSTATE_OFFSET + i)

/-- where `rt_sigreturn` reads the frame from: the restorer was reached by returning into it -/
def frameBase (t : Thread σ) : Nat := (t.frame.rsp + (WORD - 8)) % WORD

def restoreFrom (buf : Bytes) (base : Nat) : Signalled σ Nat :=
  modify (fun t => (t.setFrame (restoredFrame t.frame buf)).setBlocked
    (BitVec.ofNat 64 (get64 buf UC_SIGMASK))) >>= fun _ =>
      restoreAltStack buf base >>= fun _ =>
        modify (fun t => if get64 buf (MCONTEXT + SC_FPSTATE) ≠ 0 then t.loadFpu (restoredFpu buf)
          else t) >>= fun _ => Pure.pure (get64 buf (MCONTEXT + SC_RAX))

def leaveSignalHandler : Signalled σ Nat :=
  get >>= fun t => onMem (Uaccess.readBytesIn S (frameBase t) FRAME_SIZE) >>= fun bytes =>
    restoreFrom (ofList bytes) (frameBase t)

/-! ## the alternate stack -/

def stackBytes (alt : SigAltStack) : List UInt8 :=
  (List.range 24).map (putAll (fun _ => 0) [(0, alt.ssSp), (8, alt.ssFlags.toNat), (16, alt.ssSize)])

def askedStack (bytes : List UInt8) : SigAltStack :=
  ⟨get64 (ofList bytes) 0, BitVec.ofNat 32 (getBytes (ofList bytes) 8 4), get64 (ofList bytes) 16⟩

def installStack (asked : SigAltStack) : Signalled σ Nat :=
  if asked.ssFlags &&& ~~~(SS_ONSTACK ||| SS_DISABLE) ≠ 0 then fail .EINVAL
  else if asked.ssFlags &&& SS_DISABLE ≠ 0 then
    modify (·.setSigStack .default) >>= fun _ => Pure.pure 0
  else if asked.ssSize < MIN_ALT_STACK then fail .ENOMEM
  else modify (·.setSigStack ⟨asked.ssSp, 0, asked.ssSize⟩) >>= fun _ => Pure.pure 0

def sigaltstack (new old : Nat) : Signalled σ Nat :=
  get >>= fun t =>
    t.sigStack.contains t.frame.rsp >>= fun onIt =>
      (if old ≠ 0 then
        t.sigStack.flagsAt t.frame.rsp >>= fun flags => onMem
          (Uaccess.writeStruct S old (stackBytes ⟨t.sigStack.ssSp, flags, t.sigStack.ssSize⟩))
      else Pure.pure ()) >>= fun _ =>
        if new = 0 then Pure.pure 0
        else if onIt then fail .EPERM
        else onMem (Uaccess.readStruct S new 24) >>= fun bytes => installStack (askedStack bytes)

end ClaudeOs.Signal
