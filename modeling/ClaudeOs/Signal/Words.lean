import ClaudeOs.Signal.Frame

/-!
# The sums of signal delivery

A handler is entered below the stack pointer of the program or below the end of its alternate stack,
both of which the program chose.  The end of the alternate stack is added up without a check, and so
are the addresses in the frame; `frameBelow` saturates at zero and then wraps to the last page.

* `SignalCall`  the calls and the delivery, on a task;
* `SignalFits`  stacks that end at a word, and frames below the last page;
* `Signalling`  a task that makes them, with its program running in between;
* `Signalling.words`  none of them stops the machine.
-/

namespace ClaudeOs.Signal
open Mm Call Post

inductive SignalCall where
  | sigaltstack (new old : Nat)
  | rtSigreturn
  | deliver (signal : Nat) (action : SigAction) (fault : Option Fault)

variable {σ : Type} (S : Space σ)

def SignalCall.run : SignalCall → Signalled σ Unit
  | .sigaltstack new old => Signal.sigaltstack S new old >>= fun _ => Pure.pure ()
  | .rtSigreturn => leaveSignalHandler S >>= fun _ => Pure.pure ()
  | .deliver signal action fault =>
    enterSignalHandler S signal action fault >>= fun _ => Pure.pure ()

def stackTop (t : Thread σ) (action : SigAction) : Nat :=
  let alt := t.sigStack
  let inside := decide (alt.ssSp ≤ t.frame.rsp) && decide (t.frame.rsp < alt.ssSp + alt.ssSize)
  if has action.flags SA_ONSTACK && alt.installed && !inside then alt.ssSp + alt.ssSize
  else t.frame.rsp - 128

/-- the stack a call installs ends at a word, and no frame is in the last page -/
def SignalFits (t : Thread σ) : SignalCall → Prop
  | .sigaltstack new old => ((SignalCall.sigaltstack new old).run S t).2.sigStack.Fits
  | .rtSigreturn => (SignalCall.rtSigreturn.run S t).2.sigStack.Fits ∧
    (WORD ≤ frameBase t + FRAME_SIZE ∨ ¬ Uaccess.InTopPage (frameBase t))
  | .deliver _ action _ => ¬ Uaccess.InTopPage (frameBelow (stackTop t action))

/-! ## one call -/

abbrev Ends {τ α : Type} (m : Call Errno τ α) (t : τ) : Prop :=
  Outcome.Holds (fun _ _ => True) (fun _ _ => True) (m t)

variable {S} {t : Thread σ}

lemma onMem_ends {α : Type} {m : Uaccess.Access σ α} {Q : α → σ → Prop}
    (h : ∀ mem, Uaccess.Tally.Touches (.blind S) True Q m mem) (t : Thread σ) : Ends (onMem m) t :=
  lift (((h t.mem).holds trivial).mono (fun _ _ _ => trivial) fun _ _ _ => trivial)

lemma SigAltStack.flagsAt_ends {τ : Type} {alt : SigAltStack} (h : alt.Fits) (sp : Nat) (s : τ) :
    Outcome.Holds (fun _ s' => s' = s) (fun _ s' => s' = s) ((alt.flagsAt sp : Call Errno τ _) s) := by
  refine ite (fun _ => rfl) fun _ => ?_
  rw [contains_fits h]
  rfl

lemma installStack_ends (asked : SigAltStack) (t : Thread σ) : Ends (installStack asked) t :=
  ite (fun _ => trivial) fun _ => ite (fun _ => trivial) fun _ =>
    ite (fun _ => trivial) fun _ => trivial

section
variable (h : t.sigStack.Fits)
include h

lemma sigaltstack_ends (new old : Nat) : Ends (sigaltstack S new old) t := by
  rw [Ends, sigaltstack, get_bind_run, SigAltStack.contains_fits h, Call.pure_bind]
  have hreport : Ends (if old ≠ 0 then
      t.sigStack.flagsAt t.frame.rsp >>= fun flags => onMem
        (Uaccess.writeStruct S old (stackBytes ⟨t.sigStack.ssSp, flags, t.sigStack.ssSize⟩))
      else Pure.pure ()) t := by
    refine ite (fun _ => ?_) fun _ => trivial
    refine bind (Q := fun _ _ => True) ?_ fun flags t' _ =>
      onMem_ends (fun _ => Uaccess.Tally.writeStruct trivial (.inl fun _ => trivial)) t'
    exact (SigAltStack.flagsAt_ends h _ t).mono (fun _ _ _ => trivial) fun _ _ _ => trivial
  refine hreport.bind fun _ t' _ => ?_
  refine ite (fun _ => trivial) fun _ => ite (fun _ => trivial) fun _ => ?_
  refine bind (Q := fun _ _ => True) ?_ fun bytes t' _ => installStack_ends _ t'
  exact onMem_ends (fun _ => Uaccess.Tally.readStruct trivial (.inl fun _ => trivial)) t'

lemma handlerTop_eq (action : SigAction) :
    (handlerTop t action : Signalled σ Nat) = Pure.pure (stackTop t action) := by
  rw [handlerTop, stackTop]
  cases hflags : has action.flags SA_ONSTACK && t.sigStack.installed with
  | false =>
    rw [if_neg Bool.false_ne_true]
    rfl
  | true =>
    have hin : t.sigStack.installed = true := (Bool.and_eq_true_iff.mp hflags).2
    rw [if_pos rfl, SigAltStack.contains_fits h, Call.pure_bind, hin, Bool.true_and, Bool.true_and]
    split
    · rw [addOk_bind h]
    · rfl

omit h in
lemma frameBelow_add {top step : Nat} (h : ¬ Uaccess.InTopPage (frameBelow top))
    (hstep : step < PAGE_SIZE) : frameBelow top + step < WORD := by
  simp only [Uaccess.InTopPage, PAGE_SIZE, WORD] at *
  omega

lemma enterSignalHandler_ends (signal : Nat) {action : SigAction} (fault : Option Fault)
    (hframe : ¬ Uaccess.InTopPage (frameBelow (stackTop t action))) :
    Outcome.Holds (fun _ t' => t'.sigStack = t.sigStack) (fun _ t' => t'.sigStack = t.sigStack)
      (enterSignalHandler S signal action fault t) := by
  refine ite (fun _ => rfl) fun _ => ?_
  rw [get_bind_run, handlerTop_eq h, Call.pure_bind]
  refine bind (Q := fun _ t' => t' = t) ?_ fun altFlags t' ht' => ?_
  · exact (SigAltStack.flagsAt_ends h _ t).mono (fun _ _ h => h) fun _ _ h => h ▸ rfl
  rw [modify_bind_run, addOk_bind (frameBelow_add hframe (by decide))]
  have hwrite : Outcome.Holds (fun _ t' => t'.sigStack = t.sigStack)
      (fun _ t' => t'.sigStack = t.sigStack)
      (attempt (onMem (Uaccess.writeBytesIn S (frameBelow (stackTop t action))
        ((List.range FRAME_SIZE).map (signalFrame t signal action fault altFlags
          (frameBelow (stackTop t action)))))) t'.saveFpu) := by
    refine attempt (lift ?_)
    have hwrite buf := Uaccess.Tally.writeBytesIn (T := .blind S) (s := t'.saveFpu.mem)
      (frameBelow (stackTop t action)) buf trivial
    exact ((hwrite _).holds (.inr (.inr hframe))).mono (fun _ _ _ => ht' ▸ rfl)
      fun _ _ _ => ht' ▸ rfl
  refine hwrite.bind fun written t' ht' => ?_
  cases written with
  | error => exact ht'
  | ok =>
    rw [addOk_bind (frameBelow_add hframe (by decide)), addOk_bind (frameBelow_add hframe (by decide))]
    exact ht'

lemma restoreAltStack_ends (buf : Bytes) (base : Nat) : Ends (restoreAltStack buf base) t := by
  rw [Ends, restoreAltStack, get_bind_run, SigAltStack.contains_fits h, Call.pure_bind]
  exact ite (fun _ => trivial) fun _ => trivial

lemma restoreFrom_ends (buf : Bytes) (base : Nat) : Ends (restoreFrom buf base) t := by
  rw [Ends, restoreFrom, modify_bind_run]
  refine (restoreAltStack_ends ?_ _ _).bind fun _ _ _ => trivial
  rw [Thread.setBlocked_sigStack, Thread.setFrame_sigStack]
  exact h

lemma leaveSignalHandler_ends
    (hbase : WORD ≤ frameBase t + FRAME_SIZE ∨ ¬ Uaccess.InTopPage (frameBase t)) :
    Ends (leaveSignalHandler S) t := by
  rw [Ends, leaveSignalHandler, get_bind_run]
  have hread : Outcome.Holds (fun _ t' => t'.sigStack = t.sigStack) (fun _ _ => True)
      (onMem (Uaccess.readBytesIn S (frameBase t) FRAME_SIZE) t) := by
    refine lift ?_
    have hread := Uaccess.Tally.readBytesIn (T := .blind S) (s := t.mem) (frameBase t) FRAME_SIZE
      trivial
    exact (hread.holds (.inr hbase)).mono (fun _ _ _ => rfl) fun _ _ _ => trivial
  exact hread.bind fun bytes t' ht' => restoreFrom_ends (ht' ▸ h) _ _

end

variable (S) in
lemma SignalCall.ends (h : t.sigStack.Fits) {c : SignalCall} (hfits : SignalFits S t c) :
    Ends (c.run S) t := by
  cases c with
  | sigaltstack new old => exact (sigaltstack_ends h new old).bind fun _ _ _ => trivial
  | rtSigreturn => exact (leaveSignalHandler_ends h hfits.2).bind fun _ _ _ => trivial
  | deliver signal action fault =>
    refine bind (Q := fun _ _ => True) ?_ fun _ _ _ => trivial
    exact (enterSignalHandler_ends h signal fault hfits).mono (fun _ _ _ => trivial)
      fun _ _ _ => trivial

/-! ## every run -/

variable (S) in
/-- a task from its start on: calls, deliveries, and its program between them -/
inductive Signalling : Thread σ → Prop
  | start {t : Thread σ} : t.sigStack = .default → Signalling t
  | program {t : Thread σ} (frame : TrapFrame) (cpu : TaskContext) (mem : σ) : Signalling t →
      Signalling ⟨frame, t.sigStack, t.blocked, t.record, cpu, mem⟩
  | call {t : Thread σ} {c : SignalCall} : Signalling t → SignalFits S t c →
      Signalling (c.run S t).2

lemma Signalling.fits (h : Signalling S t) : t.sigStack.Fits := by
  induction h with
  | start h => exact h ▸ SigAltStack.default_fits
  | program _ _ _ _ ih => exact ih
  | @call t c _ hfits ih =>
    cases c with
    | sigaltstack new old => exact hfits
    | rtSigreturn => exact hfits.1
    | deliver signal action fault =>
      have hkept : Outcome.Holds (fun _ t' => t'.sigStack = t.sigStack)
          (fun _ t' => t'.sigStack = t.sigStack)
          ((SignalCall.deliver signal action fault).run S t) :=
        (enterSignalHandler_ends ih signal fault hfits).bind fun _ _ h => h
      exact hkept.snd.symm ▸ ih

lemma Signalling.words (h : Signalling S t) {c : SignalCall} (hfits : SignalFits S t c) :
    (c.run S t).1 ≠ .stopped :=
  (SignalCall.ends S h.fits hfits).not_stopped

end ClaudeOs.Signal
