import ClaudeOs.Net.TcbInput

/-!
# The two halves of a connection

A connection's methods mostly touch one direction of it.  `Tcb.recv` and `Tcb.send` are the fields
that the receive side and the send side rest on, and the lemmas here say which methods leave each
half as it was, so that a proof about one direction steps over the code of the other.

* `RecvView`, `Tcb.recv`  what is received, held and wanted next;
* `SendView`, `Tcb.send`  what is queued, sent and acknowledged, with the data segments on the wire
  (an empty segment carries no byte of the stream);
* `QueueView`, `Tcb.queue`  what is queued and acknowledged;
* `PaceView`, `Tcb.pace`  what limits the sender and how long it waits;
* `StillView`, `Tcb.still`  the receive side, the pace and the queue, which a send leaves alone;
* `Tcb.out`  the pace with the timer and the wire, which the receive side leaves alone.
-/

namespace ClaudeOs.Net
open Serial Tcb

structure RecvView where
  state : State
  irs : Seq
  receiveNext : Seq
  received : List Byte
  outOfOrder : List Held
  heldFin : Option Seq
  finReceived : Bool
  readShutdown : Bool
  abandoned : Bool

structure SendView where
  state : State
  iss : Seq
  sendUnacknowledged : Seq
  sendNext : Seq
  sendHigh : Seq
  pending : List Byte
  finQueued : Bool
  finSequence : Option Seq
  finAcknowledged : Bool
  data : List Segment

structure QueueView where
  sendUnacknowledged : Seq
  pending : List Byte
  finQueued : Bool
  finAcknowledged : Bool

/-- what limits the send side, and how long it waits for an acknowledgement -/
structure PaceView where
  sendWindow : Nat
  windowSequence : Seq
  windowAck : Seq
  peerMss : Nat
  rto : Nat
  congestionWindow : Nat
  slowStartThreshold : Nat
  duplicateAcks : Nat
  recover : Option Seq

structure StillView where
  recv : RecvView
  pace : PaceView
  queue : QueueView

structure OutView where
  pace : PaceView
  retransmitAt : Nat
  wire : List Segment

def dataSegments (wire : List Segment) : List Segment := wire.filter fun s => !s.payload.isEmpty

namespace Tcb

def recv (t : Tcb) : RecvView where
  state := t.state
  irs := t.irs
  receiveNext := t.receiveNext
  received := t.received
  outOfOrder := t.outOfOrder
  heldFin := t.heldFin
  finReceived := t.finReceived
  readShutdown := t.readShutdown
  abandoned := t.abandoned

def send (t : Tcb) : SendView where
  state := t.state
  iss := t.iss
  sendUnacknowledged := t.sendUnacknowledged
  sendNext := t.sendNext
  sendHigh := t.sendHigh
  pending := t.pending
  finQueued := t.finQueued
  finSequence := t.finSequence
  finAcknowledged := t.finAcknowledged
  data := dataSegments t.wire

def queue (t : Tcb) : QueueView where
  sendUnacknowledged := t.sendUnacknowledged
  pending := t.pending
  finQueued := t.finQueued
  finAcknowledged := t.finAcknowledged

def pace (t : Tcb) : PaceView where
  sendWindow := t.sendWindow
  windowSequence := t.windowSequence
  windowAck := t.windowAck
  peerMss := t.peerMss
  rto := t.rto
  congestionWindow := t.congestionWindow
  slowStartThreshold := t.slowStartThreshold
  duplicateAcks := t.duplicateAcks
  recover := t.recover

def still (t : Tcb) : StillView := ⟨t.recv, t.pace, t.queue⟩
def out (t : Tcb) : OutView := ⟨t.pace, t.retransmitAt, t.wire⟩

section
variable (env : Env) (t : Tcb)

/-! ## a send leaves the receive side, the pace and the queue alone -/

@[simp] lemma still_sendSegment (f : Flags) (s : Seq) (p : List Byte) (m : Bool) :
    (t.sendSegment env f s p m).still = t.still := by
  unfold sendSegment; split <;> rfl

@[simp] lemma still_armRetransmit : (t.armRetransmit env).still = t.still := by
  unfold armRetransmit; split <;> rfl

section
variable (s : Seq) (p : List Byte)

@[simp] lemma still_sentThrough : (t.sentThrough s).still = t.still := by rfl
@[simp] lemma still_timeSegment : (t.timeSegment env s).still = t.still := by
  unfold timeSegment; split <;> rfl

@[simp] lemma still_sendChunk (o n : Nat) : (t.sendChunk env o n).still = t.still := by
  unfold sendChunk; simp only; split <;> simp

@[simp] lemma still_sendFin : (t.sendFin env).still = t.still := by
  simp only [sendFin, still_armRetransmit, still_sentThrough, still_sendSegment]
  rfl

@[simp] lemma still_outputLoop (limit : Seq) (fuel : Nat) :
    (outputLoop env limit fuel t).still = t.still := by
  induction fuel generalizing t with
  | zero => rfl
  | succ fuel ih =>
    unfold outputLoop
    simp only
    repeat' split
    all_goals simp [ih]

@[simp] lemma still_output : (t.output env).still = t.still := by
  unfold output; split <;> simp

@[simp] lemma still_retransmitHead : (t.retransmitHead env).still = t.still := by
  have restart : ∀ w : Tcb, (w.restartTimer env).still = w.still := fun w => by rfl
  unfold retransmitHead
  simp only
  repeat' split
  all_goals simp [restart]

@[simp] lemma recv_sendSegment (f : Flags) (s : Seq) (p : List Byte) (m : Bool) :
    (t.sendSegment env f s p m).recv = t.recv :=
  congrArg StillView.recv (still_sendSegment env t f s p m)

@[simp] lemma pace_sendSegment (f : Flags) (s : Seq) (p : List Byte) (m : Bool) :
    (t.sendSegment env f s p m).pace = t.pace :=
  congrArg StillView.pace (still_sendSegment env t f s p m)

@[simp] lemma recv_acknowledge : (t.acknowledge env).recv = t.recv := recv_sendSegment env t _ _ _ _
@[simp] lemma pace_acknowledge : (t.acknowledge env).pace = t.pace := pace_sendSegment env t _ _ _ _

@[simp] lemma recv_armRetransmit : (t.armRetransmit env).recv = t.recv :=
  congrArg StillView.recv (still_armRetransmit env t)

@[simp] lemma pace_armRetransmit : (t.armRetransmit env).pace = t.pace :=
  congrArg StillView.pace (still_armRetransmit env t)

@[simp] lemma recv_sendSynAck : (t.sendSynAck env).recv = t.recv := by simp [sendSynAck]
@[simp] lemma pace_sendSynAck : (t.sendSynAck env).pace = t.pace := by simp [sendSynAck]
@[simp] lemma recv_sentThrough : (t.sentThrough s).recv = t.recv := by rfl
@[simp] lemma pace_sentThrough : (t.sentThrough s).pace = t.pace := by rfl

@[simp] lemma recv_timeSegment : (t.timeSegment env s).recv = t.recv :=
  congrArg StillView.recv (still_timeSegment env t s)

@[simp] lemma pace_timeSegment : (t.timeSegment env s).pace = t.pace :=
  congrArg StillView.pace (still_timeSegment env t s)

@[simp] lemma pace_sendChunk (o n : Nat) : (t.sendChunk env o n).pace = t.pace :=
  congrArg StillView.pace (still_sendChunk env t o n)

@[simp] lemma recv_output : (t.output env).recv = t.recv :=
  congrArg StillView.recv (still_output env t)

@[simp] lemma pace_output : (t.output env).pace = t.pace :=
  congrArg StillView.pace (still_output env t)

@[simp] lemma recv_retransmitHead : (t.retransmitHead env).recv = t.recv :=
  congrArg StillView.recv (still_retransmitHead env t)

@[simp] lemma pace_retransmitHead : (t.retransmitHead env).pace = t.pace :=
  congrArg StillView.pace (still_retransmitHead env t)

/-! ## the rest of the send side's code leaves the receive side alone -/

@[simp] lemma recv_setRto (n : Nat) : (t.setRto n).recv = t.recv := by rfl
section
variable (m n : Nat)

@[simp] lemma recv_setEstimate : (t.setEstimate m n).recv = t.recv := by rfl
@[simp] lemma recv_setCongestion : (t.setCongestion m n).recv = t.recv := by rfl
@[simp] lemma recv_setHeld : (t.setHeld m n).recv = t.recv := by rfl
@[simp] lemma recv_smooth : (t.smooth n).recv = t.recv := by
  unfold smooth; split <;> simp

@[simp] lemma recv_measure : (t.measure n).recv = t.recv := by simp [measure]
@[simp] lemma recv_openWindow (b : Bool) : (t.openWindow b).recv = t.recv := by
  unfold openWindow raiseHigh widenWindow
  simp only
  repeat' split
  all_goals rfl

@[simp] lemma recv_takeMss (s : Segment) : (t.takeMss s).recv = t.recv := by
  unfold takeMss; split <;> rfl

@[simp] lemma recv_enterRecovery : (t.enterRecovery env).recv = t.recv := by
  simp only [enterRecovery, recv_setCongestion, recv_retransmitHead]
  rfl

@[simp] lemma recv_takeSample (a : Seq) : (t.takeSample env a).recv = t.recv := by
  unfold takeSample
  repeat' split
  all_goals first | rfl | exact recv_measure _ _

@[simp] lemma recv_takeCongestion (a : Seq) (n : Nat) :
    (t.takeCongestion env a n).recv = t.recv := by
  unfold takeCongestion
  simp only
  repeat' split
  all_goals simp only [recv_retransmitHead, recv_setCongestion]
  all_goals rfl

@[simp] lemma recv_dropAcked (a : Seq) : (t.dropAcked a).recv = t.recv := by rfl
@[simp] lemma recv_catchUp : t.catchUp.recv = t.recv := by unfold catchUp; split <;> rfl
@[simp] lemma recv_restartAfterAck : (t.restartAfterAck env).recv = t.recv := by rfl
@[simp] lemma recv_takeAck (a : Seq) : (t.takeAck env a).recv = t.recv := by simp [takeAck]
@[simp] lemma recv_onDuplicate : (t.onDuplicate env).recv = t.recv := by
  unfold onDuplicate
  simp only
  repeat' split
  · exact recv_enterRecovery env _
  · exact recv_setCongestion _ _ _
  · rfl

@[simp] lemma recv_takeWindow (s : Segment) : (t.takeWindow s).recv = t.recv := by
  unfold takeWindow; split <;> rfl

@[simp] lemma recv_answer (s : Segment) (w : Seq) : (t.answer env s w).recv = t.recv := by
  unfold answer; split <;> simp

@[simp] lemma recv_goBack : t.goBack.recv = t.recv := by rfl
@[simp] lemma recv_retransmit : (t.retransmit env).recv = t.recv := by
  unfold retransmit
  simp only
  repeat' split
  all_goals simp

@[simp] lemma recv_unqueueFin : t.unqueueFin.recv = t.recv := by rfl
@[simp] lemma recv_clearError : t.clearError.recv = t.recv := by rfl
@[simp] lemma recv_enqueue (bytes : List Byte) : (t.enqueue bytes).recv = t.recv := by rfl
@[simp] lemma recv_noteTimeout (now : Nat) : (t.noteTimeout now).recv = t.recv := by rfl
@[simp] lemma recv_backOff (now : Nat) : (t.backOff now).recv = t.recv := by simp [backOff]

/-! ## the receive side's code leaves the send side alone -/

lemma send_sendSegment_nil (f : Flags) (s : Seq) (m : Bool) :
    (t.sendSegment env f s [] m).send = t.send := by
  unfold sendSegment
  split
  · simp [send, dataSegments, segmentOf]
  · rfl

@[simp] lemma send_acknowledge : (t.acknowledge env).send = t.send :=
  send_sendSegment_nil env t _ _ _

@[simp] lemma send_armRetransmit : (t.armRetransmit env).send = t.send := by
  unfold armRetransmit; split <;> rfl

@[simp] lemma send_sendSynAck : (t.sendSynAck env).send = t.send := by
  rw [sendSynAck, send_armRetransmit, send_sendSegment_nil]

@[simp] lemma send_setRto : (t.setRto n).send = t.send := by rfl
@[simp] lemma send_setEstimate : (t.setEstimate m n).send = t.send := by rfl
@[simp] lemma send_setCongestion : (t.setCongestion m n).send = t.send := by rfl
@[simp] lemma send_setHeld : (t.setHeld m n).send = t.send := by rfl
@[simp] lemma send_smooth : (t.smooth n).send = t.send := by
  unfold smooth; split <;> simp

@[simp] lemma send_measure : (t.measure n).send = t.send := by simp [measure]
@[simp] lemma send_timeSegment : (t.timeSegment env s).send = t.send := by
  unfold timeSegment; split <;> rfl

@[simp] lemma send_openWindow (b : Bool) : (t.openWindow b).send = t.send := by
  unfold openWindow raiseHigh widenWindow
  simp only
  repeat' split
  all_goals rfl

@[simp] lemma send_takeMss (s : Segment) : (t.takeMss s).send = t.send := by
  unfold takeMss; split <;> rfl

@[simp] lemma send_takeSample (a : Seq) : (t.takeSample env a).send = t.send := by
  unfold takeSample
  repeat' split
  all_goals first | rfl | exact send_measure _ _

@[simp] lemma send_takeWindow (s : Segment) : (t.takeWindow s).send = t.send := by
  unfold takeWindow; split <;> rfl

@[simp] lemma send_account : t.account.send = t.send := by rfl
@[simp] lemma send_dropOutOfOrder : t.dropOutOfOrder.send = t.send := by rfl
@[simp] lemma send_armReassembly : (t.armReassembly env).send = t.send := by rfl
@[simp] lemma send_noteTimeout (now : Nat) : (t.noteTimeout now).send = t.send := by rfl
@[simp] lemma send_backOff (now : Nat) : (t.backOff now).send = t.send := by simp [backOff]
@[simp] lemma send_takeRequest (s : Segment) : (t.takeRequest s).send = t.send := by rfl
@[simp] lemma send_drain : (t.drain n).send = t.send := by rfl
@[simp] lemma send_clearHeldFin : t.clearHeldFin.send = t.send := by rfl
@[simp] lemma send_dropFurthest : t.dropFurthest.send = t.send := by
  unfold dropFurthest; split <;> rfl

@[simp] lemma send_hold : (t.hold env s p).send = t.send := by
  unfold hold
  simp only
  repeat' split
  all_goals first | rfl | (simp; rfl)

@[simp] lemma send_deliverHeld : (t.deliverHeld env).send = t.send := by
  unfold deliverHeld; simp only; split <;> rfl

@[simp] lemma send_takeData : (t.takeData env s p).1.send = t.send := by
  unfold takeData
  simp only
  repeat' split
  all_goals first | rfl | exact send_deliverHeld env _ | exact send_hold env _ _ _

@[simp] lemma send_noteFin (s : Segment) (f : Seq) : (t.noteFin env s f).send = t.send := by
  unfold noteFin
  repeat' split
  all_goals rfl

@[simp] lemma send_answer (s : Segment) (w : Seq) : (t.answer env s w).send = t.send := by
  unfold answer; split <;> simp

/-! ## the receive side's code leaves the pace, the timer and the wire alone -/

@[simp] lemma out_account : t.account.out = t.out := by rfl
@[simp] lemma out_setHeld : (t.setHeld m n).out = t.out := by rfl
@[simp] lemma out_armReassembly : (t.armReassembly env).out = t.out := by rfl
@[simp] lemma out_clearHeldFin : t.clearHeldFin.out = t.out := by rfl
@[simp] lemma out_drain : (t.drain n).out = t.out := by rfl

end

@[simp] lemma out_dropFurthest : t.dropFurthest.out = t.out := by
  unfold dropFurthest; split <;> rfl

@[simp] lemma out_hold : (t.hold env s p).out = t.out := by
  unfold hold
  simp only
  repeat' split
  all_goals first | rfl | (simp; rfl)

@[simp] lemma out_deliverHeld : (t.deliverHeld env).out = t.out := by
  unfold deliverHeld; simp only; split <;> rfl

@[simp] lemma out_takeData : (t.takeData env s p).1.out = t.out := by
  unfold takeData
  simp only
  repeat' split
  all_goals first | rfl | exact out_deliverHeld env _ | exact out_hold env _ _ _

end

@[simp] lemma out_noteFin (s : Segment) (f : Seq) : (t.noteFin env s f).out = t.out := by
  unfold noteFin
  repeat' split
  all_goals rfl

@[simp] lemma out_openWindow (b : Bool) : (t.openWindow b).out = t.out := by
  unfold openWindow raiseHigh widenWindow
  simp only
  repeat' split
  all_goals rfl

@[simp] lemma out_expireReassembly (now : Nat) : (t.expireReassembly now).out = t.out := by
  unfold expireReassembly; split <;> rfl

@[simp] lemma send_expireReassembly (now : Nat) : (t.expireReassembly now).send = t.send := by
  unfold expireReassembly; split <;> rfl

end
end Tcb

/-! ## what a send moves -/

section
variable (env : Env) (t : Tcb)

lemma send_sendSegment (f : Flags) (s : Seq) (p : List Byte) (m : Bool) :
    ∃ new, (t.sendSegment env f s p m).send = { t.send with data := t.send.data ++ new } ∧
      ∀ x ∈ new, x.sequence = s ∧ x.payload = p := by
  by_cases hp : p = []
  · subst hp
    exact ⟨[], by rw [send_sendSegment_nil, List.append_nil], by simp⟩
  · unfold sendSegment
    split
    · refine ⟨[t.segmentOf f s p m], ?_, fun x hx => ?_⟩
      · simp [send, dataSegments, segmentOf, hp]
      · obtain rfl := List.mem_singleton.mp hx
        exact ⟨rfl, rfl⟩
    · exact ⟨[], by rw [List.append_nil], by simp⟩

lemma send_sentThrough (s : Seq) : (t.sentThrough s).send = { t.send with
      sendNext := s
      sendHigh := if seqLt t.sendHigh s then s else t.sendHigh } := by rfl

lemma send_sendThrough (f : Flags) (s finish : Seq) (p : List Byte) :
    ∃ new, ((t.sendSegment env f s p false).sentThrough finish).send = { t.send with
          data := t.send.data ++ new
          sendNext := finish
          sendHigh := if seqLt t.sendHigh finish then finish else t.sendHigh } ∧
      ∀ x ∈ new, x.sequence = s ∧ x.payload = p := by
  obtain ⟨new, hview, hnew⟩ := send_sendSegment env t f s p false
  refine ⟨new, ?_, hnew⟩
  generalize t.sendSegment env f s p false = w at hview
  rw [send_sentThrough, hview, show w.sendHigh = t.sendHigh from congrArg SendView.sendHigh hview]

lemma send_timed (c : Bool) (w : Tcb) (x : Seq) :
    (if c then w.timeSegment env x else w).send = w.send := by
  split
  · exact send_timeSegment env w x
  · rfl

lemma send_sendChunk (o n : Nat) : ∃ new, (t.sendChunk env o n).send = { t.send with
        data := t.send.data ++ new
        sendNext := t.sendNext + BitVec.ofNat 32 n
        sendHigh := if seqLt t.sendHigh (t.sendNext + BitVec.ofNat 32 n)
          then t.sendNext + BitVec.ofNat 32 n else t.sendHigh } ∧
      ∀ x ∈ new, x.sequence = t.sendNext ∧ x.payload = (t.pending.drop o).take n := by
  obtain ⟨new, hview, hnew⟩ := send_sendThrough env t
    (ACK ||| if o + n == t.pending.length then PSH else 0) t.sendNext (t.sendNext + BitVec.ofNat 32 n)
    ((t.pending.drop o).take n)
  exact ⟨new, by simp only [sendChunk, send_armRetransmit, send_timed, hview], hnew⟩

lemma send_sendFin : (t.sendFin env).send = { t.send with
    finSequence := some t.sendNext
    sendNext := t.sendNext + 1
    sendHigh := if seqLt t.sendHigh (t.sendNext + 1) then t.sendNext + 1 else t.sendHigh } := by
  have hs := send_sendSegment_nil env { t with finSequence := some t.sendNext } (FIN ||| ACK)
    t.sendNext false
  simp only [sendFin, send_armRetransmit, send_sentThrough]
  generalize sendSegment env { t with finSequence := some t.sendNext } _ _ _ _ = w at hs
  rw [hs, show w.sendHigh = t.sendHigh from congrArg SendView.sendHigh hs]
  rfl

lemma send_enterTimeWait : (t.enterTimeWait env).send =
    { t.send with state := .TimeWait, pending := [], finQueued := t.finQueued } := by
  rw [enterTimeWait, send_dropOutOfOrder]
  rfl

end

lemma send_close (t : Tcb) : t.close.send =
    { t.send with state := .Closed, pending := [], finQueued := t.finQueued } := by
  rw [close, send_dropOutOfOrder]
  rfl

end ClaudeOs.Net
