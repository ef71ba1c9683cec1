import ClaudeOs.Lib.Serial

/-!
# The transmission control block of `net/tcp.rs`

The state one TCP connection keeps and the methods that read or change it, in the order of the
source.  Everything a method reaches outside the block is explicit:

* `Env`  what a call reads from the machine: the tick, the clock and whether `source_address` finds
  an address to send from;
* `Tcb.wire`  the segments handed to `ip::send_from`, oldest first;
* `Tcb.heldBytes`  the counter `HELD_BYTES` that every connection shares.

Sequence numbers are 32-bit and wrap.  Byte counts, ticks and microseconds are `Nat`, with the
saturation of the `u32` fields written out.
-/

namespace ClaudeOs.Net
open Serial

abbrev Byte := UInt8
abbrev Seq := BitVec 32
abbrev Flags := BitVec 8

/-! ## constants -/

def FIN : Flags := 0x01
def SYN : Flags := 0x02
def RST : Flags := 0x04
def PSH : Flags := 0x08
def ACK : Flags := 0x10
def MSS : Nat := 1460
def MIN_MSS : Nat := 536
def RECEIVE_WINDOW : Nat := 65535
def SEND_BUFFER : Nat := 64 * 1024
def INITIAL_RTO : Nat := 100
def MIN_RTO : Nat := 20
def MAX_RTO : Nat := 600
def MAX_RETRIES : Nat := 8
def DUPLICATE_ACK_THRESHOLD : Nat := 3
def SYN_RETRIES : Nat := 5
def TIME_WAIT_TICKS : Nat := 1000
def FIN_WAIT_2_TICKS : Nat := 6000
def REASSEMBLY_TICKS : Nat := 3000
def MAX_HELD_RUNS : Nat := 16
def REASSEMBLY_LIMIT : Nat := 128 * 1024
def TICK_HZ : Nat := 100

/-- `u32::saturating_add` -/
def saturatingAdd (a b : Nat) : Nat := min (a + b) (2 ^ 32 - 1)
/-- `u32::saturating_mul` -/
def saturatingMul (a b : Nat) : Nat := min (a * b) (2 ^ 32 - 1)

def seqLt (a b : Seq) : Bool := Serial.lt a b
def seqLe (a b : Seq) : Bool := Serial.le a b
def seqGt (a b : Seq) : Bool := Serial.gt a b

inductive Errno where
  | EAGAIN | ENOTCONN | EPIPE | ECONNRESET | ECONNREFUSED | ETIMEDOUT
  deriving DecidableEq, Repr

/-! ## states and segments -/

inductive State where
  | Closed | Listen | SynSent | SynReceived | Established | FinWait1 | FinWait2
  | CloseWait | Closing | LastAck | TimeWait
  deriving DecidableEq, Repr

def State.isSynchronised : State → Bool
  | .Established | .FinWait1 | .FinWait2 | .CloseWait | .Closing | .LastAck | .TimeWait => true
  | _ => false

def State.canOutput : State → Bool
  | .Established | .CloseWait | .FinWait1 | .Closing | .LastAck => true
  | _ => false

structure Segment where
  sequence : Seq
  acknowledgement : Seq
  flags : Flags
  window : BitVec 16
  mss : Option (BitVec 16)
  payload : List Byte
  deriving DecidableEq, Repr

/-- `self.flags & flag != 0` -/
def Segment.has (s : Segment) (flag : Flags) : Bool := s.flags &&& flag != 0

/-- how many sequence numbers the segment consumes -/
def Segment.length (s : Segment) : Nat :=
  s.payload.length + (s.has SYN).toNat + (s.has FIN).toNat

/-- a run of bytes that arrived before the bytes in front of it -/
structure Held where
  sequence : Seq
  data : List Byte
  deriving DecidableEq, Repr

/-- `Held::end`, a name Lean keeps for itself -/
def Held.endSeq (h : Held) : Seq := h.sequence + BitVec.ofNat 32 h.data.length

structure Env where
  ticks : Nat
  monotonicNs : Nat
  sourceAddress : Bool
  deriving DecidableEq, Repr

structure Tcb where
  state : State
  iss : Seq
  sendUnacknowledged : Seq
  sendNext : Seq
  sendHigh : Seq
  sendWindow : Nat
  windowSequence : Seq
  windowAck : Seq
  irs : Seq
  receiveNext : Seq
  receiveHigh : Seq
  outOfOrder : List Held
  held : Nat
  heldFin : Option Seq
  reassemblyExpireAt : Nat
  pending : List Byte
  received : List Byte
  finQueued : Bool
  finSequence : Option Seq
  finAcknowledged : Bool
  finReceived : Bool
  readShutdown : Bool
  abandoned : Bool
  error : Option Errno
  peerMss : Nat
  retransmitAt : Nat
  rto : Nat
  srtt : Nat
  rttvar : Nat
  timed : Option Seq
  timedAt : Nat
  retries : Nat
  expireAt : Nat
  congestionWindow : Nat
  slowStartThreshold : Nat
  duplicateAcks : Nat
  recover : Option Seq
  fastRetransmits : Nat
  timeouts : Nat
  wire : List Segment
  heldBytes : Nat

namespace Tcb

def new (heldBytes : Nat) : Tcb where
  state := .Closed
  iss := 0
  sendUnacknowledged := 0
  sendNext := 0
  sendHigh := 0
  sendWindow := MSS
  windowSequence := 0
  windowAck := 0
  irs := 0
  receiveNext := 0
  receiveHigh := 0
  outOfOrder := []
  held := 0
  heldFin := none
  reassemblyExpireAt := 0
  pending := []
  received := []
  finQueued := false
  finSequence := none
  finAcknowledged := false
  finReceived := false
  readShutdown := false
  abandoned := false
  error := none
  peerMss := MSS
  retransmitAt := 0
  rto := INITIAL_RTO
  srtt := 0
  rttvar := 0
  timed := none
  timedAt := 0
  retries := 0
  expireAt := 0
  congestionWindow := MSS
  slowStartThreshold := 64 * 1024
  duplicateAcks := 0
  recover := none
  fastRetransmits := 0
  timeouts := 0
  wire := []
  heldBytes := heldBytes

/-! Values computed by arithmetic are stored through setters: what a lemma says of the other
fields then never depends on how they were computed. -/

section
variable (t : Tcb)

def setRto (rto : Nat) : Tcb := { t with rto := rto }
def setEstimate (srtt rttvar : Nat) : Tcb := { t with srtt := srtt, rttvar := rttvar }
def setCongestion (slowStartThreshold congestionWindow : Nat) : Tcb :=
  { t with slowStartThreshold := slowStartThreshold, congestionWindow := congestionWindow }
def setHeld (held heldBytes : Nat) : Tcb := { t with held := held, heldBytes := heldBytes }

def effectiveMss : Nat := min t.peerMss MSS

/-! ## the receive window -/

def advertisedWindow : Nat :=
  if seqLe t.receiveHigh t.receiveNext then 0
  else min (t.receiveHigh - t.receiveNext).toNat 65535

/-- the right edge is never behind the byte wanted next -/
def raiseHigh : Tcb :=
  if seqLt t.receiveHigh t.receiveNext then { t with receiveHigh := t.receiveNext } else t

/-- the right edge moved to what the buffer has room for, by a whole segment or not at all -/
def widenWindow (advanced : Bool) : Tcb :=
  let free := RECEIVE_WINDOW - t.received.length
  let wanted := t.receiveNext + BitVec.ofNat 32 free
  let step := min MSS (RECEIVE_WINDOW / 2)
  if !seqGt wanted t.receiveHigh || decide ((wanted - t.receiveHigh).toNat < step) then t
  else if advanced || decide (t.advertisedWindow < step) then { t with receiveHigh := wanted }
  else t

def openWindow (advanced : Bool) : Tcb := t.raiseHigh.widenWindow advanced

/-! ## sending one segment -/

def segmentOf (flags : Flags) (sequence : Seq) (payload : List Byte) (withMss : Bool) :
    Segment where
  sequence := sequence
  acknowledgement := if flags &&& ACK != 0 then t.receiveNext else 0
  flags := flags
  window := BitVec.ofNat 16 t.advertisedWindow
  mss := if withMss then some (BitVec.ofNat 16 MSS) else none
  payload := payload

section
variable (env : Env) (t : Tcb)

def sendSegment (flags : Flags) (sequence : Seq) (payload : List Byte) (withMss : Bool) : Tcb :=
  if env.sourceAddress then
    { t with wire := t.wire ++ [t.segmentOf flags sequence payload withMss] }
  else t

def acknowledge : Tcb := t.sendSegment env ACK t.sendNext [] false

def armRetransmit : Tcb :=
  if t.retransmitAt = 0 then { t with retransmitAt := env.ticks + t.rto } else t

def sendSynAck : Tcb :=
  (t.sendSegment env (SYN ||| ACK) t.iss [] true).armRetransmit env

end

def sentThrough (sequence : Seq) : Tcb :=
  { t with
    sendNext := sequence
    sendHigh := if seqLt t.sendHigh sequence then sequence else t.sendHigh }

/-! ## the round trip estimate -/

def nsToTicks (ns : Nat) : Nat :=
  let perTick := 1000000000 / TICK_HZ
  (ns + perTick - 1) / perTick

def estimatedRto : Nat :=
  let granularity := 1000000 / TICK_HZ
  let slack := max (saturatingMul t.rttvar 4) granularity
  let microseconds := saturatingAdd t.srtt slack
  min (max (nsToTicks (microseconds * 1000)) MIN_RTO) MAX_RTO

def smooth (sample : Nat) : Tcb :=
  if t.srtt = 0 then t.setEstimate sample (sample / 2)
  else
    let difference := (t.srtt - sample) + (sample - t.srtt)
    t.setEstimate ((t.srtt * 7 + sample) / 8) ((t.rttvar * 3 + difference) / 4)

def measure (microseconds : Nat) : Tcb :=
  let t := t.smooth (max microseconds 1)
  t.setRto t.estimatedRto

def timeSegment (env : Env) (t : Tcb) (sequence : Seq) : Tcb :=
  if t.timed.isNone then { t with timed := some sequence, timedAt := env.monotonicNs } else t

/-! ## opening -/

def startActive (initialSequence : Seq) : Tcb :=
  { t with
    receiveHigh := t.receiveNext + BitVec.ofNat 32 RECEIVE_WINDOW
    iss := initialSequence
    sendUnacknowledged := initialSequence
    sendNext := initialSequence
    sendHigh := initialSequence
    state := .SynSent
    congestionWindow := MSS
    rto := INITIAL_RTO
    retries := 0 }

def openActive (env : Env) (t : Tcb) (initialSequence : Seq) : Tcb :=
  let t := t.startActive initialSequence
  let t := t.sendSegment env SYN initialSequence [] true
  let t := t.sentThrough (initialSequence + 1)
  (t.timeSegment env (initialSequence + 1)).armRetransmit env

def takeMss (segment : Segment) : Tcb :=
  match segment.mss with
  | some mss => { t with peerMss := min (max mss.toNat MIN_MSS) MSS }
  | none => t

/-- the receive side and the first window that a connection request sets up -/
def takeRequest (segment : Segment) : Tcb :=
  { t with
    irs := segment.sequence
    receiveNext := segment.sequence + 1
    receiveHigh := segment.sequence + 1 + BitVec.ofNat 32 RECEIVE_WINDOW
    sendWindow := segment.window.toNat
    windowSequence := segment.sequence }

/-- the send side of a connection the other end asked for -/
def startPassive (initialSequence : Seq) : Tcb :=
  { t with
    iss := initialSequence
    sendUnacknowledged := initialSequence
    sendHigh := initialSequence
    windowAck := initialSequence
    state := .SynReceived
    congestionWindow := MSS
    rto := INITIAL_RTO }

end

def acceptOpen (env : Env) (t : Tcb) (segment : Segment) (initialSequence : Seq) : Tcb :=
  let t := (t.takeRequest segment).takeMss segment
  let t := (t.startPassive initialSequence).sentThrough (initialSequence + 1)
  t.timeSegment env (initialSequence + 1)

end Tcb
end ClaudeOs.Net
