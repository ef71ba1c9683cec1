import ClaudeOs.Lib.Run
import ClaudeOs.Net.Views

/-!
# A connection and the programs on either side of it

A `Session` is a connection together with what the program using it has seen: the bytes its
reads took and the bytes its writes handed over.  A run is a list of `Call`s in any order, each
with the environment it meets.  `others` stands for the rest of the machine, which may leave any
value in the counter of held bytes that all connections share.

A connection is `Opened` by `connect` or by `accept_connection`.  `connect` takes any Tcb that is
closed, so one Tcb may carry connection after connection: `open` sets some of its fields and leaves
the others as the connection before had them.  `SendClear` and `RecvClear` say of those that they
are as `Tcb::new` has them.
-/

namespace ClaudeOs.Net

/-- the segment gets as far as having its acknowledgement looked at -/
def Tcb.hears (t : Tcb) (segment : Segment) : Bool :=
  t.state != .SynSent && t.state != .Closed && t.state != .Listen && t.acceptable segment &&
    !segment.has RST && !segment.has SYN && segment.has ACK

lemma Tcb.onSegment_hears {t : Tcb} {segment : Segment} (h : t.hears segment = true) (env : Env) :
    t.onSegment env segment = t.onAcknowledged env segment := by
  simp only [hears, Bool.and_eq_true, bne_iff_ne, Bool.not_eq_true'] at h
  obtain ⟨⟨⟨⟨⟨⟨h1, h2⟩, h3⟩, hacc⟩, hrst⟩, hsyn⟩, hack⟩ := h
  unfold onSegment
  split
  · exact absurd ‹_› h1
  · exact absurd ‹_› h2
  · exact absurd ‹_› h3
  · simp [hacc, hrst, hsyn, hack]

inductive Call where
  | segment (env : Env) (segment : Segment)
  | read (env : Env) (size : Nat) (peek : Bool)
  | timer (env : Env) (now : Nat)
  | write (env : Env) (buf : List Byte)
  | shutdownWrite (env : Env)
  | others (heldBytes : Nat)

structure Session where
  tcb : Tcb
  /-- what `read` returned, peeks apart -/
  taken : List Byte
  written : List Byte

namespace Session

def start (t : Tcb) : Session := ⟨t, [], []⟩

def step (s : Session) : Call → Session
  | .segment env segment => { s with tcb := (s.tcb.onSegment env segment).1 }
  | .read env size peek =>
    let result := s.tcb.read env size peek
    { s with
      tcb := result.1
      taken := match peek, result.2 with
        | false, .ok bytes => s.taken ++ bytes
        | _, _ => s.taken }
  | .timer env now => { s with tcb := (s.tcb.onTimer env now).1 }
  | .write env buf =>
    let result := s.tcb.write env buf
    { s with
      tcb := result.1
      written := match result.2 with
        | .ok n => s.written ++ buf.take n
        | .error _ => s.written }
  | .shutdownWrite env => { s with tcb := s.tcb.shutdownWrite env }
  | .others heldBytes => { s with tcb := s.tcb.setHeld s.tcb.held heldBytes }

/-- bytes moved into the received buffer: those a read took and those still in it -/
def moved (s : Session) : Nat := s.taken.length + s.tcb.received.length

/-- the stream position of `receive_next`: the FIN counts for one -/
def wanted (s : Session) : Nat := s.moved + s.tcb.finReceived.toNat

end Session

/-! ## opening -/

/-- `connect` on a Tcb that is closed; the wire is that of the new connection -/
def Tcb.reopen (env : Env) (t : Tcb) (iss : Seq) : Tcb := openActive env { t with wire := [] } iss

/-- a connection as its opener leaves it: `connect` on a new Tcb or on one that was closed after
any calls, or `accept_connection`, which answers the request it takes -/
inductive Opened : Tcb → Prop
  | active (env : Env) (heldBytes : Nat) (iss : Seq) : Opened ((Tcb.new heldBytes).openActive env iss)
  | passive (env env' : Env) (heldBytes : Nat) (request : Segment) (iss : Seq) :
      Opened (((Tcb.new heldBytes).acceptOpen env request iss).sendSynAck env')
  | again {t : Tcb} (h : Opened t) (calls : List Call) (env : Env) (iss : Seq)
      (hc : (Run.run Session.step (.start t) calls).tcb.state = .Closed) :
      Opened ((Run.run Session.step (.start t) calls).tcb.reopen env iss)

/-- no data and no FIN of a connection before -/
structure SendClear (t : Tcb) : Prop where
  pending : t.pending = []
  notQueued : t.finQueued = false
  noFin : t.finSequence = none
  unacknowledged : t.finAcknowledged = false

/-- nothing received on a connection before, and its reading not shut -/
structure RecvClear (v : RecvView) : Prop where
  received : v.received = []
  outOfOrder : v.outOfOrder = []
  heldFin : v.heldFin = none
  finReceived : v.finReceived = false
  readShutdown : v.readShutdown = false
  abandoned : v.abandoned = false

end ClaudeOs.Net
