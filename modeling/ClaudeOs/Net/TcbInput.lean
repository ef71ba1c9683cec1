import ClaudeOs.Net.Tcb

/-!
# What a connection does: user calls, output, input and timers

The rest of `net/tcp.rs`'s `impl Tcb`.  `on_segment` is cut at its own paragraphs, each a
definition that the next one continues from:

* `takeAck`, `onDuplicate`, `takeWindow`, `onFinAcknowledged`  what the acknowledgement says;
* `trim`, `takeData`, `noteFin`, `takeFin`  what the data and the FIN say.

A method that returns `true` when a waiter should wake returns a pair here.
-/

namespace ClaudeOs.Net.Tcb
open Serial

/-! ## what arrived before the bytes in front of it -/

/-- `fetch_sub` and `fetch_add` on the shared counter wrap at 64 bits -/
def account (t : Tcb) : Tcb :=
  let held := (t.outOfOrder.map fun run => run.data.length).sum
  t.setHeld held
    (if t.held < held then (t.heldBytes + (held - t.held)) % 2 ^ 64
      else (t.heldBytes + (2 ^ 64 - (t.held - held))) % 2 ^ 64)

def dropOutOfOrder (t : Tcb) : Tcb :=
  { t with outOfOrder := [], heldFin := none, reassemblyExpireAt := 0 }.account

variable (env : Env) (t : Tcb) (segment : Segment)

def armReassembly : Tcb :=
  { t with reassemblyExpireAt := env.ticks + REASSEMBLY_TICKS }

/-- one turn of `coalesce`'s loop; `joined` is kept newest first -/
def joinRun (joined : List Held) (run : Held) : List Held :=
  match joined with
  | last :: earlier =>
    if seqLe run.sequence last.endSeq then
      let overlap := (last.endSeq - run.sequence).toNat
      if overlap < run.data.length then
        { last with data := last.data ++ run.data.drop overlap } :: earlier
      else last :: earlier
    else run :: last :: earlier
  | [] => [run]

/-- the sort key of `coalesce`: how far past `base` a run starts -/
def startsBefore (base : Seq) (a b : Held) : Prop :=
  (a.sequence - base).toNat ≤ (b.sequence - base).toNat

instance (base : Seq) : DecidableRel (startsBefore base) := fun a b =>
  inferInstanceAs (Decidable ((a.sequence - base).toNat ≤ (b.sequence - base).toNat))

def coalesce : Tcb :=
  let runs := t.outOfOrder.insertionSort (startsBefore t.receiveNext)
  { t with outOfOrder := (runs.foldl joinRun []).reverse }

/-- past `MAX_HELD_RUNS` the run furthest ahead goes -/
def dropFurthest : Tcb :=
  if t.outOfOrder.length > MAX_HELD_RUNS then { t with outOfOrder := t.outOfOrder.dropLast } else t

def hold (sequence : Seq) (payload : List Byte) : Tcb :=
  let right := t.receiveNext + BitVec.ofNat 32 t.advertisedWindow
  if !seqLt sequence right then t
  else
    let room := (right - sequence).toNat
    let payload := payload.take room
    if payload.isEmpty then t
    else if t.heldBytes + payload.length > REASSEMBLY_LIMIT then t
    else
      let t := { t with outOfOrder := t.outOfOrder ++ [Held.mk sequence payload] }
      t.coalesce.dropFurthest.account.armReassembly env

/-- the loop of `deliver_held`: what `receive_next`, `received` and the runs become -/
def deliverRuns : List Held → Seq → List Byte → Seq × List Byte × List Held
  | [], next, received => (next, received, [])
  | run :: runs, next, received =>
    if seqGt run.sequence next then (next, received, run :: runs)
    else
      let skip := (next - run.sequence).toNat
      if skip ≥ run.data.length then deliverRuns runs next received
      else
        let free := RECEIVE_WINDOW - received.length
        let take := min (run.data.length - skip) free
        let received := received ++ (run.data.drop skip).take take
        let next := next + BitVec.ofNat 32 take
        if skip + take < run.data.length then
          (next, received, Held.mk next (run.data.drop (skip + take)) :: runs)
        else deliverRuns runs next received

def deliverHeld : Tcb :=
  let delivered := deliverRuns t.outOfOrder t.receiveNext t.received
  let t := { t with
    receiveNext := delivered.1
    received := delivered.2.1
    outOfOrder := delivered.2.2 }.account
  if t.outOfOrder.isEmpty && t.heldFin.isNone then { t with reassemblyExpireAt := 0 }
  else t.armReassembly env

/-! ## states that end the connection -/

def enterTimeWait : Tcb :=
  { t with
    state := .TimeWait
    expireAt := env.ticks + TIME_WAIT_TICKS
    retransmitAt := 0
    pending := []
    readShutdown := true
    received := if t.abandoned then [] else t.received }.dropOutOfOrder

def enterFinWait2 : Tcb :=
  { t with
    state := .FinWait2
    expireAt := if t.abandoned then env.ticks + FIN_WAIT_2_TICKS else t.expireAt }

def canReceive : Bool :=
  !t.readShutdown && !t.abandoned &&
    (t.state == .Established || t.state == .FinWait1 || t.state == .FinWait2)

/-- nothing is waited for any more but the runs still held -/
def clearHeldFin : Tcb :=
  { t with
    heldFin := none
    reassemblyExpireAt := if t.outOfOrder.isEmpty then 0 else t.reassemblyExpireAt }

def takeFin : Tcb × Bool :=
  if t.finReceived then (t.clearHeldFin, false)
  else
    let t := { t.clearHeldFin with finReceived := true, receiveNext := t.receiveNext + 1 }
    match t.state with
    | .Established => ({ t with state := .CloseWait }, true)
    | .FinWait1 => ({ t with state := .Closing }, true)
    | .FinWait2 => (t.enterTimeWait env, true)
    | _ => (t, true)

/-- the connection is over: nothing is queued or held any more -/
def close : Tcb :=
  { t with state := .Closed, retransmitAt := 0, pending := [] }.dropOutOfOrder

def unqueueFin : Tcb := { t with finQueued := false }

def abort : Tcb :=
  let t := if t.state.isSynchronised || t.state == .SynReceived
    then t.sendSegment env (RST ||| ACK) t.sendNext [] false else t
  t.close.unqueueFin

/-! ## output -/

/-- one data segment of `output`: `n` bytes of `pending` from `offset` on -/
def sendChunk (offset n : Nat) : Tcb :=
  let sequence := t.sendNext
  let last := offset + n == t.pending.length
  let flags := ACK ||| if last then PSH else 0
  let finish := sequence + BitVec.ofNat 32 n
  let firstTime := seqLt t.sendHigh finish
  let t := t.sendSegment env flags sequence ((t.pending.drop offset).take n) false
  let t := t.sentThrough finish
  let t := if firstTime then t.timeSegment env finish else t
  t.armRetransmit env

def sendFin : Tcb :=
  let sequence := t.sendNext
  let t := { t with finSequence := some sequence }.sendSegment env (FIN ||| ACK) sequence [] false
  (t.sentThrough (sequence + 1)).armRetransmit env

def outputLoop (env : Env) (limit : Seq) : Nat → Tcb → Tcb
  | 0, t => t
  | fuel + 1, t =>
    let offset := (t.sendNext - t.sendUnacknowledged).toNat
    let available := t.pending.length - offset
    if 0 < available then
      if !seqLt t.sendNext limit then t
      else
        let room := (limit - t.sendNext).toNat
        let n := min (min available t.effectiveMss) room
        if n = 0 then t
        else outputLoop env limit fuel (t.sendChunk env offset n)
    else if t.finQueued && t.finSequence.isNone then t.sendFin env
    else t

/-- every turn but the last sends at least one byte of `pending`, which bounds the turns -/
def output : Tcb :=
  if !t.state.canOutput then t
  else
    let usable := min t.sendWindow t.congestionWindow
    let limit := t.sendUnacknowledged + BitVec.ofNat 32 usable
    outputLoop env limit (t.pending.length + 1) t

/-- nothing sent twice is timed, and the timer starts over from the retransmission -/
def restartTimer : Tcb :=
  { t with timed := none, retransmitAt := env.ticks + t.rto }

def retransmitHead : Tcb :=
  let n := min t.pending.length t.effectiveMss
  if n = 0 then
    match t.finSequence with
    | some sequence =>
      if !t.finAcknowledged
      then (t.sendSegment env (FIN ||| ACK) sequence [] false).restartTimer env else t
    | none => t
  else
    let flags := ACK ||| if n == t.pending.length then PSH else 0
    (t.sendSegment env flags t.sendUnacknowledged (t.pending.take n) false).restartTimer env

def halfFlight : Nat :=
  max ((t.sendHigh - t.sendUnacknowledged).toNat / 2) (2 * MSS)

/-- `retransmit_head` reads no congestion state, so the threshold and the window are set together -/
def enterRecovery : Tcb :=
  let threshold := t.halfFlight
  let t := { t with recover := some t.sendHigh, fastRetransmits := t.fastRetransmits + 1 }
  (t.retransmitHead env).setCongestion threshold
    (saturatingAdd threshold (DUPLICATE_ACK_THRESHOLD * MSS))

/-! ## user operations -/

def clearError : Tcb := { t with error := none }
def enqueue (bytes : List Byte) : Tcb := { t with pending := t.pending ++ bytes }

def write (buf : List Byte) : Tcb × Except Errno Nat :=
  let refused := fun e => (t, Except.error e)
  let accepted :=
    if t.finQueued then refused .EPIPE
    else
      let room := SEND_BUFFER - t.pending.length
      if room = 0 then refused .EAGAIN
      else
        let n := min room buf.length
        ((t.enqueue (buf.take n)).output env, .ok n)
  match t.state with
  | .Established | .CloseWait => accepted
  | .SynSent | .SynReceived => refused .EAGAIN
  | .Closed => (t.clearError, .error (t.error.getD .ENOTCONN))
  | .Listen => refused .ENOTCONN
  | _ => refused .EPIPE

def drain (n : Nat) : Tcb := { t with received := t.received.drop n }

/-- the buffer less what was read; a window that opens again has to be advertised -/
def takeReceived (n : Nat) : Tcb :=
  let t := t.drain n
  let offeredBefore := t.advertisedWindow
  let t := t.openWindow false
  if decide (offeredBefore < t.advertisedWindow) && t.state.isSynchronised
  then t.acknowledge env else t

def readEmpty (size : Nat) : Tcb × Except Errno (List Byte) :=
  if size = 0 then (t, .ok [])
  else if t.finReceived || t.readShutdown then (t, .ok [])
  else
    match t.state with
    | .Closed =>
      match t.error with
      | some e => (t.clearError, .error e)
      | none => (t, .ok [])
    | .Listen => (t, .error .ENOTCONN)
    | _ => (t, .error .EAGAIN)

/-- `read` into a buffer of `size` bytes: the bytes it filled in, in place of their count -/
def read (size : Nat) (peek : Bool) : Tcb × Except Errno (List Byte) :=
  if !t.received.isEmpty then
    let n := min size t.received.length
    (if peek then t else t.takeReceived env n, .ok (t.received.take n))
  else t.readEmpty size

def shutdownWrite : Tcb :=
  if t.finQueued then t
  else
    match t.state with
    | .Established | .SynReceived => { t with finQueued := true, state := .FinWait1 }.output env
    | .CloseWait => { t with finQueued := true, state := .LastAck }.output env
    | .SynSent | .Listen | .Closed => { t with state := .Closed, retransmitAt := 0 }
    | _ => t

/-- the last descriptor naming this connection has gone -/
def abandon : Tcb :=
  let t := { t with abandoned := true }.dropOutOfOrder
  if t.state == .FinWait2 && t.expireAt == 0
  then { t with expireAt := env.ticks + FIN_WAIT_2_TICKS } else t

/-! ## input: the acknowledgement -/

def acceptable : Bool :=
  let window := t.advertisedWindow
  let length := segment.length
  let first := segment.sequence
  let right := t.receiveNext + BitVec.ofNat 32 window
  if length = 0 then
    if window = 0 then first == t.receiveNext
    else seqLe t.receiveNext first && seqLt first right
  else if window = 0 then false
  else
    let last := first + BitVec.ofNat 32 (length - 1)
    (seqLe t.receiveNext first && seqLt first right) ||
      (seqLe t.receiveNext last && seqLt last right)

def onUnacceptable : Tcb × Bool :=
  if segment.has RST then (t, false)
  else if t.state == .SynReceived && segment.has SYN && !segment.has ACK &&
      segment.sequence == t.irs then
    ({ t with timed := none }.sendSynAck env, false)
  else (t.acknowledge env, false)

def onReset : Tcb × Bool :=
  if segment.sequence != t.receiveNext then (t.acknowledge env, false)
  else
    ({ t.close with error := some (t.error.getD .ECONNRESET) }, true)

def isDuplicate : Bool :=
  segment.payload.isEmpty && segment.flags &&& (SYN ||| FIN) == 0 &&
    segment.acknowledgement == t.sendUnacknowledged &&
    seqLt t.sendUnacknowledged t.sendHigh && decide (segment.window.toNat = t.sendWindow)

section
variable (acknowledgement : Seq)

def acknowledges : Bool :=
  seqGt acknowledgement t.sendUnacknowledged && seqLe acknowledgement t.sendHigh

def finCovered : Bool :=
  match t.finSequence with
  | some finSequence => seqLt finSequence acknowledgement && !t.finAcknowledged
  | none => false

def takeSample : Tcb :=
  match t.timed with
  | some timed =>
    if seqLe timed acknowledgement then
      let elapsed := env.monotonicNs - t.timedAt
      { t with timed := none }.measure (min (elapsed / 1000) (2 ^ 32 - 1))
    else t
  | none => t

def takeCongestion (acked : Nat) : Tcb :=
  match t.recover with
  | some recover =>
    if seqLt acknowledgement recover then
      let window := max (saturatingAdd (t.congestionWindow - acked) MSS) MSS
      let t := { t with fastRetransmits := t.fastRetransmits + 1 }
      (t.setCongestion t.slowStartThreshold window).retransmitHead env
    else { t with recover := none }.setCongestion t.slowStartThreshold t.slowStartThreshold
  | none =>
    if t.congestionWindow < t.slowStartThreshold then
      t.setCongestion t.slowStartThreshold (saturatingAdd t.congestionWindow MSS)
    else
      let increment := MSS * MSS / max t.congestionWindow 1
      t.setCongestion t.slowStartThreshold (saturatingAdd t.congestionWindow (max increment 1))

/-- how many bytes of `pending` an acknowledgement covers: our FIN is not one of them -/
def ackedBytes : Nat :=
  let distance := (acknowledgement - t.sendUnacknowledged).toNat
  if t.finCovered acknowledgement then distance - 1 else distance

def dropAcked : Tcb :=
  { t with
    finAcknowledged := t.finAcknowledged || t.finCovered acknowledgement
    pending := t.pending.drop (min (t.ackedBytes acknowledgement) t.pending.length)
    sendUnacknowledged := acknowledgement }

/-- the timer may have moved the pointer back over bytes that turned out to have arrived -/
def catchUp : Tcb :=
  if seqLt t.sendNext t.sendUnacknowledged then { t with sendNext := t.sendUnacknowledged } else t

def restartAfterAck : Tcb :=
  { t with
    retries := 0
    duplicateAcks := 0
    retransmitAt := if t.sendUnacknowledged = t.sendNext then 0 else env.ticks + t.rto }

def takeAck : Tcb :=
  let acked := t.ackedBytes acknowledgement
  let t := (t.dropAcked acknowledgement).takeSample env acknowledgement
  (t.catchUp.restartAfterAck env).takeCongestion env acknowledgement acked

def onDuplicate : Tcb :=
  let t := { t with duplicateAcks := t.duplicateAcks + 1 }
  if t.duplicateAcks == DUPLICATE_ACK_THRESHOLD && t.recover.isNone then t.enterRecovery env
  else if DUPLICATE_ACK_THRESHOLD < t.duplicateAcks then
    t.setCongestion t.slowStartThreshold (saturatingAdd t.congestionWindow MSS)
  else t

def takeWindow : Tcb :=
  if seqLt t.windowSequence segment.sequence ||
      (t.windowSequence == segment.sequence && seqLe t.windowAck segment.acknowledgement) then
    { t with
      sendWindow := segment.window.toNat
      windowSequence := segment.sequence
      windowAck := segment.acknowledgement }
  else t

def onFinAcknowledged : Tcb × Bool :=
  if t.finAcknowledged then
    match t.state with
    | .FinWait1 => (t.enterFinWait2 env, false)
    | .Closing => (t.enterTimeWait env, true)
    | .LastAck => ({ t with state := .Closed, retransmitAt := 0 }, true)
    | _ => (t, false)
  else (t, false)

/-! ## input: the data -/

def trim : Seq × List Byte :=
  if seqLt segment.sequence t.receiveNext then
    (t.receiveNext, segment.payload.drop (t.receiveNext - segment.sequence).toNat)
  else (segment.sequence, segment.payload)

def takeData (sequence : Seq) (payload : List Byte) : Tcb × Bool :=
  if payload.isEmpty then (t, false)
  else if !t.canReceive then
    (if sequence = t.receiveNext
      then { t with receiveNext := t.receiveNext + BitVec.ofNat 32 payload.length } else t, false)
  else if sequence = t.receiveNext then
    let free := RECEIVE_WINDOW - t.received.length
    let n := min payload.length free
    ({ t with
      received := t.received ++ payload.take n
      receiveNext := t.receiveNext + BitVec.ofNat 32 n }.deliverHeld env, true)
  else (t.hold env sequence payload, false)

def noteFin (finish : Seq) : Tcb :=
  if segment.has FIN then
    if finish = t.receiveNext then { t with heldFin := some finish }
    else if seqGt finish t.receiveNext && t.canReceive then
      { t with heldFin := some finish }.armReassembly env
    else t
  else t

def takeHeldFin : Tcb × Bool :=
  if t.heldFin = some t.receiveNext then t.takeFin env else (t, false)

def answer (wantedBefore : Seq) : Tcb :=
  if (!segment.payload.isEmpty || segment.has FIN) && t.state != .Closed then
    (t.openWindow (t.receiveNext != wantedBefore)).acknowledge env
  else t

def onData (wantedBefore : Seq) : Tcb × Bool :=
  let trimmed := t.trim segment
  let taken := t.takeData env trimmed.1 trimmed.2
  let t := taken.1.noteFin env segment (trimmed.1 + BitVec.ofNat 32 trimmed.2.length)
  let finished := t.takeHeldFin env
  ((finished.1.answer env segment wantedBefore).output env, taken.2 || finished.2)

def onAcknowledgement (duplicate : Bool) : Tcb × Bool :=
  let wantedBefore := t.receiveNext
  let acknowledgement := segment.acknowledgement
  let newly := t.acknowledges acknowledgement
  let t := if newly then t.takeAck env acknowledgement else t
  let t := if duplicate then t.onDuplicate env else t
  let closing := (t.takeWindow segment).onFinAcknowledged env
  let data := closing.1.onData env segment wantedBefore
  (data.1, newly || closing.2 || data.2)

def completeHandshake : Tcb :=
  { t with state := .Established, retransmitAt := 0, retries := 0 }

/-- an acceptable segment with ACK set and neither RST nor SYN -/
def onAcknowledged : Tcb × Bool :=
  let duplicate := t.isDuplicate segment
  if t.state == .SynReceived then
    if seqLt t.sendUnacknowledged segment.acknowledgement &&
        seqLe segment.acknowledgement t.sendHigh then
      ((t.completeHandshake.onAcknowledgement env segment duplicate).1, true)
    else (t.sendSegment env RST segment.acknowledgement [] false, false)
  else t.onAcknowledgement env segment duplicate

def establish : Tcb :=
  { t with
    sendUnacknowledged := acknowledgement
    windowAck := acknowledgement
    state := .Established
    retransmitAt := 0
    retries := 0 }

end

def onSynSent : Tcb × Bool :=
  if segment.has ACK && !(seqLt t.iss segment.acknowledgement &&
      seqLe segment.acknowledgement t.sendNext) then
    if !segment.has RST then (t.sendSegment env RST segment.acknowledgement [] false, false)
    else (t, false)
  else if segment.has RST then
    ({ t with state := .Closed, retransmitAt := 0, error := some .ECONNREFUSED }, true)
  else if !segment.has SYN then (t, false)
  else
    let t := (t.takeRequest segment).takeMss segment
    if segment.has ACK then
      (((t.establish segment.acknowledgement).acknowledge env).output env, true)
    else ({ t with state := .SynReceived }.sendSynAck env, false)

def onSegment : Tcb × Bool :=
  match t.state with
  | .SynSent => t.onSynSent env segment
  | .Closed | .Listen => (t, false)
  | _ =>
    if !t.acceptable segment then t.onUnacceptable env segment
    else if segment.has RST then t.onReset env segment
    else if segment.has SYN then (t.acknowledge env, false)
    else if !segment.has ACK then (t, false)
    else t.onAcknowledged env segment

/-! ## timers -/

def goBack : Tcb := { t with sendNext := t.sendUnacknowledged, finSequence := none }

/-- what the retransmission timer sends once it has backed off -/
def retransmit : Tcb :=
  match t.state with
  | .SynSent => t.sendSegment env SYN t.iss [] true
  | .SynReceived => t.sendSegment env (SYN ||| ACK) t.iss [] true
  | _ =>
    let t := t.goBack
    match t.pending with
    | byte :: _ =>
      if t.sendWindow = 0 then
        -- no room at the other end: one byte keeps the exchange going
        (t.sendSegment env ACK t.sendNext [byte] false).sentThrough (t.sendNext + 1)
      else t.output env
    | [] => t.output env

/-- the gap in front of what is held never filled -/
def expireReassembly (now : Nat) : Tcb :=
  if t.reassemblyExpireAt ≠ 0 ∧ t.reassemblyExpireAt ≤ now then t.dropOutOfOrder else t

def noteTimeout (now : Nat) : Tcb :=
  { t with
    retries := t.retries + 1
    timed := none
    retransmitAt := now + t.rto
    recover := none
    duplicateAcks := 0
    timeouts := t.timeouts + 1 }

/-- the timeout doubles, and the congestion state starts again from one segment -/
def backOff (now : Nat) : Tcb :=
  ((t.setRto (min (t.rto * 2) MAX_RTO)).setCongestion t.halfFlight MSS).noteTimeout now

def retryLimit : Nat :=
  if t.state = .SynSent ∨ t.state = .SynReceived then SYN_RETRIES else MAX_RETRIES

def giveUp : Tcb :=
  { t with retries := t.retries + 1, error := some .ETIMEDOUT }.abort env

def onClocks (now : Nat) : Tcb × Bool :=
  if t.expireAt ≠ 0 then
    if t.expireAt ≤ now then
      ({ t with state := .Closed, expireAt := 0, retransmitAt := 0, pending := [] }, true)
    else (t, false)
  else if t.retransmitAt = 0 ∨ now < t.retransmitAt then (t, false)
  else if t.retryLimit < t.retries + 1 then (t.giveUp env, true)
  else ((t.backOff now).retransmit env, false)

def onTimer (now : Nat) : Tcb × Bool :=
  (t.expireReassembly now).onClocks env now

end ClaudeOs.Net.Tcb
