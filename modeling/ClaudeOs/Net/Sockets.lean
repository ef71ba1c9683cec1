import ClaudeOs.Net.Poll
import ClaudeOs.Net.Send

/-!
# The table of sockets

`net/socket.rs`, with `accept_connection` and `receive` of `net/tcp.rs`: the objects descriptors
point at, the table an arriving segment is matched against, and the calls that change them.  A
socket is named by its place in `Stack.socks`; places are never reused.

* `Endpoint`, `Config`  addresses, and the configuration that `Config::new` lets through;
* `Sock`  a socket: its connection and what `socket.rs` keeps beside it;
* `Stack`  every socket ever made, the table, the port counter, the configuration;
* `lookupStream`, `lookupListener`, `portTaken`, `allocatePort`  what the table is asked;
* `receive`, `onTick`  a segment that arrives, and the timers.

`initial_sequence` draws a number per connection, `HELD_BYTES` is shared by all of them; both come
with the call that meets them.
-/

namespace ClaudeOs.Net

/-! ## addresses -/

abbrev Addr := BitVec 32

namespace Addr

def isUnspecified (a : Addr) : Bool := a == 0
def isBroadcast (a : Addr) : Bool := a == 0xFFFFFFFF
def isMulticast (a : Addr) : Bool := a >>> 28 == 0xE
def isLoopback (a : Addr) : Bool := a >>> 24 == 127
def isHost (a : Addr) : Bool := a >>> 24 != 0 && a >>> 24 != 127 && decide (a >>> 24 < 224)

end Addr

structure Endpoint where
  address : Addr
  port : BitVec 16
  deriving DecidableEq, Repr

def Endpoint.unspecified : Endpoint := ⟨0, 0⟩

structure Config where
  address : Addr
  netmask : Addr
  host : Addr.isHost address = true

def Config.broadcast (c : Config) : Addr := c.address ||| ~~~c.netmask

inductive SocketError where
  | EADDRNOTAVAIL | EADDRINUSE | EINVAL | EALREADY | EISCONN | ENETUNREACH | EOPNOTSUPP
  deriving DecidableEq, Repr

/-! ## sockets -/

structure Sock where
  stream : Bool
  /-- the connection; a datagram socket's stays as it was made -/
  tcb : Tcb
  localEnd : Endpoint
  remote : Endpoint
  bound : Bool
  backlog : Nat
  children : List Nat
  detached : Bool
  /-- a port is had by binding -/
  named : localEnd.port ≠ 0 → bound = true

namespace Sock

def new (stream : Bool) (heldBytes : Nat) : Sock where
  stream := stream
  tcb := .new heldBytes
  localEnd := .unspecified
  remote := .unspecified
  bound := false
  backlog := 1
  children := []
  detached := false
  named := fun h => absurd rfl h

variable (s : Sock)

def setTcb (tcb : Tcb) : Sock := { s with tcb := tcb }
def setLocal (endpoint : Endpoint) : Sock :=
  { s with localEnd := endpoint, bound := true, named := fun _ => rfl }
def setRemote (endpoint : Endpoint) : Sock :=
  if s.stream then s else { s with remote := endpoint }
def setChildren (children : List Nat) : Sock := { s with children := children }
def detach : Sock := { s with detached := true }

/-- a conversation: a stream socket that neither listens nor is closed -/
def live : Bool := s.stream && s.tcb.state != .Listen && s.tcb.state != .Closed

def listening : Bool := s.stream && s.tcb.state == .Listen
def meeting (heldBytes : Nat) : Tcb := s.tcb.setHeld s.tcb.held heldBytes

end Sock

def matchesLocal (bound endpoint : Endpoint) : Bool :=
  bound.port == endpoint.port &&
    (Addr.isUnspecified bound.address || bound.address == endpoint.address)

def Sock.hit (s : Sock) (endpoint remote : Endpoint) : Bool :=
  s.live && s.remote == remote && matchesLocal s.localEnd endpoint

structure Stack where
  socks : List Sock
  table : List Nat
  nextEphemeral : BitVec 16
  config : Option Config

def EPHEMERAL_FIRST : BitVec 16 := 49152
def EPHEMERAL_LAST : BitVec 16 := 65535

variable {f : Sock → Sock} {t : Sock}

namespace Stack

def empty : Stack := ⟨[], [], EPHEMERAL_FIRST, none⟩

section
variable (w : Stack) (id : Nat)

def setTable (table : List Nat) : Stack := { w with table := table }
def setNext (next : BitVec 16) : Stack := { w with nextEphemeral := next }
def setConfig (config : Option Config) : Stack := { w with config := config }

def modify (w : Stack) (id : Nat) (f : Sock → Sock) : Stack :=
  { w with socks := w.socks.modify id f }

lemma modify_cases {w : Stack} {id a : Nat} {s' : Sock} (h : (w.modify id f).socks[a]? = some s') :
    (a = id ∧ ∃ s, w.socks[id]? = some s ∧ s' = f s) ∨ (a ≠ id ∧ w.socks[a]? = some s') := by
  rw [modify, List.getElem?_modify] at h
  cases hw : w.socks[a]? with
  | none => simp [hw] at h
  | some s =>
    rw [hw] at h
    have h : (if id = a then f s else s) = s' := Option.some.inj h
    by_cases hid : id = a
    · subst hid
      rw [if_pos rfl] at h
      exact .inl ⟨rfl, s, hw, h.symm⟩
    · rw [if_neg hid] at h
      exact .inr ⟨Ne.symm hid, by rw [h]⟩

def push (s : Sock) : Stack := { w with socks := w.socks ++ [s] }

def register : Stack :=
  if id ∈ w.table then w else w.setTable (w.table ++ [id])

def unregister : Stack := w.setTable (w.table.filter fun other => other != id)
def asks (test : Sock → Bool) : Bool := (w.socks[id]?).any test

end

section
variable {w : Stack} {a b : Nat} {test : Sock → Bool}

lemma asks_iff : w.asks b test = true ↔ ∃ t, w.socks[b]? = some t ∧ test t = true := by
  rw [asks, Option.any_eq_true]

lemma asks_lt (h : w.asks b test = true) : b < w.socks.length := by
  obtain ⟨t, ht, -⟩ := asks_iff.1 h
  exact (List.getElem?_eq_some_iff.1 ht).1

lemma push_cases {s : Sock} (h : (w.push s).socks[a]? = some t) :
    w.socks[a]? = some t ∨ (a = w.socks.length ∧ t = s) := by
  rw [push, List.getElem?_append] at h
  split at h
  · exact .inl h
  · rename_i hge
    obtain ⟨hi, rfl⟩ := List.getElem?_eq_some_iff.1 h
    have hi : a - w.socks.length < 1 := hi
    exact .inr ⟨by omega, by simp⟩

lemma asks_push (hb : b < w.socks.length) : (w.push t).asks b test = w.asks b test := by
  rw [asks, asks, push, List.getElem?_append_left hb]

lemma asks_modify :
    (w.modify a f).asks b test = w.asks b fun t => test (if a = b then f t else t) := by
  rw [asks, asks, modify, List.getElem?_modify, Option.map_eq_map, Option.any_map]

lemma asks_modify_ne (h : b ≠ a) : (w.modify a f).asks b test = w.asks b test := by
  rw [asks_modify]
  simp only [if_neg (Ne.symm h)]

lemma mem_register (a : Nat) : a ∈ (w.register a).table := by
  rw [register]
  split
  · assumption
  · simp [setTable]

lemma register_socks (w : Stack) (a : Nat) : (w.register a).socks = w.socks := by
  unfold register
  split <;> rfl

end

/-! ## what the table is asked -/

section
variable (w : Stack) (id : Nat)

def lookupStream (endpoint remote : Endpoint) : Option Nat :=
  w.table.find? fun id => w.asks id fun s => s.hit endpoint remote

def lookupListener (endpoint : Endpoint) : Option Nat :=
  (w.table.find? fun id => w.asks id fun s =>
    s.listening && matchesLocal s.localEnd endpoint && s.localEnd.address == endpoint.address).or
  (w.table.find? fun id => w.asks id fun s => s.listening && matchesLocal s.localEnd endpoint)

section
variable (stream : Bool) (port : BitVec 16)

/-- the test of `port_taken` on one socket: one whose descriptor is gone does not hold its port -/
def holdsPort (s : Sock) : Bool :=
  s.stream == stream && !s.detached && s.bound && s.localEnd.port == port

def portTaken (except : Option Nat) : Bool :=
  w.table.any fun id => decide (some id ≠ except) && w.asks id (holdsPort stream port)

def drawPort (next : BitVec 16) : BitVec 16 × BitVec 16 :=
  if next < EPHEMERAL_FIRST then (EPHEMERAL_FIRST, EPHEMERAL_FIRST + 1) else (next, next + 1)

def allocateLoop (w : Stack) (stream : Bool) :
    Nat → BitVec 16 → BitVec 16 × Except SocketError (BitVec 16)
  | 0, next => (next, .error .EADDRINUSE)
  | tries + 1, next =>
    let drawn := drawPort next
    if w.portTaken stream drawn.1 none then w.allocateLoop stream tries drawn.2
    else (drawn.2, .ok drawn.1)

def allocatePort : BitVec 16 × Except SocketError (BitVec 16) :=
  w.allocateLoop stream (EPHEMERAL_LAST - EPHEMERAL_FIRST).toNat w.nextEphemeral

/-! ## binding -/

def holds (address : Addr) : Bool :=
  Addr.isUnspecified address || Addr.isBroadcast address || Addr.isLoopback address ||
    w.config.any fun config => config.address == address

/-- the port a bind gets: the one asked for if it is free, or one from the counter -/
def choosePort : BitVec 16 × Except SocketError (BitVec 16) :=
  if port = 0 then w.allocatePort stream
  else if w.portTaken stream port (some id) then (w.nextEphemeral, .error .EADDRINUSE)
  else (w.nextEphemeral, .ok port)

end

def bindable (s : Sock) : Bool := !s.bound && (!s.stream || s.tcb.state == .Closed)

def bind (requested : Endpoint) : Stack × Except SocketError Unit :=
  if !w.holds requested.address then (w, .error .EADDRNOTAVAIL)
  else
    let chosen := w.choosePort id (w.asks id Sock.stream) requested.port
    let w := w.setNext chosen.1
    match chosen.2 with
    | .error e => (w, .error e)
    | .ok port =>
      if w.asks id bindable then
        ((w.modify id fun s => s.setLocal ⟨requested.address, port⟩).register id, .ok ())
      else (w, .error .EINVAL)

def bindEphemeral : Stack × Except SocketError Unit :=
  if w.asks id fun s => s.localEnd.port != 0 then (w, .ok ()) else w.bind id .unspecified

/-! ## stream sockets -/

def startListening (s : Sock) (backlog : Nat) : Sock :=
  { s with tcb := { s.tcb with state := .Listen }, backlog := min (max backlog 1) 128 }

def listen (backlog : Nat) : Stack × Except SocketError Unit :=
  if !w.asks id Sock.stream then (w, .error .EOPNOTSUPP)
  else
    match w.bindEphemeral id with
    | (w, .error e) => (w, .error e)
    | (w, .ok ()) =>
      if w.asks id fun s => s.tcb.state == .Closed || s.tcb.state == .Listen then
        (w.modify id (startListening · backlog), .ok ())
      else (w, .error .EINVAL)

def childState : Option State := (w.socks[id]?).map fun s => s.tcb.state

def deadChildren : List Nat :=
  ((w.socks[id]?).map Sock.children).getD [] |>.filter fun c => w.childState c == some .Closed

def readyChild : Option Nat :=
  ((w.socks[id]?).map Sock.children).getD [] |>.find? fun c =>
    (w.childState c).any State.isSynchronised

def keptChildren (children : List Nat) : List Nat :=
  children.filter fun c => !(w.deadChildren id).contains c && decide (some c ≠ w.readyChild id)

def acceptReady : Stack × Except SocketError (Option Nat) :=
  if !w.asks id Sock.stream then (w, .error .EOPNOTSUPP)
  else if w.asks id Sock.listening then
    ((w.deadChildren id).foldl unregister
      (w.modify id fun s => s.setChildren (w.keptChildren id s.children)), .ok (w.readyChild id))
  else (w, .error .EINVAL)

/-- the address to send from when talking to `destination` -/
def sourceFor (destination : Addr) : Except SocketError Addr :=
  if Addr.isLoopback destination then .ok 0x7F000001
  else
    match w.config with
    | some config => .ok config.address
    | none => if Addr.isBroadcast destination then .ok 0 else .error .ENETUNREACH

end

section
variable (env : Env) (w : Stack) (id : Nat)

def startConnecting (source : Addr) (remote : Endpoint) (heldBytes : Nat) (iss : Seq) (s : Sock) :
    Sock :=
  { s with
    localEnd := ⟨source, s.localEnd.port⟩
    named := s.named
    remote := remote
    tcb := (s.meeting heldBytes).openActive env iss }

/-- what `connect` does with the state it finds, the socket being bound -/
def openFrom (source : Addr) (remote : Endpoint) (heldBytes : Nat) (iss : Seq) :
    Stack × Except SocketError Unit :=
  match w.childState id with
  | some .Closed => (w.modify id (startConnecting env source remote heldBytes iss), .ok ())
  | some .SynSent => (w, .error .EALREADY)
  | some .Listen => (w, .error .EINVAL)
  | _ => (w, .error .EISCONN)

def connectStream (remote : Endpoint) (heldBytes : Nat) (iss : Seq) :
    Stack × Except SocketError Unit :=
  if Addr.isBroadcast remote.address || Addr.isMulticast remote.address then
    (w, .error .ENETUNREACH)
  else
    match w.sourceFor remote.address with
    | .error e => (w, .error e)
    | .ok source =>
      match w.bindEphemeral id with
      | (w, .error e) => (w, .error e)
      | (w, .ok ()) => openFrom env w id source remote heldBytes iss

/-- `connect`; what its `poll` then delivers arrives in steps of its own -/
def connect (remote : Endpoint) (heldBytes : Nat) (iss : Seq) : Stack × Except SocketError Unit :=
  if remote.port == 0 || Addr.isUnspecified remote.address then (w, .error .EINVAL)
  else if w.asks id Sock.stream then connectStream env w id remote heldBytes iss
  else
    match w.bindEphemeral id with
    | (w, .error e) => (w, .error e)
    | (w, .ok ()) => (w.modify id fun s => s.setRemote remote, .ok ())

/-! ## closing -/

/-- what the last descriptor's end starts on the connection -/
def closeTcb (t : Tcb) : Tcb :=
  let t := t.abandon env
  if t.state == .Listen then { t with state := .Closed }
  else if !t.received.isEmpty then t.abort env
  else t.shutdownWrite env

def resetChild : Stack :=
  (w.modify id fun s => s.detach.setTcb (s.tcb.abort env)).unregister id

def close (heldBytes : Nat) : Stack :=
  if !w.asks id Sock.stream then (w.modify id Sock.detach).unregister id
  else
    let children := ((w.socks[id]?).map Sock.children).getD []
    let w := w.modify id fun s =>
      (s.detach.setTcb (closeTcb env (s.meeting heldBytes))).setChildren []
    let w := children.foldl (resetChild env) w
    if w.childState id == some .Closed then w.unregister id else w

/-! ## segments and timers -/

/-- a segment as it arrives: who it is from, where it was sent, and what it says -/
structure Arrival where
  source : Endpoint
  destination : Endpoint
  segment : Segment
  deriving DecidableEq, Repr

/-- what the IP layer hands to TCP: sent to this machine and to nobody else -/
def forUs (destination : Addr) : Bool :=
  (Addr.isLoopback destination || w.config.any fun config => config.address == destination) &&
    !Addr.isBroadcast destination && !Addr.isMulticast destination &&
    !w.config.any fun config => config.broadcast == destination

def childOf (arrival : Arrival) (heldBytes : Nat) (iss : Seq) : Sock :=
  { Sock.new true heldBytes with
    localEnd := arrival.destination
    remote := arrival.source
    bound := true
    named := fun _ => rfl
    tcb := ((Tcb.new heldBytes).acceptOpen env arrival.segment iss).sendSynAck env }

def hasRoom (s : Sock) : Bool := decide (s.children.length < s.backlog)

def acceptConnection (listener : Nat) (arrival : Arrival) (heldBytes : Nat) (iss : Seq) : Stack :=
  if w.asks listener hasRoom then
    let child := w.socks.length
    ((w.push (childOf env arrival heldBytes iss)).register child).modify listener fun s =>
      s.setChildren (s.children ++ [child])
  else w

def isRequest (segment : Segment) : Bool :=
  segment.has SYN && segment.flags &&& (ACK ||| RST) == 0

def receive (arrival : Arrival) (heldBytes : Nat) (iss : Seq) : Stack :=
  if !w.forUs arrival.destination.address then w
  else
    match w.lookupStream arrival.destination arrival.source with
    | some id =>
      w.modify id fun s => s.setTcb ((s.meeting heldBytes).onSegment env arrival.segment).1
    | none =>
      if isRequest arrival.segment then
        match w.lookupListener arrival.destination with
        | some listener => acceptConnection env w listener arrival heldBytes iss
        | none => w
      else w

/-- the timers of one socket; one that is closed with its descriptor gone leaves the table -/
def tickOne (now : Nat) (w : Stack) (id : Nat) : Stack :=
  if w.asks id Sock.stream then
    let w := w.modify id fun s => s.setTcb (s.tcb.onTimer env now).1
    if w.asks id fun s => s.tcb.state == .Closed && s.detached then w.unregister id else w
  else w

def onTick (now : Nat) : Stack := w.table.foldl (tickOne env now) w

end

/-! ## every call -/

inductive Action where
  | socket (stream : Bool) (heldBytes : Nat)
  | bind (id : Nat) (requested : Endpoint)
  | listen (id backlog : Nat)
  | connect (env : Env) (id : Nat) (remote : Endpoint) (heldBytes : Nat) (iss : Seq)
  | accept (id : Nat)
  | close (env : Env) (id heldBytes : Nat)
  | write (env : Env) (id : Nat) (buf : List Byte)
  | read (env : Env) (id size : Nat) (peek : Bool)
  | shutdown (env : Env) (id : Nat) (read write : Bool)
  | arrive (env : Env) (arrival : Arrival) (heldBytes : Nat) (iss : Seq)
  | tick (env : Env) (now : Nat)
  | configure (config : Option Config)

def onTcb (w : Stack) (id : Nat) (f : Tcb → Tcb) : Stack :=
  w.modify id fun s => if s.stream then s.setTcb (f s.tcb) else s

def step (w : Stack) : Action → Stack
  | .socket stream heldBytes => w.push (.new stream heldBytes)
  | .bind id requested => (w.bind id requested).1
  | .listen id backlog => (w.listen id backlog).1
  | .connect env id remote heldBytes iss => (connect env w id remote heldBytes iss).1
  | .accept id => (w.acceptReady id).1
  | .close env id heldBytes => close env w id heldBytes
  | .write env id buf => w.onTcb id fun t => (t.write env buf).1
  | .read env id size peek => w.onTcb id fun t => (t.read env size peek).1
  | .shutdown env id read write => w.onTcb id fun t => (t.shutdown env read write).1
  | .arrive env arrival heldBytes iss => receive env w arrival heldBytes iss
  | .tick env now => onTick env w now
  | .configure config => w.setConfig config

end Stack
end ClaudeOs.Net
