import ClaudeOs.Net.Sockets

/-!
# The DHCP client

`net/dhcp.rs`, with the configuration of `net/mod.rs`.  The client decides and its caller acts: one
call of `poll` takes what the socket holds, looks at the clock, and gives the messages to send and
the configurations to publish, in order.

* `Config`, `Config.new`  what a machine's addresses can be;
* `Options`, `Reply.parse`  what a server sends, from any bytes;
* `options_joined`  the options of a message, whatever fields they are spread over;
* `Lease`, `State`, `Client`  the client, with the numbers it draws from the generator;
* `Client.onReply`, `Client.pass`  one reply, and one round of the timer's loop;
* `Client.poll`, `Client.polls`  one call, and any sequence of calls;
* `configuration_replayed`  the configurations published, replayed, are the lease's.
-/

namespace ClaudeOs.Net.Dhcp
open List Option

/-! ## configurations -/

def MAX_NAMESERVERS : Nat := 3

structure Config where
  address : Addr
  netmask : Addr
  gateway : Option Addr
  nameservers : List Addr
  deriving DecidableEq, Repr

inductive Unusable where
  | address | netmask | edge | gateway
  deriving DecidableEq, Repr

namespace Config

def onLink (c : Config) (other : Addr) : Bool := (other &&& c.netmask) == (c.address &&& c.netmask)

def answers (server : Addr) : Bool :=
  !(Addr.isUnspecified server || Addr.isBroadcast server || Addr.isMulticast server)

def new (address netmask : Addr) (gateway : Option Addr) (nameservers : List Addr) :
    Except Unusable Config :=
  if !Addr.isHost address then .error .address
  else
    let hostBits := ~~~netmask
    if netmask == 0 || hostBits &&& (hostBits + 1) != 0 then .error .netmask
    else if 1 < hostBits && (address &&& hostBits == 0 || address &&& hostBits == hostBits) then
      .error .edge
    else
      let config : Config :=
        ⟨address, netmask, gateway, (nameservers.filter answers).take MAX_NAMESERVERS⟩
      match gateway with
      | none => .ok config
      | some router =>
        if router == address || !Addr.isHost router || !config.onLink router then .error .gateway
        else .ok config

def classNetmask (address : Addr) : Addr :=
  if address >>> 24 ≤ 127 then 0xFF000000
  else if address >>> 24 ≤ 191 then 0xFFFF0000
  else 0xFFFFFF00

end Config

/-! ## what a server sends -/

def SERVER_PORT : BitVec 16 := 67
def OP_REQUEST : Byte := 1
def OP_REPLY : Byte := 2
def HARDWARE_ETHERNET : Byte := 1
def HARDWARE_LEN : Byte := 6
def FLAG_BROADCAST : BitVec 16 := 0x8000
def COOKIE_AT : Nat := 236
def OPTIONS_AT : Nat := 240
def MAGIC_COOKIE : List Byte := [99, 130, 83, 99]
def MIN_MESSAGE_LEN : Nat := 300
def DISCOVER : Byte := 1
def OFFER : Byte := 2
def REQUEST : Byte := 3
def ACK : Byte := 5
def NAK : Byte := 6
def OPTION_PAD : Byte := 0
def OPTION_NETMASK : Byte := 1
def OPTION_ROUTERS : Byte := 3
def OPTION_NAMESERVERS : Byte := 6
def OPTION_REQUESTED_ADDRESS : Byte := 50
def OPTION_LEASE_TIME : Byte := 51
def OPTION_OVERLOAD : Byte := 52
def OPTION_MESSAGE_TYPE : Byte := 53
def OPTION_SERVER : Byte := 54
def OPTION_PARAMETERS : Byte := 55
def OPTION_RENEWAL_TIME : Byte := 58
def OPTION_REBINDING_TIME : Byte := 59
def OPTION_CLIENT_ID : Byte := 61
def OPTION_END : Byte := 255

def PARAMETERS : List Byte :=
  [OPTION_NETMASK, OPTION_ROUTERS, OPTION_NAMESERVERS, OPTION_LEASE_TIME, OPTION_RENEWAL_TIME,
    OPTION_REBINDING_TIME]

def area (bytes : List Byte) (start stop : Nat) : List Byte :=
  (bytes.drop start).take (stop - start)

def word (bytes : List Byte) : BitVec 32 :=
  bytes.foldl (fun acc b => acc <<< 8 ||| b.toBitVec.setWidth 32) 0

structure Reply where
  kind : Byte
  xid : BitVec 32
  chaddr : List Byte
  yiaddr : Addr
  server : Option Addr
  netmask : Option Addr
  routers : List Addr
  nameservers : List Addr
  leaseSeconds : Option Nat
  renewalSeconds : Option Nat
  rebindingSeconds : Option Nat
  deriving DecidableEq, Repr

/-- an option that may be absent but has to decode when it is there; `none` is one that does not -/
def optional {α : Type} (value : Option (List Byte)) (decode : List Byte → Option α) :
    Option (Option α) :=
  match value with
  | none => some none
  | some bytes => (decode bytes).map some

def oneByte : List Byte → Option Byte
  | [byte] => some byte
  | _ => none

def address : List Byte → Option Addr
  | [a, b, c, d] => some (word [a, b, c, d])
  | _ => none

def addressList : List Byte → Option (List Addr)
  | [] => some []
  | a :: b :: c :: d :: rest => (addressList rest).map (word [a, b, c, d] :: ·)
  | _ => none

def addresses (value : List Byte) : Option (List Addr) :=
  if value.isEmpty then none else addressList value

def seconds : List Byte → Option Nat
  | [a, b, c, d] => some (word [a, b, c, d]).toNat
  | _ => none

abbrev Options := List (Byte × List Byte)

namespace Options

def join : Options → Byte → List Byte → Options
  | [], code, value => [(code, value)]
  | (existing, joined) :: rest, code, value =>
    if existing = code then (existing, joined ++ value) :: rest
    else (existing, joined) :: join rest code value

/-- one area of options, as far as its end option or its last byte; `none` when a length runs past
the area -/
def read (o : Options) : List Byte → Option Options
  | [] => some o
  | code :: rest =>
    if code = OPTION_END then some o
    else if code = OPTION_PAD then o.read rest
    else
      match rest with
      | [] => none
      | length :: rest =>
        if length.toNat ≤ rest.length then
          (o.join code (rest.take length.toNat)).read (rest.drop length.toNat)
        else none
  termination_by bytes => bytes.length
  decreasing_by
    · exact Nat.lt_succ_self rest.length
    · rw [length_drop, length_cons, length_cons]
      omega

def get (o : Options) (code : Byte) : Option (List Byte) :=
  (o.find? fun entry => entry.1 == code).map Prod.snd

/-- option 52: the file and server name fields hold more options, read in that order -/
def overloaded (o : Options) (bytes : List Byte) : Option Byte → Option Options
  | none => some o
  | some overload =>
    if overload < 1 || 3 < overload then none
    else do
      let o ← if overload &&& 1 != 0 then o.read (area bytes 108 236) else some o
      if overload &&& 2 != 0 then o.read (area bytes 44 108) else some o

end Options

def Reply.parse (bytes : List Byte) : Option Reply :=
  if bytes.length < OPTIONS_AT then none
  else if area bytes 0 3 != [OP_REPLY, HARDWARE_ETHERNET, HARDWARE_LEN] then none
  else if area bytes COOKIE_AT OPTIONS_AT != MAGIC_COOKIE then none
  else do
    let options ← Options.read [] (bytes.drop OPTIONS_AT)
    let overload ← optional (options.get OPTION_OVERLOAD) oneByte
    let options ← options.overloaded bytes overload
    let kind ← (← optional (options.get OPTION_MESSAGE_TYPE) oneByte)
    let server ← optional (options.get OPTION_SERVER) address
    let netmask ← optional (options.get OPTION_NETMASK) address
    let routers ← optional (options.get OPTION_ROUTERS) addresses
    let nameservers ← optional (options.get OPTION_NAMESERVERS) addresses
    let leaseSeconds ← optional (options.get OPTION_LEASE_TIME) seconds
    let renewalSeconds ← optional (options.get OPTION_RENEWAL_TIME) seconds
    let rebindingSeconds ← optional (options.get OPTION_REBINDING_TIME) seconds
    return ⟨kind, word (area bytes 4 8), area bytes 28 34, word (area bytes 16 20), server, netmask,
      routers.getD [], nameservers.getD [], leaseSeconds, renewalSeconds, rebindingSeconds⟩

/-! ## what a field of options says -/

def IsOption (code : Byte) : Prop := code ≠ OPTION_END ∧ code ≠ OPTION_PAD

/-- the options of a field in the order they stand, up to its end mark -/
inductive Entries : List Byte → Options → Prop
  | nil : Entries [] []
  | stop (rest : List Byte) : Entries (OPTION_END :: rest) []
  | pad {rest : List Byte} {es : Options} : Entries rest es → Entries (OPTION_PAD :: rest) es
  | option {code length : Byte} {value rest : List Byte} {es : Options} : IsOption code →
      value.length = length.toNat → Entries rest es →
      Entries (code :: length :: (value ++ rest)) ((code, value) :: es)

/-- a field with an option whose length runs past it -/
inductive Overruns : List Byte → Prop
  | bare {code : Byte} : IsOption code → Overruns [code]
  | short {code length : Byte} {rest : List Byte} : IsOption code → rest.length < length.toNat →
      Overruns (code :: length :: rest)
  | pad {rest : List Byte} : Overruns rest → Overruns (OPTION_PAD :: rest)
  | option {code length : Byte} {value rest : List Byte} : IsOption code →
      value.length = length.toNat → Overruns rest → Overruns (code :: length :: (value ++ rest))

namespace Options
variable (o : Options)

def joins (es : Options) : Options := es.foldl (fun o entry => o.join entry.1 entry.2) o

def valuesOf : Options → Byte → List (List Byte)
  | [], _ => []
  | (existing, value) :: es, code =>
    if existing = code then value :: valuesOf es code else valuesOf es code

lemma overruns_or_entries (o : Options) (field : List Byte) :
    Overruns field ∨ ∃ es, Entries field es := by
  fun_induction read o field with
  | case1 => exact .inr ⟨[], .nil⟩
  | case2 o rest => exact .inr ⟨[], .stop rest⟩
  | case3 o rest _ ih => exact ih.imp .pad (.imp fun _ => .pad)
  | case4 o code hend hpad => exact .inl (.bare ⟨hend, hpad⟩)
  | case5 o code hend hpad length rest hle ih =>
    have hlen := length_take_of_le hle
    rw [← take_append_drop length.toNat rest]
    obtain hover | ⟨es, hes⟩ := ih
    · exact .inl (hover.option ⟨hend, hpad⟩ hlen)
    · exact .inr ⟨_, hes.option ⟨hend, hpad⟩ hlen⟩
  | case6 o code hend hpad length rest hgt => exact .inl (.short ⟨hend, hpad⟩ (by omega))

lemma read_pad (rest : List Byte) : o.read (OPTION_PAD :: rest) = o.read rest := by
  rw [read.eq_def]
  exact (if_neg (by decide)).trans (if_pos rfl)

lemma read_option {code length : Byte} {value rest : List Byte} (hcode : IsOption code)
    (hlen : value.length = length.toNat) :
    o.read (code :: length :: (value ++ rest)) = (o.join code value).read rest := by
  rw [read, if_neg hcode.1, if_neg hcode.2, length_append, if_pos (by omega), ← hlen,
    take_left, drop_left]

lemma read_of_entries {field : List Byte} {es : Options} (h : Entries field es) :
    o.read field = some (o.joins es) := by
  induction h generalizing o with
  | nil => rw [read]; rfl
  | stop rest => unfold read; rfl
  | pad _ ih => rw [read_pad, ih]
  | option hcode hlen _ ih =>
    rw [read_option o hcode hlen, ih]
    rfl

lemma read_of_overruns {field : List Byte} (h : Overruns field) : o.read field = none := by
  induction h generalizing o with
  | bare hcode => rw [read, if_neg hcode.1, if_neg hcode.2]
  | short hcode hlt => rw [read, if_neg hcode.1, if_neg hcode.2, if_neg (by omega)]
  | pad _ ih => rw [read_pad, ih]
  | option hcode hlen _ ih => rw [read_option o hcode hlen, ih]

variable (code : Byte) (value : List Byte) (c : Byte)

lemma get_cons : get ((code, value) :: o) c = if code = c then some value else o.get c := by
  unfold get
  by_cases h : code = c
  · simp [h]
  · simp [h]

lemma get_join : (o.join code value).get c =
    if code = c then some ((o.get c).getD [] ++ value) else o.get c := by
  induction o with
  | nil => exact get_cons [] code value c
  | cons entry rest ih =>
    unfold join
    split
    · next h => grind [get_cons]
    · next h => grind [get_cons]

/-- what stands under a code: what was there, and the values of the new options in their order -/
lemma get_joins (es : Options) : (o.joins es).get c = if es.valuesOf c = [] then o.get c
    else some ((o.get c).getD [] ++ (es.valuesOf c).flatten) := by
  induction es generalizing o with
  | nil => rfl
  | cons entry es ih =>
    have hjoins : o.joins (entry :: es) = (o.join entry.1 entry.2).joins es := rfl
    rw [hjoins, ih, get_join, valuesOf]
    grind

variable {fields : List (List Byte)}

lemma reads_of_overruns {field : List Byte} (hf : field ∈ fields) (h : Overruns field) :
    fields.foldlM read o = none := by
  induction hf generalizing o with
  | head fields => rw [foldlM_cons, read_of_overruns o h, bind_eq_bind, bind_none]
  | tail first _ ih =>
    rw [foldlM_cons]
    exact bind_eq_none_iff.2 fun o' _ => ih o'

lemma reads_of_entries {es : List Byte → Options} (h : ∀ field ∈ fields, Entries field (es field)) :
    fields.foldlM read o = some (o.joins (fields.flatMap es)) := by
  induction fields generalizing o with
  | nil => rfl
  | cons field fields ih =>
    rw [forall_mem_cons] at h
    rw [foldlM_cons, read_of_entries o h.1, bind_eq_bind, bind_some, ih _ h.2,
      flatMap_cons, joins, joins, joins, foldl_append]

/-- the fields that option 52 adds, in the order they are read -/
def selected (bytes : List Byte) (overload : Byte) : List (List Byte) :=
  (if overload &&& 1 != 0 then [area bytes 108 236] else []) ++
    if overload &&& 2 != 0 then [area bytes 44 108] else []

lemma overloaded_eq (bytes : List Byte) {v : Byte} (hv : ¬(v < 1 || 3 < v)) :
    o.overloaded bytes (some v) = (selected bytes v).foldlM read o := by
  unfold overloaded selected
  dsimp only
  rw [if_neg hv]
  split <;> split <;> simp

end Options

open Options in
/-- **the options of a message**, from its option field and those that option 52 adds to it: they are
refused just when a length runs past its field, and else each code has the values of all its
occurrences, up to the end mark of each field, joined in their order -/
theorem options_joined (fields : List (List Byte)) :
    (fields.foldlM read [] = none ↔ ∃ field ∈ fields, Overruns field) ∧
    (∀ o, fields.foldlM read [] = some o → ∃ es : List Byte → Options,
      (∀ field ∈ fields, Entries field (es field)) ∧
      ∀ code, o.get code = if valuesOf (fields.flatMap es) code = [] then none
        else some (valuesOf (fields.flatMap es) code).flatten) ∧
    ∀ (o : Options) (bytes : List Byte) (v : Byte), v = 1 ∨ v = 2 ∨ v = 3 →
      o.overloaded bytes (some v) = (selected bytes v).foldlM read o := by
  rw [← and_assoc]
  refine ⟨?_, fun o bytes v hv => o.overloaded_eq bytes ?_⟩
  · by_cases hover : ∃ field ∈ fields, Overruns field
    · obtain ⟨field, hf, h⟩ := hover
      rw [reads_of_overruns [] hf h]
      exact ⟨iff_of_true rfl ⟨field, hf, h⟩, nofun⟩
    · have hentries (field : List Byte) : ∃ es, field ∈ fields → Entries field es := by
        obtain h | ⟨es, h⟩ := overruns_or_entries [] field
        · exact ⟨[], fun hf => absurd ⟨field, hf, h⟩ hover⟩
        · exact ⟨es, fun _ => h⟩
      choose es hes using hentries
      rw [reads_of_entries [] hes]
      refine ⟨iff_of_false nofun hover, fun o ho => ⟨es, hes, fun code => ?_⟩⟩
      obtain rfl := some.inj ho
      exact get_joins [] code _
  · rcases hv with rfl | rfl | rfl <;> decide

/-! ## what the client sends -/

structure Outgoing where
  kind : Byte
  xid : BitVec 32
  secs : Nat
  broadcast : Bool
  ciaddr : Addr
  requested : Option Addr
  server : Option Addr

def toBeBytes (n value : Nat) : List Byte :=
  (range n).map fun i => UInt8.ofNat (value / 256 ^ (n - 1 - i))

def Outgoing.addressOption (code : Byte) : Option Addr → List Byte
  | none => []
  | some address => [code, 4] ++ toBeBytes 4 address.toNat

def Outgoing.build (o : Outgoing) (mac : List Byte) : List Byte :=
  let out := [OP_REQUEST, HARDWARE_ETHERNET, HARDWARE_LEN, 0] ++ toBeBytes 4 o.xid.toNat ++
    toBeBytes 2 o.secs ++ toBeBytes 2 (if o.broadcast then FLAG_BROADCAST.toNat else 0) ++
    toBeBytes 4 o.ciaddr.toNat ++ replicate 12 0 ++ mac ++ replicate 10 0 ++
    replicate (64 + 128) 0 ++ MAGIC_COOKIE ++ [OPTION_MESSAGE_TYPE, 1, o.kind] ++
    [OPTION_CLIENT_ID, 7, HARDWARE_ETHERNET] ++ mac ++
    addressOption OPTION_REQUESTED_ADDRESS o.requested ++ addressOption OPTION_SERVER o.server ++
    [OPTION_PARAMETERS, UInt8.ofNat PARAMETERS.length] ++ PARAMETERS ++ [OPTION_END]
  out ++ replicate (MIN_MESSAGE_LEN - out.length) OPTION_PAD

/-! ## the client -/

def HZ : Nat := 100
def FIRST_RETRANSMIT : Nat := 4 * HZ
def MAX_RETRANSMIT : Nat := 64 * HZ
def JITTER : Nat := HZ
def REQUEST_ATTEMPTS : Nat := 4
def MIN_RENEW_RETRANSMIT : Nat := 60 * HZ
def DEFAULT_LEASE_SECONDS : Nat := 3600
def MIN_LEASE_SECONDS : Nat := 20
def INFINITE : Nat := 0xFFFFFFFF
def U64_MAX : Nat := 2 ^ 64 - 1

/-- the generator: the numbers it gives, and how many were drawn -/
structure Rng where
  values : Nat → BitVec 64
  drawn : Nat

def Rng.nextU64 (r : Rng) : BitVec 64 × Rng := (r.values r.drawn, ⟨r.values, r.drawn + 1⟩)

def randomized (delay : Nat) (r : Rng) : Nat × Rng :=
  (delay - JITTER + r.nextU64.1.toNat % (2 * JITTER + 1), r.nextU64.2)

/-- the wait after the `sent`th message of a DISCOVER or first REQUEST -/
def backoff (sent : Nat) (r : Rng) : Nat × Rng :=
  randomized (min (FIRST_RETRANSMIT <<< min (sent - 1) 4) MAX_RETRANSMIT) r

/-- when a REQUEST goes again in RENEWING or REBINDING, where the next state takes over at `stop` -/
def retransmitBefore (now stop : Nat) : Nat :=
  min (min (now + max ((stop - now) / 2) MIN_RENEW_RETRANSMIT) U64_MAX) stop

structure Exchange where
  xid : BitVec 32
  began : Nat
  firstSent : Nat
  sent : Nat
  deadline : Nat

def Exchange.new (now : Nat) (r : Rng) : Exchange × Rng :=
  (⟨r.nextU64.1.setWidth 32, now, now, 0, now⟩, r.nextU64.2)

def Exchange.secs (e : Exchange) (now : Nat) : Nat := min ((now - e.began) / HZ) (2 ^ 16 - 1)

def Exchange.again (e : Exchange) (deadline : Nat) : Exchange :=
  { e with sent := e.sent + 1, deadline := deadline }

structure Offer where
  address : Addr
  server : Addr

structure Lease where
  config : Config
  server : Addr
  seconds : Nat
  renewAt : Nat
  rebindAt : Nat
  expiresAt : Nat

def Lease.new (config : Config) (server : Addr) (reply : Reply) (start : Nat) : Lease :=
  let seconds := max (reply.leaseSeconds.getD DEFAULT_LEASE_SECONDS) MIN_LEASE_SECONDS
  if seconds = INFINITE then ⟨config, server, seconds, U64_MAX, U64_MAX, U64_MAX⟩
  else
    let t2 := (reply.rebindingSeconds.filter (· ≤ seconds)).getD (seconds * 7 / 8)
    let t1 := (reply.renewalSeconds.filter (· ≤ t2)).getD (min (seconds / 2) t2)
    ⟨config, server, seconds, start + t1 * HZ, start + t2 * HZ, start + seconds * HZ⟩

inductive State where
  /-- nothing held and nothing asked; the first DISCOVER goes at `due` -/
  | Init (due : Nat)
  | Selecting (exchange : Exchange)
  | Requesting (exchange : Exchange) (offer : Offer)
  | Bound (lease : Lease)
  | Renewing (exchange : Exchange) (lease : Lease)
  | Rebinding (exchange : Exchange) (lease : Lease)

inductive Effect where
  | Send (dest : Addr) (message : List Byte)
  | Configure (config : Option Config)

structure Client where
  mac : List Byte
  nameserver : Option Addr
  state : State
  linkUp : Bool
  rng : Rng

namespace Client

def new (mac : List Byte) (nameserver : Option Addr) (now : Nat) (rng : Rng) : Client :=
  ⟨mac, nameserver, .Init now, false, rng⟩

section
variable (c : Client) (now : Nat)

def setState (state : State) : Client := { c with state := state }
def setRng (rng : Rng) : Client := { c with rng := rng }

def lease : Option Lease :=
  match c.state with
  | .Bound lease | .Renewing _ lease | .Rebinding _ lease => some lease
  | .Init _ | .Selecting _ | .Requesting _ _ => none

/-- the tick at which `poll` next has something to do if nothing arrives -/
def nextDeadline : Nat :=
  match c.state with
  | .Init due => due
  | .Selecting exchange | .Requesting exchange _ => exchange.deadline
  | .Bound lease => lease.renewAt
  | .Renewing exchange lease => min exchange.deadline lease.rebindAt
  | .Rebinding exchange lease => min exchange.deadline lease.expiresAt

def send (dest : Addr) (message : Outgoing) : Effect :=
  .Send dest (message.build c.mac)

def configFrom (reply : Reply) : Except Unusable Config :=
  let netmask := reply.netmask.getD (Config.classNetmask reply.yiaddr)
  let gateway := reply.routers.find? fun router =>
    (Config.new reply.yiaddr netmask (some router) []).isOk
  let nameservers := match c.nameserver with
    | some server => [server]
    | none => reply.nameservers
  Config.new reply.yiaddr netmask gateway nameservers

def startOver : Client :=
  (c.setRng (randomized FIRST_RETRANSMIT c.rng).2).setState
    (.Init (now + (randomized FIRST_RETRANSMIT c.rng).1))

def takeLease (reply : Reply) (server : Addr) (start now : Nat) : Client × List Effect :=
  match c.configFrom reply with
  | .error _ => (c.startOver now, if c.lease.isSome then [.Configure none] else [])
  | .ok config =>
    (c.setState (.Bound (.new config server reply start)),
      if c.lease.any (·.config = config) then [] else [.Configure (some config)])

def answered (reply : Reply) (exchange : Exchange) (lease : Lease) (now : Nat) :
    Client × List Effect :=
  if reply.kind = ACK then
    c.takeLease reply (reply.server.getD lease.server) exchange.firstSent now
  else if reply.kind = NAK then (c.startOver now, [.Configure none])
  else (c, [])

def onReply (reply : Reply) (now : Nat) : Client × List Effect :=
  if reply.chaddr ≠ c.mac then (c, [])
  else
    match c.state with
    | .Selecting exchange =>
      if reply.xid ≠ exchange.xid ∨ reply.kind ≠ OFFER then (c, [])
      else
        match reply.server, c.configFrom reply with
        | some server, .ok _ =>
          (c.setState (.Requesting { exchange with firstSent := now, sent := 0, deadline := now }
            ⟨reply.yiaddr, server⟩), [])
        | _, _ => (c, [])
    | .Requesting exchange offer =>
      if reply.xid ≠ exchange.xid then (c, [])
      else if reply.server.any (· ≠ offer.server) then (c, [])
      else if reply.kind = ACK then c.takeLease reply offer.server exchange.firstSent now
      else if reply.kind = NAK then (c.startOver now, [])
      else (c, [])
    | .Renewing exchange lease =>
      -- a renewal goes to the server that granted the lease, so only its answer counts
      if reply.xid ≠ exchange.xid then (c, [])
      else if reply.server.any (· ≠ lease.server) then (c, [])
      else c.answered reply exchange lease now
    | .Rebinding exchange lease =>
      if reply.xid ≠ exchange.xid then (c, [])
      else c.answered reply exchange lease now
    | .Init _ | .Bound _ => (c, [])

def begin (state : Exchange → State) : Client :=
  (c.setRng (Exchange.new now c.rng).2).setState (state (Exchange.new now c.rng).1)

def sendAndWait (exchange : Exchange) (message : Outgoing) (state : Exchange → State) :
    Client × List Effect :=
  let wait := backoff (exchange.sent + 1) c.rng
  ((c.setRng wait.2).setState (state (exchange.again (now + wait.1))), [c.send 0xFFFFFFFF message])

/-- one round of the timer's loop: what it does, and whether the loop goes on -/
def pass : (Client × List Effect) × Bool :=
  match c.state with
  | .Init due => if now < due then ((c, []), false) else ((c.begin now .Selecting, []), true)
  | .Selecting exchange =>
    if now < exchange.deadline then ((c, []), false)
    else
      (c.sendAndWait now exchange ⟨DISCOVER, exchange.xid, exchange.secs now, true, 0, none, none⟩
        .Selecting, false)
  | .Requesting exchange offer =>
    if now < exchange.deadline then ((c, []), false)
    else if REQUEST_ATTEMPTS ≤ exchange.sent then ((c.setState (.Init now), []), true)
    else
      (c.sendAndWait now exchange ⟨REQUEST, exchange.xid, exchange.secs now, true, 0,
        some offer.address, some offer.server⟩ (.Requesting · offer), false)
  | .Bound lease =>
    if now < lease.renewAt then ((c, []), false) else ((c.begin now (.Renewing · lease), []), true)
  | .Renewing exchange lease =>
    if lease.rebindAt ≤ now then ((c.begin now (.Rebinding · lease), []), true)
    else if now < exchange.deadline then ((c, []), false)
    else
      ((c.setState (.Renewing (exchange.again (retransmitBefore now lease.rebindAt)) lease),
        [c.send lease.server ⟨REQUEST, exchange.xid, exchange.secs now, false, lease.config.address,
          none, none⟩]), false)
  | .Rebinding exchange lease =>
    if lease.expiresAt ≤ now then ((c.setState (.Init now), [.Configure none]), true)
    else if now < exchange.deadline then ((c, []), false)
    else
      ((c.setState (.Rebinding (exchange.again (retransmitBefore now lease.expiresAt)) lease),
        [c.send 0xFFFFFFFF ⟨REQUEST, exchange.xid, exchange.secs now, false, lease.config.address,
          none, none⟩]), false)

def onTimer (now : Nat) : Nat → Client → Client × List Effect
  | 0, c => (c, [])
  | rounds + 1, c =>
    let first := c.pass now
    if first.2 then
      let rest := onTimer now rounds first.1.1
      (rest.1, first.1.2 ++ rest.2)
    else first.1

structure Received where
  bytes : List Byte
  port : Option (BitVec 16)

/-- what one call of `poll` finds: the clock, the link and the socket -/
structure Tick where
  now : Nat
  up : Bool
  received : List Received

/-- the link has come up: what is under way is asked again now, and a lease is kept -/
def onLink : Client :=
  match c.state with
  | .Init _ | .Selecting _ | .Requesting _ _ => c.setState (.Init now)
  | .Renewing exchange lease => c.setState (.Renewing { exchange with deadline := now } lease)
  | .Rebinding exchange lease => c.setState (.Rebinding { exchange with deadline := now } lease)
  | .Bound _ => c

def setLink (up : Bool) : Client := { c with linkUp := up }

def onReceived (r : Received) : Client × List Effect :=
  if r.port ≠ some SERVER_PORT then (c, [])
  else
    match Reply.parse r.bytes with
    | some reply => c.onReply reply now
    | none => (c, [])

def onReceiveds (now : Nat) : List Received → Client → Client × List Effect
  | [], c => (c, [])
  | r :: rs, c =>
    let first := c.onReceived now r
    let rest := onReceiveds now rs first.1
    (rest.1, first.2 ++ rest.2)

def poll (t : Tick) : Client × List Effect :=
  let linked := (if t.up && !c.linkUp then c.onLink t.now else c).setLink t.up
  let heard := onReceiveds t.now (t.received.take 64) linked
  let timed := onTimer t.now 8 heard.1
  (timed.1, heard.2 ++ timed.2)

end

def polls : List Tick → Client → Client × List Effect
  | [], c => (c, [])
  | t :: ts, c =>
    let first := c.poll t
    let rest := polls ts first.1
    (rest.1, first.2 ++ rest.2)

end Client

/-! ## the configurations published -/

def Effect.apply (held : Option Config) : Effect → Option Config
  | .Send _ _ => held
  | .Configure config => config

def replay (held : Option Config) (effects : List Effect) : Option Config :=
  effects.foldl Effect.apply held

def Effect.sends : Effect → Bool
  | .Send _ _ => true
  | .Configure _ => false

def Lease.Ordered (lease : Lease) : Prop :=
  lease.renewAt ≤ lease.rebindAt ∧ lease.rebindAt ≤ lease.expiresAt

lemma taken_le {time : Option Nat} {bound other : Nat} (h : other ≤ bound) :
    (time.filter (· ≤ bound)).getD other ≤ bound := by
  cases hf : time.filter (· ≤ bound) with
  | none => exact h
  | some x => exact of_decide_eq_true (filter_eq_some_iff.mp hf).2

lemma Lease.ordered_new (config : Config) (server : Addr) (reply : Reply) (start : Nat) :
    (Lease.new config server reply start).Ordered := by
  unfold Lease.new
  dsimp only
  split
  · exact ⟨Nat.le_refl _, Nat.le_refl _⟩
  · refine ⟨Nat.add_le_add_left (Nat.mul_le_mul_right _ ?_) _,
      Nat.add_le_add_left (Nat.mul_le_mul_right _ ?_) _⟩
    · exact taken_le (Nat.min_le_right ..)
    · exact taken_le (by omega)

namespace Client

def config (c : Client) : Option Config := c.lease.map (·.config)
def Ordered (c : Client) : Prop := ∀ lease, c.lease = some lease → lease.Ordered

/-- what was emitted takes the configuration before to the one after -/
structure Keeps (c : Client) (r : Client × List Effect) : Prop where
  publishes : replay c.config r.2 = r.1.config
  ordered : c.Ordered → r.1.Ordered

structure Heard (c : Client) (r : Client × List Effect) : Prop extends Keeps c r where
  silent : r.2.countP Effect.sends = 0

variable {c c' : Client}

lemma ordered_of_none (h : c.lease = none) : c.Ordered := by
  intro lease hl
  rw [h] at hl
  cases hl

lemma Heard.still (h : c'.lease = c.lease) : c.Heard (c', []) where
  publishes := congrArg (Option.map _) h.symm
  ordered hc lease hl := hc lease (h.symm.trans hl)
  silent := rfl

lemma Heard.dropped (h : c'.lease = none) : c.Heard (c', [.Configure none]) where
  publishes := (congrArg (Option.map _) h).symm
  ordered _ := ordered_of_none h
  silent := rfl

lemma Keeps.still (h : c'.lease = c.lease) : c.Keeps (c', []) := (Heard.still h).toKeeps

lemma Keeps.sent (h : c'.lease = c.lease) (dest : Addr) (message : List Byte) :
    c.Keeps (c', [.Send dest message]) where
  publishes := congrArg (Option.map _) h.symm
  ordered hc lease hl := hc lease (h.symm.trans hl)

lemma Keeps.append {r r' : Client × List Effect} (h : c.Keeps r) (h' : r.1.Keeps r') :
    c.Keeps (r'.1, r.2 ++ r'.2) where
  publishes := by
    rw [replay, foldl_append]
    show replay (replay c.config r.2) r'.2 = r'.1.config
    rw [h.publishes, h'.publishes]
  ordered hc := h'.ordered (h.ordered hc)

lemma heard_takeLease (reply : Reply) (server : Addr) (start now : Nat) :
    c.Heard (c.takeLease reply server start now) := by
  unfold takeLease
  cases hconfig : c.configFrom reply with
  | error reason =>
    cases hlease : c.lease with
    | none => exact .still hlease.symm
    | some lease => exact .dropped rfl
  | ok config =>
    have hbound : (c.setState (.Bound (.new config server reply start))).config = some config := by
      show some (Lease.new config server reply start).config = some config
      unfold Lease.new
      dsimp only
      split <;> rfl
    refine ⟨⟨?_, fun _ lease hl => some.inj hl ▸ Lease.ordered_new ..⟩, ?_⟩
    swap
    · dsimp only
      split <;> rfl
    show replay c.config (if c.lease.any _ then _ else _) = Client.config _
    rw [hbound]
    cases hlease : c.lease with
    | none => rfl
    | some lease =>
      by_cases hsame : lease.config = config
      · rw [any_some, decide_eq_true hsame, if_pos rfl, Client.config, hlease, ← hsame]
        rfl
      · rw [any_some, decide_eq_false hsame, if_neg Bool.false_ne_true]
        rfl

lemma heard_answered (reply : Reply) (exchange : Exchange) (lease : Lease) (now : Nat) :
    c.Heard (c.answered reply exchange lease now) := by
  unfold answered
  split
  · exact heard_takeLease reply _ _ now
  · split
    · exact .dropped rfl
    · exact .still rfl

lemma heard_onReply (reply : Reply) (now : Nat) : c.Heard (c.onReply reply now) := by
  unfold onReply
  split
  · exact .still rfl
  · cases hstate : c.state with
    | Init due => exact .still rfl
    | Bound lease => exact .still rfl
    | Selecting exchange =>
      have hnone : c.lease = none := by rw [lease, hstate]
      dsimp only
      repeat' split
      · exact .still rfl
      · exact .still hnone.symm
      · exact .still rfl
    | Requesting exchange offer =>
      have hnone : c.lease = none := by rw [lease, hstate]
      dsimp only
      repeat' split
      · exact .still rfl
      · exact .still rfl
      · exact heard_takeLease reply _ _ now
      · exact .still hnone.symm
      · exact .still rfl
    | Renewing exchange lease =>
      dsimp only
      repeat' split
      · exact .still rfl
      · exact .still rfl
      · exact heard_answered reply exchange lease now
    | Rebinding exchange lease =>
      dsimp only
      split
      · exact .still rfl
      · exact heard_answered reply exchange lease now

lemma pass_keeps (now : Nat) : c.Keeps (c.pass now).1 := by
  unfold pass
  -- the lease is read off the state
  obtain ⟨mac, nameserver, state, linkUp, rng⟩ := c
  cases state with
  | Init due =>
    dsimp only
    split <;> exact .still rfl
  | Selecting exchange =>
    dsimp only
    split
    · exact .still rfl
    · exact .sent (by rfl) _ _
  | Requesting exchange offer =>
    dsimp only
    repeat' split
    · exact .still rfl
    · exact .still rfl
    · exact .sent (by rfl) _ _
  | Bound held =>
    dsimp only
    split <;> exact .still rfl
  | Renewing exchange held =>
    dsimp only
    repeat' split
    · exact .still rfl
    · exact .still rfl
    · exact .sent (by rfl) _ _
  | Rebinding exchange held =>
    dsimp only
    repeat' split
    · exact (Heard.dropped (by rfl)).toKeeps
    · exact .still rfl
    · exact .sent (by rfl) _ _

lemma onTimer_keeps (now rounds : Nat) (c : Client) : c.Keeps (onTimer now rounds c) := by
  induction rounds generalizing c with
  | zero => exact .still rfl
  | succ rounds ih =>
    unfold onTimer
    dsimp only
    split
    · exact (pass_keeps now).append (ih _)
    · exact pass_keeps now

lemma heard_onReceiveds (now : Nat) (rs : List Received) (c : Client) :
    c.Heard (onReceiveds now rs c) := by
  induction rs generalizing c with
  | nil => exact .still rfl
  | cons r rs ih =>
    have hfirst : c.Heard (c.onReceived now r) := by
      unfold onReceived
      repeat' split
      · exact .still rfl
      · exact heard_onReply _ now
      · exact .still rfl
    refine ⟨hfirst.toKeeps.append (ih _).toKeeps, ?_⟩
    show countP _ (_ ++ _) = 0
    rw [countP_append, hfirst.silent, (ih _).silent]

def linked (c : Client) (t : Tick) : Client :=
  (if t.up && !c.linkUp then c.onLink t.now else c).setLink t.up

lemma lease_linked (t : Tick) : (c.linked t).lease = c.lease := by
  unfold linked
  split
  · unfold onLink
    obtain ⟨mac, nameserver, state, linkUp, rng⟩ := c
    cases state <;> rfl
  · rfl

lemma poll_keeps (t : Tick) : c.Keeps (c.poll t) := ((Heard.still (lease_linked t)).toKeeps.append
    (heard_onReceiveds t.now (t.received.take 64) _).toKeeps).append (onTimer_keeps t.now 8 _)

lemma polls_keeps (ts : List Tick) (c : Client) : c.Keeps (polls ts c) := by
  induction ts generalizing c with
  | nil => exact .still rfl
  | cons t ts ih => exact (poll_keeps t).append (ih _)

end Client

/-- **the configurations published are the lease's**: replaying what any calls emitted gives the
configuration of the lease held -/
theorem configuration_replayed (mac : List Byte) (nameserver : Option Addr) (start : Nat)
    (rng : Rng) (ticks : List Client.Tick) :
    replay none (Client.polls ticks (.new mac nameserver start rng)).2 =
      (Client.polls ticks (.new mac nameserver start rng)).1.lease.map (·.config) :=
  (Client.polls_keeps ticks (.new mac nameserver start rng)).publishes

end ClaudeOs.Net.Dhcp
