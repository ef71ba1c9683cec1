import ClaudeOs.Console

/-!
# What poll reports of descriptors that are not files, and what a call on them would do

`ready_to_read` and `ready_to_write` of `syscall/file.rs` against `Pipe::read`, `EventFd::write`,
`console::read` and the others.  A call blocks when it gets as far as its sleep.

* `EventFd`, `Socket`  the counters and the socket pairs of `fs/chan.rs`;
* `OpenFile`  a descriptor's backing with the state a call on it finds;
* `OpenFile.pollIn`, `pollOut`  what `poll_state` reports;
* `OpenFile.read`, `write`  the calls, undisturbed and with no signal pending;
* `poll_in_agrees_iff`, `poll_out_agrees_iff`  where report and call agree, backing by backing.
-/

namespace ClaudeOs.Fs
open Console Terminal List

/-! ## event counters -/

def U64_MAX : Nat := 2 ^ 64 - 1

structure EventFd where
  count : Nat
  semaphore : Bool
  count_lt : count < U64_MAX

def fromLeBytes (bytes : List Byte) : Nat := bytes.foldr (fun byte rest => byte.toNat + 256 * rest) 0

def toLeBytes (value : Nat) : List Byte := (range 8).map fun i => UInt8.ofNat (value / 256 ^ i)

namespace EventFd

def new (initial : BitVec 32) (semaphore : Bool) : EventFd :=
  ⟨initial.toNat, semaphore, by have := initial.isLt; simp only [U64_MAX]; omega⟩

def readable (e : EventFd) : Bool := decide (0 < e.count)
def taken (e : EventFd) : Nat := if e.semaphore then 1 else e.count

def lower (e : EventFd) : EventFd :=
  ⟨e.count - e.taken, e.semaphore, Nat.lt_of_le_of_lt (Nat.sub_le ..) e.count_lt⟩

def read (e : EventFd) (size : Nat) (nonblock signal : Bool) : EventFd × Attempt (List Byte) :=
  if size < 8 then (e, .returns (.error .EINVAL))
  else if 0 < e.count then (e.lower, .returns (.ok (toLeBytes e.taken)))
  else (e, .wait nonblock signal)

/-- a sum past `u64::MAX` is refused by `checked_add`, and `u64::MAX` itself by the test after it -/
def write (e : EventFd) (buf : List Byte) (nonblock signal : Bool) : EventFd × Attempt Nat :=
  if buf.length < 8 then (e, .returns (.error .EINVAL))
  else
    let value := fromLeBytes (buf.take 8)
    if value = U64_MAX then (e, .returns (.error .EINVAL))
    else if h : e.count + value < U64_MAX then (⟨_, e.semaphore, h⟩, .returns (.ok 8))
    else (e, .wait nonblock signal)

end EventFd

/-! ## socket pairs -/

structure Socket where
  rx : Pipe
  tx : Pipe
  writeShut : Bool
  readShut : Bool

namespace Socket

def readable (s : Socket) : Bool := decide (0 < s.rx.available) || s.rx.writers == 0
def setRx (s : Socket) (rx : Pipe) : Socket := { s with rx := rx }
def setTx (s : Socket) (tx : Pipe) : Socket := { s with tx := tx }

def read (s : Socket) (size : Nat) (nonblock signal : Bool) : Socket × Attempt (List Byte) :=
  let result := s.rx.read size nonblock signal
  (s.setRx result.1, result.2)

def write (s : Socket) (buf : List Byte) (nonblock signal : Bool) : Socket × Attempt Nat :=
  let result := s.tx.write buf nonblock signal
  (s.setTx result.1, result.2)

end Socket

/-! ## descriptors -/

/-- a descriptor with the object it names; the terminal's with the process that asks -/
inductive OpenFile where
  | pipe (p : Pipe) (ends : PipeEnd)
  | socket (s : Socket)
  | eventFd (e : EventFd)
  | terminal (t : Terminal) (who : Terminal.Reader) (reads writes : Bool)

open OpenFile
namespace OpenFile

def readable : OpenFile → Bool
  | .pipe _ ends => ends.reads
  | .socket _ | .eventFd _ => true
  | .terminal _ _ reads _ => reads

def writable : OpenFile → Bool
  | .pipe _ ends => ends.writes
  | .socket _ | .eventFd _ => true
  | .terminal _ _ _ writes => writes

def readyToRead : OpenFile → Bool
  | .eventFd e => e.readable
  | .socket s => s.readable
  | .pipe p ends => if !ends.reads then true else decide (0 < p.available) || p.writers == 0
  | .terminal t _ _ _ => decide (0 < t.available)

def readyToWrite : OpenFile → Bool
  | .pipe p ends => !ends.writes || p.writableNow
  | .socket s => s.tx.writableNow
  | _ => true

/-- `POLLIN` of `poll_state` -/
def pollIn (f : OpenFile) : Bool := f.readable && f.readyToRead

/-- `POLLOUT` of `poll_state` -/
def pollOut (f : OpenFile) : Bool := f.writable && f.readyToWrite

def read (f : OpenFile) (size : Nat) : Attempt (List Byte) :=
  if !f.readable then .returns (.error .EBADF)
  else
    match f with
    | .pipe p _ => (p.read size false false).2
    | .socket s => (s.read size false false).2
    | .eventFd e => (e.read size false false).2
    | .terminal t who _ _ => (t.read who size false).2

/-- what a write that may sleep does, with no signal pending; the terminal waits for nobody -/
def write (f : OpenFile) (buf : List Byte) : Attempt Nat :=
  if !f.writable then .returns (.error .EBADF)
  else
    match f with
    | .pipe p _ => (p.write buf false false).2
    | .socket s => (s.write buf false false).2
    | .eventFd e => (e.write buf false false).2
    | .terminal _ _ _ _ => .returns (.ok buf.length)

/-- a read that the question is about: of something, and of eight bytes from a counter -/
def Reads (f : OpenFile) (size : Nat) : Prop :=
  match f with
  | .eventFd _ => size = 8
  | _ => size ≠ 0

/-- a write that the question is about: of one byte, and of the value 1 to a counter -/
def Writes (f : OpenFile) (buf : List Byte) : Prop :=
  match f with
  | .eventFd _ => buf = toLeBytes 1
  | _ => buf.length = 1

end OpenFile

/-! ## when the calls sleep -/

variable {p : Pipe} {size : Nat} {buf : List Byte} {e : EventFd}

lemma Pipe.read_sleeps_iff (hs : size ≠ 0) :
    (p.read size false false).2 = .sleeps ↔ p.available = 0 ∧ p.writers ≠ 0 := by
  unfold Pipe.read
  rw [if_neg hs]
  unfold Pipe.look
  by_cases ha : 0 < p.buffer.available
  · have hz : p.available ≠ 0 := Nat.ne_of_gt ha
    simp [ha, hz]
  · have hz : p.available = 0 := Nat.eq_zero_of_not_pos ha
    by_cases hw : p.writers = 0
    · simp [ha, hw]
    · simp [ha, hw, hz, Attempt.wait]

lemma Pipe.write_sleeps_iff (hb : buf.length = 1) :
    (p.write buf false false).2 = .sleeps ↔ p.readers ≠ 0 ∧ p.writableNow = false := by
  have hne : buf.isEmpty = false := by
    cases buf with
    | nil => cases hb
    | cons => rfl
  unfold Pipe.write
  rw [hne, if_neg (by simp)]
  by_cases hr : p.readers = 0
  · simp [hr]
  · rw [if_neg hr]
    unfold Pipe.append Pipe.writableNow
    by_cases hroom : p.buffer.available < PIPE_CAPACITY
    · simp [hroom]
    · simp [hroom, hr, Attempt.wait]

lemma EventFd.read_sleeps_iff : (e.read 8 false false).2 = .sleeps ↔ e.count = 0 := by
  unfold EventFd.read
  rw [if_neg (by decide)]
  by_cases h : 0 < e.count
  · simp only [if_pos h, reduceCtorEq, false_iff]
    omega
  · simp only [if_neg h, Attempt.wait, Bool.false_eq_true, if_false, true_iff]
    omega

lemma EventFd.write_sleeps_iff :
    (e.write (toLeBytes 1) false false).2 = .sleeps ↔ e.count + 1 = U64_MAX := by
  have hv : fromLeBytes ((toLeBytes 1).take 8) = 1 := by decide
  have hlt := e.count_lt
  unfold EventFd.write
  rw [if_neg (by decide)]
  simp only [hv]
  rw [if_neg (by decide)]
  by_cases h : e.count + 1 < U64_MAX
  · simp only [dif_pos h, reduceCtorEq, false_iff]
    omega
  · simp only [dif_neg h, Attempt.wait, Bool.false_eq_true, if_false, true_iff]
    omega

lemma available_pos_iff {t : Terminal} : 0 < t.available ↔ t.holdsLine = true ∨ t.input ≠ [] := by
  unfold available
  by_cases h : t.holdsLine = true
  · have hlt : t.line.pos < t.line.data.length := by
      simp only [holdsLine, Bool.and_eq_true, decide_eq_true_eq] at h
      exact h.2
    rw [if_pos h]
    exact ⟨fun _ => .inl h, fun _ => by omega⟩
  · simp [h, length_pos_iff]

/-! ## where report and call agree -/

/-- what is reported readable is a line with bytes left and any input at all; a read takes a line
end, an end of file or an empty line, in raw mode any input, and only for who may read -/
def TerminalAgrees (t : Terminal) (who : Terminal.Reader) : Prop :=
  match claimTerminal who with
  | .refused => t.holdsLine = true ∨ t.input ≠ []
  | .stopped => t.holdsLine = false ∧ t.input = []
  | .granted =>
    if t.termios.icanon then
      if t.holdsLine = true then True
      else if t.input = [] then t.line.eof = false ∧ ¬(t.line.ready = true ∧ t.line.data = [])
      else t.line.eof = true ∨ (t.line.ready = true ∧ t.line.data = []) ∨
        t.input.any endsLine = true
    else t.input ≠ [] ∨ t.holdsLine = false

namespace OpenFile

/-- an end that reads always; a socket end and a counter always -/
def ReadAgrees : OpenFile → Prop
  | .pipe _ ends => ends.reads = true
  | .socket _ | .eventFd _ => True
  | .terminal t who reads _ => reads = true ∧ TerminalAgrees t who

/-- not a full pipe without a reader, nor a counter that one more would overflow -/
def WriteAgrees : OpenFile → Prop
  | .pipe p ends => ends.writes = true ∧ (p.readers = 0 → p.buffer.available < PIPE_CAPACITY)
  | .socket s => s.tx.readers = 0 → s.tx.buffer.available < PIPE_CAPACITY
  | .eventFd e => e.count + 1 ≠ U64_MAX
  | .terminal _ _ _ writes => writes = true

end OpenFile

lemma terminal_agrees_iff (t : Terminal) (who : Terminal.Reader) (hs : size ≠ 0) :
    (0 < t.available ↔ (t.read who size false).2 ≠ .sleeps) ↔ TerminalAgrees t who := by
  rw [available_pos_iff, Ne, Ne, read_sleeps_iff who hs, TerminalAgrees]
  cases claimTerminal who with
  | refused => simp
  | stopped => simp [not_or]
  | granted =>
    by_cases hc : t.termios.icanon = true
    · simp only [hc, if_true]
      by_cases hh : t.holdsLine = true
      · simp [hh, settled]
      · by_cases hi : t.input = []
        · simp only [hh, hi, settled, any_nil, and_true]
          cases t.line.eof <;> cases t.line.ready <;> simp
        · simp only [hh, hi, settled]
          cases t.line.eof <;> cases t.line.ready <;> by_cases hd : t.line.data = [] <;> simp [hd]
    · simp only [hc]
      by_cases hi : t.input = [] <;> simp [hi]

lemma pipe_reads_iff (hs : size ≠ 0) :
    (decide (0 < p.available) || p.writers == 0) = true ↔ (p.read size false false).2 ≠ .sleeps := by
  rw [ne_eq, Pipe.read_sleeps_iff hs]
  simp only [Bool.or_eq_true, decide_eq_true_eq, beq_iff_eq]
  omega

lemma pipe_writes_iff (hb : buf.length = 1) :
    (p.writableNow = true ↔ (p.write buf false false).2 ≠ .sleeps) ↔
      (p.readers = 0 → p.buffer.available < PIPE_CAPACITY) := by
  rw [ne_eq, Pipe.write_sleeps_iff hb]
  unfold Pipe.writableNow
  by_cases hroom : p.buffer.available < PIPE_CAPACITY <;> simp [hroom]

lemma poll_in_agrees_iff (f : OpenFile) (hs : f.Reads size) :
    (f.pollIn = true ↔ f.read size ≠ .sleeps) ↔ f.ReadAgrees := by
  cases f with
  | pipe p ends =>
    by_cases he : ends.reads = true
    · have h := pipe_reads_iff (p := p) hs
      simp only [OpenFile.pollIn, OpenFile.readable, OpenFile.readyToRead, OpenFile.read,
        OpenFile.ReadAgrees, he, Bool.not_true, Bool.false_eq_true, if_false, Bool.true_and, iff_true]
      exact h
    · simp [OpenFile.pollIn, OpenFile.readable, OpenFile.read, OpenFile.ReadAgrees, he]
  | socket s =>
    have h := pipe_reads_iff (p := s.rx) hs
    simp only [OpenFile.ReadAgrees, iff_true]
    exact h
  | eventFd e =>
    obtain rfl : size = 8 := hs
    have h := EventFd.read_sleeps_iff (e := e)
    simp only [OpenFile.ReadAgrees, iff_true]
    show decide (0 < e.count) = true ↔ (e.read 8 false false).2 ≠ .sleeps
    rw [decide_eq_true_eq, ne_eq, h]
    omega
  | terminal t who reads writes =>
    cases reads with
    | true =>
      have h := terminal_agrees_iff t who hs
      simp only [OpenFile.ReadAgrees, true_and]
      rw [← h, ← decide_eq_true_iff (p := 0 < t.available)]
      rfl
    | false => simp [OpenFile.pollIn, OpenFile.readable, OpenFile.read, OpenFile.ReadAgrees]

lemma poll_out_agrees_iff (f : OpenFile) (hb : f.Writes buf) :
    (f.pollOut = true ↔ f.write buf ≠ .sleeps) ↔ f.WriteAgrees := by
  cases f with
  | pipe p ends =>
    by_cases he : ends.writes = true
    · have h := pipe_writes_iff (p := p) hb
      simp only [OpenFile.pollOut, OpenFile.writable, OpenFile.readyToWrite, OpenFile.write,
        OpenFile.WriteAgrees, he, Bool.not_true, Bool.false_eq_true, if_false, Bool.true_and,
        Bool.false_or, true_and]
      exact h
    · simp [OpenFile.pollOut, OpenFile.writable, OpenFile.write, OpenFile.WriteAgrees, he]
  | socket s => exact pipe_writes_iff (p := s.tx) hb
  | eventFd e =>
    obtain rfl : buf = toLeBytes 1 := hb
    show (true = true ↔ (e.write (toLeBytes 1) false false).2 ≠ .sleeps) ↔ e.count + 1 ≠ U64_MAX
    rw [ne_eq, EventFd.write_sleeps_iff]
    simp
  | terminal t who reads writes =>
    cases writes <;>
      simp [OpenFile.pollOut, OpenFile.writable, OpenFile.readyToWrite, OpenFile.write,
        OpenFile.WriteAgrees]

/-- **where poll agrees with the calls** on a pipe end, a socket pair's end, a counter and the
terminal: exactly under `ReadAgrees` and `WriteAgrees` -/
theorem descriptor_poll_agrees_iff (f : OpenFile) (size : Nat) (buf : List Byte) (hs : f.Reads size)
    (hb : f.Writes buf) : ((f.pollIn = true ↔ f.read size ≠ .sleeps) ↔ f.ReadAgrees) ∧
      ((f.pollOut = true ↔ f.write buf ≠ .sleeps) ↔ f.WriteAgrees) :=
  ⟨poll_in_agrees_iff f hs, poll_out_agrees_iff f hb⟩

def freshPipe : Pipe := ⟨.empty, 1, 1⟩

/-- an empty pipe can be written to and not read from -/
theorem descriptor_poll_agrees_fresh : (pipe freshPipe .Read).pollIn = false ∧
      (pipe freshPipe .Write).pollOut = true ∧
      ((pipe freshPipe .Read).pollIn = true ↔
        (pipe freshPipe .Read).read 1 ≠ .sleeps) ∧
      ((pipe freshPipe .Write).pollOut = true ↔
        (pipe freshPipe .Write).write [7] ≠ .sleeps) :=
  ⟨rfl, rfl,
    (descriptor_poll_agrees_iff (.pipe freshPipe .Read) 1 [7] Nat.one_ne_zero rfl).1.mpr rfl,
    (descriptor_poll_agrees_iff (.pipe freshPipe .Write) 1 [7] Nat.one_ne_zero rfl).2.mpr
      ⟨rfl, by decide⟩⟩

/-- the pipe after one write of all it holds and the close of its reader -/
def stranded : Pipe :=
  { (freshPipe.write (replicate PIPE_CAPACITY 0) false false).1 with readers := 0 }

lemma write_fits (hne : buf ≠ []) (hr : p.readers ≠ 0)
    (hfits : p.buffer.available + buf.length ≤ PIPE_CAPACITY) (nonblock signal : Bool) :
    (p.write buf nonblock signal).1.buffer.available = p.buffer.available + buf.length := by
  have hpos : 0 < buf.length := length_pos_iff.mpr hne
  have hmin : min buf.length (PIPE_CAPACITY - p.buffer.available) = buf.length := by omega
  have happ : p.append buf = some ({ p with buffer := p.buffer.extend buf }, buf) := by
    unfold Pipe.append
    rw [if_pos (by omega), hmin]
    simp only [take_length]
  unfold Pipe.write
  rw [if_neg (by simpa using hne), if_neg hr, happ]
  show (p.buffer.extend buf).available = _
  rw [← Buffer.length_unread, Buffer.unread_extend, length_append, Buffer.length_unread]

lemma stranded_available : stranded.buffer.available = PIPE_CAPACITY := by
  have hlen : (replicate PIPE_CAPACITY (0 : Byte)).length = PIPE_CAPACITY := length_replicate
  have hne : replicate PIPE_CAPACITY (0 : Byte) ≠ [] := by
    rw [← length_pos_iff, hlen]
    exact Nat.mul_pos (by decide) (by decide)
  have h := write_fits (p := freshPipe) hne Nat.one_ne_zero
    (by rw [hlen]; exact Nat.le_of_eq (Nat.zero_add _)) false false
  rw [hlen] at h
  exact h.trans (Nat.zero_add _)

def fullCounter : EventFd := ((EventFd.new 0 false).write (toLeBytes (U64_MAX - 1)) false false).1
def typed : Terminal := (new.pushByte 97).1
def shell : Terminal.Reader := ⟨2, 2, 2, false, false⟩

/-- **poll and the calls part** on a full pipe without a reader, a counter at its limit, and a
terminal with half a line typed -/
theorem descriptor_poll_disagrees : ((pipe stranded .Write).pollOut = false ∧
      (pipe stranded .Write).write [7] = .returns (.error .EPIPE)) ∧
    ((eventFd fullCounter).pollOut = true ∧
      (eventFd fullCounter).write (toLeBytes 1) = .sleeps) ∧
    (terminal typed shell true true).pollIn = true ∧
      (terminal typed shell true true).read 16 = .sleeps := by
  refine ⟨⟨?_, rfl⟩, by decide +kernel, by decide +kernel⟩
  show (true && (!true || stranded.writableNow)) = false
  simp [Pipe.writableNow, stranded_available]

end ClaudeOs.Fs
