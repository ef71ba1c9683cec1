import ClaudeOs.Lib.Run

/-!
# Pipes: readers and writers that meet at one buffer

`fs/pipe.rs`.  The buffer is looked at under its lock and the counts of open ends are looked at
without it, so a call is a sequence of sections and a task may be preempted between any two.

* `Buffer`  the bytes, with the index of the first one not read yet;
* `Pipe`  the buffer and the counts; `Pipe.look`, `Pipe.append` are the locked sections of `read`
  and `write`, `Pipe.read`, `Pipe.write` the calls undisturbed;
* `Traffic`  a pipe with the calls under way on it, `Action` one section of one call;
* `Action.atEnd`  the section in which a read finds the end of file and returns 0;
* `pipe_end_of_file`  what has been read is a prefix of what was written, and with it what a read
  that returned 0 found.
-/

namespace ClaudeOs.Fs
open List Option Function

abbrev Byte := UInt8

inductive Errno where
  | EAGAIN | EPIPE | EINTR | EINVAL | EBADF | Eio
  deriving DecidableEq, Repr

/-- a call made with nobody in between: it returns, or gets as far as going to sleep -/
inductive Attempt (α : Type) where
  | returns (result : Except Errno α)
  | sleeps
  deriving DecidableEq

/-- where a blocking loop found nothing: `EAGAIN`, `EINTR` or sleep -/
def Attempt.wait {α : Type} (nonblock signal : Bool) : Attempt α :=
  if nonblock then .returns (.error .EAGAIN)
  else if signal then .returns (.error .EINTR)
  else .sleeps

def PIPE_CAPACITY : Nat := 64 * 1024

inductive PipeEnd where
  | Read | Write | Both
  deriving DecidableEq, Repr

def PipeEnd.reads (e : PipeEnd) : Bool := e == .Read || e == .Both
def PipeEnd.writes (e : PipeEnd) : Bool := e == .Write || e == .Both

/-! ## the buffer -/

structure Buffer where
  data : List Byte
  head : Nat
  head_le : head ≤ data.length

variable {n size : Nat}

namespace Buffer

def empty : Buffer := ⟨[], 0, Nat.le_refl 0⟩
def available (b : Buffer) : Nat := b.data.length - b.head
def unread (b : Buffer) : List Byte := b.data.drop b.head

/-- the head moved over `n` bytes; a buffer read to its end starts again from nothing -/
def advance (b : Buffer) (n : Nat) (h : n ≤ b.available) : Buffer :=
  if b.head + n = b.data.length then empty
  else ⟨b.data, b.head + n, by have := b.head_le; unfold available at h; omega⟩

def extend (b : Buffer) (bytes : List Byte) : Buffer :=
  ⟨b.data ++ bytes, b.head, by have := b.head_le; rw [length_append]; omega⟩

variable {b : Buffer}

@[simp] lemma unread_empty : empty.unread = [] := rfl
@[simp] lemma length_unread : b.unread.length = b.available := length_drop
lemma unread_advance (h : n ≤ b.available) : (b.advance n h).unread = b.unread.drop n := by
  unfold advance
  split
  · rename_i hall
    rw [unread_empty, eq_comm, drop_eq_nil_iff, length_unread, available]
    omega
  · rw [unread, unread, drop_drop]

@[simp] lemma unread_extend (bytes : List Byte) : (b.extend bytes).unread = b.unread ++ bytes :=
  drop_append_of_le_length b.head_le

end Buffer

/-! ## the pipe -/

structure Pipe where
  buffer : Buffer
  readers : Nat
  writers : Nat

namespace Pipe

def available (p : Pipe) : Nat := p.buffer.available

def writableNow (p : Pipe) : Bool := decide (p.buffer.available < PIPE_CAPACITY)

/-- the locked section of `read`: what it takes into `size` bytes, if there is anything -/
def look (p : Pipe) (size : Nat) : Option (Pipe × List Byte) :=
  if 0 < p.buffer.available then
    let n := min p.buffer.available size
    some ({ p with buffer := p.buffer.advance n (Nat.min_le_left ..) }, p.buffer.unread.take n)
  else none

/-- the locked section of `write`: what it appends, if there is room -/
def append (p : Pipe) (buf : List Byte) : Option (Pipe × List Byte) :=
  if p.buffer.available < PIPE_CAPACITY then
    let n := min buf.length (PIPE_CAPACITY - p.buffer.available)
    some ({ p with buffer := p.buffer.extend (buf.take n) }, buf.take n)
  else none

def read (p : Pipe) (size : Nat) (nonblock signal : Bool) : Pipe × Attempt (List Byte) :=
  if size = 0 then (p, .returns (.ok []))
  else
    match p.look size with
    | some (p', bytes) => (p', .returns (.ok bytes))
    | none => (p, if p.writers = 0 then .returns (.ok []) else .wait nonblock signal)

/-- `write`; SIGPIPE goes with the `EPIPE` -/
def write (p : Pipe) (buf : List Byte) (nonblock signal : Bool) : Pipe × Attempt Nat :=
  if buf.isEmpty then (p, .returns (.ok 0))
  else if p.readers = 0 then (p, .returns (.error .EPIPE))
  else
    match p.append buf with
    | some (p', bytes) => (p', .returns (.ok bytes.length))
    | none => (p, .wait nonblock signal)

variable {p p' : Pipe} {bytes : List Byte}

lemma look_some (h : p.look size = some (p', bytes)) :
    p'.readers = p.readers ∧ p'.writers = p.writers ∧
      p.buffer.unread = bytes ++ p'.buffer.unread := by
  unfold look at h
  split at h
  · obtain ⟨rfl, rfl⟩ := Prod.mk.inj (some.inj h)
    exact ⟨rfl, rfl, by rw [Buffer.unread_advance, take_append_drop]⟩
  · cases h

lemma look_none (h : p.look size = none) : p.buffer.unread = [] := by
  unfold look at h
  split at h
  · cases h
  · rename_i hn
    exact eq_nil_of_length_eq_zero (by rw [Buffer.length_unread]; omega)

lemma append_some {buf : List Byte} (h : p.append buf = some (p', bytes)) :
    p'.readers = p.readers ∧ p'.writers = p.writers ∧
      p'.buffer.unread = p.buffer.unread ++ bytes := by
  unfold append at h
  split at h
  · obtain ⟨rfl, rfl⟩ := Prod.mk.inj (some.inj h)
    exact ⟨rfl, rfl, Buffer.unread_extend _⟩
  · cases h

end Pipe

/-! ## calls under way -/

inductive ReadPhase where
  | top
  /-- found nothing under the lock; the writers are counted next -/
  | empty
  /-- a writer is open: it answers `EAGAIN` or `EINTR`, or sleeps -/
  | waited
  | asleep
  deriving DecidableEq, Repr

inductive WritePhase where
  | top
  /-- a reader is open; the buffer is looked at next -/
  | read
  /-- found no room: it answers `EAGAIN` or `EINTR`, or sleeps -/
  | full
  | asleep
  deriving DecidableEq, Repr

structure ReadCall where
  size : Nat
  nonblock : Bool
  phase : ReadPhase
  deriving DecidableEq, Repr

structure WriteCall where
  /-- the open file it writes by, which the call keeps open -/
  file : Nat
  buf : List Byte
  nonblock : Bool
  phase : WritePhase
  deriving DecidableEq, Repr

structure Traffic where
  pipe : Pipe
  /-- the open files that hold the write end -/
  files : List Nat
  reads : Nat → Option ReadCall
  writes : Nat → Option WriteCall
  written : List Byte
  obtained : List Byte

open Traffic

/-- one section of one task's call, or an end opened or dropped -/
inductive Action where
  | readStart (task size : Nat) (nonblock : Bool)
  | readLook (task : Nat)
  | readCount (task : Nat)
  | readWait (task : Nat) (signal : Bool)
  | readWake (task : Nat)
  | writeStart (task file : Nat) (buf : List Byte) (nonblock : Bool)
  | writeCount (task : Nat)
  | writeAppend (task : Nat)
  | writeWait (task : Nat) (signal : Bool)
  | writeWake (task : Nat)
  | openReader
  | dropReader
  | openWriter (file : Nat)
  | dropWriter (file : Nat)
  deriving DecidableEq, Repr

variable {P : Traffic → Prop} {a : Action} {c : Option WriteCall} {call : WriteCall}

namespace Traffic

/-- `create_pair`: one reader, and one writer by the open file `0` -/
def pair : Traffic where
  pipe := ⟨.empty, 1, 1⟩
  files := [0]
  reads := fun _ => none
  writes := fun _ => none
  written := []
  obtained := []

section
variable (s : Traffic) (task : Nat)

def setRead (call : Option ReadCall) : Traffic :=
  { s with reads := update s.reads task call }

def setWrite (call : Option WriteCall) : Traffic :=
  { s with writes := update s.writes task call }

def readTo (call : ReadCall) (phase : ReadPhase) : Traffic :=
  s.setRead task (some { call with phase := phase })

def writeTo (call : WriteCall) (phase : WritePhase) : Traffic :=
  s.setWrite task (some { call with phase := phase })

/-- the lock held by a read: it takes what is there and returns, or goes on to count the writers -/
def readLook (call : ReadCall) : Traffic :=
  match s.pipe.look call.size with
  | some (pipe, bytes) =>
    { s.setRead task none with pipe := pipe, obtained := s.obtained ++ bytes }
  | none => s.readTo task call .empty

/-- end of file once every writer has gone away -/
def readCount (call : ReadCall) : Traffic :=
  if s.pipe.writers = 0 then s.setRead task none else s.readTo task call .waited

def readWait (call : ReadCall) (signal : Bool) : Traffic :=
  if call.nonblock || signal then s.setRead task none else s.readTo task call .asleep

def writeCount (call : WriteCall) : Traffic :=
  if s.pipe.readers = 0 then s.setWrite task none else s.writeTo task call .read

def writeAppend (call : WriteCall) : Traffic :=
  match s.pipe.append call.buf with
  | some (pipe, bytes) =>
    { s.setWrite task none with pipe := pipe, written := s.written ++ bytes }
  | none => s.writeTo task call .full

def writeWait (call : WriteCall) (signal : Bool) : Traffic :=
  if call.nonblock || signal then s.setWrite task none else s.writeTo task call .asleep

def onRead (phase : ReadPhase) (f : ReadCall → Traffic) : Traffic :=
  match s.reads task with
  | some call => if call.phase = phase then f call else s
  | none => s

def onWrite (phase : WritePhase) (f : WriteCall → Traffic) : Traffic :=
  match s.writes task with
  | some call => if call.phase = phase then f call else s
  | none => s

def setReaders (n : Nat) : Traffic := { s with pipe := { s.pipe with readers := n } }

def setWriters (n : Nat) (files : List Nat) : Traffic :=
  { s with pipe := { s.pipe with writers := n }, files := files }

/-- what an action does; one that names a call in another phase does nothing -/
def step : Action → Traffic
  | .readStart task size nonblock => s.setRead task (some ⟨size, nonblock, .top⟩)
  | .readLook task => s.onRead task .top (s.readLook task)
  | .readCount task => s.onRead task .empty (s.readCount task)
  | .readWait task signal => s.onRead task .waited (s.readWait task · signal)
  | .readWake task => s.onRead task .asleep (s.readTo task · .top)
  | .writeStart task file buf nonblock => s.setWrite task (some ⟨file, buf, nonblock, .top⟩)
  | .writeCount task => s.onWrite task .top (s.writeCount task)
  | .writeAppend task => s.onWrite task .read (s.writeAppend task)
  | .writeWait task signal => s.onWrite task .full (s.writeWait task · signal)
  | .writeWake task => s.onWrite task .asleep (s.writeTo task · .top)
  | .openReader => s.setReaders (s.pipe.readers + 1)
  | .dropReader => s.setReaders (s.pipe.readers - 1)
  | .openWriter file => s.setWriters (s.pipe.writers + 1) (file :: s.files)
  | .dropWriter file => s.setWriters (s.pipe.writers - 1) (s.files.erase file)

/-- which actions can come: one call a task, of a non-zero count and by an open file, which is
dropped once, after its calls -/
def Enabled : Action → Prop
  | .readStart task size _ => s.reads task = none ∧ size ≠ 0
  | .writeStart task file buf _ => s.writes task = none ∧ file ∈ s.files ∧ buf ≠ []
  | .dropReader => s.pipe.readers ≠ 0
  | .openWriter file => file ∉ s.files
  | .dropWriter file => file ∈ s.files ∧ ∀ task call, s.writes task = some call → call.file ≠ file
  | _ => True

def readReturns : Action → Option (Except Errno (List Byte))
  | .readLook task =>
    match s.reads task with
    | some call =>
      if call.phase = .top then (s.pipe.look call.size).map fun taken => .ok taken.2 else none
    | none => none
  | .readCount task =>
    match s.reads task with
    | some call => if call.phase = .empty ∧ s.pipe.writers = 0 then some (.ok []) else none
    | none => none
  | .readWait task signal =>
    match s.reads task with
    | some call =>
      if call.phase = .waited then
        if call.nonblock then some (.error .EAGAIN) else if signal then some (.error .EINTR) else none
      else none
    | none => none
  | _ => none

/-- the last writer does not go, leaving bytes behind, while a read stands between its two looks -/
def Calm : Action → Prop
  | .dropWriter _ => s.pipe.writers = 1 → s.pipe.buffer.unread ≠ [] →
      ∀ task call, s.reads task = some call → call.phase ≠ .empty
  | _ => True

/-! ## what every action keeps -/

/-- what was written is what was obtained and what is unread, and calls under way have their ends -/
structure Sound (s : Traffic) : Prop where
  bytes : s.written = s.obtained ++ s.pipe.buffer.unread
  counted : s.pipe.writers = s.files.length
  held : ∀ task call, s.writes task = some call → call.file ∈ s.files
  sizes : ∀ task call, s.reads task = some call → call.size ≠ 0

/-- a read that found nothing, with bytes there by now, will find a writer -/
def Watched : Prop :=
  ∀ task call, s.reads task = some call → call.phase = .empty →
    s.pipe.buffer.unread ≠ [] → s.pipe.writers ≠ 0

end

section
variable {s : Traffic} {task : Nat}

lemma Sound.pair : Sound pair := ⟨rfl, rfl, (fun _ _ h => nomatch h), (fun _ _ h => nomatch h)⟩

lemma setRead_cases {c : Option ReadCall} {k : Nat} {call : ReadCall}
    (h : (s.setRead task c).reads k = some call) : c = some call ∨ s.reads k = some call := by
  simp only [setRead, update_apply] at h
  split at h
  · exact .inl h
  · exact .inr h

lemma setWrite_cases {k : Nat} (h : (s.setWrite task c).writes k = some call) :
    c = some call ∨ s.writes k = some call := by
  simp only [setWrite, update_apply] at h
  split at h
  · exact .inl h
  · exact .inr h

section
variable (h : s.Sound)
include h

lemma Sound.setRead {c : Option ReadCall} (hc : ∀ call, c = some call → call.size ≠ 0) :
    (s.setRead task c).Sound :=
  ⟨h.bytes, h.counted, h.held, fun k call hk => (setRead_cases hk).elim (hc call) (h.sizes k call)⟩

lemma Sound.readDone : (s.setRead task none).Sound := h.setRead nofun

lemma Sound.readTo {call : ReadCall} (hcall : s.reads task = some call) (phase : ReadPhase) :
    (s.readTo task call phase).Sound :=
  h.setRead fun _ e => some.inj e ▸ h.sizes task call hcall

lemma Sound.setWrite (hc : ∀ call, c = some call → call.file ∈ s.files) :
    (s.setWrite task c).Sound :=
  ⟨h.bytes, h.counted, fun k call hk => (setWrite_cases hk).elim (hc call) (h.held k call), h.sizes⟩

lemma Sound.writeDone : (s.setWrite task none).Sound := h.setWrite nofun

lemma Sound.writeTo (hcall : s.writes task = some call) (phase : WritePhase) :
    (s.writeTo task call phase).Sound :=
  h.setWrite fun _ e => some.inj e ▸ h.held task call hcall

omit h in
lemma onRead_keeps {phase : ReadPhase} {f : ReadCall → Traffic} (hs : P s)
    (hf : ∀ call, s.reads task = some call → call.phase = phase → P (f call)) :
    P (s.onRead task phase f) := by
  unfold onRead
  split
  · split
    · exact hf _ ‹_› ‹_›
    · exact hs
  · exact hs

omit h in
lemma onWrite_keeps {phase : WritePhase} {f : WriteCall → Traffic} (hs : P s)
    (hf : ∀ call, s.writes task = some call → call.phase = phase → P (f call)) :
    P (s.onWrite task phase f) := by
  unfold onWrite
  split
  · split
    · exact hf _ ‹_› ‹_›
    · exact hs
  · exact hs

lemma Sound.readLook {call : ReadCall} (hcall : s.reads task = some call) :
    (s.readLook task call).Sound := by
  unfold Traffic.readLook
  split
  · rename_i pipe bytes hlook
    obtain ⟨-, hw, hu⟩ := Pipe.look_some hlook
    have h' : (s.setRead task none).Sound := h.readDone
    refine ⟨?_, hw.trans h.counted, h'.held, h'.sizes⟩
    show s.written = s.obtained ++ bytes ++ pipe.buffer.unread
    rw [h.bytes, hu, append_assoc]
  · exact h.readTo hcall _

lemma Sound.writeAppend (hcall : s.writes task = some call) : (s.writeAppend task call).Sound := by
  unfold Traffic.writeAppend
  split
  · rename_i pipe bytes happ
    obtain ⟨-, hw, hu⟩ := Pipe.append_some happ
    have h' : (s.setWrite task none).Sound := h.writeDone
    refine ⟨?_, hw.trans h.counted, h'.held, h'.sizes⟩
    show s.written ++ bytes = s.obtained ++ pipe.buffer.unread
    rw [hu, h.bytes, append_assoc]
  · exact h.writeTo hcall _

lemma Sound.setWriters {files : List Nat} (hn : n = files.length)
    (hf : ∀ task call, s.writes task = some call → call.file ∈ files) :
    (s.setWriters n files).Sound := ⟨h.bytes, hn, hf, h.sizes⟩

lemma Sound.step (he : s.Enabled a) : (s.step a).Sound := by
  cases a with
  | readStart task size nonblock => exact h.setRead fun _ e => some.inj e ▸ he.2
  | readLook task => exact onRead_keeps h fun call hcall _ => h.readLook hcall
  | readCount task =>
    refine onRead_keeps h fun call hcall _ => ?_
    unfold readCount
    split
    · exact h.readDone
    · exact h.readTo hcall _
  | readWait task signal =>
    refine onRead_keeps h fun call hcall _ => ?_
    unfold readWait
    split
    · exact h.readDone
    · exact h.readTo hcall _
  | readWake task => exact onRead_keeps h fun call hcall _ => h.readTo hcall _
  | writeStart task file buf nonblock => exact h.setWrite fun _ e => some.inj e ▸ he.2.1
  | writeCount task =>
    refine onWrite_keeps h fun call hcall _ => ?_
    unfold writeCount
    split
    · exact h.writeDone
    · exact h.writeTo hcall _
  | writeAppend task => exact onWrite_keeps h fun call hcall _ => h.writeAppend hcall
  | writeWait task signal =>
    refine onWrite_keeps h fun call hcall _ => ?_
    unfold writeWait
    split
    · exact h.writeDone
    · exact h.writeTo hcall _
  | writeWake task => exact onWrite_keeps h fun call hcall _ => h.writeTo hcall _
  | openReader => exact { h with }
  | dropReader => exact { h with }
  | openWriter file =>
    exact h.setWriters (congrArg (· + 1) h.counted) fun task call hcall =>
      mem_cons_of_mem _ (h.held task call hcall)
  | dropWriter file =>
    refine h.setWriters ?_ fun task call hcall =>
      (mem_erase_of_ne (he.2 task call hcall)).mpr (h.held task call hcall)
    rw [length_erase_of_mem he.1, h.counted]

end

/-! ## what the calm ones keep besides -/

lemma Watched.pair : Watched pair := fun _ _ h => nomatch h

section
variable (h : s.Watched)
include h

lemma Watched.setRead {c : Option ReadCall}
    (hc : ∀ call, c = some call → call.phase ≠ .empty) : (s.setRead task c).Watched :=
  fun k call hk hphase => (setRead_cases hk).elim (fun e => absurd hphase (hc call e))
    fun hk => h k call hk hphase

lemma Watched.readDone : (s.setRead task none).Watched := h.setRead nofun

lemma Watched.readTo {call : ReadCall} {phase : ReadPhase} (hp : phase ≠ .empty) :
    (s.readTo task call phase).Watched := h.setRead fun _ e => some.inj e ▸ hp

lemma Watched.readLook {call : ReadCall} : (s.readLook task call).Watched := by
  unfold Traffic.readLook
  split
  · rename_i pipe bytes hlook
    obtain ⟨-, hw, hu⟩ := Pipe.look_some hlook
    intro k call hk hphase hne
    show pipe.writers ≠ 0
    rw [hw]
    refine (h.readDone : (s.setRead task none).Watched) k call hk hphase ?_
    show s.pipe.buffer.unread ≠ []
    rw [hu]
    exact append_ne_nil_of_right_ne_nil _ hne
  · rename_i hnone
    exact fun k call hk hphase hne => absurd (Pipe.look_none hnone) hne

lemma Watched.writeAppend (hs : s.Sound) (hcall : s.writes task = some call) :
    (s.writeAppend task call).Watched := by
  unfold Traffic.writeAppend
  split
  · rename_i pipe bytes happ
    obtain ⟨-, hw, -⟩ := Pipe.append_some happ
    intro _ _ _ _ _
    show pipe.writers ≠ 0
    rw [hw, hs.counted]
    exact Nat.ne_of_gt (length_pos_of_mem (hs.held task call hcall))
  · exact h

lemma Watched.step {a : Action} (hs : s.Sound) (he : s.Enabled a) (hc : s.Calm a) :
    (s.step a).Watched := by
  cases a with
  | readStart task size nonblock => exact h.setRead fun _ e => some.inj e ▸ nofun
  | readLook task => exact onRead_keeps h fun call hcall _ => h.readLook
  | readCount task =>
    refine onRead_keeps h fun call hcall _ => ?_
    unfold readCount
    split
    · exact h.readDone
    · exact h.readTo nofun
  | readWait task signal =>
    refine onRead_keeps h fun call hcall _ => ?_
    unfold readWait
    split
    · exact h.readDone
    · exact h.readTo nofun
  | readWake task => exact onRead_keeps h fun call hcall _ => h.readTo nofun
  | writeStart task file buf nonblock => exact h
  | writeCount task =>
    refine onWrite_keeps h fun call hcall _ => ?_
    unfold writeCount
    split <;> exact h
  | writeAppend task => exact onWrite_keeps h fun call hcall _ => h.writeAppend hs hcall
  | writeWait task signal =>
    refine onWrite_keeps h fun call hcall _ => ?_
    unfold writeWait
    split <;> exact h
  | writeWake task => exact onWrite_keeps h fun call hcall _ => h
  | openReader => exact h
  | dropReader => exact h
  | openWriter file => exact fun _ _ _ _ _ => Nat.succ_ne_zero _
  | dropWriter file =>
    intro k call hk hphase hne
    have hw := h k call hk hphase hne
    -- the one case in which the count reaches zero is the one that is not calm
    have hlast : s.pipe.writers ≠ 1 := fun e => hc e hne k call hk hphase
    show s.pipe.writers - 1 ≠ 0
    omega

end
end

lemma look_ne_nil {p p' : Pipe} {bytes : List Byte} (hs : size ≠ 0)
    (h : p.look size = some (p', bytes)) : bytes ≠ [] := by
  unfold Pipe.look at h
  split at h
  · rename_i hpos
    obtain ⟨-, rfl⟩ := Prod.mk.inj (some.inj h)
    intro e
    have hlen := congrArg length e
    simp only [length_take, Buffer.length_unread, length_nil] at hlen
    omega
  · cases h

lemma Watched.returns_nil {s : Traffic} (h : s.Watched) (hs : s.Sound)
    (hr : s.readReturns a = some (.ok [])) : s.pipe.writers = 0 ∧ s.pipe.buffer.unread = [] := by
  cases a with
  | readLook task =>
    cases hcall : s.reads task with
    | none => simp [readReturns, hcall] at hr
    | some call =>
      simp only [readReturns, hcall] at hr
      split at hr
      · obtain ⟨⟨p', bytes⟩, hlook, hb⟩ := map_eq_some_iff.mp hr
        exact absurd (Except.ok.inj hb) (look_ne_nil (hs.sizes task call hcall) hlook)
      · cases hr
  | readCount task =>
    cases hcall : s.reads task with
    | none => simp [readReturns, hcall] at hr
    | some call =>
      simp only [readReturns, hcall] at hr
      split at hr
      · rename_i hend
        refine ⟨hend.2, ?_⟩
        by_contra hne
        exact h task call hcall hend.1 hne hend.2
      · cases hr
  | readWait task signal =>
    cases hcall : s.reads task with
    | none => simp [readReturns, hcall] at hr
    | some call =>
      simp only [readReturns, hcall] at hr
      repeat' split at hr
      all_goals cases hr
  | _ => cases hr

end Traffic

open Traffic Run

/-- **end of file**: what reads obtained is a prefix of what was appended; and unless the last
writer goes while a read stands between its two looks, a read that returns 0 has no writer open and
every byte read -/
theorem pipe_end_of_file (actions : List Action)
    (he : Allowed step Enabled pair actions) :
    let s := run step pair actions
    s.obtained <+: s.written ∧
    (Allowed step Calm pair actions → ∀ a, s.readReturns a = some (.ok []) →
      s.pipe.writers = 0 ∧ s.files = [] ∧ s.obtained = s.written) := by
  intro s
  have hs : s.Sound := he.keeps (fun _ _ h => h.step) Sound.pair
  refine ⟨⟨s.pipe.buffer.unread, hs.bytes.symm⟩, fun hc a hr => ?_⟩
  have hboth : Allowed step (fun s a => s.Enabled a ∧ s.Calm a) pair actions :=
    he.and hc
  have hw : s.Sound ∧ s.Watched := hboth.keeps (I := fun s => s.Sound ∧ s.Watched)
    (fun s a h ok => ⟨h.1.step ok.1, h.2.step h.1 ok.1 ok.2⟩) ⟨Sound.pair, Watched.pair⟩
  obtain ⟨hz, hu⟩ := hw.2.returns_nil hs hr
  refine ⟨hz, eq_nil_of_length_eq_zero (hs.counted ▸ hz), ?_⟩
  rw [hs.bytes, hu, append_nil]

def writtenAndRead : List Action :=
  [.writeStart 1 0 [7, 8] false, .writeCount 1, .writeAppend 1, .dropWriter 0,
   .readStart 2 16 false, .readLook 2, .readStart 2 16 false, .readLook 2]

lemma no_writes_left {first second : WriteCall} (file : Nat) :
    ∀ task call, update (update (update (fun _ => none) 1 (some first)) 1
      (some second)) 1 none task = some call → call.file ≠ file := by
  intro task call hcall
  simp only [update_apply] at hcall
  by_cases h : task = 1
  · rw [if_pos h] at hcall
    cases hcall
  · rw [if_neg h, if_neg h, if_neg h] at hcall
    cases hcall

/-- the end comes when what was written has been read -/
theorem pipe_end_of_file_read : let s := run step pair writtenAndRead
    s.readReturns (.readCount 2) = some (.ok []) ∧
      s.pipe.writers = 0 ∧ s.files = [] ∧ s.obtained = s.written := by
  have he : Allowed step Enabled pair writtenAndRead :=
    ⟨⟨rfl, by decide, nofun⟩, trivial, trivial, ⟨by decide, no_writes_left 0⟩, ⟨rfl, nofun⟩, trivial,
      ⟨rfl, nofun⟩, trivial, trivial⟩
  have hc : Allowed step Calm pair writtenAndRead :=
    ⟨trivial, trivial, trivial, fun _ _ _ _ h => (nomatch h), trivial, trivial, trivial, trivial,
      trivial⟩
  have hr : (run step pair writtenAndRead).readReturns (.readCount 2) =
      some (.ok []) := by decide +kernel
  exact ⟨hr, (pipe_end_of_file writtenAndRead he).2 hc _ hr⟩

/-- a reader looks at the empty buffer; before it counts the writers, the only one writes a byte and
closes -/
def writtenBetween : List Action :=
  [.readStart 2 16 false, .readLook 2, .writeStart 1 0 [7] false, .writeCount 1, .writeAppend 1,
   .dropWriter 0]

/-- **A byte lost to the end of file.**  The read returns 0 with the byte still in the buffer. -/
theorem pipe_end_before_last_byte : let s := run step pair writtenBetween
    Allowed step Enabled pair writtenBetween ∧
      s.readReturns (.readCount 2) = some (.ok []) ∧ s.written = [7] ∧ s.obtained = [] :=
  ⟨⟨⟨rfl, nofun⟩, trivial, ⟨rfl, by decide, nofun⟩, trivial, trivial, ⟨by decide, no_writes_left 0⟩,
    trivial⟩, by decide +kernel, by decide +kernel, by decide +kernel⟩

end ClaudeOs.Fs
