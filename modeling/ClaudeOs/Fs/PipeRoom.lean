import ClaudeOs.Fs.Pipe

/-!
# How much memory a pipe holds

The buffer of a pipe is a vector with the index of the first byte not read yet.  A read moves the
index; only a read that reaches the end gives the bytes before it back.  A pipe that is never
empty keeps everything it ever carried.

* `Metered`  with the count of the bytes read since the pipe was last empty;
* `Metered.Sound`  that is the prefix the buffer keeps;
* `Metered.Spares`  a read that leaves bytes unread is not too many bytes on from there;
* `pipe_memory`  with it the buffer has a bound, and a buffer with a bound has it;
* `pipe_unbounded`  without it there is none.
-/

namespace ClaudeOs.Fs
open List Nat Function
namespace Buffer
variable {b : Buffer}

lemma length_data : b.data.length = b.head + b.available := by
  have := b.head_le
  unfold available
  omega

@[simp] lemma head_extend (bytes : List Byte) : (b.extend bytes).head = b.head := rfl

@[simp] lemma available_extend (bytes : List Byte) :
    (b.extend bytes).available = b.available + bytes.length := by
  have := b.head_le
  show (b.data ++ bytes).length - b.head = _
  rw [length_append, available]
  omega

lemma available_advance {n : Nat} (h : n ≤ b.available) :
    (b.advance n h).available = b.available - n := by
  rw [← length_unread, unread_advance, length_drop, length_unread]

lemma head_advance {n : Nat} (h : n ≤ b.available) :
    (b.advance n h).head = if n = b.available then 0 else b.head + n := by
  have hlen := b.length_data
  unfold advance
  by_cases hall : n = b.available
  · rw [if_pos hall, if_pos (by omega)]
    rfl
  · rw [if_neg hall, if_neg (by omega)]

end Buffer

namespace Traffic

/-- the bytes of the buffer, those already read among them -/
def held (s : Traffic) : Nat := s.pipe.buffer.data.length

variable {s : Traffic} {task : Nat}

/-- nothing of the bytes is touched -/
def Still (s s' : Traffic) : Prop :=
  s'.pipe.buffer = s.pipe.buffer ∧ s'.written = s.written ∧ s'.obtained = s.obtained

/-- a read has taken what it asked for, or all -/
def Took (s : Traffic) (size : Nat) (s' : Traffic) : Prop :=
  0 < s.pipe.buffer.available ∧
    s'.pipe.buffer = s.pipe.buffer.advance (min s.pipe.buffer.available size) (min_le_left ..) ∧
    s'.written = s.written ∧
    s'.obtained.length = s.obtained.length + min s.pipe.buffer.available size

/-- a write has put in what there was room for -/
def Put (s s' : Traffic) : Prop :=
  ∃ bytes, s.pipe.buffer.available + bytes.length ≤ PIPE_CAPACITY ∧
    s'.pipe.buffer = s.pipe.buffer.extend bytes ∧ s'.written = s.written ++ bytes ∧
    s'.obtained = s.obtained

lemma readLook_moves (call : ReadCall) :
    Still s (s.readLook task call) ∨ Took s call.size (s.readLook task call) := by
  unfold Traffic.readLook
  split
  · rename_i pipe bytes hlook
    unfold Pipe.look at hlook
    split at hlook
    · rename_i hpos
      obtain ⟨rfl, rfl⟩ := Prod.mk.inj (Option.some.inj hlook)
      refine .inr ⟨hpos, rfl, rfl, ?_⟩
      rw [length_append, length_take, Buffer.length_unread, min_eq_left (min_le_left ..)]
    · cases hlook
  · exact .inl ⟨rfl, rfl, rfl⟩

lemma writeAppend_moves (call : WriteCall) :
    Still s (s.writeAppend task call) ∨ Put s (s.writeAppend task call) := by
  unfold Traffic.writeAppend
  split
  · rename_i pipe bytes happ
    unfold Pipe.append at happ
    split at happ
    · obtain ⟨rfl, rfl⟩ := Prod.mk.inj (Option.some.inj happ)
      refine .inr ⟨_, ?_, rfl, rfl, rfl⟩
      rw [length_take]
      omega
    · cases happ
  · exact .inl ⟨rfl, rfl, rfl⟩

/-- **what a section does to the bytes** -/
theorem step_moves (s : Traffic) (a : Action) : Still s (s.step a) ∨ Put s (s.step a) ∨
    ∃ task call, a = .readLook task ∧ s.reads task = some call ∧ call.phase = .top ∧
      Took s call.size (s.step a) := by
  have still : Still s s := ⟨rfl, rfl, rfl⟩
  cases a with
  | readLook task =>
    rw [step, onRead]
    split
    · rename_i call hcall
      split
      · rename_i htop
        exact (readLook_moves call).imp_right fun h => .inr ⟨task, call, rfl, hcall, htop, h⟩
      · exact .inl still
    · exact .inl still
  | writeAppend task =>
    refine Or.imp_right .inl ?_
    exact onWrite_keeps (P := fun s' => Still s s' ∨ Put s s') (.inl still)
      fun call _ _ => writeAppend_moves call
  | readCount task =>
    refine .inl (onRead_keeps still fun call _ _ => ?_)
    unfold Traffic.readCount
    split <;> exact still
  | readWait task signal =>
    refine .inl (onRead_keeps still fun call _ _ => ?_)
    unfold Traffic.readWait
    split <;> exact still
  | readWake task => exact .inl (onRead_keeps still fun call _ _ => still)
  | writeCount task =>
    refine .inl (onWrite_keeps still fun call _ _ => ?_)
    unfold Traffic.writeCount
    split <;> exact still
  | writeWait task signal =>
    refine .inl (onWrite_keeps still fun call _ _ => ?_)
    unfold Traffic.writeWait
    split <;> exact still
  | writeWake task => exact .inl (onWrite_keeps still fun call _ _ => still)
  | readStart | writeStart | openReader | dropReader | openWriter | dropWriter => exact .inl still

end Traffic

/-- a pipe and its calls, with the bytes that were read since it was last empty -/
structure Metered where
  traffic : Traffic
  count : Nat

namespace Metered

/-- counted by what was written and what was obtained; the buffer is not looked at -/
def step (m : Metered) (a : Action) : Metered where
  traffic := m.traffic.step a
  count :=
    if (m.traffic.step a).obtained.length = (m.traffic.step a).written.length then 0
    else m.count + ((m.traffic.step a).obtained.length - m.traffic.obtained.length)

/-- a read that leaves bytes does not end more than `k` times the capacity on from where the pipe was
last empty -/
def Spares (k : Nat) (m : Metered) : Action → Prop
  | .readLook task => ∀ call, m.traffic.reads task = some call → call.phase = .top →
      m.traffic.obtained.length + call.size < m.traffic.written.length →
      m.count + call.size ≤ k * PIPE_CAPACITY
  | _ => True

/-- the prefix that the buffer keeps is what was read since the pipe was last empty -/
structure Sound (m : Metered) : Prop where
  room : m.traffic.pipe.buffer.available ≤ PIPE_CAPACITY
  unread : m.traffic.written.length = m.traffic.obtained.length + m.traffic.pipe.buffer.available
  head : m.traffic.pipe.buffer.head = m.count
  fresh : m.traffic.pipe.buffer.available = 0 → m.traffic.pipe.buffer.head = 0

def pair : Metered := ⟨Traffic.pair, 0⟩

lemma Sound.pair : pair.Sound := ⟨zero_le _, rfl, rfl, fun _ => rfl⟩

variable {k : Nat} {m : Metered}

/-- **one section**: what the count and the prefix come to -/
theorem Sound.step (h : m.Sound) (a : Action) : (m.step a).Sound ∧
    (m.traffic.pipe.buffer.head ≤ k * PIPE_CAPACITY → m.Spares k a →
      (m.step a).traffic.pipe.buffer.head ≤ k * PIPE_CAPACITY) := by
  obtain ⟨hroom, hunread, hhead, hfresh⟩ := h
  rcases m.traffic.step_moves a with ⟨hb, hw, ho⟩ | ⟨bytes, hfit, hb, hw, ho⟩ |
    ⟨task, call, rfl, hcall, htop, hpos, hb, hw, ho⟩
  · refine ⟨⟨?_, ?_, ?_, ?_⟩, fun hle _ => ?_⟩ <;> simp only [Metered.step, hb, hw, ho]
    · exact hroom
    · exact hunread
    · split <;> omega
    · exact hfresh
    · exact hle
  · refine ⟨⟨?_, ?_, ?_, ?_⟩, fun hle _ => ?_⟩ <;>
      simp only [Metered.step, hb, hw, ho, Buffer.available_extend, Buffer.head_extend, length_append]
    · exact hfit
    · omega
    · split <;> omega
    · exact fun h => hfresh (by omega)
    · exact hle
  · refine ⟨⟨?_, ?_, ?_, ?_⟩, fun hle hc => ?_⟩ <;>
      simp only [Metered.step, hb, hw, ho, Buffer.available_advance, Buffer.head_advance]
    · omega
    · omega
    · split <;> split <;> omega
    · intro h
      rw [if_pos (by omega)]
    · split
      · exact zero_le _
      · have := hc call hcall htop (by omega)
        omega

lemma run_traffic (m : Metered) (actions : List Action) :
    (Run.run Metered.step m actions).traffic = Run.run Traffic.step m.traffic actions := by
  induction actions generalizing m with
  | nil => rfl
  | cons a rest ih => exact ih (m.step a)

lemma Sound.spares (h : m.Sound) (hheld : m.traffic.held ≤ k * PIPE_CAPACITY) (a : Action) :
    m.Spares k a := by
  cases a with
  | readLook task =>
    intro call _ _ hless
    have hlen := m.traffic.pipe.buffer.length_data
    have := h.unread
    have := h.head
    unfold Traffic.held at hheld
    omega
  | _ => trivial

end Metered

open Traffic Run

/-- **the memory of a pipe** stays within `k + 1` times the capacity if no read that leaves bytes
ends more than `k` times it on from where the pipe was last empty; and within `k` times, none does -/
theorem pipe_memory (k : Nat) (actions : List Action) :
    (Allowed Metered.step (Metered.Spares k) Metered.pair actions →
      (run Traffic.step Traffic.pair actions).held ≤ (k + 1) * PIPE_CAPACITY) ∧
    ((∀ before, before <+: actions →
        (run Traffic.step Traffic.pair before).held ≤ k * PIPE_CAPACITY) →
      Allowed Metered.step (Metered.Spares k) Metered.pair actions) := by
  constructor
  · intro hc
    obtain ⟨hs, hprefix⟩ : (run Metered.step Metered.pair actions).Sound ∧
        (run Metered.step Metered.pair actions).traffic.pipe.buffer.head ≤ k * PIPE_CAPACITY :=
      hc.keeps (I := fun m => m.Sound ∧ m.traffic.pipe.buffer.head ≤ k * PIPE_CAPACITY)
        (fun _ a h hok => ⟨(h.1.step (k := k) a).1, (h.1.step a).2 h.2 hok⟩)
        ⟨.pair, zero_le _⟩
    have hroom := hs.room
    rw [Metered.run_traffic] at hprefix hroom
    rw [Traffic.held, Buffer.length_data, succ_mul]
    exact Nat.add_le_add hprefix hroom
  · suffices h : ∀ m : Metered, m.Sound → (∀ before, before <+: actions →
        (run Traffic.step m.traffic before).held ≤ k * PIPE_CAPACITY) →
        Allowed Metered.step (Metered.Spares k) m actions from h _ .pair
    induction actions with
    | nil => exact fun _ _ _ => trivial
    | cons a rest ih =>
      intro m hs hheld
      refine ⟨hs.spares (hheld [] nil_prefix) a, ih (m.step a) (hs.step (k := 0) a).1 ?_⟩
      exact fun before hbefore => hheld (a :: before) (prefix_cons_inj a |>.mpr hbefore)

/-- two bytes written and one read, so that one is left and one is kept before it -/
def oneLeft : List Action :=
  [.writeStart 1 0 [7, 8] false, .writeCount 1, .writeAppend 1, .readStart 2 1 false, .readLook 2]

/-- the byte that was read is still held -/
theorem pipe_memory_oneLeft : (run Traffic.step Traffic.pair oneLeft).pipe.buffer.available = 1 ∧
    (run Traffic.step Traffic.pair oneLeft).held = 2 ∧
    (run Traffic.step Traffic.pair oneLeft).held ≤ 2 * PIPE_CAPACITY := by
  refine ⟨by decide +kernel, by decide +kernel, (pipe_memory 1 oneLeft).1
    ⟨trivial, trivial, trivial, trivial, fun call hcall _ _ => ?_, trivial⟩⟩
  obtain rfl : call = ⟨1, false, .top⟩ := (Option.some.inj hcall).symm
  decide +kernel

/-! ### a pipe that is never empty -/

def oneByteEach : List Action :=
  [.writeStart 1 0 [7] false, .writeCount 1, .writeAppend 1, .readStart 2 1 false, .readLook 2]

def neverEmpty (n : Nat) : List Action :=
  [.writeStart 1 0 [7] false, .writeCount 1, .writeAppend 1] ++ (replicate n oneByteEach).flatten

def idle (b : Buffer) (written obtained : List Byte) : Traffic :=
  { Traffic.pair with pipe := ⟨b, 1, 1⟩, written := written, obtained := obtained }

variable {b : Buffer} (written obtained : List Byte)

lemma run_write (hroom : b.available < PIPE_CAPACITY) : run Traffic.step (idle b written obtained)
        [.writeStart 1 0 [7] false, .writeCount 1, .writeAppend 1] =
      idle (b.extend [7]) (written ++ [7]) obtained := by
  have htake : ([7] : List Byte).take (min 1 (PIPE_CAPACITY - b.available)) = [7] := by
    rw [min_eq_left (by omega)]
    rfl
  have hnone : update (fun _ : Nat => (none : Option WriteCall)) 1 none = fun _ => none :=
    update_eq_self ..
  simp only [idle, Traffic.pair, run_cons, run_nil, Traffic.step, onWrite, setWrite, update_self,
    if_true, writeCount, one_ne_zero, if_false, writeTo, Traffic.writeAppend, Pipe.append,
    if_pos hroom, length_singleton, htake, update_idem, hnone]

lemma run_read (hu : b.available = 2) :
    ∃ b' bytes, run Traffic.step (idle b written obtained) [.readStart 2 1 false, .readLook 2] =
        idle b' written (obtained ++ bytes) ∧ b'.available = 1 ∧ b'.head = b.head + 1 := by
  have hmin : min b.available 1 = 1 := by omega
  have hpos : 0 < b.available := by omega
  have hnone : update (fun _ : Nat => (none : Option ReadCall)) 2 none = fun _ => none :=
    update_eq_self ..
  refine ⟨b.advance _ (min_le_left _ 1), b.unread.take (min b.available 1), ?_, ?_, ?_⟩
  · simp only [idle, Traffic.pair, run_cons, run_nil, Traffic.step, onRead, setRead, update_self,
      if_true, Traffic.readLook, Pipe.look, if_pos hpos, update_idem, hnone]
  · rw [Buffer.available_advance, hmin, hu]
  · rw [Buffer.head_advance, hmin, if_neg (by omega)]

/-- with one byte unread, the bytes before it are one more after each round -/
lemma run_rounds (h : b.available = 1) (n : Nat) :
    Allowed Traffic.step Enabled (idle b written obtained) (replicate n oneByteEach).flatten ∧
      (run Traffic.step (idle b written obtained) (replicate n oneByteEach).flatten).held =
        b.head + n + 1 := by
  induction n generalizing b written obtained with
  | zero => exact ⟨trivial, by rw [← h, add_zero]; exact b.length_data⟩
  | succ n ih =>
    have hwrite := run_write written obtained (show b.available < PIPE_CAPACITY by rw [h]; decide)
    obtain ⟨b', bytes, hread, hunread, hhead⟩ := run_read (b := b.extend [7]) (written ++ [7])
      obtained (by rw [Buffer.available_extend, h]; rfl)
    have hround : run Traffic.step (idle b written obtained) oneByteEach = _ :=
      (congrArg (run Traffic.step · [.readStart 2 1 false, .readLook 2]) hwrite).trans hread
    have hok : Allowed Traffic.step Enabled (idle b written obtained) oneByteEach := by
      refine ⟨⟨rfl, mem_cons_self, nofun⟩, trivial, trivial, ⟨?_, nofun⟩, trivial, trivial⟩
      exact congrArg (Traffic.reads · 2) hwrite
    obtain ⟨hoks, hheld⟩ := ih (written ++ [7]) (obtained ++ bytes) hunread
    rw [replicate_succ, flatten_cons, run_append, hround, hheld, hhead]
    refine ⟨hok.append (hround ▸ hoks), ?_⟩
    rw [Buffer.head_extend]
    omega

/-- **no multiple of the capacity bounds the buffer** of a pipe that is read and written a byte at a
time and never empty -/
theorem pipe_unbounded : ¬ ∃ k, ∀ actions, Allowed Traffic.step Enabled Traffic.pair actions →
      (run Traffic.step Traffic.pair actions).held ≤ k * PIPE_CAPACITY := by
  rintro ⟨k, hbound⟩
  have hfirst := run_write (b := .empty) [] [] (by decide)
  have hallowed : Allowed Traffic.step Enabled Traffic.pair
      [.writeStart 1 0 [7] false, .writeCount 1, .writeAppend 1] :=
    ⟨⟨rfl, by decide, nofun⟩, trivial, trivial, trivial⟩
  obtain ⟨hoks, hheld⟩ := run_rounds (b := Buffer.empty.extend [7]) ([] ++ [7]) [] rfl
    (k * PIPE_CAPACITY)
  have hle := hbound (neverEmpty (k * PIPE_CAPACITY)) (hallowed.append (hfirst ▸ hoks))
  rw [neverEmpty, run_append, show run Traffic.step Traffic.pair _ = _ from hfirst, hheld] at hle
  omega

end ClaudeOs.Fs
