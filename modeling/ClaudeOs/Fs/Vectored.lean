import ClaudeOs.Fs.Pipe

/-!
# Transfers through several buffers, and from file to file

`readv` and `writev`: the file and the vector are looked up once, and then each buffer that is not
empty is a read or a write of its own.  A buffer that is refused ends the call with its error,
whatever the buffers before it have moved.

* `Host`  the file of a descriptor and the memory of the program;
* `vectored`  the two calls, `readv` and `writev` with an element of each kind;
* `moved`  the bytes that went in or out of the file;
* `vectored_reports_iff`  when a call that has moved bytes says so;
* `Sides`, `sendfile`  one read and one write, with the input's position stored in between;
* `sendfile_exact_iff`  when the position goes on by what was sent.
-/

namespace ClaudeOs.Fs.Vectored

inductive Answer (ε α : Type) where
  | returns (a : α)
  | fails (e : ε)
  | sleeps
  deriving DecidableEq

structure IoVec where
  base : Nat
  len : Nat

def MAX_IO : Nat := 16 * 1024 * 1024
def IoVec.size (iov : IoVec) : Nat := min iov.len MAX_IO

/-- files `F` and user memory in a state `σ`, with the errors `ε` -/
structure Host (σ F ε : Type) where
  get : σ → Int → Except ε F
  readIovecs : σ → Nat → Nat → Except ε (List IoVec)
  read : F → Nat → σ → σ × Answer ε (List Byte)
  write : F → List Byte → σ → σ × Answer ε Nat
  readBytes : Nat → Nat → σ → Except ε (List Byte)
  writeBytes : Nat → List Byte → σ → σ × Except ε Unit

variable {σ F ε : Type}

section
variable (H : Host σ F ε)

/-- an element of `readv`: the bytes are out of the file before the buffer is looked at -/
def readElement (file : F) (iov : IoVec) (s : σ) : σ × Answer ε Nat :=
  match H.read file iov.size s with
  | (s, .fails e) => (s, .fails e)
  | (s, .sleeps) => (s, .sleeps)
  | (s, .returns bytes) =>
    match H.writeBytes iov.base bytes s with
    | (s, .error e) => (s, .fails e)
    | (s, .ok ()) => (s, .returns bytes.length)

def writeElement (file : F) (iov : IoVec) (s : σ) : σ × Answer ε Nat :=
  match H.readBytes iov.base iov.size s with
  | .error e => (s, .fails e)
  | .ok buf => H.write file buf s

/-- the bytes an element takes out of the file, and those it puts into it -/
def readTook (file : F) (iov : IoVec) (s : σ) : Nat :=
  match H.read file iov.size s with
  | (_, .returns bytes) => bytes.length
  | _ => 0

def writeTook (file : F) (iov : IoVec) (s : σ) : Nat :=
  match writeElement H file iov s with
  | (_, .returns n) => n
  | _ => 0

def elements (one : IoVec → σ → σ × Answer ε Nat) : List IoVec → Nat → σ → σ × Answer ε Nat
  | [], total, s => (s, .returns total)
  | iov :: rest, total, s =>
    if iov.len = 0 then elements one rest total s
    else
      match one iov s with
      | (s, .returns n) =>
        if n < iov.size then (s, .returns (total + n)) else elements one rest (total + n) s
      | (s, .fails e) => (s, .fails e)
      | (s, .sleeps) => (s, .sleeps)

def vectored (one : F → IoVec → σ → σ × Answer ε Nat) (fd : Int) (iovAddr count : Nat) (s : σ) :
    σ × Answer ε Nat :=
  match H.get s fd with
  | .error e => (s, .fails e)
  | .ok file =>
    match H.readIovecs s iovAddr count with
    | .error e => (s, .fails e)
    | .ok iovs => elements (one file) iovs 0 s

def readv : Int → Nat → Nat → σ → σ × Answer ε Nat := vectored H (readElement H)
def writev : Int → Nat → Nat → σ → σ × Answer ε Nat := vectored H (writeElement H)

end

/-! ## what was moved -/

section
variable (one : IoVec → σ → σ × Answer ε Nat) (took : IoVec → σ → Nat)

/-- an element that is refused may have taken its bytes before -/
def moved : List IoVec → σ → Nat
  | [], _ => 0
  | iov :: rest, s =>
    if iov.len = 0 then moved rest s
    else
      match one iov s with
      | (s', .returns n) => if n < iov.size then n else n + moved rest s'
      | _ => took iov s

def Served : List IoVec → σ → Prop
  | [], _ => True
  | iov :: rest, s =>
    if iov.len = 0 then Served rest s
    else
      match one iov s with
      | (s, .returns n) => iov.size ≤ n → Served rest s
      | _ => False

/-- every element after one that was filled is served, up to one that is short, and the first that is
not served has taken nothing -/
def Smooth : List IoVec → σ → Prop
  | [], _ => True
  | iov :: rest, s =>
    if iov.len = 0 then Smooth rest s
    else
      match one iov s with
      | (s', .returns n) => iov.size ≤ n → Served one rest s'
      | _ => took iov s = 0

lemma elements_served (iovs : List IoVec) (total : Nat) (s : σ) :
    (elements one iovs total s).2 = .returns (total + moved one took iovs s) ↔ Served one iovs s := by
  induction iovs generalizing total s with
  | nil => exact iff_of_true rfl trivial
  | cons iov rest ih =>
    rw [elements, moved, Served]
    split
    · exact ih total s
    · rcases one iov s with ⟨s', n | e | _⟩
      · dsimp only
        split
        · rename_i hshort
          exact iff_of_true rfl fun hfull => absurd hshort (Nat.not_lt.mpr hfull)
        · rename_i hfull
          rw [← Nat.add_assoc, ih]
          exact ⟨fun h _ => h, fun h => h (Nat.not_lt.mp hfull)⟩
      · exact iff_of_false (fun h => by cases h) id
      · exact iff_of_false (fun h => by cases h) id

lemma elements_smooth (iovs : List IoVec) (s : σ) :
    (0 < moved one took iovs s → (elements one iovs 0 s).2 = .returns (moved one took iovs s)) ↔
      Smooth one took iovs s := by
  induction iovs generalizing s with
  | nil => exact iff_of_true (fun _ => rfl) trivial
  | cons iov rest ih =>
    rw [elements, moved, Smooth]
    split
    · exact ih s
    · rename_i hlen
      have hsize : 0 < iov.size := Nat.lt_min.mpr ⟨Nat.pos_of_ne_zero hlen, by decide⟩
      have hrefused (a : Answer ε Nat) (ha : ∀ n, a ≠ .returns n) :
          (0 < took iov s → a = .returns (took iov s)) ↔ took iov s = 0 :=
        ⟨fun h => by_contra fun h0 => ha _ (h (Nat.pos_of_ne_zero h0)),
          fun h hpos => absurd h (Nat.ne_of_gt hpos)⟩
      rcases one iov s with ⟨s', n | e | _⟩
      · dsimp only
        split
        · rename_i hshort
          refine iff_of_true (fun _ => ?_) fun hfull => absurd hshort (Nat.not_lt.mpr hfull)
          rw [Nat.zero_add]
        · rename_i hfull
          -- the first element is full, so bytes were moved and every other one has to be served
          have hpos : 0 < n + moved one took rest s' := by omega
          rw [Nat.zero_add, elements_served]
          exact ⟨fun h _ => h hpos, fun h _ => h (Nat.not_lt.mp hfull)⟩
      · exact hrefused (.fails e) nofun
      · exact hrefused .sleeps nofun

end

section
variable (H : Host σ F ε) (one : F → IoVec → σ → σ × Answer ε Nat) (took : F → IoVec → σ → Nat)

variable (fd : Int) (iovAddr count : Nat) (s : σ)

/-- a call that has moved bytes returns how many -/
def Reports (call : Int → Nat → Nat → σ → σ × Answer ε Nat) : Prop :=
  ∀ file iovs, H.get s fd = .ok file → H.readIovecs s iovAddr count = .ok iovs →
    0 < moved (one file) (took file) iovs s →
      (call fd iovAddr count s).2 = .returns (moved (one file) (took file) iovs s)

/-- the file and the memory serve every element that comes after one they have filled, and no memory
refuses bytes that were taken for it -/
def Undisturbed : Prop :=
  ∀ file iovs, H.get s fd = .ok file → H.readIovecs s iovAddr count = .ok iovs →
    Smooth (one file) (took file) iovs s

lemma vectored_reports : Reports H one took fd iovAddr count s (vectored H one) ↔
    Undisturbed H one took fd iovAddr count s := by
  refine forall_congr' fun file => forall_congr' fun iovs => imp_congr_right fun hfile =>
    imp_congr_right fun hiovs => ?_
  rw [vectored, hfile, hiovs]
  exact elements_smooth (one file) (took file) iovs s

end

def answer {α : Type} : Attempt α → Answer Errno α
  | .returns (.ok a) => .returns a
  | .returns (.error e) => .fails e
  | .sleeps => .sleeps

/-- the ends of a pipe with `O_NONBLOCK`, and a vector of two buffers of one byte -/
def pipeHost : Host Pipe Unit Errno where
  get _ _ := .ok ()
  readIovecs _ _ _ := .ok [⟨0x1000, 1⟩, ⟨0x2000, 1⟩]
  read _ size p := ((p.read size true false).1, answer (p.read size true false).2)
  write _ buf p := ((p.write buf true false).1, answer (p.write buf true false).2)
  readBytes _ n _ := .ok (List.replicate n 0)
  writeBytes _ _ p := (p, .ok ())

def oneByte : Pipe := ⟨⟨[7], 0, by decide⟩, 1, 1⟩

/-- what `sendfile` meets: the two descriptors, the caller's word, the input, how much a read gives
and a write takes; whether the two descriptors are one description, with one offset; and where the
output's file ends, if it is appended to -/
structure Sides (ε : Type) where
  input : Except ε Bool
  output : Except ε Unit
  readWord : Except ε Unit
  writeWord : Except ε Unit
  EINVAL : ε
  data : List Byte
  gives : Nat → Nat → Except ε Nat
  takes : List Byte → Except ε Nat
  shared : Bool
  append : Option Nat
  gives_le : ∀ pos len n, gives pos len = .ok n → n ≤ len ∧ n ≤ data.length - pos
  takes_le : ∀ buf n, takes buf = .ok n → n ≤ buf.length

/-- the descriptor's offset, the word at the caller's address, and what the output has taken -/
structure Sending where
  offset : Nat
  word : Nat
  sent : List Byte

section
variable (s : Sending) (addressed : Bool) (n : Nat)

/-- the position of a call with the caller's address, or without -/
def Sending.position : Nat := if addressed then s.word else s.offset

def Sending.advance : Sending :=
  if addressed then { s with word := s.word + n } else { s with offset := s.offset + n }

lemma Sending.advance_position :
    (s.advance addressed n).position addressed = s.position addressed + n := by
  cases addressed <;> rfl

lemma Sending.advance_sent : (s.advance addressed n).sent = s.sent := by
  cases addressed <;> rfl

end

section
variable (D : Sides ε) (addressed : Bool) (count : Nat) (s : Sending)

/-- where the write begins, when the description it is made through stands at `offset` -/
def Sides.start (offset : Nat) : Nat := D.append.getD offset

/-- a write moves the offset of its own description -/
def Sending.stored (written : Nat) : Sending :=
  if D.shared then { s with offset := D.start s.offset + written } else s

/-- how many bytes are read, when nothing before the write fails -/
def fetch : Except ε Nat := do
  let node ← D.input
  D.output
  if addressed then
    D.readWord
    if !node then throw D.EINVAL
  let n ← D.gives (s.position addressed) (min count MAX_IO)
  if addressed then
    if 2 ^ 64 ≤ s.word + n then throw D.EINVAL
    D.writeWord
  return n

/-- the position is stored before the write, which may take less than was read -/
def sendfile : Sending × Except ε Nat :=
  match fetch D addressed count s with
  | .error e => (s, .error e)
  | .ok n =>
    let s' := s.advance addressed n
    let buf := (D.data.drop (s.position addressed)).take n
    match D.takes buf with
    | .error e => (s', .error e)
    | .ok written => ({ s'.stored D written with sent := s'.sent ++ buf.take written }, .ok written)

/-- what was sent is what was passed over, and its length is what was returned -/
def Exact (after : Sending × Except ε Nat) : Prop :=
  let n := after.2.toOption.getD 0
  after.1.position addressed = s.position addressed + n ∧
    after.1.sent = s.sent ++ (D.data.drop (s.position addressed)).take n

/-- the output takes at once all that was read; where the position is the output's too, it begins
to write where the input was read, or else takes nothing of nothing -/
def Takes (n : Nat) : Prop :=
  let answer := D.takes ((D.data.drop (s.position addressed)).take n)
  if D.shared = true ∧ addressed = false then
    match answer with
    | .ok _ => D.start (s.offset + n) = s.offset
    | .error _ => n = 0
  else 0 < n → answer = .ok n

lemma Sending.stored_position (written : Nat) (h : ¬(D.shared = true ∧ addressed = false)) :
    (s.stored D written).position addressed = s.position addressed := by
  rw [stored]
  cases addressed with
  | true => split <;> rfl
  | false => rw [if_neg fun e => h ⟨e, rfl⟩]

/-- **`sendfile` goes on by what it sends** just when the output takes what was read -/
theorem sendfile_exact_iff : Exact D addressed s (sendfile D addressed count s) ↔
    ∀ n, fetch D addressed count s = .ok n → Takes D addressed s n := by
  rw [sendfile]
  cases hfetch : fetch D addressed count s with
  | error e => exact iff_of_true ⟨rfl, (List.append_nil _).symm⟩ nofun
  | ok n =>
    have hall : (∀ m, (Except.ok n : Except ε Nat) = .ok m → Takes D addressed s m) ↔
        Takes D addressed s n := ⟨fun h => h n rfl, by rintro h _ ⟨⟩; exact h⟩
    rw [hall, Takes]
    dsimp only
    cases htakes : D.takes ((D.data.drop (s.position addressed)).take n) with
    | error e =>
      -- nothing was sent, so nothing may have been passed over
      have hzero : Exact D addressed s (s.advance addressed n, (.error e : Except ε Nat)) ↔ n = 0 := by
        rw [Exact, s.advance_position, s.advance_sent]
        simp [Except.toOption]
      rw [hzero]
      split
      · rfl
      · exact ⟨fun h hpos => absurd h (Nat.ne_of_gt hpos), fun h => by_contra fun h0 =>
          absurd (h (Nat.pos_of_ne_zero h0)) nofun⟩
    | ok written =>
      have hle := D.takes_le _ _ htakes
      rw [List.length_take] at hle
      have hsent : Exact D addressed s ({ (s.advance addressed n).stored D written with
            sent := (s.advance addressed n).sent ++
              ((D.data.drop (s.position addressed)).take n).take written }, .ok written) ↔
          ((s.advance addressed n).stored D written).position addressed =
            s.position addressed + written := by
        refine ⟨fun h => h.1, fun h => ⟨h, ?_⟩⟩
        dsimp only
        rw [s.advance_sent, List.take_take, Nat.min_eq_left (by omega)]
        rfl
      rw [hsent]
      split
      · next h =>
        obtain ⟨hshared, rfl⟩ := h
        simp [Sending.stored, hshared, Sending.position, Sending.advance]
      · next h =>
        rw [Sending.stored_position _ _ _ _ h, s.advance_position, Nat.add_left_cancel_iff]
        refine ⟨fun e _ => e ▸ rfl, fun e => ?_⟩
        by_cases hn : 0 < n
        · exact (Except.ok.inj (e hn)).symm
        · omega

end

/-- a file of two bytes, and a pipe that nobody reads -/
def unread : Sides Errno where
  input := .ok true
  output := .ok ()
  readWord := .ok ()
  writeWord := .ok ()
  EINVAL := .EINVAL
  data := [7, 8]
  gives pos len := .ok (min len (2 - pos))
  takes _ := .error .EPIPE
  shared := false
  append := none
  gives_le := by rintro pos len n ⟨⟩; exact ⟨Nat.min_le_left .., Nat.min_le_right ..⟩
  takes_le := nofun

/-- the bytes are passed over and not sent -/
theorem sendfile_skips : ¬ Exact unread false ⟨0, 0, []⟩ (sendfile unread false 2 ⟨0, 0, []⟩) ∧
    (sendfile unread false 2 ⟨0, 0, []⟩).1.offset = 2 ∧
    (sendfile unread false 2 ⟨0, 0, []⟩).1.sent = [] :=
  ⟨fun h => absurd h.1 (by decide), rfl, rfl⟩

end ClaudeOs.Fs.Vectored
