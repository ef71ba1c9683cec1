import ClaudeOs.Fs.Pipe

/-!
# The terminal: an input ring, a line being edited, and what a read takes from them

`console/mod.rs`.  Bytes arrive into a ring of which one place stays free.  In canonical mode a read
pulls them into the line buffer, where they are edited until a line end or Ctrl-D hands the line
over; otherwise it takes them from the ring as they are.

* `Terminal`  the ring, the line, the settings and what was echoed or written;
* `pushByte`, `available`, `write`  input, the count poll asks for, and output;
* `claimTerminal`  whether a process may read at all;
* `feed`, `gatherLine`, `handOut`  one byte of the editor, its loop, and what a line gives;
* `read_sleeps_iff`  when a read goes to sleep;
* `Readers`, `interrupt_discards`  the sections of reads, and what is read after an interrupt.
-/

namespace ClaudeOs.Console
open Fs List

def RING_SIZE : Nat := 1024

/-- the settings that `console/mod.rs` looks at -/
structure Termios where
  isig : Bool
  icanon : Bool
  echo : Bool
  opost : Bool
  onlcr : Bool
  intr : Byte
  quit : Byte
  susp : Byte
  deriving DecidableEq, Repr

/-- `Termios::CONSOLE` -/
def Termios.console : Termios := ⟨true, true, true, true, true, 3, 28, 26⟩

/-- the line buffer; `data` is as long as the source's `len` -/
structure LineBuffer where
  data : List Byte
  pos : Nat
  ready : Bool
  eof : Bool
  deriving DecidableEq, Repr

structure Terminal where
  /-- the ring from its tail to its head -/
  input : List Byte
  line : LineBuffer
  termios : Termios
  out : List Byte
  deriving DecidableEq, Repr

inductive Signal where
  | SIGINT | SIGQUIT | SIGTSTP
  deriving DecidableEq, Repr

namespace Terminal

def new : Terminal := ⟨[], ⟨[], 0, false, false⟩, .console, []⟩

/-! ## output -/

/-- a carriage return in front of every line feed, if the settings ask for it -/
def emit (onlcr : Bool) (bytes : List Byte) : List Byte :=
  bytes.flatMap fun byte => if onlcr && byte == 10 then [13, byte] else [byte]

section
variable (t : Terminal) (echoOn : Bool)

def write (buf : List Byte) : Terminal :=
  { t with out := t.out ++ emit (t.termios.opost && t.termios.onlcr) buf }

def echo (on : Bool) (bytes : List Byte) : Terminal := if on then t.write bytes else t

/-! ## input -/

def signalOf (termios : Termios) (byte : Byte) : Option (Signal × List Byte) :=
  if termios.isig && byte != 0 then
    if byte = termios.intr then some (.SIGINT, [94, 67, 10])
    else if byte = termios.quit then some (.SIGQUIT, [94, 92, 10])
    else if byte = termios.susp then some (.SIGTSTP, [94, 90, 10])
    else none
  else none

/-- `Ring::push`: with one place left the newest byte is dropped -/
def pushRing (byte : Byte) : Terminal :=
  if t.input.length + 1 = RING_SIZE then t else { t with input := t.input ++ [byte] }

def pushByte (byte : Byte) : Terminal × Option Signal :=
  match signalOf t.termios byte with
  | some (signal, mark) =>
    ({ t with line := { t.line with data := [], pos := 0, ready := false } }.write mark, some signal)
  | none => (t.pushRing byte, none)

def holdsLine : Bool := t.line.ready && decide (t.line.pos < t.line.data.length)

def available : Nat :=
  if t.holdsLine then t.line.data.length - t.line.pos else t.input.length

/-! ## reading -/

/-- what `claim_terminal` reads of the process -/
structure Reader where
  foreground : Nat
  pid : Nat
  pgid : Nat
  ttinBlocked : Bool
  ttinIgnored : Bool
  deriving DecidableEq, Repr

inductive Claim where
  | granted
  | refused
  /-- SIGTTIN stops the process, which looks again once it is continued -/
  | stopped
  deriving DecidableEq, Repr

def claimTerminal (r : Reader) : Claim :=
  if r.foreground = 0 ∨ r.pid = 1 ∨ r.pgid = 0 ∨ r.pgid = r.foreground then .granted
  else if r.ttinBlocked || r.ttinIgnored then .refused
  else .stopped

def setData (data : List Byte) : Terminal := { t with line := { t.line with data := data } }
def finishLine : Terminal := { t with line := { t.line with pos := 0, ready := true } }

def finishInput : Terminal := { t with line := { t.line with ready := true, eof := true } }

def erase : List Byte := [8, 32, 8]

/-- one byte of `gather_line`, and whether it ended the line -/
def feed (byte : Byte) : Terminal × Bool :=
  if byte = 10 ∨ byte = 13 then
    let t := if t.line.data.length < RING_SIZE then t.setData (t.line.data ++ [10]) else t
    (t.finishLine.echo echoOn [10], true)
  else if byte = 0x7F ∨ byte = 0x08 then
    if t.line.data = [] then (t, false)
    else ((t.setData t.line.data.dropLast).echo echoOn erase, false)
  else if byte = 0x04 then
    (if t.line.data = [] then t.finishInput else t.finishLine, true)
  else if byte = 0x15 then
    ((t.setData []).echo echoOn (t.line.data.flatMap fun _ => erase), false)
  else if t.line.data.length < RING_SIZE - 1 then
    ((t.setData (t.line.data ++ [byte])).echo echoOn [byte], false)
  else (t, false)

def gather (echoOn : Bool) : List Byte → Terminal → Terminal × Bool
  | [], t => ({ t with input := [] }, false)
  | byte :: rest, t =>
    let fed := { t with input := rest }.feed echoOn byte
    if fed.2 then fed else gather echoOn rest fed.1

def gatherLine : Terminal × Bool := gather echoOn t.input t

/-- the line buffer emptied; its end-of-file mark is kept apart -/
def clearLine : Terminal :=
  { t with line := { t.line with data := [], pos := 0, ready := false } }

/-- the locked section at the top of a canonical read -/
def handOut (size : Nat) : Option (Terminal × List Byte) :=
  if t.holdsLine then
    let n := min size (t.line.data.length - t.line.pos)
    let bytes := (t.line.data.drop t.line.pos).take n
    if t.line.pos + n = t.line.data.length then some (t.clearLine, bytes)
    else some ({ t with line := { t.line with pos := t.line.pos + n } }, bytes)
  else if t.line.eof then
    some ({ t with line := ⟨[], 0, false, false⟩ }, [])
  else if t.line.ready && t.line.data.isEmpty then
    some ({ t with line := { t.line with ready := false } }, [])
  else none

/-- the loop of a canonical read: every turn but the last gathers a line, of at least one byte -/
def readLine (echoOn : Bool) (size : Nat) (signal : Bool) :
    Nat → Terminal → Terminal × Attempt (List Byte)
  | 0, t => (t, .sleeps)
  | fuel + 1, t =>
    match t.handOut size with
    | some (t', bytes) => (t', .returns (.ok bytes))
    | none =>
      let gathered := t.gatherLine echoOn
      if gathered.2 then readLine echoOn size signal fuel gathered.1
      else (gathered.1, .wait false signal)

def readRaw (size : Nat) (signal : Bool) : Terminal × Attempt (List Byte) :=
  if t.input = [] then (t, .wait false signal)
  else ({ t with input := t.input.drop size }.echo echoOn (t.input.take size),
    .returns (.ok (t.input.take size)))

/-- `read` into `size` bytes; the descriptor's `O_NONBLOCK` is not asked -/
def read (who : Reader) (size : Nat) (signal : Bool) : Terminal × Attempt (List Byte) :=
  if size = 0 then (t, .returns (.ok []))
  else
    match claimTerminal who with
    | .refused => (t, .returns (.error .Eio))
    | .stopped => (t, .sleeps)
    | .granted =>
      if t.termios.icanon then readLine t.termios.echo size signal (t.input.length + 1) t
      else t.readRaw t.termios.echo size signal

end

/-! ## when a read sleeps -/

def endsLine (byte : Byte) : Bool := byte == 10 || byte == 13 || byte == 4

variable {t : Terminal} {echoOn : Bool}

@[simp] lemma line_echo (bytes : List Byte) : (t.echo echoOn bytes).line = t.line := by
  unfold echo; split <;> rfl

lemma feed_ends (byte : Byte) : (t.feed echoOn byte).2 = endsLine byte := by
  unfold feed endsLine
  split
  · rename_i h
    rcases h with rfl | rfl <;> rfl
  · rename_i hnl
    split
    · rename_i h
      rcases h with rfl | rfl <;> split <;> rfl
    · split
      · rename_i h
        subst h
        rfl
      · rename_i h4
        have hb : (byte == 10 || byte == 13 || byte == 4) = false := by
          simp only [not_or] at hnl
          simp [hnl, h4]
        rw [hb]
        split
        · rfl
        · split <;> rfl

/-- the line buffer answers a canonical read without more input -/
def settled (t : Terminal) : Bool := t.holdsLine || t.line.eof || t.line.ready && t.line.data.isEmpty

lemma handOut_isSome (size : Nat) : (t.handOut size).isSome = t.settled := by
  unfold handOut settled
  cases t.holdsLine with
  | true => simp only [if_true, Bool.true_or]; split <;> rfl
  | false =>
    cases t.line.eof with
    | true => rfl
    | false => cases t.line.ready && t.line.data.isEmpty <;> rfl

lemma settled_finishLine (h : t.line.data ≠ []) : t.finishLine.settled = true := by
  have hpos : 0 < t.line.data.length := length_pos_iff.mpr h
  simp [settled, holdsLine, finishLine, hpos]

lemma settled_feed {byte : Byte} (h : endsLine byte = true) :
    (t.feed echoOn byte).1.settled = true := by
  have hecho : ∀ (t : Terminal) (bytes : List Byte), (t.echo echoOn bytes).settled = t.settled := by
    intro t bytes
    simp [settled, holdsLine]
  simp only [endsLine, Bool.or_eq_true, beq_iff_eq] at h
  unfold feed
  by_cases hnl : byte = 10 ∨ byte = 13
  · rw [if_pos hnl]
    simp only [hecho]
    apply settled_finishLine
    split
    · simp [setData]
    · rename_i hfull
      intro e
      simp [e, RING_SIZE] at hfull
  · obtain rfl : byte = 4 := by tauto
    rw [if_neg hnl, if_neg (by decide), if_pos rfl]
    by_cases hd : t.line.data = []
    · simp [hd, settled, finishInput]
    · simp only [if_neg hd]
      exact settled_finishLine hd

lemma gather_ends (echoOn : Bool) (pending : List Byte) (t : Terminal) :
    (gather echoOn pending t).2 = pending.any endsLine ∧
      ((gather echoOn pending t).2 = true → (gather echoOn pending t).1.settled = true) := by
  induction pending generalizing t with
  | nil => exact ⟨rfl, nofun⟩
  | cons byte rest ih =>
    unfold gather
    simp only [feed_ends, any_cons]
    cases hb : endsLine byte with
    | true => exact ⟨by simp [feed_ends, hb], fun _ => settled_feed hb⟩
    | false => simpa using ih _

lemma readLine_sleeps_iff (size fuel : Nat) (hf : t.input ≠ [] → fuel ≠ 0) :
    (readLine echoOn size false (fuel + 1) t).2 = .sleeps ↔
      t.settled = false ∧ t.input.any endsLine = false := by
  unfold readLine
  cases hout : t.handOut size with
  | some taken => simp [← handOut_isSome size, hout]
  | none =>
    have hset : t.settled = false := by rw [← handOut_isSome size, hout]; rfl
    obtain ⟨hends, hafter⟩ := gather_ends echoOn t.input t
    simp only [hset, true_and]
    rw [← hends]
    cases hg : (gather echoOn t.input t).2 with
    | false => simp [gatherLine, hg, Attempt.wait]
    | true =>
      -- the ring was not empty, so there is a turn left, and the line just gathered is its answer
      have hne : t.input ≠ [] := by
        intro e
        rw [hg, e] at hends
        cases hends
      obtain ⟨fuel, rfl⟩ := Nat.exists_eq_succ_of_ne_zero (hf hne)
      have hsome := hafter hg
      rw [← handOut_isSome size] at hsome
      obtain ⟨taken, htaken⟩ := Option.isSome_iff_exists.mp hsome
      simp only [gatherLine, hg, if_true, readLine, htaken]
      simp

lemma read_sleeps_iff (who : Reader) {size : Nat} (hs : size ≠ 0) :
    (t.read who size false).2 = .sleeps ↔ match claimTerminal who with
      | .refused => False
      | .stopped => True
      | .granted =>
        if t.termios.icanon then t.settled = false ∧ t.input.any endsLine = false
        else t.input = [] := by
  unfold read
  rw [if_neg hs]
  cases claimTerminal who with
  | refused => simp
  | stopped => simp
  | granted =>
    simp only
    split
    · exact readLine_sleeps_iff size t.input.length fun h => by simpa using h
    · unfold readRaw
      split
      · rename_i he
        simp [he, Attempt.wait]
      · rename_i he
        simp [he]

end Terminal

/-! ## what is read after an interrupt -/

/-- the terminal, and the bytes readers have taken off the ring and not yet put in the line -/
structure Readers where
  terminal : Terminal
  hands : List Byte

/-- one locked section of the terminal's calls in canonical mode -/
inductive Section where
  | type (byte : Byte)
  | pop
  | edit (reader : Nat) (echoOn : Bool)
  | look (size : Nat)

def Readers.step (w : Readers) : Section → Readers × List Byte
  | .type byte => (⟨(w.terminal.pushByte byte).1, w.hands⟩, [])
  | .pop =>
    match w.terminal.input with
    | [] => (w, [])
    | byte :: rest => (⟨{ w.terminal with input := rest }, byte :: w.hands⟩, [])
  | .edit reader echoOn =>
    match w.hands[reader]? with
    | none => (w, [])
    | some byte => (⟨(w.terminal.feed echoOn byte).1, w.hands.eraseIdx reader⟩, [])
  | .look size =>
    match w.terminal.handOut size with
    | none => (w, [])
    | some (t, bytes) => (⟨t, w.hands⟩, bytes)

def Readers.returned (w : Readers) : List Section → List Byte
  | [] => []
  | s :: ss => (w.step s).2 ++ (w.step s).1.returned ss

def Section.typed : Section → Option Byte
  | .type byte => some byte
  | _ => none

def cooked (byte : Byte) : Byte := if byte = 13 then 10 else byte

/-- every byte that is not yet read has the property once it is in the line -/
structure Readers.All (P : Byte → Prop) (w : Readers) : Prop where
  line : ∀ b ∈ w.terminal.line.data, P b
  hands : ∀ b ∈ w.hands, P (cooked b)
  ring : ∀ b ∈ w.terminal.input, P (cooked b)

variable {P : Byte → Prop} {t : Terminal} {byte : Byte} {w : Readers}

@[simp] lemma Terminal.input_echo (on : Bool) (bytes : List Byte) :
    (t.echo on bytes).input = t.input := by
  unfold echo; split <;> rfl

lemma Terminal.feed_all (echoOn : Bool) (hline : ∀ b ∈ t.line.data, P b) (hbyte : P (cooked byte)) :
    (∀ b ∈ (t.feed echoOn byte).1.line.data, P b) ∧ (t.feed echoOn byte).1.input = t.input := by
  have happend {b : Byte} (hb : cooked byte = b) : ∀ c ∈ t.line.data ++ [b], P c :=
    forall_mem_append.mpr ⟨hline, forall_mem_singleton.mpr (hb ▸ hbyte)⟩
  unfold feed
  split
  · next hend =>
    have hten : cooked byte = 10 := by rcases hend with rfl | rfl <;> rfl
    simp only [line_echo, input_echo, finishLine]
    split
    · exact ⟨happend hten, rfl⟩
    · exact ⟨hline, rfl⟩
  · next hend =>
    repeat' split
    · exact ⟨hline, rfl⟩
    · simp only [line_echo, input_echo]
      exact ⟨fun b hb => hline b ((dropLast_sublist _).mem hb), rfl⟩
    · exact ⟨hline, rfl⟩
    · exact ⟨hline, rfl⟩
    · simp only [line_echo, input_echo]
      exact ⟨nofun, rfl⟩
    · simp only [line_echo, input_echo]
      exact ⟨happend (if_neg fun h => hend (.inr h)), rfl⟩
    · exact ⟨hline, rfl⟩

lemma Terminal.handOut_all {size : Nat} {t' : Terminal} {bytes : List Byte}
    (h : t.handOut size = some (t', bytes)) (hline : ∀ b ∈ t.line.data, P b) :
    (∀ b ∈ t'.line.data, P b) ∧ t'.input = t.input ∧ ∀ b ∈ bytes, P b := by
  have htaken : ∀ b ∈ (t.line.data.drop t.line.pos).take (min size (t.line.data.length - t.line.pos)),
      P b := fun b hb => hline b (mem_of_mem_drop (mem_of_mem_take hb))
  unfold handOut at h
  dsimp only at h
  repeat' split at h
  all_goals cases h
  · exact ⟨nofun, rfl, htaken⟩
  · exact ⟨hline, rfl, htaken⟩
  · exact ⟨nofun, rfl, nofun⟩
  · exact ⟨hline, rfl, nofun⟩

namespace Readers

lemma All.step (h : w.All P) {s : Section} (htyped : ∀ b ∈ s.typed, P (cooked b)) :
    (w.step s).1.All P ∧ ∀ b ∈ (w.step s).2, P b := by
  cases s with
  | type byte =>
    dsimp only [Readers.step, Terminal.pushByte]
    split
    · exact ⟨⟨nofun, h.hands, h.ring⟩, nofun⟩
    · unfold Terminal.pushRing
      split
      · exact ⟨h, nofun⟩
      · refine ⟨⟨h.line, h.hands, forall_mem_append.mpr ⟨h.ring, ?_⟩⟩, nofun⟩
        exact forall_mem_singleton.mpr (htyped byte rfl)
  | pop =>
    dsimp only [Readers.step]
    split
    · exact ⟨h, nofun⟩
    · next byte rest hring =>
      have hall := h.ring
      rw [hring, forall_mem_cons] at hall
      exact ⟨⟨h.line, forall_mem_cons.mpr ⟨hall.1, h.hands⟩, hall.2⟩, nofun⟩
  | edit reader echoOn =>
    dsimp only [Readers.step]
    split
    · exact ⟨h, nofun⟩
    · next byte hbyte =>
      have hfed := Terminal.feed_all echoOn h.line (h.hands byte (mem_of_getElem? hbyte))
      exact ⟨⟨hfed.1, fun b hb => h.hands b (mem_of_mem_eraseIdx hb), hfed.2 ▸ h.ring⟩, nofun⟩
  | look size =>
    dsimp only [Readers.step]
    split
    · exact ⟨h, nofun⟩
    · next t bytes hout =>
      have hgiven := Terminal.handOut_all hout h.line
      exact ⟨⟨hgiven.1, h.hands, hgiven.2.1 ▸ h.ring⟩, hgiven.2.2⟩

lemma All.returned (ss : List Section) (h : w.All P)
    (htyped : ∀ b ∈ ss.filterMap Section.typed, P (cooked b)) : ∀ b ∈ w.returned ss, P b := by
  induction ss generalizing w with
  | nil => exact nofun
  | cons s ss ih =>
    obtain ⟨hstep, hgiven⟩ := h.step (s := s) fun b hb =>
      htyped b (mem_filterMap.mpr ⟨s, mem_cons_self, hb⟩)
    refine forall_mem_append.mpr ⟨hgiven, ih hstep fun b hb => htyped b ?_⟩
    obtain ⟨s', hs', hb⟩ := mem_filterMap.mp hb
    exact mem_filterMap.mpr ⟨s', mem_cons_of_mem _ hs', hb⟩

end Readers

/-- **an interrupt discards what was typed**: if it finds the ring empty and no reader with a byte in
its hands, every byte that a read returns afterwards was typed afterwards -/
theorem interrupt_discards (w : Readers) (byte : Byte) (ss : List Section)
    (hsignal : (w.terminal.pushByte byte).2 = some .SIGINT ∨
      (w.terminal.pushByte byte).2 = some .SIGQUIT)
    (hring : w.terminal.input = []) (hhands : w.hands = []) :
    ∀ b ∈ (w.step (.type byte)).1.returned ss, b ∈ (ss.filterMap Section.typed).map cooked := by
  have hall : (w.step (.type byte)).1.All (· ∈ (ss.filterMap Section.typed).map cooked) := by
    simp only [Readers.step, Terminal.pushByte] at hsignal ⊢
    split at hsignal
    · exact ⟨nofun, by simp [hhands], by simp [Terminal.write, hring]⟩
    · simp at hsignal
  exact hall.returned ss fun b hb => mem_map_of_mem hb

def lineTyped : List Section :=
  [.type 98, .type 13, .pop, .edit 0 true, .pop, .edit 0 true, .pop, .edit 0 true, .look 8]

/-- a letter that a reader has edited into the line -/
def letterEdited : Readers := [.type 97, .pop, .edit 0 true].foldl (fun w s => (w.step s).1) ⟨.new, []⟩

/-- the letter is gone, and the line typed after Ctrl-C is read -/
theorem interrupt_discards_line : letterEdited.terminal.line.data = [97] ∧
    (letterEdited.step (.type 3)).1.returned lineTyped = [98, 10] ∧
    ∀ b ∈ (letterEdited.step (.type 3)).1.returned lineTyped, b ∈ [98, 13].map cooked :=
  ⟨by decide, by decide, interrupt_discards letterEdited 3 lineTyped (.inl rfl) rfl rfl⟩

/-- **the ring is not emptied**: a letter typed before Ctrl-C is in the line read after it -/
theorem interrupt_keeps_ring : ∃ (w : Readers) (byte : Byte) (ss : List Section),
    (w.terminal.pushByte byte).2 = some .SIGINT ∧ 97 ∈ (w.step (.type byte)).1.returned ss ∧
      97 ∉ (ss.filterMap Section.typed).map cooked :=
  ⟨⟨(Terminal.new.pushByte 97).1, []⟩, 3, lineTyped, by decide, by decide, by decide⟩

end ClaudeOs.Console
