import ClaudeOs.Fs.Pipe

/-!
# Named pipes: the registry in which the ends of a FIFO meet

`fs/pipe.rs`, `fifo_join`, `leave` and `open_fifo`.  The counts of a named pipe and its entry in
`FIFOS` change together under the lock of the registry, so a section of it is one step here; an
open waits, and the last descriptor is let go, outside of it.

* `Named`  the `Pipe` of a FIFO: its inode and the counts of its ends;
* `Description`  an open file on it, from the section that counts its end to the one that gives the
  end back;
* `Fifos.step`  one section of an open, a dup or a close;
* `Registered`  the entries are the pipes that somebody has open, and the counts are right;
* `fifo_registry`  every run of sections keeps that.
-/

namespace ClaudeOs.Fs.Fifo
open Function

structure Named where
  fifo : Nat
  readers : Nat
  writers : Nat
  readerOpens : Nat
  writerOpens : Nat

namespace Named

def make (ino : Nat) : Named := ⟨ino, 0, 0, 0, 0⟩

section
variable (x : Named) (e : PipeEnd)

def join : Named where
  fifo := x.fifo
  readers := x.readers + e.reads.toNat
  writers := x.writers + e.writes.toNat
  readerOpens := x.readerOpens + e.reads.toNat
  writerOpens := x.writerOpens + e.writes.toNat

def giveBack : Named :=
  { x with readers := x.readers - e.reads.toNat, writers := x.writers - e.writes.toNat }

def otherOpens : Nat :=
  if e = .Write then x.readerOpens else x.writerOpens

/-- the other side is open, or has been since its opens were `seen` -/
def arrived (seen : Nat) : Bool :=
  decide (0 < if e = .Write then x.readers else x.writers) || x.otherOpens e != seen

def Idle : Prop := x.readers = 0 ∧ x.writers = 0

end

instance (x : Named) : Decidable x.Idle := inferInstanceAs (Decidable (_ ∧ _))

end Named

inductive Stage where
  | opening (seen : Nat)
  /-- so many descriptors have it; with none left it is about to be dropped -/
  | shared (handles : Nat)
  | closed
  deriving DecidableEq

structure Description where
  pipe : Nat
  mode : PipeEnd
  stage : Stage

structure Fifos where
  pipes : Nat → Named
  made : Nat
  entries : Nat → Option Nat
  files : List Description

inductive Action where
  | open (ino : Nat) (mode : PipeEnd) (nonblock : Bool)
  /-- the loop of `open_fifo` looks once more, with a signal pending or not -/
  | look (i : Nat) (signal : Bool)
  | dup (i : Nat)
  | close (i : Nat)
  | drop (i : Nat)

namespace Fifos

def start : Fifos := ⟨fun _ => Named.make 0, 0, fun _ => none, []⟩

/-- the pipe joined, and the other side's open count before that; nothing for `ENXIO` -/
def fifoJoin (t : Fifos) (ino : Nat) (e : PipeEnd) (nonblock : Bool) :
    Option (Fifos × Nat × Nat) :=
  let (p, x, made) := match t.entries ino with
    | some p => (p, t.pipes p, t.made)
    | none => (t.made, Named.make ino, t.made + 1)
  -- answered before an entry is made
  if e = .Write ∧ nonblock ∧ x.readers = 0 then none
  else some (⟨update t.pipes p (x.join e), made,
    update t.entries ino (some p), t.files⟩, p, x.otherOpens e)

/-- the description `i`, with nothing left that names it, gives back its end -/
def leave (t : Fifos) (i : Nat) (d : Description) : Fifos :=
  let x := (t.pipes d.pipe).giveBack d.mode
  ⟨update t.pipes d.pipe x, t.made, if x.Idle then update t.entries x.fifo none else t.entries,
    t.files.set i { d with stage := .closed }⟩

def setStage (t : Fifos) (i : Nat) (stage : Description → Stage) : Fifos :=
  match t.files[i]? with
  | some d => { t with files := t.files.set i { d with stage := stage d } }
  | none => t

def step (t : Fifos) : Action → Fifos
  | .open ino e nonblock =>
    match t.fifoJoin ino e nonblock with
    | some (t, p, seen) =>
      let stage := if e ≠ .Both ∧ !nonblock then .opening seen else .shared 1
      { t with files := t.files ++ [⟨p, e, stage⟩] }
    | none => t
  | .look i signal => t.setStage i fun d =>
    match d.stage with
    | .opening seen =>
      if (t.pipes d.pipe).arrived d.mode seen then .shared 1
      -- `EINTR`, and the file that was made goes again
      else if signal then .shared 0
      else d.stage
    | stage => stage
  | .dup i => t.setStage i fun d =>
    match d.stage with
    | .shared (n + 1) => .shared (n + 2)
    | stage => stage
  | .close i => t.setStage i fun d =>
    match d.stage with
    | .shared (n + 1) => .shared n
    | stage => stage
  | .drop i =>
    match t.files[i]? with
    | some d => if d.stage = .shared 0 then t.leave i d else t
    | none => t

end Fifos

/-! ## ends that are open -/

def Description.holds (p : Nat) (side : PipeEnd → Bool) (d : Description) : Bool :=
  d.stage != .closed && d.pipe == p && side d.mode

def ends (files : List Description) (p : Nat) (side : PipeEnd → Bool) : Nat :=
  files.countP (Description.holds p side)

def Named.Counts (x : Named) (files : List Description) (p : Nat) : Prop :=
  x.readers = ends files p PipeEnd.reads ∧ x.writers = ends files p PipeEnd.writes

variable {t : Fifos} {files : List Description} {x : Named} {ino i p q : Nat} {d : Description}
  {e : PipeEnd} {side : PipeEnd → Bool}

lemma holds_iff :
    d.holds p side = true ↔ (d.stage ≠ .closed ∧ d.pipe = p) ∧ side d.mode = true := by
  simp [Description.holds]

lemma holds_toNat (h : d.stage ≠ .closed) :
    (d.holds p side).toNat = if d.pipe = p then (side d.mode).toNat else 0 := by
  have hs : (d.stage != .closed) = true := bne_iff_ne.mpr h
  by_cases hp : d.pipe = p <;> simp [Description.holds, hs, hp]

lemma ends_append : ends (files ++ [d]) p side = ends files p side + (d.holds p side).toNat := by
  rw [ends, List.countP_append]
  cases h : d.holds p side <;> simp [ends, h]

lemma ends_set (hd : files[i]? = some d) (d' : Description) (p : Nat) (side : PipeEnd → Bool) :
    ends (files.set i d') p side + (d.holds p side).toNat =
      ends files p side + (d'.holds p side).toNat := by
  obtain ⟨hi, rfl⟩ := List.getElem?_eq_some_iff.mp hd
  have hle := List.boole_getElem_le_countP (p := Description.holds p side) hi
  rw [ends, ends, List.countP_set hi]
  cases h : files[i].holds p side <;> cases h' : d'.holds p side <;>
    simp only [h, Bool.toNat_true, Bool.toNat_false, Bool.false_eq_true, if_true, if_false]
      at hle ⊢ <;> omega

/-- a pipe is idle when nobody has an end of it open -/
lemma Named.Counts.idle_iff (h : x.Counts files p) :
    x.Idle ↔ ∀ d ∈ files, d.stage ≠ .closed → d.pipe ≠ p := by
  rw [Named.Idle, h.1, h.2, ends, ends, List.countP_eq_zero, List.countP_eq_zero]
  simp only [holds_iff]
  constructor
  · intro hz d hd hopen hp
    have hmode : d.mode.reads = true ∨ d.mode.writes = true := by cases d.mode <;> decide
    rcases hmode with hside | hside
    · exact hz.1 d hd ⟨⟨hopen, hp⟩, hside⟩
    · exact hz.2 d hd ⟨⟨hopen, hp⟩, hside⟩
  · intro hz
    exact ⟨fun d hd hh => hz d hd hh.1.1 hh.1.2, fun d hd hh => hz d hd hh.1.1 hh.1.2⟩

/-! ## what a section keeps -/

structure Tallied (t : Fifos) : Prop where
  counts : ∀ p, (t.pipes p).Counts t.files p
  entry : ∀ ino p, t.entries ino = some p ↔ (t.pipes p).fifo = ino ∧ ¬ (t.pipes p).Idle
  fresh : ∀ p, t.made ≤ p → (t.pipes p).Idle

/-- the one pipe of an inode changed, its entry with it -/
lemma Tallied.change {made : Nat} (h : Tallied t)
    (hp : t.entries ino = some p ∨ t.entries ino = none ∧ (t.pipes p).Idle) (hx : x.fifo = ino)
    (hmade : p < made ∧ t.made ≤ made) (hcounts : x.Counts files p)
    (hother : ∀ q side, q ≠ p → ends files q side = ends t.files q side) :
    Tallied ⟨update t.pipes p x, made,
      update t.entries ino (if x.Idle then none else some p), files⟩ := by
  constructor
  case counts =>
    intro q
    by_cases hq : q = p
    · subst hq
      simpa using hcounts
    · simpa [update_of_ne hq, Named.Counts, hother q _ hq] using h.counts q
  case fresh =>
    intro q (hq : made ≤ q)
    show (update t.pipes p x q).Idle
    rw [update_of_ne (by omega)]
    exact h.fresh q (by omega)
  case entry =>
    intro ino' q
    by_cases hi : ino' = ino <;> by_cases hq : q = p
    · subst hi hq
      by_cases hz : x.Idle <;> simp [hz, hx]
    · subst hi
      simp only [update_self, update_of_ne hq, ← h.entry]
      rcases hp with hp | hp <;> by_cases hz : x.Idle <;> simp [hz, hp, Ne.symm hq]
    · subst hq
      simp only [update_self, update_of_ne hi, h.entry, hx, Ne.symm hi, false_and, iff_false]
      rintro ⟨hf, hz⟩
      rcases hp with hp | hp
      · exact hi (hf.symm.trans ((h.entry ..).mp hp).1)
      · exact hz hp.2
    · simpa only [update_of_ne hi, update_of_ne hq] using h.entry ino' q

lemma join_not_idle : ¬ (x.join e).Idle := by
  rintro ⟨hr, hw⟩
  cases e <;> simp [Named.join, PipeEnd.reads, PipeEnd.writes] at hr hw

lemma Tallied.join {made : Nat} {stage : Stage} (h : Tallied t)
    (hp : t.entries ino = some p ∨ t.entries ino = none ∧ (t.pipes p).Idle) (hx : x.fifo = ino)
    (hmade : p < made ∧ t.made ≤ made) (hcounts : x.Counts t.files p) (hs : stage ≠ .closed) :
    Tallied ⟨update t.pipes p (x.join e), made, update t.entries ino (some p),
      t.files ++ [⟨p, e, stage⟩]⟩ := by
  have hends : ∀ q side, ends (t.files ++ [⟨p, e, stage⟩]) q side =
      ends t.files q side + if p = q then (side e).toNat else 0 := by
    intro q side
    rw [ends_append, holds_toNat hs]
  have hc : (x.join e).Counts (t.files ++ [⟨p, e, stage⟩]) p := by
    simp [Named.Counts, Named.join, hends, hcounts.1, hcounts.2]
  have hchange := h.change hp (x := x.join e) hx hmade hc fun q side hq => by
    rw [hends, if_neg (Ne.symm hq), Nat.add_zero]
  rwa [if_neg join_not_idle] at hchange

lemma Tallied.open {nonblock : Bool} (h : Tallied t) : Tallied (t.step (.open ino e nonblock)) := by
  have hstage : ∀ seen, (if e ≠ .Both ∧ !nonblock then Stage.opening seen else .shared 1) ≠
      .closed := by
    intro seen
    split <;> exact Stage.noConfusion
  unfold Fifos.step Fifos.fifoJoin
  cases hp : t.entries ino with
  | some p =>
    have hentry := (h.entry ino p).mp hp
    have hlt : p < t.made := Nat.lt_of_not_le fun hle => hentry.2 (h.fresh p hle)
    by_cases hx : e = .Write ∧ nonblock ∧ (t.pipes p).readers = 0
    · simpa only [hp, if_pos hx] using h
    · simp only [hp, if_neg hx]
      exact h.join (Or.inl hp) hentry.1 ⟨hlt, Nat.le_refl _⟩ (h.counts p) (hstage _)
  | none =>
    have hidle := h.fresh t.made (Nat.le_refl _)
    have hcounts : (Named.make ino).Counts t.files t.made := by
      have hmade := h.counts t.made
      rw [Named.Counts, hidle.1, hidle.2] at hmade
      exact hmade
    by_cases hx : e = .Write ∧ nonblock ∧ (Named.make ino).readers = 0
    · simpa only [hp, if_pos hx] using h
    · simp only [hp, if_neg hx]
      exact h.join (Or.inr ⟨hp, hidle⟩) rfl ⟨Nat.lt_succ_self _, Nat.le_succ _⟩ hcounts (hstage _)

lemma Tallied.leave (h : Tallied t) (hd : t.files[i]? = some d) (hopen : d.stage ≠ .closed) :
    Tallied (t.leave i d) := by
  have hends : ∀ q side, ends (t.files.set i { d with stage := .closed }) q side +
      (if d.pipe = q then (side d.mode).toNat else 0) = ends t.files q side := by
    intro q side
    have hset := ends_set hd { d with stage := .closed } q side
    rwa [holds_toNat hopen] at hset
  have hbusy : ¬ (t.pipes d.pipe).Idle := fun hz =>
    (h.counts _).idle_iff.mp hz d (List.mem_of_getElem? hd) hopen rfl
  have hentry := (h.entry _ d.pipe).mpr ⟨rfl, hbusy⟩
  have hcounts : ((t.pipes d.pipe).giveBack d.mode).Counts
      (t.files.set i { d with stage := .closed }) d.pipe := by
    have hr := hends d.pipe PipeEnd.reads
    have hw := hends d.pipe PipeEnd.writes
    rw [if_pos rfl] at hr hw
    have hc := h.counts d.pipe
    simp only [Named.Counts, Named.giveBack] at hc ⊢
    omega
  have hlt : d.pipe < t.made := Nat.lt_of_not_le fun hle => hbusy (h.fresh _ hle)
  have hother : ∀ q side, q ≠ d.pipe →
      ends (t.files.set i { d with stage := .closed }) q side = ends t.files q side := by
    intro q side hq
    rw [← hends q side, if_neg (Ne.symm hq), Nat.add_zero]
  have hchange := h.change (x := (t.pipes d.pipe).giveBack d.mode) (Or.inl hentry) rfl
    ⟨hlt, Nat.le_refl _⟩ hcounts hother
  -- an entry that stays is written as it is
  have hkeep : update t.entries (t.pipes d.pipe).fifo (some d.pipe) = t.entries :=
    update_eq_self_iff.mpr hentry.symm
  unfold Fifos.leave
  by_cases hz : ((t.pipes d.pipe).giveBack d.mode).Idle
  · simp only [if_pos hz] at hchange ⊢
    exact hchange
  · simpa only [if_neg hz, hkeep] using hchange

lemma Tallied.setStage {stage : Description → Stage} (h : Tallied t)
    (hst : ∀ d, stage d = .closed ↔ d.stage = .closed) : Tallied (t.setStage i stage) := by
  unfold Fifos.setStage
  split
  case h_2 => exact h
  case h_1 d hd =>
    refine ⟨fun q => ?_, h.entry, h.fresh⟩
    have hends : ∀ side, ends (t.files.set i { d with stage := stage d }) q side =
        ends t.files q side := by
      intro side
      have hholds : Description.holds q side { d with stage := stage d } = d.holds q side := by
        rw [Bool.eq_iff_iff, holds_iff, holds_iff, Ne, hst]
      have hset := ends_set hd { d with stage := stage d } q side
      rw [hholds] at hset
      exact Nat.add_right_cancel hset
    simpa only [Named.Counts, hends] using h.counts q

lemma Tallied.step (a : Action) (h : Tallied t) : Tallied (t.step a) := by
  cases a with
  | «open» ino e nonblock => exact h.open
  | look i signal =>
    refine h.setStage fun d => ?_
    cases hs : d.stage with
    | opening seen => simp only; split <;> [skip; split] <;> simp
    | shared n => simp
    | closed => simp
  | dup i => exact h.setStage fun d => by rcases d.stage with _ | (_ | n) | _ <;> simp
  | close i => exact h.setStage fun d => by rcases d.stage with _ | (_ | n) | _ <;> simp
  | drop i =>
    show Tallied (match t.files[i]? with | some d => _ | none => t)
    cases hd : t.files[i]? with
    | none => exact h
    | some d =>
      by_cases hs : d.stage = .shared 0
      · simp only [if_pos hs]
        exact h.leave hd (by rw [hs]; exact Stage.noConfusion)
      · simp only [if_neg hs]
        exact h

/-- the registry says of every FIFO who has it open -/
structure Registered (t : Fifos) : Prop where
  entry : ∀ ino, (t.entries ino).isSome ↔
    ∃ d ∈ t.files, d.stage ≠ .closed ∧ (t.pipes d.pipe).fifo = ino
  shared : ∀ d ∈ t.files, ∀ d' ∈ t.files, d.stage ≠ .closed → d'.stage ≠ .closed →
    (t.pipes d.pipe).fifo = (t.pipes d'.pipe).fifo → d.pipe = d'.pipe
  counts : ∀ p, (t.pipes p).Counts t.files p

lemma Tallied.registered (h : Tallied t) : Registered t := by
  have hopened : ∀ d ∈ t.files, d.stage ≠ .closed →
      t.entries (t.pipes d.pipe).fifo = some d.pipe := by
    intro d hd hopen
    exact (h.entry ..).mpr ⟨rfl, fun hz => (h.counts _).idle_iff.mp hz d hd hopen rfl⟩
  refine ⟨fun ino => ⟨fun he => ?_, ?_⟩, fun d hd d' hd' hopen hopen' hf => ?_, h.counts⟩
  · obtain ⟨p, hp⟩ := Option.isSome_iff_exists.mp he
    obtain ⟨rfl, hz⟩ := (h.entry ino p).mp hp
    rw [(h.counts p).idle_iff] at hz
    push Not at hz
    obtain ⟨d, hd, hopen, rfl⟩ := hz
    exact ⟨d, hd, hopen, rfl⟩
  · rintro ⟨d, hd, hopen, rfl⟩
    rw [hopened d hd hopen]
    rfl
  · have he := hopened d hd hopen
    rw [hf, hopened d' hd' hopen'] at he
    exact (Option.some.inj he).symm

/-- **an entry stands for a FIFO exactly while a description has an end of it**, all of them have
the one pipe, and its counts are theirs -/
theorem fifo_registry (as : List Action) : Registered (Run.run Fifos.step Fifos.start as) := by
  have hstart : Tallied Fifos.start := by
    refine ⟨fun p => ⟨rfl, rfl⟩, fun ino p => ?_, fun p _ => ⟨rfl, rfl⟩⟩
    simp [Fifos.start, Named.make, Named.Idle]
  exact (Run.keeps (fun _ a h => h.step a) hstart as).registered

end ClaudeOs.Fs.Fifo
