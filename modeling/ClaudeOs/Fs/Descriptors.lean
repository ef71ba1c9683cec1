import ClaudeOs.Lib.Sections
import ClaudeOs.Fs.FdTable

/-!
# Threads on one descriptor table

The calls that make, copy and close descriptors, by threads that share a table.  A call is a
sequence of sections, each under the table's lock, and the sections of different calls come in any
order.  `dup2` is three of them: it looks up `old`, closes `new` and installs the file at `new`.

* `FdCall`, `FdCall.run`  the calls, and what one does when nobody is in between;
* `advance`, `tableObject` the next section of a call, and the table as an object calls share;
* `Emptied`  a descriptor that a `dup2` has closed and not yet filled;
* `Undisturbed`  the sections whose call keeps to one moment of the table;
* `descriptor_calls_linearized`  runs of such sections have the answers, and leave the table, of the
  calls made whole one after another;
* `dup2_not_linearizable`  a descriptor made while a `dup2` had emptied its number.
-/

namespace ClaudeOs.Fs.Fd
open Linear Sections FdTable

abbrev Answer := Except Errno Nat

inductive FdCall where
  /-- an `open`, or another call that makes a file and gives it the lowest descriptor -/
  | openat (file : File) (cloexec : Bool)
  /-- look a descriptor up and give its file another one, at or above `min` -/
  | copy (fd : Int) (min : Nat) (cloexec : Bool) (missing : Errno)
  | dup2 (old new : Int) (cloexec : Bool)
  | close (fd : Int)
  /-- any call that starts with the file of a descriptor; it answers with the file -/
  | look (fd : Int)
  deriving DecidableEq

namespace FdCall

def dup (fd : Int) : FdCall := .copy fd 0 false .EBADF

/-- `fcntl` with `F_DUPFD` or `F_DUPFD_CLOEXEC` -/
def fcntlDup (fd : Int) (min : Nat) (cloexec : Bool) : FdCall := .copy fd min cloexec .EBADF

/-- an `open` of an entry under the caller's own /proc/<pid>/fd -/
def openDescriptor (fd : Int) (cloexec : Bool) : FdCall := .copy fd 0 cloexec .ENOENT

def run (t : FdTable) : FdCall → FdTable × Answer
  | .openat file cloexec => t.alloc file cloexec
  | .copy fd min cloexec missing =>
    match t.get fd with
    | .error _ => (t, .error missing)
    | .ok file => t.allocAtLeast min file cloexec
  | .dup2 old new cloexec =>
    match t.get old with
    | .error e => (t, .error e)
    | .ok file =>
      if old = new then (t, .ok new.toNat)
      else if new < 0 ∨ (MAX_FDS : Int) ≤ new then (t, .error .EBADF)
      else ((t.close new).1.insertAt new.toNat file cloexec, .ok new.toNat)
  | .close fd => ((t.close fd).1, (t.close fd).2.map fun _ => 0)
  | .look fd => (t, t.get fd)

def Legal (t : FdTable) (op : FdCall) (res : Answer) (t' : FdTable) : Prop :=
  op.run t = (t', res)

end FdCall

inductive Phase where
  | start
  | found (file : File)
  /-- `new` is closed; `took` says whether it was open -/
  | emptied (file : File) (took : Bool)
  deriving DecidableEq

/-- the next section of a call: the phase it leaves the call in, or the call's answer -/
def advance (t : FdTable) : FdCall → Phase → FdTable × (Phase ⊕ Answer)
  | .openat file cloexec, _ => ((t.alloc file cloexec).1, .inr (t.alloc file cloexec).2)
  | .copy fd min cloexec missing, phase =>
    match phase with
    | .found file =>
      ((t.allocAtLeast min file cloexec).1, .inr (t.allocAtLeast min file cloexec).2)
    | _ =>
      match t.get fd with
      | .error _ => (t, .inr (.error missing))
      | .ok file => (t, .inl (.found file))
  | .dup2 old new cloexec, phase =>
    match phase with
    | .start =>
      match t.get old with
      | .error e => (t, .inr (.error e))
      | .ok file =>
        if old = new then (t, .inr (.ok new.toNat))
        else if new < 0 ∨ (MAX_FDS : Int) ≤ new then (t, .inr (.error .EBADF))
        else (t, .inl (.found file))
    | .found file => ((t.close new).1, .inl (.emptied file (t.close new).2.isOk))
    | .emptied file _ => (t.insertAt new.toNat file cloexec, .inr (.ok new.toNat))
  | .close fd, _ => ((t.close fd).1, .inr ((t.close fd).2.map fun _ => 0))
  | .look fd, _ => (t, .inr (t.get fd))

def tableObject : Object FdTable FdCall Phase Answer Unit where
  begin _ := .start
  advance t _ op phase := advance t op phase

abbrev TableThreads := Threads FdTable FdCall Phase

/-! ## descriptors in the middle of a dup2 -/

/-- a `dup2` that has closed the file of `d` and not yet put its own there -/
def Empties (p : Progress FdCall Phase) (d : Int) : Prop :=
  ∃ old cloexec file, p = .running (.dup2 old d cloexec) (.emptied file true)

/-- `d` has no file because a `dup2` under way took it -/
def Emptied (w : TableThreads) (d : Int) : Prop :=
  0 ≤ d ∧ w.shared.fileAt d.toNat = none ∧ ∃ id, Empties (w.calls id) d

/-- what keeps a call to one moment: its descriptor is not one a `dup2` has emptied, and the file it
installs is still where it found it -/
def Clear (w : TableThreads) : FdCall → Phase → Prop
  | .openat _ _, _ => ∀ d, w.shared.LowestFree 0 d → ¬ Emptied w d
  | .copy fd min _ _, .found file =>
    w.shared.get fd = .ok file ∧ ∀ d, w.shared.LowestFree min d → ¬ Emptied w d
  | .copy fd _ _ _, _ => ¬ Emptied w fd
  | .dup2 old _ _, .start => ¬ Emptied w old
  | .dup2 _ _ _, .found _ => True
  | .dup2 old _ _, .emptied file _ => w.shared.get old = .ok file
  | .close fd, _ => ¬ Emptied w fd
  | .look fd, _ => ¬ Emptied w fd

def Undisturbed (w : TableThreads) : Sections.Action FdCall Unit → Prop
  | .call _ _ => True
  | .go id _ => ∀ op phase, w.calls id = .running op phase → Clear w op phase

/-! ## the specification's table beside the threads' -/

/-- the two tables have the same files, but for one that a `dup2` under way has emptied -/
structure Matches (w : TableThreads) (a : FdTable) : Prop where
  files : ∀ d : Nat, w.shared.fileAt d = a.fileAt d ∨ Emptied w d
  checked : ∀ id old new cloexec phase, w.calls id = .running (.dup2 old new cloexec) phase →
    phase ≠ .start → old ≠ new ∧ ¬ (new < 0 ∨ (MAX_FDS : Int) ≤ new)

lemma matches_start (t : FdTable) : Matches (.start t) t where
  files _ := .inl rfl
  checked _ _ _ _ _ h := by cases h

variable {a' t : FdTable} {cloexec : Bool} {d min : Nat} {fd new old : Int} {file : File}
  {missing : Errno} {p : Progress FdCall Phase} {res : Answer}

section
variable {w : TableThreads} {a : FdTable} {id : Nat} {op : FdCall} {phase : Phase}

lemma Emptied.of_set {d : Int} (h : Emptied w d) (hid : ¬ Empties (w.calls id) d)
    (ht : t.fileAt d.toNat = w.shared.fileAt d.toNat) : Emptied (w.set t id p) d := by
  obtain ⟨hd, hnone, k, hk⟩ := h
  refine ⟨hd, ht.trans hnone, k, ?_⟩
  have hne : k ≠ id := by
    intro heq
    rw [heq] at hk
    exact hid hk
  rw [Threads.calls_set_ne w t p hne]
  exact hk

lemma not_emptied_of_file {d : Int} (h : w.shared.fileAt d.toNat ≠ none) : ¬ Emptied w d := by
  rintro ⟨-, hnone, -⟩
  exact h hnone

lemma not_empties_of_phase (hrun : w.calls id = .running op phase)
    (hphase : ∀ file, phase ≠ .emptied file true) (d : Int) : ¬ Empties (w.calls id) d := by
  rintro ⟨old, cloexec, file, heq⟩
  rw [hrun] at heq
  injection heq with _ hp
  exact hphase file hp

lemma not_empties_of_op (hrun : w.calls id = .running op phase)
    (hop : ∀ old new cloexec, op ≠ .dup2 old new cloexec) (d : Int) : ¬ Empties (w.calls id) d := by
  rintro ⟨old, cloexec, file, heq⟩
  rw [hrun] at heq
  injection heq with ho _
  exact hop old d cloexec ho

/-- what a section does next, with the call's point in its last section -/
abbrev Advances (w : TableThreads) (a : FdTable) (id : Nat) (op : FdCall) (phase : Phase) :
    FdTable × (Phase ⊕ Answer) → Prop :=
  Object.Advances FdCall.Legal (fun _ _ => none) Matches w a id op phase

namespace Matches
section
variable (h : Matches w a)
include h

lemma file_of_some (hf : w.shared.fileAt d = some file) : a.fileAt d = some file := by
  rcases h.files d with heq | hemp
  · rw [← heq, hf]
  · have hnone : w.shared.fileAt d = none := hemp.2.1
    rw [hf] at hnone
    cases hnone

lemma file_of_not_emptied (hd : ¬ Emptied w d) : a.fileAt d = w.shared.fileAt d :=
  ((h.files d).resolve_right hd).symm

lemma get_of_ok (hf : w.shared.get fd = .ok file) : a.get fd = .ok file := by
  obtain ⟨hfd, hfile⟩ := get_eq_ok.mp hf
  exact get_eq_ok.mpr ⟨hfd, h.file_of_some hfile⟩

lemma get_of_not_emptied (hfd : ¬ Emptied w fd) : a.get fd = w.shared.get fd := by
  refine get_congr fun hpos => h.file_of_not_emptied ?_
  rwa [Int.toNat_of_nonneg hpos]

lemma full (hfull : w.shared.Full min) : a.Full min := by
  intro d hd hd'
  obtain ⟨file, hfile⟩ := Option.ne_none_iff_exists'.mp (hfull d hd hd')
  rw [h.file_of_some hfile]
  exact Option.some_ne_none file

lemma lowestFree {fd : Nat} (hlow : w.shared.LowestFree min fd) (hemp : ¬ Emptied w fd) :
    a.LowestFree min fd := by
  refine hlow.congr fun d hd hle => ?_
  rcases Nat.lt_or_eq_of_le hle with hlt | heq
  · obtain ⟨file, hfile⟩ := Option.ne_none_iff_exists'.mp (hlow.used d hd hlt)
    rw [h.file_of_some hfile, hfile]
  · rw [heq]
    exact h.file_of_not_emptied hemp

lemma checked_set
    (hp : ∀ old new cloexec phase, p = .running (.dup2 old new cloexec) phase → phase ≠ .start →
      old ≠ new ∧ ¬ (new < 0 ∨ (MAX_FDS : Int) ≤ new))
    {k : Nat} {phase : Phase} (hk : (w.set t id p).calls k = .running (.dup2 old new cloexec) phase)
    (hphase : phase ≠ .start) : old ≠ new ∧ ¬ (new < 0 ∨ (MAX_FDS : Int) ≤ new) := by
  rcases Threads.calls_set_eq w t p hk with ⟨-, heq⟩ | ⟨-, hw⟩
  · exact hp old new cloexec phase heq hphase
  · exact h.checked k old new cloexec phase hw hphase

end

/-! ### a section that returns -/

section
variable (h : Matches w a)
include h

lemma ret (hlegal : FdCall.Legal a op res a')
    (hfiles : ∀ d : Nat, t.fileAt d = a'.fileAt d ∨ t.fileAt d = w.shared.fileAt d ∧
      ¬ Empties (w.calls id) d ∧ Emptied w d) : Advances w a id op phase (t, .inr res) := by
  refine .ends rfl hlegal ⟨fun d => ?_, fun k old new cloexec p hk hp => ?_⟩
  · rcases hfiles d with heq | ⟨ht, hid, hemp⟩
    · exact .inl heq
    · exact .inr (hemp.of_set hid ht)
  · exact h.checked_set (fun _ _ _ _ heq _ => by cases heq) hk hp

section
variable (hid : ∀ d, ¬ Empties (w.calls id) d)
include hid

lemma ret_same (hlegal : FdCall.Legal a op res a) : Advances w a id op phase (w.shared, .inr res) :=
  h.ret hlegal fun d => (h.files d).imp_right fun hemp => ⟨rfl, hid d, hemp⟩

omit hid in
lemma ret_update {e : Nat} {x : Option File} (hlegal : FdCall.Legal a op res a')
    (hid : ∀ d : Nat, d ≠ e → ¬ Empties (w.calls id) d)
    (ht : ∀ d, t.fileAt d = if d = e then x else w.shared.fileAt d)
    (ha : ∀ d, a'.fileAt d = if d = e then x else a.fileAt d) :
    Advances w a id op phase (t, .inr res) := by
  refine h.ret hlegal fun d => ?_
  by_cases hd : d = e
  · exact .inl (by rw [ht, ha, if_pos hd, if_pos hd])
  · rw [ht, ha, if_neg hd, if_neg hd]
    exact (h.files d).imp_right fun hemp => ⟨rfl, hid d hd, hemp⟩

lemma ret_alloc (hclear : ∀ d, w.shared.LowestFree min d → ¬ Emptied w d)
    (hop : op.run a = a.allocAtLeast min file cloexec) :
    Advances w a id op phase ((w.shared.allocAtLeast min file cloexec).1,
      .inr (w.shared.allocAtLeast min file cloexec).2) := by
  rcases w.shared.full_or_lowestFree min with hfull | ⟨fd, hlow⟩
  · rw [allocAtLeast_of_full hfull]
    refine h.ret_same hid ?_
    rw [FdCall.Legal, hop, allocAtLeast_of_full (h.full hfull)]
  · rw [allocAtLeast_of_lowestFree hlow]
    have habs := h.lowestFree hlow (hclear fd hlow)
    have hlegal : FdCall.Legal a op (.ok fd) (a.insertAt fd file cloexec) := by
      rw [FdCall.Legal, hop, allocAtLeast_of_lowestFree habs]
    exact h.ret_update hlegal (fun d _ => hid d)
      (w.shared.fileAt_insertAt fd · file cloexec) (a.fileAt_insertAt fd · file cloexec)

/-! ### a section that goes on -/

lemma found (file : File)
    (hchecked : ∀ old new cloexec, op = .dup2 old new cloexec →
      old ≠ new ∧ ¬ (new < 0 ∨ (MAX_FDS : Int) ≤ new)) :
    Advances w a id op phase (w.shared, .inl (.found file)) := by
  refine .goesOn rfl ⟨fun d => ?_, fun k old new cloexec p hk hp => ?_⟩
  · exact (h.files d).imp_right fun hemp => hemp.of_set (hid d) rfl
  · refine h.checked_set (fun old new cloexec _ heq _ => ?_) hk hp
    injection heq with hop _
    exact hchecked old new cloexec hop

end

lemma emptied (hrun : w.calls id = .running (.dup2 old new cloexec) (.found file)) :
    Advances w a id (.dup2 old new cloexec) (.found file)
      ((w.shared.close new).1, .inl (.emptied file (w.shared.close new).2.isOk)) := by
  refine .goesOn rfl ⟨fun d => ?_, fun k old' new' cloexec' p hk hp => ?_⟩
  · have hid := not_empties_of_phase hrun (fun f hf => by cases hf) d
    by_cases hd : (d : Int) = new
    · cases hfile : w.shared.fileAt d with
      | none =>
        have hnone : (w.shared.close new).1.fileAt d = w.shared.fileAt d := by
          rw [fileAt_close, if_pos hd, hfile]
        exact (h.files d).imp (hnone.trans ·) fun hemp => hemp.of_set hid hnone
      | some f =>
        have hnew : new.toNat = d := by rw [← hd]; rfl
        have hnonneg : 0 ≤ new := by rw [← hd]; exact Int.natCast_nonneg d
        have hclose := close_of_some hnonneg (hnew ▸ hfile)
        refine .inr ⟨Int.natCast_nonneg d, ?_, id, old, cloexec, file, ?_⟩
        · show (w.shared.close new).1.fileAt d = none
          rw [fileAt_close, if_pos hd]
        · rw [Threads.calls_set_self, hclose, hd]
          rfl
    · have hsame : (w.shared.close new).1.fileAt d = w.shared.fileAt d := by
        rw [fileAt_close, if_neg hd]
      exact (h.files d).imp (hsame.trans ·) fun hemp => hemp.of_set hid hsame
  · refine h.checked_set (fun old' new' cloexec' _ heq _ => ?_) hk hp
    injection heq with hop _
    injection hop with hold hnew hc
    subst hold hnew hc
    exact h.checked id _ _ _ _ hrun fun hf => by cases hf

end

/-! ### every section -/

section
variable (h : Matches w a)
include h

lemma openat (hrun : w.calls id = .running (.openat file cloexec) phase)
    (hclear : Clear w (.openat file cloexec) phase) : Advances w a id (.openat file cloexec) phase
      (advance w.shared (.openat file cloexec) phase) := by
  have hid := not_empties_of_op hrun fun _ _ _ hop => by cases hop
  exact h.ret_alloc hid hclear rfl

section
variable (hrun : w.calls id = .running (.copy fd min cloexec missing) phase)
include hrun

lemma copy_lookup (hphase : ∀ file, phase ≠ .found file) (hclear : ¬ Emptied w fd) :
    Advances w a id (.copy fd min cloexec missing) phase
      (advance w.shared (.copy fd min cloexec missing) phase) := by
  have hid := not_empties_of_op hrun fun _ _ _ hop => by cases hop
  have hget := h.get_of_not_emptied hclear
  cases hfile : w.shared.get fd with
  | error e =>
    have ha : advance w.shared (.copy fd min cloexec missing) phase =
        (w.shared, .inr (.error missing)) := by
      cases phase with
      | found file => exact absurd rfl (hphase file)
      | start => simp only [advance, hfile]
      | emptied => simp only [advance, hfile]
    rw [ha]
    refine h.ret_same hid ?_
    simp only [FdCall.Legal, FdCall.run, hget, hfile]
  | ok file =>
    have ha : advance w.shared (.copy fd min cloexec missing) phase =
        (w.shared, .inl (.found file)) := by
      cases phase with
      | found file => exact absurd rfl (hphase file)
      | start => simp only [advance, hfile]
      | emptied => simp only [advance, hfile]
    rw [ha]
    exact h.found hid file fun _ _ _ hop => by cases hop

lemma copy (hclear : Clear w (.copy fd min cloexec missing) phase) :
    Advances w a id (.copy fd min cloexec missing) phase
      (advance w.shared (.copy fd min cloexec missing) phase) := by
  cases phase with
  | start => exact h.copy_lookup hrun (fun _ hp => by cases hp) hclear
  | emptied => exact h.copy_lookup hrun (fun _ hp => by cases hp) hclear
  | found file =>
    obtain ⟨hget, hlow⟩ := hclear
    have hid := not_empties_of_op hrun fun _ _ _ hop => by cases hop
    refine h.ret_alloc hid hlow ?_
    simp only [FdCall.run, h.get_of_ok hget]

end

lemma dup2_lookup (hrun : w.calls id = .running (.dup2 old new cloexec) .start)
    (hclear : ¬ Emptied w old) : Advances w a id (.dup2 old new cloexec) .start
      (advance w.shared (.dup2 old new cloexec) .start) := by
  have hid := not_empties_of_phase hrun fun _ hp => by cases hp
  have hget := h.get_of_not_emptied hclear
  cases hfile : w.shared.get old with
  | error e =>
    have ha : advance w.shared (.dup2 old new cloexec) .start = (w.shared, .inr (.error e)) := by
      simp only [advance, hfile]
    rw [ha]
    refine h.ret_same hid ?_
    simp only [FdCall.Legal, FdCall.run, hget, hfile]
  | ok file =>
    by_cases hsame : old = new
    · have ha : advance w.shared (.dup2 old new cloexec) .start =
          (w.shared, .inr (.ok new.toNat)) := by simp only [advance, hfile, if_pos hsame]
      rw [ha]
      refine h.ret_same hid ?_
      simp only [FdCall.Legal, FdCall.run, hget, hfile, if_pos hsame]
    by_cases hout : new < 0 ∨ (MAX_FDS : Int) ≤ new
    · have ha : advance w.shared (.dup2 old new cloexec) .start =
          (w.shared, .inr (.error .EBADF)) := by
        simp only [advance, hfile, if_neg hsame, if_pos hout]
      rw [ha]
      refine h.ret_same hid ?_
      simp only [FdCall.Legal, FdCall.run, hget, hfile, if_neg hsame, if_pos hout]
    · have ha : advance w.shared (.dup2 old new cloexec) .start =
          (w.shared, .inl (.found file)) := by
        simp only [advance, hfile, if_neg hsame, if_neg hout]
      rw [ha]
      refine h.found hid file fun _ _ _ hop => ?_
      injection hop with hold hnew
      subst hold hnew
      exact ⟨hsame, hout⟩

lemma dup2 (hrun : w.calls id = .running (.dup2 old new cloexec) phase)
    (hclear : Clear w (.dup2 old new cloexec) phase) : Advances w a id (.dup2 old new cloexec) phase
      (advance w.shared (.dup2 old new cloexec) phase) := by
  cases phase with
  | start => exact h.dup2_lookup hrun hclear
  | found file => exact h.emptied hrun
  | emptied file took =>
    obtain ⟨hsame, hout⟩ := h.checked id old new cloexec _ hrun fun hp => by cases hp
    have hlegal : FdCall.Legal a (.dup2 old new cloexec) (.ok new.toNat)
        ((a.close new).1.insertAt new.toNat file cloexec) := by
      simp only [FdCall.Legal, FdCall.run, h.get_of_ok hclear, if_neg hsame, if_neg hout]
    refine h.ret_update (e := new.toNat) hlegal ?_
      (w.shared.fileAt_insertAt new.toNat · file cloexec) fun d => ?_
    · rintro d hd ⟨old', cloexec', file', heq⟩
      rw [hrun] at heq
      injection heq with hop _
      injection hop with _ hd' _
      omega
    · rw [fileAt_insertAt, fileAt_close]
      by_cases hd : d = new.toNat
      · rw [if_pos hd, if_pos hd]
      · rw [if_neg hd, if_neg hd, if_neg (by omega)]

lemma close (hrun : w.calls id = .running (.close fd) phase) (hclear : ¬ Emptied w fd) :
    Advances w a id (.close fd) phase (advance w.shared (.close fd) phase) := by
  have hid := not_empties_of_op hrun fun _ _ _ hop => by cases hop
  have hlegal : FdCall.Legal a (.close fd) ((w.shared.close fd).2.map fun _ => 0) (a.close fd).1 := by
    by_cases hnone : 0 ≤ fd → w.shared.fileAt fd.toNat = none
    · have habs : 0 ≤ fd → a.fileAt fd.toNat = none := fun hpos => by
        rw [h.file_of_not_emptied (by rwa [Int.toNat_of_nonneg hpos]), hnone hpos]
      rw [FdCall.Legal, FdCall.run, (close_of_none hnone).2, (close_of_none habs).2]
    · rw [Classical.not_imp] at hnone
      obtain ⟨hpos, hsome⟩ := hnone
      obtain ⟨file, hfile⟩ := Option.ne_none_iff_exists'.mp hsome
      rw [FdCall.Legal, FdCall.run, close_of_some hpos hfile,
        close_of_some hpos (h.file_of_some hfile)]
  refine h.ret hlegal fun d => ?_
  rw [fileAt_close, fileAt_close]
  by_cases hd : (d : Int) = fd
  · rw [if_pos hd, if_pos hd]
    exact .inl rfl
  · rw [if_neg hd, if_neg hd]
    exact (h.files d).imp_right fun hemp => ⟨rfl, hid d, hemp⟩

lemma look (hrun : w.calls id = .running (.look fd) phase) (hclear : ¬ Emptied w fd) :
    Advances w a id (.look fd) phase (advance w.shared (.look fd) phase) := by
  have hid := not_empties_of_op hrun fun _ _ _ hop => by cases hop
  refine h.ret_same hid ?_
  rw [FdCall.Legal, FdCall.run, h.get_of_not_emptied hclear]

lemma call (hrun : w.calls id = .absent) (op : FdCall) :
    Matches (w.set w.shared id (.running op .start)) a where
  files d := by
    refine (h.files d).imp_right fun hemp => hemp.of_set (fun hid => ?_) rfl
    rw [hrun] at hid
    obtain ⟨_, _, _, heq⟩ := hid
    cases heq
  checked k old new cloexec p hk hp := by
    refine h.checked_set (fun _ _ _ _ heq hstart => ?_) hk hp
    injection heq with _ hphase
    exact absurd hphase.symm hstart

end
end Matches

lemma table_points : tableObject.Points FdCall.Legal (fun _ _ => none) Matches Undisturbed where
  fresh _ := rfl
  call op h hrun := h.call hrun op
  go h hrun hok := by
    rename_i w a id op phase e
    have hclear : Clear w op phase := hok op phase hrun
    cases op with
    | openat file cloexec => exact h.openat hrun hclear
    | copy fd min cloexec missing => exact h.copy hrun hclear
    | dup2 old new cloexec => exact h.dup2 hrun hclear
    | close fd => exact h.close hrun hclear
    | look fd => exact h.look hrun hclear

end

/-- **calls on a shared table** whose sections are undisturbed have an order, keeping a call that
had returned in front of one made later, in which made whole they give the answers they gave -/
theorem descriptor_calls_linearized (t : FdTable) (as : List (Sections.Action FdCall Unit))
    (h : Run.Allowed tableObject.step Undisturbed (.start t) as) : ∃ order t',
      Linearizes FdCall.Legal t (history tableObject.step tableObject.events (.start t) as) order ∧
      Follows FdCall.Legal t order t' ∧
      ∀ d : Nat, (Run.run tableObject.step (.start t) as).shared.fileAt d = t'.fileAt d ∨
        Emptied (Run.run tableObject.step (.start t) as) d := by
  obtain ⟨order, t', hlin, hfollows, hmatches⟩ := table_points.linearized (matches_start t) h
  exact ⟨order, t', hlin, hfollows, hmatches.files⟩

def twoFiles : FdTable := ⟨[⟨some 10, false⟩, ⟨some 11, false⟩]⟩

/-- a `dup2` of 0 onto 1 during which another thread uses 0 -/
def lookDuringDup2 : List (Sections.Action FdCall Unit) :=
  [.call 1 (.dup2 0 1 false), .go 1 (), .go 1 (), .call 2 (.look 0), .go 2 (), .go 1 ()]

/-- 0 stays open throughout, so the look has a place in the order -/
theorem descriptor_calls_linearized_lookDuringDup2 :
    Run.Allowed tableObject.step Undisturbed (.start twoFiles) lookDuringDup2 ∧
    ∃ order t', Linearizes FdCall.Legal twoFiles
        (history tableObject.step tableObject.events (.start twoFiles) lookDuringDup2) order ∧
      Follows FdCall.Legal twoFiles order t' ∧
      ∀ d : Nat, (Run.run tableObject.step (.start twoFiles) lookDuringDup2).shared.fileAt d =
          t'.fileAt d ∨ Emptied (Run.run tableObject.step (.start twoFiles) lookDuringDup2) d := by
  have hok : Run.Allowed tableObject.step Undisturbed (.start twoFiles) lookDuringDup2 := by
    refine ⟨trivial, ?_, ?_, trivial, ?_, ?_, trivial⟩
    · intro op phase h
      cases h
      exact not_emptied_of_file (by decide)
    · intro op phase h
      cases h
      exact trivial
    · intro op phase h
      cases h
      exact not_emptied_of_file (by decide)
    · intro op phase h
      cases h
      exact rfl
  exact ⟨hok, descriptor_calls_linearized twoFiles lookDuringDup2 hok⟩

/-! ## a descriptor made in the gap -/

lemma FdTable.alloc_free {fd : Nat} (h : (t.alloc file cloexec).2 = .ok fd) :
    t.fileAt fd = none := by
  unfold alloc at h
  rcases t.full_or_lowestFree 0 with hfull | ⟨low, hlow⟩
  · rw [allocAtLeast_of_full hfull] at h
    cases h
  · rw [allocAtLeast_of_lowestFree hlow] at h
    cases h
    exact hlow.free

lemma FdCall.run_dup2_ne_none (h : t.fileAt d ≠ none) (old new : Int) (cloexec : Bool) :
    ((FdCall.dup2 old new cloexec).run t).1.fileAt d ≠ none := by
  cases hget : t.get old with
  | error e =>
    simp only [FdCall.run, hget]
    exact h
  | ok file =>
    by_cases hsame : old = new
    · simp only [FdCall.run, hget, if_pos hsame]
      exact h
    by_cases hout : new < 0 ∨ (MAX_FDS : Int) ≤ new
    · simp only [FdCall.run, hget, if_neg hsame, if_pos hout]
      exact h
    · simp only [FdCall.run, hget, if_neg hsame, if_neg hout]
      rw [fileAt_insertAt, fileAt_close]
      by_cases hd : d = new.toNat
      · rw [if_pos hd]
        exact Option.some_ne_none file
      · rw [if_neg hd, if_neg (by omega)]
        exact h

lemma follows_dup2_ne_none {t' : FdTable} {order : List (Entry FdCall Answer)}
    (h : Follows FdCall.Legal t order t')
    (hops : ∀ e ∈ order, ∃ old new cloexec, e.op = .dup2 old new cloexec) (ht : t.fileAt d ≠ none) :
    t'.fileAt d ≠ none := by
  induction h with
  | nil => exact ht
  | @snoc u u' es e _ hlegal ih =>
    have hu := ih fun b hb => hops b (List.mem_append_left _ hb)
    obtain ⟨old, new, cloexec, hop⟩ := hops e (List.mem_append_right _ (List.mem_singleton_self e))
    rw [hop] at hlegal
    have hu' : u' = ((FdCall.dup2 old new cloexec).run u).1 := (congrArg Prod.fst hlegal).symm
    rw [hu']
    exact FdCall.run_dup2_ne_none hu old new cloexec

def openDuringDup2 : List (Sections.Action FdCall Unit) :=
  [.call 1 (.dup2 0 1 false), .go 1 (), .go 1 (), .call 2 (.openat 12 false), .go 2 (), .go 1 ()]

/-- the `open` is given 1, which no order of the two calls ever frees, and its file is dropped -/
theorem dup2_not_linearizable : ¬ Linearizable FdCall.Legal twoFiles
        (history tableObject.step tableObject.events (.start twoFiles) openDuringDup2) ∧
      (Run.run tableObject.step (.start twoFiles) openDuringDup2).shared.fileAt 1 = some 10 := by
  refine ⟨?_, rfl⟩
  rintro ⟨order, hlin⟩
  have hist : history tableObject.step tableObject.events (.start twoFiles) openDuringDup2 =
      [.call 1 (.dup2 0 1 false), .call 2 (.openat 12 false), .ret 2 (.ok 1), .ret 1 (.ok 1)] := rfl
  rw [hist] at hlin
  obtain ⟨op, before, u, u', hcall, hbefore, hlegal, hother⟩ :=
    hlin.place (show Event.ret 2 (.ok 1) ∈ _ by simp)
  have hop : op = .openat 12 false := by simpa using hcall
  have hops : ∀ b ∈ before, ∃ old new cloexec, b.op = .dup2 old new cloexec := by
    intro b hb
    obtain ⟨hne, hb⟩ := hother b hb
    simp only [List.mem_cons, Event.call.injEq, reduceCtorEq, List.not_mem_nil, or_false, hne,
      false_and, or_self] at hb
    exact ⟨0, 1, false, hb.2⟩
  have hopen : u.fileAt 1 ≠ none := follows_dup2_ne_none hbefore hops (by decide)
  rw [hop] at hlegal
  exact hopen (alloc_free (congrArg Prod.snd hlegal))

end ClaudeOs.Fs.Fd
