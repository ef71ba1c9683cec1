import ClaudeOs.Sched.JobControl

/-!
# Stops and continues

A continue restarts the stopped threads of its group and discards the stops that are pending.  A stop
that a thread has already taken it cannot discard; the section that stops looks for the continue among
the signals pending for its own thread, where a sibling may have taken it, and where it never was if it
was sent to a sibling alone.

* `Place.Calm`  no stop was taken that is not acted on;
* `Kernel.After`  runs that bring the group no new stop;
* `Kernel.Continued`  what a continue leaves, and every step keeps;
* `continue_ends_stops`  nobody stops after a continue that found the group calm;
* `stops_after_continue`  and not after every continue.
-/

namespace ClaudeOs.Sched.JobControl
open Procs Move

def Place.Calm : Place → Prop
  | .taken signal _ => signal ∉ STOPS
  | .asking rest => ∀ signal ∈ rest, signal ∈ STOPS
  | .dropOwn _ | .dropShared _ | .stopping _ _ => False
  | _ => True

/-- the task is not stopped, and no stop was sent to it alone -/
def Clear (t : Task) : Prop := t.state ≠ .stopped ∧ ∀ signal ∈ STOPS, signal ∉ t.own

def ClearGroup (g : Group) : Prop := ∀ signal ∈ STOPS, signal ∉ g.pending

/-- the threads of group `g` stay clear -/
structure Eases (g : Nat) (t t' : Task) : Prop where
  tgid : t'.tgid = t.tgid
  clear : t.tgid = g → Clear t → Clear t'

def EasesGroup (g n : Nat) (a b : Group) : Prop := n = g → ClearGroup a → ClearGroup b

namespace Move

def Continues (g : Nat) : Move → Prop
  | post task signal | postProcess task signal => task.tgid = g ∧ signal = SIGCONT
  | _ => False

/-- a new stop for the group: sent to it, or called for by the terminal -/
def Stops (k : Kernel) (g : Nat) : Move → Prop
  | post task signal | postProcess task signal => task.tgid = g ∧ signal ∈ STOPS
  | enter pid place => ¬ place.Calm ∧ ∃ t, k.procs.find pid = some t ∧ t.tgid = g
  | _ => False

/-- the rest of the kernel stops no thread of the group; a new thread starts with nothing -/
def Leaves (k : Kernel) (g : Nat) : Move → Prop
  | other procs => EasesGroup g g (k.procs.group g) (procs.group g) ∧
      ∀ pid t', procs.find pid = some t' → t'.tgid = g →
        (∃ t, k.procs.find pid = some t ∧ Eases g t t') ∨ k.place pid = .out ∧ Clear t'
  | _ => True

end Move

/-- runs from `k` that bring the group no new stop -/
inductive Kernel.After (g : Nat) (k : Kernel) : Kernel → Prop
  | refl : Kernel.After g k k
  | step {k' : Kernel} (move : Move) : Kernel.After g k k' → move.Enabled k' → ¬ move.Stops k' g →
      move.Leaves k' g → Kernel.After g k (move.run k')

/-- no thread of the group is stopped, has a stop to take or holds one -/
structure Kernel.Continued (k : Kernel) (g : Nat) : Prop where
  thread : ∀ {pid t}, k.procs.find pid = some t → t.tgid = g → Clear t ∧ (k.place pid).Calm
  shared : ClearGroup (k.procs.group g)

/-! ## what posts do -/

variable {signal : Signal} {move : Move} {pid g : Nat} {place : Place} {procs : Procs} {k : Kernel}

section
variable {g : Nat} {t : Task}

lemma Clear.addPending (h : Clear t) (hs : signal ∉ STOPS) : Clear (t.addPending signal) := by
  refine ⟨h.1, fun s hstop hin => h.2 s hstop ((Finset.mem_insert.mp hin).resolve_left ?_)⟩
  rintro rfl
  exact hs hstop

lemma Clear.wake (h : Clear t) : Clear t.wake := by
  rw [Task.wake]
  split
  · exact ⟨State.noConfusion, h.2⟩
  · exact h

lemma ClearGroup.insert {a : Group} (h : ClearGroup a) (hs : signal ∉ STOPS) :
    ClearGroup { a with pending := insert signal a.pending } := by
  refine fun s hstop hin => h s hstop ((Finset.mem_insert.mp hin).resolve_left ?_)
  rintro rfl
  exact hs hstop

lemma eases_lawful : Lawful (Eases g) (EasesGroup g) where
  refl _ := ⟨rfl, fun _ => id⟩
  trans h h' := ⟨h'.tgid.trans h.tgid, fun hg hc => h'.clear (h.tgid.trans hg) (h.clear hg hc)⟩
  tgid h := h.tgid
  wake t := ⟨(Task.Gentle.wake t).tgid, fun _ => Clear.wake⟩
  continued _ := ⟨rfl, fun _ hc => ⟨State.noConfusion, hc.2⟩⟩
  killed t := by
    have hgentle := (Task.Gentle.restartForKill t).trans (.addPending _ SIGKILL)
    refine ⟨(hgentle.trans (.wake _)).tgid, fun _ hc => Clear.wake (Clear.addPending ?_ (by decide))⟩
    rw [Task.restartForKill, if_neg hc.1]
    exact hc
  groupRefl _ _ _ := id
  groupTrans h h' hn hc := h' hn (h hn hc)
  child _ _ _ hc := hc.insert (by decide)
  ended _ _ _ _ := id

lemma eases_drops (tgid : Nat) (signals : Finset Signal) :
    Drops (Eases g) (EasesGroup g) tgid signals where
  own _ _ := ⟨rfl, fun _ hc => ⟨hc.1, fun s hs hin => hc.2 s hs (Finset.mem_sdiff.mp hin).1⟩⟩
  shared _ _ hc s hs hin := hc s hs (Finset.mem_sdiff.mp hin).1

lemma eases_sends {tgid : Nat} (h : ¬ (tgid = g ∧ signal ∈ STOPS)) :
    Sends (Eases g) (EasesGroup g) tgid signal where
  continues _ := eases_drops tgid STOPS
  stops _ := eases_drops tgid {SIGCONT}
  own _ _ ht := ⟨rfl, fun hg hc => hc.addPending fun hs => h ⟨ht.symm.trans hg, hs⟩⟩
  shared _ _ hg hc := hc.insert fun hs => h ⟨hg, hs⟩

end

/-! ## what a step keeps -/

namespace Kernel.Continued
variable {k : Kernel} {g : Nat}

/-- the table eased, and one task somewhere else -/
lemma put (C : k.Continued g) (h : k.procs.Turns (Eases g) (EasesGroup g) procs)
    (hplace : ∀ t, k.procs.find pid = some t → t.tgid = g → place.Calm) :
    (k.put procs pid place).Continued g := by
  refine ⟨fun {p t'} ht' hg => ?_, h.group g rfl C.shared⟩
  obtain ⟨t, ht, E⟩ := h.came ht'
  have htgid := E.tgid.symm.trans hg
  obtain ⟨hclear, hcalm⟩ := C.thread ht htgid
  refine ⟨E.clear htgid hclear, ?_⟩
  show (if p = pid then place else k.place p).Calm
  split
  · next hp => exact hplace t (hp ▸ ht) htgid
  · exact hcalm

lemma moveTo (C : k.Continued g)
    (hplace : ∀ t, k.procs.find pid = some t → t.tgid = g → place.Calm) :
    (k.moveTo pid place).Continued g :=
  C.put (.refl eases_lawful k.procs) hplace

lemma eased (C : k.Continued g) (h : k.procs.Turns (Eases g) (EasesGroup g) procs) :
    Kernel.Continued { k with procs := procs } g := by
  refine ⟨fun ht' hg => ?_, h.group g rfl C.shared⟩
  obtain ⟨t, ht, E⟩ := h.came ht'
  have htgid := E.tgid.symm.trans hg
  exact ⟨E.clear htgid (C.thread ht htgid).1, (C.thread ht htgid).2⟩

section
variable {t : Task}

lemma drop (signals : Finset Signal) :
    k.procs.Turns (Eases g) (EasesGroup g) (k.procs.change t.pid (·.dropPending signals)) :=
  .change eases_lawful _ (fun _ => rfl) fun u _ => (eases_drops u.tgid signals).own u rfl

variable (ht : k.procs.find t.pid = some t)
include ht

/-- what is about the running task is about the task found -/
lemma here {P : Prop} (h : t.tgid = g → P) : ∀ u, k.procs.find t.pid = some u → u.tgid = g → P := by
  intro u hu hg
  rw [ht] at hu
  cases hu
  exact h hg

variable (C : k.Continued g)
include C

lemma act {reading : Reading} {rest : List Signal} (hcalm : t.tgid = g → signal ∉ STOPS) :
    (k.act t reading signal rest).Continued g := by
  have hback : k.procs.Turns (Eases g) (EasesGroup g) (k.procs.change t.pid (·.addPending signal)) := by
    refine .change eases_lawful _ (fun _ => rfl) fun u hu => ⟨rfl, fun hg hc => hc.addPending ?_⟩
    exact here ht hcalm u hu hg
  rw [Kernel.act]
  split
  · exact C.moveTo fun _ _ _ => trivial
  · split
    · next hstop =>
      have hother : t.tgid ≠ g := fun hg =>
        hcalm hg (hstop.elim (fun e => e ▸ by decide) fun h => of_decide_eq_true h.1)
      split
      · exact C.moveTo (here ht fun hg => absurd hg hother)
      · exact C.put hback fun _ _ _ => trivial
    · split
      · exact C.moveTo fun _ _ _ => trivial
      · split <;> exact C.moveTo fun _ _ _ => trivial
      · split
        · exact C.put hback fun _ _ _ => trivial
        · refine C.put ?_ fun _ _ _ => by split <;> trivial
          split
          · exact .change eases_lawful _ (fun _ => rfl) fun u _ => ⟨rfl, fun _ => id⟩
          · exact .refl eases_lawful _

/-- what the running task does next -/
lemma advance (reading : Reading) : (k.advance t reading (k.place t.pid)).Continued g := by
  have hcalm : t.tgid = g → (k.place t.pid).Calm := fun hg => (C.thread ht hg).2
  have hclear : t.tgid = g → ∀ signal ∈ STOPS, signal ∉ t.own ∧ signal ∉ (k.procs.group t.tgid).pending :=
    fun hg signal hs => ⟨(C.thread ht hg).1.2 signal hs, hg ▸ C.shared signal hs⟩
  cases hplace : k.place t.pid with
  | out => exact C
  | begin => exact C.moveTo fun _ _ _ => by split <;> trivial
  | scan rest =>
    cases rest with
    | nil => exact C.moveTo fun _ _ _ => trivial
    | cons signal rest =>
      rw [Kernel.advance]
      split <;> exact C.moveTo fun _ _ _ => trivial
  | takeOwn signal rest =>
    refine C.put (drop _) (here ht fun hg => ?_)
    split
    · next hin => exact fun hs => (hclear hg signal hs).1 hin
    · trivial
  | takeShared signal rest =>
    refine C.put (.setGroup eases_lawful _ ((eases_drops _ _).shared _)) (here ht fun hg => ?_)
    split
    · next hin => exact fun hs => (hclear hg signal hs).2 hin
    · trivial
  | taken signal rest =>
    rw [hplace] at hcalm
    exact C.act ht hcalm
  | ending status => exact C.put (.endThreadGroup eases_lawful _ t status) fun _ _ _ => trivial
  | leaving => exact C
  | asking rest =>
    rw [hplace] at hcalm
    cases rest with
    | nil => exact C.moveTo fun _ _ _ => trivial
    | cons signal rest =>
      rw [Kernel.advance]
      split
      · next hasked =>
        refine C.moveTo (here ht fun hg => ?_)
        have hnone := hclear hg signal (hcalm hg signal (List.mem_cons_self ..))
        exact ((Finset.mem_union.mp hasked.1).elim hnone.1 hnone.2).elim
      · exact C.moveTo (here ht fun hg s hs => hcalm hg s (List.mem_cons_of_mem _ hs))
  | dropOwn signal =>
    rw [hplace] at hcalm
    exact C.put (drop _) (here ht fun hg => (hcalm hg).elim)
  | dropShared signal =>
    rw [hplace] at hcalm
    exact C.put (.setGroup eases_lawful _ ((eases_drops _ _).shared _))
      (here ht fun hg => (hcalm hg).elim)
  | stopping signal scans =>
    rw [hplace] at hcalm
    rw [Kernel.advance, Kernel.stopCurrent]
    split
    · exact C.moveTo fun _ _ _ => by cases scans <;> trivial
    · have hstop : k.procs.Turns (Eases g) (EasesGroup g)
          (k.procs.change t.pid (·.markStopped signal)) :=
        .change eases_lawful _ (fun _ => rfl) fun u hu =>
          ⟨rfl, fun hg => (here ht (fun hg => (hcalm hg).elim) u hu hg)⟩
      exact C.put (hstop.trans eases_lawful (.notifyParent eases_lawful _ _)) fun _ _ _ => trivial
  | halted scans => exact C.moveTo fun _ _ _ => by cases scans <;> trivial
  | settling =>
    rw [Kernel.advance]
    split
    · exact C.put (.dropPending eases_lawful _ ht (eases_drops ..)) fun _ _ _ => trivial
    · exact C.moveTo fun _ _ _ => trivial

end

/-- **a step brings no thread of the group to a stop** -/
theorem run (C : k.Continued g) (henabled : move.Enabled k) (hstops : ¬ move.Stops k g)
    (hleaves : move.Leaves k g) : (move.run k).Continued g := by
  cases move with
  | enter pid place =>
    refine C.moveTo fun t ht hg => ?_
    by_contra hnot
    exact hstops ⟨hnot, t, ht, hg⟩
  | step pid reading =>
    obtain ⟨t, ht, -⟩ := henabled
    have hpid := pid_of_find ht
    subst hpid
    rw [run_step ht]
    exact C.advance ht reading
  | post task signal => exact C.eased (.postSignal eases_lawful _ (eases_sends hstops) henabled)
  | postProcess member signal =>
    exact C.eased (.postProcessSignal eases_lawful _ (eases_sends hstops) henabled)
  | other procs =>
    refine ⟨fun {pid t'} ht' hg => ?_, hleaves.1 rfl C.shared⟩
    rcases hleaves.2 pid t' ht' hg with ⟨t, ht, E⟩ | ⟨hout, hclear⟩
    · have htgid := E.tgid.symm.trans hg
      exact ⟨E.clear htgid (C.thread ht htgid).1, (C.thread ht htgid).2⟩
    · refine ⟨hclear, ?_⟩
      show (k.place pid).Calm
      rw [hout]
      trivial

end Kernel.Continued

lemma Kernel.After.continued {k' : Kernel} (A : k.After g k') (C : k.Continued g) :
    k'.Continued g := by
  induction A with
  | refl => exact C
  | step move _ henabled hstops hleaves ih => exact ih.run henabled hstops hleaves

/-! ## what the continue leaves -/

section
variable {g : Nat} {s : Procs}

def Cleared (g : Nat) (s : Procs) (pid : Nat) : Prop :=
  ∀ t, s.find pid = some t → t.tgid = g → Clear t ∧ ClearGroup (s.group g)

lemma Cleared.turns {s' : Procs} (h : Cleared g s pid) (T : s.Turns (Eases g) (EasesGroup g) s') :
    Cleared g s' pid := by
  intro t' ht' hg
  obtain ⟨t, ht, E⟩ := T.came ht'
  have htgid := E.tgid.symm.trans hg
  exact ⟨E.clear htgid (h t ht htgid).1, T.group g rfl (h t ht htgid).2⟩

lemma cleared_continue {t : Task} (ht : s.find t.pid = some t) (hg : t.tgid = g) :
    Cleared g ((s.dropPending t STOPS).continueAfterStop t) t.pid := by
  have hfind : (s.dropPending t STOPS).find t.pid = some (t.dropPending STOPS) := by
    show (s.change t.pid _).find t.pid = _
    rw [find_change (f := (·.dropPending STOPS)) fun _ => rfl, if_pos rfl, ht, Option.map_some]
  have hgroup : ClearGroup ((s.dropPending t STOPS).group g) := by
    show ClearGroup (if g = t.tgid then _ else s.group g)
    rw [if_pos hg.symm]
    exact fun signal hs hin => (Finset.mem_sdiff.mp hin).2 hs
  have hown : ∀ signal ∈ STOPS, signal ∉ t.own \ STOPS := fun signal hs hin =>
    (Finset.mem_sdiff.mp hin).2 hs
  rw [Procs.continueAfterStop]
  split
  · have hmarked : Cleared g ((s.dropPending t STOPS).change t.pid Task.markContinued) t.pid := by
      intro u hu _
      rw [find_change (f := Task.markContinued) fun _ => rfl, if_pos rfl, hfind] at hu
      cases hu
      exact ⟨⟨State.noConfusion, hown⟩, hgroup⟩
    exact hmarked.turns (.notifyParent eases_lawful _ _)
  · next hrun =>
    intro u hu _
    rw [hfind] at hu
    cases hu
    exact ⟨⟨hrun, hown⟩, hgroup⟩

lemma cleared_foldl {f : Procs → Nat → Procs}
    (hturns : ∀ (s : Procs) (pid : Nat), s.Turns (Eases g) (EasesGroup g) (f s pid))
    (hclear : ∀ (s : Procs) (pid : Nat), Cleared g (f s pid) pid) (pids : List Nat) (h : pid ∈ pids)
    (s : Procs) : Cleared g (pids.foldl f s) pid := by
  induction pids generalizing s with
  | nil => cases h
  | cons p pids ih =>
    rcases List.mem_cons.mp h with rfl | hin
    · exact (hclear s pid).turns (.foldl eases_lawful _ pids hturns)
    · exact ih hin _

lemma cleared_prepare {member : Task} (hg : member.tgid = g) {u : Task}
    (hu : s.find pid = some u) : Cleared g (s.prepareSignal member SIGCONT).1 pid := by
  have hin : pid ∈ s.tasks.map Task.pid :=
    List.mem_map.mpr ⟨u, List.mem_of_find?_eq_some hu, pid_of_find hu⟩
  refine cleared_foldl (fun s p => ?_) (fun s p => ?_) _ hin s
  · split
    · next t ht =>
      split
      · refine .trans eases_lawful (.dropPending eases_lawful s ?_ (eases_drops ..))
          (.continueAfterStop eases_lawful _ t)
        rw [pid_of_find ht, ht]
      · exact .refl eases_lawful s
    · exact .refl eases_lawful s
  · split
    · next t ht =>
      have hpid := pid_of_find ht
      subst hpid
      split
      · next htgid => exact cleared_continue ht (htgid.trans hg)
      · next htgid =>
        intro u hu hu'
        rw [ht] at hu
        cases hu
        exact absurd (hu'.trans hg.symm) htgid
    · next hnone =>
      intro u hu
      rw [hnone] at hu
      cases hu

end

/-- the first half of a post of a continue clears the group, and the second eases it -/
lemma turns_post (hcont : move.Continues g) (henabled : move.Enabled k) :
    ∃ member : Task, member.tgid = g ∧
      k.procs.find member.pid = some member ∧ (move.run k).place = k.place ∧
      (k.procs.prepareSignal member SIGCONT).1.Turns (Eases g) (EasesGroup g) (move.run k).procs := by
  have hprepare : ∀ member : Task, k.procs.prepareSignal member SIGCONT =
      ((k.procs.prepareSignal member SIGCONT).1, true) := fun member => by
    rw [Procs.prepareSignal, if_neg (by decide), if_pos rfl]
  have hcont' : SIGCONT ∉ STOPS := by decide
  cases move with
  | post task signal =>
    obtain ⟨hg, rfl⟩ := hcont
    refine ⟨task, hg, henabled, rfl, ?_⟩
    rw [run, Procs.postSignal, hprepare]
    have hadd : (k.procs.prepareSignal task SIGCONT).1.Turns (Eases g) (EasesGroup g)
        ((k.procs.prepareSignal task SIGCONT).1.change task.pid (·.addPending SIGCONT)) :=
      .change eases_lawful _ (fun _ => rfl) fun t _ => ⟨rfl, fun _ hc => hc.addPending hcont'⟩
    exact hadd.trans eases_lawful (.wake eases_lawful _ _)
  | postProcess member signal =>
    obtain ⟨hg, rfl⟩ := hcont
    refine ⟨member, hg, henabled, rfl, ?_⟩
    rw [run, Procs.postProcessSignal, hprepare]
    dsimp only
    split
    · exact .sendToProcess eases_lawful _ _ fun _ _ hc => hc.insert hcont'
    · exact .refl eases_lawful _
  | _ => exact hcont.elim

/-- **after a continue nobody stops for an earlier stop**, if no thread of the group had taken one
without having stopped -/
theorem continue_ends_stops {k k' : Kernel} {g : Nat} {move : Move} (hcont : move.Continues g)
    (henabled : move.Enabled k)
    (hcalm : ∀ pid t, k.procs.find pid = some t → t.tgid = g → (k.place pid).Calm)
    (A : (move.run k).After g k') {pid : Nat} {t : Task} (ht : k'.procs.find pid = some t)
    (hg : t.tgid = g) : t.state ≠ .stopped := by
  obtain ⟨member, hmember, hfind, hplace, hturns⟩ := turns_post hcont henabled
  have hprepared : k.procs.Turns (Eases g) (EasesGroup g) (k.procs.prepareSignal member SIGCONT).1 :=
    .prepareSignal eases_lawful _ (eases_sends fun h => absurd h.2 (by decide))
  have hall := hprepared.trans eases_lawful hturns
  have hcleared : ∀ {pid t t'}, k.procs.find pid = some t → (move.run k).procs.find pid = some t' →
      t'.tgid = g → Clear t' ∧ ClearGroup ((move.run k).procs.group g) := fun hu ht' hg' =>
    (cleared_prepare hmember hu).turns hturns _ ht' hg'
  have C : (move.run k).Continued g := by
    refine ⟨fun {pid t'} ht' hg' => ?_, ?_⟩
    · obtain ⟨u, hu, E⟩ := hall.came ht'
      exact ⟨(hcleared hu ht' hg').1, hplace ▸ hcalm pid u hu (E.tgid.symm.trans hg')⟩
    · obtain ⟨m, hm, E⟩ := hall.found hfind
      exact (hcleared hfind hm (E.tgid.trans hmember)).2
  exact ((A.continued C).thread ht hg).1.1

/-! ## two threads -/

def sibling : Task := { plainTask 6 with tgid := 5 }
def bothRun : Kernel := ⟨⟨[plainTask 5, sibling], fun _ => ⟨∅, none⟩⟩, fun _ => .out⟩

/-- the stop is posted, and the first thread finds it and takes it, in a system call -/
def stopTook : Kernel :=
  [.post (plainTask 5) SIGSTOP, .enter 5 (.asking [SIGSTOP, SIGTSTP, SIGTTIN, SIGTTOU]),
    .step 5 .user, .step 5 .user, .step 5 .user].foldl run bothRun

lemma stopTook_reached : stopTook.Reached fun _ _ => True := by
  have hstart : bothRun.Reached fun _ _ => True := by
    refine .start _ (fun pid t ht => ?_) fun _ => rfl
    rcases List.mem_cons.mp (List.mem_of_find?_eq_some ht) with rfl | ht
    · exact State.noConfusion
    · rw [List.mem_singleton.mp ht]
      exact State.noConfusion
  have hposted := Kernel.Reached.step (.post (plainTask 5) SIGSTOP) hstart rfl trivial
  have hasked := Kernel.Reached.step (.enter 5 (.asking [SIGSTOP, SIGTSTP, SIGTTIN, SIGTTOU]))
    hposted ⟨rfl, rfl, _, rfl, rfl⟩ trivial
  have hfound := Kernel.Reached.step (.step 5 .user) hasked ⟨_, rfl, rfl⟩ trivial
  have hown := Kernel.Reached.step (.step 5 .user) hfound ⟨_, rfl, rfl⟩ trivial
  exact .step (.step 5 .user) hown ⟨_, rfl, rfl⟩ trivial

def siblingThen : Task := (sibling.addPending SIGSTOP).wake

/-- **a thread stops for a stop that a continue came after**: the continue is sent to its sibling, and
the section of `stop_current` looks at the signals of its own thread -/
theorem stops_after_continue : ∃ (k k' : Kernel) (t : Task), (k.Reached fun _ _ => True) ∧
    (post siblingThen SIGCONT).Continues 5 ∧ (post siblingThen SIGCONT).Enabled k ∧
    ((post siblingThen SIGCONT).run k).After 5 k' ∧ k'.procs.find 5 = some t ∧ t.tgid = 5 ∧
    t.state = .stopped := by
  refine ⟨stopTook, (step 5 .user).run ((post siblingThen SIGCONT).run stopTook), _,
    stopTook_reached, ⟨rfl, rfl⟩, rfl, ?_, rfl, rfl, rfl⟩
  exact .step _ .refl ⟨_, rfl, rfl⟩ id trivial

def bothStopped : Kernel :=
  ⟨⟨[(plainTask 5).markStopped SIGSTOP, sibling.markStopped SIGSTOP], fun _ => ⟨∅, none⟩⟩,
    fun _ => .out⟩

/-- a SIGCONT sets the sibling going too -/
theorem continue_ends_stops_bothStopped : ∃ t t' : Task, bothStopped.procs.find 6 = some t ∧
    t.state = .stopped ∧ ((post ((plainTask 5).markStopped SIGSTOP) SIGCONT).run
      bothStopped).procs.find 6 = some t' ∧ t'.state ≠ .stopped := by
  have hcont : (post ((plainTask 5).markStopped SIGSTOP) SIGCONT).Continues 5 := ⟨rfl, rfl⟩
  have henabled : (post ((plainTask 5).markStopped SIGSTOP) SIGCONT).Enabled bothStopped := rfl
  obtain ⟨t', ht', hg⟩ : ∃ t', ((post ((plainTask 5).markStopped SIGSTOP) SIGCONT).run
      bothStopped).procs.find 6 = some t' ∧ t'.tgid = 5 := ⟨_, rfl, rfl⟩
  exact ⟨_, t', rfl, rfl, ht',
    continue_ends_stops hcont henabled (fun _ _ _ _ => trivial) .refl ht' hg⟩

end ClaudeOs.Sched.JobControl
