import ClaudeOs.Sched.Table

/-!
# What a post does to the tasks it reaches, and to the others

Posting a signal wakes tasks, restarts stopped ones and changes pending sets.  It takes nobody off
the run queue.

* `Gentle`  what no post goes beyond;
* `Procs.Turns`  a table whose tasks and groups each changed by a given relation;
* `postSignal_awake`, `postProcessSignal_awake`  the thread a post is for does not sleep after it.
-/

namespace ClaudeOs.Sched
open Procs Option

/-- the same task, on the run queue or in the state it was in -/
structure Task.Gentle (t t' : Task) : Prop where
  pid : t'.pid = t.pid
  tgid : t'.tgid = t.tgid
  state : t'.state = t.state ∨ t'.state = .runnable

namespace Task.Gentle
variable {t t' t'' : Task}

lemma refl (t : Task) : t.Gentle t := ⟨rfl, rfl, .inl rfl⟩
lemma trans (g : t.Gentle t') (g' : t'.Gentle t'') : t.Gentle t'' := by
  refine ⟨g'.pid.trans g.pid, g'.tgid.trans g.tgid, ?_⟩
  rcases g'.state with hs | hrun
  · rw [hs]
    exact g.state
  · exact .inr hrun

lemma wake (t : Task) : t.Gentle t.wake := by
  rw [Task.wake]
  split
  · exact ⟨rfl, rfl, .inr rfl⟩
  · exact refl t

lemma restartForKill (t : Task) : t.Gentle t.restartForKill := by
  rw [Task.restartForKill]
  split
  · exact ⟨rfl, rfl, .inr rfl⟩
  · exact refl t

lemma addPending (t : Task) (signal : Signal) : t.Gentle (t.addPending signal) :=
  ⟨rfl, rfl, .inl rfl⟩

lemma dropPending (t : Task) (signals : Finset Signal) : t.Gentle (t.dropPending signals) :=
  ⟨rfl, rfl, .inl rfl⟩

lemma markContinued (t : Task) : t.Gentle t.markContinued := ⟨rfl, rfl, .inr rfl⟩

end Task.Gentle

lemma Task.killed_pid (t : Task) : (t.restartForKill.addPending SIGKILL).wake.pid = t.pid :=
  (((Gentle.restartForKill t).trans (.addPending _ SIGKILL)).trans (.wake _)).pid

variable {member t task : Task} {s s' : Procs} {signal : Signal} {f : Task → Task} {pid tgid : Nat}

lemma prepareSignal_ne (h : s.prepareSignal member signal = (s', true)) : signal ≠ SIGKILL := by
  rintro rfl
  rw [Procs.prepareSignal, if_pos rfl] at h
  cases h

/-- `R` between the tasks found under every number, `G` between what the threads of a group share -/
structure Procs.Turns (R : Task → Task → Prop) (G : Nat → Group → Group → Prop) (s s' : Procs) :
    Prop where
  found : ∀ {pid t}, s.find pid = some t → ∃ t', s'.find pid = some t' ∧ R t t'
  came : ∀ {pid t'}, s'.find pid = some t' → ∃ t, s.find pid = some t ∧ R t t'
  group : ∀ tgid, G tgid (s.group tgid) (s'.group tgid)

/-- changes that compose, with those every post may make among them -/
structure Lawful (R : Task → Task → Prop) (G : Nat → Group → Group → Prop) : Prop where
  refl : ∀ t, R t t
  trans : ∀ {t t' t''}, R t t' → R t' t'' → R t t''
  tgid : ∀ {t t'}, R t t' → t'.tgid = t.tgid
  wake : ∀ t, R t t.wake
  continued : ∀ t, R t t.markContinued
  killed : ∀ t, R t (t.restartForKill.addPending SIGKILL).wake
  groupRefl : ∀ n g, G n g g
  groupTrans : ∀ {n g g' g''}, G n g g' → G n g' g'' → G n g g''
  child : ∀ n g, G n g { g with pending := insert SIGCHLD g.pending }
  ended : ∀ n g status, G n g { g with exit := status }

structure Drops (R : Task → Task → Prop) (G : Nat → Group → Group → Prop) (tgid : Nat)
    (signals : Finset Signal) : Prop where
  own : ∀ t : Task, t.tgid = tgid → R t (t.dropPending signals)
  shared : ∀ g : Group, G tgid g { g with pending := g.pending \ signals }

structure Sends (R : Task → Task → Prop) (G : Nat → Group → Group → Prop) (tgid : Nat)
    (signal : Signal) : Prop where
  continues : signal = SIGCONT → Drops R G tgid STOPS
  stops : signal.stops = true → Drops R G tgid {SIGCONT}
  own : signal ≠ SIGKILL → ∀ t : Task, t.tgid = tgid → R t (t.addPending signal)
  shared : signal ≠ SIGKILL → ∀ g : Group, G tgid g { g with pending := insert signal g.pending }

namespace Procs.Turns
variable {R : Task → Task → Prop} {G : Nat → Group → Group → Prop} {s s' s'' : Procs}

lemma of_map {f : Nat → Task → Task} (hfind : ∀ pid, s'.find pid = (s.find pid).map (f pid))
    (hf : ∀ pid t, s.find pid = some t → R t (f pid t))
    (hg : ∀ tgid, G tgid (s.group tgid) (s'.group tgid)) : s.Turns R G s' where
  found {pid t} ht := ⟨f pid t, by rw [hfind, ht, map_some], hf pid t ht⟩
  came {pid t'} ht' := by
    rw [hfind, map_eq_some_iff] at ht'
    obtain ⟨t, ht, rfl⟩ := ht'
    exact ⟨t, ht, hf pid t ht⟩
  group := hg

variable (L : Lawful R G)
include L

lemma refl (s : Procs) : s.Turns R G s :=
  of_map (f := fun _ => id) (fun _ => map_id'.symm) (fun _ t _ => L.refl t)
    fun n => L.groupRefl n _

lemma trans (h : s.Turns R G s') (h' : s'.Turns R G s'') : s.Turns R G s'' where
  found ht := by
    obtain ⟨t', ht', hR⟩ := h.found ht
    obtain ⟨t'', ht'', hR'⟩ := h'.found ht'
    exact ⟨t'', ht'', L.trans hR hR'⟩
  came ht'' := by
    obtain ⟨t', ht', hR'⟩ := h'.came ht''
    obtain ⟨t, ht, hR⟩ := h.came ht'
    exact ⟨t, ht, L.trans hR hR'⟩
  group n := L.groupTrans (h.group n) (h'.group n)

variable (s : Procs)

lemma update {pick : Task → Bool} (hpid : ∀ t, (f t).pid = t.pid)
    (hf : ∀ t, pick t = true → R t (f t)) : s.Turns R G (s.update pick f) := by
  refine of_map (fun _ => find_update hpid) (fun _ t _ => ?_) fun n => L.groupRefl n _
  split
  · exact hf t ‹_›
  · exact L.refl t

lemma change (hpid : ∀ t, (f t).pid = t.pid) (hf : ∀ t, s.find pid = some t → R t (f t)) :
    s.Turns R G (s.change pid f) := by
  refine of_map (f := fun p => if p = pid then f else id) (fun p => ?_) (fun p t ht => ?_)
    fun n => L.groupRefl n _
  · rw [find_change hpid]
    split
    · rfl
    · exact map_id'.symm
  · split
    · next hp => exact hf t (hp ▸ ht)
    · exact L.refl t

lemma setGroup {g : Group} (hg : G tgid (s.group tgid) g) : s.Turns R G (s.setGroup tgid g) := by
  refine ⟨(refl L s).found, (refl L s).came, fun n => ?_⟩
  show G n (s.group n) (if n = tgid then g else s.group n)
  split
  · next hn => exact hn ▸ hg
  · exact L.groupRefl n _

lemma wakes (pick : Task → Bool) : s.Turns R G (s.update pick Task.wake) :=
  update L s Task.wake_pid fun t _ => L.wake t

lemma wake (pid : Nat) : s.Turns R G (s.wake pid) := wakes L s _

lemma foldl (pids : List Nat) {f : Procs → Nat → Procs}
    (hf : ∀ (s : Procs) (pid : Nat), s.Turns R G (f s pid)) : s.Turns R G (pids.foldl f s) := by
  induction pids generalizing s with
  | nil => exact refl L s
  | cons pid pids ih => exact (hf s pid).trans L (ih (f s pid))

lemma onThreads {f : Procs → Task → Procs}
    (hf : ∀ (s : Procs) (t : Task), s.find t.pid = some t → t.tgid = tgid → s.Turns R G (f s t)) :
    s.Turns R G (s.onThreads tgid f) := by
  refine foldl L _ _ fun s pid => ?_
  split
  · next t ht =>
    split
    · exact hf s t (by rw [pid_of_find ht, ht]) ‹_›
    · exact refl L s
  · exact refl L s

lemma dropPending {signals : Finset Signal} (ht : s.find t.pid = some t)
    (D : Drops R G t.tgid signals) : s.Turns R G (s.dropPending t signals) := by
  have hown : s.Turns R G (s.change t.pid (·.dropPending signals)) := by
    refine change L s (fun _ => rfl) fun u hu => ?_
    rw [ht] at hu
    cases hu
    exact D.own t rfl
  exact hown.trans L (setGroup L _ (D.shared _))

lemma sendToProcess (member : Task)
    (hshared : ∀ g : Group, G member.tgid g { g with pending := insert signal g.pending }) :
    s.Turns R G (s.sendToProcess member signal) := by
  have hadd : s.Turns R G (s.addSharedPending member.tgid signal) := setGroup L s (hshared _)
  rw [Procs.sendToProcess]
  split
  · exact hadd.trans L (wake L _ _)
  · exact hadd

lemma notifyParent (ppid : Nat) : s.Turns R G (s.notifyParent ppid) := by
  rw [Procs.notifyParent]
  split
  · exact (sendToProcess L s _ (L.child _)).trans L (wakes L _ _)
  · exact refl L s

lemma continueAfterStop (t : Task) : s.Turns R G (s.continueAfterStop t) := by
  rw [Procs.continueAfterStop]
  split
  · have hcontinued : s.Turns R G (s.change t.pid Task.markContinued) :=
      change L s (fun _ => rfl) fun u _ => L.continued u
    exact hcontinued.trans L (notifyParent L _ _)
  · exact refl L s

lemma endThreadGroup (member : Task) (status : Int) :
    s.Turns R G (s.endThreadGroup member status).1 :=
  (setGroup L s (L.ended ..)).trans L (update L _ Task.killed_pid fun t _ => L.killed t)

lemma prepareSignal (S : Sends R G member.tgid signal) :
    s.Turns R G (s.prepareSignal member signal).1 := by
  rw [Procs.prepareSignal]
  split
  · exact endThreadGroup L s member _
  · next hkill =>
    split
    · next hcont =>
      refine onThreads L s fun s t ht htgid => ?_
      exact (dropPending L s ht (htgid ▸ S.continues hcont)).trans L (continueAfterStop L _ t)
    · split
      · exact refl L s
      · next hstop =>
        have hdrops := S.stops (by simpa using hstop)
        have hdrop : s.Turns R G (s.onThreads member.tgid fun s t => s.dropPending t {SIGCONT}) :=
          onThreads L s fun s t ht htgid => dropPending L s ht (htgid ▸ hdrops)
        split
        · exact hdrop
        · refine hdrop.trans L (update L _ (fun t => Task.wake_pid _) fun t hpick => ?_)
          have htgid : t.tgid = member.tgid := by simpa using (Bool.and_eq_true_iff.mp hpick).1
          exact L.trans (S.own hkill t htgid) (L.wake _)

lemma postSignal (S : Sends R G task.tgid signal) (hfind : s.find task.pid = some task) :
    s.Turns R G (s.postSignal task signal) := by
  have hprepared := prepareSignal L s S
  rw [Procs.postSignal]
  split
  · next s1 h =>
    rw [h] at hprepared
    have hadd : s1.Turns R G (s1.change task.pid (·.addPending signal)) := by
      refine change L s1 (fun _ => rfl) fun t ht => S.own (prepareSignal_ne h) t ?_
      obtain ⟨u, hu, hR⟩ := hprepared.came ht
      rw [hfind] at hu
      cases hu
      exact L.tgid hR
    exact (hprepared.trans L hadd).trans L (wake L _ _)
  · next s1 h =>
    rw [h] at hprepared
    exact hprepared

lemma postProcessSignal (S : Sends R G member.tgid signal)
    (hfind : s.find member.pid = some member) :
    s.Turns R G (s.postProcessSignal member signal) := by
  have hprepared := prepareSignal L s S
  rw [Procs.postProcessSignal]
  split
  · next s1 h =>
    rw [h] at hprepared
    split
    · next m hm =>
      obtain ⟨u, hu, hR⟩ := hprepared.came hm
      rw [hfind] at hu
      cases hu
      refine hprepared.trans L (sendToProcess L _ m ?_)
      rw [L.tgid hR]
      exact S.shared (prepareSignal_ne h)
    · exact hprepared
  · next s1 h =>
    rw [h] at hprepared
    exact hprepared

end Procs.Turns

structure Procs.Gentle (s s' : Procs) : Prop where
  task : ∀ pid t, s.find pid = some t → ∃ t', s'.find pid = some t' ∧ t.Gentle t'

lemma gentle_lawful : Lawful Task.Gentle fun _ _ _ => True where
  refl := .refl
  trans := .trans
  tgid h := h.tgid
  wake := .wake
  continued := .markContinued
  killed t := ((Task.Gentle.restartForKill t).trans (.addPending _ _)).trans (.wake _)
  groupRefl _ _ := trivial
  groupTrans _ _ := trivial
  child _ _ := trivial
  ended _ _ _ := trivial

lemma gentle_sends (tgid : Nat) (signal : Signal) :
    Sends Task.Gentle (fun _ _ _ => True) tgid signal where
  continues _ := ⟨fun t _ => .dropPending t _, fun _ => trivial⟩
  stops _ := ⟨fun t _ => .dropPending t _, fun _ => trivial⟩
  own _ t _ := .addPending t signal
  shared _ _ := trivial

lemma Procs.Turns.gentle (h : s.Turns Task.Gentle (fun _ _ _ => True) s') : s.Gentle s' :=
  ⟨fun _ _ ht => h.found ht⟩

lemma wakes_gentle (s : Procs) (pids : List Nat) : s.Gentle (pids.foldl Procs.wake s) :=
  (Turns.foldl gentle_lawful s pids (Turns.wake gentle_lawful)).gentle

lemma postSignal_gentle (h : s.find task.pid = some task) (signal : Signal) :
    s.Gentle (s.postSignal task signal) :=
  (Turns.postSignal gentle_lawful s (gentle_sends _ signal) h).gentle

lemma postProcessSignal_gentle (h : s.find member.pid = some member) (signal : Signal) :
    s.Gentle (s.postProcessSignal member signal) :=
  (Turns.postProcessSignal gentle_lawful s (gentle_sends _ signal) h).gentle

/-! ## the thread a post is for -/

lemma wake_not_sleeping (t : Task) : t.wake.state ≠ .sleeping := by
  rw [Task.wake]
  split
  · exact State.noConfusion
  · assumption

lemma find_wake_not_sleeping (h : (s.wake pid).find pid = some t) : t.state ≠ .sleeping := by
  rw [find_wake, if_pos rfl, map_eq_some_iff] at h
  obtain ⟨u, -, rfl⟩ := h
  exact wake_not_sleeping u

lemma update_group_awake (hpid : ∀ t, (f t).pid = t.pid) (hwake : ∀ t, (f t).state ≠ .sleeping)
    (htgid : ∀ u, s.find pid = some u → u.tgid = tgid)
    (h : (s.update (fun t => t.tgid == tgid && t.state ≠ .zombie) f).find pid = some t) :
    t.state ≠ .sleeping := by
  rw [find_update hpid, map_eq_some_iff] at h
  obtain ⟨u, hu, rfl⟩ := h
  split
  · exact hwake u
  · next hno =>
    simp only [htgid u hu, beq_self_eq_true, Bool.true_and, decide_eq_true_eq, not_not] at hno
    rw [hno]
    exact State.noConfusion

lemma prepareSignal_awake (hrun : s.prepareSignal member signal = (s', false))
    (htgid : ∀ u, s.find pid = some u → u.tgid = member.tgid) (hin : (s.find pid).isSome = true)
    (h : s'.find pid = some t) : t.state ≠ .sleeping := by
  obtain ⟨v, hv⟩ := isSome_iff_exists.mp hin
  rw [prepareSignal] at hrun
  split at hrun
  · cases hrun
    refine update_group_awake (fun t => ?_) (fun t => wake_not_sleeping _) ?_ h
    · exact Task.killed_pid t
    · exact htgid
  · split at hrun
    · cases hrun
    · split at hrun
      · cases hrun
      · split at hrun
        · cases hrun
        · cases hrun
          refine update_group_awake (fun t => ?_) (fun t => wake_not_sleeping _) ?_ h
          · exact Task.wake_pid _
          · intro u hu
            have g : s.Turns Task.Gentle (fun _ _ _ => True)
                (s.onThreads member.tgid fun s t => s.dropPending t {SIGCONT}) :=
              Turns.onThreads gentle_lawful s fun s t ht _ => Turns.dropPending gentle_lawful s ht
                ⟨fun t _ => .dropPending t _, fun _ => trivial⟩
            obtain ⟨u', hu', hg⟩ := g.found hv
            rw [hu] at hu'
            cases hu'
            rw [hg.tgid]
            exact htgid v hv

/-- **the thread a signal is sent to does not sleep after the post** -/
theorem postSignal_awake (hfind : s.find pid = some task)
    (h : (s.postSignal task signal).find pid = some t) : t.state ≠ .sleeping := by
  have hpid := pid_of_find hfind
  subst hpid
  rw [postSignal] at h
  split at h
  · exact find_wake_not_sleeping h
  · next s1 hrun =>
    refine prepareSignal_awake hrun (fun u hu => ?_) (by rw [hfind]; rfl) h
    rw [hfind] at hu
    cases hu
    rfl

/-- the thread chosen for a signal sent to a process, or every thread -/
def Procs.For (s : Procs) (member : Task) (signal : Signal) (pid : Nat) : Prop :=
  match s.prepareSignal member signal with
  | (s, true) => ∃ m, s.find member.pid = some m ∧
      (s.addSharedPending m.tgid signal).taker m signal = some pid
  | (_, false) => ∃ t, s.find pid = some t ∧ t.tgid = member.tgid

lemma postProcessSignal_awake (hfor : s.For member signal pid)
    (h : (s.postProcessSignal member signal).find pid = some t) : t.state ≠ .sleeping := by
  rw [postProcessSignal] at h
  rw [For] at hfor
  split at h
  · next s1 hrun =>
    rw [hrun] at hfor
    obtain ⟨m, hm, htaker⟩ := hfor
    rw [hm] at h
    simp only [sendToProcess, htaker] at h
    exact find_wake_not_sleeping h
  · next s1 hrun =>
    rw [hrun] at hfor
    obtain ⟨u, hu, htgid⟩ := hfor
    refine prepareSignal_awake hrun (fun v hv => ?_) (by rw [hu]; rfl) h
    rw [hu] at hv
    cases hv
    exact htgid

end ClaudeOs.Sched
