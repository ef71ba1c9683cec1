import Mathlib.Data.List.Nodup
import Mathlib.Algebra.Order.Ring.Int

/-!
# Exits and waits

How a task leaves the process table: `exit_group` and `exit_current`, the section in which a task
becomes a zombie and its process is told about or released, `wait4` and `reap_dead_threads`.  Tasks
of any processes make these steps in any order, one section at a time.  A task carries, beside its
pid, which task it is: numbers are handed out by a counter of 32 bits.

* `Member`, `World`  the tasks, the status cells of the groups, and what happened so far;
* `exits_collected_once`  every process is collected once, with its status and under a pid nobody
  else has, in runs that make no more tasks than the counter has numbers;
* `pid_of_zombie_reused`  the counter goes round.
-/

namespace ClaudeOs.Sched.Exit
open List Nat

def PIDS : Nat := 2 ^ 32

/-- where a task is: in its program, in `fork`, at a point of `exit_current`, or a zombie -/
inductive Place where
  | running
  | making (id pid ppid : Nat) (thread : Bool)
  | leaving (status : Int)
  | reading (group : Option Int) (status : Int)
  | coded
  | gone
deriving DecidableEq

def Place.makes : Place → Option (Nat × Nat)
  | .making id pid _ _ => some (id, pid)
  | _ => none

structure Member where
  id : Nat
  pid : Nat
  tgid : Nat
  ppid : Nat
  pgid : Nat
  /-- the cell with the status of its group, by the task it was made with -/
  group : Nat
  place : Place
  exitCode : Int
  releasedAtExit : Bool
  /-- its action for `SIGCHLD` is not to ignore it, without `SA_NOCLDWAIT` -/
  waits : Bool
deriving DecidableEq

def Member.zombie (t : Member) : Bool := t.place = .gone

inductive Event where
  /-- `end_thread_group`, on the group with this cell -/
  | ended (group : Nat) (status : Int)
  | left (id : Nat) (status : Int)
  | returned (id pid : Nat) (status : Int)
  /-- a process out of the table without one -/
  | released (id : Nat)

open Event

structure World where
  tasks : List Member
  status : Nat → Option Int
  nextPid : Nat
  made : Nat
  /-- what happened, the last first -/
  past : List Event

open World
section
variable (tasks : List Member)

def change (id : Nat) (f : Member → Member) : List Member :=
  tasks.map fun t => if t.id = id then f t else t

def groupExited (tgid : Nat) : Bool :=
  tasks.all fun t => t.tgid != tgid || t.zombie

def setPlace (place : Place) (t : Member) : Member := { t with place := place }
def release (t : Member) : Member := { t with releasedAtExit := true }
def setParent (ppid : Nat) (t : Member) : Member := { t with ppid := ppid }

/-- a parent that will not wait for the process has it released; the signals are left out -/
def notifyParentOfExit (leader : Member) : List Member :=
  match tasks.find? (·.pid == leader.ppid) with
  | some parent => if parent.waits then tasks else change tasks leader.id release
  | none => tasks

def becomeZombie (t : Member) : List Member :=
  let tasks := change tasks t.id (setPlace .gone)
  if groupExited tasks t.tgid then
    match tasks.find? (·.pid == t.tgid) with
    | some leader => notifyParentOfExit tasks leader
    | none => tasks
  else tasks

def adopt (tgid : Nat) (tasks : List Member) (id : Nat) : List Member :=
  match tasks.find? (·.id == id) with
  | some other =>
    if other.ppid = tgid then
      let tasks := change tasks id (setParent 1)
      if other.pid = other.tgid ∧ groupExited tasks other.tgid = true ∧ other.releasedAtExit = false then
        notifyParentOfExit tasks (setParent 1 other)
      else tasks
    else tasks
  | none => tasks

/-- the children of a process handed on once every thread of it has exited -/
def handOn (tgid : Nat) : List Member :=
  if groupExited tasks tgid then (tasks.map Member.id).foldl (adopt tgid) tasks else tasks

def isChildProcess (t : Member) (parent : Nat) : Bool :=
  t.ppid == parent && t.pid == t.tgid && !t.releasedAtExit

def matchesWant (t : Member) (want : Int) : Bool :=
  if want > 0 then t.pid == want.toNat else if want < -1 then t.pgid == (-want).toNat else true

def finishedProcess (t : Member) : Bool :=
  t.zombie && groupExited tasks t.tgid

/-- zombies no `wait4` takes out of the table, the running task apart -/
def unwaited (cur : Nat) (t : Member) : Bool :=
  t.zombie && (t.pid != t.tgid || t.releasedAtExit) && t.id != cur

def releasedOf : List Event :=
  (tasks.filter fun t => t.pid == t.tgid).map fun t => .released t.id

end

namespace World
section
variable (s : World) (me : Member)

def place (id : Nat) (place : Place) : World :=
  { s with tasks := change s.tasks id (setPlace place) }

/-- `Task::new` in `fork` -/
def fork (thread : Bool) : World :=
  { s with
    tasks := change s.tasks me.id (setPlace (.making s.made s.nextPid me.ppid thread))
    nextPid := (s.nextPid + 1) % PIDS
    made := s.made + 1 }

/-- the rest of `fork`: a thread shares its maker's group and parent, a process is its maker's child -/
def register (id pid ppid : Nat) (thread : Bool) : World :=
  { s with
    tasks := change s.tasks me.id (setPlace .running) ++
      [{ id := id, pid := pid, tgid := if thread then me.tgid else pid,
         ppid := if thread then ppid else me.tgid, pgid := me.pgid,
         group := if thread then me.group else id, place := .running, exitCode := 0,
         releasedAtExit := false, waits := me.waits }] }

/-- the first status set is kept; any task may call `exit_group` here -/
def endThreadGroup (group : Nat) (status : Int) : World :=
  { s with
    status := fun g => if g = group then some ((s.status g).getD status) else s.status g
    past := .ended group status :: s.past }

def exitCurrent (status : Int) : World :=
  { s with
    tasks := change s.tasks me.id (setPlace (.leaving status))
    past := .left me.id status :: s.past }

def exitGroup (status : Int) : World :=
  (s.endThreadGroup me.group status).exitCurrent me ((s.status me.group).getD status)

def setCode (code : Int) : World :=
  { s with tasks := change s.tasks me.id fun t => { t with exitCode := code, place := .coded } }

def die : World :=
  { s with tasks := handOn (becomeZombie s.tasks me) me.tgid }

/-- the group of a finished child out of the table, and its status returned -/
def reapChild (want : Int) : World :=
  match s.tasks.find? fun t =>
    isChildProcess t me.tgid && matchesWant t want && finishedProcess s.tasks t with
  | some leader =>
    { s with
      tasks := s.tasks.filter (·.tgid != leader.tgid)
      past := .returned leader.id leader.pid ((s.status leader.group).getD leader.exitCode) ::
        releasedOf (s.tasks.filter fun t => t.tgid == leader.tgid && t.id != leader.id) ++ s.past }
  | none => s

def reapDeadThreads (cur : Nat) : World :=
  { s with
    tasks := s.tasks.filter fun t => !unwaited cur t
    past := releasedOf (s.tasks.filter (unwaited cur)) ++ s.past }

end

def boot : World where
  tasks := [⟨0, 0, 0, 0, 0, 0, .running, 0, false, true⟩, ⟨1, 1, 1, 0, 1, 1, .running, 0, false, true⟩]
  status _ := none
  nextPid := 2
  made := 2
  past := []

end World

inductive Move where
  | fork (me : Member) (thread : Bool)
  | register (me : Member) (id pid ppid : Nat) (thread : Bool)
  | exitGroup (me : Member) (status : Int)
  | kill (target : Member)
  | exit (me : Member) (status : Int)
  | readGroup (me : Member) (status : Int)
  | setCode (me : Member) (group : Option Int) (status : Int)
  | die (me : Member)
  | wait (me : Member) (want : Int)
  /-- `reap_dead_threads`, on the way out of a call and before a task is registered or exits -/
  | reap (me : Member)
  | sigaction (me : Member) (waits : Bool)
  | setpgid (target : Member) (pgid : Nat)

namespace Move

def run (s : World) : Move → World
  | fork me thread => s.fork me thread
  | register me id pid ppid thread => s.register me id pid ppid thread
  | exitGroup me status => s.exitGroup me status
  | kill target => s.endThreadGroup target.group 9
  | exit me status => s.exitCurrent me status
  | readGroup me status => s.place me.id (.reading (s.status me.group) status)
  | setCode me group status => s.setCode me (group.getD status)
  | die me => s.die me
  | wait me want => s.reapChild me want
  | reap me => s.reapDeadThreads me.id
  | sigaction me waits => { s with tasks := change s.tasks me.id fun t => { t with waits := waits } }
  | setpgid target pgid => { s with tasks := change s.tasks target.id fun t => { t with pgid := pgid } }

def Enabled (s : World) : Move → Prop
  | fork me _ | exitGroup me _ | exit me _ | wait me _ => me ∈ s.tasks ∧ me.place = .running
  | register me id pid ppid thread => me ∈ s.tasks ∧ me.place = .making id pid ppid thread
  | readGroup me status => me ∈ s.tasks ∧ me.place = .leaving status
  | setCode me group status => me ∈ s.tasks ∧ me.place = .reading group status
  | die me => me ∈ s.tasks ∧ me.place = .coded ∧ me.pid ≠ 1
  | reap me | sigaction me _ => me ∈ s.tasks ∧ me.place ≠ .gone
  | kill target | setpgid target _ => target ∈ s.tasks

/-- a task is made while the counter has not handed out all its numbers -/
def Fits (s : World) : Move → Prop
  | fork _ _ => s.made < PIDS
  | _ => True

instance (s : World) (move : Move) : Decidable (move.Enabled s) :=
  match move with
  | fork _ _ | exitGroup _ _ | exit _ _ | wait _ _ => inferInstanceAs (Decidable (_ ∧ _))
  | register _ _ _ _ _ | readGroup _ _ | setCode _ _ _ => inferInstanceAs (Decidable (_ ∧ _))
  | die _ => inferInstanceAs (Decidable (_ ∧ _ ∧ _))
  | reap _ | sigaction _ _ => inferInstanceAs (Decidable (_ ∧ _))
  | kill _ | setpgid _ _ => inferInstanceAs (Decidable (_ ∈ _))

instance (s : World) (move : Move) : Decidable (move.Fits s) :=
  match move with
  | fork _ _ => inferInstanceAs (Decidable (_ < _))
  | register _ _ _ _ _ | exitGroup _ _ | kill _ | exit _ _ | readGroup _ _ | setCode _ _ _ | die _
  | wait _ _ | reap _ | sigaction _ _ | setpgid _ _ => inferInstanceAs (Decidable True)

end Move

inductive World.Reached (allowed : World → Move → Prop) : World → Prop
  | boot : World.Reached allowed boot
  | step {s : World} (move : Move) : World.Reached allowed s → move.Enabled s → allowed s move →
      World.Reached allowed (move.run s)

/-! ## what the past says -/

def Event.collected : Event → Option Nat
  | .returned id _ _ | .released id => some id
  | .ended _ _ | .left _ _ => none

def Event.endedWith (group : Nat) : Event → Option Int
  | .ended g status => if g = group then some status else none
  | _ => none

def Event.leftWith (id : Nat) : Event → Option Int
  | .left i status => if i = id then some status else none
  | _ => none

def first (ask : Event → Option Int) : List Event → Option Int
  | [] => none
  | e :: past => (first ask past).or (ask e)

/-- the status a process is to be collected with: the first its group was ended with, or else the one
its leader left with -/
def Right (past : List Event) (id : Nat) (status : Int) : Prop :=
  ∃ code, first (leftWith id) past = some code ∧
    status = (first (endedWith id) past).getD code

def Told : List Event → Prop
  | [] => True
  | .returned id _ status :: past => Right past id status ∧ Told past
  | _ :: past => Told past

variable {e : Event} {tasks : List Member} {id pid : Nat} {past : List Event} {status : Int}
  {t : Member} {f : Member → Member} {s : World} {allowed : World → Move → Prop}

section
variable {ask : Event → Option Int} {past : List Event}

lemma first_cons (h : ask e = none) : first ask (e :: past) = first ask past := by
  rw [first, h, Option.or_none]

lemma first_append {events : List Event} (h : ∀ e ∈ events, ask e = none) :
    first ask (events ++ past) = first ask past := by
  induction events with
  | nil => rfl
  | cons e events ih =>
    rw [cons_append, first_cons (h e (mem_cons_self ..))]
    exact ih fun e' he' => h e' (mem_cons_of_mem _ he')

end

lemma collected_releasedOf (tasks : List Member) : (releasedOf tasks).filterMap collected =
      (tasks.filter fun t => t.pid == t.tgid).map Member.id := by
  rw [releasedOf, filterMap_map, ← filterMap_eq_map]
  rfl

lemma quiet_releasedOf (he : e ∈ releasedOf tasks) (i : Nat) :
    e.endedWith i = none ∧ e.leftWith i = none := by
  obtain ⟨t, -, rfl⟩ := mem_map.mp he
  exact ⟨rfl, rfl⟩

lemma Right.releasedOf (h : Right past id status) (tasks : List Member) :
    Right (releasedOf tasks ++ past) id status := by
  obtain ⟨code, hleft, hstatus⟩ := h
  refine ⟨code, ?_, ?_⟩
  · rw [first_append fun e he => (quiet_releasedOf he id).2, hleft]
  · rw [first_append fun e he => (quiet_releasedOf he id).1, hstatus]

lemma Told.releasedOf (T : Told past) (tasks : List Member) : Told (releasedOf tasks ++ past) := by
  rw [Exit.releasedOf]
  induction tasks.filter fun t => t.pid == t.tgid with
  | nil => exact T
  | cons t tasks ih => exact ih

lemma Told.of_append {before after : List Event} (T : Told past)
    (h : past = after ++ .returned id pid status :: before) : Right before id status := by
  subst h
  induction after with
  | nil => exact T.1
  | cons e after ih =>
    refine ih ?_
    cases e with
    | returned => exact T.2
    | _ => exact T

/-! ## what every step keeps -/

def Member.Accounted (t : Member) (status left : Option Int) : Prop :=
  match t.place with
  | .running | .making .. => left = none
  | .leaving code => left = some code
  | .reading group code => left = some code ∧ (status = none → group = none)
  | .coded | .gone => ∃ code, left = some code ∧ (status = none → t.exitCode = code)

lemma Member.Accounted.mono {status status' left : Option Int} (h : t.Accounted status left)
    (hmono : status' = none → status = none) : t.Accounted status' left := by
  rw [Member.Accounted] at h ⊢
  split at h
  · exact h
  · exact h
  · exact h
  · exact ⟨h.1, fun hnone => h.2 (hmono hnone)⟩
  · obtain ⟨code, hleft, hcode⟩ := h
    exact ⟨code, hleft, fun hnone => hcode (hmono hnone)⟩
  · obtain ⟨code, hleft, hcode⟩ := h
    exact ⟨code, hleft, fun hnone => hcode (hmono hnone)⟩

/-- a number handed out to a task that is not registered yet -/
structure World.Fresh (s : World) (id : Nat) : Prop where
  absent : ∀ t ∈ s.tasks, t.id ≠ id
  uncollected : id ∉ s.past.filterMap collected
  staying : first (leftWith id) s.past = none

/-- what is known of a task of the table, as long as the counter has not gone round -/
structure Member.Known (made : Nat) (t : Member) : Prop where
  old : t.id < made
  pid : t.pid = t.id
  tgid : t.tgid ≤ t.id
  group : t.tgid = t.id → t.group = t.id

/-- every number is handed out once, to one task or to a clone under way, and is collected once -/
structure World.Accounts (s : World) : Prop where
  room : s.made ≤ PIDS
  counter : s.nextPid = s.made % PIDS
  ids : (s.tasks.map Member.id).Nodup
  known : ∀ t ∈ s.tasks, t.Known s.made
  unmade : ∀ t ∈ s.tasks, ∀ id pid, t.place.makes = some (id, pid) →
    t.id < id ∧ id < s.made ∧ pid = id ∧ s.Fresh id
  makers : ∀ t ∈ s.tasks, ∀ u ∈ s.tasks, ∀ id pid pid', t.place.makes = some (id, pid) →
    u.place.makes = some (id, pid') → t.id = u.id
  collected : (s.past.filterMap Event.collected).Nodup
  apart : ∀ id ∈ s.past.filterMap Event.collected, id < s.made ∧ ∀ t ∈ s.tasks, t.id ≠ id
  unborn : ∀ id, s.made ≤ id → first (Event.leftWith id) s.past = none
  cells : ∀ g, s.status g = first (Event.endedWith g) s.past
  codes : ∀ t ∈ s.tasks, t.Accounted (s.status t.group) (first (Event.leftWith t.id) s.past)
  told : Told s.past

structure Member.Same (t t' : Member) : Prop where
  id : t'.id = t.id
  pid : t'.pid = t.pid
  tgid : t'.tgid = t.tgid
  group : t'.group = t.group

structure Member.Kept (t t' : Member) : Prop extends Member.Same t t' where
  place : t'.place = t.place
  exitCode : t'.exitCode = t.exitCode

section
variable {s : World} {me : Member}

lemma map_id_change (tasks : List Member) (id : Nat) (hf : ∀ t, (f t).id = t.id) :
    (change tasks id f).map Member.id = tasks.map Member.id := by
  rw [change, map_map]
  refine map_congr_left fun t _ => ?_
  rw [Function.comp_apply]
  split
  · exact hf t
  · rfl

lemma World.Accounts.eq_of_id (A : s.Accounts) {u : Member} (ht : t ∈ s.tasks) (hu : u ∈ s.tasks)
    (h : t.id = u.id) : t = u :=
  inj_on_of_nodup_map A.ids ht hu h

lemma World.Accounts.mem_change (A : s.Accounts) (hme : me ∈ s.tasks)
    (ht : t ∈ change s.tasks me.id f) : t ∈ s.tasks ∧ t.id ≠ me.id ∨ t = f me := by
  obtain ⟨u, hu, rfl⟩ := mem_map.mp ht
  by_cases hid : u.id = me.id
  · rw [if_pos hid, A.eq_of_id hu hme hid]
    exact .inr rfl
  · rw [if_neg hid]
    exact .inl ⟨hu, hid⟩

lemma Member.Known.same {made : Nat} {t' : Member} (K : t.Known made) (h : t.Same t') :
    t'.Known made :=
  ⟨h.id ▸ K.old, by rw [h.pid, h.id, K.pid], by rw [h.tgid, h.id]; exact K.tgid,
    fun e => by rw [h.group, h.id]; exact K.group (by rw [← h.tgid, ← h.id, e])⟩

/-- nothing happened that the accounts would see, other than to `me` -/
structure Quiet (me : Member) (past past' : List Event) : Prop where
  collected : past'.filterMap collected = past.filterMap collected
  ended : ∀ g, first (endedWith g) past' = first (endedWith g) past
  left : ∀ id, id ≠ me.id → first (leftWith id) past' = first (leftWith id) past
  told : Told past → Told past'

lemma Quiet.refl (past : List Event) : Quiet me past past := ⟨rfl, fun _ => rfl, fun _ _ => rfl, id⟩

section
variable (A : s.Accounts)
include A

section
variable (hme : me ∈ s.tasks)
include hme

lemma World.Accounts.change (Q : Quiet me s.past past) (hid : ∀ t, (f t).id = t.id)
    (hf : me.Same (f me))
    (hmakes : ∀ id pid, (f me).place.makes = some (id, pid) → (me.id < id ∧ id < s.made ∧ pid = id ∧
      s.Fresh id) ∧ ∀ u ∈ s.tasks, ∀ pid', u.place.makes ≠ some (id, pid'))
    (hcode : (f me).Accounted (s.status me.group) (first (Event.leftWith me.id) past)) :
    World.Accounts { s with tasks := Exit.change s.tasks me.id f, past := past } := by
  have hids := map_id_change s.tasks me.id hid
  have habsent : ∀ id, (∀ t ∈ s.tasks, t.id ≠ id) → ∀ t ∈ Exit.change s.tasks me.id f, t.id ≠ id := by
    intro id h t ht
    rcases A.mem_change hme ht with ⟨ht, -⟩ | rfl
    · exact h t ht
    · rw [hid]
      exact h me hme
  have hfresh : ∀ id, s.Fresh id →
      World.Fresh { s with tasks := Exit.change s.tasks me.id f, past := past } id := by
    intro id F
    refine ⟨habsent id F.absent, ?_, ?_⟩
    · show id ∉ past.filterMap Event.collected
      rw [Q.collected]
      exact F.uncollected
    · exact (Q.left id fun h => F.absent me hme h.symm).trans F.staying
  constructor
  · exact A.room
  · exact A.counter
  · exact hids ▸ A.ids
  · intro t ht
    rcases A.mem_change hme ht with ⟨ht, -⟩ | rfl
    · exact A.known t ht
    · exact (A.known me hme).same hf
  · intro t ht id pid htmakes
    rcases A.mem_change hme ht with ⟨ht, -⟩ | rfl
    · obtain ⟨hlt, hmade, hpid, F⟩ := A.unmade t ht id pid htmakes
      exact ⟨hlt, hmade, hpid, hfresh id F⟩
    · obtain ⟨⟨hlt, hmade, hpid, F⟩, -⟩ := hmakes id pid htmakes
      exact ⟨by rw [hid]; exact hlt, hmade, hpid, hfresh id F⟩
  · intro t ht u hu id pid pid' htmakes humakes
    rcases A.mem_change hme ht with ⟨ht, -⟩ | rfl
    · rcases A.mem_change hme hu with ⟨hu, -⟩ | rfl
      · exact A.makers t ht u hu id pid pid' htmakes humakes
      · exact absurd htmakes ((hmakes id pid' humakes).2 t ht pid)
    · rcases A.mem_change hme hu with ⟨hu, -⟩ | rfl
      · exact absurd humakes ((hmakes id pid htmakes).2 u hu pid')
      · rfl
  · exact Q.collected ▸ A.collected
  · intro id hin
    have hin' : id ∈ s.past.filterMap Event.collected := Q.collected ▸ hin
    exact ⟨(A.apart id hin').1, habsent id (A.apart id hin').2⟩
  · intro id hle
    have hne : id ≠ me.id := ne_of_gt (lt_of_lt_of_le (A.known me hme).old hle)
    exact (Q.left id hne).trans (A.unborn id hle)
  · intro g
    exact (A.cells g).trans (Q.ended g).symm
  · intro t ht
    rcases A.mem_change hme ht with ⟨ht, hne⟩ | rfl
    · show t.Accounted (s.status t.group) (first (Event.leftWith t.id) past)
      rw [Q.left t.id hne]
      exact A.codes t ht
    · rw [hf.group, hf.id]
      exact hcode
  · exact Q.told A.told

lemma World.Accounts.moved (hid : ∀ t, (f t).id = t.id) (hf : me.Same (f me))
    (hmakes : (f me).place.makes = none)
    (hcode : (f me).Accounted (s.status me.group) (first (leftWith me.id) s.past)) :
    World.Accounts { s with tasks := Exit.change s.tasks me.id f } := by
  refine A.change hme (.refl s.past) hid hf (fun id pid h => ?_) hcode
  rw [hmakes] at h
  cases h

lemma World.Accounts.fork (hplace : me.place = .running) (hroom : s.made < PIDS) (thread : Bool) :
    (s.fork me thread).Accounts := by
  have hpid : s.nextPid = s.made := by rw [A.counter, mod_eq_of_lt hroom]
  have hold : ∀ t ∈ s.tasks, t.id < s.made := fun t ht => (A.known t ht).old
  have grown : World.Accounts
      { s with nextPid := (s.nextPid + 1) % PIDS, made := s.made + 1 } := by
    refine ⟨hroom, by rw [hpid], A.ids, fun t ht => ?_, fun t ht id pid h => ?_, A.makers, A.collected,
      fun id hin => ?_, fun id hle => A.unborn id (le_of_succ_le hle), A.cells, A.codes, A.told⟩
    · have K := A.known t ht
      exact ⟨lt_succ_of_lt K.old, K.pid, K.tgid, K.group⟩
    · obtain ⟨hlt, hmade, hp, F⟩ := A.unmade t ht id pid h
      exact ⟨hlt, lt_succ_of_lt hmade, hp, F.absent, F.uncollected, F.staying⟩
    · exact ⟨lt_succ_of_lt (A.apart id hin).1, (A.apart id hin).2⟩
  refine grown.change hme (.refl s.past) (fun _ => rfl) ⟨rfl, rfl, rfl, rfl⟩ ?_ ?_
  · intro id pid h
    obtain ⟨rfl, rfl⟩ := Prod.mk.inj (Option.some.inj h)
    refine ⟨⟨hold me hme, lt_succ_self _, hpid, ?_⟩, fun u hu pid' humakes => ?_⟩
    · refine ⟨fun t ht h => ?_, fun hin => ?_, A.unborn _ (le_refl _)⟩
      · have := hold t ht
        omega
      · have := (A.apart _ hin).1
        omega
    · have := (A.unmade u hu _ _ humakes).2.1
      omega
  · have := A.codes me hme
    rw [Member.Accounted, hplace] at this
    exact this

omit hme in
lemma World.Accounts.admit {child : Member} (K : child.Known s.made)
    (F : s.Fresh child.id) (hplace : child.place = .running)
    (hmakers : ∀ u ∈ s.tasks, ∀ pid, u.place.makes ≠ some (child.id, pid)) :
    World.Accounts { s with tasks := s.tasks ++ [child] } := by
  have hmem : ∀ {t : Member}, t ∈ s.tasks ++ [child] → t ∈ s.tasks ∨ t = child := by
    intro t ht
    simpa only [mem_append, mem_singleton] using ht
  have hquiet : ∀ {id pid : Nat}, child.place.makes ≠ some (id, pid) := by
    intro id pid h
    rw [hplace] at h
    cases h
  constructor
  · exact A.room
  · exact A.counter
  · show ((s.tasks ++ [child]).map Member.id).Nodup
    rw [map_append, map_singleton, nodup_append]
    refine ⟨A.ids, nodup_singleton _, fun i hi j hj => ?_⟩
    obtain ⟨t, ht, rfl⟩ := mem_map.mp hi
    rw [mem_singleton.mp hj]
    exact F.absent t ht
  · intro t ht
    rcases hmem ht with ht | rfl
    · exact A.known t ht
    · exact K
  · intro t ht id pid htmakes
    rcases hmem ht with ht | rfl
    · obtain ⟨hlt, hmade, hpid, F'⟩ := A.unmade t ht id pid htmakes
      refine ⟨hlt, hmade, hpid, fun u hu => ?_, F'.uncollected, F'.staying⟩
      rcases hmem hu with hu | hchild
      · exact F'.absent u hu
      · intro hid
        rw [← hid, hchild] at htmakes
        exact hmakers t ht pid htmakes
    · exact absurd htmakes hquiet
  · intro t ht u hu id pid pid' htmakes humakes
    rcases hmem ht with ht | rfl
    · rcases hmem hu with hu | rfl
      · exact A.makers t ht u hu id pid pid' htmakes humakes
      · exact absurd humakes hquiet
    · exact absurd htmakes hquiet
  · exact A.collected
  · intro id hin
    refine ⟨(A.apart id hin).1, fun t ht => ?_⟩
    rcases hmem ht with ht | rfl
    · exact (A.apart id hin).2 t ht
    · rintro rfl
      exact F.uncollected hin
  · exact A.unborn
  · exact A.cells
  · intro t ht
    rcases hmem ht with ht | rfl
    · exact A.codes t ht
    · rw [Member.Accounted, hplace]
      exact F.staying
  · exact A.told

lemma World.Accounts.register {ppid : Nat} {thread : Bool}
    (hplace : me.place = .making id pid ppid thread) :
    (s.register me id pid ppid thread).Accounts := by
  have hmakes : me.place.makes = some (id, pid) := by rw [hplace, Place.makes]
  obtain ⟨hlt, hmade, hpid, F⟩ := A.unmade me hme id pid hmakes
  have K := A.known me hme
  have hcode := A.codes me hme
  rw [Member.Accounted, hplace] at hcode
  have back : World.Accounts { s with tasks := Exit.change s.tasks me.id (setPlace .running) } :=
    A.moved hme (fun _ => rfl) ⟨rfl, rfl, rfl, rfl⟩ rfl hcode
  have habsent : ∀ t ∈ Exit.change s.tasks me.id (setPlace .running), t.id ≠ id := by
    intro t ht
    rcases A.mem_change hme ht with ⟨ht, -⟩ | rfl
    · exact F.absent t ht
    · exact F.absent me hme
  refine back.admit ⟨hmade, hpid, ?_, ?_⟩ ⟨habsent, F.uncollected, F.staying⟩ rfl ?_
  · -- a thread is younger than its group, a process as old
    show (if thread = true then me.tgid else pid) ≤ id
    split
    · exact le_of_lt (lt_of_le_of_lt K.tgid hlt)
    · exact le_of_eq hpid
  · show (if thread = true then me.tgid else pid) = id → (if thread = true then me.group else id) = id
    split
    · intro h
      have := K.tgid
      omega
    · exact fun _ => rfl
  · intro u hu pid' humakes
    rcases A.mem_change hme hu with ⟨hu, hne⟩ | rfl
    · exact hne (A.makers u hu me hme id pid' pid humakes hmakes)
    · cases humakes

omit hme in
lemma World.Accounts.endThreadGroup (group : Nat) (status : Int) :
    (s.endThreadGroup group status).Accounts := by
  have hleft : ∀ id, first (leftWith id) (.ended group status :: s.past) =
      first (leftWith id) s.past := fun id => first_cons rfl
  refine ⟨A.room, A.counter, A.ids, A.known, fun t ht id pid h => ?_, A.makers, A.collected, A.apart,
    fun id hle => (hleft id).trans (A.unborn id hle), fun g => ?_, fun t ht => ?_, A.told⟩
  · obtain ⟨hlt, hmade, hpid, F⟩ := A.unmade t ht id pid h
    exact ⟨hlt, hmade, hpid, F.absent, F.uncollected, (hleft id).trans F.staying⟩
  · show (if g = group then _ else s.status g) = first _ (_ :: _)
    rw [first, endedWith, ← A.cells g]
    by_cases hg : g = group
    · rw [if_pos hg, if_pos hg.symm]
      cases s.status g <;> rfl
    · rw [if_neg hg, if_neg fun h => hg h.symm, Option.or_none]
  · show t.Accounted (if t.group = group then _ else s.status t.group) (first _ (_ :: _))
    rw [hleft]
    refine (A.codes t ht).mono fun hnone => ?_
    split at hnone
    · cases hnone
    · exact hnone

lemma World.Accounts.exitCurrent (hplace : me.place = .running) (status : Int) :
    (s.exitCurrent me status).Accounts := by
  have hcode := A.codes me hme
  rw [Member.Accounted, hplace] at hcode
  have Q : Quiet me s.past (.left me.id status :: s.past) :=
    ⟨rfl, fun g => first_cons rfl, fun id hne => first_cons (if_neg fun h => hne h.symm), id⟩
  refine A.change hme Q (fun _ => rfl) ⟨rfl, rfl, rfl, rfl⟩ (fun id pid h => ?_) ?_
  · cases h
  · show first (leftWith me.id) (_ :: _) = some status
    rw [first, hcode, leftWith, if_pos rfl, Option.none_or]

end

lemma World.Accounts.remove (keep : Member → Bool) (events : List Event)
    (hquiet : ∀ e ∈ events, ∀ i, e.endedWith i = none ∧ e.leftWith i = none)
    (hnodup : (events.filterMap Event.collected).Nodup)
    (hout : ∀ i ∈ events.filterMap Event.collected, ∃ t ∈ s.tasks, t.id = i ∧ keep t = false)
    (htold : Told (events ++ s.past)) :
    World.Accounts { s with tasks := s.tasks.filter keep, past := events ++ s.past } := by
  have hmem : ∀ {t : Member}, t ∈ s.tasks.filter keep → t ∈ s.tasks := fun ht => mem_of_mem_filter ht
  have hleft : ∀ i, first (Event.leftWith i) (events ++ s.past) = first (Event.leftWith i) s.past :=
    fun i => first_append fun e he => (hquiet e he i).2
  have hended : ∀ i, first (Event.endedWith i) (events ++ s.past) = first (Event.endedWith i) s.past :=
    fun i => first_append fun e he => (hquiet e he i).1
  have hin : ∀ {i}, i ∈ (events ++ s.past).filterMap Event.collected →
      i ∈ events.filterMap Event.collected ∨ i ∈ s.past.filterMap Event.collected := by
    intro i hi
    rwa [filterMap_append, mem_append] at hi
  constructor
  · exact A.room
  · exact A.counter
  · exact (filter_sublist.map Member.id).nodup A.ids
  · exact fun t ht => A.known t (hmem ht)
  · intro t ht id pid h
    obtain ⟨hlt, hmade, hpid, F⟩ := A.unmade t (hmem ht) id pid h
    refine ⟨hlt, hmade, hpid, fun u hu => F.absent u (hmem hu), fun hi => ?_, (hleft id).trans F.staying⟩
    rcases hin hi with hi | hi
    · obtain ⟨u, hu, hid, -⟩ := hout id hi
      exact F.absent u hu hid
    · exact F.uncollected hi
  · exact fun t ht u hu => A.makers t (hmem ht) u (hmem hu)
  · show ((events ++ s.past).filterMap Event.collected).Nodup
    rw [filterMap_append, nodup_append]
    refine ⟨hnodup, A.collected, fun i hi j hj => ?_⟩
    obtain ⟨t, ht, rfl, -⟩ := hout i hi
    exact (A.apart j hj).2 t ht
  · intro i hi
    rcases hin hi with hi | hi
    · obtain ⟨t, ht, rfl, hkeep⟩ := hout i hi
      refine ⟨(A.known t ht).old, fun u hu hid => ?_⟩
      have := (mem_filter.mp hu).2
      rw [A.eq_of_id (hmem hu) ht hid, hkeep] at this
      cases this
    · exact ⟨(A.apart i hi).1, fun t ht => (A.apart i hi).2 t (hmem ht)⟩
  · exact fun id hle => (hleft id).trans (A.unborn id hle)
  · exact fun g => (A.cells g).trans (hended g).symm
  · intro t ht
    rw [hleft]
    exact A.codes t (hmem ht)
  · exact htold

lemma World.Accounts.reapDeadThreads (cur : Nat) : (s.reapDeadThreads cur).Accounts := by
  refine A.remove _ _ (fun e he i => quiet_releasedOf he i) ?_ (fun i hi => ?_) (A.told.releasedOf _)
  · rw [collected_releasedOf]
    exact ((filter_sublist.trans filter_sublist).map Member.id).nodup A.ids
  · rw [collected_releasedOf] at hi
    obtain ⟨t, ht, rfl⟩ := mem_map.mp hi
    obtain ⟨ht, hunwaited⟩ := mem_filter.mp (mem_of_mem_filter ht)
    exact ⟨t, ht, rfl, by rw [hunwaited]; rfl⟩

lemma World.Accounts.reapChild (me : Member) (want : Int) : (s.reapChild me want).Accounts := by
  rw [World.reapChild]
  split
  · next leader hfind =>
    have hleader := mem_of_find?_eq_some hfind
    have hask := find?_some hfind
    simp only [isChildProcess, finishedProcess, Member.zombie, Bool.and_eq_true, beq_iff_eq,
      decide_eq_true_eq] at hask
    obtain ⟨⟨⟨⟨-, htgid⟩, -⟩, -⟩, hgone, -⟩ := hask
    have K := A.known leader hleader
    have hgroup : leader.group = leader.id := K.group (by rw [← htgid, K.pid])
    obtain ⟨code, hleft, hcode⟩ : ∃ code, first (Event.leftWith leader.id) s.past = some code ∧
        (s.status leader.group = none → leader.exitCode = code) := by
      have := A.codes leader hleader
      rw [Member.Accounted, hgone] at this
      exact this
    have hright : Right s.past leader.id ((s.status leader.group).getD leader.exitCode) := by
      refine ⟨code, hleft, ?_⟩
      rw [← A.cells leader.id, ← hgroup]
      cases hstatus : s.status leader.group with
      | none => exact hcode hstatus
      | some status => rfl
    let rest := s.tasks.filter fun t => t.tgid == leader.tgid && t.id != leader.id
    have hrest : ∀ t ∈ rest, t ∈ s.tasks ∧ t.tgid = leader.tgid ∧ t.id ≠ leader.id := by
      intro t ht
      obtain ⟨ht, hpick⟩ := mem_filter.mp ht
      simp only [Bool.and_eq_true, beq_iff_eq, bne_iff_ne] at hpick
      exact ⟨ht, hpick⟩
    have hcollected : ∀ status, (Event.returned leader.id leader.pid status :: releasedOf rest).filterMap
        Event.collected = leader.id :: (rest.filter fun t => t.pid == t.tgid).map Member.id := by
      intro status
      rw [← collected_releasedOf]
      rfl
    refine A.remove _ (.returned leader.id leader.pid _ :: releasedOf rest) ?_ ?_ ?_ ?_
    · intro e he i
      rcases mem_cons.mp he with rfl | he
      · exact ⟨rfl, rfl⟩
      · exact quiet_releasedOf he i
    · rw [hcollected, nodup_cons]
      refine ⟨fun hin => ?_, ?_⟩
      · obtain ⟨t, ht, hid⟩ := mem_map.mp hin
        exact (hrest t (mem_of_mem_filter ht)).2.2 hid
      · exact ((filter_sublist.trans filter_sublist).map Member.id).nodup A.ids
    · intro i hi
      rw [hcollected] at hi
      rcases mem_cons.mp hi with rfl | hi
      · exact ⟨leader, hleader, rfl, bne_self_eq_false _⟩
      · obtain ⟨t, ht, rfl⟩ := mem_map.mp hi
        obtain ⟨ht, htgid', -⟩ := hrest t (mem_of_mem_filter ht)
        exact ⟨t, ht, rfl, by rw [htgid', bne_self_eq_false]⟩
    · exact ⟨hright.releasedOf rest, A.told.releasedOf rest⟩
  · exact A

end
end

/-! ## the section that makes a zombie -/

structure Steady (tasks tasks' : List Member) : Prop where
  ids : tasks'.map Member.id = tasks.map Member.id
  mem : ∀ t' ∈ tasks', ∃ t ∈ tasks, t.Kept t'

namespace Steady
variable {tasks tasks' tasks'' : List Member}

lemma refl (tasks : List Member) : Steady tasks tasks :=
  ⟨rfl, fun t ht => ⟨t, ht, ⟨rfl, rfl, rfl, rfl⟩, rfl, rfl⟩⟩

lemma trans (h : Steady tasks tasks') (h' : Steady tasks' tasks'') : Steady tasks tasks'' := by
  refine ⟨h'.ids.trans h.ids, fun t'' ht'' => ?_⟩
  obtain ⟨t', ht', k'⟩ := h'.mem t'' ht''
  obtain ⟨t, ht, k⟩ := h.mem t' ht'
  exact ⟨t, ht, ⟨k'.id.trans k.id, k'.pid.trans k.pid, k'.tgid.trans k.tgid, k'.group.trans k.group⟩,
    k'.place.trans k.place, k'.exitCode.trans k.exitCode⟩

variable (tasks : List Member)

lemma change (id : Nat) (hf : ∀ t : Member, t.Kept (f t)) : Steady tasks (change tasks id f) := by
  refine ⟨map_id_change tasks id fun t => (hf t).id, fun t' ht' => ?_⟩
  obtain ⟨t, ht, rfl⟩ := mem_map.mp ht'
  refine ⟨t, ht, ?_⟩
  split
  · exact hf t
  · exact ⟨⟨rfl, rfl, rfl, rfl⟩, rfl, rfl⟩

lemma notifyParentOfExit (leader : Member) : Steady tasks (notifyParentOfExit tasks leader) := by
  rw [Exit.notifyParentOfExit]
  split
  · split
    · exact refl tasks
    · exact change tasks _ fun t => ⟨⟨rfl, rfl, rfl, rfl⟩, rfl, rfl⟩
  · exact refl tasks

lemma adopt (tgid : Nat) (tasks : List Member) (id : Nat) : Steady tasks (adopt tgid tasks id) := by
  have hparent : Steady tasks (Exit.change tasks id (setParent 1)) :=
    change tasks id fun t => ⟨⟨rfl, rfl, rfl, rfl⟩, rfl, rfl⟩
  rw [Exit.adopt]
  split
  · split
    · dsimp only
      split
      · exact hparent.trans (notifyParentOfExit ..)
      · exact hparent
    · exact refl tasks
  · exact refl tasks

lemma adopts (tgid : Nat) (tasks : List Member) (ids : List Nat) :
    Steady tasks (ids.foldl (Exit.adopt tgid) tasks) := by
  induction ids generalizing tasks with
  | nil => exact refl tasks
  | cons id ids ih => exact (adopt tgid tasks id).trans (ih _)

lemma handOn (tgid : Nat) : Steady tasks (handOn tasks tgid) := by
  rw [Exit.handOn]
  split
  · exact adopts tgid tasks _
  · exact refl tasks

lemma becomeZombie (t : Member) :
    Steady (Exit.change tasks t.id (setPlace .gone)) (becomeZombie tasks t) := by
  rw [Exit.becomeZombie]
  split
  · split
    · exact notifyParentOfExit ..
    · exact refl _
  · exact refl _

end Steady

section
variable {s : World} {me : Member}

lemma World.Accounts.steady (A : s.Accounts) (h : Steady s.tasks tasks) :
    World.Accounts { s with tasks := tasks } := by
  have habsent : ∀ id, (∀ t ∈ s.tasks, t.id ≠ id) → ∀ t ∈ tasks, t.id ≠ id := by
    intro id hid t' ht'
    obtain ⟨t, ht, k⟩ := h.mem t' ht'
    rw [k.id]
    exact hid t ht
  refine ⟨A.room, A.counter, h.ids ▸ A.ids, ?_, ?_, ?_, A.collected,
    fun id hin => ⟨(A.apart id hin).1, habsent id (A.apart id hin).2⟩, A.unborn, A.cells, ?_, A.told⟩
  · intro t' ht'
    obtain ⟨t, ht, k⟩ := h.mem t' ht'
    exact (A.known t ht).same k.toSame
  · intro t' ht' id pid hmakes
    obtain ⟨t, ht, k⟩ := h.mem t' ht'
    obtain ⟨hlt, hmade, hpid, F⟩ := A.unmade t ht id pid (k.place ▸ hmakes)
    exact ⟨by rw [k.id]; exact hlt, hmade, hpid, habsent id F.absent, F.uncollected, F.staying⟩
  · intro t' ht' u' hu' id pid pid' htmakes humakes
    obtain ⟨t, ht, k⟩ := h.mem t' ht'
    obtain ⟨u, hu, l⟩ := h.mem u' hu'
    rw [k.id, l.id]
    exact A.makers t ht u hu id pid pid' (k.place ▸ htmakes) (l.place ▸ humakes)
  · intro t' ht'
    obtain ⟨t, ht, k⟩ := h.mem t' ht'
    have := A.codes t ht
    rw [Member.Accounted] at this ⊢
    rw [k.place, k.exitCode, k.id, k.group]
    exact this

lemma World.Accounts.die (A : s.Accounts) (hme : me ∈ s.tasks) (hplace : me.place = .coded) :
    (s.die me).Accounts := by
  have hcode := A.codes me hme
  rw [Member.Accounted, hplace] at hcode
  have zombie : World.Accounts { s with tasks := Exit.change s.tasks me.id (setPlace .gone) } :=
    A.moved hme (fun _ => rfl) ⟨rfl, rfl, rfl, rfl⟩ rfl hcode
  exact zombie.steady ((Steady.becomeZombie s.tasks me).trans (.handOn _ me.tgid))

/-- **every step keeps the accounts**, while the counter has numbers left -/
theorem Move.accounts (A : s.Accounts) {move : Move} (h : move.Enabled s) (hfits : move.Fits s) :
    (move.run s).Accounts := by
  cases move with
  | fork me thread => exact A.fork h.1 h.2 hfits thread
  | register me id pid ppid thread => exact A.register h.1 h.2
  | exitGroup me status =>
    exact (A.endThreadGroup me.group status).exitCurrent h.1 h.2 _
  | kill target => exact A.endThreadGroup target.group 9
  | exit me status => exact A.exitCurrent h.1 h.2 status
  | readGroup me status =>
    have hcode := A.codes me h.1
    rw [Member.Accounted, h.2] at hcode
    exact A.moved h.1 (fun _ => rfl) ⟨rfl, rfl, rfl, rfl⟩ rfl ⟨hcode, id⟩
  | setCode me group status =>
    have hcode := A.codes me h.1
    rw [Member.Accounted, h.2] at hcode
    refine A.moved h.1 (fun _ => rfl) ⟨rfl, rfl, rfl, rfl⟩ rfl ⟨status, hcode.1, fun hnone => ?_⟩
    show group.getD status = status
    rw [hcode.2 hnone]
    rfl
  | die me => exact A.die h.1 h.2.1
  | wait me want => exact A.reapChild me want
  | reap me => exact A.reapDeadThreads me.id
  | sigaction me waits => exact A.steady (.change _ _ fun t => ⟨⟨rfl, rfl, rfl, rfl⟩, rfl, rfl⟩)
  | setpgid target pgid => exact A.steady (.change _ _ fun t => ⟨⟨rfl, rfl, rfl, rfl⟩, rfl, rfl⟩)

lemma World.boot_accounts : boot.Accounts := by
  constructor
  · decide
  · decide
  · decide
  · intro t ht
    rcases mem_pair.mp ht with rfl | rfl
    · exact ⟨Nat.zero_lt_two, rfl, Nat.le_refl _, id⟩
    · exact ⟨Nat.one_lt_two, rfl, Nat.le_refl _, id⟩
  · intro t ht id pid hmakes
    rcases mem_pair.mp ht with rfl | rfl <;> cases hmakes
  · intro t ht u hu id pid pid' hmakes
    rcases mem_pair.mp ht with rfl | rfl <;> cases hmakes
  · exact nodup_nil
  · intro id hin
    cases hin
  · exact fun _ _ => rfl
  · exact fun _ => rfl
  · intro t ht
    rcases mem_pair.mp ht with rfl | rfl <;> rfl
  · trivial

lemma World.Reached.accounts (R : s.Reached fun s move => move.Fits s) : s.Accounts := by
  induction R with
  | boot => exact boot_accounts
  | step move _ h hfits A => exact move.accounts A h hfits

end

def World.Has (s : World) (id pid : Nat) : Prop :=
  (∃ t ∈ s.tasks, t.id = id ∧ t.pid = pid) ∨ ∃ t ∈ s.tasks, t.place.makes = some (id, pid)

lemma World.Accounts.pid_of_has (A : s.Accounts) (h : s.Has id pid) : pid = id := by
  rcases h with ⟨t, ht, rfl, rfl⟩ | ⟨t, ht, hmakes⟩
  · exact (A.known t ht).pid
  · exact (A.unmade t ht id pid hmakes).2.2.1

/-- **exited processes are collected once**: none is returned or released twice, none shares its
pid, and each comes with the first status its group was ended with, or its leader's -/
theorem exits_collected_once {s : World} (R : s.Reached fun s move => move.Fits s) :
    (s.past.filterMap collected).Nodup ∧
    (∀ z ∈ s.tasks, z.zombie = true → ∀ id, s.Has id z.pid → id = z.id) ∧
    ∀ before after id pid status, s.past = after ++ .returned id pid status :: before →
      Right before id status := by
  have A := R.accounts
  refine ⟨A.collected, fun z hz _ id h => ?_, fun before after id pid status h => A.told.of_append h⟩
  rw [← A.pid_of_has h, (A.known z hz).pid]

/-! ## a run, and the counter going round -/

def World.after (s : World) : List Move → World
  | [] => s
  | move :: moves => (move.run s).after moves

def World.Allows (allowed : World → Move → Prop) : World → List Move → Prop
  | _, [] => True
  | s, move :: moves => move.Enabled s ∧ allowed s move ∧ World.Allows allowed (move.run s) moves

lemma World.Reached.after (R : s.Reached allowed) {moves : List Move}
    (h : s.Allows allowed moves) : (s.after moves).Reached allowed := by
  induction moves generalizing s with
  | nil => exact R
  | cons move moves ih => exact ih (.step move R h.1 h.2.1) h.2.2

lemma World.Reached.mono {allowed' : World → Move → Prop}
    (h : ∀ s move, allowed s move → allowed' s move) (R : s.Reached allowed) :
    s.Reached allowed' := by
  induction R with
  | boot => exact .boot
  | step move _ henabled hallowed ih => exact .step move ih henabled (h _ _ hallowed)

def initAt (place : Place) : Member := ⟨1, 1, 1, 0, 1, 1, place, 0, false, true⟩

/-- the first process init makes, in a place -/
def childAt (place : Place) (exitCode : Int) : Member := ⟨2, 2, 2, 1, 1, 2, place, exitCode, false, true⟩

def threadAt (n : Nat) (place : Place) : Member := ⟨n, n, 1, 0, 1, 1, place, 0, false, true⟩

def firstExit : List Move :=
  [.fork (initAt .running) false, .register (initAt (.making 2 2 0 false)) 2 2 0 false,
    .exit (childAt .running 0) 1792, .readGroup (childAt (.leaving 1792) 0) 1792,
    .setCode (childAt (.reading none 1792) 0) none 1792, .die (childAt .coded 1792)]

lemma firstExit_allowed : boot.Allows (fun s move => move.Fits s) firstExit := by
  refine ⟨?_, ?_, ?_, ?_, ?_, ?_, ?_, ?_, ?_, ?_, ?_, ?_, trivial⟩
  all_goals decide

lemma firstExit_reached : (boot.after firstExit).Reached fun s move => move.Fits s :=
  World.Reached.boot.after firstExit_allowed

/-- init collects the exit of its first child -/
theorem exits_collected_once_firstExit :
    ((Move.wait (initAt .running) (-1)).run (boot.after firstExit)).past =
      [.returned 2 2 1792, .left 2 1792] ∧ Right [.left 2 1792] 2 1792 := by
  have R := World.Reached.step (.wait (initAt .running) (-1)) firstExit_reached (by decide) trivial
  exact ⟨rfl, (exits_collected_once R).2.2 [.left 2 1792] [] 2 2 1792 rfl⟩

/-- the table with init in a place and the exit of its child not collected -/
def uncollected (place : Place) : List Member :=
  [⟨0, 0, 0, 0, 0, 0, .running, 0, false, true⟩, initAt place, childAt .gone 1792]

def withThread (n : Nat) (place : Place) (past : List Event) : World :=
  ⟨uncollected .running ++ [threadAt n place], fun _ => none, (n + 1) % PIDS, n + 1, past⟩

section
variable {n : Nat} {past : List Event} {place : Place}

lemma change_thread (hn : 3 ≤ n) (f : Member → Member) :
    change (uncollected .running ++ [threadAt n place]) (threadAt n place).id f =
      uncollected .running ++ [f (threadAt n place)] := by
  have h : ∀ t ∈ uncollected .running, t.id < 3 := by decide
  rw [change, map_append, map_singleton, if_pos rfl]
  congr 1
  refine (map_congr_left fun t ht => if_neg ?_).trans (map_id _)
  exact Nat.ne_of_lt (Nat.lt_of_lt_of_le (h t ht) hn)

lemma die_thread (hn : 3 ≤ n) :
    die (withThread n .coded past) (threadAt n .coded) = withThread n .gone past := by
  have hzombie : becomeZombie (uncollected .running ++ [threadAt n .coded]) (threadAt n .coded) =
      uncollected .running ++ [threadAt n .gone] := by
    rw [becomeZombie, change_thread hn]
    exact if_neg Bool.false_ne_true
  rw [die, withThread, hzombie, handOn]
  exact congrArg (mk · _ _ _ past) (if_neg Bool.false_ne_true)

lemma reap_thread (hn : 3 ≤ n) : (withThread n .gone past).reapDeadThreads 1 =
    ⟨uncollected .running, fun _ => none, (n + 1) % PIDS, n + 1, past⟩ := by
  have h1 : n ≠ 1 := by omega
  have hthread : unwaited 1 (threadAt n .gone) = true := by
    simp [unwaited, threadAt, Member.zombie, h1]
  have hothers : ∀ t ∈ uncollected .running, unwaited 1 t = false := by decide
  have hkeep : (uncollected .running ++ [threadAt n .gone]).filter (fun t => !unwaited 1 t) =
      uncollected .running := by
    rw [filter_append, filter_eq_self.mpr fun t ht => by rw [hothers t ht]; rfl]
    simp [hthread]
  have hout : releasedOf ((uncollected .running ++ [threadAt n .gone]).filter (unwaited 1)) = [] := by
    have hnone : (uncollected .running).filter (unwaited 1) = [] := by decide
    rw [filter_append, hnone]
    simp [releasedOf, threadAt, h1]
  rw [reapDeadThreads]
  simp only [withThread, hkeep, hout, nil_append]

lemma lap (hn : 3 ≤ n) (hroom : n < PIDS)
    (R : World.Reached (fun _ _ => True) ⟨uncollected .running, fun _ => none, n % PIDS, n, past⟩) :
    World.Reached (fun _ _ => True)
      ⟨uncollected .running, fun _ => none, (n + 1) % PIDS, n + 1, .left n 0 :: past⟩ := by
  have hthread : ∀ place past, threadAt n place ∈ (withThread n place past).tasks :=
    fun _ _ => mem_append_right _ (mem_singleton.mpr rfl)
  rw [mod_eq_of_lt hroom] at R
  have forked := R.step (.fork (initAt .running) true)
    ⟨mem_cons_of_mem _ (mem_cons_self ..), rfl⟩ trivial
  have registered : World.Reached (fun _ _ => True) (withThread n .running past) :=
    forked.step (.register (initAt (.making n n 0 true)) n n 0 true)
      ⟨mem_cons_of_mem _ (mem_cons_self ..), rfl⟩ trivial
  have left : World.Reached (fun _ _ => True) (withThread n (.leaving 0) (.left n 0 :: past)) := by
    have := registered.step (.exit (threadAt n .running) 0) ⟨hthread .., rfl⟩ trivial
    rwa [Move.run, exitCurrent, withThread, change_thread hn] at this
  have read : World.Reached (fun _ _ => True)
      (withThread n (.reading none 0) (.left n 0 :: past)) := by
    have := left.step (.readGroup (threadAt n (.leaving 0)) 0) ⟨hthread .., rfl⟩ trivial
    rwa [Move.run, place, withThread, change_thread hn] at this
  have coded : World.Reached (fun _ _ => True) (withThread n .coded (.left n 0 :: past)) := by
    have := read.step (.setCode (threadAt n (.reading none 0)) none 0) ⟨hthread .., rfl⟩ trivial
    rwa [Move.run, setCode, withThread, change_thread hn] at this
  have gone := coded.step (.die (threadAt n .coded)) ⟨hthread .., rfl, by show n ≠ 1; omega⟩ trivial
  rw [Move.run, die_thread hn] at gone
  have reaped := gone.step (.reap (initAt .running))
    ⟨mem_append_left _ (by decide), Place.noConfusion⟩ trivial
  rwa [Move.run, show (initAt .running).id = 1 from rfl, reap_thread hn] at reaped

lemma laps (k : Nat) (h : 3 + k ≤ PIDS) : ∃ past, past.filterMap collected = [] ∧
    World.Reached (fun _ _ => True)
      ⟨uncollected .running, fun _ => none, (3 + k) % PIDS, 3 + k, past⟩ := by
  induction k with
  | zero =>
    exact ⟨[.left 2 1792], rfl, firstExit_reached.mono fun _ _ _ => trivial⟩
  | succ k ih =>
    obtain ⟨past, hpast, R⟩ := ih (by omega)
    exact ⟨.left (3 + k) 0 :: past, hpast, lap (n := 3 + k) (by omega) (by omega) R⟩

end

/-- **the pid of a zombie is given to another task** before the zombie is collected: init makes threads
until the counter has gone round, and then three processes -/
theorem pid_of_zombie_reused : ∃ s : World, (s.Reached fun _ _ => True) ∧
    ∃ z ∈ s.tasks, z.zombie = true ∧ z.pid = z.tgid ∧ z.id ∉ s.past.filterMap collected ∧
      ∃ t ∈ s.tasks, t.pid = z.pid ∧ t.id ≠ z.id := by
  have hpids : 3 < PIDS := by decide
  obtain ⟨past, hpast, R⟩ := laps (PIDS - 3) (by omega)
  rw [show 3 + (PIDS - 3) = PIDS by omega, mod_self] at R
  let born (id pid : Nat) : Member := ⟨id, pid, pid, 1, 1, id, .running, 0, false, true⟩
  have hinit {x y : Member} {rest : List Member} : y ∈ x :: y :: rest :=
    mem_cons_of_mem _ (mem_cons_self ..)
  have zero : World.Reached (fun _ _ => True)
      ⟨uncollected .running ++ [born PIDS 0], fun _ => none, 1, PIDS + 1, past⟩ :=
    (R.step (.fork (initAt .running) false) ⟨hinit, rfl⟩ trivial).step
      (.register (initAt (.making PIDS 0 0 false)) PIDS 0 0 false) ⟨hinit, rfl⟩ trivial
  have one : World.Reached (fun _ _ => True) ⟨uncollected .running ++
      [born PIDS 0, born (PIDS + 1) 1], fun _ => none, 2, PIDS + 2, past⟩ :=
    (zero.step (.fork (initAt .running) false) ⟨hinit, rfl⟩ trivial).step
      (.register (initAt (.making (PIDS + 1) 1 0 false)) (PIDS + 1) 1 0 false) ⟨hinit, rfl⟩ trivial
  have two : World.Reached (fun _ _ => True) ⟨uncollected .running ++
      [born PIDS 0, born (PIDS + 1) 1, born (PIDS + 2) 2], fun _ => none, 3, PIDS + 3, past⟩ :=
    (one.step (.fork (initAt .running) false) ⟨hinit, rfl⟩ trivial).step
      (.register (initAt (.making (PIDS + 2) 2 0 false)) (PIDS + 2) 2 0 false) ⟨hinit, rfl⟩ trivial
  refine ⟨_, two, childAt .gone 1792, mem_append_left _ (by decide), rfl, rfl, ?_,
    born (PIDS + 2) 2, mem_append_right _ (by simp), rfl, by show PIDS + 2 ≠ 2; omega⟩
  rw [hpast]
  exact not_mem_nil

end ClaudeOs.Sched.Exit
