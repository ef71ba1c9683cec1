import ClaudeOs.Lib.Sections
import ClaudeOs.Fs.FdTable

/-!
# Opens that create one name

`openat` with `O_CREAT` of one name in one directory, by any number of tasks.  The call looks the name
up, and when it is not there creates it, each under a lock of the directory; the creation gives back the
node that is there if somebody else made it in between.

* `Directory`, `createObject`  the entry of the name, and the calls in sections;
* `Opens`  everything a section can do;
* `OneNode`  the invariant of all runs: the nodes handed out are the entry's;
* `Exclusive`  what an exclusive open has to find when it comes to create;
* `OneCreator`  the invariant of exclusive opens: one made the entry, the others saw it;
* `creates_agree`  every descriptor is for one node; and when each exclusive open finds the name
  still missing, one of them gets a descriptor and the others `EEXIST`;
* `exclusive_twice`  two exclusive opens that both get one.
-/

namespace ClaudeOs.Fs.Create
open Linear Sections List Threads Event

/-! ## the calls -/

/-- the entry of the name, the number of the next node, and the kind of directory -/
structure Directory where
  onVolume : Bool
  entry : Option Nat
  nextIno : Nat
  deriving DecidableEq

/-- what a section meets: a descriptor free or not, and what the volume fails with -/
structure Chance where
  room : Bool
  fault : Option Fd.Errno

namespace Directory
variable (d : Directory) (c : Chance)

def failure : Option Fd.Errno := if d.onVolume then c.fault else none

def lookup : Except Fd.Errno Nat :=
  match d.failure c with
  | some e => .error e
  | none =>
    match d.entry with
    | some node => .ok node
    | none => .error .ENOENT

def made : Directory := { d with entry := some d.nextIno, nextIno := d.nextIno + 1 }

/-- in memory an entry that is there is given back; the volume refuses -/
def create : Directory × Except Fd.Errno Nat :=
  match d.failure c with
  | some e => (d, .error e)
  | none =>
    match d.entry with
    | some existing => (d, if d.onVolume then .error .EEXIST else .ok existing)
    | none => (d.made, .ok d.nextIno)

end Directory

/-- the flags of an `openat` with `O_CREAT` -/
structure OpenCall where
  excl : Bool
  directory : Bool
  deriving DecidableEq

inductive OpenAnswer where
  | opened (node : Nat)
  | error (e : Fd.Errno)
  deriving DecidableEq

inductive OpenPhase where
  | start
  /-- the lookup answered `ENOENT`, and there is no link to follow -/
  | missing
  /-- the volume answered `EEXIST` to the creation -/
  | clash
  | found (node : Nat)
  deriving DecidableEq

def openAdvance (d : Directory) (c : Chance) (op : OpenCall) :
    OpenPhase → Directory × (OpenPhase ⊕ OpenAnswer)
  | .start =>
    match d.lookup c with
    | .ok node => (d, if op.excl then .inr (.error .EEXIST) else .inl (.found node))
    | .error e => (d, if e = .ENOENT then .inl .missing else .inr (.error e))
  | .missing =>
    match d.create c with
    | (d', .ok node) => (d', .inl (.found node))
    | (d', .error e) => (d', if e = .EEXIST then .inl .clash else .inr (.error e))
  | .clash =>
    match d.lookup c with
    | .ok node => (d, .inl (.found node))
    | .error e => (d, .inr (.error e))
  | .found node =>
    (d, .inr (if op.directory then .error .ENOTDIR
      else if c.room then .opened node else .error .EMFILE))

def createObject : Object Directory OpenCall OpenPhase OpenAnswer Chance where
  begin _ := .start
  advance := openAdvance

abbrev OpenThreads := Threads Directory OpenCall OpenPhase
abbrev OpenHistory := List (Event OpenCall OpenAnswer)

/-! ## one node -/

inductive Opens (d : Directory) (phase : OpenPhase) : Directory × (OpenPhase ⊕ OpenAnswer) → Prop
  | waits {next : OpenPhase} : (∀ node, next ≠ .found node) → Opens d phase (d, .inl next)
  | finds {node : Nat} : d.entry = some node → Opens d phase (d, .inl (.found node))
  | makes : d.entry = none → Opens d phase (d.made, .inl (.found d.nextIno))
  | fails (e : Fd.Errno) : Opens d phase (d, .inr (.error e))
  | opens {node : Nat} : phase = .found node → Opens d phase (d, .inr (.opened node))

variable {c : Chance} {d : Directory} {node : Nat} {act : Sections.Action OpenCall Chance}
  {evs : OpenHistory} {w' : OpenThreads} {phase : OpenPhase}

lemma Directory.entry_of_lookup (h : d.lookup c = .ok node) : d.entry = some node := by
  unfold lookup at h
  split at h
  · cases h
  · split at h
    · cases h
      assumption
    · cases h

lemma openAdvance_opens (d : Directory) (c : Chance) (op : OpenCall) (phase : OpenPhase) :
    Opens d phase (openAdvance d c op phase) := by
  cases phase with
  | start =>
    cases hl : d.lookup c with
    | ok node =>
      simp only [openAdvance, hl]
      cases op.excl with
      | true => exact .fails _
      | false => exact .finds (d.entry_of_lookup hl)
    | error e =>
      simp only [openAdvance, hl]
      split
      · exact .waits fun node h => by cases h
      · exact .fails e
  | missing =>
    unfold openAdvance Directory.create
    cases d.failure c with
    | some e =>
      simp only
      split
      · exact .waits fun node h => by cases h
      · exact .fails e
    | none =>
      cases hentry : d.entry with
      | none => exact .makes hentry
      | some existing =>
        cases d.onVolume with
        | true => exact .waits fun node h => by cases h
        | false => exact .finds hentry
  | clash =>
    cases hl : d.lookup c with
    | ok node =>
      simp only [openAdvance, hl]
      exact .finds (d.entry_of_lookup hl)
    | error e =>
      simp only [openAdvance, hl]
      exact .fails e
  | found node =>
    show Opens d (.found node) (d, .inr (if op.directory then .error .ENOTDIR
      else if c.room then .opened node else .error .EMFILE))
    split
    · exact .fails _
    · split
      · exact .opens rfl
      · exact .fails _

structure OneNode (h : OpenHistory) (w : OpenThreads) : Prop where
  found : ∀ {id op node}, w.calls id = .running op (.found node) → w.shared.entry = some node
  opened : ∀ {id node}, Event.ret id (.opened node) ∈ h → w.shared.entry = some node

section
variable {h : OpenHistory} {w : OpenThreads} {id : Nat} {op : OpenCall}

lemma OneNode.set (hone : OneNode h w) {p : Progress OpenCall OpenPhase}
    (hp : ∀ op node, p ≠ .running op (.found node)) : OneNode h (w.set w.shared id p) where
  found {k op' node} hrun := by
    by_cases hk : k = id
    · subst hk
      rw [calls_set_self] at hrun
      exact absurd hrun (hp op' node)
    · rw [calls_set_ne _ _ _ hk] at hrun
      exact hone.found hrun
  opened hmem := hone.opened hmem

lemma OneNode.setFound (hone : OneNode h w) (hentry : d.entry = some node)
    (hkeep : ∀ n, w.shared.entry = some n → n = node) :
    OneNode h (w.set d id (.running op (.found node))) where
  found {k op' node'} hrun := by
    by_cases hk : k = id
    · subst hk
      rw [calls_set_self] at hrun
      cases hrun
      exact hentry
    · rw [calls_set_ne _ _ _ hk] at hrun
      exact (hkeep node' (hone.found hrun)) ▸ hentry
  opened {_ node'} hmem := (hkeep node' (hone.opened hmem)) ▸ hentry

lemma OneNode.append_ret (hone : OneNode h w) {res : OpenAnswer}
    (hres : ∀ node, res = .opened node → w.shared.entry = some node) :
    OneNode (h ++ [.ret id res]) w where
  found hrun := hone.found hrun
  opened {k node} hmem := by
    rcases mem_append.mp hmem with hmem | hmem
    · exact hone.opened hmem
    · cases mem_singleton.mp hmem
      exact hres node rfl

lemma OneNode.step (hone : OneNode h w) (hap : createObject.Happens w act w' evs) :
    OneNode (h ++ evs) w' := by
  cases hap with
  | idle =>
    rw [append_nil]
    exact hone
  | called op _ =>
    refine OneNode.set ⟨hone.found, fun {k node} hmem => ?_⟩ fun _ _ hp => by cases hp
    rcases mem_append.mp hmem with hmem | hmem
    · exact hone.opened hmem
    · cases mem_singleton.mp hmem
  | @goesOn id c op phase next s hrun hadv =>
    rw [append_nil]
    have hopens := openAdvance_opens w.shared c op phase
    rw [show openAdvance w.shared c op phase = (s, .inl next) from hadv] at hopens
    cases hopens with
    | waits hne => exact hone.set fun _ node hp => by cases hp; exact hne node rfl
    | finds hentry => exact hone.setFound hentry fun n hn => by rw [hn] at hentry; cases hentry; rfl
    | makes hentry => exact hone.setFound rfl fun n hn => by rw [hn] at hentry; cases hentry
  | @returns id c op phase s res hrun hadv =>
    have hopens := openAdvance_opens w.shared c op phase
    rw [show openAdvance w.shared c op phase = (s, .inr res) from hadv] at hopens
    cases hopens with
    | fails e =>
      have hret : OneNode (h ++ [.ret id (.error e)]) w := hone.append_ret fun _ he => by cases he
      exact hret.set fun _ _ hp => by cases hp
    | @opens node hphase =>
      subst hphase
      have hret : OneNode (h ++ [.ret id (.opened node)]) w :=
        hone.append_ret fun _ he => by cases he; exact hone.found hrun
      exact hret.set fun _ _ hp => by cases hp

end

/-! ## one creator -/

/-- every call is exclusive, finds the name missing when it comes to create, does not fail for want
of a descriptor or for a directory, and the volume does not fail -/
def Exclusive (w : OpenThreads) : Sections.Action OpenCall Chance → Prop
  | .call _ op => op.excl = true
  | .go id c => ∀ op phase, w.calls id = .running op phase →
      w.shared.failure c = none ∧ (phase = .missing → w.shared.entry = none) ∧
      ∀ node, phase = .found node → c.room = true ∧ op.directory = false

inductive Sole (d : Directory) : OpenPhase → Directory × (OpenPhase ⊕ OpenAnswer) → Prop
  | looks : d.entry = none → Sole d .start (d, .inl .missing)
  | refused {node : Nat} : d.entry = some node → Sole d .start (d, .inr (.error .EEXIST))
  | makes : d.entry = none → Sole d .missing (d.made, .inl (.found d.nextIno))
  | opens (node : Nat) : Sole d (.found node) (d, .inr (.opened node))

lemma openAdvance_sole {op : OpenCall} (hexcl : op.excl = true) (hclash : phase ≠ .clash)
    (hfail : d.failure c = none) (hmissing : phase = .missing → d.entry = none)
    (hfound : ∀ node, phase = .found node → c.room = true ∧ op.directory = false) :
    Sole d phase (openAdvance d c op phase) := by
  cases phase with
  | start =>
    unfold openAdvance Directory.lookup
    rw [hfail]
    cases hentry : d.entry with
    | none => exact .looks hentry
    | some node =>
      simp only [hexcl, if_true]
      exact .refused hentry
  | missing =>
    have hentry := hmissing rfl
    unfold openAdvance Directory.create
    rw [hfail, hentry]
    exact .makes hentry
  | clash => exact absurd rfl hclash
  | found node =>
    obtain ⟨hroom, hdir⟩ := hfound node rfl
    unfold openAdvance
    rw [hroom, hdir]
    exact .opens node

/-- `creator` made the entry and has the node; all others answer `EEXIST` -/
structure Created (h : OpenHistory) (w : OpenThreads) (node creator : Nat) : Prop where
  only : ∀ {id op n}, w.calls id = .running op (.found n) → id = creator
  here : (∃ op, w.calls creator = .running op (.found node)) ∨ ret creator (.opened node) ∈ h
  answers : ∀ {id res}, ret id res ∈ h →
    res = if id = creator then .opened node else .error .EEXIST

/-- the calls are exclusive, and as long as there is no entry none of them has answered -/
structure OneCreator (h : OpenHistory) (w : OpenThreads) : Prop where
  running : ∀ {id op phase}, w.calls id = .running op phase →
    call id op ∈ h ∧ op.excl = true ∧ phase ≠ .clash
  returned : ∀ {id res}, ret id res ∈ h → w.calls id = .returned
  before : w.shared.entry = none →
    (∀ id op node, w.calls id ≠ .running op (.found node)) ∧ ∀ id res, ret id res ∉ h
  after : ∀ {node}, w.shared.entry = some node → ∃ creator, Created h w node creator

section
variable {h : OpenHistory} {w : OpenThreads} {id : Nat} {op : OpenCall}

section
variable (hone : OneCreator h w)
include hone

lemma OneCreator.waits {h' : OpenHistory} (hcall : call id op ∈ h') (hexcl : op.excl = true)
    (hphase : phase ≠ .clash) (hnode : ∀ n, phase ≠ .found n)
    (hold : ∀ op' n, w.calls id ≠ .running op' (.found n)) (hactive : w.calls id ≠ .returned)
    (hsub : h ⊆ h') (hrets : ∀ {k res}, ret k res ∈ h' → ret k res ∈ h) :
    OneCreator h' (w.set w.shared id (.running op phase)) := by
  have hfound {k : Nat} {op' : OpenCall} {n : Nat}
      (hrun : (w.set w.shared id (.running op phase)).calls k = .running op' (.found n)) :
      w.calls k = .running op' (.found n) := by
    rcases calls_set_eq _ _ _ hrun with ⟨-, hp⟩ | ⟨-, hrun⟩
    · cases hp
      exact absurd rfl (hnode n)
    · exact hrun
  have hother {k : Nat} {p : Progress OpenCall OpenPhase} (hk : w.calls k = p)
      (hne : w.calls id ≠ p) : (w.set w.shared id (.running op phase)).calls k = p := by
    have hid : k ≠ id := by
      rintro rfl
      exact hne hk
    rw [calls_set_ne _ _ _ hid, hk]
  refine ⟨fun {k op' phase'} hrun => ?_, fun hmem => ?_, fun hentry => ?_, fun {node} hentry => ?_⟩
  · rcases calls_set_eq _ _ _ hrun with ⟨rfl, hp⟩ | ⟨-, hrun⟩
    · cases hp
      exact ⟨hcall, hexcl, hphase⟩
    · obtain ⟨hmem, hrest⟩ := hone.running hrun
      exact ⟨hsub hmem, hrest⟩
  · exact hother (hone.returned (hrets hmem)) hactive
  · obtain ⟨hnot, hret⟩ := hone.before hentry
    exact ⟨fun k op' n hrun => hnot k op' n (hfound hrun), fun k res hmem => hret k res (hrets hmem)⟩
  · obtain ⟨creator, hc⟩ := hone.after hentry
    refine ⟨creator, fun hrun => hc.only (hfound hrun), ?_, fun hmem => hc.answers (hrets hmem)⟩
    exact hc.here.imp (fun ⟨op', hrun⟩ => ⟨op', hother hrun (hold op' node)⟩) fun hmem => hsub hmem

lemma OneCreator.makes (hrun : w.calls id = .running op .missing) (hentry : w.shared.entry = none) :
    OneCreator h (w.set w.shared.made id (.running op (.found w.shared.nextIno))) := by
  obtain ⟨hfound, hret⟩ := hone.before hentry
  refine ⟨fun {k op' phase'} hrun' => ?_, fun hmem => absurd hmem (hret _ _),
    fun hnone => (by cases hnone), fun {node} hsome => ?_⟩
  · rcases calls_set_eq _ _ _ hrun' with ⟨rfl, hp⟩ | ⟨-, hrun'⟩
    · cases hp
      obtain ⟨hmem, hexcl, -⟩ := hone.running hrun
      exact ⟨hmem, hexcl, fun hp => by cases hp⟩
    · exact hone.running hrun'
  · cases hsome
    refine ⟨id, fun {k op' n} hrun' => ?_, .inl ⟨op, calls_set_self ..⟩,
      fun hmem => absurd hmem (hret _ _)⟩
    rcases calls_set_eq _ _ _ hrun' with ⟨rfl, -⟩ | ⟨-, hrun'⟩
    · rfl
    · exact absurd hrun' (hfound k op' n)

lemma OneCreator.returns {creator : Nat} (hentry : w.shared.entry = some node)
    (hc : Created h w node creator) : OneCreator
      (h ++ [.ret id (if id = creator then .opened node else .error .EEXIST)])
      (w.set w.shared id .returned) := by
  have hback {k : Nat} {op' : OpenCall} {phase' : OpenPhase}
      (hrun' : (w.set w.shared id .returned).calls k = .running op' phase') :
      k ≠ id ∧ w.calls k = .running op' phase' := by
    rcases calls_set_eq _ _ _ hrun' with ⟨-, hp⟩ | hrun'
    · cases hp
    · exact hrun'
  refine ⟨fun {k op' phase'} hrun' => ?_, fun {k res} hmem => ?_,
    fun hnone => (by rw [show w.shared.entry = none from hnone] at hentry; cases hentry),
    fun {node'} hsome => ?_⟩
  · obtain ⟨hmem, hrest⟩ := hone.running (hback hrun').2
    exact ⟨mem_append_left _ hmem, hrest⟩
  · by_cases hk : k = id
    · rw [hk, calls_set_self]
    · rw [calls_set_ne _ _ _ hk]
      rcases mem_append.mp hmem with hmem | hmem
      · exact hone.returned hmem
      · cases mem_singleton.mp hmem
        exact absurd rfl hk
  · rw [show w.shared.entry = some node' from hsome] at hentry
    cases hentry
    refine ⟨creator, fun {k op' n} hrun' => hc.only (hback hrun').2, ?_, fun {k res} hmem => ?_⟩
    · by_cases hid : id = creator
      · rw [if_pos hid, hid]
        exact .inr (mem_append_right _ (mem_singleton.mpr rfl))
      · refine hc.here.imp (fun ⟨op', hrun'⟩ => ⟨op', ?_⟩) fun hmem => mem_append_left _ hmem
        rw [calls_set_ne _ _ _ (Ne.symm hid)]
        exact hrun'
    · rcases mem_append.mp hmem with hmem | hmem
      · exact hc.answers hmem
      · cases mem_singleton.mp hmem
        rfl

lemma OneCreator.step (hok : Exclusive w act) (hap : createObject.Happens w act w' evs) :
    OneCreator (h ++ evs) w' := by
  cases hap with
  | idle =>
    rw [append_nil]
    exact hone
  | @called id op habsent =>
    refine hone.waits (mem_append_right _ (mem_singleton.mpr rfl)) hok
      (fun hp => by cases hp) (fun n hp => by cases hp) (fun op' n hrun => ?_) (fun hret => ?_)
      (subset_append_left ..) fun {k res} hmem => ?_
    · rw [habsent] at hrun
      cases hrun
    · rw [habsent] at hret
      cases hret
    · rcases mem_append.mp hmem with hmem | hmem
      · exact hmem
      · cases mem_singleton.mp hmem
  | @goesOn id c op phase next s hrun hadv =>
    rw [append_nil]
    obtain ⟨hmem, hexcl, hclash⟩ := hone.running hrun
    obtain ⟨hfail, hmissing, hfound⟩ := hok op phase hrun
    have hsole := openAdvance_sole hexcl hclash hfail hmissing hfound
    rw [show openAdvance w.shared c op phase = (s, .inl next) from hadv] at hsole
    cases hsole with
    | looks hentry =>
      refine hone.waits hmem hexcl (fun hp => by cases hp) (fun n hp => by cases hp)
        (fun op' n hrun' => ?_) (fun hret => ?_) (List.Subset.refl h) fun hmem => hmem
      · rw [hrun] at hrun'
        cases hrun'
      · rw [hrun] at hret
        cases hret
    | makes hentry => exact hone.makes hrun hentry
  | @returns id c op phase s res hrun hadv =>
    obtain ⟨hmem, hexcl, hclash⟩ := hone.running hrun
    obtain ⟨hfail, hmissing, hfound⟩ := hok op phase hrun
    have hsole := openAdvance_sole hexcl hclash hfail hmissing hfound
    rw [show openAdvance w.shared c op phase = (s, .inr res) from hadv] at hsole
    -- a call still running has not answered
    have hquiet (res : OpenAnswer) : ret id res ∉ h := fun hret => by
      rw [hone.returned hret] at hrun
      cases hrun
    cases hsole with
    | @refused node hentry =>
      obtain ⟨creator, hc⟩ := hone.after hentry
      have hid : id ≠ creator := by
        rintro rfl
        rcases hc.here with ⟨op', hrun'⟩ | hret
        · rw [hrun] at hrun'
          cases hrun'
        · exact hquiet _ hret
      have hret : OneCreator (h ++ [.ret id (if id = creator then _ else _)]) _ :=
        hone.returns hentry hc
      rw [if_neg hid] at hret
      exact hret
    | opens node =>
      cases hentry : w.shared.entry with
      | none => exact absurd hrun ((hone.before hentry).1 id op node)
      | some made =>
        obtain ⟨creator, hc⟩ := hone.after hentry
        obtain rfl := hc.only hrun
        have hnode : node = made := by
          rcases hc.here with ⟨op', hrun'⟩ | hret
          · rw [hrun] at hrun'
            cases hrun'
            rfl
          · exact absurd hret (hquiet _)
        have hret : OneCreator (h ++ [.ret id (if id = id then _ else _)]) _ :=
          hone.returns hentry hc
        rw [if_pos rfl, ← hnode] at hret
        exact hret

end
end

/-! ## runs -/

def seen (d : Directory) (as : List (Sections.Action OpenCall Chance)) : OpenHistory :=
  history createObject.step createObject.events (.start d) as

section
variable {d : Directory} {as : List (Sections.Action OpenCall Chance)}

lemma oneNode_seen (d : Directory) (as : List (Sections.Action OpenCall Chance)) :
    OneNode (seen d as) (Run.run createObject.step (.start d) as) := by
  have hstart : OneNode [] (.start d) := ⟨fun hrun => (by cases hrun), fun hmem => (by cases hmem)⟩
  have hok : Run.Allowed createObject.step (fun _ _ => True) (.start d) as :=
    Run.allowed_of_forall fun _ _ => trivial
  exact history_keeps (I := OneNode) (fun _ w a hone _ => hone.step (createObject.happens w a))
    hstart hok

lemma oneCreator_seen (hd : d.entry = none)
    (hok : Run.Allowed createObject.step Exclusive (.start d) as) :
    OneCreator (seen d as) (Run.run createObject.step (.start d) as) := by
  refine history_keeps (I := OneCreator)
    (fun _ w a hone ha => hone.step ha (createObject.happens w a)) (h := []) ?_ hok
  refine ⟨fun hrun => (by cases hrun), fun hmem => (by cases hmem), fun _ => ?_, fun hsome => ?_⟩
  · exact ⟨fun _ _ _ hrun => (by cases hrun), fun _ _ hmem => (by cases hmem)⟩
  · rw [show d.entry = some _ from hsome] at hd
    cases hd

end

/-- **creates agree**: every descriptor is for one node; and of exclusive opens that each find the
name missing, one has a descriptor and the rest answer `EEXIST` -/
theorem creates_agree (d : Directory) (hd : d.entry = none) (as : List (Sections.Action OpenCall Chance)) :
    (∀ id id' node node', ret id (.opened node) ∈ seen d as →
      ret id' (.opened node') ∈ seen d as → node = node') ∧
    (Run.Allowed createObject.step Exclusive (.start d) as → ∃ creator node,
        (∀ id res, ret id res ∈ seen d as →
          res = if id = creator then .opened node else .error .EEXIST) ∧
        ((∀ id op, call id op ∈ seen d as → ∃ res, ret id res ∈ seen d as) →
          (∃ id op, call id op ∈ seen d as) →
          ret creator (.opened node) ∈ seen d as)) := by
  refine ⟨fun id id' node node' hmem hmem' => ?_, fun hok => ?_⟩
  · have hone := oneNode_seen d as
    have hnode := (hone.opened hmem).symm.trans (hone.opened hmem')
    cases hnode
    rfl
  · have hone := oneCreator_seen hd hok
    cases hentry : (Run.run createObject.step (.start d) as).shared.entry with
    | none =>
      -- nobody has answered, so there is no creator yet
      have hret := (hone.before hentry).2
      refine ⟨0, 0, fun id res hmem => absurd hmem (hret id res), ?_⟩
      rintro hall ⟨id, op, hcall⟩
      obtain ⟨res, hmem⟩ := hall id op hcall
      exact absurd hmem (hret id res)
    | some node =>
      obtain ⟨creator, hc⟩ := hone.after hentry
      refine ⟨creator, node, fun id res hmem => hc.answers hmem, fun hall _ => ?_⟩
      rcases hc.here with ⟨op, hrun⟩ | hret
      · obtain ⟨res, hmem⟩ := hall creator op (hone.running hrun).1
        have hres := hc.answers hmem
        rw [if_pos rfl] at hres
        exact hres ▸ hmem
      · exact hret

def noEntry : Directory := ⟨false, none, 7⟩
def exclOpen : OpenCall := ⟨true, false⟩
def quiet : Chance := ⟨true, none⟩

def inTurn : List (Sections.Action OpenCall Chance) :=
  [.call 1 exclOpen, .go 1 quiet, .go 1 quiet, .go 1 quiet, .call 2 exclOpen, .go 2 quiet]

/-- the second finds what the first has made -/
theorem creates_agree_inTurn : noEntry.entry = none ∧
    Run.Allowed createObject.step Exclusive (.start noEntry) inTurn ∧ seen noEntry inTurn =
      [.call 1 exclOpen, .ret 1 (.opened 7), .call 2 exclOpen, .ret 2 (.error .EEXIST)] ∧
    ∃ creator node, ∀ id res, ret id res ∈ seen noEntry inTurn →
      res = if id = creator then .opened node else .error .EEXIST := by
  have hok : Run.Allowed createObject.step Exclusive (.start noEntry) inTurn := by
    refine ⟨rfl, ?_, ?_, ?_, rfl, ?_, trivial⟩
    all_goals
      intro op phase hrun
      cases hrun
      exact ⟨rfl, fun hp => (by first | rfl | cases hp), fun _ _ => ⟨rfl, rfl⟩⟩
  obtain ⟨creator, node, hanswers, -⟩ := (creates_agree noEntry rfl inTurn).2 hok
  exact ⟨rfl, hok, rfl, creator, node, hanswers⟩

/-! ## two that both create -/

def together : List (Sections.Action OpenCall Chance) :=
  [.call 1 exclOpen, .call 2 exclOpen, .go 1 quiet, .go 2 quiet, .go 1 quiet, .go 2 quiet,
    .go 1 quiet, .go 2 quiet]

/-- both get a descriptor -/
theorem exclusive_twice : seen noEntry together =
      [.call 1 exclOpen, .call 2 exclOpen, .ret 1 (.opened 7), .ret 2 (.opened 7)] ∧
    ¬ ∃ creator node, ∀ id res, ret id res ∈ seen noEntry together →
      res = if id = creator then .opened node else .error .EEXIST := by
  have hseen : seen noEntry together =
      [.call 1 exclOpen, .call 2 exclOpen, .ret 1 (.opened 7), .ret 2 (.opened 7)] := rfl
  refine ⟨hseen, ?_⟩
  rintro ⟨creator, node, hanswers⟩
  rw [hseen] at hanswers
  have hfirst := hanswers 1 (.opened 7) (by decide)
  have hsecond := hanswers 2 (.opened 7) (by decide)
  by_cases h₁ : 1 = creator
  · rw [if_neg (by omega)] at hsecond
    cases hsecond
  · rw [if_neg h₁] at hfirst
    cases hfirst

end ClaudeOs.Fs.Create
