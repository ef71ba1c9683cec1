import Mathlib
import ClaudeOs.Fat.Layout

/-!
# The nodes of the data volume

`storage::vfs`.  A file or directory of the volume is a node that holds its path.  An operation takes
the path out of the node, asks the volume in one hold of the volume's lock, and then finds or changes
nodes in the table in another: between these sections other tasks run.

* `Files`, `Faithful`  the volume as its callers see it: which file is at a path;
* `Known`  the nodes and the table that names them by path;
* `Known.nodeFor`, `detach`, `rekey`  the three changes of the table;
* `World`, `Move`  the tasks with the section each is about to do;
* `Keyed`  the table names every node that stands, under its path;
* `World.Tidy`  the invariant of runs in which an unlink or a rename is alone;
* `nodes_keep_files`  in these a node reaches the file it was made for, and one node stands for a
  path;
* `node_reaches_other`  and not in every run.
-/

namespace ClaudeOs.Storage
open List Option
open Fat (FsError)

abbrev Path := List String

/-! ## the volume, as its callers see it -/

/-- the operations of a volume; `fileAt` says which file is at a path -/
structure Files (V : Type) where
  fileAt : V → Path → Option Nat
  made : V → Nat
  lookup : V → Path → String → V × Except FsError String
  make : V → Bool → Path → String → V × Except FsError String
  remove : V → Path → String → Bool → V × Except FsError Unit
  rename : V → Path → String → Path → String → V × Except FsError String
  access : V → Path → V × Except FsError Unit

structure Apart (old new : Path) : Prop where
  new_outside : ¬ old <+: new
  old_outside : ¬ new <+: old

structure Moved (before after : Path → Option Nat) (old new : Path) : Prop where
  there : ∀ s, after (new ++ s) = before (old ++ s)
  elsewhere : ∀ p, ¬ old <+: p → ¬ new <+: p → after p = before p
  left : old ≠ new → ∀ s, after (old ++ s) = none

/-- what the operations do to the files at the paths; nothing is said of a removal or a rename that
fails, which may have changed the volume before -/
structure Faithful {V : Type} (F : Files V) : Prop where
  root : ∀ v, ∃ f, F.fileAt v [] = some f
  lookup_keeps : ∀ v d n, F.fileAt (F.lookup v d n).1 = F.fileAt v ∧ F.made (F.lookup v d n).1 = F.made v
  lookup_ok : ∀ v d n m, (F.lookup v d n).2 = .ok m → ∃ f, F.fileAt v (d ++ [m]) = some f
  make_error : ∀ v k d n e, (F.make v k d n).2 = .error e →
    ∀ p f, F.fileAt v p = some f → F.fileAt (F.make v k d n).1 p = some f
  make_ok : ∀ v k d n m, (F.make v k d n).2 = .ok m →
    F.fileAt v (d ++ [m]) = none ∧ F.made (F.make v k d n).1 = F.made v + 1 ∧
      ∀ p, F.fileAt (F.make v k d n).1 p = if p = d ++ [m] then some (F.made v) else F.fileAt v p
  remove_ok : ∀ v d n w m, (F.lookup v d n).2 = .ok m →
    (F.remove (F.lookup v d n).1 d n w).2 = .ok () →
      ∀ p, F.fileAt (F.remove (F.lookup v d n).1 d n w).1 p =
        if d ++ [m] <+: p then none else F.fileAt v p
  /-- an existing entry that is not the one renamed keeps its name, and there is nothing at the new
  path otherwise -/
  rename_ok : ∀ v d n d' n' m m', (F.lookup v d n).2 = .ok m →
    (F.rename (F.lookup (F.lookup v d n).1 d' n').1 d n d' n').2 = .ok m' →
      Moved (F.fileAt v) (F.fileAt (F.rename (F.lookup (F.lookup v d n).1 d' n').1 d n d' n').1)
        (d ++ [m]) (d' ++ [m']) ∧ (d ++ [m] = d' ++ [m'] ∨ Apart (d ++ [m]) (d' ++ [m']) ∧
        ((F.lookup (F.lookup v d n).1 d' n').2 = .ok m' ∨ ∀ s, F.fileAt v (d' ++ [m'] ++ s) = none))
  access_keeps : ∀ v p, F.fileAt (F.access v p).1 = F.fileAt v

/-! ## the nodes and their table -/

structure Node where
  path : Path
  gone : Bool
  live : Bool
  file : Nat
deriving DecidableEq

structure Known where
  nodes : List Node
  table : AList fun _ : Path => Nat

def Node.markGone (n : Node) : Node := if n.live then { n with gone := true } else n

namespace Known
section
variable (c : Known) (path : Path)

def isLive (i : Nat) : Bool := (c.nodes[i]?).any Node.live

def nodeFor (file : Nat) : Known :=
  match c.table.lookup path with
  | some i => if c.isLive i then c else make c
  | none => make c
where
  make (c : Known) : Known :=
    ⟨c.nodes ++ [⟨path, false, true, file⟩], c.table.insert path c.nodes.length⟩

def sweep : Known :=
  { c with
    table := (c.table.keys.filter fun p => !(c.table.lookup p).any c.isLive).foldl
      (fun t p => t.erase p) c.table }

def under : List Path := c.table.keys.filter (path <+: ·)

def forgetKey (key : Path) : Known :=
  match c.table.lookup key with
  | none => c
  | some i => ⟨c.nodes.modify i Node.markGone, c.table.erase key⟩

def detach : Known := (c.under path).foldl forgetKey c

def rehome (old new : Path) (c : Known) (key : Path) : Known :=
  match c.table.lookup key with
  | none => c
  | some i =>
    if c.isLive i then
      ⟨c.nodes.modify i ({ · with path := new ++ key.drop old.length }),
        (c.table.erase key).insert (new ++ key.drop old.length) i⟩
    else { c with table := c.table.erase key }

/-- the entry at `old` is now at `new`, and so is everything under it -/
def rekey (old new : Path) : Known := (c.under old).foldl (rehome old new) c

end

/-- what the volume's root needs -/
def publish (file : Nat) : Known := ⟨[⟨[], false, true, file⟩], AList.singleton [] 0⟩

end Known

/-! ## tasks -/

inductive Place where
  | idle
  | lookup (dir : Path) (name : String)
  | make (isDir : Bool) (dir : Path) (name : String)
  | nodeFor (path : Path) (file : Nat)
  | unlink (dir : Path) (name : String) (wantDir : Bool)
  | detach (path : Path)
  | pathTo (dir : Path) (name : String) (node : Nat) (name' : String)
  | rename (dir : Path) (name : String) (dir' : Path) (name' : String)
  | replace (path old new : Path)
  | rekey (old new : Path)
  | access (node : Nat) (path : Path)
deriving DecidableEq

def Place.moves : Place → Bool
  | .unlink .. | .detach .. | .pathTo .. | .rename .. | .replace .. | .rekey .. => true
  | _ => false

/-- after a rename's hold of the volume: an existing entry that is not the one renamed was replaced -/
def Place.afterRename (dir' old new : Path) : Except FsError String → Place
  | .ok target =>
    if dir' ++ [target] ≠ old then .replace (dir' ++ [target]) old new else .rekey old new
  | .error _ => .rekey old new

def Place.holds : Place → Option Nat
  | .pathTo _ _ node _ | .access node _ => some node
  | _ => none

/-- the volume, the nodes, the tasks, and the file meant and met by each read or write -/
structure World (V : Type) where
  volume : V
  known : Known
  place : Nat → Place
  accesses : List (Nat × Option Nat)

open World

inductive Move where
  | lookup (k dir : Nat) (name : String)
  | make (k dir : Nat) (isDir : Bool) (name : String)
  | unlink (k dir : Nat) (name : String) (wantDir : Bool)
  | rename (k dir : Nat) (name : String) (dir' : Nat) (name' : String)
  | access (k node : Nat)
  | go (k : Nat)
  | drop (node : Nat)
  | sweep

namespace World
variable {V : Type} (F : Files V)

section
variable (w : World V) (k : Nat) (dir : Path)

def moveTo (place : Place) : World V :=
  { w with place := Function.update w.place k place }

def pathOf (node : Nat) (next : Path → Place) : World V :=
  match w.known.nodes[node]? with
  | some n => if n.gone then w.moveTo k .idle else w.moveTo k (next n.path)
  | none => w

/-- the node is found after a hold of the volume, if the volume gave a name -/
def found (r : V × Except FsError String) : World V :=
  match r.2 with
  | .ok name =>
    { w with volume := r.1 }.moveTo k (.nodeFor (dir ++ [name]) ((F.fileAt r.1 (dir ++ [name])).getD 0))
  | .error _ => { w with volume := r.1 }.moveTo k .idle

def unlinkHold (name : String) (wantDir : Bool) : World V :=
  let r := F.lookup w.volume dir name
  match r.2 with
  | .error _ => { w with volume := r.1 }.moveTo k .idle
  | .ok entry =>
    let r' := F.remove r.1 dir name wantDir
    match r'.2 with
    | .error _ => { w with volume := r'.1 }.moveTo k .idle
    | .ok () => { w with volume := r'.1 }.moveTo k (.detach (dir ++ [entry]))

def renameHold (name : String) (dir' : Path) (name' : String) : World V :=
  let r := F.lookup w.volume dir name
  match r.2 with
  | .error _ => { w with volume := r.1 }.moveTo k .idle
  | .ok source =>
    let existing := F.lookup r.1 dir' name'
    let r' := F.rename existing.1 dir name dir' name'
    match r'.2 with
    | .error _ => { w with volume := r'.1 }.moveTo k .idle
    | .ok entry =>
      { w with volume := r'.1 }.moveTo k
        (.afterRename dir' (dir ++ [source]) (dir' ++ [entry]) existing.2)

def accessHold (node : Nat) (path : Path) : World V :=
  { w with
    volume := (F.access w.volume path).1
    accesses := (((w.known.nodes[node]?).map Node.file).getD 0, F.fileAt w.volume path) :: w.accesses
    }.moveTo k .idle

def go : World V :=
  match w.place k with
  | .idle => w
  | .lookup dir name => w.found F k dir (F.lookup w.volume dir name)
  | .make isDir dir name => w.found F k dir (F.make w.volume isDir dir name)
  | .nodeFor path file => { w with known := w.known.nodeFor path file }.moveTo k .idle
  | .unlink dir name wantDir => w.unlinkHold F k dir name wantDir
  | .detach path => { w with known := w.known.detach path }.moveTo k .idle
  | .pathTo dir name node name' => w.pathOf k node fun dir' => .rename dir name dir' name'
  | .rename dir name dir' name' => w.renameHold F k dir name dir' name'
  | .replace path old new => { w with known := w.known.detach path }.moveTo k (.rekey old new)
  | .rekey old new => { w with known := w.known.rekey old new }.moveTo k .idle
  | .access node path => w.accessHold F k node path

/-- the hold of an unlink or a rename, if the volume fails it, leaves every file at its path -/
def Undone : Prop :=
  match w.place k with
  | .unlink dir name wantDir => ∀ e,
      (F.remove (F.lookup w.volume dir name).1 dir name wantDir).2 = .error e →
        ∀ p f, F.fileAt w.volume p = some f →
          F.fileAt (F.remove (F.lookup w.volume dir name).1 dir name wantDir).1 p = some f
  | .rename dir name dir' name' => ∀ e,
      (F.rename (F.lookup (F.lookup w.volume dir name).1 dir' name').1 dir name dir' name').2 =
        .error e → ∀ p f, F.fileAt w.volume p = some f →
          F.fileAt (F.rename (F.lookup (F.lookup w.volume dir name).1 dir' name').1 dir name dir'
            name').1 p = some f
  | _ => True

def release (node : Nat) : World V :=
  { w with known := { w.known with nodes := w.known.nodes.modify node ({ · with live := false }) } }

end

def publish (v : V) : World V :=
  ⟨v, Known.publish ((F.fileAt v []).getD 0), fun _ => .idle, []⟩

end World

namespace Move
variable {V : Type} (F : Files V)

def run (w : World V) : Move → World V
  | .lookup k dir name => w.pathOf k dir fun p => .lookup p name
  | .make k dir isDir name => w.pathOf k dir fun p => .make isDir p name
  | .unlink k dir name wantDir => w.pathOf k dir fun p => .unlink p name wantDir
  | .rename k dir name dir' name' => w.pathOf k dir fun p => .pathTo p name dir' name'
  | .access k node => w.pathOf k node fun p => .access node p
  | .go k => w.go F k
  | .drop node => w.release node
  | .sweep => { w with known := w.known.sweep }

/-- an operation starts in an idle task, through nodes that are held -/
def Enabled (w : World V) : Move → Prop
  | .lookup k dir _ | .make k dir _ _ | .unlink k dir _ _ | .access k dir =>
    w.place k = .idle ∧ w.known.isLive dir = true
  | .rename k dir _ dir' _ =>
    w.place k = .idle ∧ w.known.isLive dir = true ∧ w.known.isLive dir' = true
  | .go k => w.place k ≠ .idle
  | .drop node => ∀ k, (w.place k).holds ≠ some node
  | .sweep => True

/-- an unlink or a rename is alone while it runs, and changes nothing if the volume fails it -/
def Calm (w : World V) : Move → Prop
  | .lookup .. | .make .. | .access .. => ∀ k, (w.place k).moves = false
  | .unlink .. | .rename .. => ∀ k, w.place k = .idle
  | .go k => w.Undone F k
  | _ => True

end Move

/-- the states of the runs whose steps are `allowed` -/
inductive Reached {V : Type} (F : Files V) (allowed : World V → Move → Prop) : World V → Prop
  | boot (v : V) (fresh : ∀ p f, F.fileAt v p = some f → f < F.made v) :
    Reached F allowed (publish F v)
  | step {w : World V} (move : Move) : Reached F allowed w → move.Enabled w → allowed w move →
    Reached F allowed (move.run F w)

/-! ## the table names the nodes that stand -/

/-- node `i` is held, and its entry is not gone -/
structure StandsAt (c : Known) (i : Nat) (n : Node) : Prop where
  node : c.nodes[i]? = some n
  live : n.live = true
  here : n.gone = false

/-- the nodes that stand and the live nodes of the table are the same, under their paths -/
structure Keyed (c : Known) : Prop where
  named : ∀ {i n}, StandsAt c i n → c.table.lookup n.path = some i
  holds : ∀ {p i}, c.table.lookup p = some i →
    ∃ n : Node, c.nodes[i]? = some n ∧ (n.live = true → n.gone = false ∧ n.path = p)

variable {k p dir new old path : Path} {t : AList fun _ : Path => Nat} {name : String}
  {place : Place}

namespace Known
variable {c : Known} {path key old new : Path} {i j : Nat} {n : Node}

lemma lookup_erase_iff {i : Nat} : (t.erase k).lookup p = some i ↔ p ≠ k ∧ t.lookup p = some i := by
  by_cases h : p = k
  · subst h
    simp [AList.lookup_erase]
  · simp [AList.lookup_erase_ne h, h]

lemma lookup_insert_iff {i j : Nat} :
    (t.insert k i).lookup p = some j ↔ p = k ∧ j = i ∨ p ≠ k ∧ t.lookup p = some j := by
  by_cases h : p = k
  · subst h
    simp [AList.lookup_insert, eq_comm]
  · simp [AList.lookup_insert_ne h, h]

lemma isLive_iff : c.isLive i = true ↔ ∃ n : Node, c.nodes[i]? = some n ∧ n.live = true := by
  simp [isLive, Option.any_eq_true]

lemma mem_keys_of_lookup (h : c.table.lookup path = some i) : path ∈ c.table.keys :=
  AList.mem_keys.mp (AList.lookup_isSome.mp (by rw [h]; rfl))

lemma getElem?_modify_some {l : List Node} {f : Node → Node} {n' : Node}
    (h : (l.modify i f)[j]? = some n') : ∃ n : Node, l[j]? = some n ∧ n' = if i = j then f n else n := by
  rw [getElem?_modify] at h
  obtain ⟨n, hn, rfl⟩ := map_eq_some_iff.mp h
  exact ⟨n, hn, rfl⟩

lemma path_ne (K : Keyed c) (hkey : c.table.lookup key = some i) (S : StandsAt c j n) (hij : i ≠ j) :
    n.path ≠ key := by
  intro hp
  have := K.named S
  rw [hp, hkey] at this
  exact hij (some.inj this)

/-! ### detach -/

lemma forgetKey_spec (K : Keyed c) (key : Path) : Keyed (c.forgetKey key) ∧
      (∀ p i, (c.forgetKey key).table.lookup p = some i → p ≠ key ∧ c.table.lookup p = some i) ∧
      ∀ i n, StandsAt (c.forgetKey key) i n → StandsAt c i n := by
  unfold forgetKey
  cases hkey : c.table.lookup key with
  | none =>
    refine ⟨K, fun p i h => ⟨?_, h⟩, fun i n h => h⟩
    rintro rfl
    rw [hkey] at h
    cases h
  | some i =>
    have hstay : ∀ j n, StandsAt ⟨c.nodes.modify i Node.markGone, c.table.erase key⟩ j n →
        StandsAt c j n ∧ i ≠ j := by
      rintro j n' ⟨hn', hlive, hhere⟩
      obtain ⟨n, hn, rfl⟩ := getElem?_modify_some hn'
      by_cases hij : i = j
      · rw [if_pos hij, Node.markGone] at hlive hhere
        split at hhere
        · cases hhere
        · next hl =>
          rw [if_neg hl] at hlive
          exact (hl hlive).elim
      · rw [if_neg hij] at hlive hhere ⊢
        exact ⟨⟨hn, hlive, hhere⟩, hij⟩
    refine ⟨⟨fun {j n'} S => ?_, fun {p j} hp => ?_⟩, fun p j => lookup_erase_iff.mp, fun j n' S =>
      (hstay j n' S).1⟩
    · obtain ⟨S, hij⟩ := hstay j n' S
      exact lookup_erase_iff.mpr ⟨path_ne K hkey S hij, K.named S⟩
    · obtain ⟨hpk, hp⟩ := lookup_erase_iff.mp hp
      obtain ⟨n, hn, hlive⟩ := K.holds hp
      by_cases hij : i = j
      · -- a live node would be in the table under two paths
        subst hij
        refine ⟨n.markGone, by rw [getElem?_modify_eq, hn]; rfl, fun hl => ?_⟩
        have hnl : n.live = true := by
          unfold Node.markGone at hl
          split at hl
          · assumption
          · exact hl
        obtain ⟨m, hm, hm'⟩ := K.holds hkey
        rw [hn] at hm
        cases hm
        exact (hpk ((hlive hnl).2.symm.trans (hm' hnl).2)).elim
      · exact ⟨n, (getElem?_modify_ne _ _ hij).trans hn, hlive⟩

lemma forgetKeys_spec (keys : List Path) (K : Keyed c) : Keyed (keys.foldl forgetKey c) ∧
      (∀ p i, (keys.foldl forgetKey c).table.lookup p = some i → p ∉ keys ∧ c.table.lookup p = some i) ∧
      ∀ i n, StandsAt (keys.foldl forgetKey c) i n → StandsAt c i n := by
  induction keys generalizing c with
  | nil => exact ⟨K, fun p i h => ⟨not_mem_nil, h⟩, fun i n h => h⟩
  | cons key rest ih =>
    obtain ⟨K1, ht, hn⟩ := forgetKey_spec K key
    obtain ⟨K2, ht', hn'⟩ := ih K1
    refine ⟨K2, fun p i h => ?_, fun i n S => hn i n (hn' i n S)⟩
    obtain ⟨hrest, h1⟩ := ht' p i h
    obtain ⟨hk, h0⟩ := ht p i h1
    exact ⟨not_mem_cons_of_ne_of_not_mem hk hrest, h0⟩

lemma detach_spec (K : Keyed c) (path : Path) : Keyed (c.detach path) ∧
      ∀ i n, StandsAt (c.detach path) i n → StandsAt c i n ∧ ¬ path <+: n.path := by
  obtain ⟨K', ht, hn⟩ := forgetKeys_spec (c.under path) K
  refine ⟨K', fun i n S => ⟨hn i n S, fun hp => ?_⟩⟩
  obtain ⟨hout, hin⟩ := ht n.path i (K'.named S)
  exact hout (mem_filter.mpr ⟨mem_keys_of_lookup hin, decide_eq_true hp⟩)

/-! ### rekey -/

lemma rehome_spec (old new : Path) (K : Keyed c) (key : Path)
    (hfree : ∀ j n, StandsAt c j n → n.path = new ++ key.drop old.length →
      c.table.lookup key = some j) :
    Keyed (c.rehome old new key) ∧ ∀ j n', StandsAt (c.rehome old new key) j n' →
      StandsAt c j n' ∧ n'.path ≠ key ∨
        ∃ n, StandsAt c j n ∧ n.path = key ∧ n' = { n with path := new ++ key.drop old.length } := by
  unfold rehome
  cases hkey : c.table.lookup key with
  | none =>
    refine ⟨K, fun j n' S => .inl ⟨S, fun hp => ?_⟩⟩
    have := K.named S
    rw [hp, hkey] at this
    cases this
  | some i =>
    obtain ⟨m, hm, hmlive⟩ := K.holds hkey
    by_cases hl : c.isLive i = true
    · simp only [hl, if_true]
      obtain ⟨m', hm', hml⟩ := isLive_iff.mp hl
      rw [hm] at hm'
      cases hm'
      obtain ⟨hgone, hpath⟩ := hmlive hml
      have hcase : ∀ j n', StandsAt ⟨c.nodes.modify i ({ · with path := new ++ key.drop old.length }),
          (c.table.erase key).insert (new ++ key.drop old.length) i⟩ j n' →
          StandsAt c j n' ∧ i ≠ j ∨ i = j ∧ n' = { m with path := new ++ key.drop old.length } := by
        rintro j n' ⟨hn', hlive, hhere⟩
        obtain ⟨n, hn, rfl⟩ := getElem?_modify_some hn'
        by_cases hij : i = j
        · subst hij
          rw [hm] at hn
          cases hn
          exact .inr ⟨rfl, if_pos rfl⟩
        · rw [if_neg hij] at hlive hhere ⊢
          exact .inl ⟨⟨hn, hlive, hhere⟩, hij⟩
      refine ⟨⟨fun {j n'} S => lookup_insert_iff.mpr ?_, fun {p j} hp => ?_⟩, fun j n' S => ?_⟩
      · rcases hcase j n' S with ⟨S, hij⟩ | ⟨hij, rfl⟩
        · refine .inr ⟨fun hp => ?_, lookup_erase_iff.mpr ⟨path_ne K hkey S hij, K.named S⟩⟩
          have := hfree j n' S hp
          rw [hkey] at this
          exact hij (some.inj this)
        · exact .inl ⟨rfl, hij.symm⟩
      · rcases lookup_insert_iff.mp hp with ⟨rfl, rfl⟩ | ⟨hne, hp⟩
        · exact ⟨{ m with path := new ++ key.drop old.length },
            by rw [getElem?_modify_eq, hm]; rfl, fun _ => ⟨hgone, rfl⟩⟩
        · obtain ⟨hpk, hp⟩ := lookup_erase_iff.mp hp
          obtain ⟨n, hn, hlive⟩ := K.holds hp
          have hij : i ≠ j := by
            rintro rfl
            rw [hm] at hn
            cases hn
            exact hpk ((hlive hml).2.symm.trans hpath)
          exact ⟨n, (getElem?_modify_ne _ _ hij).trans hn, hlive⟩
      · rcases hcase j n' S with ⟨S, hij⟩ | ⟨rfl, rfl⟩
        · exact .inl ⟨S, path_ne K hkey S hij⟩
        · exact .inr ⟨m, ⟨hm, hml, hgone⟩, hpath, rfl⟩
    · simp only [hl]
      have hij : ∀ j n', StandsAt c j n' → i ≠ j := by
        rintro j n' S rfl
        exact hl (isLive_iff.mpr ⟨n', S.node, S.live⟩)
      have hsame : ∀ j n', StandsAt ⟨c.nodes, c.table.erase key⟩ j n' → StandsAt c j n' :=
        fun j n' S => ⟨S.node, S.live, S.here⟩
      refine ⟨⟨fun {j n'} S => ?_, fun {p j} hp => K.holds (lookup_erase_iff.mp hp).2⟩,
        fun j n' S => .inl ⟨hsame j n' S, path_ne K hkey (hsame j n' S) (hij j n' (hsame j n' S))⟩⟩
      exact lookup_erase_iff.mpr
        ⟨path_ne K hkey (hsame j n' S) (hij j n' (hsame j n' S)), K.named (hsame j n' S)⟩

lemma drop_of_under (h : old <+: key) : ∃ s, key = old ++ s ∧ key.drop old.length = s := by
  obtain ⟨s, rfl⟩ := h
  exact ⟨s, rfl, drop_left⟩

lemma rehomes_spec (hapart : Apart old new) (keys : List Path) (hnodup : keys.Nodup)
    (hunder : ∀ k ∈ keys, old <+: k) (K : Keyed c)
    (hfree : ∀ j n s, StandsAt c j n → n.path = new ++ s → old ++ s ∉ keys) :
    Keyed (keys.foldl (rehome old new) c) ∧ ∀ j n', StandsAt (keys.foldl (rehome old new) c) j n' →
        ∃ n, StandsAt c j n ∧ n.file = n'.file ∧
          (n' = n ∧ n.path ∉ keys ∨ ∃ s, n.path = old ++ s ∧ n'.path = new ++ s) := by
  induction keys generalizing c with
  | nil => exact ⟨K, fun j n' S => ⟨n', S, rfl, .inl ⟨rfl, not_mem_nil⟩⟩⟩
  | cons key rest ih =>
    obtain ⟨s, hks, hdrop⟩ := drop_of_under (hunder key mem_cons_self)
    obtain ⟨hkey, hnodup⟩ := nodup_cons.mp hnodup
    obtain ⟨K1, hstep⟩ := rehome_spec old new K key fun j n S hp => by
      rw [hdrop] at hp
      exact (hfree j n s S hp (hks ▸ mem_cons_self)).elim
    rw [hdrop] at hstep
    obtain ⟨K2, hrun⟩ := ih hnodup (fun k hk => hunder k (mem_cons_of_mem _ hk)) K1
      fun j n t S hp hmem => by
        rcases hstep j n S with ⟨S0, -⟩ | ⟨n0, -, -, rfl⟩
        · exact hfree j n t S0 hp (mem_cons_of_mem _ hmem)
        · rw [← append_cancel_left hp, ← hks] at hmem
          exact hkey hmem
    refine ⟨K2, fun j n' S' => ?_⟩
    obtain ⟨n1, S1, hfile, hcase⟩ := hrun j n' S'
    rcases hstep j n1 S1 with ⟨S0, hne⟩ | ⟨n0, S0, hp0, rfl⟩
    · exact ⟨n1, S0, hfile, hcase.imp_left fun h => ⟨h.1, not_mem_cons_of_ne_of_not_mem hne h.2⟩⟩
    · refine ⟨n0, S0, hfile, .inr ?_⟩
      rcases hcase with ⟨rfl, -⟩ | ⟨t, ht, -⟩
      · exact ⟨s, hp0.trans hks, rfl⟩
      · -- the node moved out of the old path and is not moved again
        have hnew : new <+: new ++ s := prefix_append ..
        have hold : old <+: new ++ s := by
          rw [show new ++ s = old ++ t from ht]
          exact prefix_append ..
        rcases prefix_or_prefix_of_prefix hold hnew with h | h
        · exact (hapart.new_outside h).elim
        · exact (hapart.old_outside h).elim

lemma rehomes_same (path : Path) (keys : List Path) (hunder : ∀ k ∈ keys, path <+: k) (K : Keyed c) :
    Keyed (keys.foldl (rehome path path) c) ∧
      ∀ j n', StandsAt (keys.foldl (rehome path path) c) j n' → StandsAt c j n' := by
  induction keys generalizing c with
  | nil => exact ⟨K, fun j n' S => S⟩
  | cons key rest ih =>
    obtain ⟨s, hks, hdrop⟩ := drop_of_under (hunder key mem_cons_self)
    obtain ⟨K1, hstep⟩ := rehome_spec path path K key fun j n S hp => by
      rw [hdrop, ← hks] at hp
      rw [← hp]
      exact K.named S
    obtain ⟨K2, hrun⟩ := ih (fun k hk => hunder k (mem_cons_of_mem _ hk)) K1
    refine ⟨K2, fun j n' S' => ?_⟩
    rcases hstep j n' (hrun j n' S') with ⟨S, -⟩ | ⟨n, S, hp, rfl⟩
    · exact S
    · rw [hdrop, ← hks, ← hp]
      exact S

/-- after a rekey the nodes at or under the old path are at the new one -/
lemma rekey_spec (K : Keyed c)
    (hfree : old = new ∨ Apart old new ∧ ∀ j n, StandsAt c j n → ¬ new <+: n.path) :
    Keyed (c.rekey old new) ∧ ∀ j n', StandsAt (c.rekey old new) j n' →
      ∃ n, StandsAt c j n ∧ n.file = n'.file ∧
        (n' = n ∧ ¬ old <+: n.path ∨ ∃ s, n.path = old ++ s ∧ n'.path = new ++ s) := by
  have hunder : ∀ k ∈ c.under old, old <+: k := fun k hk => of_decide_eq_true (mem_filter.mp hk).2
  rcases hfree with rfl | ⟨hapart, hfree⟩
  · obtain ⟨K', h⟩ := rehomes_same old (c.under old) hunder K
    refine ⟨K', fun j n' S' => ⟨n', h j n' S', rfl, ?_⟩⟩
    by_cases hp : old <+: n'.path
    · obtain ⟨s, hs⟩ := hp
      exact .inr ⟨s, hs.symm, hs.symm⟩
    · exact .inl ⟨rfl, hp⟩
  · obtain ⟨K', h⟩ := rehomes_spec hapart (c.under old) ((AList.keys_nodup _).filter _) hunder K
      fun j n s S hp => (hfree j n S (hp ▸ prefix_append ..)).elim
    refine ⟨K', fun j n' S' => ?_⟩
    obtain ⟨n, S, hfile, hcase⟩ := h j n' S'
    refine ⟨n, S, hfile, hcase.imp_left fun h => ⟨h.1, fun hp => h.2 ?_⟩⟩
    exact mem_filter.mpr ⟨mem_keys_of_lookup (K.named S), decide_eq_true hp⟩

/-! ### the other changes -/

lemma make_spec (K : Keyed c) (path : Path) (file : Nat)
    (hnone : ∀ j n, StandsAt c j n → n.path ≠ path) : Keyed (nodeFor.make path file c) ∧
      (∀ (j : Nat) (n : Node), c.nodes[j]? = some n → (nodeFor.make path file c).nodes[j]? = some n) ∧
      ∀ j n, StandsAt (nodeFor.make path file c) j n →
        StandsAt c j n ∨ n.path = path ∧ n.file = file := by
  have hlast : ∀ j n, StandsAt (nodeFor.make path file c) j n →
      StandsAt c j n ∨ j = c.nodes.length ∧ n = ⟨path, false, true, file⟩ := by
    rintro j n ⟨hn, hlive, hhere⟩
    rw [nodeFor.make, List.getElem?_append] at hn
    split at hn
    · exact .inl ⟨hn, hlive, hhere⟩
    · next hj =>
      obtain ⟨hj', rfl⟩ := List.getElem?_eq_some_iff.mp hn
      rw [List.length_singleton] at hj'
      exact .inr ⟨by omega, List.getElem_singleton _⟩
  have hold : ∀ (j : Nat) (n : Node), c.nodes[j]? = some n →
      (nodeFor.make path file c).nodes[j]? = some n := fun j n h => by
    rw [nodeFor.make, List.getElem?_append_left (List.getElem?_eq_some_iff.mp h).1, h]
  refine ⟨⟨fun {j n} S => lookup_insert_iff.mpr ?_, fun {p j} hp => ?_⟩, hold, fun j n S => ?_⟩
  · rcases hlast j n S with S | ⟨rfl, rfl⟩
    · exact .inr ⟨hnone j n S, K.named S⟩
    · exact .inl ⟨rfl, rfl⟩
  · rcases lookup_insert_iff.mp hp with ⟨rfl, rfl⟩ | ⟨-, hp⟩
    · exact ⟨⟨p, false, true, file⟩, List.getElem?_concat_length, fun _ => ⟨rfl, rfl⟩⟩
    · obtain ⟨n, hn, h⟩ := K.holds hp
      exact ⟨n, hold j n hn, h⟩
  · rcases hlast j n S with S | ⟨-, rfl⟩
    · exact .inl S
    · exact .inr ⟨rfl, rfl⟩

lemma nodeFor_spec (K : Keyed c) (path : Path) (file : Nat) : Keyed (c.nodeFor path file) ∧
      (∀ (j : Nat) (n : Node), c.nodes[j]? = some n → (c.nodeFor path file).nodes[j]? = some n) ∧
      ∀ j n, StandsAt (c.nodeFor path file) j n → StandsAt c j n ∨ n.path = path ∧ n.file = file := by
  unfold nodeFor
  cases hp : c.table.lookup path with
  | none =>
    refine make_spec K path file fun j n S h => ?_
    have := K.named S
    rw [h, hp] at this
    cases this
  | some i =>
    by_cases hl : c.isLive i = true
    · simp only [hl, if_true]
      exact ⟨K, fun j n h => h, fun j n S => .inl S⟩
    · simp only [hl]
      refine make_spec K path file fun j n S h => hl ?_
      have := K.named S
      rw [h, hp] at this
      cases this
      exact isLive_iff.mpr ⟨n, S.node, S.live⟩

lemma lookup_foldl_erase (keys : List Path) (t : AList fun _ : Path => Nat) (p : Path) (i : Nat) :
    (keys.foldl (fun t p => t.erase p) t).lookup p = some i ↔ p ∉ keys ∧ t.lookup p = some i := by
  induction keys generalizing t with
  | nil => simp
  | cons k rest ih =>
    rw [foldl_cons, ih, lookup_erase_iff, mem_cons, not_or]
    tauto

lemma sweep_spec (K : Keyed c) : Keyed c.sweep := by
  refine ⟨fun {i n} S => ?_, fun {p i} hp => K.holds ((lookup_foldl_erase ..).mp hp).2⟩
  have S' : StandsAt c i n := ⟨S.node, S.live, S.here⟩
  refine (lookup_foldl_erase ..).mpr ⟨fun hmem => ?_, K.named S'⟩
  have hdead := (mem_filter.mp hmem).2
  rw [K.named S', any_some, isLive_iff.mpr ⟨n, S'.node, S'.live⟩] at hdead
  cases hdead

end Known

/-! ## runs in which an unlink or a rename is alone -/

section
variable {V : Type} {F : Files V} {w w' : World V} {k : Nat} {n : Node}

/-- a node during a rename: what is at or under the old path is on the volume at the new one -/
inductive Renaming (F : Files V) (v : V) (old new : Path) (n : Node) : Prop
  | under (s : Path) : n.path = old ++ s → F.fileAt v (new ++ s) = some n.file → Renaming F v old new n
  | apart : ¬ old <+: n.path → (old = new ∨ ¬ new <+: n.path) → F.fileAt v n.path = some n.file →
    Renaming F v old new n

def Place.Fits (F : Files V) (v : V) (n : Node) : Place → Prop
  | .detach path => path <+: n.path ∨ F.fileAt v n.path = some n.file
  | .replace path old new => path <+: n.path ∨ Renaming F v old new n
  | .rekey old new => Renaming F v old new n
  | _ => F.fileAt v n.path = some n.file

def Place.Ready (F : Files V) (w : World V) : Place → Prop
  | .nodeFor path file => F.fileAt w.volume path = some file
  | .access i path => ∃ n, StandsAt w.known i n ∧ n.path = path
  | .replace _ old new | .rekey old new => old = new ∨ Apart old new
  | _ => True

structure World.Tidy (F : Files V) (w : World V) : Prop where
  keyed : Keyed w.known
  lone : ∀ k, (w.place k).moves = true → ∀ k', k' ≠ k → w.place k' = .idle
  fits : ∀ k, (∀ k', k' ≠ k → (w.place k').moves = false) →
    ∀ i n, StandsAt w.known i n → (w.place k).Fits F w.volume n
  ready : ∀ k, (w.place k).Ready F w
  told : ∀ a ∈ w.accesses, a.2 = some a.1

lemma Place.fits_iff (h : place.moves = false) {v : V} :
    place.Fits F v n ↔ F.fileAt v n.path = some n.file := by
  cases place <;> first | rfl | cases h

lemma World.Tidy.others (T : w.Tidy F) (h : w.place k ≠ .idle) :
    ∀ k', k' ≠ k → (w.place k').moves = false := by
  intro k' hk'
  cases hm : (w.place k').moves with
  | false => rfl
  | true => exact (h (T.lone k' hm k hk'.symm)).elim

lemma Place.Ready.mono (h : place.Ready F w) (hmoves : place.moves = false)
    (hfile : ∀ p f, F.fileAt w.volume p = some f → F.fileAt w'.volume p = some f)
    (hnode : ∀ i n, StandsAt w.known i n → StandsAt w'.known i n) : place.Ready F w' := by
  cases place with
  | nodeFor path file => exact hfile _ _ h
  | access i path =>
    obtain ⟨n, S, hp⟩ := h
    exact ⟨n, hnode i n S, hp⟩
  | replace | rekey => cases hmoves
  | _ => trivial

@[simp] lemma World.moveTo_place (w : World V) (k : Nat) (place : Place) :
    (w.moveTo k place).place k = place := Function.update_self ..

lemma World.moveTo_other (w : World V) (place : Place) {k k' : Nat} (h : k' ≠ k) :
    (w.moveTo k place).place k' = w.place k' := Function.update_of_ne h ..

lemma World.Tidy.step (T : w.Tidy F) (hsame : w'.place = w.place)
    (hcalm : ∀ k', k' ≠ k → (w.place k').moves = false) (keyed : Keyed w'.known)
    (lone : place.moves = true → ∀ k', k' ≠ k → w.place k' = .idle)
    (fits : ∀ i n, StandsAt w'.known i n → place.Fits F w'.volume n)
    (ready : place.Ready F (w'.moveTo k place))
    (others : ∀ k', k' ≠ k → (w.place k').Ready F w → (w.place k').Ready F (w'.moveTo k place))
    (told : ∀ a ∈ w'.accesses, a.2 = some a.1) : (w'.moveTo k place).Tidy F where
  keyed := keyed
  lone k1 hm k2 hne := by
    by_cases h1 : k1 = k
    · subst h1
      rw [moveTo_place] at hm
      rw [moveTo_other _ _ hne, hsame]
      exact lone hm k2 hne
    · rw [moveTo_other _ _ h1, hsame, hcalm k1 h1] at hm
      cases hm
  fits k1 h i n S := by
    by_cases h1 : k1 = k
    · rw [h1, moveTo_place]
      exact fits i n S
    · have hk := h k (Ne.symm h1)
      rw [moveTo_place] at hk
      rw [moveTo_other _ _ h1, hsame]
      exact (Place.fits_iff (hcalm k1 h1)).mpr ((Place.fits_iff hk).mp (fits i n S))
  ready k1 := by
    by_cases h1 : k1 = k
    · rw [h1, moveTo_place]
      exact ready
    · rw [moveTo_other _ _ h1, hsame]
      exact others k1 h1 (T.ready k1)
  told := told

lemma World.Tidy.moveTo (T : w.Tidy F) (hcalm : ∀ k', k' ≠ k → (w.place k').moves = false) (v : V)
    (hv : ∀ p f, F.fileAt w.volume p = some f → F.fileAt v p = some f)
    (hfits : ∀ i n, StandsAt w.known i n → F.fileAt w.volume n.path = some n.file)
    (hplain : ∀ n, F.fileAt v n.path = some n.file → place.Fits F v n)
    (lone : place.moves = true → ∀ k', k' ≠ k → w.place k' = .idle)
    (ready : place.Ready F { w with volume := v }) :
    ({ w with volume := v }.moveTo k place).Tidy F := by
  refine T.step rfl hcalm T.keyed lone ?_ ready ?_ T.told
  · intro i n S
    exact hplain n (hv _ _ (hfits i n S))
  · intro k' hk' h
    exact h.mono (hcalm k' hk') hv fun i n S => S

lemma World.Tidy.pathOf (T : w.Tidy F) (hcalm : ∀ k', k' ≠ k → (w.place k').moves = false)
    (hfits : ∀ i n, StandsAt w.known i n → F.fileAt w.volume n.path = some n.file)
    {node : Nat} {next : Path → Place}
    (hplain : ∀ p n, F.fileAt w.volume n.path = some n.file → (next p).Fits F w.volume n)
    (lone : ∀ p, (next p).moves = true → ∀ k', k' ≠ k → w.place k' = .idle)
    (ready : ∀ n : Node, w.known.nodes[node]? = some n → n.gone = false → (next n.path).Ready F w) :
    (w.pathOf k node next).Tidy F := by
  unfold World.pathOf
  cases hn : w.known.nodes[node]? with
  | none => exact T
  | some n =>
    simp only []
    split
    · exact T.moveTo hcalm w.volume (fun _ _ h => h) hfits (fun n h => h) nofun trivial
    · next hg =>
      exact T.moveTo hcalm w.volume (fun _ _ h => h) hfits (hplain n.path) (lone n.path)
        (ready n hn (Bool.eq_false_iff.mpr hg))

lemma World.Tidy.settled (T : w.Tidy F) (hcalm : ∀ k', k' ≠ k → (w.place k').moves = false)
    (h : ∀ n, (w.place k).Fits F w.volume n → F.fileAt w.volume n.path = some n.file) :
    ∀ i n, StandsAt w.known i n → F.fileAt w.volume n.path = some n.file :=
  fun i n S => h n (T.fits k hcalm i n S)

lemma World.Tidy.quiet (T : w.Tidy F) (hk : w.place k = place) (hbusy : place ≠ .idle)
    (h : ∀ n, place.Fits F w.volume n → F.fileAt w.volume n.path = some n.file) :
    (∀ k', k' ≠ k → (w.place k').moves = false) ∧
      ∀ i n, StandsAt w.known i n → F.fileAt w.volume n.path = some n.file := by
  subst hk
  have hcalm := T.others hbusy
  exact ⟨hcalm, T.settled hcalm h⟩

lemma Moved.node {v v' : V} {replaced : Prop} (hmoved : Moved (F.fileAt v) (F.fileAt v') old new)
    (hnew : old = new ∨ Apart old new ∧ (replaced ∨ ∀ s, F.fileAt v (new ++ s) = none))
    (h : F.fileAt v n.path = some n.file) :
    replaced ∧ old ≠ new ∧ new <+: n.path ∨ Renaming F v' old new n := by
  by_cases hold : old <+: n.path
  · obtain ⟨s, hs⟩ := hold
    refine .inr (.under s hs.symm ?_)
    rw [hmoved.there, hs, h]
  · by_cases hp : new <+: n.path
    · rcases hnew with rfl | ⟨hapart, hrep | hnone⟩
      · exact (hold hp).elim
      · exact .inl ⟨hrep, fun he => hapart.new_outside (he ▸ prefix_rfl), hp⟩
      · obtain ⟨s, hs⟩ := hp
        rw [← hs, hnone] at h
        cases h
    · refine .inr (.apart hold (.inr hp) ?_)
      rw [hmoved.elsewhere _ hold hp, h]

lemma Faithful.lookup_files (hF : Faithful F) {v v' : V} (h : ∀ q f, F.fileAt v q = some f →
      F.fileAt v' q = some f) (d : Path) (n : String) :
    ∀ q f, F.fileAt v q = some f → F.fileAt (F.lookup v' d n).1 q = some f := fun q f hq =>
  (congrFun (hF.lookup_keeps v' d n).1 q).trans (h q f hq)

variable (hF : Faithful F)
include hF

section
variable (T : w.Tidy F)
include T

lemma World.Tidy.lookup (hk : w.place k = .lookup dir name) :
    (w.found F k dir (F.lookup w.volume dir name)).Tidy F := by
  obtain ⟨hcalm, hfits⟩ := T.quiet hk nofun fun n h => h
  have hv := hF.lookup_files (fun _ _ h => h) (v := w.volume) dir name
  unfold found
  cases hr : (F.lookup w.volume dir name).2 with
  | error e => exact T.moveTo hcalm _ hv hfits (fun n h => h) nofun trivial
  | ok m =>
    obtain ⟨f, hf⟩ := hF.lookup_ok _ _ _ _ hr
    refine T.moveTo hcalm _ hv hfits (fun n h => h) nofun ?_
    show F.fileAt _ _ = some _
    rw [hv _ _ hf]
    rfl

lemma World.Tidy.make {isDir : Bool} (hk : w.place k = .make isDir dir name) :
    (w.found F k dir (F.make w.volume isDir dir name)).Tidy F := by
  obtain ⟨hcalm, hfits⟩ := T.quiet hk nofun fun n h => h
  unfold found
  cases hr : (F.make w.volume isDir dir name).2 with
  | error e => exact T.moveTo hcalm _ (hF.make_error _ _ _ _ _ hr) hfits (fun n h => h) nofun trivial
  | ok m =>
    obtain ⟨hnone, -, hv⟩ := hF.make_ok _ _ _ _ _ hr
    -- a file that was there is at another path than the new one
    have hkeep : ∀ p f, F.fileAt w.volume p = some f →
        F.fileAt (F.make w.volume isDir dir name).1 p = some f := by
      intro p f hp
      rw [hv, if_neg, hp]
      rintro rfl
      rw [hnone] at hp
      cases hp
    simp only []
    refine T.step rfl hcalm T.keyed nofun ?_ ?_ ?_ T.told
    · intro i n S
      exact hkeep _ _ (hfits i n S)
    · show F.fileAt (F.make w.volume isDir dir name).1 _ = some _
      rw [hv, if_pos rfl]
      rfl
    · intro k' hk' h
      exact h.mono (hcalm k' hk') hkeep fun i n S => S

omit hF in
lemma World.Tidy.nodeFor {file : Nat} (hk : w.place k = .nodeFor path file) :
    ({ w with known := w.known.nodeFor path file }.moveTo k .idle).Tidy F := by
  obtain ⟨hcalm, hfits⟩ := T.quiet hk nofun fun n h => h
  have hready := T.ready k
  rw [hk] at hready
  obtain ⟨K, hkeep, hnew⟩ := Known.nodeFor_spec T.keyed path file
  refine T.step rfl hcalm K nofun ?_ trivial ?_ T.told
  · intro i n S
    rcases hnew i n S with S | ⟨hp, hf⟩
    · exact hfits i n S
    · show F.fileAt w.volume n.path = some n.file
      rw [hp, hf]
      exact hready
  · intro k' hk' h
    exact h.mono (hcalm k' hk') (fun _ _ h => h) fun i n S => ⟨hkeep i n S.node, S.live, S.here⟩

lemma World.Tidy.unlinkHold {wantDir : Bool} (hk : w.place k = .unlink dir name wantDir)
    (hundone : w.Undone F k) : (w.unlinkHold F k dir name wantDir).Tidy F := by
  obtain ⟨hcalm, hfits⟩ := T.quiet hk nofun fun n h => h
  have hv := hF.lookup_files (fun _ _ h => h) (v := w.volume) dir name
  rw [World.Undone, hk] at hundone
  unfold World.unlinkHold
  simp only []
  cases hr : (F.lookup w.volume dir name).2 with
  | error e => exact T.moveTo hcalm _ hv hfits (fun n h => h) nofun trivial
  | ok entry =>
    simp only []
    cases hr' : (F.remove (F.lookup w.volume dir name).1 dir name wantDir).2 with
    | error e =>
      exact T.moveTo hcalm _ (hundone e hr') hfits (fun n h => h) nofun trivial
    | ok _ =>
      have hcut := hF.remove_ok _ _ _ _ _ hr hr'
      have hidle := T.lone k (by rw [hk]; rfl)
      simp only []
      refine T.step rfl hcalm T.keyed (fun _ => hidle) ?_ trivial ?_ T.told
      · intro i n S
        by_cases hp : dir ++ [entry] <+: n.path
        · exact .inl hp
        · refine .inr ((hcut n.path).trans ?_)
          rw [if_neg hp]
          exact hfits i n S
      · intro k' hk' _
        rw [hidle k' hk']
        trivial

omit hF in
lemma World.Tidy.detach {next : Place} (hmoves : (w.place k).moves = true)
    (hready : next.Ready F w) (hheld : next.holds = none)
    (hfits : ∀ n, (w.place k).Fits F w.volume n → path <+: n.path ∨ next.Fits F w.volume n) :
    ({ w with known := w.known.detach path }.moveTo k next).Tidy F := by
  have hidle := T.lone k hmoves
  have hcalm : ∀ k', k' ≠ k → (w.place k').moves = false := fun k' h => by rw [hidle k' h]; rfl
  obtain ⟨K, hkeep⟩ := Known.detach_spec T.keyed path
  refine T.step rfl hcalm K (fun _ => hidle) ?_ ?_ ?_ T.told
  · intro i n S
    obtain ⟨S, hp⟩ := hkeep i n S
    exact (hfits n (T.fits k hcalm i n S)).resolve_left hp
  · cases next with
    | access => cases hheld
    | _ => exact hready
  · intro k' hk' _
    rw [hidle k' hk']
    trivial

lemma World.Tidy.renameHold {dir' : Path} {name' : String}
    (hk : w.place k = .rename dir name dir' name') (hundone : w.Undone F k) :
    (w.renameHold F k dir name dir' name').Tidy F := by
  obtain ⟨hcalm, hfits⟩ := T.quiet hk nofun fun n h => h
  have hv := hF.lookup_files (fun _ _ h => h) (v := w.volume) dir name
  rw [World.Undone, hk] at hundone
  have hidle := T.lone k (by rw [hk]; rfl)
  unfold World.renameHold
  simp only []
  cases hr : (F.lookup w.volume dir name).2 with
  | error e => exact T.moveTo hcalm _ hv hfits (fun n h => h) nofun trivial
  | ok source =>
    simp only []
    cases hr' : (F.rename (F.lookup (F.lookup w.volume dir name).1 dir' name').1 dir name dir' name').2 with
    | error e =>
      exact T.moveTo hcalm _ (hundone e hr') hfits (fun n h => h) nofun trivial
    | ok entry =>
      obtain ⟨hmoved, hnew⟩ := hF.rename_ok _ _ _ _ _ _ _ hr hr'
      have hready : dir ++ [source] = dir' ++ [entry] ∨ Apart (dir ++ [source]) (dir' ++ [entry]) :=
        hnew.imp_right And.left
      simp only []
      refine T.step rfl hcalm T.keyed (fun _ => hidle) ?_ ?_ ?_
        T.told
      · intro i n S
        have hcase := hmoved.node hnew (hfits i n S)
        cases hx : (F.lookup (F.lookup w.volume dir name).1 dir' name').2 with
        | error e =>
          rcases hcase with ⟨hrep, -⟩ | h
          · rw [hx] at hrep
            cases hrep
          · exact h
        | ok target =>
          rw [hx] at hcase
          rw [Place.afterRename]
          split
          · rcases hcase with ⟨hrep, -, hp⟩ | h
            · cases hrep
              exact .inl hp
            · exact .inr h
          · next he =>
            rcases hcase with ⟨hrep, hne, -⟩ | h
            · cases hrep
              exact (he fun h => hne h.symm).elim
            · exact h
      · unfold Place.afterRename
        split
        · split <;> exact hready
        · exact hready
      · intro k' hk' _
        rw [hidle k' hk']
        trivial

omit T hF in
lemma Renaming.outside {v : V} (R : Renaming F v old new n) (hapart : Apart old new) :
    ¬ new <+: n.path := by
  intro hp
  cases R with
  | under s hs _ =>
    have hold : old <+: n.path := hs ▸ prefix_append ..
    rcases prefix_or_prefix_of_prefix hold hp with h | h
    · exact hapart.new_outside h
    · exact hapart.old_outside h
  | apart _ h _ =>
    rcases h with rfl | h
    · exact hapart.new_outside prefix_rfl
    · exact h hp

omit hF in
lemma World.Tidy.rekey (hk : w.place k = .rekey old new) :
    ({ w with known := w.known.rekey old new }.moveTo k .idle).Tidy F := by
  have hcalm := T.others (k := k) (by rw [hk]; nofun)
  have hidle := T.lone k (by rw [hk]; rfl)
  have hfits := T.fits k hcalm
  have hready := T.ready k
  rw [hk] at hfits hready
  obtain ⟨K, hkeep⟩ := Known.rekey_spec T.keyed (hready.imp_right fun hapart =>
    ⟨hapart, fun j n S => (hfits j n S).outside hapart⟩)
  refine T.step rfl hcalm K (fun _ => hidle) ?_ trivial ?_ T.told
  · intro i n' S'
    show F.fileAt w.volume n'.path = some n'.file
    obtain ⟨n, S, hfile, ⟨rfl, hout⟩ | ⟨s, hs, hs'⟩⟩ := hkeep i n' S'
    · cases hfits i n' S with
      | under s hs _ => exact (hout (hs ▸ prefix_append ..)).elim
      | apart _ _ h => exact h
    · rw [hs', ← hfile]
      cases hfits i n S with
      | under t ht h => rwa [← append_cancel_left (ht.symm.trans hs)]
      | apart hout _ _ => exact (hout (hs ▸ prefix_append ..)).elim
  · intro k' hk' _
    rw [hidle k' hk']
    trivial

lemma World.Tidy.accessHold {node : Nat} (hk : w.place k = .access node path) :
    (w.accessHold F k node path).Tidy F := by
  obtain ⟨hcalm, hfits⟩ := T.quiet hk nofun fun n h => h
  have hready := T.ready k
  rw [hk] at hready
  obtain ⟨n, S, rfl⟩ := hready
  have hv := hF.access_keeps w.volume n.path
  refine T.step rfl hcalm T.keyed nofun ?_ trivial ?_ ?_
  · intro i m S
    show F.fileAt (F.access w.volume n.path).1 m.path = some m.file
    rw [hv]
    exact hfits i m S
  · intro k' hk' h
    refine h.mono (hcalm k' hk') (fun p f h => ?_) fun i m S => S
    rw [← hv] at h
    exact h
  · intro a ha
    rcases mem_cons.mp ha with rfl | ha
    · rw [hfits node n S, S.node]
      rfl
    · exact T.told a ha

lemma World.Tidy.go (hk : w.place k ≠ .idle) (hundone : w.Undone F k) : (w.go F k).Tidy F := by
  unfold World.go
  have hcalm := T.others hk
  cases hp : w.place k with
  | idle => exact T
  | lookup dir name => exact T.lookup hF hp
  | make isDir dir name => exact T.make hF hp
  | nodeFor path file => exact T.nodeFor hp
  | unlink dir name wantDir => exact T.unlinkHold hF hp hundone
  | detach path =>
    exact T.detach (by rw [hp]; rfl) trivial rfl fun n h => by
      rw [hp] at h
      exact h
  | pathTo dir name node name' =>
    refine T.pathOf hcalm (T.settled hcalm (by rw [hp]; exact fun n h => h)) (fun p n h => h) ?_
      fun n _ _ => trivial
    exact fun p _ => T.lone k (by rw [hp]; rfl)
  | rename dir name dir' name' => exact T.renameHold hF hp hundone
  | replace path old new =>
    have hready := T.ready k
    rw [hp] at hready
    exact T.detach (by rw [hp]; rfl) hready rfl fun n h => by
      rw [hp] at h
      exact h
  | rekey old new => exact T.rekey hp
  | access node path => exact T.accessHold hF hp

omit hF in
lemma World.Tidy.release {node : Nat} (h : ∀ k, (w.place k).holds ≠ some node) :
    (w.release node).Tidy F := by
  have hstay : ∀ i n, StandsAt (w.release node).known i n → StandsAt w.known i n := by
    rintro i n' ⟨hn', hlive, hhere⟩
    obtain ⟨n, hn, rfl⟩ := Known.getElem?_modify_some hn'
    split at hlive
    · cases hlive
    · next hi =>
      rw [if_neg hi] at hhere ⊢
      exact ⟨hn, hlive, hhere⟩
  refine ⟨⟨fun {i n} S => T.keyed.named (hstay i n S), fun {p i} hp => ?_⟩, T.lone,
    fun k hk i n S => T.fits k hk i n (hstay i n S), fun k => ?_, T.told⟩
  · obtain ⟨n, hn, hlive⟩ := T.keyed.holds hp
    refine ⟨if node = i then { n with live := false } else n, ?_, fun hl => ?_⟩
    · rw [World.release, getElem?_modify, hn]
      rfl
    · split at hl
      · cases hl
      · next hi =>
        rw [if_neg hi]
        exact hlive hl
  · have hready := T.ready k
    have hheld := h k
    show (w.place k).Ready F (w.release node)
    cases hp : w.place k with
    | access i path =>
      rw [hp] at hready hheld
      obtain ⟨n, S, hpath⟩ := hready
      have hi : node ≠ i := fun he => hheld (by rw [he]; rfl)
      exact ⟨n, ⟨(getElem?_modify_ne _ _ hi).trans S.node, S.live, S.here⟩, hpath⟩
    | _ =>
      rw [hp] at hready
      exact hready

lemma World.Tidy.run (move : Move) (henabled : move.Enabled w) (hcalm : move.Calm F w) :
    (move.run F w).Tidy F := by
  have hsettled : (∀ k, (w.place k).moves = false) →
      ∀ i n, StandsAt w.known i n → F.fileAt w.volume n.path = some n.file := fun h i n S =>
    (Place.fits_iff (h 0)).mp (T.fits 0 (fun k _ => h k) i n S)
  have hquiet : (∀ k, w.place k = .idle) → ∀ k, (w.place k).moves = false := fun h k => by
    rw [h k]
    rfl
  cases move with
  | lookup k dir name =>
    show (w.pathOf k dir fun p => .lookup p name).Tidy F
    exact T.pathOf (fun k' _ => hcalm k') (hsettled hcalm) (fun p n h => h) (fun p => nofun)
      fun n _ _ => trivial
  | make k dir isDir name =>
    show (w.pathOf k dir fun p => .make isDir p name).Tidy F
    exact T.pathOf (fun k' _ => hcalm k') (hsettled hcalm) (fun p n h => h) (fun p => nofun)
      fun n _ _ => trivial
  | unlink k dir name wantDir =>
    show (w.pathOf k dir fun p => .unlink p name wantDir).Tidy F
    exact T.pathOf (fun k' _ => hquiet hcalm k') (hsettled (hquiet hcalm)) (fun p n h => h)
      (fun p _ k' _ => hcalm k') fun n _ _ => trivial
  | rename k dir name dir' name' =>
    show (w.pathOf k dir fun p => .pathTo p name dir' name').Tidy F
    exact T.pathOf (fun k' _ => hquiet hcalm k') (hsettled (hquiet hcalm)) (fun p n h => h)
      (fun p _ k' _ => hcalm k') fun n _ _ => trivial
  | access k node =>
    show (w.pathOf k node fun p => .access node p).Tidy F
    refine T.pathOf (fun k' _ => hcalm k') (hsettled hcalm) (fun p n h => h) (fun p => nofun)
      fun n hn hg => ?_
    obtain ⟨m, hm, hlive⟩ := Known.isLive_iff.mp henabled.2
    rw [hn] at hm
    cases hm
    exact ⟨n, ⟨hn, hlive, hg⟩, rfl⟩
  | go k => exact T.go hF henabled hcalm
  | drop node => exact T.release henabled
  | sweep =>
    refine ⟨Known.sweep_spec T.keyed, T.lone,
      fun k hk i n S => T.fits k hk i n ⟨S.node, S.live, S.here⟩, fun k => ?_, T.told⟩
    have hready := T.ready k
    show (w.place k).Ready F _
    cases hp : w.place k with
    | access i path =>
      rw [hp] at hready
      obtain ⟨n, S, hpath⟩ := hready
      exact ⟨n, ⟨S.node, S.live, S.here⟩, hpath⟩
    | _ =>
      rw [hp] at hready
      exact hready

end

lemma World.Tidy.publish (v : V) : (World.publish F v).Tidy F := by
  obtain ⟨f, hf⟩ := hF.root v
  have hroot : ∀ i n, StandsAt (World.publish F v).known i n → i = 0 ∧ n = ⟨[], false, true, f⟩ := by
    rintro i n ⟨hn, -, -⟩
    obtain ⟨hi, rfl⟩ := List.getElem?_eq_some_iff.mp hn
    simp only [World.publish, Known.publish, List.length_singleton] at hi
    have hi0 : i = 0 := by omega
    subst hi0
    refine ⟨rfl, ?_⟩
    simp only [World.publish, Known.publish, hf]
    rfl
  refine ⟨⟨fun {i n} S => ?_, fun {p i} hp => ?_⟩, fun k h => Bool.noConfusion h, fun k _ i n S => ?_,
    fun k => trivial, fun a ha => nomatch ha⟩
  · obtain ⟨rfl, rfl⟩ := hroot i n S
    rfl
  · have hp' : p = [] ∧ i = 0 := by
      by_cases h : p = []
      · subst h
        exact ⟨rfl, (some.inj hp).symm⟩
      · rw [World.publish, Known.publish, AList.singleton] at hp
        simp [AList.lookup, List.dlookup, Ne.symm h] at hp
    obtain ⟨rfl, rfl⟩ := hp'
    exact ⟨_, rfl, fun _ => ⟨rfl, rfl⟩⟩
  · obtain ⟨rfl, rfl⟩ := hroot i n S
    exact hf

end

/-! ## a volume -/

/-- entries on a device; a `worn` one fails a removal after it has taken the entry out -/
structure Plain where
  entries : List (Path × Nat)
  made : Nat
  worn : Bool
deriving DecidableEq

namespace Plain
section
variable (v : Plain) (d : Path) (n : String)

def fileAt (p : Path) : Option Nat :=
  if p = [] then some 0 else (v.entries.find? fun e => e.1 = p).map Prod.snd

def lookup : Plain × Except FsError String :=
  (v, if (v.fileAt (d ++ [n])).isSome then .ok n else .error .NotFound)

def make (_ : Bool) (d : Path) (n : String) : Plain × Except FsError String :=
  if (v.fileAt (d ++ [n])).isSome then (v, .error .Exists)
  else (⟨(d ++ [n], v.made) :: v.entries, v.made + 1, v.worn⟩, .ok n)

def filled (p : Path) : Bool := v.entries.any fun e => e.1 ≠ p && p <+: e.1

def remove (_ : Bool) : Plain × Except FsError Unit :=
  if (v.fileAt (d ++ [n])).isNone then (v, .error .NotFound)
  else if v.filled (d ++ [n]) then (v, .error .NotEmpty)
  else
    ({ v with entries := v.entries.filter fun e => !(d ++ [n] <+: e.1) },
      if v.worn then .error .Io else .ok ())

def moved (old new p : Path) : Path := if old <+: p then new ++ p.drop old.length else p

def rename (d' : Path) (n' : String) : Plain × Except FsError String :=
  let old := d ++ [n]
  let new := d' ++ [n']
  if (v.fileAt old).isNone then (v, .error .NotFound)
  else if old = new then (v, .ok n')
  else if old <+: new then (v, .error .Invalid)
  else if new <+: old ∨ v.filled new then (v, .error .NotEmpty)
  else
    ({ v with
        entries := (v.entries.filter fun e => !(new <+: e.1)).map fun e => (moved old new e.1, e.2) },
      .ok n')

def access (p : Path) : Plain × Except FsError Unit :=
  (v, if (v.fileAt p).isSome then .ok () else .error .NotFound)

end

def files : Files Plain := ⟨fileAt, Plain.made, lookup, make, remove, rename, access⟩

variable {v : Plain} {old new p : Path}

lemma fileAt_of_ne (h : p ≠ []) (v : Plain) :
    v.fileAt p = (v.entries.find? fun e => e.1 = p).map Prod.snd := if_neg h

lemma fileAt_map {entries : List (Path × Nat)} {keep : Path × Nat → Bool} {go : Path → Path}
    {made : Nat} {worn : Bool} {p q : Path} (hp : p ≠ []) (hq : q ≠ [])
    (h : ∀ e : Path × Nat, (keep e && decide (go e.1 = p)) = decide (e.1 = q)) :
    fileAt ⟨(entries.filter keep).map fun e => (go e.1, e.2), made, worn⟩ p =
      fileAt ⟨entries, made, worn⟩ q := by
  rw [fileAt_of_ne hp, fileAt_of_ne hq, find?_map, find?_filter, Option.map_map]
  congr 1
  refine congrArg (entries.find? ·) (funext fun e => ?_)
  rw [← h e]
  simp

lemma moved_spec (hapart : Apart old new) (hold : old ≠ []) (hnew : new ≠ []) (v : Plain) :
    Moved v.fileAt
      (fileAt ⟨(v.entries.filter fun e => !(new <+: e.1)).map fun e => (moved old new e.1, e.2), v.made,
        v.worn⟩)
      old new := by
  have hsame : ∀ e : Path × Nat, old <+: e.1 → ¬ new <+: e.1 := by
    intro e ho hn
    rcases prefix_or_prefix_of_prefix ho hn with h | h
    · exact hapart.new_outside h
    · exact hapart.old_outside h
  refine ⟨fun s => ?_, fun p ho hn => ?_, fun _ s => ?_⟩
  · refine fileAt_map (by simp [hnew]) (by simp [hold]) fun e => ?_
    by_cases ho : old <+: e.1
    · obtain ⟨t, ht⟩ := ho
      have hn := hsame e ⟨t, ht⟩
      rw [← ht] at hn
      simp [moved, ← ht, hn]
    · have hne : e.1 ≠ old ++ s := fun h => ho (h ▸ prefix_append ..)
      by_cases hn : new <+: e.1
      · simp [hn, hne]
      · have : e.1 ≠ new ++ s := fun h => hn (h ▸ prefix_append ..)
        simp [moved, ho, hne, this]
  · by_cases hp : p = []
    · subst hp
      rfl
    · refine fileAt_map hp hp fun e => ?_
      by_cases ho' : old <+: e.1
      · have h1 : e.1 ≠ p := fun h => ho (h ▸ ho')
        have h2 : new ++ e.1.drop old.length ≠ p := fun h => hn (h ▸ prefix_append ..)
        simp [moved, ho', h1, h2]
      · by_cases hn' : new <+: e.1
        · have h1 : e.1 ≠ p := fun h => hn (h ▸ hn')
          simp [hn', h1]
        · simp [moved, ho', hn']
  · rw [fileAt_of_ne (by simp [hold]), map_eq_none_iff, find?_eq_none]
    intro e he
    obtain ⟨e', he', rfl⟩ := mem_map.mp he
    have hn := (mem_filter.mp he').2
    simp only [decide_eq_true_eq]
    intro h
    unfold moved at h
    split at h
    · rcases prefix_or_prefix_of_prefix (h ▸ prefix_append new _ : new <+: old ++ s)
        (prefix_append old s) with h' | h'
      · exact hapart.old_outside h'
      · exact hapart.new_outside h'
    · next ho => exact ho (h ▸ prefix_append ..)

lemma not_filled (h : v.filled p = false) (hp : v.fileAt p = none) (s : Path) :
    v.fileAt (p ++ s) = none := by
  rcases eq_nil_or_concat s with rfl | ⟨t, x, rfl⟩
  · rwa [append_nil]
  · rw [fileAt_of_ne (by simp), map_eq_none_iff, find?_eq_none]
    intro e he heq
    have := any_eq_false.mp h e he
    simp only [decide_eq_true_eq] at heq
    simp [heq] at this

lemma faithful : Faithful files where
  root v := ⟨0, rfl⟩
  lookup_keeps v d n := ⟨rfl, rfl⟩
  lookup_ok v d n m h := by
    simp only [files, lookup] at h
    split at h
    · next hs =>
      cases h
      exact isSome_iff_exists.mp hs
    · cases h
  make_error v k d n e h := by
    simp only [files, make] at h ⊢
    split at h <;> [skip; cases h]
    next hs =>
      rw [if_pos hs]
      exact fun _ _ h => h
  make_ok v k d n m h := by
    simp only [files, make] at h ⊢
    split at h
    · cases h
    · next hs =>
      cases h
      rw [if_neg hs]
      refine ⟨not_isSome_iff_eq_none.mp hs, rfl, fun p => ?_⟩
      by_cases hp : p = d ++ [n]
      · subst hp
        rw [if_pos rfl, fileAt_of_ne (by simp), find?_cons_of_pos (by simp)]
        rfl
      · rw [if_neg hp]
        unfold fileAt
        split
        · rfl
        · rw [find?_cons_of_neg (by simpa using Ne.symm hp)]
  remove_ok v d n w m hl h p := by
    simp only [files, lookup, remove] at hl h ⊢
    split at hl
    · cases hl
      repeat' split at h
      · cases h
      · cases h
      · cases h
      · next hs hf hw =>
        rw [if_neg hs, if_neg hf, if_neg hw]
        split
        · next hp =>
          have hne : p ≠ [] := by
            rintro rfl
            simp at hp
          rw [fileAt_of_ne hne, map_eq_none_iff, find?_eq_none]
          intro e he heq
          have := (mem_filter.mp he).2
          simp only [decide_eq_true_eq] at heq
          simp [heq, hp] at this
        · next hp =>
          unfold fileAt
          split
          · rfl
          · rw [find?_filter]
            congr 2
            funext e
            by_cases he : e.1 = p
            · simp [he, hp]
            · simp [he]
    · cases hl
  rename_ok v d n d' n' m m' hl h := by
    simp only [files, lookup, rename] at hl h ⊢
    split at hl
    · cases hl
      repeat' split at h
      · cases h
      · next h1 h2 =>
        cases h
        rw [if_neg h1, if_pos h2]
        refine ⟨⟨fun s => by rw [h2], fun p _ _ => rfl, fun hne => (hne h2).elim⟩, .inl h2⟩
      · cases h
      · cases h
      · next h1 h2 h3 h4 =>
        cases h
        rw [if_neg h1, if_neg h2, if_neg h3, if_neg h4]
        obtain ⟨h4, h5⟩ := not_or.mp h4
        refine ⟨moved_spec ⟨h3, h4⟩ (by simp) (by simp) v, .inr ⟨⟨h3, h4⟩, ?_⟩⟩
        by_cases hs : (v.fileAt (d' ++ [n'])).isSome
        · exact .inl (if_pos hs)
        · exact .inr fun s => not_filled (by simpa using h5) (not_isSome_iff_eq_none.mp hs) s
    · cases hl
  access_keeps v p := rfl

end Plain

/-! ## runs -/

def World.empty (worn : Bool) : World Plain := publish Plain.files ⟨[], 1, worn⟩

lemma Reached.empty (allowed : World Plain → Move → Prop) (worn : Bool) :
    Reached Plain.files allowed (empty worn) := by
  refine Reached.boot (F := Plain.files) (⟨[], 1, worn⟩ : Plain) fun p f h => ?_
  simp only [Plain.files, Plain.fileAt, find?_nil, map_none] at h
  split at h
  · cases h
    exact Nat.one_pos
  · cases h

def World.runAll (w : World Plain) (moves : List Move) : World Plain :=
  moves.foldl (Move.run Plain.files) w

def World.AllAllowed (allowed : World Plain → Move → Prop) : World Plain → List Move → Prop
  | _, [] => True
  | w, move :: rest =>
    move.Enabled w ∧ allowed w move ∧ World.AllAllowed allowed (move.run Plain.files w) rest

lemma Reached.runAll {allowed : World Plain → Move → Prop} {w : World Plain} {moves : List Move}
    (R : Reached Plain.files allowed w) (h : w.AllAllowed allowed moves) :
    Reached Plain.files allowed (w.runAll moves) := by
  induction moves generalizing w with
  | nil => exact R
  | cons move rest ih => exact ih (.step move R h.1 h.2.1) h.2.2

def oneWrite : List Move := [.make 0 0 false "a", .go 0, .go 0, .access 0 1, .go 0]

lemma oneWrite_calm : (empty false).AllAllowed (fun w move => move.Calm Plain.files w) oneWrite := by
  have hidle : ∀ k, (((empty false).runAll [.make 0 0 false "a", .go 0, .go 0]).place k).moves = false := by
    intro k
    by_cases h : k = 0
    · subst h
      rfl
    · exact (congrArg Place.moves (((moveTo_other _ _ h).trans (moveTo_other _ _ h)).trans
        (moveTo_other _ _ h))).trans rfl
  exact ⟨⟨rfl, rfl⟩, fun _ => rfl, nofun, trivial, nofun, trivial, ⟨rfl, rfl⟩, hidle, nofun, trivial,
    trivial⟩

/-- a read takes its node's path, and another file is at it when it gets to the volume -/
def readOver : List Move :=
  [.make 0 0 false "a", .go 0, .go 0, .access 0 1, .unlink 1 0 "a" false, .go 1, .go 1,
    .make 1 0 false "a", .go 1, .go 0]

def lookupBetween : List Move :=
  [.make 0 0 false "a", .go 0, .go 0, .rename 0 0 "a" 0 "b", .go 0, .go 0, .lookup 1 0 "b", .go 1, .go 1,
    .go 0]

/-- an unlink fails with the entry already out: the node stays for the next file of the name -/
def failedUnlink : List Move :=
  [.make 0 0 false "a", .go 0, .go 0, .unlink 0 0 "a" false, .go 0, .make 0 0 false "a", .go 0, .go 0,
    .access 0 1, .go 0]

end ClaudeOs.Storage
