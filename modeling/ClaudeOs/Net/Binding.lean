import ClaudeOs.Lib.Run
import ClaudeOs.Net.Sockets

/-!
# Binds that overlap

`InetSocket::bind` looks for a free port and takes it in separate lock holds: a draw from the
counter, a copy of the table, one look at each socket in the copy, the binding itself, and the
socket's own entry in the table.  Tasks may be switched between any two of these.

* `Phase`, `BindCall`  how far a bind has come;
* `Binding`  the sockets with the binds under way and those that returned success;
* `Section`  one section of one bind, a socket made, or a descriptor closed;
* `Exclusive`  the invariant: who holds a port, and who may still come to hold it;
* `ports_exclusive`  no port twice in a run where no table is copied for a port that another bind
  has just found free.
-/

namespace ClaudeOs.Net
open List Option Stack Sock

/-- where a bind is; `tries` is what is left of `allocate_port`'s loop -/
inductive Phase where
  | entered
  /-- about to draw from the counter -/
  | drawing (tries : Nat)
  /-- drew a number below the range, about to set the counter back -/
  | wrapped (tries : Nat)
  /-- has a port, about to copy the table -/
  | chosen (port : BitVec 16) (tries : Option Nat)
  /-- has these sockets of the copy still to look at -/
  | looking (port : BitVec 16) (tries : Option Nat) (rest : List Nat)
  | passed (port : BitVec 16)
  | took (port : BitVec 16)
  deriving DecidableEq, Repr

def Phase.port : Phase → Option (BitVec 16)
  | .looking port _ _ | .passed port | .took port => some port
  | _ => none

structure BindCall where
  id : Nat
  requested : Endpoint
  phase : Phase
  deriving DecidableEq, Repr

structure Binding where
  stack : Stack
  calls : Nat → Option BindCall
  took : List Nat
  succeeded : List Nat

inductive Section where
  | socket (stream : Bool) (heldBytes : Nat)
  | close (env : Env) (id heldBytes : Nat)
  | bind (task id : Nat) (requested : Endpoint)
  | check (task : Nat)
  | draw (task : Nat)
  | store (task : Nat)
  | copy (task : Nat)
  | look (task : Nat)
  | take (task : Nat)
  | enter (task : Nat)

namespace Binding

def start (stack : Stack) : Binding := ⟨stack, fun _ => none, [], []⟩

variable (s : Binding) (task : Nat) (call : BindCall)

def setStack (stack : Stack) : Binding := { s with stack := stack }

def setCall (call : Option BindCall) : Binding :=
  { s with calls := Function.update s.calls task call }

lemma setCall_self (call : Option BindCall) : (s.setCall task call).calls task = call := by
  simp [setCall]

lemma setCall_ne {s : Binding} {task other : Nat} {call : Option BindCall} (h : other ≠ task) :
    (s.setCall task call).calls other = s.calls other := by simp [setCall, h]

def goTo (phase : Phase) : Binding :=
  s.setCall task (some { call with phase := phase })

def fails : Binding := s.setCall task none
def kind : Bool := s.stack.asks call.id stream

/-- the address is one of this machine's; then a port is drawn, or the one asked for looked up -/
def check : Binding :=
  if s.stack.holds call.requested.address then
    s.goTo task call (if call.requested.port = 0
      then .drawing (EPHEMERAL_LAST - EPHEMERAL_FIRST).toNat else .chosen call.requested.port none)
  else s.fails task

def draw (tries : Nat) : Binding :=
  match tries with
  | 0 => s.fails task
  | tries + 1 =>
    let port := s.stack.nextEphemeral
    (s.setStack (s.stack.setNext (port + 1))).goTo task call
      (if port < EPHEMERAL_FIRST then .wrapped tries else .chosen port (some tries))

def store (tries : Nat) : Binding :=
  (s.setStack (s.stack.setNext (EPHEMERAL_FIRST + 1))).goTo task call
    (.chosen EPHEMERAL_FIRST (some tries))

/-- a port held by someone: the next draw, or `EADDRINUSE` -/
def refuse : Option Nat → Binding
  | some tries => s.goTo task call (.drawing tries)
  | none => s.fails task

/-- the test on the socket `id`; a port asked for by number is not looked for on the socket itself -/
def found (port : BitVec 16) (tries : Option Nat) (id : Nat) : Bool :=
  decide (tries.isSome ∨ id ≠ call.id) && s.stack.asks id (holdsPort (s.kind call) port)

def look (port : BitVec 16) (tries : Option Nat) : List Nat → Binding
  | [] => s.goTo task call (.passed port)
  | id :: rest =>
    if s.found call port tries id then s.refuse task call tries
    else s.goTo task call (.looking port tries rest)

def bound (id : Nat) (endpoint : Endpoint) : Binding :=
  { s with
    stack := s.stack.modify id fun sock => sock.setLocal endpoint
    took := id :: s.took }

def take (port : BitVec 16) : Binding :=
  if s.stack.asks call.id bindable then
    (s.bound call.id ⟨call.requested.address, port⟩).goTo task call (.took port)
  else s.fails task

def enter : Binding :=
  { (s.setStack (s.stack.register call.id)).setCall task none with
    succeeded := call.id :: s.succeeded }

def step : Section → Binding
  | .socket stream heldBytes => s.setStack (s.stack.push (.new stream heldBytes))
  | .close env id heldBytes => s.setStack (close env s.stack id heldBytes)
  | .bind task id requested => s.setCall task (some ⟨id, requested, .entered⟩)
  | .check task =>
    match s.calls task with
    | some call => if call.phase = .entered then s.check task call else s
    | none => s
  | .draw task =>
    match s.calls task with
    | some ⟨id, requested, .drawing tries⟩ => s.draw task ⟨id, requested, .drawing tries⟩ tries
    | _ => s
  | .store task =>
    match s.calls task with
    | some ⟨id, requested, .wrapped tries⟩ => s.store task ⟨id, requested, .wrapped tries⟩ tries
    | _ => s
  | .copy task =>
    match s.calls task with
    | some ⟨id, requested, .chosen port tries⟩ =>
      s.goTo task ⟨id, requested, .chosen port tries⟩ (.looking port tries s.stack.table)
    | _ => s
  | .look task =>
    match s.calls task with
    | some ⟨id, requested, .looking port tries rest⟩ =>
      s.look task ⟨id, requested, .looking port tries rest⟩ port tries rest
    | _ => s
  | .take task =>
    match s.calls task with
    | some ⟨id, requested, .passed port⟩ => s.take task ⟨id, requested, .passed port⟩ port
    | _ => s
  | .enter task =>
    match s.calls task with
    | some ⟨id, requested, .took port⟩ => s.enter task ⟨id, requested, .took port⟩
    | _ => s

def Enabled : Section → Prop
  | .bind task id _ => s.calls task = none ∧ (s.stack.asks id fun sock => !sock.detached) = true
  | _ => True

/-- no other bind of the kind has copied the table for the port and not yet entered it -/
def Calm : Section → Prop
  | .copy task => ∀ id requested port tries,
      s.calls task = some ⟨id, requested, .chosen port tries⟩ → ∀ other call, other ≠ task →
        s.calls other = some call → call.phase.port = some port →
          s.kind call ≠ s.stack.asks id stream
  | _ => True

end Binding

/-! ## steps that take no port -/

variable {f : Sock → Sock} {phase : Phase} {port : BitVec 16} {rest : List Nat} {tries : Option Nat}

namespace Stack
variable {w w' v : Stack} {a b : Nat} {k : Bool} {p : BitVec 16}

def Silent (w : Stack) (b : Nat) : Prop := ∀ k p, w.asks b (holdsPort k p) = false

/-- sockets only stop holding ports, and leave the table when they hold none -/
structure Fades (w w' : Stack) : Prop where
  grows : w.socks.length ≤ w'.socks.length
  kind : ∀ b < w.socks.length, w'.asks b stream = w.asks b stream
  bound : ∀ b, w.asks b bound = true → w'.asks b bound = true
  holds : ∀ b < w.socks.length, ∀ k p, w'.asks b (holdsPort k p) = true →
    w.asks b (holdsPort k p) = true
  table : ∀ b ∈ w.table, b < w.socks.length → b ∈ w'.table ∨ Silent w' b

lemma holdsPort_iff {t : Sock} : holdsPort k p t = true ↔
    t.stream = k ∧ t.detached = false ∧ t.bound = true ∧ t.localEnd.port = p := by
  simp [holdsPort, and_assoc]

lemma kind_of_holds (h : w.asks b (holdsPort k p) = true) : w.asks b stream = k := by
  obtain ⟨t, ht, hp⟩ := asks_iff.1 h
  rw [asks, ht, any_some, (holdsPort_iff.1 hp).1]

lemma not_bindable (h : w.asks b bound = true) : ¬w.asks b bindable = true := by
  intro hb
  obtain ⟨t, ht, hbound⟩ := asks_iff.1 h
  obtain ⟨t', ht', hfree⟩ := asks_iff.1 hb
  obtain rfl := some.inj (ht.symm.trans ht')
  simp [bindable, hbound] at hfree

lemma Fades.refl : Fades w w :=
  ⟨le_refl _, fun _ _ => rfl, fun _ h => h, fun _ _ _ _ h => h, fun _ h _ => .inl h⟩

lemma Fades.silent (h : Fades w w') (hb : b < w.socks.length) (hs : Silent w b) : Silent w' b := by
  intro k p
  rw [← Bool.not_eq_true]
  intro hp
  have hp := h.holds b hb k p hp
  rw [hs k p] at hp
  cases hp

lemma Fades.trans (h : Fades w v) (h' : Fades v w') : Fades w w' where
  grows := h.grows.trans h'.grows
  kind b hb := (h'.kind b (hb.trans_le h.grows)).trans (h.kind b hb)
  bound b hb := h'.bound b (h.bound b hb)
  holds b hb k p hp := h.holds b hb k p (h'.holds b (hb.trans_le h.grows) k p hp)
  table b hb hl := (h.table b hb hl).elim (fun hv => h'.table b hv (hl.trans_le h.grows))
    (fun hv => .inr (h'.silent (hl.trans_le h.grows) hv))

lemma fades_setNext (next : BitVec 16) : Fades w (w.setNext next) :=
  ⟨le_refl _, fun _ _ => rfl, fun _ h => h, fun _ _ _ _ h => h, fun _ h _ => .inl h⟩

lemma fades_push (t : Sock) : Fades w (w.push t) where
  grows := by simp [push]
  kind b hb := asks_push hb
  bound b h := by rw [asks_push (asks_lt h)]; exact h
  holds b hb k p h := by rwa [asks_push hb] at h
  table b h _ := .inl h

lemma kind_setLocal (e : Endpoint) :
    (w.modify a fun t => t.setLocal e).asks b stream = w.asks b stream := by
  rw [asks_modify]
  congr 1
  funext t
  split <;> rfl

lemma bound_setLocal (e : Endpoint) (h : a < w.socks.length) :
    (w.modify a fun t => t.setLocal e).asks a bound = true := by
  rw [asks_modify]
  exact asks_iff.2 ⟨_, getElem?_eq_getElem h, by rw [if_pos rfl]; rfl⟩

lemma holds_setLocal {e : Endpoint}
    (h : (w.modify a fun t => t.setLocal e).asks a (holdsPort k p) = true) :
    w.asks a stream = k ∧ e.port = p := by
  refine ⟨(kind_setLocal e).symm.trans (kind_of_holds h), ?_⟩
  rw [asks_modify] at h
  obtain ⟨t, -, hp⟩ := asks_iff.1 h
  rw [if_pos rfl] at hp
  exact (holdsPort_iff.1 hp).2.2.2

lemma fades_modify (hk : ∀ t, (f t).stream = t.stream) (hb : ∀ t, (f t).bound = t.bound)
    (hl : ∀ t, (f t).localEnd = t.localEnd) (hd : ∀ t, t.detached = true → (f t).detached = true) :
    Fades w (w.modify a f) where
  grows := by simp [modify]
  kind b _ := by
    rw [asks_modify]
    congr 1
    funext t
    split
    · exact hk t
    · rfl
  bound b h := by
    rw [asks_modify]
    obtain ⟨t, ht, hbt⟩ := asks_iff.1 h
    refine asks_iff.2 ⟨t, ht, ?_⟩
    split
    · exact (hb t).trans hbt
    · exact hbt
  holds b _ k p h := by
    rw [asks_modify] at h
    obtain ⟨t, ht, hp⟩ := asks_iff.1 h
    refine asks_iff.2 ⟨t, ht, ?_⟩
    split at hp
    · obtain ⟨h1, h2, h3, h4⟩ := holdsPort_iff.1 hp
      refine holdsPort_iff.2 ⟨(hk t).symm.trans h1, ?_, (hb t).symm.trans h3, hl t ▸ h4⟩
      exact Bool.eq_false_iff.2 fun hdt => by rw [hd t hdt] at h2; cases h2
    · exact hp
  table b h _ := .inl h

lemma fades_unregister (h : Silent w a) : Fades w (w.unregister a) where
  grows := le_refl _
  kind _ _ := rfl
  bound _ h := h
  holds _ _ _ _ h := h
  table b hb _ := by
    by_cases hba : b = a
    · exact .inr (hba ▸ h)
    · exact .inl (mem_filter.2 ⟨hb, bne_iff_ne.2 hba⟩)

lemma fades_register (a : Nat) : Fades w (w.register a) := by
  rw [register]
  split
  · exact .refl
  · exact ⟨le_refl _, fun _ _ => rfl, fun _ h => h, fun _ _ _ _ h => h,
      fun _ h _ => .inl (mem_append_left _ h)⟩

lemma silent_modify (hd : ∀ t, (f t).detached = true) : Silent (w.modify a f) a := by
  intro k p
  rw [asks_modify, ← Bool.not_eq_true]
  intro h
  obtain ⟨t, -, hp⟩ := asks_iff.1 h
  rw [if_pos rfl] at hp
  have := (holdsPort_iff.1 hp).2.1
  rw [hd t] at this
  cases this

lemma fades_resetChild (env : Env) : Fades w (resetChild env w a) := by
  have hdetach : Fades w (w.modify a fun s => s.detach.setTcb (s.tcb.abort env)) :=
    fades_modify (fun _ => rfl) (fun _ => rfl) (fun _ => rfl) fun _ _ => rfl
  exact hdetach.trans (fades_unregister (silent_modify fun _ => rfl))

lemma fades_resetChildren (env : Env) (children : List Nat) :
    Fades w (children.foldl (resetChild env) w) := by
  induction children generalizing w with
  | nil => exact .refl
  | cons c children ih => exact (fades_resetChild env).trans ih

lemma fades_close (env : Env) (heldBytes : Nat) : Fades w (close env w a heldBytes) := by
  rw [close]
  split
  · have hdetach : Fades w (w.modify a detach) :=
      fades_modify (fun _ => rfl) (fun _ => rfl) (fun _ => rfl) fun _ _ => rfl
    exact hdetach.trans (fades_unregister (silent_modify fun _ => rfl))
  · rename_i hs
    simp only [Bool.not_eq_true, Bool.not_eq_false'] at hs
    have hdetach : Fades w (w.modify a fun s =>
        (s.detach.setTcb (closeTcb env (s.meeting heldBytes))).setChildren []) :=
      fades_modify (fun _ => rfl) (fun _ => rfl) (fun _ => rfl) fun _ _ => rfl
    have hreset := fades_resetChildren (w := w.modify a fun s =>
        (s.detach.setTcb (closeTcb env (s.meeting heldBytes))).setChildren []) env
        (((w.socks[a]?).map children).getD [])
    dsimp only
    split
    · -- its descriptor was gone before the children were reset
      have hgone := hreset.silent ((asks_lt hs).trans_le hdetach.grows)
        (silent_modify fun _ => rfl)
      exact (hdetach.trans hreset).trans (fades_unregister hgone)
    · exact hdetach.trans hreset

end Stack

/-! ## one port, one holder -/

namespace Binding

def unmet : Phase → Option (BitVec 16 × List Nat)
  | .looking port _ rest => some (port, rest)
  | .passed port => some (port, [])
  | _ => none

/-- the only call of its kind about its port, with every holder of it still to be met -/
structure Fits (s : Binding) (task : Nat) (call : BindCall) : Prop where
  known : call.id < s.stack.socks.length
  single : ∀ port, call.phase.port = some port → ∀ other call', other ≠ task →
    s.calls other = some call' → call'.phase.port = some port → s.kind call' ≠ s.kind call
  meets : ∀ port rest, unmet call.phase = some (port, rest) → ∀ b ∈ s.took, b ≠ call.id →
    s.stack.asks b (holdsPort (s.kind call) port) = true → b ∈ rest
  holder : ∀ port, call.phase = .took port → call.id ∈ s.took

structure Exclusive (s : Binding) : Prop where
  fits : ∀ task call, s.calls task = some call → s.Fits task call
  named : ∀ b ∈ s.took, s.stack.asks b Sock.bound = true
  listed : ∀ b ∈ s.took, ∀ k p, s.stack.asks b (holdsPort k p) = true → b ∈ s.stack.table ∨
    ∃ task call, s.calls task = some call ∧ call.id = b ∧ call.phase = .took p
  alone : ∀ a ∈ s.took, ∀ b ∈ s.took, a ≠ b → ∀ k p, s.stack.asks a (holdsPort k p) = true →
    s.stack.asks b (holdsPort k p) = false
  returned : ∀ b ∈ s.succeeded, b ∈ s.took

variable {s : Binding} {task : Nat} {call : BindCall} {w : Stack}

lemma exclusive_start : Exclusive (start w) where
  fits _ _ h := nomatch h
  named _ h := nomatch h
  listed _ h := nomatch h
  alone _ h := nomatch h
  returned _ h := nomatch h

lemma kind_setStack (hf : Stack.Fades s.stack w) (h : call.id < s.stack.socks.length) :
    (s.setStack w).kind call = s.kind call := hf.kind _ h

lemma Exclusive.setStack (h : Exclusive s) (hf : Stack.Fades s.stack w) :
    Exclusive (s.setStack w) where
  fits task call hc := by
    have hfit := h.fits task call hc
    have hkind := kind_setStack hf hfit.known
    refine ⟨hfit.known.trans_le hf.grows, ?_, ?_, hfit.holder⟩
    · intro port hport other call' hne hc' hport'
      rw [hkind, kind_setStack hf (h.fits other call' hc').known]
      exact hfit.single port hport other call' hne hc' hport'
    · intro port rest hunmet b hb hne hp
      rw [hkind] at hp
      exact hfit.meets port rest hunmet b hb hne
        (hf.holds b (asks_lt (h.named b hb)) _ _ hp)
  named b hb := hf.bound b (h.named b hb)
  listed b hb k p hp := by
    have hl := asks_lt (h.named b hb)
    rcases h.listed b hb k p (hf.holds b hl k p hp) with ht | hc
    · rcases hf.table b ht hl with ht | hs
      · exact .inl ht
      · rw [Binding.setStack, hs k p] at hp
        cases hp
    · exact .inr hc
  alone a ha b hb hne k p hp := by
    have hp := hf.holds a (asks_lt (h.named a ha)) k p hp
    rw [← Bool.not_eq_true]
    intro hp'
    have hp' := hf.holds b (asks_lt (h.named b hb)) k p hp'
    rw [h.alone a ha b hb hne k p hp] at hp'
    cases hp'
  returned := h.returned

lemma Exclusive.setCall (h : Exclusive s) {call' : Option BindCall}
    (hold : ∀ call, s.calls task = some call → ∀ p, call.phase = .took p → call.id ∈ s.stack.table)
    (hnew : ∀ call, call' = some call → s.Fits task call) : Exclusive (s.setCall task call') where
  fits other call hc := by
    by_cases ho : other = task
    · subst ho
      rw [setCall_self] at hc
      have hfit := hnew call hc
      refine ⟨hfit.known, fun port hport other' call'' hne hc' hport' => ?_, hfit.meets,
        hfit.holder⟩
      rw [setCall_ne hne] at hc'
      exact hfit.single port hport other' call'' hne hc' hport'
    · rw [setCall_ne ho] at hc
      have hfit := h.fits other call hc
      refine ⟨hfit.known, fun port hport other' call'' hne hc' hport' => ?_, hfit.meets,
        hfit.holder⟩
      by_cases ht : other' = task
      · subst ht
        rw [setCall_self] at hc'
        exact ((hnew call'' hc').single port hport' other call ho hc hport).symm
      · rw [setCall_ne ht] at hc'
        exact hfit.single port hport other' call'' hne hc' hport'
  named := h.named
  listed b hb k p hp := by
    rcases h.listed b hb k p hp with ht | ⟨other, call, hc, hid, hphase⟩
    · exact .inl ht
    · by_cases ho : other = task
      · subst ho hid
        exact .inl (hold call hc p hphase)
      · exact .inr ⟨other, call, (setCall_ne ho).trans hc, hid, hphase⟩
  alone := h.alone
  returned := h.returned

lemma port_of_unmet (h : unmet phase = some (port, rest)) : phase.port = some port := by
  cases phase <;> cases h <;> rfl

lemma fits_early (hid : call.id < s.stack.socks.length) (hp : call.phase.port = none) :
    s.Fits task call where
  known := hid
  single port hport := by rw [hp] at hport; cases hport
  meets port rest hu := by rw [port_of_unmet hu] at hp; cases hp
  holder port hport := by rw [hport] at hp; cases hp

lemma Fits.goesOn (h : s.Fits task call) (hp : phase.port = call.phase.port)
    (hnot : ∀ p, phase ≠ .took p)
    (hm : ∀ port rest, unmet phase = some (port, rest) → ∀ b ∈ s.took, b ≠ call.id →
      s.stack.asks b (holdsPort (s.kind call) port) = true → b ∈ rest) :
    s.Fits task { call with phase := phase } where
  known := h.known
  single port hport := h.single port (hp ▸ hport)
  meets := hm
  holder port hport := absurd hport (hnot port)

section Steps
variable (h : Exclusive s) (hcall : s.calls task = some call)
include h hcall

section
variable (hphase : ∀ p, call.phase ≠ .took p)
include hphase

namespace Exclusive

lemma fails : Exclusive (s.fails task) := by
  refine h.setCall (fun call' hc p hp => ?_) fun _ hc => nomatch hc
  obtain rfl : call = call' := some.inj (hcall.symm.trans hc)
  exact absurd hp (hphase p)

lemma goTo (hfit : s.Fits task { call with phase := phase }) :
    Exclusive (s.goTo task call phase) := by
  refine h.setCall (fun call' hc p hp => ?_) fun call' hc => ?_
  · obtain rfl : call = call' := some.inj (hcall.symm.trans hc)
    exact absurd hp (hphase p)
  · obtain rfl := some.inj hc
    exact hfit

lemma goToEarly (hp : phase.port = none) : Exclusive (s.goTo task call phase) :=
  h.goTo hcall hphase (fits_early (h.fits task call hcall).known hp)

lemma check : Exclusive (s.check task call) := by
  rw [Binding.check]
  split
  · refine h.goToEarly hcall hphase ?_
    split <;> rfl
  · exact h.fails hcall hphase

lemma draw {tries : Nat} : Exclusive (s.draw task call tries) := by
  cases tries with
  | zero => exact h.fails hcall hphase
  | succ tries =>
    have hdrawn := h.setStack (fades_setNext (s.stack.nextEphemeral + 1))
    refine hdrawn.goToEarly hcall hphase ?_
    split <;> rfl

lemma store {tries : Nat} : Exclusive (s.store task call tries) := by
  have hstored := h.setStack (fades_setNext (EPHEMERAL_FIRST + 1))
  exact hstored.goToEarly hcall hphase rfl

lemma refuse : Exclusive (s.refuse task call tries) := by
  cases tries with
  | none => exact h.fails hcall hphase
  | some tries => exact h.goToEarly hcall hphase rfl

lemma copy (hcalm : ∀ other call', other ≠ task → s.calls other = some call' →
      call'.phase.port = some port → s.kind call' ≠ s.kind call) :
    Exclusive (s.goTo task call (.looking port tries s.stack.table)) := by
  refine h.goTo hcall hphase ⟨(h.fits task call hcall).known, ?_, ?_, nofun⟩
  · intro port' hport
    obtain rfl := some.inj hport
    exact hcalm
  · intro port' rest hu b hb _ hp
    obtain ⟨rfl, rfl⟩ : port = port' ∧ s.stack.table = rest := Prod.mk.inj (some.inj hu)
    rcases h.listed b hb _ _ hp with ht | ⟨other, call', hc, hid, hphase'⟩
    · exact ht
    · have hne : other ≠ task := by
        rintro rfl
        obtain rfl : call = call' := some.inj (hcall.symm.trans hc)
        exact hphase _ hphase'
      refine absurd ?_ (hcalm other call' hne hc (by rw [hphase']; rfl))
      rw [Binding.kind, hid]
      exact kind_of_holds hp

end Exclusive
end

lemma Exclusive.look (hphase : call.phase = .looking port tries rest) :
    Exclusive (s.look task call port tries rest) := by
  have hnot : ∀ p, call.phase ≠ .took p := fun p hp => nomatch hphase.symm.trans hp
  have hfit := h.fits task call hcall
  cases rest with
  | nil =>
    refine h.goTo hcall hnot (hfit.goesOn (by rw [hphase]; rfl) nofun ?_)
    intro port' rest hu b hb hne hp
    obtain ⟨rfl, rfl⟩ : port = port' ∧ [] = rest := Prod.mk.inj (some.inj hu)
    exact hfit.meets port [] (by rw [hphase]; rfl) b hb hne hp
  | cons c rest =>
    rw [Binding.look]
    split
    · exact h.refuse hcall hnot
    · rename_i hfound
      refine h.goTo hcall hnot (hfit.goesOn (by rw [hphase]; rfl) nofun ?_)
      intro port' rest' hu b hb hne hp
      obtain ⟨rfl, rfl⟩ : port = port' ∧ rest = rest' := Prod.mk.inj (some.inj hu)
      rcases mem_cons.1 (hfit.meets port (c :: rest) (by rw [hphase]; rfl) b hb hne hp) with
        rfl | hmem
      · exact absurd (by simp [found, hne, hp]) hfound
      · exact hmem

lemma Exclusive.takes (hphase : call.phase = .passed port) (address : Addr)
    (hfresh : call.id ∉ s.took) :
    Exclusive ((s.bound call.id ⟨address, port⟩).goTo task call (.took port)) := by
  have hfit := h.fits task call hcall
  have hport : call.phase.port = some port := by rw [hphase]; rfl
  have hother : ∀ b ∈ s.took, b ≠ call.id := fun b hb he => hfresh (he ▸ hb)
  have hkind : ∀ d, (s.bound call.id ⟨address, port⟩).kind d = s.kind d := fun d =>
    Stack.kind_setLocal _
  have hfree : ∀ b ∈ s.took, s.stack.asks b (Stack.holdsPort (s.kind call) port) = false := by
    intro b hb
    rw [← Bool.not_eq_true]
    exact fun hp => not_mem_nil (hfit.meets port [] (by rw [hphase]; rfl) b hb (hother b hb) hp)
  refine { fits := ?_, named := ?_, listed := ?_, alone := ?_, returned := ?_ }
  · intro other d hd
    have hlen : ∀ i < s.stack.socks.length, i < (s.bound call.id ⟨address, port⟩).stack.socks.length :=
      fun i hi => by simpa [Binding.bound, Stack.modify] using hi
    by_cases ho : other = task
    · subst ho
      obtain rfl := some.inj ((setCall_self _ _ _).symm.trans hd)
      refine ⟨hlen _ hfit.known, ?_, fun p rest hu => ?_, fun _ _ => mem_cons_self⟩
      swap
      · cases hu
      intro p hp other' d' hne hd' hp'
      have hd' := (setCall_ne hne).symm.trans hd'
      exact (hkind d').trans_ne
        ((hfit.single p (hport.trans hp) other' d' hne hd' hp').trans_eq (hkind call).symm)
    · have hd := (setCall_ne ho).symm.trans hd
      have hdfit := h.fits other d hd
      refine ⟨hlen _ hdfit.known, ?_, ?_, fun p hp => mem_cons_of_mem _ (hdfit.holder p hp)⟩
      · intro p hp other' d' hne hd' hp'
        by_cases ht : other' = task
        · subst ht
          obtain rfl := some.inj ((setCall_self _ _ _).symm.trans hd')
          exact (hkind call).trans_ne
            ((hdfit.single p hp other' call hne hcall (hport.trans hp')).trans_eq (hkind d).symm)
        · have hd' := (setCall_ne ht).symm.trans hd'
          exact (hkind d').trans_ne
            ((hdfit.single p hp other' d' hne hd' hp').trans_eq (hkind d).symm)
      · intro p rest hu b hb hne hp
        have hp : (s.bound call.id ⟨address, port⟩).stack.asks b
            (Stack.holdsPort (s.kind d) p) = true := (hkind d) ▸ hp
        rcases mem_cons.1 hb with rfl | hb
        · -- the taker's kind and port would be those of another call
          obtain ⟨hk, rfl⟩ := Stack.holds_setLocal hp
          exact absurd hk (hdfit.single port (port_of_unmet hu) task call (Ne.symm ho) hcall hport)
        · exact hdfit.meets p rest hu b hb hne
            ((Stack.asks_modify_ne (hother b hb)).symm.trans hp)
  · intro b hb
    rcases mem_cons.1 hb with rfl | hb
    · exact Stack.bound_setLocal _ hfit.known
    · exact (Stack.asks_modify_ne (hother b hb)).trans (h.named b hb)
  · intro b hb k p hp
    rcases mem_cons.1 hb with rfl | hb
    · obtain ⟨-, rfl⟩ := Stack.holds_setLocal hp
      exact .inr ⟨task, _, setCall_self _ task _, rfl, rfl⟩
    · have hp := (Stack.asks_modify_ne (hother b hb)).symm.trans hp
      rcases h.listed b hb k p hp with ht | ⟨other, d, hd, hid, htook⟩
      · exact .inl ht
      · have hne : other ≠ task := by
          rintro rfl
          obtain rfl : call = d := some.inj (hcall.symm.trans hd)
          cases hphase.symm.trans htook
        exact .inr ⟨other, d, (setCall_ne hne).trans hd, hid, htook⟩
  · intro a ha b hb hne k p hp
    rcases mem_cons.1 ha with rfl | ha
    · obtain ⟨rfl, rfl⟩ := Stack.holds_setLocal hp
      have hb : b ∈ s.took := (mem_cons.1 hb).resolve_left (Ne.symm hne)
      exact (Stack.asks_modify_ne (hother b hb)).trans (hfree b hb)
    · have hp := (Stack.asks_modify_ne (hother a ha)).symm.trans hp
      rcases mem_cons.1 hb with rfl | hb
      · rw [← Bool.not_eq_true]
        intro hp'
        obtain ⟨rfl, rfl⟩ := Stack.holds_setLocal hp'
        exact absurd ((hfree a ha).symm.trans hp) Bool.false_ne_true
      · exact (Stack.asks_modify_ne (hother b hb)).trans (h.alone a ha b hb hne k p hp)
  · exact fun b hb => mem_cons_of_mem _ (h.returned b hb)

lemma Exclusive.take (hphase : call.phase = .passed port) : Exclusive (s.take task call port) := by
  rw [Binding.take]
  split
  · rename_i hbindable
    exact h.takes hcall hphase _ fun hmem => not_bindable (h.named _ hmem) hbindable
  · exact h.fails hcall fun p hp => nomatch hphase.symm.trans hp

lemma Exclusive.enter (hphase : call.phase = .took port) : Exclusive (s.enter task call) := by
  have hmem := (h.fits task call hcall).holder port hphase
  have hgone : Exclusive ((s.setStack (s.stack.register call.id)).setCall task none) := by
    refine (h.setStack (fades_register _)).setCall (fun call' hc p _ => ?_) fun _ hc => nomatch hc
    obtain rfl : call = call' := some.inj (hcall.symm.trans hc)
    exact mem_register _
  refine { hgone with fits := ?_, returned := fun b hb => ?_ }
  · intro other d hd
    exact { hgone.fits other d hd with }
  · rcases mem_cons.1 hb with rfl | hb
    · exact hmem
    · exact h.returned b hb

end Steps

lemma Exclusive.step (h : Exclusive s) (a : Section) (hok : Enabled s a) (hcalm : Calm s a) :
    Exclusive (s.step a) := by
  cases a with
  | socket stream heldBytes => exact h.setStack (fades_push _)
  | close env id heldBytes => exact h.setStack (fades_close env heldBytes)
  | bind task id requested =>
    refine h.setCall (fun call hc => nomatch hok.1.symm.trans hc) fun call hc => ?_
    obtain rfl := some.inj hc
    exact fits_early (asks_lt hok.2) rfl
  | check task =>
    simp only [Binding.step]
    split
    · rename_i call hcall
      split
      · rename_i hphase
        exact h.check hcall fun p hp => nomatch hphase.symm.trans hp
      · exact h
    · exact h
  | draw task =>
    simp only [Binding.step]
    split
    · exact h.draw ‹_› (by nofun)
    · exact h
  | store task =>
    simp only [Binding.step]
    split
    · exact h.store ‹_› (by nofun)
    · exact h
  | copy task =>
    simp only [Binding.step]
    split
    · rename_i id requested port tries hcall
      exact h.copy hcall nofun (hcalm id requested port tries hcall)
    · exact h
  | look task =>
    simp only [Binding.step]
    split
    · exact h.look ‹_› rfl
    · exact h
  | take task =>
    simp only [Binding.step]
    split
    · exact h.take ‹_› rfl
    · exact h
  | enter task =>
    simp only [Binding.step]
    split
    · exact h.enter ‹_› rfl
    · exact h

/-- **no two open sockets have bound a port**, where no table is copied for it while another bind of
the kind is between its copy and its entry -/
theorem ports_exclusive (w : Stack) (sections : List Section)
    (hok : Run.Allowed step Enabled (start w) sections)
    (hcalm : Run.Allowed step Calm (start w) sections) (a b : Nat) (hab : a ≠ b) (t u : Sock)
    (ha : a ∈ (Run.run step (start w) sections).succeeded)
    (hb : b ∈ (Run.run step (start w) sections).succeeded)
    (ht : (Run.run step (start w) sections).stack.socks[a]? = some t)
    (hu : (Run.run step (start w) sections).stack.socks[b]? = some u)
    (hkind : t.stream = u.stream) (hta : t.detached = false) (hua : u.detached = false) :
    t.localEnd.port ≠ u.localEnd.port := by
  have h := (hok.and hcalm).keeps (I := Exclusive) (fun s a hs hok => hs.step a hok.1 hok.2)
    exclusive_start
  have hbound : ∀ {c v}, c ∈ (Run.run step (start w) sections).succeeded →
      (Run.run step (start w) sections).stack.socks[c]? = some v → v.bound = true := by
    intro c v hc hv
    obtain ⟨v', hv', hbv⟩ := asks_iff.1 (h.named c (h.returned c hc))
    obtain rfl := some.inj (hv.symm.trans hv')
    exact hbv
  intro hport
  have hholds := h.alone a (h.returned a ha) b (h.returned b hb) hab t.stream t.localEnd.port
    (asks_iff.2 ⟨t, ht, holdsPort_iff.2 ⟨rfl, hta, hbound ha ht, rfl⟩⟩)
  rw [asks_iff.2 ⟨u, hu, holdsPort_iff.2 ⟨hkind.symm, hua, hbound hb hu, hport.symm⟩⟩]
    at hholds
  cases hholds

/-! ## two tasks taking turns -/

def turns (first second : BitVec 16) : List Section :=
  [.socket true 0, .socket true 0, .bind 0 0 ⟨0x7F000001, first⟩, .bind 1 1 ⟨0x7F000001, second⟩,
    .check 0, .check 1, .copy 0, .copy 1, .look 0, .look 1, .take 0, .take 1, .enter 0, .enter 1]

lemma enabled_turns (first second : BitVec 16) :
    Run.Allowed step Enabled (start .empty) (turns first second) :=
  ⟨trivial, trivial, ⟨rfl, rfl⟩, ⟨rfl, rfl⟩, trivial, trivial, trivial, trivial, trivial, trivial,
    trivial, trivial, trivial, trivial, trivial⟩

/-- two ports, bound section by section in turn -/
theorem ports_exclusive_turns : let s := Run.run step (start .empty) (turns 80 81)
    ∃ t u, s.stack.socks[0]? = some t ∧ s.stack.socks[1]? = some u ∧
      t.localEnd.port ≠ u.localEnd.port := by
  refine ⟨_, _, rfl, rfl, ports_exclusive .empty (turns 80 81) (enabled_turns 80 81) ?_ 0 1
    (by decide) _ _ (by decide +kernel) (by decide +kernel) rfl rfl rfl rfl rfl⟩
  refine ⟨trivial, trivial, trivial, trivial, trivial, trivial, ?_, ?_, trivial, trivial, trivial,
    trivial, trivial, trivial, trivial⟩
  · intro id requested port tries _ other call hne hc hp
    match other with
    | 0 => exact absurd rfl hne
    | 1 => cases hc; cases hp
    | n + 2 => cases hc
  · intro id requested port tries h other call hne hc hp
    match other with
    | 0 => cases h; cases hc; cases hp
    | 1 => exact absurd rfl hne
    | n + 2 => cases hc

/-- both ask for port 80, both look before either has taken it, and both get it -/
theorem ports_shared : ∃ (w : Stack) (sections : List Section) (a b : Nat) (t u : Sock),
    Run.Allowed step Enabled (start w) sections ∧ a ≠ b ∧
    a ∈ (Run.run step (start w) sections).succeeded ∧
    b ∈ (Run.run step (start w) sections).succeeded ∧
    (Run.run step (start w) sections).stack.socks[a]? = some t ∧
    (Run.run step (start w) sections).stack.socks[b]? = some u ∧
    t.stream = u.stream ∧ t.detached = false ∧ u.detached = false ∧
    t.localEnd.port = u.localEnd.port :=
  ⟨.empty, turns 80 80, 0, 1, _, _, enabled_turns 80 80, by decide, by decide +kernel,
    by decide +kernel, rfl, rfl, rfl, rfl, rfl, rfl⟩

end Binding
end ClaudeOs.Net
