import ClaudeOs.Lib.Linear

/-!
# Calls in sections

An object is shared by threads whose calls run in sections: each section is one step on the shared
state, and the sections of different calls come in any order.

* `Object`  how a call begins, and what its next section does;
* `Threads`, `Action`  the shared state with the calls under way, and what can happen;
* `Object.step`, `Object.events`  the system as a step function, and what is seen of a step;
* `Object.happens`  everything a step can do;
* `Object.Points`  a linearization point for every call, given by the phase it is in;
* `Object.Points.linearized`  a run whose sections meet `Points` has the answers of the calls made
  whole one after another.
-/

namespace Sections
open Linear

/-- `E` is what a section is told from outside -/
structure Object (S Op Phase Res E : Type) where
  begin : Op → Phase
  advance : S → E → Op → Phase → S × (Phase ⊕ Res)

inductive Progress (Op Phase : Type) where
  | absent
  | running (op : Op) (phase : Phase)
  | returned
  deriving DecidableEq

structure Threads (S Op Phase : Type) where
  shared : S
  calls : Nat → Progress Op Phase

inductive Action (Op E : Type) where
  | call (id : Nat) (op : Op)
  | go (id : Nat) (e : E)
  deriving DecidableEq

def Action.id {Op E : Type} : Action Op E → Nat
  | .call id _ => id
  | .go id _ => id

variable {S Op Phase Res E : Type}

namespace Threads

def start (s : S) : Threads S Op Phase := ⟨s, fun _ => .absent⟩

def set (w : Threads S Op Phase) (s : S) (id : Nat) (p : Progress Op Phase) : Threads S Op Phase :=
  ⟨s, fun k => if k = id then p else w.calls k⟩

variable (w : Threads S Op Phase) (s : S) {id k : Nat} (p : Progress Op Phase)

@[simp] lemma shared_set : (w.set s id p).shared = s := rfl
@[simp] lemma calls_set_self : (w.set s id p).calls id = p := if_pos rfl
lemma calls_set_ne (h : k ≠ id) : (w.set s id p).calls k = w.calls k := if_neg h

lemma calls_set_eq {q : Progress Op Phase} (h : (w.set s id p).calls k = q) :
    k = id ∧ p = q ∨ k ≠ id ∧ w.calls k = q := by
  by_cases hk : k = id
  · subst hk
    rw [calls_set_self] at h
    exact .inl ⟨rfl, h⟩
  · rw [calls_set_ne w s p hk] at h
    exact .inr ⟨hk, h⟩

end Threads

variable {act : Action Op E} {evs : List (Event Op Res)} {k : Nat} {s : S}
  {w w' : Threads S Op Phase}

namespace Object
variable (O : Object S Op Phase Res E)

def step (w : Threads S Op Phase) : Action Op E → Threads S Op Phase
  | .call id op =>
    match w.calls id with
    | .absent => w.set w.shared id (.running op (O.begin op))
    | _ => w
  | .go id e =>
    match w.calls id with
    | .running op phase =>
      match O.advance w.shared e op phase with
      | (s, .inl next) => w.set s id (.running op next)
      | (s, .inr _) => w.set s id .returned
    | _ => w

def events (w : Threads S Op Phase) : Action Op E → List (Event Op Res)
  | .call id op =>
    match w.calls id with
    | .absent => [.call id op]
    | _ => []
  | .go id e =>
    match w.calls id with
    | .running op phase =>
      match O.advance w.shared e op phase with
      | (_, .inl _) => []
      | (_, .inr res) => [.ret id res]
    | _ => []

inductive Happens (w : Threads S Op Phase) :
    Action Op E → Threads S Op Phase → List (Event Op Res) → Prop
  | idle {act : Action Op E} : Happens w act w []
  | called {id : Nat} (op : Op) : w.calls id = .absent →
      Happens w (.call id op) (w.set w.shared id (.running op (O.begin op))) [.call id op]
  | goesOn {id : Nat} {e : E} {op : Op} {phase next : Phase} {s : S} :
      w.calls id = .running op phase → O.advance w.shared e op phase = (s, .inl next) →
      Happens w (.go id e) (w.set s id (.running op next)) []
  | returns {id : Nat} {e : E} {op : Op} {phase : Phase} {s : S} {res : Res} :
      w.calls id = .running op phase → O.advance w.shared e op phase = (s, .inr res) →
      Happens w (.go id e) (w.set s id .returned) [.ret id res]

lemma happens (w : Threads S Op Phase) (act : Action Op E) :
    O.Happens w act (O.step w act) (O.events w act) := by
  cases act with
  | call id op =>
    cases hrun : w.calls id with
    | absent =>
      simp only [step, events, hrun]
      exact .called op hrun
    | running op' phase =>
      simp only [step, events, hrun]
      exact .idle
    | returned =>
      simp only [step, events, hrun]
      exact .idle
  | go id e =>
    cases hrun : w.calls id with
    | absent =>
      simp only [step, events, hrun]
      exact .idle
    | returned =>
      simp only [step, events, hrun]
      exact .idle
    | running op phase =>
      rcases hadv : O.advance w.shared e op phase with ⟨s, next | res⟩
      · simp only [step, events, hrun, hadv]
        exact .goesOn hrun hadv
      · simp only [step, events, hrun, hadv]
        exact .returns hrun hadv

lemma Happens.calls_ne {O : Object S Op Phase Res E} (hap : O.Happens w act w' evs)
    (h : k ≠ act.id) : w'.calls k = w.calls k := by
  cases hap with
  | idle => rfl
  | called op _ => exact Threads.calls_set_ne _ _ _ h
  | goesOn _ _ => exact Threads.calls_set_ne _ _ _ h
  | returns _ _ => exact Threads.calls_set_ne _ _ _ h

/-- a guard that is checked on the calls `ids`, in a run of those only -/
lemma allowed_of_checks {O : Object S Op Phase Res E} {ok : Threads S Op Phase → Action Op E → Prop}
    {checks : Threads S Op Phase → Action Op E → Bool} (ids : List Nat) {as : List (Action Op E)}
    (hcheck : ∀ w act, (∀ k ∉ ids, w.calls k = .absent) → checks w act = true → ok w act)
    (hw : ∀ k ∉ ids, w.calls k = .absent) (hids : ∀ act ∈ as, act.id ∈ ids)
    (h : Run.Allowed O.step (checks · · = true) w as) : Run.Allowed O.step ok w as := by
  induction as generalizing w with
  | nil => trivial
  | cons act as ih =>
    obtain ⟨hact, hrest⟩ := List.forall_mem_cons.1 hids
    refine ⟨hcheck w act hw h.1, ih (fun k hk => ?_) hrest h.2⟩
    exact ((O.happens w act).calls_ne (ne_of_mem_of_not_mem hact hk).symm).trans (hw k hk)

lemma calls_run_absent (s : S) (as : List (Action Op E)) (h : ∀ act ∈ as, k ≠ act.id) :
    (Run.run O.step (.start s) as).calls k = .absent := by
  have hkeep : ∀ w : Threads S Op Phase, (Run.run O.step w as).calls k = w.calls k := by
    induction as with
    | nil => exact fun _ => rfl
    | cons act as ih =>
      intro w
      rw [Run.run_cons, ih (fun b hb => h b (List.mem_cons_of_mem act hb)),
        (O.happens w act).calls_ne (h act List.mem_cons_self)]
  exact hkeep (.start s)

/-! ## linearization points by phase -/

section
variable {O} {σ : Type} {legal : σ → Op → Res → σ → Prop}

/-- where a call is, when `point` says what it answers once it has taken effect -/
def status (point : Op → Phase → Option Res) : Progress Op Phase → Status Op Res
  | .absent => .absent
  | .running op phase =>
    match point op phase with
    | none => .called op
    | some res => .done op res
  | .returned => .returned

/-- a section of a call with the specification in state `a`: the call takes effect in it, or not -/
inductive Advances (legal : σ → Op → Res → σ → Prop) (point : Op → Phase → Option Res)
    (I : Threads S Op Phase → σ → Prop) (w : Threads S Op Phase) (a : σ) (id : Nat) (op : Op)
    (phase : Phase) : S × (Phase ⊕ Res) → Prop
  | goesOn {s : S} {next : Phase} : point op next = point op phase →
      I (w.set s id (.running op next)) a → Advances legal point I w a id op phase (s, .inl next)
  | takesEffect {s : S} {next : Phase} {res : Res} {a' : σ} : point op phase = none →
      point op next = some res → legal a op res a' → I (w.set s id (.running op next)) a' →
      Advances legal point I w a id op phase (s, .inl next)
  | returns {s : S} {res : Res} : point op phase = some res → I (w.set s id .returned) a →
      Advances legal point I w a id op phase (s, .inr res)
  | ends {s : S} {res : Res} {a' : σ} : point op phase = none → legal a op res a' →
      I (w.set s id .returned) a' → Advances legal point I w a id op phase (s, .inr res)

/-- `I` relates the threads to the specification, and every section that is `ok` keeps it -/
structure Points (O : Object S Op Phase Res E) (legal : σ → Op → Res → σ → Prop)
    (point : Op → Phase → Option Res) (I : Threads S Op Phase → σ → Prop)
    (ok : Threads S Op Phase → Action Op E → Prop) : Prop where
  fresh : ∀ op, point op (O.begin op) = none
  call : ∀ {w a id} op, I w a → w.calls id = .absent →
    I (w.set w.shared id (.running op (O.begin op))) a
  go : ∀ {w a id op phase e}, I w a → w.calls id = .running op phase → ok w (.go id e) →
    Advances legal point I w a id op phase (O.advance w.shared e op phase)

variable {point : Op → Phase → Option Res} {I : Threads S Op Phase → σ → Prop}
  {ok : Threads S Op Phase → Action Op E → Prop}

structure Tracks (point : Op → Phase → Option Res) (I : Threads S Op Phase → σ → Prop)
    (w : Threads S Op Phase) (g : Ghost σ Op Res) : Prop where
  status : ∀ id, g.status id = status point (w.calls id)
  inv : I w g.abs

lemma Tracks.start {a : σ} (h : I (.start s) a) :
    Tracks point I (.start s) (Ghost.init a) := ⟨fun _ => rfl, h⟩

lemma Tracks.set {g : Ghost σ Op Res} (h : Tracks point I w g) {id : Nat} {p : Progress Op Phase}
    {a : σ} {x : Status Op Res} (hx : x = Object.status point p) (hI : I (w.set s id p) a) :
    Tracks point I (w.set s id p) ((g.setAbs a).set id x) where
  status k := by
    by_cases hk : k = id
    · subst hk
      rw [Ghost.status_set_self, Threads.calls_set_self, hx]
    · rw [Ghost.status_set_ne _ _ hk, Threads.calls_set_ne _ _ _ hk]
      exact h.status k
  inv := hI

lemma Points.moves (P : O.Points legal point I ok) {g : Ghost σ Op Res} (h : Tracks point I w g)
    (hok : ok w act) (hap : O.Happens w act w' evs) :
    ∃ ms g', Ghost.Steps legal g ms g' ∧ ms.filterMap Mark.event = evs ∧ Tracks point I w' g' := by
  cases hap with
  | idle => exact ⟨[], g, .nil g, rfl, h⟩
  | @called id op hrun =>
    have hstatus : g.status id = .absent := by rw [h.status id, hrun]; rfl
    have hcalled : Status.called op = Object.status point (.running op (O.begin op)) := by
      simp only [status, P.fresh op]
    exact ⟨_, _, Ghost.Steps.one (.call op hstatus), rfl, h.set hcalled (P.call op h.inv hrun)⟩
  | @goesOn id e op phase next s hrun hadv =>
    have hgo := P.go h.inv hrun hok
    have hstatus : g.status id = Object.status point (.running op phase) := by
      rw [h.status id, hrun]
    rw [hadv] at hgo
    cases hgo with
    | goesOn hpoint hI =>
      refine ⟨[], g, .nil g, rfl, fun k => ?_, hI⟩
      by_cases hk : k = id
      · subst hk
        rw [Threads.calls_set_self, hstatus]
        simp only [status, hpoint]
      · rw [Threads.calls_set_ne _ _ _ hk]
        exact h.status k
    | @takesEffect _ _ res a' hnone hpoint hlegal hI =>
      have hcalled : g.status id = .called op := by rw [hstatus]; simp only [status, hnone]
      have hdone : Status.done op res = Object.status point (.running op next) := by
        simp only [status, hpoint]
      exact ⟨_, _, Ghost.Steps.one (.point hcalled hlegal), rfl, h.set hdone hI⟩
  | @returns id e op phase s res hrun hadv =>
    have hgo := P.go h.inv hrun hok
    have hstatus : g.status id = Object.status point (.running op phase) := by
      rw [h.status id, hrun]
    rw [hadv] at hgo
    cases hgo with
    | returns hpoint hI =>
      have hdone : g.status id = .done op res := by rw [hstatus]; simp only [status, hpoint]
      exact ⟨_, _, Ghost.Steps.one (.ret hdone), rfl, h.set rfl hI⟩
    | ends hnone hlegal hI =>
      have hcalled : g.status id = .called op := by rw [hstatus]; simp only [status, hnone]
      exact ⟨_, _, Ghost.Steps.point_ret hcalled hlegal, rfl, h.set rfl hI⟩

/-- **points by phase**: a run whose sections meet `Points` has a sequential order, and ends related to
the specification's state after that order -/
theorem Points.linearized (P : O.Points legal point I ok) {a : σ} (hI : I (.start s) a)
    {as : List (Action Op E)} (hok : Run.Allowed O.step ok (.start s) as) :
    ∃ order a', Linearizes legal a (history O.step O.events (.start s) as) order ∧
      Follows legal a order a' ∧ I (Run.run O.step (.start s) as) a' := by
  obtain ⟨order, g, hlin, hfollows, htracks⟩ :=
    linearized_of_points (R := Tracks point I)
      (fun w act g hT hact => P.moves hT hact (O.happens w act)) (Tracks.start hI) hok
  exact ⟨order, g.abs, hlin, hfollows, htracks.inv⟩

end
end Object
end Sections
