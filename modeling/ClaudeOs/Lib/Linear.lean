import ClaudeOs.Lib.Run
import Mathlib.Data.List.Nodup

/-!
# Linearizable histories

A history is the calls and the answers of a concurrent object, in the order they happened.  It is
linearizable when the calls have a sequential order that the object's specification allows, that
gives every call the answer it got, and that keeps a call which had returned before another one
began in front of it.

* `Event`, `history`  what is seen of a run;
* `Linearizable`  the property of a history;
* `Ghost`, `Ghost.Steps`  the specification's state beside a run, with the point at which each call
  takes effect;
* `Ghost.Steps.linearizes`  the points, in order, linearize the history;
* `linearized_of_points`  a run whose steps can be given points has a linearizable history, and ends
  in a state related to the specification's;
* `history_keeps`  what every step keeps together with what has been seen;
* `Linearizes.place`  the specification's state in front of one call of an order.
-/

namespace Linear
open List

inductive Event (Op Res : Type) where
  | call (id : Nat) (op : Op)
  | ret (id : Nat) (res : Res)
  deriving DecidableEq

structure Entry (Op Res : Type) where
  id : Nat
  op : Op
  res : Res

def history {S A Op Res : Type} (step : S → A → S) (events : S → A → List (Event Op Res)) :
    S → List A → List (Event Op Res)
  | _, [] => []
  | s, a :: as => events s a ++ history step events (step s a) as

variable {id : Nat}

section
variable {σ Op Res : Type} (legal : σ → Op → Res → σ → Prop)

inductive Follows : σ → List (Entry Op Res) → σ → Prop
  | nil (s : σ) : Follows s [] s
  | snoc {s s' s'' : σ} {es : List (Entry Op Res)} {e : Entry Op Res} :
      Follows s es s' → legal s' e.op e.res s'' → Follows s (es ++ [e]) s''

/-- `a` had returned when `b` was called -/
def Precedes (h : List (Event Op Res)) (a b : Nat) : Prop :=
  ∃ before after, h = before ++ after ∧ (∃ res, Event.ret a res ∈ before) ∧
    ∃ op, Event.call b op ∈ after

def ids (order : List (Entry Op Res)) : List Nat := order.map (·.id)

/-- `order` is a sequential order for the history `h` -/
structure Linearizes (init : σ) (h : List (Event Op Res)) (order : List (Entry Op Res)) : Prop where
  follows : ∃ s, Follows legal init order s
  once : (ids order).Nodup
  called : ∀ e ∈ order, Event.call e.id e.op ∈ h
  answered : ∀ id res, Event.ret id res ∈ h → ∃ e ∈ order, e.id = id ∧ e.res = res
  realTime : ∀ a b, Precedes h a b → b ∈ ids order → [a, b].Sublist (ids order)

def Linearizable (init : σ) (h : List (Event Op Res)) : Prop :=
  ∃ order, Linearizes legal init h order

variable {legal}

lemma Follows.at_mem {s s' : σ} {order : List (Entry Op Res)} (h : Follows legal s order s')
    {e : Entry Op Res} (he : e ∈ order) :
    ∃ before after t t', order = before ++ e :: after ∧ Follows legal s before t ∧
      legal t e.op e.res t' := by
  induction h with
  | nil => cases he
  | @snoc t t' es last hes hlast ih =>
    rcases mem_append.mp he with he | he
    · obtain ⟨before, after, u, u', heq, hu, hlegal⟩ := ih he
      refine ⟨before, after ++ [last], u, u', ?_, hu, hlegal⟩
      rw [heq, append_assoc, cons_append]
    · rw [mem_singleton.mp he]
      exact ⟨es, [], t, t', rfl, hes, hlast⟩

lemma Linearizes.place {init : σ} {h : List (Event Op Res)} {order : List (Entry Op Res)}
    (hlin : Linearizes legal init h order) {res : Res} (hret : Event.ret id res ∈ h) :
    ∃ op before t t', Event.call id op ∈ h ∧ Follows legal init before t ∧ legal t op res t' ∧
      ∀ b ∈ before, b.id ≠ id ∧ Event.call b.id b.op ∈ h := by
  obtain ⟨e, he, rfl, rfl⟩ := hlin.answered id res hret
  obtain ⟨s, hfollows⟩ := hlin.follows
  obtain ⟨before, after, t, t', horder, hbefore, hlegal⟩ := hfollows.at_mem he
  refine ⟨e.op, before, t, t', hlin.called e he, hbefore, hlegal, fun b hb => ⟨fun heq => ?_, ?_⟩⟩
  · have honce := hlin.once
    rw [horder, ids, map_append, map_cons, nodup_append] at honce
    exact honce.2.2 _ (mem_map_of_mem hb) _ mem_cons_self heq
  · refine hlin.called b ?_
    rw [horder]
    exact mem_append_left _ hb

end

/-! ## calls with a point at which they take effect -/

/-- where a call is: its point is between the call and the return -/
inductive Status (Op Res : Type) where
  | absent
  | called (op : Op)
  | done (op : Op) (res : Res)
  | returned

inductive Mark (Op Res : Type) where
  | call (id : Nat) (op : Op)
  | point (id : Nat)
  | ret (id : Nat) (res : Res)

def Mark.event {Op Res : Type} : Mark Op Res → Option (Event Op Res)
  | .call id op => some (.call id op)
  | .point _ => none
  | .ret id res => some (.ret id res)

/-- the specification's state, and where each call is -/
structure Ghost (σ Op Res : Type) where
  abs : σ
  status : Nat → Status Op Res

namespace Ghost
variable {σ Op Res : Type} {legal : σ → Op → Res → σ → Prop}

def init (s : σ) : Ghost σ Op Res := ⟨s, fun _ => .absent⟩

section
variable (g : Ghost σ Op Res)

def set (id : Nat) (status : Status Op Res) : Ghost σ Op Res :=
  ⟨g.abs, fun k => if k = id then status else g.status k⟩

def setAbs (s : σ) : Ghost σ Op Res := ⟨s, g.status⟩

@[simp] lemma status_set_self (id : Nat) (x : Status Op Res) :
    (g.set id x).status id = x := if_pos rfl

lemma status_set_ne {k : Nat} (x : Status Op Res) (h : k ≠ id) :
    (g.set id x).status k = g.status k := if_neg h

end

variable (legal) in
inductive Step : Ghost σ Op Res → Mark Op Res → Ghost σ Op Res → Prop
  | call {g : Ghost σ Op Res} {id : Nat} (op : Op) : g.status id = .absent →
      Step g (.call id op) (g.set id (.called op))
  | point {g : Ghost σ Op Res} {id : Nat} {op : Op} {res : Res} {s : σ} :
      g.status id = .called op → legal g.abs op res s →
      Step g (.point id) ((g.setAbs s).set id (.done op res))
  | ret {g : Ghost σ Op Res} {id : Nat} {op : Op} {res : Res} : g.status id = .done op res →
      Step g (.ret id res) (g.set id .returned)

variable (legal) in
inductive Steps : Ghost σ Op Res → List (Mark Op Res) → Ghost σ Op Res → Prop
  | nil (g : Ghost σ Op Res) : Steps g [] g
  | snoc {g g' g'' : Ghost σ Op Res} {ms : List (Mark Op Res)} {m : Mark Op Res} :
      Steps g ms g' → Step legal g' m g'' → Steps g (ms ++ [m]) g''

lemma Steps.one {g g' : Ghost σ Op Res} {m : Mark Op Res} (h : Step legal g m g') :
    Steps legal g [m] g' := .snoc (.nil g) h

lemma Steps.append {g g' g'' : Ghost σ Op Res} {ms ns : List (Mark Op Res)}
    (h : Steps legal g ms g') (h' : Steps legal g' ns g'') : Steps legal g (ms ++ ns) g'' := by
  induction h' with
  | nil => rwa [append_nil]
  | snoc _ hm ih =>
    rw [← append_assoc]
    exact .snoc ih hm

lemma Steps.point_ret {g : Ghost σ Op Res} {op : Op} {res : Res} {s : σ}
    (hs : g.status id = .called op) (hlegal : legal g.abs op res s) :
    Steps legal g [.point id, .ret id res] ((g.setAbs s).set id .returned) := by
  have hset : ((g.setAbs s).set id .returned : Ghost σ Op Res) =
      ((g.setAbs s).set id (.done op res)).set id .returned := by
    unfold set
    congr 1
    funext k
    dsimp only
    split <;> rfl
  rw [hset]
  exact (Steps.one (.point hs hlegal)).append (Steps.one (.ret (status_set_self ..)))

end Ghost

/-! ## the points linearize the history -/

section
variable {σ Op Res : Type} {legal : σ → Op → Res → σ → Prop} {h : List (Event Op Res)}
  {order : List (Entry Op Res)} {a b : Nat}

lemma Precedes.of_snoc {e : Event Op Res} (he : ∀ op, e ≠ .call b op)
    (hp : Precedes (h ++ [e]) a b) : Precedes h a b := by
  obtain ⟨before, after, heq, hret, op, hcall⟩ := hp
  rcases eq_nil_or_concat after with rfl | ⟨init, last, rfl⟩
  · cases hcall
  · rw [concat_eq_append, ← append_assoc] at heq
    obtain ⟨hinit, hlast⟩ := append_inj' heq rfl
    refine ⟨before, init, hinit, hret, op, ?_⟩
    rw [concat_eq_append, mem_append, mem_singleton] at hcall
    refine hcall.resolve_right fun hlast' => he op ?_
    rw [hlast', (cons.inj hlast).1]

/-- what the points so far say about the history so far -/
structure Placed (legal : σ → Op → Res → σ → Prop) (init : σ) (h : List (Event Op Res))
    (order : List (Entry Op Res)) (g : Ghost σ Op Res) : Prop where
  follows : Follows legal init order g.abs
  once : (ids order).Nodup
  called : ∀ e ∈ order, Event.call e.id e.op ∈ h
  answered : ∀ id res, Event.ret id res ∈ h → ∃ e ∈ order, e.id = id ∧ e.res = res
  realTime : ∀ a b, Precedes h a b → b ∈ ids order → [a, b].Sublist (ids order)
  absent : ∀ id, g.status id = .absent → id ∉ ids order
  open_ : ∀ id op, g.status id = .called op → id ∉ ids order ∧ Event.call id op ∈ h
  done : ∀ id op res, g.status id = .done op res → ⟨id, op, res⟩ ∈ order

namespace Placed
variable {init : σ} {g g' : Ghost σ Op Res}

lemma start : Placed legal init [] [] (Ghost.init init) where
  follows := .nil init
  once := nodup_nil
  called _ he := absurd he not_mem_nil
  answered _ _ hr := absurd hr not_mem_nil
  realTime _ _ _ hb := absurd hb not_mem_nil
  absent _ _ := not_mem_nil
  open_ _ _ hs := by cases hs
  done _ _ _ hs := by cases hs

/-- an event that is no return without a point and no call of one that has its point -/
lemma event (P : Placed legal init h order g) {e : Event Op Res} {x : Status Op Res}
    (hret : ∀ k res, e = .ret k res → ∃ entry ∈ order, entry.id = k ∧ entry.res = res)
    (hcall : ∀ k op, e = .call k op → k ∉ ids order)
    (hx : x = .returned ∨ ∃ op, x = .called op ∧ e = .call id op) :
    Placed legal init (h ++ [e]) order (g.set id x) where
  follows := P.follows
  once := P.once
  called entry he := mem_append_left _ (P.called entry he)
  answered k res hr := by
    rcases mem_append.mp hr with hr | hr
    · exact P.answered k res hr
    · exact hret k res (mem_singleton.mp hr).symm
  realTime a b hp hb := P.realTime a b (hp.of_snoc fun op he => hcall b op he hb) hb
  absent k hk := by
    by_cases hid : k = id
    · subst hid
      rw [Ghost.status_set_self] at hk
      rcases hx with rfl | ⟨op, rfl, -⟩ <;> cases hk
    · exact P.absent k ((g.status_set_ne _ hid).symm.trans hk)
  open_ k op hk := by
    by_cases hid : k = id
    · subst hid
      rw [Ghost.status_set_self] at hk
      rcases hx with rfl | ⟨op', rfl, rfl⟩ <;> cases hk
      exact ⟨hcall k op rfl, mem_append_right _ (mem_singleton_self _)⟩
    · obtain ⟨hout, hcalled⟩ := P.open_ k op ((g.status_set_ne _ hid).symm.trans hk)
      exact ⟨hout, mem_append_left _ hcalled⟩
  done k op res hk := by
    by_cases hid : k = id
    · subst hid
      rw [Ghost.status_set_self] at hk
      rcases hx with rfl | ⟨op', rfl, -⟩ <;> cases hk
    · exact P.done k op res ((g.status_set_ne _ hid).symm.trans hk)

lemma point (P : Placed legal init h order g) {op : Op} {res : Res} {s : σ}
    (hs : g.status id = .called op) (hlegal : legal g.abs op res s) :
    Placed legal init h (order ++ [⟨id, op, res⟩]) ((g.setAbs s).set id (.done op res)) := by
  obtain ⟨hout, hcall⟩ := P.open_ id op hs
  have hids : ids (order ++ [⟨id, op, res⟩]) = ids order ++ [id] := map_append
  have hne : ∀ {k : Nat} {x : Status Op Res}, k ≠ id →
      ((g.setAbs s).set id (.done op res)).status k = x → g.status k = x :=
    fun hk hx => (Ghost.status_set_ne (g.setAbs s) _ hk).symm.trans hx
  refine ⟨.snoc P.follows hlegal, ?_, ?_, ?_, ?_, ?_, ?_, ?_⟩
  · rw [hids, ← concat_eq_append]
    exact List.Nodup.concat hout P.once
  · intro e he
    rcases mem_append.mp he with he | he
    · exact P.called e he
    · rw [mem_singleton.mp he]
      exact hcall
  · intro k r hr
    obtain ⟨e, he, hid, hres⟩ := P.answered k r hr
    exact ⟨e, mem_append_left _ he, hid, hres⟩
  · intro a b hp hb
    rw [hids] at hb ⊢
    rcases mem_append.mp hb with hb | hb
    · exact (P.realTime a b hp hb).trans (sublist_append_left ..)
    · -- whoever had returned before this call has had its point
      rw [mem_singleton.mp hb]
      obtain ⟨_, _, rfl, ⟨r, hret⟩, _⟩ := hp
      obtain ⟨e, he, hid, _⟩ := P.answered a r (mem_append_left _ hret)
      have ha : a ∈ ids order := mem_map.mpr ⟨e, he, hid⟩
      exact (singleton_sublist.mpr ha).append (List.Sublist.refl [id])
  · intro k hk
    by_cases hid : k = id
    · subst hid
      rw [Ghost.status_set_self] at hk
      cases hk
    · rw [hids, mem_append, mem_singleton]
      exact not_or.mpr ⟨P.absent k (hne hid hk), hid⟩
  · intro k op' hk
    by_cases hid : k = id
    · subst hid
      rw [Ghost.status_set_self] at hk
      cases hk
    · obtain ⟨hout', hcall'⟩ := P.open_ k op' (hne hid hk)
      rw [hids, mem_append, mem_singleton]
      exact ⟨not_or.mpr ⟨hout', hid⟩, hcall'⟩
  · intro k op' r hk
    by_cases hid : k = id
    · subst hid
      rw [Ghost.status_set_self, Status.done.injEq] at hk
      obtain ⟨rfl, rfl⟩ := hk
      exact mem_append_right _ (mem_singleton_self _)
    · exact mem_append_left _ (P.done k op' r (hne hid hk))

end Placed

lemma Ghost.Steps.linearizes {init : σ} {ms : List (Mark Op Res)} {g : Ghost σ Op Res}
    (hs : Ghost.Steps legal (Ghost.init init) ms g) :
    ∃ order, Placed legal init (ms.filterMap Mark.event) order g := by
  induction hs with
  | nil => exact ⟨[], Placed.start⟩
  | snoc _ hm ih =>
    obtain ⟨order, P⟩ := ih
    rw [filterMap_append]
    cases hm with
    | call op hstatus =>
      refine ⟨order, P.event (fun _ _ he => by cases he) ?_ (.inr ⟨op, rfl, rfl⟩)⟩
      rintro _ _ ⟨⟩
      exact P.absent _ hstatus
    | point hstatus hlegal =>
      have hpoint := P.point hstatus hlegal
      rw [← append_nil (filterMap Mark.event _)] at hpoint
      exact ⟨_, hpoint⟩
    | ret hstatus =>
      refine ⟨order, P.event ?_ (fun _ _ he => by cases he) (.inl rfl)⟩
      rintro _ _ ⟨⟩
      exact ⟨_, P.done _ _ _ hstatus, rfl, rfl⟩

lemma Placed.linearizes {init : σ} {g : Ghost σ Op Res} (P : Placed legal init h order g) :
    Linearizes legal init h order :=
  ⟨⟨g.abs, P.follows⟩, P.once, P.called, P.answered, P.realTime⟩

end

/-! ## runs -/

section
variable {S A σ Op Res : Type} {step : S → A → S} {ok : S → A → Prop}
  {events : S → A → List (Event Op Res)} {legal : σ → Op → Res → σ → Prop}
  {R : S → Ghost σ Op Res → Prop} {init : σ} {s : S} {as : List A}

lemma history_keeps {I : List (Event Op Res) → S → Prop}
    (hstep : ∀ h s a, I h s → ok s a → I (h ++ events s a) (step s a)) {h : List (Event Op Res)}
    (hs : I h s) (hok : Run.Allowed step ok s as) :
    I (h ++ history step events s as) (Run.run step s as) := by
  induction as generalizing s h with
  | nil =>
    rw [history, append_nil]
    exact hs
  | cons a as ih =>
    rw [history, ← append_assoc]
    exact ih (hstep h s a hs hok.1) hok.2

section
variable (hstep : ∀ s a g, R s g → ok s a → ∃ ms g', Ghost.Steps legal g ms g' ∧
      ms.filterMap Mark.event = events s a ∧ R (step s a) g')
include hstep

lemma steps_of_points {g : Ghost σ Op Res} (hs : R s g) (hok : Run.Allowed step ok s as) :
    ∃ ms g', Ghost.Steps legal g ms g' ∧
      ms.filterMap Mark.event = history step events s as ∧ R (Run.run step s as) g' := by
  induction as generalizing s g with
  | nil => exact ⟨[], g, .nil g, rfl, hs⟩
  | cons a as ih =>
    obtain ⟨ms, g1, hms, hev, hR⟩ := hstep s a g hs hok.1
    obtain ⟨ns, g2, hns, hev', hR'⟩ := ih hR hok.2
    refine ⟨ms ++ ns, g2, hms.append hns, ?_, hR'⟩
    rw [filterMap_append, hev, hev']
    rfl

/-- **linearization points**: if the points of every step keep the specification related to the run,
they are a sequential order for the history -/
theorem linearized_of_points (hs : R s (Ghost.init init)) (hok : Run.Allowed step ok s as) :
    ∃ order g, Linearizes legal init (history step events s as) order ∧
      Follows legal init order g.abs ∧ R (Run.run step s as) g := by
  obtain ⟨ms, g, hms, hev, hR⟩ := steps_of_points hstep hs hok
  obtain ⟨order, P⟩ := hms.linearizes
  rw [hev] at P
  exact ⟨order, g, P.linearizes, P.follows, hR⟩

end
end
end Linear
