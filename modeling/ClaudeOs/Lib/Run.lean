import Mathlib.Algebra.Order.Ring.Int

/-!
# Runs of a guarded step function

A system is a step function on its states with a guard that says when a step may be taken.

* `run step s as`  the state after the actions `as`, first one first;
* `Allowed step ok s as`  every action of the list is taken where its guard holds;
* `keeps`  what every step keeps, every run keeps;
* `Allowed.keeps`  what every allowed step keeps, an allowed run keeps;
* `Allowed.and`  two guards met together;
* `Allowed.append`, `Allowed.of_append`  one allowed run after another.
-/

namespace Run
variable {S A : Type} (step : S → A → S) (ok : S → A → Prop)

def run (s : S) (as : List A) : S := as.foldl step s

def Allowed : S → List A → Prop
  | _, [] => True
  | s, a :: as => ok s a ∧ Allowed (step s a) as

variable {step ok} {ok' : S → A → Prop} {s : S} {a : A} {as bs : List A}

@[simp] lemma run_nil : run step s [] = s := rfl
@[simp] lemma run_cons : run step s (a :: as) = run step (step s a) as := rfl
@[simp] lemma run_append : run step s (as ++ bs) = run step (run step s as) bs := List.foldl_append

instance decidableAllowed [∀ s a, Decidable (ok s a)] :
    (s : S) → (as : List A) → Decidable (Allowed step ok s as)
  | _, [] => .isTrue trivial
  | s, a :: as =>
    have := decidableAllowed (step s a) as
    inferInstanceAs (Decidable (ok s a ∧ Allowed step ok (step s a) as))

lemma Allowed.keeps {I : S → Prop} (hstep : ∀ s a, I s → ok s a → I (step s a)) (hs : I s)
    (h : Allowed step ok s as) : I (run step s as) := by
  induction as generalizing s with
  | nil => exact hs
  | cons a as ih => exact ih (hstep s a hs h.1) h.2

lemma allowed_of_forall (h : ∀ s a, ok s a) : Allowed step ok s as := by
  induction as generalizing s with
  | nil => trivial
  | cons a as ih => exact ⟨h s a, ih⟩

lemma Allowed.append (h : Allowed step ok s as) (h' : Allowed step ok (run step s as) bs) :
    Allowed step ok s (as ++ bs) := by
  induction as generalizing s with
  | nil => exact h'
  | cons a as ih => exact ⟨h.1, ih h.2 h'⟩

lemma Allowed.of_append (h : Allowed step ok s (as ++ bs)) :
    Allowed step ok s as ∧ Allowed step ok (run step s as) bs := by
  induction as generalizing s with
  | nil => exact ⟨trivial, h⟩
  | cons a as ih => exact ⟨⟨h.1, (ih h.2).1⟩, (ih h.2).2⟩

lemma keeps {I : S → Prop} (hstep : ∀ s a, I s → I (step s a)) (hs : I s) (as : List A) :
    I (run step s as) := by
  induction as generalizing s with
  | nil => exact hs
  | cons a as ih => exact ih (hstep s a hs)

lemma Allowed.and (h : Allowed step ok s as) (h' : Allowed step ok' s as) :
    Allowed step (fun s a => ok s a ∧ ok' s a) s as := by
  induction as generalizing s with
  | nil => trivial
  | cons a as ih => exact ⟨⟨h.1, h'.1⟩, ih h.2 h'.2⟩

end Run
