import Mathlib.Algebra.Order.Ring.Int

/-!
# Calls that return, fail, or stop the machine

A call runs on a state and returns a value, fails with an error, or stops the machine: with
overflow checks on, an addition that does not fit in a word does the last.

* `Outcome`, `Call`  the three ends of a call, and its monad;
* `addOk`, `subOk`  the checks in front of an addition and a subtraction;
* `Post`  what one run satisfies, with one rule for each way to build a call;
* `Outcome.Holds`  the same of a run that does not stop;
* `Allows`  what one run satisfies when the machine did not stop;
* `Ends`  what one run keeps however it ends, and when it may stop.
-/

namespace Call

inductive Outcome (ε α : Type) where
  | ok (a : α)
  | error (e : ε)
  | stopped
deriving DecidableEq, Repr

end Call

open Call in
def Call (ε σ α : Type) : Type := σ → Outcome ε α × σ

namespace Call
variable {ε σ α β : Type}

def pure (a : α) : Call ε σ α := fun s => (.ok a, s)
def bind (m : Call ε σ α) (f : α → Call ε σ β) : Call ε σ β := fun s =>
  match m s with
  | (.ok a, s) => f a s
  | (.error e, s) => (.error e, s)
  | (.stopped, s) => (.stopped, s)

instance : Monad (Call ε σ) where
  pure := Call.pure
  bind := Call.bind

def fail (e : ε) : Call ε σ α := fun s => (.error e, s)
def stop : Call ε σ α := fun s => (.stopped, s)

def act (f : σ → α × σ) : Call ε σ α := fun s => (.ok (f s).1, (f s).2)

def get : Call ε σ σ := fun s => (.ok s, s)

def modify (f : σ → σ) : Call ε σ Unit := fun s => (.ok (), f s)

def WORD : Nat := 2 ^ 64

/-- the check in front of an addition -/
@[irreducible] def addOk (a b : Nat) : Call ε σ Unit := if a + b < WORD then pure () else stop

/-- the check in front of a subtraction -/
@[irreducible] def subOk (a b : Nat) : Call ε σ Unit := if b ≤ a then pure () else stop

/-- the check in front of the negation of a signed word of 32 bits -/
@[irreducible] def negOk (a : Int) : Call ε σ Unit := if -2 ^ 31 < a then pure () else stop

def attempt (m : Call ε σ α) : Call ε σ (Except ε α) := fun s =>
  match m s with
  | (.ok a, s) => (.ok (.ok a), s)
  | (.error e, s) => (.ok (.error e), s)
  | (.stopped, s) => (.stopped, s)

def lift {τ : Type} (part : τ → σ) (put : σ → τ → τ) (m : Call ε σ α) : Call ε τ α := fun t =>
  match m (part t) with
  | (o, s) => (o, put s t)

def mapError {ε' : Type} (f : ε → ε') (m : Call ε σ α) : Call ε' σ α := fun s =>
  match m s with
  | (.ok a, s) => (.ok a, s)
  | (.error e, s) => (.error (f e), s)
  | (.stopped, s) => (.stopped, s)

def tryAct (f : σ → Except ε α × σ) : Call ε σ α := fun s =>
  match f s with
  | (.ok a, s) => (.ok a, s)
  | (.error e, s) => (.error e, s)

/-! ## running -/

variable {x y : Nat} {P : Outcome ε α → σ → Prop} {f : Unit → Call ε σ α} {C' : Prop}
  {r : Outcome ε α × σ}

section
variable (s : σ) (a : α) (e : ε) (f : α → Call ε σ β)

lemma bind_run (m : Call ε σ α) : (m >>= f) s = match m s with
    | (.ok a, s) => f a s
    | (.error e, s) => (.error e, s)
    | (.stopped, s) => (.stopped, s) := rfl

@[simp] lemma pure_bind : (Pure.pure a >>= f : Call ε σ β) = f a := rfl
lemma addOk_bind (h : x + y < WORD) (f : Unit → Call ε σ β) : (addOk x y >>= f) = f () := by
  rw [addOk, if_pos h]
  rfl

lemma negOk_bind {x : Int} (h : -2 ^ 31 < x) (f : Unit → Call ε σ β) : (negOk x >>= f) = f () := by
  rw [negOk, if_pos h]
  rfl

lemma bind_assoc {γ : Type} (m : Call ε σ α) (f : α → Call ε σ β) (g : β → Call ε σ γ) :
    (m >>= f) >>= g = m >>= fun a => f a >>= g := by
  funext s
  rw [bind_run, bind_run, bind_run]
  rcases m s with ⟨_ | _ | _, s'⟩ <;> rfl

lemma addOk_overflow (h : ¬ x + y < WORD) (f : Unit → Call ε σ β) : (addOk x y >>= f) = stop := by
  rw [addOk, if_neg h]
  rfl

lemma subOk_bind (h : y ≤ x) (f : Unit → Call ε σ β) : (subOk x y >>= f) = f () := by
  rw [subOk, if_pos h]
  rfl

@[simp] lemma get_bind_run (f : σ → Call ε σ β) : (get >>= f) s = f s s := rfl

@[simp] lemma modify_bind_run (g : σ → σ) (f : Unit → Call ε σ β) :
    (modify g >>= f) s = f () (g s) := rfl

end

/-! ## how a run may end -/

/-- what an end of a call satisfies: `Q` when it returned, `R` when it failed, `T` when it stopped -/
def Post (Q : α → σ → Prop) (R : ε → σ → Prop) (T : σ → Prop) : Outcome ε α × σ → Prop
  | (.ok a, s) => Q a s
  | (.error e, s) => R e s
  | (.stopped, s) => T s

namespace Post
variable {Q Q' : α → σ → Prop} {R R' : ε → σ → Prop} {T T' : σ → Prop} {s : σ} {m : Call ε σ α}
  {r : Outcome ε α × σ}

lemma imp (h : Post Q R T r) (hQ : ∀ a s, Q a s → Q' a s) (hR : ∀ e s, R e s → R' e s)
    (hT : ∀ s, T s → T' s) : Post Q' R' T' r := by
  rcases r with ⟨_ | _ | _, s⟩
  · exact hQ _ s h
  · exact hR _ s h
  · exact hT s h

lemma mono (h : Post Q R T r) (hQ : ∀ a s, Q a s → Q' a s) (hR : ∀ e s, R e s → R' e s) :
    Post Q' R' T r :=
  h.imp hQ hR fun _ h => h

lemma bind {f : α → Call ε σ β} {Q' : β → σ → Prop} (hm : Post Q R T (m s))
    (hf : ∀ a s', Q a s' → Post Q' R T (f a s')) : Post Q' R T ((m >>= f) s) := by
  rw [bind_run]
  generalize m s = r at hm
  rcases r with ⟨_ | _ | _, s'⟩
  · exact hf _ s' hm
  · exact hm
  · exact hm

lemma ite {c : Prop} [Decidable c] {m' : Call ε σ α} (h : c → Post Q R T (m s))
    (h' : ¬ c → Post Q R T (m' s)) : Post Q R T ((if c then m else m') s) := by
  by_cases hc : c
  · rw [if_pos hc]
    exact h hc
  · rw [if_neg hc]
    exact h' hc

lemma addOk (hstop : ¬ x + y < WORD → T s) (hf : x + y < WORD → Post Q R T (f () s)) :
    Post Q R T ((addOk x y >>= f) s) := by
  by_cases h : x + y < WORD
  · rw [addOk_bind h]
    exact hf h
  · rw [addOk_overflow h]
    exact hstop h

lemma subOk (hstop : ¬ y ≤ x → T s) (hf : y ≤ x → Post Q R T (f () s)) :
    Post Q R T ((subOk x y >>= f) s) := by
  by_cases h : y ≤ x
  · rw [subOk_bind h]
    exact hf h
  · rw [Call.subOk, if_neg h]
    exact hstop h

lemma lift {τ : Type} {part : τ → σ} {put : σ → τ → τ} {t : τ} {Q : α → τ → Prop}
    {R : ε → τ → Prop} {T : τ → Prop} (h : Post (fun a s => Q a (put s t)) (fun e s => R e (put s t))
      (fun s => T (put s t)) (m (part t))) : Post Q R T (Call.lift part put m t) := by
  rw [Call.lift]
  generalize m (part t) = r at h
  rcases r with ⟨_ | _ | _, s'⟩ <;> exact h

lemma attempt {Q : Except ε α → σ → Prop}
    (h : Post (fun a => Q (.ok a)) (fun e => Q (.error e)) T (m s)) : Post Q R' T (m.attempt s) := by
  rw [Call.attempt]
  generalize m s = r at h
  rcases r with ⟨_ | _ | _, s'⟩ <;> exact h

lemma mapError {ε' : Type} {f : ε → ε'} {R : ε' → σ → Prop}
    (h : Post Q (fun e => R (f e)) T (m s)) : Post Q R T (m.mapError f s) := by
  rw [Call.mapError]
  generalize m s = r at h
  rcases r with ⟨_ | _ | _, s'⟩ <;> exact h

lemma tryAct {f : σ → Except ε α × σ} (hok : ∀ a s', f s = (.ok a, s') → Q a s')
    (herror : ∀ e s', f s = (.error e, s') → R e s') : Post Q R T (Call.tryAct f s) := by
  rw [Call.tryAct]
  rcases hrun : f s with ⟨_ | _, s'⟩
  · exact herror _ s' hrun
  · exact hok _ s' hrun

lemma ends (h : Post (fun a => P (.ok a)) (fun e => P (.error e)) (P .stopped) r) : P r.1 r.2 := by
  rcases r with ⟨_ | _ | _, s'⟩ <;> exact h

end Post

/-! ### runs that do not stop -/

/-- what an end of a call satisfies; a stopped machine satisfies nothing -/
abbrev Outcome.Holds (Q : α → σ → Prop) (R : ε → σ → Prop) : Outcome ε α × σ → Prop :=
  Post Q R fun _ => False

namespace Outcome.Holds
variable {Q : α → σ → Prop} {R : ε → σ → Prop} {s : σ} {m : Call ε σ α}

lemma ends (h : Holds (fun a => P (.ok a)) (fun e => P (.error e)) (m s)) : P (m s).1 (m s).2 :=
  Post.ends (h.imp (fun _ _ h => h) (fun _ _ h => h) fun _ h => h.elim)

lemma not_stopped (h : Holds Q R (m s)) : (m s).1 ≠ .stopped := ends (P := fun o _ => o ≠ .stopped)
    (h.mono (fun _ _ _ hstop => by cases hstop) fun _ _ _ hstop => by cases hstop)

lemma snd {P : σ → Prop} (h : Holds (fun _ s => P s) (fun _ s => P s) (m s)) : P (m s).2 :=
  ends (P := fun _ => P) h

lemma of_ok (h : Holds Q R (m s)) {a : α} (hok : (m s).1 = .ok a) : Q a (m s).2 := by
  refine ends (P := fun o s => o = .ok a → Q a s) (h.mono (fun b s hb heq => ?_) fun _ _ _ heq => ?_) hok
  · cases heq
    exact hb
  · cases heq

end Outcome.Holds

/-! ### runs that may stop -/

/-- what an end of a call satisfies, unless the machine stopped -/
abbrev Allows (Q : α → σ → Prop) (R : ε → σ → Prop) : Outcome ε α × σ → Prop :=
  Post Q R fun _ => True

namespace Allows
variable {Q : α → σ → Prop} {R : ε → σ → Prop} {s : σ} {m : Call ε σ α}

lemma addOk (hf : x + y < WORD → Allows Q R (f () s)) : Allows Q R ((addOk x y >>= f) s) :=
  Post.addOk (fun _ => trivial) hf

variable {P : σ → Prop}

lemma tryAct_snd {f : σ → Except ε α × σ} (h : P (f s).2) :
    Allows (fun _ => P) (fun _ => P) (Call.tryAct f s) :=
  Post.tryAct (fun _ _ hrun => by rwa [hrun] at h) fun _ _ hrun => by rwa [hrun] at h

lemma of_error (h : Allows Q R (m s)) {e : ε} {s' : σ} (hrun : m s = (.error e, s')) : R e s' := by
  rw [hrun] at h
  exact h

/-- a run ends as it ends -/
lemma self : Allows (fun a s' => m s = (.ok a, s')) (fun e s' => m s = (.error e, s')) (m s) := by
  rcases m s with ⟨_ | _ | _, s'⟩
  · exact rfl
  · exact rfl
  · trivial

lemma of_forall (h : ∀ s, P s) : Allows (fun _ => P) (fun _ => P) (m s) := by
  rcases m s with ⟨_ | _ | _, s'⟩
  · exact h s'
  · exact h s'
  · trivial

lemma snd (h : Allows (fun _ => P) (fun _ => P) (m s)) (hends : (m s).1 ≠ .stopped) : P (m s).2 :=
  Post.ends (P := fun o s => o ≠ .stopped → P s)
    (h.imp (fun _ _ h _ => h) (fun _ _ h _ => h) fun _ _ hstop => absurd rfl hstop) hends

end Allows

/-! ### what a run keeps, however it ends -/

/-- `I` holds however the call ends, `Q` too when it returns and `R` when it fails, and it stops only
without `C` -/
abbrev Ends (I : σ → Prop) (C : Prop) (Q : α → σ → Prop) (R : ε → σ → Prop) :
    Outcome ε α × σ → Prop :=
  Post (fun a s => I s ∧ Q a s) (fun e s => I s ∧ R e s) fun s => I s ∧ ¬ C

namespace Ends
variable {I : σ → Prop} {C : Prop} {Q : α → σ → Prop} {R : ε → σ → Prop} {s : σ} {m : Call ε σ α}

lemma bind {f : α → Call ε σ β} {Q' : β → σ → Prop} (hm : Ends I C Q R (m s))
    (hf : ∀ a s', I s' → Q a s' → Ends I C Q' R (f a s')) : Ends I C Q' R ((m >>= f) s) :=
  Post.bind hm fun a s' h => hf a s' h.1 h.2

lemma addOk (hs : I s) (hfits : C → x + y < WORD) (hf : x + y < WORD → Ends I C Q R (f () s)) :
    Ends I C Q R ((addOk x y >>= f) s) :=
  Post.addOk (fun h => ⟨hs, fun hc => h (hfits hc)⟩) hf

lemma subOk (hs : I s) (hfits : C → y ≤ x) (hf : y ≤ x → Ends I C Q R (f () s)) :
    Ends I C Q R ((subOk x y >>= f) s) :=
  Post.subOk (fun h => ⟨hs, fun hc => h (hfits hc)⟩) hf

lemma snd (h : Ends I C Q R (m s)) : I (m s).2 :=
  Post.ends (P := fun _ => I) (h.imp (fun _ _ h => h.1) (fun _ _ h => h.1) fun _ h => h.1)

lemma allows (h : Ends I C Q R (m s)) : Allows Q R (m s) :=
  h.imp (fun _ _ h => h.2) (fun _ _ h => h.2) fun _ _ => trivial

/-- a run that stops for less -/
lemma weaken (h : Ends I C Q R r) (hC : C' → C) : Ends I C' Q R r :=
  h.imp (fun _ _ h => h) (fun _ _ h => h) fun _ h => ⟨h.1, fun hc => h.2 (hC hc)⟩

/-- a run that cannot stop -/
lemma surely (h : Ends I C Q R r) (hC : C) : Ends I C' Q R r := h.weaken fun _ => hC

lemma holds (h : Ends I C Q R (m s)) (hc : C) : Outcome.Holds Q R (m s) :=
  h.imp (fun _ _ h => h.2) (fun _ _ h => h.2) fun _ h => h.2 hc

end Ends
end Call
