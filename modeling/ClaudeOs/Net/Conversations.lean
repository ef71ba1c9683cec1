import ClaudeOs.Lib.Run
import ClaudeOs.Net.Sockets

/-!
# One conversation a pair of endpoints

A segment is handed to the first socket of the table that is neither listening nor closed and has
the segment's two endpoints.  Two things start such a socket: a connection request, which is looked
up first, and `connect`, which is not.

* `Quieter`  what every other call does: no conversation that was not there before;
* `Distinct`  the invariant: the table's conversations have different pairs;
* `Calm`  a connect to an endpoint nobody in the table talks to from the same place;
* `conversations_distinct`  so in every run whose connects are calm, one socket a pair.
-/

namespace ClaudeOs.Net
open Stack Option Sock List

/-! ## what a connection does on its own -/

namespace Tcb

def Idle (t : Tcb) : Prop := t.state = .Closed ∨ t.state = .Listen

variable {t : Tcb} {env : Env}

lemma idle_of_state {u : Tcb} (h : t.Idle) (e : u.state = t.state) : u.Idle := by
  unfold Idle
  rw [e]
  exact h

lemma idle_abort (env : Env) (t : Tcb) : (t.abort env).Idle := .inl (by rfl)

/-- a connection that is not in use stays so, whatever is done to it -/
lemma idle_step (h : t.Idle) (c : Call) : ((Session.start t).step c).tcb.Idle := by
  obtain ⟨bytes, he, -⟩ := (Session.start t).effect c
  generalize ((Session.start t).step c).tcb = u at he
  have hnot : ∀ {state : State}, t.state = state → (state == .Closed || state == .Listen) = true := by
    rintro state rfl
    rcases h with h | h <;> rw [h] <;> rfl
  have heffect : Effect t c u bytes := he
  cases heffect with
  | moves hm =>
    rcases hm.idle h with e | e
    · exact .inl e
    · exact idle_of_state h e
  | ends hends => exact .inl hends.closed
  | heard hh _ => rcases h with h | h <;> simp [hears, h] at hh
  | established hs _ _ => cases hnot hs
  | crossed hs => cases hnot hs
  | @resent env now r hs _ _ _ =>
    have hv : ((r.backOff now).retransmit env).recv = r.recv := by
      rw [recv_retransmit, recv_backOff]
    exact idle_of_state h ((congrArg RecvView.state hv).trans (congrArg SendView.state hs))
  | queued hl _ _ _ => rcases hl with hl | hl <;> cases hnot hl
  | shut hs =>
    generalize t.state = first at hs hnot
    cases hs <;> cases hnot rfl

lemma idle_shutdown (h : t.Idle) (read write : Bool) : (t.shutdown env read write).1.Idle := by
  unfold shutdown
  rcases h with h | h <;> rw [h]
  · exact .inl h
  · exact .inr h

lemma idle_closeTcb (h : t.Idle) : (closeTcb env t).Idle := by
  have ha : (t.abandon env).Idle := by
    unfold abandon
    simp only
    split
    · exact h
    · exact h
  unfold closeTcb
  simp only
  generalize t.abandon env = u at ha
  split
  · exact .inl rfl
  · split
    · exact idle_abort env u
    · exact idle_step ha (.shutdownWrite env)

end Tcb

variable {s : Sock} {endpoint remote : Endpoint} {id : Nat} {source : Addr}

lemma Sock.live_eq_false (h : s.tcb.Idle) : s.live = false := by
  rcases h with h | h <;> simp [live, h]

lemma Sock.not_idle (h : s.live = true) : ¬s.tcb.Idle := fun hi => by
  rw [live_eq_false hi] at h
  cases h

lemma Sock.live_setTcb {t : Tcb} (hstart : s.tcb.Idle → t.Idle) (h : (s.setTcb t).live = true) :
    s.live = true := by
  have hstream : s.stream = true := by
    simp only [live, Bool.and_eq_true] at h
    exact h.1.1
  have hn : ¬s.tcb.Idle := fun hi => not_idle h (hstart hi)
  simp only [Tcb.Idle, not_or] at hn
  simp [live, hstream, hn]

/-! ## calls that start no conversation -/

namespace Stack

/-- every conversation of `w'` was one of `w`, between the same endpoints -/
structure Quieter (w w' : Stack) : Prop where
  was : ∀ a s', a ∈ w'.table → w'.socks[a]? = some s' → s'.live = true →
    a ∈ w.table ∧ ∃ s, w.socks[a]? = some s ∧ s.live = true ∧
      s'.localEnd = s.localEnd ∧ s'.remote = s.remote ∧ s'.bound = s.bound

open Quieter
namespace Quieter
variable {w w' w'' : Stack}

lemma refl (w : Stack) : Quieter w w := ⟨fun _ s' ha hs hl => ⟨ha, s', hs, hl, rfl, rfl, rfl⟩⟩
lemma trans (q : Quieter w w') (q' : Quieter w' w'') : Quieter w w'' := by
  constructor
  intro a s'' ha hs hl
  obtain ⟨ha', s', hs', hl', e1, e2, e3⟩ := q'.was a s'' ha hs hl
  obtain ⟨ha, s, hs, hl, e1', e2', e3'⟩ := q.was a s' ha' hs' hl'
  exact ⟨ha, s, hs, hl, e1.trans e1', e2.trans e2', e3.trans e3'⟩

section
variable (w : Stack) (id : Nat)

lemma setNext (next : BitVec 16) : Quieter w (w.setNext next) := ⟨(refl w).was⟩
lemma setConfig (config : Option Config) : Quieter w (w.setConfig config) := ⟨(refl w).was⟩

lemma modify {f : Sock → Sock}
    (hf : ∀ s, w.socks[id]? = some s → (f s).live = true → s.live = true ∧
      (f s).localEnd = s.localEnd ∧ (f s).remote = s.remote ∧ (f s).bound = s.bound) :
    Quieter w (w.modify id f) := by
  constructor
  intro a s' ha hs hl
  rcases modify_cases hs with ⟨rfl, s, hw, rfl⟩ | ⟨-, hw⟩
  · exact ⟨ha, s, hw, hf s hw hl⟩
  · exact ⟨ha, s', hw, hl, rfl, rfl, rfl⟩

lemma unregister : Quieter w (w.unregister id) :=
  ⟨fun _ s' ha hs hl => ⟨(mem_filter.mp ha).1, s', hs, hl, rfl, rfl, rfl⟩⟩

lemma register (h : ∀ s, w.socks[id]? = some s → s.live = false) : Quieter w (w.register id) := by
  unfold Stack.register
  split
  · exact refl w
  · constructor
    intro a s' ha hs hl
    rcases mem_append.mp ha with ha | ha
    · exact ⟨ha, s', hs, hl, rfl, rfl, rfl⟩
    · obtain rfl := mem_singleton.mp ha
      rw [h s' hs] at hl
      cases hl

lemma push (h : s.live = false) : Quieter w (w.push s) := by
  constructor
  intro a s' ha hs hl
  rcases Nat.lt_or_ge a w.socks.length with hlt | hge
  · rw [Stack.push, List.getElem?_append_left hlt] at hs
    exact ⟨ha, s', hs, hl, rfl, rfl, rfl⟩
  · rw [Stack.push, List.getElem?_append_right hge] at hs
    obtain ⟨_, rfl⟩ := List.getElem?_eq_some_iff.mp hs
    simp [h] at hl

end

lemma foldl {f : Stack → Nat → Stack} (hf : ∀ w id, Quieter w (f w id)) (ids : List Nat)
    (w : Stack) : Quieter w (ids.foldl f w) := by
  induction ids generalizing w with
  | nil => exact refl w
  | cons id ids ih => exact (hf w id).trans (ih (f w id))

section
variable (w : Stack) (id : Nat)

lemma tcb {f : Sock → Tcb} (hf : ∀ s, s.tcb.Idle → (f s).Idle) :
    Quieter w (w.modify id fun s => s.setTcb (f s)) :=
  modify w id fun s _ hl => ⟨live_setTcb (hf s) hl, rfl, rfl, rfl⟩

lemma onTcb {f : Tcb → Tcb} (hf : ∀ t, t.Idle → (f t).Idle) : Quieter w (w.onTcb id f) := by
  refine modify w id fun s _ hl => ?_
  by_cases hs : s.stream = true
  · rw [if_pos hs] at hl ⊢
    exact ⟨live_setTcb (hf s.tcb) hl, rfl, rfl, rfl⟩
  · rw [if_neg hs] at hl ⊢
    exact ⟨hl, rfl, rfl, rfl⟩

/-! ### the calls -/

lemma bindable_not_live (h : bindable s = true) : s.live = false := by
  simp only [bindable, Bool.and_eq_true, Bool.or_eq_true, Bool.not_eq_true', beq_iff_eq] at h
  rcases h.2 with h | h <;> simp [live, h]

lemma bind (requested : Endpoint) : Quieter w (w.bind id requested).1 := by
  unfold Stack.bind
  split
  · exact refl w
  · simp only
    generalize w.choosePort id _ _ = chosen
    split
    · exact setNext w _
    · rename_i port _
      split
      · rename_i hb
        -- the socket is in no conversation before, and its connection is untouched
        have hnot : ∀ s, (w.setNext chosen.1).socks[id]? = some s → s.live = false := by
          intro s hs
          simp only [asks, hs, any_some] at hb
          exact bindable_not_live hb
        refine (setNext w chosen.1).trans ?_
        generalize w.setNext chosen.1 = v at hnot
        refine (modify v id fun s hs hl => ?_).trans (register _ id fun s' hs' => ?_)
        · have hl : s.live = true := hl
          rw [hnot s hs] at hl
          cases hl
        · rcases modify_cases hs' with ⟨-, s, hs, rfl⟩ | ⟨hne, -⟩
          · exact hnot s hs
          · exact absurd rfl hne
      · exact setNext w _

lemma bindEphemeral : Quieter w (w.bindEphemeral id).1 := by
  unfold Stack.bindEphemeral
  split
  · exact refl w
  · exact bind w id _

lemma listen (backlog : Nat) : Quieter w (w.listen id backlog).1 := by
  have hb := bindEphemeral w id
  unfold Stack.listen
  split
  · exact refl w
  · generalize w.bindEphemeral id = bound at hb
    obtain ⟨v, _ | _⟩ := bound
    · exact hb
    · simp only
      split
      · refine hb.trans (modify v id fun s _ hl => ?_)
        simp [live, startListening] at hl
      · exact hb

lemma acceptReady : Quieter w (w.acceptReady id).1 := by
  unfold Stack.acceptReady
  split
  · exact refl w
  · split
    · refine trans (modify w id fun s _ hl => ?_) (foldl unregister _ _)
      exact ⟨hl, rfl, rfl, rfl⟩
    · exact refl w

end

lemma resetChild (env : Env) (w : Stack) (id : Nat) : Quieter w (resetChild env w id) := by
  refine trans (modify w id fun s _ hl => ?_) (unregister _ id)
  exact ⟨live_setTcb (s := s.detach) (fun _ => Tcb.idle_abort env _) hl, rfl, rfl, rfl⟩

lemma close (env : Env) (w : Stack) (id heldBytes : Nat) : Quieter w (close env w id heldBytes) := by
  unfold Stack.close
  split
  · refine trans (modify w id fun s _ hl => ?_) (unregister _ id)
    exact ⟨hl, rfl, rfl, rfl⟩
  · simp only
    have hq := (modify w id (f := fun s =>
      (s.detach.setTcb (closeTcb env (s.meeting heldBytes))).setChildren []) fun s _ hl =>
        ⟨live_setTcb (s := s.detach) (t := closeTcb env (s.meeting heldBytes))
          (fun hi => Tcb.idle_closeTcb hi) hl, rfl, rfl, rfl⟩).trans
      (foldl (resetChild env) (((w.socks[id]?).map children).getD []) _)
    split
    · exact hq.trans (unregister _ id)
    · exact hq

lemma tickOne (env : Env) (now : Nat) (w : Stack) (id : Nat) : Quieter w (tickOne env now w id) := by
  have hq := tcb w id (f := fun s => (s.tcb.onTimer env now).1) fun s hi =>
    Tcb.idle_step hi (.timer env now)
  unfold Stack.tickOne
  split
  · simp only
    split
    · exact hq.trans (unregister _ id)
    · exact hq
  · exact refl w

end Quieter

/-! ## the invariant -/

/-- each conversation has an address and a port, and no two have the same endpoints -/
structure Distinct (w : Stack) : Prop where
  bound : ∀ a s, a ∈ w.table → w.socks[a]? = some s → s.live = true →
    s.bound = true ∧ s.localEnd.address ≠ 0
  once : ∀ a b s t, a ∈ w.table → b ∈ w.table → w.socks[a]? = some s → w.socks[b]? = some t →
    s.live = true → t.live = true → s.localEnd = t.localEnd → s.remote = t.remote → a = b

variable {w w' : Stack}

lemma Distinct.empty : Distinct Stack.empty := ⟨(fun _ _ h => nomatch h), (fun _ _ _ _ h => nomatch h)⟩
lemma Distinct.quieter (h : w.Distinct) (q : Quieter w w') : w'.Distinct := by
  constructor
  · intro a s' ha hs hl
    obtain ⟨ha, s, hs, hl, e1, -, e3⟩ := q.was a s' ha hs hl
    rw [e1, e3]
    exact h.bound a s ha hs hl
  · intro a b s' t' ha hb hs ht hls hlt el er
    obtain ⟨ha, s, hs, hls, e1, e2, -⟩ := q.was a s' ha hs hls
    obtain ⟨hb, t, ht, hlt, f1, f2, -⟩ := q.was b t' hb ht hlt
    exact h.once a b s t ha hb hs ht hls hlt (e1.symm.trans (el.trans f1)) (e2.symm.trans (er.trans f2))

lemma Distinct.start (h : w.Distinct) (id : Nat) (n : Sock)
    (hsocks : ∀ a s, w'.socks[a]? = some s → s.live = true → a ∈ w'.table →
      a = id ∧ s = n ∨ a ∈ w.table ∧ w.socks[a]? = some s)
    (hbound : n.bound = true ∧ n.localEnd.address ≠ 0)
    (hnew : ∀ b t, b ∈ w.table → w.socks[b]? = some t → t.live = true →
      t.localEnd = n.localEnd → t.remote ≠ n.remote) : w'.Distinct := by
  constructor
  · intro a s ha hs hl
    rcases hsocks a s hs hl ha with ⟨-, rfl⟩ | ⟨ha, hs⟩
    · exact hbound
    · exact h.bound a s ha hs hl
  · intro a b s t ha hb hs ht hls hlt el er
    rcases hsocks a s hs hls ha with ⟨rfl, rfl⟩ | ⟨ha, hs⟩ <;>
      rcases hsocks b t ht hlt hb with ⟨rfl, rfl⟩ | ⟨hb, ht⟩
    · rfl
    · exact absurd er.symm (hnew b t hb ht hlt el.symm)
    · exact absurd er (hnew a s ha hs hls el)
    · exact h.once a b s t ha hb hs ht hls hlt el er

/-! ## a request -/

lemma hit_iff (h : s.localEnd.address ≠ 0) :
    s.hit endpoint remote = true ↔ s.live = true ∧ s.remote = remote ∧ s.localEnd = endpoint := by
  have hz : Addr.isUnspecified s.localEnd.address = false := by simpa [Addr.isUnspecified] using h
  simp only [hit, matchesLocal, hz, Bool.false_or, Bool.and_eq_true, beq_iff_eq, and_assoc]
  constructor
  · rintro ⟨hl, hr, hp, ha⟩
    refine ⟨hl, hr, ?_⟩
    cases hs : s.localEnd
    cases he : endpoint
    simp only [hs, he] at hp ha
    rw [hp, ha]
  · rintro ⟨hl, hr, rfl⟩
    exact ⟨hl, hr, rfl, rfl⟩

lemma lookupStream_none (h : w.lookupStream endpoint remote = none) {b : Nat} {t : Sock}
    (hb : b ∈ w.table) (ht : w.socks[b]? = some t) : t.hit endpoint remote = false := by
  have := find?_eq_none.mp h b hb
  simpa [asks, ht] using this

lemma forUs_ne_zero {address : Addr} (h : w.forUs address = true) : address ≠ 0 := by
  rintro rfl
  simp only [forUs, Bool.and_eq_true, Bool.or_eq_true] at h
  rcases h.1.1.1 with h | h
  · exact absurd h (by decide)
  · cases hc : w.config with
    | none => simp [hc] at h
    | some config =>
      simp only [hc, any_some, beq_iff_eq] at h
      have hh := config.host
      rw [h] at hh
      exact absurd hh (by decide)

lemma Distinct.acceptConnection (h : w.Distinct) (env : Env) (listener : Nat) {arrival : Arrival}
    (heldBytes : Nat) (iss : Seq) (hz : arrival.destination.address ≠ 0)
    (hnone : w.lookupStream arrival.destination arrival.source = none) :
    (acceptConnection env w listener arrival heldBytes iss).Distinct := by
  unfold Stack.acceptConnection
  split
  · simp only
    have hq : Quieter ((w.push (childOf env arrival heldBytes iss)).register w.socks.length) _ :=
      Quieter.modify _ listener (f := fun s => s.setChildren (s.children ++ [w.socks.length]))
        fun s _ hl => ⟨hl, rfl, rfl, rfl⟩
    refine Distinct.quieter ?_ hq
    refine h.start w.socks.length (childOf env arrival heldBytes iss) ?_ ⟨rfl, hz⟩ ?_
    · intro a s hs _ ha
      have hs : (w.socks ++ [childOf env arrival heldBytes iss])[a]? = some s := by
        rw [Stack.register] at hs
        split at hs
        · exact hs
        · exact hs
      rcases Nat.lt_or_ge a w.socks.length with hlt | hge
      · rw [List.getElem?_append_left hlt] at hs
        refine .inr ⟨?_, hs⟩
        rw [Stack.register] at ha
        split at ha
        · exact ha
        · rcases List.mem_append.mp ha with ha | ha
          · exact ha
          · exact absurd (List.mem_singleton.mp ha) (Nat.ne_of_lt hlt)
      · rw [List.getElem?_append_right hge] at hs
        obtain ⟨hi, rfl⟩ := List.getElem?_eq_some_iff.mp hs
        have hlen : a - w.socks.length < 1 := hi
        exact .inl ⟨by omega, by simp⟩
    · intro b t hb ht hl el er
      have hhit := lookupStream_none hnone hb ht
      have : t.hit arrival.destination arrival.source = true :=
        (hit_iff (h.bound b t hb ht hl).2).mpr ⟨hl, er, el⟩
      rw [hhit] at this
      cases this
  · exact h

lemma Distinct.receive (h : w.Distinct) (env : Env) (arrival : Arrival) (heldBytes : Nat)
    (iss : Seq) : (receive env w arrival heldBytes iss).Distinct := by
  unfold Stack.receive
  split
  · exact h
  · rename_i hus
    have hus : w.forUs arrival.destination.address = true := by simpa using hus
    split
    · exact h.quieter (tcb w _ fun s hi =>
        Tcb.idle_step (t := s.meeting heldBytes) hi (.segment env _))
    · rename_i hnone
      split
      · split
        · exact h.acceptConnection env _ heldBytes iss (forUs_ne_zero hus) hnone
        · exact h
      · exact h

/-! ## a connect -/

def talksTo (source : Addr) (remote : Endpoint) (t : Sock) : Bool :=
  t.live && t.remote == remote && t.localEnd.address == source

/-- `id` has the port of `t`, or has none yet and would draw that of `t` -/
def mayShare (w : Stack) (id : Nat) (t : Sock) : Bool :=
  w.asks id fun s =>
    if s.localEnd.port = 0 then (w.allocatePort s.stream).2.toOption == some t.localEnd.port
    else t.localEnd.port == s.localEnd.port

/-- some conversation has the endpoints that a connect of `id` may get -/
def mayClash (w : Stack) (id : Nat) (remote : Endpoint) : Bool :=
  match w.sourceFor remote.address with
  | .ok source => w.table.any fun b => w.asks b fun t => talksTo source remote t && w.mayShare id t
  | .error _ => false

def Calm (w : Stack) : Action → Prop
  | .connect _ id remote _ _ => w.mayClash id remote = false
  | _ => True

instance (w : Stack) : DecidablePred w.Calm
  | .connect _ id remote _ _ => inferInstanceAs (Decidable (w.mayClash id remote = false))
  | .socket .. | .bind .. | .listen .. | .accept .. | .close .. | .write .. | .read ..
  | .shutdown .. | .arrive .. | .tick .. | .configure .. => .isTrue trivial

lemma bind_ok (h : (w.bind id .unspecified).2 = .ok ()) :
    ∃ port s, (w.allocatePort s.stream).2 = .ok port ∧ w.socks[id]? = some s ∧ s.live = false ∧
      (w.bind id .unspecified).1.socks = (w.modify id fun s => s.setLocal ⟨0, port⟩).socks ∧
      (w.bind id .unspecified).1.config = w.config ∧
      ∀ a ∈ (w.bind id .unspecified).1.table, a ∈ w.table ∨ a = id := by
  have hheld : w.holds Endpoint.unspecified.address = true := rfl
  have hport : Endpoint.unspecified.port = 0 := rfl
  unfold Stack.bind at h ⊢
  simp only [hheld, Bool.not_true, Bool.false_eq_true, if_false, hport, choosePort, if_true] at h ⊢
  cases halloc : (w.allocatePort (w.asks id stream)).2 with
  | error e => simp [halloc] at h
  | ok port =>
    simp only [halloc] at h ⊢
    split at h
    · rename_i hb
      rw [if_pos hb]
      cases hs : w.socks[id]? with
      | none => simp [asks, Stack.setNext, hs] at hb
      | some s =>
        have hb : bindable s = true := by simpa [asks, Stack.setNext, hs] using hb
        have hstream : w.asks id stream = s.stream := by rw [asks, hs, any_some]
        refine ⟨port, s, hstream ▸ halloc, rfl, bindable_not_live hb, ?_, ?_, ?_⟩
        · unfold Stack.register
          split <;> rfl
        · unfold Stack.register
          split <;> rfl
        · intro a ha
          unfold Stack.register at ha
          split at ha
          · exact .inl ha
          · rcases mem_append.mp ha with ha | ha
            · exact .inl ha
            · exact .inr (mem_singleton.mp ha)
    · cases h

lemma sourceFor_ne_zero {destination : Addr} (hb : Addr.isBroadcast destination = false)
    (h : w.sourceFor destination = .ok source) : source ≠ 0 := by
  unfold Stack.sourceFor at h
  split at h
  · obtain rfl := Except.ok.inj h
    decide
  · split at h
    · rename_i config _
      obtain rfl := Except.ok.inj h
      intro hz
      have hh := config.host
      rw [hz] at hh
      exact absurd hh (by decide)
    · rw [if_neg (by simp [hb])] at h
      cases h

lemma bindEphemeral_fresh
    (hcalm : (w.table.any fun b => w.asks b fun t => talksTo source remote t && w.mayShare id t) = false)
    (hok : (w.bindEphemeral id).2 = .ok ()) (hs : (w.bindEphemeral id).1.socks[id]? = some s) :
    s.bound = true ∧ ∀ b t, b ∈ (w.bindEphemeral id).1.table →
      (w.bindEphemeral id).1.socks[b]? = some t → t.live = true →
      t.localEnd = ⟨source, s.localEnd.port⟩ → t.remote ≠ remote := by
  have hno : ∀ b t, b ∈ w.table → w.socks[b]? = some t → talksTo source remote t = true →
      w.mayShare id t = false := by
    intro b t hb ht htalk
    have := any_eq_false.mp hcalm b hb
    simpa [asks, ht, htalk] using this
  unfold Stack.bindEphemeral at hok hs ⊢
  split at hok
  · -- the socket has a port already
    rename_i hport
    rw [if_pos hport] at hs ⊢
    have hp : s.localEnd.port ≠ 0 := by simpa [asks, hs] using hport
    refine ⟨s.named hp, fun b t hb ht hl el er => ?_⟩
    have hs : w.socks[id]? = some s := hs
    have hshare : w.mayShare id t = true := by
      simp only [mayShare, asks, hs, any_some, if_neg hp, el, beq_self_eq_true]
    rw [hno b t hb ht (by simp [talksTo, hl, er, el])] at hshare
    cases hshare
  · -- it gets one from the counter
    rename_i hport
    rw [if_neg hport] at hs ⊢
    obtain ⟨port, old, hdrawn, hold, hdead, hsocks, -, htable⟩ := bind_ok hok
    have hzero : old.localEnd.port = 0 := by simpa [asks, hold] using hport
    rw [hsocks] at hs
    rcases modify_cases hs with ⟨-, old', hold', rfl⟩ | ⟨hne, -⟩
    · obtain rfl := some.inj (hold.symm.trans hold')
      refine ⟨rfl, fun b t hb ht hl el er => ?_⟩
      rw [hsocks] at ht
      rcases modify_cases ht with ⟨-, t', ht', rfl⟩ | ⟨hne, ht⟩
      · -- the socket itself is in no conversation
        obtain rfl := some.inj (hold.symm.trans ht')
        have hl : old.live = true := hl
        rw [hdead] at hl
        cases hl
      · rcases htable b hb with hb | rfl
        · have hkept := hno b t hb ht (by simp [talksTo, hl, er, el])
          have hp : t.localEnd.port = port := by rw [el]; rfl
          simp [mayShare, asks, hold, hzero, hdrawn, Except.toOption, hp] at hkept
        · exact absurd rfl hne
    · exact absurd rfl hne

lemma Distinct.connect (h : w.Distinct) {env : Env} {heldBytes : Nat} {iss : Seq}
    (hc : w.Calm (.connect env id remote heldBytes iss)) :
    (connect env w id remote heldBytes iss).1.Distinct := by
  have hq := Quieter.bindEphemeral w id
  unfold Stack.connect
  split
  · exact h
  · split
    · rename_i hstream
      unfold Stack.connectStream
      split
      · exact h
      · rename_i hcast
        cases hsource : w.sourceFor remote.address with
        | error e => exact h
        | ok source =>
          have hb : Addr.isBroadcast remote.address = false := by
            simp only [Bool.or_eq_true, not_or, Bool.not_eq_true] at hcast
            exact hcast.1
          have hz := sourceFor_ne_zero hb hsource
          simp only [Calm, mayClash, hsource] at hc
          have hfresh := fun hok s hs => bindEphemeral_fresh hc hok (s := s) hs
          simp only
          generalize w.bindEphemeral id = bound at hq hfresh
          obtain ⟨v, _ | _⟩ := bound
          · exact h.quieter hq
          · have hv : v.Distinct := h.quieter hq
            simp only
            unfold Stack.openFrom
            split
            · rename_i hst
              cases hs : v.socks[id]? with
              | none => simp [childState, hs] at hst
              | some s =>
                obtain ⟨hbound, hnew⟩ := hfresh rfl s hs
                refine hv.start id (startConnecting env source remote heldBytes iss s)
                  ?_ ⟨hbound, hz⟩ hnew
                intro a t ht _ ha
                rcases modify_cases ht with ⟨rfl, s', hs', rfl⟩ | ⟨-, ht⟩
                · obtain rfl := some.inj (hs.symm.trans hs')
                  exact .inl ⟨rfl, rfl⟩
                · exact .inr ⟨ha, ht⟩
            · exact hv
            · exact hv
            · exact hv
    · generalize w.bindEphemeral id = bound at hq
      obtain ⟨v, _ | _⟩ := bound
      · exact h.quieter hq
      · refine h.quieter (hq.trans (Quieter.modify v id fun s _ hl => ?_))
        by_cases hs : s.stream = true
        · rw [setRemote, if_pos hs] at hl ⊢
          exact ⟨hl, rfl, rfl, rfl⟩
        · rw [setRemote, if_neg hs] at hl
          simp [live, hs] at hl

/-! ## runs -/

lemma Distinct.step (h : w.Distinct) {a : Action} (hc : w.Calm a) : (w.step a).Distinct := by
  cases a with
  | socket stream heldBytes => exact h.quieter (Quieter.push w (live_eq_false (.inl rfl)))
  | bind id requested => exact h.quieter (Quieter.bind w id requested)
  | listen id backlog => exact h.quieter (Quieter.listen w id backlog)
  | connect env id remote heldBytes iss => exact h.connect hc
  | accept id => exact h.quieter (Quieter.acceptReady w id)
  | close env id heldBytes => exact h.quieter (Quieter.close env w id heldBytes)
  | write env id buf => exact h.quieter (Quieter.onTcb w id fun t hi => Tcb.idle_step hi (.write env buf))
  | read env id size peek =>
    exact h.quieter (Quieter.onTcb w id fun t hi => Tcb.idle_step hi (.read env size peek))
  | shutdown env id read write =>
    exact h.quieter (Quieter.onTcb w id fun t hi => Tcb.idle_shutdown hi read write)
  | arrive env arrival heldBytes iss => exact h.receive env arrival heldBytes iss
  | tick env now => exact h.quieter (Quieter.foldl (Quieter.tickOne env now) _ w)
  | configure config => exact h.quieter (Quieter.setConfig w config)

end Stack

/-- **one conversation a pair**: where every connect is calm, at most one socket that neither
listens nor is closed matches, and it is the one `lookup_stream` finds -/
theorem conversations_distinct (actions : List Action)
    (hc : Run.Allowed Stack.step Calm Stack.empty actions) :
    let w := Run.run Stack.step Stack.empty actions
    ∀ (endpoint remote : Endpoint) (a b : Nat), a ∈ w.table → b ∈ w.table →
      (w.asks a fun s => s.hit endpoint remote) = true →
      (w.asks b fun s => s.hit endpoint remote) = true →
      a = b ∧ w.lookupStream endpoint remote = some a := by
  intro w endpoint remote
  have h : w.Distinct := hc.keeps (fun _ _ h hc => h.step hc) Distinct.empty
  have huniq : ∀ a b, a ∈ w.table → b ∈ w.table → (w.asks a fun s => s.hit endpoint remote) = true →
      (w.asks b fun s => s.hit endpoint remote) = true → a = b := by
    intro a b ha hb hhit hhit'
    obtain ⟨s, hs, hhit⟩ := (any_eq_true _ _).mp hhit
    obtain ⟨t, ht, hhit'⟩ := (any_eq_true _ _).mp hhit'
    have hls : s.live = true := by
      simp only [hit, Bool.and_eq_true] at hhit
      exact hhit.1.1
    have hlt : t.live = true := by
      simp only [hit, Bool.and_eq_true] at hhit'
      exact hhit'.1.1
    obtain ⟨-, hr, hl⟩ := (hit_iff (h.bound a s ha hs hls).2).mp hhit
    obtain ⟨-, hr', hl'⟩ := (hit_iff (h.bound b t hb ht hlt).2).mp hhit'
    exact h.once a b s t ha hb hs ht hls hlt (hl.trans hl'.symm) (hr.trans hr'.symm)
  intro a b ha hb hhit hhit'
  refine ⟨huniq a b ha hb hhit hhit', ?_⟩
  cases hf : w.lookupStream endpoint remote with
  | none => exact absurd hhit (find?_eq_none.mp hf a ha)
  | some c =>
    have hc := find?_some hf
    rw [huniq c a (mem_of_find?_eq_some hf) ha hc hhit]

/-- another host, and this one's address on its network -/
def web : Endpoint := ⟨0x0A000202, 80⟩
def guest : Config := ⟨0x0A00020F, 0xFFFFFF00, by decide⟩
def ours : Endpoint := ⟨guest.address, 49152⟩

/-- a connection to it from a port of the counter, established, its descriptor closed: FIN-WAIT-1 -/
def closing : List Action :=
  [.configure (some guest), .socket true 0, .connect ⟨1, 1, true⟩ 0 web 0 100,
   .arrive ⟨2, 2, true⟩ ⟨web, ours, ⟨500, 101, SYN ||| ACK, 1000, none, []⟩⟩ 0 0,
   .close ⟨3, 3, true⟩ 0 0]

/-- another connection to it meanwhile, which draws another port -/
def anotherPort : List Action :=
  closing ++ [.socket true 0, .connect ⟨4, 4, true⟩ 1 web 0 200]

/-- each has its own port, and the segments of the first go to it -/
theorem conversations_distinct_anotherPort : let w := Run.run Stack.step Stack.empty anotherPort
    (w.asks 0 fun s => s.hit ours web) = true ∧ w.lookupStream ours web = some 0 ∧
      (w.asks 1 fun s => s.hit ⟨guest.address, 49153⟩ web) = true := by
  have hin : 0 ∈ (Run.run Stack.step Stack.empty anotherPort).table := by decide +kernel
  have hhit : ((Run.run Stack.step Stack.empty anotherPort).asks 0 fun s => s.hit ours web) = true := by
    decide +kernel
  exact ⟨hhit, (conversations_distinct anotherPort (by decide +kernel) _ _ 0 0 hin hin hhit hhit).2,
    by decide +kernel⟩

/-- **two conversations with one pair**: another socket takes the port while the closed connection
waits for its FIN's acknowledgement, and the answer goes to the old one -/
theorem conversations_clash : let w := Run.run Stack.step Stack.empty (closing ++
      [.socket true 0, .bind 1 ⟨0, 49152⟩, .connect ⟨4, 4, true⟩ 1 web 0 200])
    0 ∈ w.table ∧ 1 ∈ w.table ∧ (w.asks 0 fun s => s.hit ours web) = true ∧
      (w.asks 1 fun s => s.hit ours web) = true ∧ w.lookupStream ours web = some 0 := by
  decide +kernel

end ClaudeOs.Net
