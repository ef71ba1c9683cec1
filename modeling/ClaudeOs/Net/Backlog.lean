import ClaudeOs.Lib.Run
import ClaudeOs.Net.Sockets

/-!
# A listener while its server sleeps in `accept4`

A connection nobody has accepted yet is a child of its listener, and a listener with as many
children as its backlog drops requests.  Children that end are taken out by `accept_ready` alone,
and `accept4` sleeps until some child has finished its handshake.

* `Tcb.closedBy`, `Tcb.expires`  the segments and the ticks that end a connection;
* `Event`, `blocked`  what goes on while the server sleeps;
* `Fresh`  the invariant: no child has ended;
* `listener_reachable`  so a request is dropped for lack of backlog only when that many children are
  alive, as long as no child ends.
-/

namespace ClaudeOs.Net
open List Option

/-! ## what ends a connection -/

namespace Tcb

/-- the segment ends the connection: a reset it believes, or the acknowledgement of the last FIN -/
def closedBy (t : Tcb) (segment : Segment) : Bool :=
  match t.state with
  | .SynSent => segment.has RST && (!segment.has ACK ||
      (seqLt t.iss segment.acknowledgement && seqLe segment.acknowledgement t.sendNext))
  | .Closed | .Listen => false
  | _ => t.acceptable segment &&
      if segment.has RST then segment.sequence == t.receiveNext
      else !segment.has SYN && segment.has ACK && t.state == .LastAck &&
        (t.finAcknowledged || (t.acknowledges segment.acknowledgement &&
          t.finCovered segment.acknowledgement))

/-- a clock of the connection has run out for good -/
def expires (t : Tcb) (now : Nat) : Bool :=
  if t.expireAt ≠ 0 then decide (t.expireAt ≤ now)
  else decide (t.retransmitAt ≠ 0 ∧ t.retransmitAt ≤ now ∧ t.retryLimit < t.retries + 1)

variable {t : Tcb} {env : Env} {segment : Segment}

section
variable (h : t.state ≠ .Closed)
include h

lemma open_onFinAcknowledged (hl : t.state = .LastAck → t.finAcknowledged = false) :
    (t.onFinAcknowledged env).1.state ≠ .Closed := by
  unfold onFinAcknowledged
  split
  · rename_i hf
    split
    · exact nofun
    · exact nofun
    · rename_i hs
      rw [hl hs] at hf
      cases hf
    · exact h
  · exact h

lemma open_takeFin : (t.takeFin env).1.state ≠ .Closed := by
  unfold takeFin
  split
  · exact h
  · simp only
    split
    · exact State.noConfusion
    · exact State.noConfusion
    · exact State.noConfusion
    · exact h

lemma open_onData (wantedBefore : Seq) : (t.onData env segment wantedBefore).1.state ≠ .Closed := by
  unfold onData
  simp only
  have hout : ∀ u : Tcb, ((u.answer env segment wantedBefore).output env).state = u.state := fun u =>
    congrArg RecvView.state ((recv_output env _).trans (recv_answer env u segment wantedBefore))
  rw [hout]
  have hnote : ∀ finish, ((t.takeData env (t.trim segment).1 (t.trim segment).2).1.noteFin env segment
      finish).state = t.state := fun finish =>
    congrArg SendView.state ((send_noteFin env _ segment finish).trans (send_takeData env t _ _))
  unfold takeHeldFin
  split
  · exact open_takeFin (by rw [hnote]; exact h)
  · simp only [hnote]
    exact h

lemma open_onAcknowledgement (duplicate : Bool)
    (hl : t.state = .LastAck → (t.finAcknowledged || (t.acknowledges segment.acknowledgement &&
      t.finCovered segment.acknowledgement)) = false) :
    (t.onAcknowledgement env segment duplicate).1.state ≠ .Closed := by
  obtain ⟨hstate, hfin⟩ := heard_state env t segment duplicate
  show (((t.heard env segment duplicate).onFinAcknowledged env).1.onData env segment
    t.receiveNext).1.state ≠ .Closed
  refine open_onData (open_onFinAcknowledged (by rw [hstate]; exact h) fun hs => ?_) _
  rw [hfin]
  exact hl (hstate.symm.trans hs)

lemma open_onAcknowledged
    (hl : t.state = .LastAck → (t.finAcknowledged || (t.acknowledges segment.acknowledgement &&
      t.finCovered segment.acknowledgement)) = false) :
    (t.onAcknowledged env segment).1.state ≠ .Closed := by
  unfold onAcknowledged
  simp only
  split
  · split
    · exact open_onAcknowledgement State.noConfusion _ State.noConfusion
    · exact fun hclosed => h ((congrArg RecvView.state (recv_sendSegment env t _ _ _ _)).symm.trans hclosed)
  · exact open_onAcknowledgement h _ hl

lemma open_onUnacceptable : (t.onUnacceptable env segment).1.state ≠ .Closed := by
  have hack : (t.acknowledge env).state = t.state := congrArg RecvView.state (recv_acknowledge env t)
  unfold onUnacceptable
  split
  · exact h
  · split
    · have hsyn : ({ t with timed := none }.sendSynAck env).state = t.state :=
        congrArg RecvView.state (recv_sendSynAck env { t with timed := none })
      exact fun hclosed => h (hsyn.symm.trans hclosed)
    · exact fun hclosed => h (hack.symm.trans hclosed)

end

lemma open_onSynSent (hs : t.state = .SynSent)
    (hc : (segment.has RST && (!segment.has ACK || (seqLt t.iss segment.acknowledgement &&
      seqLe segment.acknowledgement t.sendNext))) = false) :
    (t.onSynSent env segment).1.state ≠ .Closed := by
  have h : t.state ≠ .Closed := by rw [hs]; exact State.noConfusion
  unfold onSynSent
  split
  · split
    · exact fun hclosed => h ((congrArg RecvView.state (recv_sendSegment env t _ _ _ _)).symm.trans hclosed)
    · exact h
  · rename_i hacked
    split
    · rename_i hreset
      exfalso
      simp only [Bool.and_eq_true, Bool.not_eq_true', not_and, Bool.not_eq_false] at hacked
      rw [hreset, Bool.true_and, Bool.or_eq_false_iff, Bool.not_eq_false'] at hc
      rw [Bool.and_eq_true_iff.2 (hacked hc.1)] at hc
      cases hc.2
    · split
      · exact h
      · simp only
        split
        · have hest : ∀ u : Tcb, ((((u.establish segment.acknowledgement).acknowledge env).output
              env)).state = .Established := fun u =>
            congrArg RecvView.state ((recv_output env _).trans (recv_acknowledge env _))
          rw [hest]
          exact State.noConfusion
        · have hsyn : ∀ u : Tcb, (({ u with state := .SynReceived }.sendSynAck env)).state =
              .SynReceived := fun u => congrArg RecvView.state (recv_sendSynAck env _)
          rw [hsyn]
          exact State.noConfusion

lemma open_onSegment (h : t.state ≠ .Closed) (hc : t.closedBy segment = false) :
    (t.onSegment env segment).1.state ≠ .Closed := by
  have hack : (t.acknowledge env).state = t.state := congrArg RecvView.state (recv_acknowledge env t)
  unfold closedBy at hc
  split at hc
  · rename_i hs
    unfold onSegment
    rw [hs]
    exact open_onSynSent hs hc
  · rename_i hs
    exact absurd hs h
  · rename_i hs
    unfold onSegment
    rw [hs]
    exact h
  · unfold onSegment
    split
    · contradiction
    · contradiction
    · contradiction
    · split
      · exact open_onUnacceptable h
      · rename_i hacc
        rw [Bool.not_eq_true, Bool.not_eq_false'] at hacc
        rw [hacc, Bool.true_and] at hc
        split
        · rename_i hreset
          rw [if_pos hreset, beq_eq_false_iff_ne] at hc
          rw [onReset, if_pos (bne_iff_ne.2 hc)]
          exact fun hclosed => h (hack.symm.trans hclosed)
        · rename_i hreset
          rw [if_neg hreset] at hc
          split
          · exact fun hclosed => h (hack.symm.trans hclosed)
          · split
            · exact h
            · rename_i hsyn hackf
              rw [Bool.not_eq_true, Bool.not_eq_false'] at hackf
              refine open_onAcknowledged h fun hlast => ?_
              simpa [hsyn, hackf, hlast] using hc

lemma open_onTimer {now : Nat} (h : t.state ≠ .Closed) (hc : t.expires now = false) :
    (t.onTimer env now).1.state ≠ .Closed := by
  have hr : (t.expireReassembly now).state = t.state ∧ (t.expireReassembly now).expires now = false := by
    unfold expireReassembly
    split
    · exact ⟨rfl, hc⟩
    · exact ⟨rfl, hc⟩
  unfold onTimer
  generalize t.expireReassembly now = r at hr
  obtain ⟨hs, hr⟩ := hr
  unfold expires at hr
  unfold onClocks
  split
  · rename_i he
    rw [if_pos he, decide_eq_false_iff_not] at hr
    rw [if_neg hr]
    exact hs ▸ h
  · rename_i he
    rw [if_neg he, decide_eq_false_iff_not] at hr
    split
    · exact hs ▸ h
    · rename_i hdue
      rw [not_or, not_lt] at hdue
      rw [if_neg fun hlimit => hr ⟨hdue.1, hdue.2, hlimit⟩]
      have hv : ((r.backOff now).retransmit env).recv = r.recv := by
        rw [recv_retransmit, recv_backOff]
      have hv : ((r.backOff now).retransmit env).state = r.state := congrArg RecvView.state hv
      exact fun hclosed => h (hs.symm.trans (hv.symm.trans hclosed))

end Tcb

/-! ## the sockets while the server sleeps -/

variable {a : Nat} {f : Sock → Sock} {s : Sock}

namespace Stack

/-- what happens to the sockets; `turn` is the loop of `accept4` looking again -/
inductive Event where
  | arrive (env : Env) (arrival : Arrival) (heldBytes : Nat) (iss : Seq)
  | tick (env : Env) (now : Nat)
  | turn

/-- the connections of the listener `id` that nobody has accepted -/
def queued (w : Stack) (id : Nat) : List Nat := ((w.socks[id]?).map Sock.children).getD []

/-- one event while a server sleeps in `accept4` on the listener `id` -/
def blocked (id : Nat) (w : Stack) : Event → Stack
  | .arrive env arrival heldBytes iss => receive env w arrival heldBytes iss
  | .tick env now => onTick env w now
  | .turn => (w.acceptReady id).1

def Spares (id : Nat) (w : Stack) : Event → Prop
  | .arrive _ arrival _ _ => ∀ c ∈ w.queued id,
      w.lookupStream arrival.destination arrival.source = some c →
        (w.asks c fun s => s.tcb.closedBy arrival.segment) = false
  | .tick _ now => ∀ c ∈ w.queued id, (w.asks c fun s => s.tcb.expires now) = false
  | .turn => True

instance (id : Nat) (w : Stack) : DecidablePred (Spares id w) := fun event => by
  cases event <;> unfold Spares <;> infer_instance

def Fresh (id : Nat) (w : Stack) : Prop := ∀ s c t, w.socks[id]? = some s → c ∈ s.children →
  w.socks[c]? = some t → t.tcb.state ≠ .Closed

variable {w w' : Stack} {id : Nat}

lemma mem_queued {c : Nat} (hs : w.socks[id]? = some s) (hc : c ∈ s.children) :
    c ∈ w.queued id := by
  rw [queued, hs]
  exact hc

lemma Fresh.of_socks (h : Fresh id w) (e : w'.socks = w.socks) : Fresh id w' := by
  unfold Fresh
  rw [e]
  exact h

lemma Fresh.modify (h : Fresh id w) (hf : ∀ s, (f s).children ⊆ s.children)
    (hopen : ∀ t, a ∈ w.queued id → w.socks[a]? = some t → t.tcb.state ≠ .Closed → (f t).tcb.state ≠ .Closed) :
    Fresh id (w.modify a f) := by
  intro s' c t' hs' hc ht'
  obtain ⟨s, hs, hmem⟩ : ∃ s, w.socks[id]? = some s ∧ c ∈ s.children := by
    rcases modify_cases hs' with ⟨rfl, s, hs, rfl⟩ | ⟨-, hs⟩
    · exact ⟨s, hs, hf s hc⟩
    · exact ⟨s', hs, hc⟩
  rcases modify_cases ht' with ⟨rfl, t, ht, rfl⟩ | ⟨-, ht⟩
  · exact hopen t (mem_queued hs hmem) ht (h s c t hs hmem ht)
  · exact h s c t' hs hmem ht

lemma childOf_open (env : Env) (arrival : Arrival) (heldBytes : Nat) (iss : Seq) :
    (childOf env arrival heldBytes iss).tcb.state ≠ .Closed := by
  have hstate : ((((Tcb.new heldBytes).acceptOpen env arrival.segment iss).sendSynAck env)).state =
      .SynReceived :=
    congrArg RecvView.state ((Tcb.recv_sendSynAck env _).trans (Tcb.recv_timeSegment env _ _))
  exact fun hclosed => nomatch hstate.symm.trans hclosed

lemma Fresh.acceptConnection (h : Fresh id w) (env : Env) (listener : Nat) (arrival : Arrival)
    (heldBytes : Nat) (iss : Seq) :
    Fresh id (Stack.acceptConnection env w listener arrival heldBytes iss) := by
  unfold Stack.acceptConnection
  split
  case isFalse => exact h
  case isTrue =>
  intro s' c t' hs' hc ht'
  obtain ⟨t, ht, htcb⟩ : ∃ t, (w.push (childOf env arrival heldBytes iss)).socks[c]? = some t ∧
      t'.tcb = t.tcb := by
    rcases modify_cases ht' with ⟨rfl, t, ht, rfl⟩ | ⟨-, ht⟩
    · exact ⟨t, register_socks _ _ ▸ ht, rfl⟩
    · exact ⟨t', register_socks _ _ ▸ ht, rfl⟩
  obtain ⟨s, hs, hmem⟩ : ∃ s, (w.push (childOf env arrival heldBytes iss)).socks[id]? = some s ∧
      (c ∈ s.children ∨ c = w.socks.length) := by
    rcases modify_cases hs' with ⟨rfl, s, hs, rfl⟩ | ⟨-, hs⟩
    · exact ⟨s, register_socks _ _ ▸ hs, by simpa [Sock.setChildren] using hc⟩
    · exact ⟨s', register_socks _ _ ▸ hs, .inl hc⟩
  rw [htcb]
  rcases push_cases ht with ht | ⟨-, rfl⟩
  · have hlt := (List.getElem?_eq_some_iff.1 ht).1
    have hmem : c ∈ s.children := hmem.resolve_right (Nat.ne_of_lt hlt)
    rcases push_cases hs with hs | ⟨-, rfl⟩
    · exact h s c t hs hmem ht
    · exact nomatch hmem
  · exact childOf_open env arrival heldBytes iss

lemma Fresh.receive (h : Fresh id w) (env : Env) (arrival : Arrival) (heldBytes : Nat) (iss : Seq)
    (hs : Spares id w (.arrive env arrival heldBytes iss)) :
    Fresh id (receive env w arrival heldBytes iss) := by
  unfold Stack.receive
  split
  · exact h
  · split
    · rename_i a ha
      refine h.modify (fun _ => List.Subset.refl _) fun t hq hsock hstate => ?_
      have hspare := hs a hq ha
      rw [asks, hsock, any_some] at hspare
      exact Tcb.open_onSegment hstate hspare
    · split
      · split
        · exact h.acceptConnection env _ arrival heldBytes iss
        · exact h
      · exact h

lemma queued_modify (hf : ∀ s, (f s).children = s.children) :
    (w.modify a f).queued id = w.queued id := by
  unfold queued modify
  rw [getElem?_modify]
  cases w.socks[id]? with
  | none => rfl
  | some s =>
    have hchildren : (if a = id then f s else s).children = s.children := by
      split
      · exact hf s
      · rfl
    exact hchildren

lemma tickOne_socks (env : Env) (now : Nat) (w : Stack) (a : Nat) :
    (tickOne env now w a).socks = w.socks ∨ (tickOne env now w a).socks =
      (w.modify a fun s => s.setTcb (s.tcb.onTimer env now).1).socks := by
  unfold tickOne
  split
  · dsimp only
    split
    · exact .inr rfl
    · exact .inr rfl
  · exact .inl rfl

lemma Fresh.ticks (h : Fresh id w) (env : Env) (now : Nat) {ids : List Nat} (hnodup : ids.Nodup)
    (hs : ∀ c ∈ w.queued id, c ∈ ids → (w.asks c fun s => s.tcb.expires now) = false) :
    Fresh id (ids.foldl (tickOne env now) w) := by
  induction ids generalizing w with
  | nil => exact h
  | cons a ids ih =>
    obtain ⟨ha, hnodup⟩ := nodup_cons.1 hnodup
    have hrest : ∀ c ∈ w.queued id, c ∈ ids → (w.asks c fun s => s.tcb.expires now) = false :=
      fun c hc hmem => hs c hc (mem_cons_of_mem a hmem)
    rcases tickOne_socks env now w a with e | e
    · refine ih (h.of_socks e) hnodup fun c hc hmem => ?_
      unfold queued at hc
      unfold asks
      rw [e] at hc ⊢
      exact hrest c hc hmem
    · have hopen : Fresh id (w.modify a fun s => s.setTcb (s.tcb.onTimer env now).1) := by
        refine h.modify (fun _ => List.Subset.refl _) fun t hq ht hstate => ?_
        have hspare := hs a hq mem_cons_self
        rw [asks, ht, any_some] at hspare
        exact Tcb.open_onTimer hstate hspare
      refine ih (hopen.of_socks e) hnodup fun c hc hmem => ?_
      have hne : c ≠ a := fun he => ha (he ▸ hmem)
      have hq : c ∈ w.queued id := by
        rw [← queued_modify (w := w) (a := a) (f := fun s => s.setTcb (s.tcb.onTimer env now).1)
          fun _ => rfl]
        unfold queued at hc ⊢
        rw [e] at hc
        exact hc
      rw [← hrest c hq hmem, ← asks_modify_ne (w := w)
        (f := fun s => s.setTcb (s.tcb.onTimer env now).1) hne]
      unfold asks
      rw [e]

lemma foldl_unregister_socks (ids : List Nat) (w : Stack) :
    (ids.foldl unregister w).socks = w.socks := by
  induction ids generalizing w with
  | nil => rfl
  | cons a ids ih => exact ih (w.unregister a)

lemma fresh_acceptReady {answer : Option Nat} (h : w.acceptReady id = (w', .ok answer)) :
    Fresh id w' := by
  unfold acceptReady at h
  split at h
  · cases h
  · split at h
    · obtain ⟨rfl, -⟩ := Prod.mk.inj h
      refine Fresh.of_socks ?_ (foldl_unregister_socks _ _)
      intro s' c t' hs' hc ht'
      obtain ⟨t, ht, htcb⟩ : ∃ t, w.socks[c]? = some t ∧ t'.tcb = t.tcb := by
        rcases modify_cases ht' with ⟨rfl, t, ht, rfl⟩ | ⟨-, ht⟩
        · exact ⟨t, ht, rfl⟩
        · exact ⟨t', ht, rfl⟩
      rcases modify_cases hs' with ⟨-, s, hs, rfl⟩ | ⟨hne, -⟩
      · obtain ⟨hmem, hkept⟩ := mem_filter.1 hc
        rw [Bool.and_eq_true, Bool.not_eq_true'] at hkept
        intro hclosed
        have hdead : c ∈ w.deadChildren id := by
          refine mem_filter.2 ⟨mem_queued hs hmem, ?_⟩
          rw [childState, ht, map_some, ← htcb, hclosed]
          rfl
        rw [contains_iff_mem.2 hdead] at hkept
        cases hkept.1
      · exact absurd rfl hne
    · cases h

lemma Fresh.acceptReady (h : Fresh id w) : Fresh id (w.acceptReady id).1 := by
  cases hr : (w.acceptReady id).2 with
  | ok answer => exact fresh_acceptReady (Prod.ext rfl hr)
  | error e =>
    unfold Stack.acceptReady at hr ⊢
    split
    · exact h
    · split
      · rw [if_neg ‹_›, if_pos ‹_›] at hr
        cases hr
      · exact h

/-! ## no socket is in the table twice -/

def Tidy (w : Stack) : Prop := w.table.Nodup

namespace Tidy

lemma empty : Tidy .empty := nodup_nil
lemma register (h : Tidy w) (a : Nat) : Tidy (w.register a) := by
  unfold Stack.register
  split
  · exact h
  · rename_i ha
    exact nodup_append.2 ⟨h, nodup_singleton a, fun b hb c hc he =>
      ha (mem_singleton.1 hc ▸ he ▸ hb)⟩

lemma unregister (h : Tidy w) (a : Nat) : Tidy (w.unregister a) := List.Nodup.filter _ h

lemma foldl {f : Stack → Nat → Stack} (hf : ∀ w a, Tidy w → Tidy (f w a)) (ids : List Nat)
    (h : Tidy w) : Tidy (ids.foldl f w) := by
  induction ids generalizing w with
  | nil => exact h
  | cons a ids ih => exact ih (hf w a h)

section
variable (h : Tidy w)
include h

lemma bind (a : Nat) (requested : Endpoint) : Tidy (w.bind a requested).1 := by
  unfold Stack.bind
  split
  · exact h
  · simp only
    split
    · exact h
    · split
      · refine register ?_ a
        exact h
      · exact h

lemma bindEphemeral (a : Nat) : Tidy (w.bindEphemeral a).1 := by
  unfold Stack.bindEphemeral
  split
  · exact h
  · exact h.bind a .unspecified

lemma listen (a backlog : Nat) : Tidy (w.listen a backlog).1 := by
  have hb := h.bindEphemeral a
  unfold Stack.listen
  split
  · exact h
  · split
    · rename_i he
      exact he ▸ hb
    · rename_i he
      rw [he] at hb
      split
      · exact hb
      · exact hb

section
variable (env : Env) (a : Nat)

lemma openFrom (source : Addr) (remote : Endpoint) (heldBytes : Nat) (iss : Seq) :
    Tidy (openFrom env w a source remote heldBytes iss).1 := by
  unfold Stack.openFrom
  split <;> exact h

lemma connect (remote : Endpoint) (heldBytes : Nat) (iss : Seq) :
    Tidy (connect env w a remote heldBytes iss).1 := by
  have hb := h.bindEphemeral a
  unfold Stack.connect
  split
  · exact h
  · split
    · unfold connectStream
      split
      · exact h
      · split
        · exact h
        · split
          · rename_i he
            exact he ▸ hb
          · rename_i he
            rw [he] at hb
            exact openFrom hb env a _ remote heldBytes iss
    · split
      · rename_i he
        exact he ▸ hb
      · rename_i he
        rw [he] at hb
        exact hb

lemma acceptReady : Tidy (w.acceptReady a).1 := by
  unfold Stack.acceptReady
  split
  · exact h
  · split
    · exact foldl (fun _ _ hv => hv.unregister _) _ h
    · exact h

lemma close (heldBytes : Nat) : Tidy (close env w a heldBytes) := by
  unfold Stack.close
  split
  · exact unregister (w := w.modify a Sock.detach) h a
  · have hreset : ∀ (v : Stack) (c : Nat), Tidy v → Tidy (resetChild env v c) := fun v c hv =>
      unregister (w := v.modify c _) hv c
    have hchildren := foldl hreset (((w.socks[a]?).map Sock.children).getD [])
      (w := w.modify a fun s => (s.detach.setTcb (closeTcb env (s.meeting heldBytes))).setChildren []) h
    dsimp only
    split
    · exact hchildren.unregister a
    · exact hchildren

lemma receive (arrival : Arrival) (heldBytes : Nat) (iss : Seq) :
    Tidy (receive env w arrival heldBytes iss) := by
  unfold Stack.receive
  split
  · exact h
  · split
    · exact h
    · split
      · split
        · unfold acceptConnection
          split
          · exact register (w := w.push _) h _
          · exact h
        · exact h
      · exact h

lemma onTick (now : Nat) : Tidy (onTick env w now) := by
  refine foldl (fun v a hv => ?_) _ h
  unfold tickOne
  split
  · dsimp only
    split
    · exact unregister (w := v.modify a _) hv a
    · exact hv
  · exact hv

end

lemma step (a : Action) : Tidy (w.step a) := by
  cases a with
  | bind id requested => exact h.bind id requested
  | listen id backlog => exact h.listen id backlog
  | connect env id remote heldBytes iss => exact h.connect env id remote heldBytes iss
  | accept id => exact h.acceptReady id
  | close env id heldBytes => exact h.close env id heldBytes
  | arrive env arrival heldBytes iss => exact h.receive env arrival heldBytes iss
  | tick env now => exact h.onTick env now
  | socket | write | read | shutdown | configure => exact h

lemma blocked (event : Event) : Tidy (w.blocked id event) := by
  cases event with
  | arrive env arrival heldBytes iss => exact h.receive env arrival heldBytes iss
  | tick env now => exact h.onTick env now
  | turn => exact h.acceptReady id

end
end Tidy

/-! ## the requests that are dropped -/

lemma Fresh.blocked (h : Fresh id w) (ht : Tidy w) {event : Event} (hs : Spares id w event) :
    Fresh id (w.blocked id event) := by
  cases event with
  | arrive env arrival heldBytes iss => exact h.receive env arrival heldBytes iss hs
  | tick env now => exact h.ticks env now ht fun c hc _ => hs c hc
  | turn => exact h.acceptReady

lemma Fresh.full (h : Fresh id w) (hroom : w.asks id hasRoom = false) (hs : w.socks[id]? = some s) :
    s.backlog ≤ (s.children.filter fun c => w.childState c != some .Closed).length := by
  rw [asks, hs, any_some, hasRoom, decide_eq_false_iff_not, not_lt] at hroom
  rw [filter_eq_self.2]
  · exact hroom
  · intro c hc
    rw [bne_iff_ne, childState]
    intro hclosed
    obtain ⟨t, ht, hstate⟩ := map_eq_some_iff.1 hclosed
    exact h s c t hs hc ht hstate

/-- a request from a new endpoint that finds no room at the listener `id` -/
def dropsFor (id : Nat) (w : Stack) (arrival : Arrival) : Bool :=
  w.forUs arrival.destination.address &&
    (w.lookupStream arrival.destination arrival.source).isNone && isRequest arrival.segment &&
    w.lookupListener arrival.destination == some id && !w.asks id hasRoom

lemma lookupListener_some {endpoint : Endpoint} (h : w.lookupListener endpoint = some id) :
    ∃ s, w.socks[id]? = some s := by
  have hasked : ∀ {test : Sock → Bool}, w.asks id test = true → ∃ s, w.socks[id]? = some s :=
    fun h => (asks_iff.1 h).imp fun _ h => h.1
  rcases or_eq_some_iff.1 h with hf | ⟨-, hf⟩
  · have hid := find?_some hf
    exact hasked hid
  · have hid := find?_some hf
    exact hasked hid

/-- **a listener whose server sleeps** drops a request for lack of backlog only when that many
queued connections are not closed, as long as nothing ends one that is queued -/
theorem listener_reachable (actions : List Action) (id : Nat) (w : Stack)
    (hw : (Run.run Stack.step .empty actions).acceptReady id = (w, .ok none)) (events : List Event)
    (hs : Run.Allowed (blocked id) (Spares id) w events) (arrival : Arrival)
    (hdrop : (Run.run (blocked id) w events).dropsFor id arrival = true) :
    ∃ s, (Run.run (blocked id) w events).socks[id]? = some s ∧ s.backlog ≤
      (s.children.filter fun c =>
        (Run.run (blocked id) w events).childState c != some .Closed).length := by
  have htidy : Tidy w := by
    have hrun := (Run.keeps (I := Tidy) (fun _ a h => h.step a) .empty actions).acceptReady id
    rw [hw] at hrun
    exact hrun
  have hinv := hs.keeps (I := fun v => Fresh id v ∧ Tidy v)
    (fun v event hv hspare => ⟨hv.1.blocked hv.2 hspare, hv.2.blocked event⟩)
    ⟨fresh_acceptReady hw, htidy⟩
  simp only [dropsFor, Bool.and_eq_true, beq_iff_eq, Bool.not_eq_true'] at hdrop
  obtain ⟨s, hsock⟩ := lookupListener_some hdrop.1.2
  exact ⟨s, hsock, hinv.1.full hdrop.2 hsock⟩

/-! ## a backlog of one -/

/-- a listener on port 80 of the loopback address with room for one connection -/
def server : List Action := [.socket true 0, .bind 0 ⟨0x7F000001, 80⟩, .listen 0 1]

/-- a connection request from `port` -/
def requestFrom (port : BitVec 16) : Arrival :=
  ⟨⟨0x7F000001, port⟩, ⟨0x7F000001, 80⟩, ⟨1000, 0, SYN, 1460, none, []⟩⟩

def resetFrom (port : BitVec 16) : Arrival :=
  ⟨⟨0x7F000001, port⟩, ⟨0x7F000001, 80⟩, ⟨1001, 0, RST, 0, none, []⟩⟩

def moment : Env := ⟨1, 0, true⟩
def asleep : Stack := ((Run.run Stack.step .empty server).acceptReady 0).1

/-- a request is dropped while one connection fills the backlog -/
theorem listener_reachable_full :
    let v := Run.run (blocked 0) asleep [.arrive moment (requestFrom 5000) 0 100]
    v.dropsFor 0 (requestFrom 5001) = true ∧ ∃ s, v.socks[0]? = some s ∧
      s.backlog ≤ (s.children.filter fun c => v.childState c != some .Closed).length :=
  ⟨by decide +kernel, listener_reachable server 0 asleep (by rfl)
    [.arrive moment (requestFrom 5000) 0 100] (by decide +kernel) (requestFrom 5001)
    (by decide +kernel)⟩

/-- the one connection is reset before its handshake ends, and the next request is dropped -/
theorem listener_unreachable : ∃ (actions : List Action) (id : Nat) (w : Stack),
    (Run.run Stack.step .empty actions).acceptReady id = (w, .ok none) ∧
    ∃ (events : List Event) (arrival : Arrival),
      (Run.run (blocked id) w events).dropsFor id arrival = true ∧
      ¬∃ s, (Run.run (blocked id) w events).socks[id]? = some s ∧ s.backlog ≤
        (s.children.filter fun c =>
          (Run.run (blocked id) w events).childState c != some .Closed).length := by
  refine ⟨server, 0, asleep, by rfl,
    [.arrive moment (requestFrom 5000) 0 100, .arrive moment (resetFrom 5000) 0 100],
    requestFrom 5001, by decide +kernel, ?_⟩
  rintro ⟨s, hs, hlen⟩
  cases hs
  exact absurd hlen (by decide +kernel)

end Stack
end ClaudeOs.Net
