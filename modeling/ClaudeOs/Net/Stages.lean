import ClaudeOs.Net.Session

/-!
# The calls, cut where they send

A call does a few things to the send side: it moves the state, drops what is acknowledged, answers
the congestion with the head of the queue, and calls `output`, whose loop sends chunk after chunk.
Every call is one of eight effects, and a property of the send side is followed over those and over
the turns of the loop.  A data segment leaves through `output`, through the probe of a closed window,
or with the head of the queue.

* `Outputs`  the turns of the loop;
* `Moves`, `Ends`  the state may have moved; the connection has closed;
* `Retunes`, `Resent`  the congestion state is set; and the head of the queue may be sent again;
* `heard_rule`  what those keep, an acknowledgement keeps;
* `Effect`, `Session.effect`  what a call does to the send side.
-/

namespace ClaudeOs.Net
open SendView List

/-! ## the turns of `output` -/

variable {t t' t'' w : Tcb} {env : Env} {s : Segment}

/-- how far past `send_unacknowledged` the next byte to send is -/
def Tcb.offset (t : Tcb) : Nat := (t.sendNext - t.sendUnacknowledged).toNat

/-- chunks sent one after the other, each short of the limit, and a FIN behind the last of them -/
inductive Outputs (env : Env) (limit : Seq) : Tcb → Tcb → Prop
  | done (t : Tcb) : Outputs env limit t t
  | chunk {t t' : Tcb} {n : Nat} (hn : 0 < n) (hleft : t.offset + n ≤ t.pending.length)
      (hlt : seqLt t.sendNext limit = true) (hroom : n ≤ (limit - t.sendNext).toNat)
      (rest : Outputs env limit (t.sendChunk env t.offset n) t') : Outputs env limit t t'
  | fin {t : Tcb} (hall : t.pending.length ≤ t.offset) (hq : t.finQueued = true)
      (hnone : t.finSequence = none) : Outputs env limit t (t.sendFin env)

section
variable (env : Env)

lemma outputLoop_turns (limit : Seq) (fuel : Nat) (t : Tcb) :
    Outputs env limit t (Tcb.outputLoop env limit fuel t) := by
  induction fuel generalizing t with
  | zero => exact .done t
  | succ fuel ih =>
    unfold Tcb.outputLoop
    simp only
    split
    · rename_i hleft
      split
      · exact .done t
      · rename_i hlt
        split
        · exact .done t
        · have hoff : t.offset = (t.sendNext - t.sendUnacknowledged).toNat := rfl
          exact .chunk (by omega) (by omega) (by simpa using hlt) (Nat.min_le_right _ _) (ih _)
    · rename_i hleft
      split
      · rename_i hfin
        simp only [Bool.and_eq_true, Option.isNone_iff_eq_none] at hfin
        exact .fin (Nat.le_of_sub_eq_zero (Nat.eq_zero_of_not_pos hleft)) hfin.1 hfin.2
      · exact .done t

def Tcb.limit (t : Tcb) : Seq :=
  t.sendUnacknowledged + BitVec.ofNat 32 (min t.sendWindow t.congestionWindow)

lemma output_turns (t : Tcb) :
    (t.state.canOutput = false ∧ t.output env = t) ∨
    (t.state.canOutput = true ∧ Outputs env t.limit t (t.output env)) := by
  unfold Tcb.output
  cases t.state.canOutput with
  | false => exact .inl ⟨rfl, rfl⟩
  | true => exact .inr ⟨rfl, outputLoop_turns env _ _ t⟩

lemma output_idle (h : t.state.canOutput = false) (env : Env) : t.output env = t := by
  rcases output_turns env t with ⟨-, e⟩ | ⟨hc, -⟩
  · exact e
  · rw [h] at hc
    cases hc

/-! ## segments with nothing in them -/

/-- the wire has grown by segments with neither data nor a FIN -/
def Adds (t t' : Tcb) : Prop :=
  ∃ new, t'.wire = t.wire ++ new ∧ ∀ s ∈ new, s.payload = [] ∧ s.has FIN = false

lemma Adds.of_eq (e : t'.wire = t.wire) : Adds t t' := ⟨[], by rw [e, append_nil], nofun⟩
lemma Adds.trans (h : Adds t t') (h' : Adds t' t'') : Adds t t'' := by
  obtain ⟨new, e, hn⟩ := h
  obtain ⟨new', e', hn'⟩ := h'
  refine ⟨new ++ new', by rw [e', e, append_assoc], fun s hs => ?_⟩
  rcases mem_append.1 hs with hs | hs
  · exact hn s hs
  · exact hn' s hs

lemma Adds.sendSegment (t : Tcb) {f : Flags} (hf : f &&& FIN = 0) (s : Seq) (m : Bool) :
    Adds t (t.sendSegment env f s [] m) := by
  unfold Tcb.sendSegment
  split
  · refine ⟨[t.segmentOf f s [] m], rfl, fun x hx => ?_⟩
    obtain rfl := mem_singleton.1 hx
    exact ⟨rfl, by simp [Segment.has, Tcb.segmentOf, hf]⟩
  · exact Adds.of_eq rfl

lemma Adds.acknowledge (t : Tcb) : Adds t (t.acknowledge env) :=
  Adds.sendSegment env t (by decide) _ _

lemma Adds.sendSynAck (t : Tcb) : Adds t (t.sendSynAck env) := by
  refine (Adds.sendSegment env t (f := SYN ||| ACK) (by decide) t.iss true).trans (Adds.of_eq ?_)
  unfold Tcb.sendSynAck Tcb.armRetransmit
  split <;> rfl

/-! ## the state moves -/

def State.unshut : State → Bool
  | .SynSent | .SynReceived | .Established | .CloseWait => true
  | _ => false

/-- only the state has moved: the timer is as it was where something may be sent, and FIN-WAIT-2 has
its FIN acknowledged -/
structure Moves (t t' : Tcb) : Prop where
  send : t'.send = { t.send with state := t'.state, pending := t'.pending }
  pace : t'.pace = t.pace
  wire : Adds t t'
  queue : t'.pending = t.pending ∨
    (t'.pending = [] ∧ (t.finAcknowledged = true ∨ t.state = .FinWait2))
  kept : t'.state.canOutput = true →
    t.state.canOutput = true ∧ t'.pending = t.pending ∧ t'.retransmitAt = t.retransmitAt
  unshut : t'.state.unshut = true → t.state.unshut = true
  opening : t'.state = .SynSent ∨ t'.state = .SynReceived →
    t'.state = t.state ∧ t'.pending = t.pending
  waiting : t'.state = .FinWait2 → t.state = .FinWait2 ∨ t.finAcknowledged = true
  idle : t.state = .Closed ∨ t.state = .Listen → t'.state = .Closed ∨ t'.state = t.state

namespace Moves

lemma closed (h : Moves t t') (hc : t.state = .Closed) : t'.state = .Closed :=
  (h.idle (.inl hc)).elim id fun e => e.trans hc

lemma finAcknowledged (h : Moves t t') : t'.finAcknowledged = t.finAcknowledged :=
  congrArg SendView.finAcknowledged h.send

lemma short (h : Moves t t') : t'.pending = t.pending ∨ t'.pending = [] :=
  h.queue.imp_right And.left

lemma trans (h : Moves t t') (h' : Moves t' t'') : Moves t t'' where
  send := by
    rw [h'.send, h.send]
  pace := h'.pace.trans h.pace
  wire := h.wire.trans h'.wire
  queue := by
    rcases h'.queue with e | ⟨e, hdone⟩
    · rw [e]
      exact h.queue
    · refine .inr ⟨e, ?_⟩
      rcases hdone with hack | hwait
      · exact .inl (h.finAcknowledged ▸ hack)
      · exact (h.waiting hwait).symm
  kept hc := by
    obtain ⟨hc', e1, e2⟩ := h'.kept hc
    obtain ⟨hc'', e3, e4⟩ := h.kept hc'
    exact ⟨hc'', e1.trans e3, e2.trans e4⟩
  unshut hu := h.unshut (h'.unshut hu)
  opening ho := by
    obtain ⟨e1, e2⟩ := h'.opening ho
    obtain ⟨e3, e4⟩ := h.opening (e1 ▸ ho)
    exact ⟨e1.trans e3, e2.trans e4⟩
  waiting hw := by
    rcases h'.waiting hw with hwait | hack
    · exact h.waiting hwait
    · exact .inr (h.finAcknowledged ▸ hack)
  idle hi := by
    rcases h.idle hi with e | e
    · exact .inl (h'.closed e)
    · exact (h'.idle (e ▸ hi)).imp_right fun e' => e'.trans e

lemma of_send (hs : t'.send = t.send) (hp : t'.pace = t.pace)
    (hr : t.state.canOutput = true → t'.retransmitAt = t.retransmitAt) (hw : Adds t t') :
    Moves t t' := by
  have hstate : t'.state = t.state := congrArg state hs
  have hpending : t'.pending = t.pending := congrArg pending hs
  refine ⟨?_, hp, hw, .inl hpending, fun hc => ⟨hstate ▸ hc, hpending, hr (hstate ▸ hc)⟩,
    fun hu => hstate ▸ hu, fun _ => ⟨hstate, hpending⟩, fun hwait => .inl (hstate ▸ hwait),
    fun _ => .inr hstate⟩
  rw [hs, hstate, hpending]
  rfl

lemma of_out (hs : t'.send = t.send) (ho : t'.out = t.out) : Moves t t' :=
  of_send hs (congrArg OutView.pace ho) (fun _ => congrArg OutView.retransmitAt ho)
    (Adds.of_eq (congrArg OutView.wire ho))

lemma refl (t : Tcb) : Moves t t := of_out rfl rfl

lemma sendSegment (t : Tcb) {f : Flags} (hf : f &&& FIN = 0) (s : Seq) (m : Bool) :
    Moves t (t.sendSegment env f s [] m) := by
  refine of_send (Tcb.send_sendSegment_nil env t _ _ _) (Tcb.pace_sendSegment env t _ _ _ _)
    (fun _ => ?_) (Adds.sendSegment env t hf _ _)
  unfold Tcb.sendSegment
  split <;> rfl

lemma acknowledge (t : Tcb) : Moves t (t.acknowledge env) := sendSegment env t (by decide) _ _

lemma sendReset (t : Tcb) (a : Seq) : Moves t (t.sendSegment env RST a [] false) :=
  sendSegment env t (by decide) _ _

lemma past (hs : t'.send = { t.send with state := t'.state, pending := t'.pending })
    (hp : t'.pace = t.pace) (hw : t'.wire = t.wire)
    (hq : t'.pending = t.pending ∨ (t'.pending = [] ∧ (t.finAcknowledged = true ∨ t.state = .FinWait2)))
    (hstate : t'.state = .FinWait2 ∧ t.finAcknowledged = true ∨ t'.state = .TimeWait ∨
      t'.state = .Closed) (hi : t'.state = .Closed ∨ ¬(t.state = .Closed ∨ t.state = .Listen)) :
    Moves t t' where
  send := hs
  pace := hp
  wire := Adds.of_eq hw
  queue := hq
  kept h := by rcases hstate with ⟨e, -⟩ | e | e <;> rw [e] at h <;> cases h
  unshut h := by rcases hstate with ⟨e, -⟩ | e | e <;> rw [e] at h <;> cases h
  opening h := by rcases hstate with ⟨e, -⟩ | e | e <;> rw [e] at h <;> simp at h
  waiting h := by
    rcases hstate with ⟨-, hack⟩ | e | e
    · exact .inr hack
    · rw [e] at h
      cases h
    · rw [e] at h
      cases h
  idle h := .inl (hi.resolve_right fun hn => hn h)

lemma enterTimeWait (h : t.state = .FinWait2 ∨ t.finAcknowledged = true)
    (hi : ¬(t.state = .Closed ∨ t.state = .Listen)) : Moves t (t.enterTimeWait env) :=
  past (send_enterTimeWait env t) rfl rfl (.inr ⟨rfl, h.symm⟩) (.inr (.inl rfl)) (.inr hi)

lemma onFinAcknowledged (t : Tcb) : Moves t (t.onFinAcknowledged env).1 := by
  unfold Tcb.onFinAcknowledged
  split
  · rename_i hack
    split
    · rename_i hs
      exact past rfl rfl rfl (.inl rfl) (.inl ⟨rfl, hack⟩) (.inr (by simp [hs]))
    · rename_i hs
      exact enterTimeWait env (.inr hack) (by simp [hs])
    · exact past rfl rfl rfl (.inl rfl) (.inr (.inr rfl)) (.inl rfl)
    · exact refl t
  · exact refl t

lemma takeFin (t : Tcb) : Moves t (t.takeFin env).1 := by
  unfold Tcb.takeFin
  split
  · exact of_out (Tcb.send_clearHeldFin t) (Tcb.out_clearHeldFin t)
  · simp only
    have hnote : Moves t { t.clearHeldFin with finReceived := true, receiveNext := t.receiveNext + 1 } :=
      of_out rfl rfl
    split
    · rename_i hs
      have hs : t.state = .Established := hs
      exact ⟨rfl, rfl, Adds.of_eq rfl, .inl rfl, fun _ => ⟨by rw [hs]; rfl, rfl, rfl⟩,
        fun _ => by rw [hs]; rfl, (fun h => by simp at h), nofun, (fun h => by simp [hs] at h)⟩
    · rename_i hs
      have hs : t.state = .FinWait1 := hs
      exact ⟨rfl, rfl, Adds.of_eq rfl, .inl rfl, fun _ => ⟨by rw [hs]; rfl, rfl, rfl⟩, nofun,
        (fun h => by simp at h), nofun, (fun h => by simp [hs] at h)⟩
    · rename_i hs
      have hs : t.state = .FinWait2 := hs
      exact hnote.trans (enterTimeWait env (.inl hs) (by simp [Tcb.clearHeldFin, hs]))
    · exact hnote

lemma takeHeldFin (t : Tcb) : Moves t (t.takeHeldFin env).1 := by
  unfold Tcb.takeHeldFin
  split
  · exact takeFin env t
  · exact refl t

lemma answer (t : Tcb) (s : Segment) (w : Seq) : Moves t (t.answer env s w) := by
  unfold Tcb.answer
  split
  · exact (of_out (Tcb.send_openWindow t _) (Tcb.out_openWindow t _)).trans (acknowledge env _)
  · exact refl t

end Moves

/-! ## the end of a connection -/

structure Ends (t t' : Tcb) : Prop where
  closed : t'.state = .Closed
  send : t'.send = { t.send with
    state := .Closed, pending := t'.pending, finQueued := t'.finQueued }
  short : t'.pending = t.pending ∨ t'.pending = []
  pace : t'.pace = t.pace
  wire : Adds t t'

lemma Ends.close (t : Tcb) : Ends t t.close := ⟨rfl, send_close t, .inr rfl, rfl, Adds.of_eq rfl⟩

lemma Ends.after (hm : Moves t t') (h : Ends t' t'') : Ends t t'' where
  closed := h.closed
  send := by rw [h.send, hm.send]
  short := by
    rcases h.short with e | e
    · exact e ▸ hm.short
    · exact .inr e
  pace := h.pace.trans hm.pace
  wire := hm.wire.trans h.wire

lemma Ends.abort (t : Tcb) : Ends t (t.abort env) := by
  have hclose : ∀ w : Tcb, Ends w w.close.unqueueFin := fun w => by
    refine ⟨rfl, ?_, .inr rfl, rfl, Adds.of_eq rfl⟩
    rw [show w.close.unqueueFin.send = { w.close.send with finQueued := false } from by rfl, send_close]
    rfl
  unfold Tcb.abort
  simp only
  split
  · exact (hclose _).after (Moves.sendSegment env t (by decide) _ _)
  · exact hclose t

end

/-! ## the congestion state -/

/-- the timeout, the windows and the segment size are what they can be -/
structure Paced (p : PaceView) : Prop where
  rto : 0 < p.rto
  window : 0 < p.congestionWindow
  threshold : 0 < p.slowStartThreshold
  mss : 0 < p.peerMss
  offered : p.sendWindow < 2 ^ 16

/-- what is known of the window the other end offers stays, and the pace stays what it can be -/
structure Tunes (p p' : PaceView) : Prop where
  window : p'.sendWindow = p.sendWindow
  sequence : p'.windowSequence = p.windowSequence
  ack : p'.windowAck = p.windowAck
  paced : Paced p → Paced p'

lemma Tunes.trans {p p' p'' : PaceView} (h : Tunes p p') (h' : Tunes p' p'') : Tunes p p'' :=
  ⟨h'.window.trans h.window, h'.sequence.trans h.sequence, h'.ack.trans h.ack,
    fun hp => h'.paced (h.paced hp)⟩

/-- nothing but the congestion state and the counters has changed -/
structure Retunes (t t' : Tcb) : Prop where
  send : t'.send = t.send
  tunes : Tunes t.pace t'.pace
  timer : t'.retransmitAt = t.retransmitAt
  wire : t'.wire = t.wire

/-- the congestion state is set, and the head of the queue may be sent again -/
inductive Resent (env : Env) (t t' : Tcb) : Prop
  | tuned (h : Retunes t t') : Resent env t t'
  | head {w : Tcb} (h : Retunes t w) (h' : Retunes (w.retransmitHead env) t') : Resent env t t'

lemma saturatingAdd_pos {a b : Nat} (h : 0 < b) : 0 < saturatingAdd a b := by
  unfold saturatingAdd
  omega

lemma halfFlight_pos (t : Tcb) : 0 < t.halfFlight := by
  unfold Tcb.halfFlight
  simp only [MSS]
  omega

lemma Retunes.refl (t : Tcb) : Retunes t t := ⟨rfl, ⟨rfl, rfl, rfl, id⟩, rfl, rfl⟩

lemma Retunes.setCongestion {m n : Nat} (h : Retunes t t')
    (hpos : Paced t.pace → 0 < m ∧ 0 < n) : Retunes t (t'.setCongestion m n) :=
  ⟨h.send, ⟨h.tunes.window, h.tunes.sequence, h.tunes.ack, fun hp =>
    have hp' := h.tunes.paced hp
    ⟨hp'.rto, (hpos hp).2, (hpos hp).1, hp'.mss, hp'.offered⟩⟩, h.timer, h.wire⟩

lemma Retunes.counts (t : Tcb) (n k : Nat) (r : Option Seq) :
    Retunes t { t with duplicateAcks := n, recover := r, fastRetransmits := k } :=
  ⟨rfl, ⟨rfl, rfl, rfl, fun h => { h with }⟩, rfl, rfl⟩

def Tcb.dropped (env : Env) (t : Tcb) (acknowledgement : Seq) : Tcb :=
  (((t.dropAcked acknowledgement).takeSample env acknowledgement).catchUp).restartAfterAck env

lemma takeCongestion_resent (env : Env) (t : Tcb) (a : Seq) (n : Nat) :
    Resent env t (t.takeCongestion env a n) := by
  have hmss : 0 < MSS := by decide
  unfold Tcb.takeCongestion
  simp only
  cases hr : t.recover with
  | some r =>
    simp only
    by_cases hlt : seqLt a r = true
    · rw [if_pos hlt, ← hr]
      have hpos : 0 < max (saturatingAdd (t.congestionWindow - n) MSS) MSS :=
        Nat.lt_of_lt_of_le hmss (Nat.le_max_right _ _)
      generalize max (saturatingAdd (t.congestionWindow - n) MSS) MSS = m at hpos
      have hset := (Retunes.counts t t.duplicateAcks (t.fastRetransmits + 1) t.recover).setCongestion
        (m := t.slowStartThreshold) fun hp => ⟨hp.threshold, hpos⟩
      have hhead := Resent.head hset (Retunes.refl (Tcb.retransmitHead env _))
      exact hhead
    · rw [if_neg hlt]
      exact .tuned ((Retunes.counts t t.duplicateAcks t.fastRetransmits none).setCongestion fun hp =>
        ⟨hp.threshold, hp.threshold⟩)
  | none =>
    simp only
    split
    · exact .tuned ((Retunes.refl t).setCongestion fun hp => ⟨hp.threshold, saturatingAdd_pos hmss⟩)
    · exact .tuned ((Retunes.refl t).setCongestion fun hp => ⟨hp.threshold,
        saturatingAdd_pos (Nat.lt_of_lt_of_le Nat.one_pos (Nat.le_max_right _ _))⟩)

lemma onDuplicate_resent (env : Env) (t : Tcb) : Resent env t (t.onDuplicate env) := by
  have hcounts := Retunes.counts t (t.duplicateAcks + 1)
  unfold Tcb.onDuplicate
  simp only
  split
  · unfold Tcb.enterRecovery
    exact .head (w := { t with
        duplicateAcks := t.duplicateAcks + 1
        recover := some t.sendHigh
        fastRetransmits := t.fastRetransmits + 1 }) (hcounts _ _)
      ((Retunes.refl _).setCongestion fun _ =>
        ⟨halfFlight_pos _, saturatingAdd_pos (b := DUPLICATE_ACK_THRESHOLD * MSS) (by decide)⟩)
  · split
    · exact .tuned ((hcounts t.fastRetransmits t.recover).setCongestion fun hp =>
        ⟨hp.threshold, saturatingAdd_pos (by decide)⟩)
    · exact .tuned (hcounts t.fastRetransmits t.recover)

lemma send_retransmitHead (env : Env) (t : Tcb) :
    ∃ new, (t.retransmitHead env).send = { t.send with data := t.send.data ++ new } ∧
      ∀ x ∈ new, t.pending ≠ [] ∧ x.sequence = t.sendUnacknowledged ∧
        x.payload = t.pending.take (min t.pending.length t.effectiveMss) := by
  have restart : ∀ w : Tcb, (w.restartTimer env).send = w.send := fun w => by rfl
  have hnone : ∃ new, t.send = { t.send with data := t.send.data ++ new } ∧
      ∀ x ∈ new, t.pending ≠ [] ∧ x.sequence = t.sendUnacknowledged ∧
        x.payload = t.pending.take (min t.pending.length t.effectiveMss) :=
    ⟨[], by rw [append_nil], nofun⟩
  unfold Tcb.retransmitHead
  simp only
  split
  · split
    · split
      · rw [restart, Tcb.send_sendSegment_nil]
        exact hnone
      · exact hnone
    · exact hnone
  · rename_i hn
    have hne : t.pending ≠ [] := by
      intro e
      simp [e] at hn
    obtain ⟨new, hview, hnew⟩ := send_sendSegment env t
      (ACK ||| if min t.pending.length t.effectiveMss == t.pending.length then PSH else 0)
      t.sendUnacknowledged (t.pending.take (min t.pending.length t.effectiveMss)) false
    rw [restart, hview]
    exact ⟨new, rfl, fun x hx => ⟨hne, hnew x hx⟩⟩

lemma Resent.send (h : Resent env t t') : ∃ data, t'.send = { t.send with data := data } := by
  cases h with
  | tuned h => exact ⟨_, h.send⟩
  | head h h' =>
    obtain ⟨new, e, -⟩ := send_retransmitHead env _
    exact ⟨_, by rw [h'.send, e, h.send]⟩

lemma Resent.tunes (h : Resent env t t') : Tunes t.pace t'.pace := by
  cases h with
  | tuned h => exact h.tunes
  | head h h' =>
    have hpace := h'.tunes
    rw [Tcb.pace_retransmitHead] at hpace
    exact h.tunes.trans hpace

lemma retransmitHead_timer (env : Env) (h : Paced t.pace) :
    (t.retransmitHead env).retransmitAt = t.retransmitAt ∨ (t.retransmitHead env).retransmitAt ≠ 0 := by
  have hrestart : ∀ f s p m, ((t.sendSegment env f s p m).restartTimer env).retransmitAt ≠ 0 := by
    intro f s p m
    have hrto : (t.sendSegment env f s p m).rto = t.rto :=
      congrArg PaceView.rto (Tcb.pace_sendSegment env t f s p m)
    exact Nat.ne_of_gt (Nat.add_pos_right _ (Nat.lt_of_lt_of_eq h.rto hrto.symm))
  unfold Tcb.retransmitHead
  simp only
  split
  · split
    · split
      · exact .inr (hrestart _ _ _ _)
      · exact .inl rfl
    · exact .inl rfl
  · exact .inr (hrestart _ _ _ _)

lemma Resent.timer (h : Resent env t t') (hp : Paced t.pace) :
    t'.retransmitAt = t.retransmitAt ∨ t'.retransmitAt ≠ 0 := by
  cases h with
  | tuned h => exact .inl h.timer
  | head h h' =>
    rw [h'.timer, ← h.timer]
    exact retransmitHead_timer env (h.tunes.paced hp)

/-! ## an acknowledgement -/

/-- what an acknowledgement leaves of the send side, before the congestion response -/
def Tcb.ackedView (t : Tcb) (a : Seq) : SendView where
  state := t.state
  iss := t.iss
  sendUnacknowledged := a
  sendNext := if seqLt t.sendNext a then a else t.sendNext
  sendHigh := t.sendHigh
  pending := t.pending.drop (min (t.ackedBytes a) t.pending.length)
  finQueued := t.finQueued
  finSequence := t.finSequence
  finAcknowledged := t.finAcknowledged || t.finCovered a
  data := dataSegments t.wire

section
variable (env : Env) (t : Tcb) (a : Seq)

lemma send_dropped : (t.dropped env a).send = t.ackedView a := by
  have hr : ∀ w : Tcb, (w.restartAfterAck env).send = w.send := fun w => by rfl
  have hc : ∀ w : Tcb, w.catchUp.send = { w.send with
      sendNext := if seqLt w.send.sendNext w.send.sendUnacknowledged
        then w.send.sendUnacknowledged else w.send.sendNext } := by
    intro w
    have hnext : w.send.sendNext = w.sendNext := rfl
    have huna : w.send.sendUnacknowledged = w.sendUnacknowledged := rfl
    rw [hnext, huna]
    unfold Tcb.catchUp
    split <;> rfl
  rw [Tcb.dropped, hr, hc, Tcb.send_takeSample]
  rfl

lemma estimatedRto_pos : 0 < t.estimatedRto := by
  unfold Tcb.estimatedRto
  simp only [MIN_RTO, MAX_RTO]
  omega

/-- of the pace an acknowledgement changes the timeout and the count of duplicates -/
lemma pace_dropped : ∃ n, (t.dropped env a).pace = { t.pace with rto := n, duplicateAcks := 0 } ∧
      (0 < t.rto → 0 < n) := by
  have hr : ∀ w : Tcb, (w.catchUp.restartAfterAck env).pace = { w.pace with duplicateAcks := 0 } := by
    intro w
    unfold Tcb.catchUp
    split <;> rfl
  have hset : ∀ (w : Tcb) (n : Nat), (w.setRto n).pace = { w.pace with rto := n } := fun _ _ => by rfl
  have hsmooth : ∀ (w : Tcb) (n : Nat), (w.smooth n).pace = w.pace := by
    intro w n
    unfold Tcb.smooth
    split <;> rfl
  have hsample : ∃ n, ((t.dropAcked a).takeSample env a).pace = { t.pace with rto := n } ∧
      (0 < t.rto → 0 < n) := by
    unfold Tcb.takeSample
    split
    · split
      · exact ⟨_, by rw [Tcb.measure, hset, hsmooth]; rfl, fun _ => estimatedRto_pos _⟩
      · exact ⟨t.rto, rfl, id⟩
    · exact ⟨t.rto, rfl, id⟩
  obtain ⟨n, hn, hpos⟩ := hsample
  exact ⟨n, by rw [Tcb.dropped, hr, hn], hpos⟩

lemma tunes_dropped : Tunes t.pace (t.dropped env a).pace := by
  obtain ⟨n, e, hn⟩ := pace_dropped env t a
  rw [e]
  exact ⟨rfl, rfl, rfl, fun h => { h with rto := hn h.rto }⟩

lemma wire_dropped : (t.dropped env a).wire = t.wire := by
  have hc : ∀ w : Tcb, (w.catchUp.restartAfterAck env).wire = w.wire := by
    intro w
    unfold Tcb.catchUp
    split <;> rfl
  have hm : ∀ n, (({ t.dropAcked a with timed := none } : Tcb).measure n).wire = t.wire := by
    intro n
    unfold Tcb.measure Tcb.smooth
    simp only
    split <;> rfl
  rw [Tcb.dropped, hc]
  unfold Tcb.takeSample
  repeat' split
  all_goals first | rfl | exact hm _

lemma takeAck_resent : Resent env (t.dropped env a) (t.takeAck env a) :=
  takeCongestion_resent env (t.dropped env a) a (t.ackedBytes a)

def Tcb.acked (s : Segment) : Tcb :=
  if t.acknowledges s.acknowledgement then t.takeAck env s.acknowledgement else t

/-- the connection once the acknowledgement and the window are taken -/
def Tcb.heard (s : Segment) (duplicate : Bool) : Tcb :=
  (if duplicate then (t.acked env s).onDuplicate env else t.acked env s).takeWindow s

end

/-- **an acknowledgement keeps** what dropping the acknowledged, the congestion responses and the window
keep -/
theorem heard_rule {P : Tcb → Prop} {duplicate : Bool}
    (hdrop : t.acknowledges s.acknowledgement = true → P (t.dropped env s.acknowledgement))
    (hkeep : t.acknowledges s.acknowledgement = false → P t)
    (hresent : ∀ {w w' : Tcb}, P w → Resent env w w' → P w')
    (hwindow : ∀ {w : Tcb}, P w → P (w.takeWindow s)) : P (t.heard env s duplicate) := by
  have hacked : P (t.acked env s) := by
    unfold Tcb.acked
    split
    · rename_i ha
      exact hresent (hdrop ha) (takeAck_resent env t _)
    · rename_i ha
      exact hkeep (Bool.eq_false_iff.2 ha)
  unfold Tcb.heard
  split
  · exact hwindow (hresent hacked (onDuplicate_resent env _))
  · exact hwindow hacked

lemma heard_state (env : Env) (t : Tcb) (s : Segment) (duplicate : Bool) :
    (t.heard env s duplicate).state = t.state ∧ (t.heard env s duplicate).finAcknowledged =
      (t.finAcknowledged || (t.acknowledges s.acknowledgement && t.finCovered s.acknowledgement)) := by
  refine heard_rule (P := fun w => w.state = t.state ∧ w.finAcknowledged = (t.finAcknowledged ||
    (t.acknowledges s.acknowledgement && t.finCovered s.acknowledgement))) (fun ha => ?_) (fun ha => ?_)
    (fun h hr => ?_) (fun h => ?_)
  · have e := send_dropped env t s.acknowledgement
    rw [ha, Bool.true_and]
    exact ⟨congrArg state e, congrArg finAcknowledged e⟩
  · rw [ha, Bool.false_and, Bool.or_false]
    exact ⟨rfl, rfl⟩
  · obtain ⟨data, e⟩ := hr.send
    exact ⟨(congrArg state e).trans h.1, (congrArg finAcknowledged e).trans h.2⟩
  · exact ⟨(congrArg state (Tcb.send_takeWindow _ s)).trans h.1,
      (congrArg finAcknowledged (Tcb.send_takeWindow _ s)).trans h.2⟩

def State.finishing : State → Bool
  | .FinWait1 | .Closing | .LastAck => true
  | _ => false

lemma finishing_onFinAcknowledged (h : t.finAcknowledged = true) :
    (t.onFinAcknowledged env).1.state.finishing = false := by
  unfold Tcb.onFinAcknowledged
  rw [if_pos h]
  cases hs : t.state <;> simp only [] <;> first | rfl | (rw [hs]; rfl)

lemma finishing_takeHeldFin (h : t.state.finishing = false) :
    (t.takeHeldFin env).1.state.finishing = false := by
  unfold Tcb.takeHeldFin
  split
  · unfold Tcb.takeFin
    split
    · exact h
    · simp only
      split
      · rfl
      · rename_i hs
        rw [show t.state = .FinWait1 from hs] at h
        cases h
      · rfl
      · exact h
  · exact h

section
variable (env : Env) (t : Tcb) (s : Segment)

/-- the connection once the data and the FIN of a segment are taken: `onData` short of `output` -/
def Tcb.taken (wantedBefore : Seq) : Tcb :=
  let trimmed := t.trim s
  let t := (t.takeData env trimmed.1 trimmed.2).1.noteFin env s
    (trimmed.1 + BitVec.ofNat 32 trimmed.2.length)
  (t.takeHeldFin env).1.answer env s wantedBefore

lemma Moves.taken (w : Seq) : Moves t (t.taken env s w) ∧
    (t.state.finishing = false → (t.taken env s w).state.finishing = false) := by
  unfold Tcb.taken
  simp only
  have hsend : ((t.takeData env (t.trim s).1 (t.trim s).2).1.noteFin env s
      ((t.trim s).1 + BitVec.ofNat 32 (t.trim s).2.length)).send = t.send :=
    (Tcb.send_noteFin env _ s _).trans (Tcb.send_takeData env t _ _)
  have htaken := Moves.of_out hsend
    ((Tcb.out_noteFin env _ s _).trans (Tcb.out_takeData env t _ _))
  refine ⟨(htaken.trans (Moves.takeHeldFin env _)).trans (Moves.answer env _ s w), fun hf => ?_⟩
  rw [show Tcb.state _ = _ from congrArg state (Tcb.send_answer env _ s w)]
  exact finishing_takeHeldFin ((congrArg (·.state.finishing) hsend).trans hf)

def Tcb.readied (duplicate : Bool) : Tcb :=
  ((t.heard env s duplicate).onFinAcknowledged env).1.taken env s t.receiveNext

/-- **an acknowledgement in stages**: it is taken, the state moves, and `output` is called -/
theorem onAcknowledgement_stages (duplicate : Bool) :
    Moves (t.heard env s duplicate) (t.readied env s duplicate) ∧
      ((t.heard env s duplicate).finAcknowledged = true →
        (t.readied env s duplicate).state.finishing = false) ∧
      (t.onAcknowledgement env s duplicate).1 = (t.readied env s duplicate).output env := by
  obtain ⟨hm, hf⟩ := Moves.taken env ((t.heard env s duplicate).onFinAcknowledged env).1 s t.receiveNext
  exact ⟨(Moves.onFinAcknowledged env _).trans hm, fun h => hf (finishing_onFinAcknowledged h), rfl⟩

end

/-! ## segments -/

/-- the connection an acceptable segment is taken on: one in SYN-RECEIVED is established first -/
inductive Heard (t : Tcb) (s : Segment) : Tcb → Prop
  | past (h : t.state ≠ .SynReceived) : Heard t s t
  | opened (h : t.state = .SynReceived)
      (hlt : seqLt t.sendUnacknowledged s.acknowledgement = true)
      (hle : seqLe s.acknowledgement t.sendHigh = true) : Heard t s t.completeHandshake

namespace Tcb
variable (env : Env) (t : Tcb) (segment : Segment)

def established (s : Segment) : Tcb :=
  (((t.takeRequest s).takeMss s).establish s.acknowledgement).acknowledge env

/-- the connection once both ends have opened at once -/
def crossed (s : Segment) : Tcb :=
  { (t.takeRequest s).takeMss s with state := .SynReceived }.sendSynAck env

end Tcb

lemma send_request (t : Tcb) (s : Segment) : ((t.takeRequest s).takeMss s).send = t.send := by
  rw [Tcb.send_takeMss, Tcb.send_takeRequest]

section
variable (env : Env) (t : Tcb) (s : Segment)

lemma send_established : (t.established env s).send =
    { t.send with sendUnacknowledged := s.acknowledgement, state := .Established } := by
  rw [Tcb.established, Tcb.send_acknowledge, ← send_request t s]
  rfl

lemma send_crossed : (t.crossed env s).send = { t.send with state := .SynReceived } := by
  rw [Tcb.crossed, Tcb.send_sendSynAck, ← send_request t s]
  rfl

lemma wire_request : ((t.takeRequest s).takeMss s).wire = t.wire := by
  unfold Tcb.takeMss
  split <;> rfl

lemma adds_established : Adds t (t.established env s) := by
  have h : Adds t (((t.takeRequest s).takeMss s).establish s.acknowledgement) :=
    Adds.of_eq (wire_request t s)
  exact h.trans (Adds.acknowledge env _)

lemma adds_crossed : Adds t (t.crossed env s) := by
  have h : Adds t { (t.takeRequest s).takeMss s with state := .SynReceived } :=
    Adds.of_eq (wire_request t s)
  exact h.trans (Adds.sendSynAck env _)

end

lemma onSegment_unheard (env : Env) (hs : t.state ≠ .SynSent)
    (h : t.hears s = false) : Moves t (t.onSegment env s).1 ∨ Ends t (t.onSegment env s).1 := by
  have hack : Moves t (t.acknowledge env) := Moves.acknowledge env t
  unfold Tcb.onSegment
  split
  · contradiction
  · exact .inl (Moves.refl t)
  · exact .inl (Moves.refl t)
  · split
    · unfold Tcb.onUnacceptable
      split
      · exact .inl (Moves.refl t)
      · split
        · rename_i hsyn
          simp only [Bool.and_eq_true, beq_iff_eq] at hsyn
          refine .inl (Moves.of_send (Tcb.send_sendSynAck env { t with timed := none })
            (Tcb.pace_sendSynAck env _) (fun hc => ?_) (Adds.sendSynAck env { t with timed := none }))
          rw [hsyn.1.1.1] at hc
          cases hc
        · exact .inl hack
    · split
      · unfold Tcb.onReset
        split
        · exact .inl hack
        · exact .inr ⟨rfl, (Ends.close t).send, .inr rfl, rfl, Adds.of_eq rfl⟩
      · split
        · exact .inl hack
        · split
          · exact .inl (Moves.refl t)
          · exfalso
            simp_all [Tcb.hears]

lemma onAcknowledged_cases (env : Env) (t : Tcb) (s : Segment) :
    (t.state = .SynReceived ∧ Moves t (t.onAcknowledged env s).1) ∨
    ∃ w, Heard t s w ∧
      (t.onAcknowledged env s).1 = (w.readied env s (t.isDuplicate s)).output env := by
  unfold Tcb.onAcknowledged
  simp only
  split
  · rename_i hs
    have hs : t.state = .SynReceived := by simpa using hs
    split
    · rename_i hok
      simp only [Bool.and_eq_true] at hok
      exact .inr ⟨_, .opened hs hok.1 hok.2, rfl⟩
    · exact .inl ⟨hs, Moves.sendReset env t _⟩
  · rename_i hs
    exact .inr ⟨t, .past (by simpa using hs), rfl⟩

/-! ## the timer -/

def Tcb.probe (env : Env) (t : Tcb) (byte : Byte) : Tcb :=
  (t.sendSegment env ACK t.sendNext [byte] false).sentThrough (t.sendNext + 1)

lemma retransmit_cases (env : Env) (t : Tcb) :
    (t.state.canOutput = false ∧ Moves t (t.retransmit env)) ∨
    (¬(t.state = .SynSent ∨ t.state = .SynReceived) ∧ (t.retransmit env = t.goBack.output env ∨
        ∃ byte rest, t.pending = byte :: rest ∧ t.retransmit env = t.goBack.probe env byte)) := by
  unfold Tcb.retransmit
  split
  · rename_i hs
    exact .inl ⟨by rw [hs]; rfl, Moves.sendSegment env t (by decide) _ _⟩
  · rename_i hs
    exact .inl ⟨by rw [hs]; rfl, Moves.sendSegment env t (by decide) _ _⟩
  · rename_i h1 h2
    refine .inr ⟨fun h => h.elim h1 h2, ?_⟩
    have hp : t.goBack.pending = t.pending := rfl
    simp only
    cases hq : t.goBack.pending with
    | nil => exact .inl rfl
    | cons byte rest =>
      simp only
      split
      · exact .inr ⟨byte, rest, hp.symm.trans hq, rfl⟩
      · exact .inl rfl

/-! ## calls -/

inductive Shuts : State → State → Prop
  | established : Shuts .Established .FinWait1
  | opening : Shuts .SynReceived .FinWait1
  | closing : Shuts .CloseWait .LastAck

inductive Effect (t : Tcb) : Call → Tcb → List Byte → Prop
  | moves {c : Call} {t' : Tcb} (h : Moves t t') : Effect t c t' []
  | ends {c : Call} {t' : Tcb} (h : Ends t t') : Effect t c t' []
  | heard {env : Env} {s : Segment} {w : Tcb} (hh : t.hears s = true) (hw : Heard t s w) :
      Effect t (.segment env s) ((w.readied env s (t.isDuplicate s)).output env) []
  | established {env : Env} {s : Segment} (hs : t.state = .SynSent)
      (hlt : seqLt t.iss s.acknowledgement = true) (hle : seqLe s.acknowledgement t.sendNext = true) :
      Effect t (.segment env s) ((t.established env s).output env) []
  | crossed {env : Env} {s : Segment} (hs : t.state = .SynSent) :
      Effect t (.segment env s) (t.crossed env s) []
  | resent {env : Env} {now : Nat} {r : Tcb} (hs : r.send = t.send) (ho : r.out = t.out)
      (hat : t.retransmitAt ≠ 0) (hnow : t.retransmitAt ≤ now) :
      Effect t (.timer env now) ((r.backOff now).retransmit env) []
  | queued {env : Env} {buf : List Byte} {n : Nat}
      (hl : t.state = .Established ∨ t.state = .CloseWait) (hq : t.finQueued = false)
      (hroom : t.pending.length + n ≤ SEND_BUFFER) (hn : n ≤ buf.length) :
      Effect t (.write env buf) ((t.enqueue (buf.take n)).output env) (buf.take n)
  | shut {env : Env} {state : State} (h : Shuts t.state state) :
      Effect t (.shutdownWrite env) ({ t with finQueued := true, state := state }.output env) []

lemma onSynSent_effect (env : Env) (h : t.state = .SynSent) (s : Segment) :
    Effect t (.segment env s) (t.onSynSent env s).1 [] := by
  unfold Tcb.onSynSent
  split
  · split
    · exact .moves (Moves.sendReset env t _)
    · exact .moves (Moves.refl t)
  · rename_i hack
    split
    · exact .ends ⟨rfl, rfl, .inl rfl, rfl, Adds.of_eq rfl⟩
    · split
      · exact .moves (Moves.refl t)
      · simp only
        split
        · rename_i hA
          have hok : seqLt t.iss s.acknowledgement = true ∧
              seqLe s.acknowledgement t.sendNext = true := by
            simpa [hA] using hack
          exact .established h hok.1 hok.2
        · exact .crossed h

section
variable (env : Env) (t : Tcb)

lemma onSegment_effect (s : Segment) : Effect t (.segment env s) (t.onSegment env s).1 [] := by
  by_cases hs : t.state = .SynSent
  · unfold Tcb.onSegment
    rw [hs]
    exact onSynSent_effect env hs s
  · cases hh : t.hears s with
    | true =>
      rw [Tcb.onSegment_hears hh]
      rcases onAcknowledged_cases env t s with ⟨-, hm⟩ | ⟨w, hw, e⟩
      · exact .moves hm
      · rw [e]
        exact .heard hh hw
    | false =>
      rcases onSegment_unheard env hs hh with hm | he
      · exact .moves hm
      · exact .ends he

lemma read_moves (size : Nat) (peek : Bool) : Moves t (t.read env size peek).1 := by
  unfold Tcb.read
  split
  · simp only
    split
    · exact Moves.refl t
    · have hopen : Moves t ((t.drain (min size t.received.length)).openWindow false) :=
        Moves.of_out ((Tcb.send_openWindow _ _).trans (Tcb.send_drain t _))
          ((Tcb.out_openWindow _ _).trans (Tcb.out_drain t _))
      unfold Tcb.takeReceived
      simp only
      split
      · exact hopen.trans (Moves.acknowledge env _)
      · exact hopen
  · unfold Tcb.readEmpty
    repeat' split
    all_goals first | exact Moves.refl t | exact Moves.of_out rfl rfl

lemma write_cases (buf : List Byte) :
    (Moves t (t.write env buf).1 ∧ ∃ e, (t.write env buf).2 = .error e) ∨
    ((t.state = .Established ∨ t.state = .CloseWait) ∧ t.finQueued = false ∧
      ∃ n, t.pending.length + n ≤ SEND_BUFFER ∧ n ≤ buf.length ∧
        t.write env buf = ((t.enqueue (buf.take n)).output env, .ok n)) := by
  unfold Tcb.write
  simp only
  by_cases hl : t.state = .Established ∨ t.state = .CloseWait
  · by_cases hq : t.finQueued = true
    · refine .inl ?_
      rcases hl with st | st <;> simp [st, hq, Moves.refl]
    · by_cases hr : SEND_BUFFER - t.pending.length = 0
      · refine .inl ?_
        rcases hl with st | st <;> simp [st, hq, hr, Moves.refl]
      · refine .inr ⟨hl, by simpa using hq, min (SEND_BUFFER - t.pending.length) buf.length,
          by omega, by omega, ?_⟩
        rcases hl with st | st <;> simp only [st, if_neg hq, if_neg hr]
  · refine .inl ?_
    split <;> rename_i st
    · exact absurd (.inl st) hl
    · exact absurd (.inr st) hl
    · exact ⟨Moves.refl t, _, rfl⟩
    · exact ⟨Moves.refl t, _, rfl⟩
    · exact ⟨Moves.of_out rfl rfl, _, rfl⟩
    · exact ⟨Moves.refl t, _, rfl⟩
    · exact ⟨Moves.refl t, _, rfl⟩

lemma onTimer_effect (now : Nat) : Effect t (.timer env now) (t.onTimer env now).1 [] := by
  have hs := Tcb.send_expireReassembly t now
  have ho := Tcb.out_expireReassembly t now
  have hat : (t.expireReassembly now).retransmitAt = t.retransmitAt := congrArg OutView.retransmitAt ho
  have hmoves : Moves t (t.expireReassembly now) := Moves.of_out hs ho
  unfold Tcb.onTimer
  generalize t.expireReassembly now = r at hs ho hat hmoves
  unfold Tcb.onClocks
  split
  · split
    · exact .ends (Ends.after hmoves ⟨rfl, rfl, .inr rfl, rfl, Adds.of_eq rfl⟩)
    · exact .moves hmoves
  · split
    · exact .moves hmoves
    · rename_i hdue
      split
      · have hmark : Moves r { r with retries := r.retries + 1, error := some .ETIMEDOUT } :=
          Moves.of_out rfl rfl
        exact .ends ((Ends.abort env _).after (hmoves.trans hmark))
      · rw [not_or, not_lt] at hdue
        exact .resent hs ho (hat ▸ hdue.1) (hat ▸ hdue.2)

lemma shutdownWrite_effect : Effect t (.shutdownWrite env) (t.shutdownWrite env) [] := by
  have hshut : ∀ state, Shuts t.state state → Effect t (.shutdownWrite env)
      ({ t with finQueued := true, state := state }.output env) [] := fun _ h => .shut h
  have hends : Ends t { t with state := .Closed, retransmitAt := 0 } :=
    ⟨rfl, rfl, .inl rfl, rfl, Adds.of_eq rfl⟩
  unfold Tcb.shutdownWrite
  split
  · exact .moves (Moves.refl t)
  · cases hs : t.state <;> simp only <;> first
      | exact .moves (Moves.refl t)
      | exact .ends hends
      | exact hshut _ (hs ▸ .established)
      | exact hshut _ (hs ▸ .opening)
      | exact hshut _ (hs ▸ .closing)

end

/-- **every call has one of the effects**, with the bytes it accepts -/
theorem Session.effect (s : Session) (c : Call) : ∃ bytes,
    Effect s.tcb c (s.step c).tcb bytes ∧ (s.step c).written = s.written ++ bytes := by
  cases c with
  | segment env segment => exact ⟨[], onSegment_effect env s.tcb segment, (append_nil _).symm⟩
  | read env size peek =>
    exact ⟨[], .moves (read_moves env s.tcb size peek), (append_nil _).symm⟩
  | timer env now => exact ⟨[], onTimer_effect env s.tcb now, (append_nil _).symm⟩
  | write env buf =>
    simp only [Session.step]
    rcases write_cases env s.tcb buf with ⟨hm, e, he⟩ | ⟨hl, hq, n, hroom, hn, e⟩
    · rw [he]
      exact ⟨[], .moves hm, (append_nil _).symm⟩
    · rw [e]
      exact ⟨buf.take n, .queued hl hq hroom hn, rfl⟩
  | shutdownWrite env => exact ⟨[], shutdownWrite_effect env s.tcb, (append_nil _).symm⟩
  | others heldBytes =>
    exact ⟨[], .moves (Moves.of_out (Tcb.send_setHeld _ _ _) (Tcb.out_setHeld _ _ _)),
      (append_nil _).symm⟩

end ClaudeOs.Net
