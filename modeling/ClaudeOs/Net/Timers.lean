import ClaudeOs.Lib.Run
import ClaudeOs.Net.Send

/-!
# A timer whenever something waits for an acknowledgement

A segment that is lost is noticed by the retransmission timer alone, and so is a window update that
is lost.  The timer is set by every send, set again or cleared by every acknowledgement, and left
alone by the rest.

* `Armed`  whatever is outstanding has its timer running;
* `Waits`  whatever is queued has its timer running;
* `Ready`  what `output` has to find so as to leave both;
* `Stuck`, `Open`  the segments after which it does not: the window is closed, nothing is
  outstanding, and something is queued; and the calls that avoid that;
* `timer_runs`  in every run without those, `Waits` holds after every call.
-/

namespace ClaudeOs.Net
open Serial Nat Tcb
variable {iss : Seq} {W : List Byte} {old : List Segment} {v : SendView} {u o d : Nat} {t t' : Tcb}
  {env : Env}

/-! ## the pace -/

lemma Paced.takeWindow (h : Paced t.pace) (s : Segment) : Paced (t.takeWindow s).pace := by
  unfold Tcb.takeWindow
  split
  · exact ⟨h.rto, h.window, h.threshold, h.mss, s.window.isLt⟩
  · exact h

lemma Paced.backOff (h : Paced t.pace) (now : Nat) : Paced (t.backOff now).pace := by
  have hrto : 0 < min (t.rto * 2) MAX_RTO := by
    have := h.rto
    simp only [pace, MAX_RTO] at *
    omega
  have hhalf := halfFlight_pos t
  exact ⟨hrto, (by decide : 0 < MSS), hhalf, h.mss, h.offered⟩

lemma Paced.takeRequest (h : Paced t.pace) (s : Segment) :
    Paced ((t.takeRequest s).takeMss s).pace := by
  have hmss : ∀ n, 0 < min (max n MIN_MSS) MSS := by
    intro n
    simp only [MIN_MSS, MSS]
    omega
  unfold takeMss
  split
  · exact ⟨h.rto, h.window, h.threshold, hmss _, s.window.isLt⟩
  · exact ⟨h.rto, h.window, h.threshold, h.mss, s.window.isLt⟩

lemma Paced.established (h : Paced t.pace) (s : Segment) : Paced (t.established env s).pace := by
  have hp := h.takeRequest s
  rw [Tcb.established, pace_acknowledge]
  exact { hp with }

lemma Paced.crossed (h : Paced t.pace) (s : Segment) : Paced (t.crossed env s).pace := by
  have hp := h.takeRequest s
  rw [Tcb.crossed, pace_sendSynAck]
  exact { hp with }

lemma Paced.retransmit (h : Paced t.pace) : Paced (t.retransmit env).pace := by
  have hback : Paced t.goBack.pace := h
  rcases retransmit_cases env t with ⟨-, hm⟩ | ⟨-, e | ⟨byte, rest, -, e⟩⟩
  · rwa [hm.pace]
  · rwa [e, pace_output]
  · rwa [e, probe, pace_sentThrough, pace_sendSegment]

/-- **the pace stays what it can be**, whatever is called -/
theorem Paced.step {s : Session} (h : Paced s.tcb.pace) (c : Call) : Paced (s.step c).tcb.pace := by
  obtain ⟨bytes, he, -⟩ := s.effect c
  generalize (s.step c).tcb = t' at he
  cases he with
  | moves hm => rwa [hm.pace]
  | ends he => rwa [he.pace]
  | @heard env segment w _ hw =>
    have hstart : Paced w.pace := by
      cases hw with
      | past => exact h
      | opened => exact h
    have hheard : Paced (w.heard env segment (s.tcb.isDuplicate segment)).pace :=
      heard_rule (P := fun x => Paced x.pace) (fun _ => (tunes_dropped env w _).paced hstart)
        (fun _ => hstart) (fun hp hr => hr.tunes.paced hp) fun hp => hp.takeWindow segment
    obtain ⟨hm, -, -⟩ := onAcknowledgement_stages env w segment (s.tcb.isDuplicate segment)
    rwa [pace_output, hm.pace]
  | established =>
    rw [pace_output]
    exact h.established _
  | crossed => exact h.crossed _
  | @resent env now r _ ho =>
    exact (Paced.backOff (t := r)
      (by rw [show r.pace = s.tcb.pace from congrArg OutView.pace ho]; exact h) now).retransmit
  | queued =>
    rw [pace_output]
    exact h
  | shut =>
    rw [pace_output]
    exact h

lemma paced_new (heldBytes : Nat) : Paced (new heldBytes).pace :=
  ⟨(by decide : 0 < INITIAL_RTO), (by decide : 0 < MSS), (by decide : 0 < 64 * 1024),
    (by decide : 0 < MSS), (by decide : MSS < 2 ^ 16)⟩

lemma Paced.openActive (hp : Paced t.pace) (iss : Seq) : Paced (t.openActive env iss).pace := by
  simp only [Tcb.openActive, pace_armRetransmit, pace_timeSegment, pace_sentThrough,
    pace_sendSegment]
  exact ⟨(by decide : 0 < INITIAL_RTO), (by decide : 0 < MSS), hp.threshold, hp.mss, hp.offered⟩

lemma Opened.paced (h : Opened t) : Paced t.pace := by
  induction h with
  | active env heldBytes iss => exact (paced_new heldBytes).openActive iss
  | passive env env' heldBytes request iss =>
    have hp := (paced_new heldBytes).takeRequest request
    simp only [pace_sendSynAck, acceptOpen, pace_timeSegment, pace_sentThrough]
    exact ⟨(by decide : 0 < INITIAL_RTO), (by decide : 0 < MSS), hp.threshold, hp.mss, hp.offered⟩
  | @again t _ calls env iss _ ih =>
    have hp := Run.keeps (I := fun s : Session => Paced s.tcb.pace) (fun _ c h => h.step c)
      (show Paced (Session.start t).tcb.pace from ih) calls
    generalize (Run.run Session.step (.start t) calls).tcb = w at hp
    exact Paced.openActive (t := { w with wire := [] }) hp iss

/-! ## the timer -/

def FinBehind (v : SendView) : Prop := ∀ f, v.finSequence = some f → v.finAcknowledged = false →
  (f - v.sendUnacknowledged).toNat < (v.sendNext - v.sendUnacknowledged).toNat

lemma FinBehind.lt {f : Seq} (h : FinBehind t.send) (hf : t.finSequence = some f)
    (ha : t.finAcknowledged = false) :
    (f - t.sendUnacknowledged).toNat < (t.sendNext - t.sendUnacknowledged).toNat := h f hf ha

structure Armed (t : Tcb) : Prop where
  paced : Paced t.pace
  behind : FinBehind t.send
  armed : t.state.canOutput = true → t.sendUnacknowledged ≠ t.sendNext → t.retransmitAt ≠ 0

def Waits (t : Tcb) : Prop := t.state.canOutput = true →
  t.pending ≠ [] ∨ (t.finQueued = true ∧ t.finAcknowledged = false) → t.retransmitAt ≠ 0

/-- `output` would find a way to send what is queued with this window, or the timer running -/
structure Ready (window : Nat) (t : Tcb) : Prop extends Armed t where
  way : t.state.canOutput = true → t.retransmitAt = 0 → window = 0 → t.pending = []

lemma armRetransmit_ne (env : Env) (h : 0 < t.rto) : (t.armRetransmit env).retransmitAt ≠ 0 := by
  unfold armRetransmit
  split
  · exact Nat.ne_of_gt (Nat.add_pos_right _ h)
  · assumption

lemma sendChunk_ne (h : Paced t.pace) (n m : Nat) : (t.sendChunk env n m).retransmitAt ≠ 0 := by
  have hrto : ∀ w : Tcb, w.pace = t.pace → 0 < w.rto := fun w hw => by
    have := h.rto
    rwa [← hw] at this
  unfold sendChunk
  simp only
  refine armRetransmit_ne env (hrto _ ?_)
  split <;> simp

lemma sendFin_ne (h : Paced t.pace) : (t.sendFin env).retransmitAt ≠ 0 := by
  unfold sendFin
  simp only
  refine armRetransmit_ne env ?_
  have hp := pace_sendSegment env { t with finSequence := some t.sendNext } (FIN ||| ACK) t.sendNext
    [] false
  have hr : (({ t with finSequence := some t.sendNext } : Tcb).sendSegment env (FIN ||| ACK) t.sendNext
    [] false).rto = t.rto := congrArg PaceView.rto hp
  exact lt_of_lt_of_eq h.rto hr.symm

variable {limit : Seq} {window : Nat} {s : Segment}

lemma Outputs.timer (h : Outputs env limit t t') (hp : Paced t.pace) :
    t' = t ∨ t'.retransmitAt ≠ 0 := by
  induction h with
  | done => exact .inl rfl
  | @chunk t _ n _ _ _ _ _ ih =>
    rcases ih (by rw [pace_sendChunk]; exact hp) with e | e
    · rw [e]
      exact .inr (sendChunk_ne hp _ _)
    · exact .inr e
  | fin => exact .inr (sendFin_ne hp)

lemma output_ne (env : Env) (h : Paced t.pace) : t.output env = t ∨ (t.output env).retransmitAt ≠ 0 := by
  rcases output_turns env t with ⟨-, e⟩ | ⟨-, ht⟩
  · exact .inl e
  · exact ht.timer h

lemma output_nothing (hp : t.pending = []) (hq : t.finQueued = false) : t.output env = t := by
  unfold output
  split
  · rfl
  · unfold outputLoop
    simp only [hp, List.length_nil, Nat.zero_sub, Nat.lt_irrefl, if_false, hq, Bool.false_and,
      Bool.false_eq_true]

lemma output_fin (env : Env) (h : Paced t.pace) (hc : t.state.canOutput = true) (hp : t.pending = [])
    (hq : t.finQueued = true) (hn : t.finSequence = none) : (t.output env).retransmitAt ≠ 0 := by
  unfold output
  rw [hc]
  simp only [Bool.not_true, Bool.false_eq_true, if_false]
  unfold outputLoop
  simp only [hp, List.length_nil, Nat.zero_sub, Nat.lt_irrefl, if_false, hq, hn, Option.isNone_none,
    Bool.and_self, if_true]
  exact sendFin_ne h

lemma output_data (h : Paced t.pace) (hc : t.state.canOutput = true)
    (hnext : t.sendUnacknowledged = t.sendNext) (hp : t.pending ≠ []) (hw : t.sendWindow ≠ 0) :
    (t.output env).retransmitAt ≠ 0 := by
  have hlen := List.length_pos_iff.2 hp
  have hmss : 0 < t.effectiveMss := by
    have := h.mss
    simp only [pace] at this
    unfold effectiveMss
    simp only [MSS]
    omega
  have husable : 0 < min t.sendWindow t.congestionWindow ∧
      min t.sendWindow t.congestionWindow < 2 ^ 16 := by
    have h1 := h.window
    have h2 := h.offered
    simp only [pace] at h1 h2
    omega
  unfold output
  rw [hc]
  simp only [Bool.not_true, Bool.false_eq_true, if_false]
  generalize min t.sendWindow t.congestionWindow = usable at husable
  have hlt : seqLt t.sendNext (t.sendNext + BitVec.ofNat 32 usable) = true := by
    have e := seqAt_lt t.sendNext (p := 0) (q := usable) (by omega) (by omega)
    rw [seqAt_zero, decide_eq_true husable.1] at e
    exact e
  have hroom : (t.sendNext + BitVec.ofNat 32 usable - t.sendNext).toNat = usable :=
    seqAt_dist_zero _ (by omega)
  have hloop : ∀ fuel, (outputLoop env (t.sendNext + BitVec.ofNat 32 usable) (fuel + 1)
      t).retransmitAt ≠ 0 := by
    intro fuel
    unfold outputLoop
    simp only [hnext, BitVec.sub_self, BitVec.toNat_zero, Nat.sub_zero, if_pos hlen, hlt,
      Bool.not_true, Bool.false_eq_true, if_false, hroom]
    rw [if_neg (by omega)]
    generalize min (min t.pending.length t.effectiveMss) usable = n
    have hsent : Paced (t.sendChunk env 0 n).pace := by
      rw [pace_sendChunk]
      exact h
    rcases (outputLoop_turns env _ fuel _).timer hsent with e | e
    · rw [e]
      exact sendChunk_ne h _ _
    · exact e
  rw [hnext]
  exact hloop _

/-- there is no more queued and outstanding than a send buffer holds, the SYN and the FIN apart -/
structure Fits (v : SendView) : Prop where
  queued : v.pending.length ≤ SEND_BUFFER
  outstanding : (v.sendNext - v.sendUnacknowledged).toNat ≤ SEND_BUFFER + 2

lemma Flight.fits (h : Flight iss W old v u o d) : Fits v := by
  have hb : d ≤ 65536 + 2 := h.bound
  have ho := h.order
  refine ⟨h.room, ?_⟩
  rw [h.next, h.una, seqAt_dist _ (by omega) (by omega)]
  simp only [SEND_BUFFER]
  omega

lemma FinBehind.turns (hf : FinBehind t.send) (h : Fits t.send) (ht : Outputs env limit t t') :
    FinBehind t'.send := by
  induction ht with
  | done => exact hf
  | @chunk t _ n _ hleft _ _ _ ih =>
    have hlen : t.pending.length ≤ 65536 := h.queued
    have hdist : (t.sendNext + BitVec.ofNat 32 n - t.sendUnacknowledged).toNat = t.offset + n :=
      dist_add (by unfold offset at hleft; omega)
    obtain ⟨new, hview, -⟩ := send_sendChunk env t t.offset n
    rw [hview] at ih
    refine ih (fun f hfs hack => ?_) ⟨h.queued, ?_⟩
    · exact lt_of_lt_of_le (hf.lt hfs hack) (hdist.symm ▸ le_add_right _ _)
    · exact le_trans (le_of_eq hdist) (by simp only [SEND_BUFFER]; omega)
  | @fin t =>
    have hout : (t.sendNext - t.sendUnacknowledged).toNat ≤ 65536 + 2 := h.outstanding
    have hdist := dist_add (a := t.sendNext) (b := t.sendUnacknowledged) (n := 1) (by omega)
    rw [send_sendFin]
    intro f hfs _
    obtain rfl := Option.some.inj hfs
    exact lt_of_lt_of_eq (lt_succ_self _) hdist.symm

lemma FinBehind.output (hf : FinBehind t.send) (h : Fits t.send) :
    FinBehind (t.output env).send := by
  rcases output_turns env t with ⟨-, e⟩ | ⟨-, ht⟩
  · rwa [e]
  · exact hf.turns h ht

lemma Ready.output (env : Env) (hr : Ready t.sendWindow t) (h : Fits t.send) :
    Armed (t.output env) ∧ Waits (t.output env) := by
  have hqueue := congrArg StillView.queue (still_output env t)
  have hstate : (t.output env).state = t.state := congrArg RecvView.state (recv_output env t)
  have hpace := pace_output env t
  refine ⟨⟨by rw [hpace]; exact hr.paced, hr.behind.output h, ?_⟩, ?_⟩
  · intro hc hne
    rcases output_ne env hr.paced with e | e
    · rw [e] at hc hne ⊢
      exact hr.armed hc hne
    · exact e
  · intro hc hw
    rw [hstate] at hc
    rw [show (t.output env).pending = t.pending from congrArg QueueView.pending hqueue,
      show (t.output env).finQueued = t.finQueued from congrArg QueueView.finQueued hqueue,
      show (t.output env).finAcknowledged = t.finAcknowledged from
        congrArg QueueView.finAcknowledged hqueue] at hw
    by_cases h0 : t.retransmitAt = 0
    · have hnext : t.sendUnacknowledged = t.sendNext := by
        by_contra hne
        exact hr.armed hc hne h0
      by_cases hp : t.pending = []
      · obtain ⟨hq, hack⟩ := hw.resolve_left fun hne => hne hp
        cases hfs : t.finSequence with
        | none => exact output_fin env hr.paced hc hp hq hfs
        | some f =>
          have hlt := hr.behind.lt hfs hack
          rw [hnext, BitVec.sub_self] at hlt
          exact absurd hlt (not_lt_zero _)
      · exact output_data hr.paced hc hnext hp fun hw0 => hp (hr.way hc h0 hw0)
    · rcases output_ne env hr.paced with e | e
      · rw [e]
        exact h0
      · exact e

/-! ## changes of state -/

/-- the timer runs while bytes are outstanding, and while any are queued -/
structure Timed (t : Tcb) : Prop extends Armed t where
  waits : Waits t

lemma Timed.of_idle (hp : Paced t.pace) (hf : FinBehind t.send) (hc : t.state.canOutput = false) :
    Timed t where
  paced := hp
  behind := hf
  armed h := by rw [hc] at h; cases h
  waits h := by rw [hc] at h; cases h

lemma Armed.moves {t' : Tcb} (h : Armed t) (hm : Moves t t') : Armed t' := by
  have hview := hm.send
  have hun : t'.sendUnacknowledged = t.sendUnacknowledged :=
    congrArg SendView.sendUnacknowledged hview
  have hnext : t'.sendNext = t.sendNext := congrArg SendView.sendNext hview
  refine ⟨hm.pace ▸ h.paced, by rw [hview]; exact h.behind, fun hc hne => ?_⟩
  obtain ⟨hc, -, hat⟩ := hm.kept hc
  rw [hat]
  exact h.armed hc (by rwa [hun, hnext] at hne)

lemma Timed.moves {t' : Tcb} (h : Timed t) (hm : Moves t t') : Timed t' := by
  refine ⟨h.toArmed.moves hm, fun hc hw => ?_⟩
  obtain ⟨hc, hp, hat⟩ := hm.kept hc
  rw [hat]
  refine h.waits hc ?_
  rwa [hp, show t'.finQueued = t.finQueued from congrArg SendView.finQueued hm.send,
    show t'.finAcknowledged = t.finAcknowledged from congrArg SendView.finAcknowledged hm.send] at hw

lemma Timed.ends {t' : Tcb} (hp : Paced t.pace) (hf : FinBehind t.send) (he : Ends t t') : Timed t' :=
  Timed.of_idle (he.pace ▸ hp) (by rw [he.send]; exact hf) (by rw [he.closed]; rfl)

lemma Ready.moves {t' : Tcb} (h : Ready window t) (hm : Moves t t') : Ready window t' := by
  refine ⟨h.toArmed.moves hm, fun hc hat hw => ?_⟩
  obtain ⟨hc, hp, hat'⟩ := hm.kept hc
  rw [hp]
  exact h.way hc (hat' ▸ hat) hw

lemma Fits.moves {t' : Tcb} (h : Fits t.send) (hm : Moves t t') : Fits t'.send := by
  rw [hm.send]
  refine ⟨?_, h.outstanding⟩
  rcases hm.short with e | e
  · exact e ▸ h.queued
  · rw [e]
    exact zero_le _

lemma Fits.of_data {data : List Segment} (h : Fits v) : Fits { v with data := data } :=
  ⟨h.queued, h.outstanding⟩

/-! ## acknowledgements -/

lemma takeWindow_tunes (h : Tunes t.pace t'.pace) (s : Segment) :
    (t'.takeWindow s).sendWindow = (t.takeWindow s).sendWindow := by
  unfold takeWindow
  rw [show t'.windowSequence = t.windowSequence from h.sequence,
    show t'.windowAck = t.windowAck from h.ack]
  split
  · rfl
  · exact h.window

lemma heard_window (env : Env) (t : Tcb) (s : Segment) (duplicate : Bool) :
    (t.heard env s duplicate).sendWindow = (t.takeWindow s).sendWindow := by
  have hacked : Tunes t.pace (t.acked env s).pace := by
    unfold acked
    split
    · exact (tunes_dropped env t _).trans (takeAck_resent env t _).tunes
    · exact ⟨rfl, rfl, rfl, id⟩
  unfold heard
  split
  · exact takeWindow_tunes (hacked.trans (onDuplicate_resent env _).tunes) s
  · exact takeWindow_tunes hacked s

/-- everything outstanding is acknowledged, something is left to send, and the window is closed -/
structure Stuck (t : Tcb) (s : Segment) : Prop where
  newly : t.acknowledges s.acknowledgement = true
  all : seqLe t.sendNext s.acknowledgement = true
  left : (s.acknowledgement - t.sendUnacknowledged).toNat < t.pending.length
  shut : (t.takeWindow s).sendWindow = 0

instance (t : Tcb) (s : Segment) : Decidable (Stuck t s) :=
  decidable_of_iff (t.acknowledges s.acknowledgement = true ∧
      seqLe t.sendNext s.acknowledgement = true ∧
      (s.acknowledgement - t.sendUnacknowledged).toNat < t.pending.length ∧
      (t.takeWindow s).sendWindow = 0)
    ⟨fun h => ⟨h.1, h.2.1, h.2.2.1, h.2.2.2⟩, fun h => ⟨h.newly, h.all, h.left, h.shut⟩⟩

lemma Ready.dropped (env : Env) (hp : Paced t.pace) (hf : FinBehind t.send)
    (h : Flight iss W old t.send u o d) (ha : t.acknowledges s.acknowledgement = true)
    (hst : ¬Stuck t s) : Ready (t.takeWindow s).sendWindow (t.dropped env s.acknowledgement) ∧
      Fits (t.dropped env s.acknowledgement).send := by
  obtain ⟨e, hack, hpos, he⟩ := h.acknowledged ha
  have hview := send_dropped env t s.acknowledgement
  have hpaced := (tunes_dropped env t s.acknowledgement).paced hp
  have hb : d ≤ 65536 + 2 := h.bound
  have ho := h.order
  have hnext : t.sendNext = seqAt t.iss (u + o) := h.next
  have hun : t.sendUnacknowledged = seqAt t.iss u := h.una
  have hun' : (t.dropped env s.acknowledgement).sendUnacknowledged = seqAt t.iss (u + e) :=
    (congrArg SendView.sendUnacknowledged hview).trans hack
  have hnext' : (t.dropped env s.acknowledgement).sendNext = seqAt t.iss (u + max o e) := by
    refine (congrArg SendView.sendNext hview).trans ?_
    show (if seqLt t.sendNext s.acknowledgement then s.acknowledgement else t.sendNext) = _
    rw [hnext, hack]
    refine (seqAt_max t.iss (by omega) (by omega)).trans ?_
    congr 1
    omega
  have hrestart : ∀ w : Tcb, 0 < w.rto → w.sendUnacknowledged ≠ w.sendNext →
      (w.restartAfterAck env).retransmitAt ≠ 0 := by
    intro w hrto hne
    show (if w.sendUnacknowledged = w.sendNext then 0 else env.ticks + w.rto) ≠ 0
    rw [if_neg hne]
    exact Nat.ne_of_gt (Nat.add_pos_right _ hrto)
  have htimer : (t.dropped env s.acknowledgement).sendUnacknowledged ≠
      (t.dropped env s.acknowledgement).sendNext →
      (t.dropped env s.acknowledgement).retransmitAt ≠ 0 := hrestart _ hpaced.rto
  refine ⟨⟨⟨hpaced, fun f hfs hfa => ?_, fun _ => htimer⟩, fun _ hat hw => ?_⟩, ?_⟩
  · rw [hview] at hfs hfa
    obtain ⟨hfa, hcov⟩ := Bool.or_eq_false_iff.1 hfa
    rw [hack] at hcov
    obtain ⟨m, rfl, -, hm⟩ := (h.finCovered he).2 hcov hfa f hfs
    have hbehind := hf.lt hfs hfa
    rw [hnext, hun, seqAt_dist _ (by omega) (by omega), seqAt_dist _ (by omega) (by omega)] at hbehind
    show (seqAt t.iss (u + e + m) - (t.dropped env s.acknowledgement).sendUnacknowledged).toNat <
      ((t.dropped env s.acknowledgement).sendNext -
        (t.dropped env s.acknowledgement).sendUnacknowledged).toNat
    rw [hun', hnext', seqAt_dist _ (by omega) (by omega), seqAt_dist _ (by omega) (by omega)]
    omega
  · have heq : seqAt t.iss (u + e) = seqAt t.iss (u + max o e) := by
      by_contra hne
      exact htimer (by rwa [hun', hnext']) hat
    have hoe := seqAt_inj t.iss (by omega) (by omega) heq
    by_contra hne
    have hleft : 0 < (t.ackedView s.acknowledgement).pending.length := by
      rw [← hview]
      exact List.length_pos_iff.2 hne
    rw [hack, h.acked_length he] at hleft
    refine hst ⟨ha, ?_, ?_, hw⟩
    · rw [hnext, hack]
      exact (seqAt_le t.iss (by omega) (by omega)).trans (decide_eq_true (by omega))
    · rw [hack, hun, seqAt_dist _ (by omega) (by omega)]
      omega
  · rw [hview, hack]
    exact (h.acked hpos he).fits

lemma Ready.resent (h : Ready window t) (hr : Resent env t t') : Ready window t' := by
  obtain ⟨data, hview⟩ := hr.send
  have hstate : t'.state = t.state := congrArg SendView.state hview
  have htimer := hr.timer h.paced
  refine ⟨⟨hr.tunes.paced h.paced, by rw [hview]; exact h.behind, fun hc hne => ?_⟩, fun hc hat hw => ?_⟩
  · rw [show t'.sendUnacknowledged = t.sendUnacknowledged from
        congrArg SendView.sendUnacknowledged hview,
      show t'.sendNext = t.sendNext from congrArg SendView.sendNext hview] at hne
    rcases htimer with e | e
    · rw [e]
      exact h.armed (hstate ▸ hc) hne
    · exact e
  · rw [show t'.pending = t.pending from congrArg SendView.pending hview]
    rcases htimer with e | e
    · exact h.way (hstate ▸ hc) (e ▸ hat) hw
    · exact absurd hat e

lemma Ready.takeWindow (h : Ready window t) (s : Segment) : Ready window (t.takeWindow s) := by
  have hview := Tcb.send_takeWindow t s
  have hat : (t.takeWindow s).retransmitAt = t.retransmitAt := by
    unfold Tcb.takeWindow
    split <;> rfl
  refine ⟨⟨h.paced.takeWindow s, by rw [hview]; exact h.behind, ?_⟩, ?_⟩
  · rw [hat, show (t.takeWindow s).state = t.state from congrArg SendView.state hview,
      show (t.takeWindow s).sendUnacknowledged = t.sendUnacknowledged from
        congrArg SendView.sendUnacknowledged hview,
      show (t.takeWindow s).sendNext = t.sendNext from congrArg SendView.sendNext hview]
    exact h.armed
  · rw [hat, show (t.takeWindow s).state = t.state from congrArg SendView.state hview,
      show (t.takeWindow s).pending = t.pending from congrArg SendView.pending hview]
    exact h.way

section
variable (h : Timed t)
include h

lemma Timed.way (hc : t.state.canOutput = true) (hat : t.retransmitAt = 0) : t.pending = [] := by
  by_contra hne
  exact h.waits hc (.inl hne) hat

section
variable (hs : Sends iss W old t.send u o d)
include hs

lemma Timed.heard {w : Tcb} (hw : Heard t s w) (hst : ¬Stuck t s) (duplicate : Bool) :
    Timed ((w.readied env s duplicate).output env) := by
  have hready : Ready (w.takeWindow s).sendWindow (w.heard env s duplicate) ∧
      Fits (w.heard env s duplicate).send := by
    refine heard_rule (P := fun x => Ready (w.takeWindow s).sendWindow x ∧ Fits x.send) (fun ha => ?_)
      (fun ha => ?_) (fun h hr => ⟨h.1.resent hr, ?_⟩) (fun h => ⟨h.1.takeWindow s, ?_⟩)
    · cases hw with
      | past => exact Ready.dropped env h.paced h.behind hs.toFlight ha hst
      | opened hstate =>
        have htunes : Tunes t.pace t.completeHandshake.pace := ⟨rfl, rfl, rfl, id⟩
        have hwindow := takeWindow_tunes htunes s
        exact Ready.dropped (t := t.completeHandshake) env h.paced h.behind
          (hs.completeHandshake hstate) ha fun hstuck =>
            hst ⟨hstuck.newly, hstuck.all, hstuck.left, hwindow.symm.trans hstuck.shut⟩
    · cases hw with
      | past => exact ⟨⟨h.toArmed, fun hc hat _ => h.way hc hat⟩, hs.toFlight.fits⟩
      | opened hstate hlt hle =>
        obtain ⟨-, ha'⟩ := (hs.opening (.inr hstate)).acknowledged hs.toFlight hlt hle
        exact absurd (ha'.symm.trans ha) (by simp)
    · obtain ⟨data, hview⟩ := hr.send
      rw [hview]
      exact h.2.of_data
    · rw [send_takeWindow]
      exact h.2
  obtain ⟨hm, -, -⟩ := onAcknowledgement_stages env w s duplicate
  have hwindow : (w.readied env s duplicate).sendWindow = (w.takeWindow s).sendWindow :=
    (congrArg PaceView.sendWindow hm.pace).trans (heard_window env w s duplicate)
  obtain ⟨harmed, hwaits⟩ := Ready.output env (hwindow ▸ hready.1.moves hm) (hready.2.moves hm)
  exact ⟨harmed, hwaits⟩

lemma Timed.established (hstate : t.state = .SynSent) (hlt : seqLt t.iss s.acknowledgement = true)
    (hle : seqLe s.acknowledgement t.sendNext = true) :
    Timed ((t.established env s).output env) := by
  have w := hs.opening (.inl hstate)
  have hview := send_established env t s
  have hopen : Sends iss W old (t.established env s).send 1 0 0 := (hs.established hstate hlt hle).2
  have hp : (t.established env s).pending = [] := (congrArg SendView.pending hview).trans w.pending
  have hq : (t.established env s).finQueued = false :=
    (congrArg SendView.finQueued hview).trans w.notQueued
  rw [output_nothing hp hq]
  refine ⟨⟨h.paced.established s, fun f hf => ?_,
    fun _ hne => absurd (hopen.una.trans hopen.next.symm) hne⟩, fun _ hw => ?_⟩
  · cases ((congrArg SendView.finSequence hview).trans w.noFin).symm.trans hf
  · rcases hw with hw | hw
    · exact absurd hp hw
    · cases hq.symm.trans hw.1

omit hs in
lemma Timed.crossed (s : Segment) : Timed (t.crossed env s) := by
  have hview := send_crossed env t s
  refine Timed.of_idle (h.paced.crossed s) (by rw [hview]; exact h.behind) ?_
  rw [show (t.crossed env s).state = .SynReceived from congrArg SendView.state hview]
  rfl

/-! ## the other calls -/

omit hs h in
lemma Timed.retransmit (hp : Paced t.pace) (hs : Sends iss W old t.send u o d)
    (hf : FinBehind t.send) (hat : t.retransmitAt ≠ 0) : Timed (t.retransmit env) := by
  have hrun : ∀ w : Tcb, Paced w.pace → FinBehind w.send → w.retransmitAt ≠ 0 → Timed w :=
    fun w hp hf hat => ⟨⟨hp, hf, fun _ _ => hat⟩, fun _ _ => hat⟩
  have hpace : Paced t.goBack.pace := hp
  rcases retransmit_cases env t with ⟨-, hm⟩ | ⟨-, e | ⟨byte, rest, -, e⟩⟩
  · exact (hrun t hp hf hat).moves hm
  · rw [e]
    refine hrun _ (by rw [pace_output]; exact hpace) (FinBehind.output (fun _ hfs => by cases hfs) ?_) ?_
    · exact ⟨hs.toFlight.fits.queued, by
        show (t.sendUnacknowledged - t.sendUnacknowledged).toNat ≤ _
        rw [BitVec.sub_self]
        exact zero_le _⟩
    · rcases output_ne env hpace with e | e
      · rw [e]
        exact hat
      · exact e
  · rw [e]
    obtain ⟨new, hview, -⟩ := send_sendThrough env t.goBack ACK t.goBack.sendNext
      (t.goBack.sendNext + 1) [byte]
    refine hrun _ (by rw [probe, pace_sentThrough, pace_sendSegment]; exact hpace) ?_ ?_
    · rw [probe, hview]
      intro f hfs
      cases hfs
    · show (sendSegment env t.goBack _ _ _ _).retransmitAt ≠ 0
      unfold sendSegment
      split <;> exact hat

lemma Timed.resent {r : Tcb} (hr : r.send = t.send) (ho : r.out = t.out) (now : Nat) :
    Timed ((r.backOff now).retransmit env) := by
  have hpaced : Paced (r.backOff now).pace :=
    Paced.backOff (by rw [show r.pace = t.pace from congrArg OutView.pace ho]; exact h.paced) now
  have hsend : (r.backOff now).send = t.send := (send_backOff r now).trans hr
  have hrto : (r.backOff now).retransmitAt = now + min (r.rto * 2) MAX_RTO := rfl
  refine Timed.retransmit hpaced (hsend ▸ hs) (hsend ▸ h.behind) ?_
  rw [hrto]
  exact Nat.ne_of_gt (Nat.add_pos_right _ hpaced.rto)

lemma Timed.shut {state : State} (hst : Shuts t.state state) :
    Timed ({ t with finQueued := true, state := state }.output env) := by
  have hfits : Fits ({ t with finQueued := true, state := state } : Tcb).send :=
    ⟨hs.toFlight.fits.queued, hs.toFlight.fits.outstanding⟩
  have hfin : t.state.canOutput = true →
      Timed ({ t with finQueued := true, state := state }.output env) := by
    intro hc
    have hr : Ready t.sendWindow { t with finQueued := true, state := state } :=
      ⟨⟨h.paced, h.behind, fun _ => h.armed hc⟩, fun _ hat _ => h.way hc hat⟩
    obtain ⟨harmed, hwaits⟩ := Ready.output env hr hfits
    exact ⟨harmed, hwaits⟩
  cases hstate : t.state <;> rw [hstate] at hst <;> cases hst
  · have w := hs.opening (.inr hstate)
    have hat := output_fin (t := { t with finQueued := true, state := .FinWait1 }) env
      h.paced rfl w.pending rfl w.noFin
    refine ⟨⟨?_, FinBehind.output (t := { t with finQueued := true, state := .FinWait1 }) h.behind
      hfits, fun _ _ => hat⟩, fun _ _ => hat⟩
    rw [pace_output]
    exact h.paced
  · exact hfin (by rw [hstate]; rfl)
  · exact hfin (by rw [hstate]; rfl)

lemma Timed.queued (hl : t.state = .Established ∨ t.state = .CloseWait) {bytes : List Byte}
    (hroom : t.pending.length + bytes.length ≤ SEND_BUFFER)
    (hw : t.sendWindow = 0 → t.sendUnacknowledged = t.sendNext → bytes = []) :
    Timed ((t.enqueue bytes).output env) := by
  have hc : t.state.canOutput = true := by
    rcases hl with hl | hl <;> rw [hl] <;> rfl
  have hr : Ready t.sendWindow (t.enqueue bytes) := by
    refine ⟨⟨h.paced, h.behind, fun _ => h.armed hc⟩, fun _ hat hw0 => ?_⟩
    have hnext : t.sendUnacknowledged = t.sendNext := by
      by_contra hne
      exact h.armed hc hne hat
    show t.pending ++ bytes = []
    rw [h.way hc hat, hw hw0 hnext]
    rfl
  have hfits : Fits (t.enqueue bytes).send :=
    ⟨List.length_append.le.trans hroom, hs.toFlight.fits.outstanding⟩
  obtain ⟨harmed, hwaits⟩ := Ready.output (t := t.enqueue bytes) env hr hfits
  exact ⟨harmed, hwaits⟩

end
end

/-! ## runs -/

def Session.Open (s : Session) : Call → Prop
  | .segment _ segment => s.tcb.hears segment = true → ¬Stuck s.tcb segment
  | .write _ buf => s.tcb.sendWindow = 0 → s.tcb.sendUnacknowledged = s.tcb.sendNext → buf = []
  | _ => True

instance (s : Session) : DecidablePred s.Open := fun c => by
  cases c <;> unfold Session.Open <;> infer_instance

lemma Timed.step {s : Session} (h : Timed s.tcb) (hs : Sends iss W old s.tcb.send u o d) {c : Call}
    (hc : s.Open c) : Timed (s.step c).tcb := by
  obtain ⟨bytes, he, -⟩ := s.effect c
  generalize (s.step c).tcb = t' at he
  cases he with
  | moves hm => exact h.moves hm
  | ends hends => exact Timed.ends h.paced h.behind hends
  | heard hh hw => exact h.heard hs hw (hc hh) _
  | established hstate hlt hle => exact h.established hs hstate hlt hle
  | crossed => exact h.crossed _
  | resent hr ho => exact h.resent hs hr ho _
  | queued hl _ hroom hn =>
    refine h.queued hs hl (by rw [List.length_take, min_eq_left hn]; exact hroom) fun hw hnext => ?_
    rw [hc hw hnext, List.take_nil]
  | shut hst => exact h.shut hs hst

lemma Opened.timed (h : Opened t) (hclear : SendClear t) : Timed t := by
  obtain ⟨state, hstate, hview⟩ := h.send_eq hclear
  refine Timed.of_idle h.paced ?_ ?_
  · rw [hview]
    intro fin hfin
    cases hfin
  · rw [show t.state = state from congrArg SendView.state hview]
    rcases hstate with rfl | rfl <;> rfl

/-- **the timer runs** whenever data is queued, or a FIN not acknowledged, where no call leaves
something queued with nothing outstanding and the window closed, and the Tcb carries nothing of a
connection before -/
theorem timer_runs (t : Tcb) (ht : Opened t) (hclear : SendClear t) (calls : List Call)
    (h : Run.Allowed Session.step Session.Open (.start t) calls) :
    let s := Run.run Session.step (.start t) calls
    s.tcb.state.canOutput = true →
      s.tcb.pending ≠ [] ∨ (s.tcb.finQueued = true ∧ s.tcb.finAcknowledged = false) →
        s.tcb.retransmitAt ≠ 0 := by
  have hinv := h.keeps (I := fun s => Timed s.tcb ∧
      ∃ u o d, Sends t.iss s.written s.tcb.send.data s.tcb.send u o d)
    (fun s c hs hc => by
      obtain ⟨htimed, u, o, d, hsends⟩ := hs
      obtain ⟨u', o', d', h'⟩ := hsends.step c
      exact ⟨htimed.step hsends hc, u', o', d', h'.rebase⟩)
    ⟨ht.timed hclear, 0, 1, 1, ht.sends hclear⟩
  exact hinv.1.waits

/-! ## a window that opens and one that does not -/

def asking : Tcb := (new 0).openActive ⟨1, 0, true⟩ 100

lemma asking_clear : SendClear asking := ⟨rfl, rfl, rfl, rfl⟩

def answered (window : BitVec 16) : Call :=
  .segment ⟨2, 0, true⟩ ⟨500, 101, SYN ||| ACK, window, none, []⟩

/-- three bytes are on the way, and the timer runs -/
theorem timer_runs_written :
    let s := Run.run Session.step (.start asking) [answered 1000, .write ⟨3, 0, true⟩ [1, 2, 3]]
    s.tcb.pending ≠ [] ∧ s.tcb.retransmitAt ≠ 0 :=
  ⟨by decide +kernel, timer_runs asking (.active _ _ _) asking_clear [answered 1000,
    .write ⟨3, 0, true⟩ [1, 2, 3]] (by decide +kernel) (by decide +kernel) (.inl (by decide +kernel))⟩

/-- the other end answers with its window closed: what is written next is queued with no timer -/
theorem timer_missing : ∃ (t : Tcb) (calls : List Call), Opened t ∧
    let s := Run.run Session.step (.start t) calls
    s.tcb.state.canOutput = true ∧ s.tcb.pending ≠ [] ∧ s.tcb.retransmitAt = 0 :=
  ⟨asking, [answered 0, .write ⟨3, 0, true⟩ [1, 2, 3]], .active _ _ _, by decide +kernel⟩

end ClaudeOs.Net
