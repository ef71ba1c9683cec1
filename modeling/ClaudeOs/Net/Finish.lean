import ClaudeOs.Net.Timers

/-!
# The number of our FIN

The FIN goes behind everything written, so its number is fixed once the write side is shut.  The
connection keeps it in `fin_sequence` when it is sent and looks for it there when an acknowledgement
arrives; a timeout clears it, and the next `output` that gets past the data sets it again.

* `finNumber iss W`  the number of the FIN behind the bytes `W`;
* `Tcb.fins`  the numbers of the FINs on the wire;
* `Finish iss W v b o d`  the FIN is still to be acknowledged: `b` is `1` while the SYN is
  outstanding too, `o` and `d` are the distances from `send_unacknowledged` to `send_next` and
  `send_high`;
* `Finished v`  it has been acknowledged, and with it everything sent;
* `Finishing iss W t`  one or the other holds, or the connection is closed;
* `Session.Known`  the acknowledgements and timeouts that do not meet a FIN whose number has been
  forgotten;
* `fin_stays`  in every run of those, every FIN has the one number, and what acknowledges it is seen
  to.
-/

namespace ClaudeOs.Net
open Serial List Nat SendView

/-- the number of the FIN behind the bytes `W` -/
def finNumber (iss : Seq) (W : List Byte) : Seq := seqAt (iss + 1) W.length

def Tcb.fins (t : Tcb) : List Seq := (t.wire.filter fun s => s.has FIN).map Segment.sequence

variable {iss : Seq} {W : List Byte} {old : List Segment} {v : SendView} {b o d u : Nat} {t t' : Tcb}
  {env : Env}

/-! ## the FINs on the wire -/

lemma mem_fins {f : Seq} : f ∈ t.fins ↔ ∃ s ∈ t.wire, s.has FIN = true ∧ s.sequence = f := by
  simp only [Tcb.fins, mem_map, mem_filter, and_assoc]

lemma fins_of_wire (e : t'.wire = t.wire) : t'.fins = t.fins := by
  unfold Tcb.fins
  rw [e]

lemma fins_of_adds (h : Adds t t') : t'.fins = t.fins := by
  obtain ⟨new, e, hn⟩ := h
  have hnone : new.filter (fun s => s.has FIN) = [] :=
    filter_eq_nil_iff.2 fun s hs => by simp [(hn s hs).2]
  unfold Tcb.fins
  rw [e, filter_append, hnone, append_nil]

variable {f : Flags} {x a : Seq} {data : List Segment} {e : Nat} {s : Segment}

lemma fins_sendSegment (env : Env) (t : Tcb) (hf : f &&& FIN = 0) (s : Seq) (p : List Byte)
    (m : Bool) : (t.sendSegment env f s p m).fins = t.fins := by
  have hno : (t.segmentOf f s p m).has FIN = false := by simp [Segment.has, Tcb.segmentOf, hf]
  unfold Tcb.sendSegment
  split
  · simp [Tcb.fins, hno]
  · rfl

lemma mem_fins_sendSegment {s : Seq} {p : List Byte} {m : Bool}
    (h : x ∈ (t.sendSegment env f s p m).fins) : x ∈ t.fins ∨ x = s := by
  unfold Tcb.sendSegment at h
  split at h
  · obtain ⟨y, hy, hfin, rfl⟩ := mem_fins.1 h
    rcases mem_append.1 hy with hy | hy
    · exact .inl (mem_fins.2 ⟨y, hy, hfin, rfl⟩)
    · obtain rfl := mem_singleton.1 hy
      exact .inr rfl
  · exact .inl h

lemma fins_armRetransmit (env : Env) (t : Tcb) : (t.armRetransmit env).fins = t.fins := by
  unfold Tcb.armRetransmit
  split <;> rfl

lemma fins_timeSegment (env : Env) (t : Tcb) (s : Seq) : (t.timeSegment env s).fins = t.fins := by
  unfold Tcb.timeSegment
  split <;> rfl

lemma fins_sendChunk (env : Env) (t : Tcb) (o n : Nat) : (t.sendChunk env o n).fins = t.fins := by
  have hflags : ∀ c : Bool, (ACK ||| if c then PSH else 0) &&& FIN = 0 := by decide
  have hthrough : ∀ (w : Tcb) (x : Seq), (w.sentThrough x).fins = w.fins := fun _ _ => rfl
  unfold Tcb.sendChunk
  simp only [fins_armRetransmit]
  split
  · rw [fins_timeSegment, hthrough, fins_sendSegment env t (hflags _)]
  · rw [hthrough, fins_sendSegment env t (hflags _)]

lemma mem_fins_sendFin (h : x ∈ (t.sendFin env).fins) : x ∈ t.fins ∨ x = t.sendNext := by
  unfold Tcb.sendFin at h
  simp only [fins_armRetransmit] at h
  exact mem_fins_sendSegment (t := { t with finSequence := some t.sendNext }) h

lemma mem_fins_retransmitHead (h : x ∈ (t.retransmitHead env).fins) :
    x ∈ t.fins ∨ (t.finSequence = some x ∧ t.finAcknowledged = false) := by
  have hflags : ∀ c : Bool, (ACK ||| if c then PSH else 0) &&& FIN = 0 := by decide
  have hrestart : ∀ w : Tcb, (w.restartTimer env).fins = w.fins := fun _ => rfl
  unfold Tcb.retransmitHead at h
  simp only at h
  split at h
  · split at h
    · rename_i f hf
      split at h
      · rename_i hack
        rw [hrestart] at h
        rcases mem_fins_sendSegment h with h | rfl
        · exact .inl h
        · exact .inr ⟨hf, by simpa using hack⟩
      · exact .inl h
    · exact .inl h
  · rw [hrestart, fins_sendSegment env t (hflags _)] at h
    exact .inl h

lemma mem_fins_resent (h : Resent env t t') (hx : x ∈ t'.fins) :
    x ∈ t.fins ∨ (t.finSequence = some x ∧ t.finAcknowledged = false) := by
  cases h with
  | tuned h => exact .inl (fins_of_wire h.wire ▸ hx)
  | head h h' =>
    rw [fins_of_wire h'.wire] at hx
    rcases mem_fins_retransmitHead hx with hx | ⟨hf, ha⟩
    · exact .inl (fins_of_wire h.wire ▸ hx)
    · exact .inr ⟨(congrArg finSequence h.send).symm.trans hf,
        (congrArg finAcknowledged h.send).symm.trans ha⟩

/-! ## before the FIN is acknowledged -/

/-- `b + pending` numbers come before the FIN, which is still to be acknowledged -/
structure Finish (iss : Seq) (W : List Byte) (v : SendView) (b o d : Nat) : Prop where
  ahead : finNumber iss W = seqAt v.sendUnacknowledged (b + v.pending.length)
  next : v.sendNext = seqAt v.sendUnacknowledged o
  high : v.sendHigh = seqAt v.sendUnacknowledged d
  room : v.pending.length ≤ SEND_BUFFER
  syn : b = 0 ∨ (b = 1 ∧ v.pending = [] ∧ v.sendUnacknowledged = iss ∧ W = [])
  started : b ≤ o
  order : o ≤ d
  bound : d ≤ b + v.pending.length + 1
  unsent : v.finSequence = none → o ≤ b + v.pending.length
  sent : ∀ f, v.finSequence = some f → f = finNumber iss W ∧ o = b + v.pending.length + 1
  unqueued : v.finQueued = false → v.finSequence = none ∧ d ≤ b + v.pending.length
  unacknowledged : v.finAcknowledged = false
  waiting : v.state ≠ .FinWait2

structure Finished (v : SendView) : Prop where
  acknowledged : v.finAcknowledged = true
  queued : v.finQueued = true
  all : v.sendUnacknowledged = v.sendHigh
  nothing : v.pending = []

namespace Finish
section
variable (h : Finish iss W v b o d)
include h

lemma syn_le : b ≤ 1 := by
  rcases h.syn with e | e <;> omega

lemma queued {f : Seq} (hf : v.finSequence = some f) : v.finQueued = true := by
  by_contra hq
  have hnone := (h.unqueued (Bool.eq_false_iff.2 hq)).1
  rw [hf] at hnone
  cases hnone

lemma of_data : Finish iss W { v with data := data } b o d := { h with }

lemma setState {s : State} (hs : s ≠ .FinWait2) : Finish iss W { v with state := s } b o d :=
  { h with waiting := hs }

lemma queue {s : State} (hs : s ≠ .FinWait2) :
    Finish iss W { v with finQueued := true, state := s } b o d :=
  { h with unqueued := nofun, waiting := hs }

end

/-! ## output -/

lemma high_raised (h : Finish iss W v b o d) (he : e ≤ SEND_BUFFER + 2) :
    (if seqLt v.sendHigh (seqAt v.sendUnacknowledged e) then seqAt v.sendUnacknowledged e
      else v.sendHigh) = seqAt v.sendUnacknowledged (max d e) := by
  have hroom : v.pending.length ≤ 65536 := h.room
  have hb := h.bound
  have hs := h.syn_le
  have he : e ≤ 65536 + 2 := he
  rw [h.high]
  exact seqAt_max _ (by omega) (by omega)

lemma sendData (h : Finish iss W v 0 o d) (hnone : v.finSequence = none) {n : Nat}
    (hroom : o + n ≤ v.pending.length) : Finish iss W { v with
      data := data
      sendNext := v.sendNext + BitVec.ofNat 32 n
      sendHigh := if seqLt v.sendHigh (v.sendNext + BitVec.ofNat 32 n)
        then v.sendNext + BitVec.ofNat 32 n else v.sendHigh } 0 (o + n) (max d (o + n)) := by
  have hlen := h.room
  have hb := h.bound
  have hnext : v.sendNext + BitVec.ofNat 32 n = seqAt v.sendUnacknowledged (o + n) := by
    rw [h.next, seqAt_add]
  rw [hnext, h.high_raised (by omega)]
  refine ⟨h.ahead, rfl, rfl, h.room, h.syn, zero_le _, le_max_right _ _, ?_, fun _ => ?_,
    fun f hf => ?_, fun hq => ?_, h.unacknowledged, h.waiting⟩
  · show max d (o + n) ≤ 0 + v.pending.length + 1
    omega
  · exact le_trans hroom (le_add_left _ _)
  · exact nomatch hnone.symm.trans hf
  · have := (h.unqueued hq).2
    refine ⟨hnone, ?_⟩
    show max d (o + n) ≤ 0 + v.pending.length
    omega

lemma next_eq (h : Finish iss W v b o d) (hall : v.pending.length ≤ o)
    (hnone : v.finSequence = none) : o = b + v.pending.length ∧ v.sendNext = finNumber iss W := by
  have ho : o = b + v.pending.length := by
    have h1 := h.unsent hnone
    have h2 := h.started
    rcases h.syn with rfl | ⟨rfl, hp, -, -⟩
    · omega
    · rw [hp] at h1 ⊢
      simp only [length_nil] at h1 ⊢
      omega
  exact ⟨ho, by rw [h.next, h.ahead, ho]⟩

section
variable (h : Finish iss W t.send b o d)
include h

lemma sizes : t.pending.length ≤ 65536 ∧ d ≤ b + t.pending.length + 1 ∧ b ≤ 1 :=
  ⟨h.room, h.bound, h.syn_le⟩

lemma sendFin (hall : t.pending.length ≤ o)
    (hq : t.finQueued = true) (hnone : t.finSequence = none) :
    Finish iss W (t.sendFin env).send b (o + 1) (max d (o + 1)) := by
  obtain ⟨ho, hnext⟩ := h.next_eq hall hnone
  have hroom : t.send.pending.length ≤ SEND_BUFFER := h.room
  have hb := h.bound
  have hs := h.syn_le
  have hsucc : t.sendNext + 1 = seqAt t.sendUnacknowledged (o + 1) := by
    rw [show t.sendNext = seqAt t.sendUnacknowledged o from h.next]
    exact seqAt_add _ o 1
  have hraised : (if seqLt t.sendHigh (seqAt t.sendUnacknowledged (o + 1))
      then seqAt t.sendUnacknowledged (o + 1) else t.sendHigh) =
      seqAt t.sendUnacknowledged (max d (o + 1)) := h.high_raised (by omega)
  rw [send_sendFin, hsucc, hraised]
  refine ⟨h.ahead, rfl, rfl, h.room, h.syn, ?_, le_max_right _ _, ?_, nofun, fun f hf => ?_,
    fun hq' => ?_, h.unacknowledged, h.waiting⟩
  · exact le_trans h.started (le_succ o)
  · show max d (o + 1) ≤ b + t.send.pending.length + 1
    omega
  · obtain rfl := Option.some.inj hf
    exact ⟨hnext, congrArg (· + 1) ho⟩
  · rw [show t.send.finQueued = true from hq] at hq'
    cases hq'

lemma offset : t.offset = o := by
  obtain ⟨hroom, hb, hs⟩ := h.sizes
  have ho := h.order
  rw [Tcb.offset, show t.sendNext = seqAt t.sendUnacknowledged o from h.next]
  exact seqAt_dist_zero _ (by omega)

lemma turns {limit : Seq} (ht : Outputs env limit t t') :
    (∃ o' d', Finish iss W t'.send b o' d') ∧
      ∀ x ∈ t'.fins, x ∈ t.fins ∨ (x = finNumber iss W ∧ t.finQueued = true) := by
  induction ht generalizing o d with
  | done => exact ⟨⟨o, d, h⟩, fun _ hx => .inl hx⟩
  | @chunk t _ n hn hleft _ _ _ ih =>
    rw [h.offset] at hleft ih
    -- with something left to send, the SYN is acknowledged and the FIN is not out
    have hb0 : b = 0 := by
      rcases h.syn with e | ⟨-, hp, -, -⟩
      · exact e
      · rw [show t.pending = [] from hp, length_nil] at hleft
        omega
    subst hb0
    have hnone : t.send.finSequence = none := by
      cases hf : t.send.finSequence with
      | none => rfl
      | some f =>
        have he : o = 0 + t.pending.length + 1 := (h.sent f hf).2
        omega
    obtain ⟨new, hview, -⟩ := send_sendChunk env t o n
    obtain ⟨hfinish, hfins⟩ := ih (by rw [hview]; exact h.sendData hnone hleft)
    rw [fins_sendChunk, show (t.sendChunk env o n).finQueued = t.finQueued from
      congrArg finQueued hview] at hfins
    exact ⟨hfinish, hfins⟩
  | fin hall hq hnone =>
    rw [h.offset] at hall
    refine ⟨⟨_, _, h.sendFin hall hq hnone⟩, fun x hx => ?_⟩
    rcases mem_fins_sendFin hx with hx | rfl
    · exact .inl hx
    · exact .inr ⟨(h.next_eq hall hnone).2, hq⟩

lemma output (env : Env) : (∃ o' d', Finish iss W (t.output env).send b o' d') ∧
      ∀ x ∈ (t.output env).fins, x ∈ t.fins ∨ (x = finNumber iss W ∧ t.finQueued = true) := by
  rcases output_turns env t with ⟨-, e⟩ | ⟨-, ht⟩
  · rw [e]
    exact ⟨⟨o, d, h⟩, fun _ hx => .inl hx⟩
  · exact h.turns ht

end

/-! ## acknowledgements and timeouts -/

section
variable (h : Finish iss W t.send b o d)
include h

lemma acknowledged (ha : t.acknowledges a = true) :
    ∃ e, a = seqAt t.sendUnacknowledged e ∧ 0 < e ∧ e ≤ d := by
  obtain ⟨hroom, hb, hs⟩ := h.sizes
  simp only [Tcb.acknowledges, Bool.and_eq_true] at ha
  obtain ⟨hgt, hle⟩ := ha
  rw [← seqAt_zero t.sendUnacknowledged] at hgt
  obtain ⟨e, rfl, hpos, hlt⟩ := exists_seqAt_of_gt t.sendUnacknowledged a hgt
  rw [zero_add] at hle ⊢
  rw [show t.sendHigh = seqAt t.sendUnacknowledged d from h.high, seqLe,
    seqAt_le _ (by omega) (by omega)] at hle
  exact ⟨e, rfl, hpos, of_decide_eq_true hle⟩

lemma past (he : e ≤ d) :
    seqGt (seqAt t.sendUnacknowledged e) (finNumber iss W) = decide (b + t.pending.length < e) ∧
    seqLt (finNumber iss W) (seqAt t.sendUnacknowledged e) = decide (b + t.pending.length < e) := by
  obtain ⟨hroom, hb, hs⟩ := h.sizes
  rw [show finNumber iss W = seqAt t.sendUnacknowledged (b + t.pending.length) from h.ahead]
  exact ⟨seqAt_gt _ (by omega) (by omega), seqAt_lt _ (by omega) (by omega)⟩

lemma covered (he : e ≤ d) (hknown : b + t.pending.length < e → t.finSequence ≠ none) :
    t.finCovered (seqAt t.sendUnacknowledged e) = decide (b + t.pending.length < e) ∧
    t.ackedBytes (seqAt t.sendUnacknowledged e) =
      if b + t.pending.length < e then e - 1 else e := by
  obtain ⟨hroom, hb, hs⟩ := h.sizes
  have hcovered : t.finCovered (seqAt t.sendUnacknowledged e) =
      decide (b + t.pending.length < e) := by
    unfold Tcb.finCovered
    cases hf : t.finSequence with
    | none => exact (decide_eq_false fun hc => hknown hc hf).symm
    | some f =>
      obtain ⟨rfl, -⟩ := h.sent f hf
      simp only [(h.past he).2, show t.finAcknowledged = false from h.unacknowledged, Bool.not_false,
        Bool.and_true]
  have hdist := seqAt_dist_zero t.sendUnacknowledged (show e < 2 ^ 32 by omega)
  refine ⟨hcovered, ?_⟩
  unfold Tcb.ackedBytes
  simp only [hcovered, hdist, decide_eq_true_eq]

lemma acked_fin (he : e ≤ d) (hpast : b + t.pending.length < e) (hknown : t.finSequence ≠ none) :
    Finished (t.ackedView (seqAt t.sendUnacknowledged e)) := by
  have hb : d ≤ b + t.pending.length + 1 := h.bound
  obtain ⟨hcovered, hbytes⟩ := h.covered he fun _ => hknown
  rw [decide_eq_true hpast] at hcovered
  rw [if_pos hpast] at hbytes
  obtain ⟨f, hf⟩ := Option.ne_none_iff_exists'.1 hknown
  refine ⟨?_, h.queued hf, ?_, ?_⟩
  · show (t.finAcknowledged || t.finCovered _) = true
    rw [hcovered, Bool.or_true]
  · show seqAt t.sendUnacknowledged e = t.sendHigh
    rw [show t.sendHigh = seqAt t.sendUnacknowledged d from h.high]
    congr 1
    omega
  · show t.pending.drop _ = []
    rw [hbytes]
    exact drop_eq_nil_of_le (by omega)

lemma acked_data (hpos : 0 < e) (he : e ≤ d) (hnot : ¬b + t.pending.length < e) :
    Finish iss W (t.ackedView (seqAt t.sendUnacknowledged e)) 0 (o - e) (d - e) := by
  obtain ⟨hroom, hb, hs⟩ := h.sizes
  have ho := h.order
  obtain ⟨hcovered, hbytes⟩ := h.covered he fun hc => absurd hc hnot
  rw [decide_eq_false hnot] at hcovered
  rw [if_neg hnot] at hbytes
  have hlen : (t.ackedView (seqAt t.sendUnacknowledged e)).pending.length =
      b + t.pending.length - e := by
    show (t.pending.drop (min (t.ackedBytes _) _)).length = _
    rw [hbytes, length_drop]
    rcases h.syn with rfl | ⟨rfl, hp, -, -⟩
    · omega
    · rw [show t.pending = [] from hp] at hnot ⊢
      simp only [length_nil] at hnot ⊢
      omega
  have hmove : ∀ m, e ≤ m → seqAt t.sendUnacknowledged m =
      seqAt (seqAt t.sendUnacknowledged e) (m - e) := by
    intro m hm
    rw [seqAt_seqAt, Nat.add_sub_cancel' hm]
  refine ⟨?_, ?_, ?_, ?_, .inl rfl, Nat.zero_le _, by omega, ?_, fun hn => ?_, fun f hf => ?_,
    fun hq => ?_, ?_, h.waiting⟩
  · rw [hlen, Nat.zero_add]
    exact h.ahead.trans (hmove _ (Nat.le_of_not_lt hnot))
  · show (if seqLt t.sendNext (seqAt t.sendUnacknowledged e) then seqAt t.sendUnacknowledged e
      else t.sendNext) = seqAt (seqAt t.sendUnacknowledged e) (o - e)
    rw [show t.sendNext = seqAt t.sendUnacknowledged o from h.next]
    refine (seqAt_max _ (by omega) (by omega)).trans ((hmove _ (Nat.le_max_right o e)).trans ?_)
    congr 1
    omega
  · exact h.high.trans (hmove d he)
  · rw [hlen]
    simp only [SEND_BUFFER]
    omega
  · rw [hlen]
    omega
  · have : o ≤ b + t.pending.length := h.unsent hn
    rw [hlen]
    omega
  · obtain ⟨hf, hoe⟩ := h.sent f hf
    have hoe : o = b + t.pending.length + 1 := hoe
    rw [hlen]
    exact ⟨hf, by omega⟩
  · obtain ⟨hn, hd⟩ := h.unqueued hq
    have hd : d ≤ b + t.pending.length := hd
    rw [hlen]
    exact ⟨hn, by omega⟩
  · show (t.finAcknowledged || t.finCovered _) = false
    rw [hcovered, show t.finAcknowledged = false from h.unacknowledged]
    rfl

/-- an acknowledgement acted on is not past the FIN, or acknowledges it -/
lemma acked (ha : t.acknowledges a = true)
    (hknown : seqGt a (finNumber iss W) = true → t.finSequence ≠ none) :
    (seqGt a (finNumber iss W) = false ∧ ∃ o' d', Finish iss W (t.ackedView a) 0 o' d') ∨
      Finished (t.ackedView a) := by
  obtain ⟨e, rfl, hpos, he⟩ := h.acknowledged ha
  rw [(h.past he).1] at hknown ⊢
  by_cases hc : b + t.pending.length < e
  · exact .inr (h.acked_fin he hc (hknown (decide_eq_true hc)))
  · exact .inl ⟨decide_eq_false hc, o - e, d - e, h.acked_data hpos he hc⟩

end

lemma goBack (h : Finish iss W t.send 0 o d) : Finish iss W t.goBack.send 0 0 d :=
  ⟨h.ahead, (seqAt_zero _).symm, h.high, h.room, .inl rfl, le_refl 0, zero_le _, h.bound,
    fun _ => zero_le _, nofun, fun hq => ⟨rfl, (h.unqueued hq).2⟩, h.unacknowledged, h.waiting⟩

end Finish

lemma Finished.acknowledges (h : Finished t.send) (a : Seq) : t.acknowledges a = false := by
  have hall : t.sendUnacknowledged = t.sendHigh := h.all
  unfold Tcb.acknowledges seqGt seqLe Serial.gt Serial.le
  rw [hall]
  by_cases hc : 0 < (a - t.sendHigh).toInt
  · rw [decide_eq_false (Int.not_le.2 hc), Bool.and_false]
  · rw [decide_eq_false hc, Bool.false_and]

lemma Sends.finish (h : Sends iss W old v u o d) (hs : v.state.unshut = true)
    (hq : v.finQueued = false) : ∃ b, Finish iss W v b o d := by
  have hnext : v.sendNext = seqAt v.sendUnacknowledged o := by rw [h.next, h.una, seqAt_seqAt]
  have hhigh : v.sendHigh = seqAt v.sendUnacknowledged d := by rw [h.high, h.una, seqAt_seqAt]
  have hone : ∀ m, seqAt (iss + 1) m = seqAt iss (1 + m) := fun m => seqAt_seqAt iss 1 m
  have hwait : v.state ≠ .FinWait2 := by
    rintro e
    rw [e] at hs
    cases hs
  have hstate : (v.state = .SynSent ∨ v.state = .SynReceived) ∨
      v.state = .Established ∨ v.state = .CloseWait := by
    revert hs
    cases v.state <;> simp [State.unshut]
  rcases hstate with hopen | hlive
  · have w := h.opening hopen
    have hun : v.sendUnacknowledged = iss := by
      rw [h.una, w.u_eq, seqAt_zero, h.iss_eq]
    refine ⟨1, ?_, hnext, hhigh, h.room, .inr ⟨rfl, w.pending, hun, w.written⟩, ?_, h.order, ?_,
      fun _ => ?_, fun f hf => ?_, fun _ => ⟨w.noFin, ?_⟩, w.noFinAck, hwait⟩
    · rw [hun, w.written, w.pending, finNumber, hone]
    · rw [w.o_eq]
    · rw [w.d_eq]
      omega
    · rw [w.o_eq]
      omega
    · cases w.noFin.symm.trans hf
    · rw [w.d_eq]
      omega
  · have w := h.live hlive hq
    obtain ⟨k, hk, hkw, hdrop⟩ := w.queued
    have hlen : v.pending.length = W.length - k := by rw [← hdrop, length_drop]
    have hsent := w.sent
    have ho := h.order
    refine ⟨0, ?_, hnext, hhigh, h.room, .inl rfl, zero_le _, ho, by omega, fun _ => by omega,
      fun f hf => ?_, fun _ => ⟨w.noFin, by omega⟩, w.noFinAck, hwait⟩
    · rw [h.una, finNumber, hone, h.iss_eq, seqAt_seqAt, hk, hlen]
      congr 1
      omega
    · cases w.noFin.symm.trans hf

/-! ## between calls -/

/-- every FIN on the wire has its number; the next one will, or there is none to come -/
structure Finishing (iss : Seq) (W : List Byte) (t : Tcb) : Prop where
  fins : ∀ f ∈ t.fins, f = finNumber iss W
  unshut : t.state.unshut = true → t.finQueued = false ∧ t.fins = []
  phase : (∃ b o d, Finish iss W t.send b o d) ∨ Finished t.send ∨ t.state = .Closed

/-- between calls nothing more is sent once the FIN is acknowledged -/
structure Settled (iss : Seq) (W : List Byte) (t : Tcb) : Prop extends Finishing iss W t where
  idle : t.finAcknowledged = true → t.state.canOutput = false

/-- what holds once the segment's acknowledgement is acted on and past the FIN's number -/
def Tcb.OnFin (t : Tcb) (iss : Seq) (W : List Byte) (s : Segment) (P : Prop) : Prop :=
  t.acknowledges s.acknowledgement = true → seqGt s.acknowledgement (finNumber iss W) = true → P

namespace Finishing
variable (h : Finishing iss W t)
include h

lemma sends (hstate : t'.state = t.state) (hq : t'.finQueued = t.finQueued)
    (hf : ∀ x ∈ t'.fins, x ∈ t.fins ∨ (x = finNumber iss W ∧ t.finQueued = true))
    (hp : (∃ b o d, Finish iss W t'.send b o d) ∨ Finished t'.send ∨ t'.state = .Closed) :
    Finishing iss W t' where
  fins x hx := (hf x hx).elim (h.fins x) And.left
  unshut hs := by
    obtain ⟨hnot, hnone⟩ := h.unshut (hstate ▸ hs)
    refine ⟨hq.trans hnot, eq_nil_iff_forall_not_mem.2 fun x hx => ?_⟩
    rcases hf x hx with hx | ⟨-, hx⟩
    · rw [hnone] at hx
      cases hx
    · rw [hnot] at hx
      cases hx
  phase := hp

lemma moves (hm : Moves t t') : Finishing iss W t' := by
  have hfins := fins_of_adds hm.wire
  have hq : t'.finQueued = t.finQueued := congrArg finQueued hm.send
  refine ⟨hfins ▸ h.fins, fun hs => ?_, ?_⟩
  · rw [hfins, hq]
    exact h.unshut (hm.unshut hs)
  · rcases h.phase with ⟨b, o, d, hf⟩ | hf | hc
    · -- the queue is not dropped and FIN-WAIT-2 is not entered before the FIN is acknowledged
      have hack : t.finAcknowledged ≠ true := fun ha => nomatch ha.symm.trans hf.unacknowledged
      have hpending : t'.pending = t.pending := by
        rcases hm.queue with e | ⟨-, ha | hw⟩
        · exact e
        · exact absurd ha hack
        · exact absurd hw hf.waiting
      have hwait : t'.state ≠ .FinWait2 := fun hw => (hm.waiting hw).elim hf.waiting hack
      refine .inl ⟨b, o, d, ?_⟩
      rw [hm.send, hpending]
      exact hf.setState hwait
    · refine .inr (.inl ?_)
      have hnothing : t'.pending = [] := hm.short.elim (fun e => e.trans hf.nothing) id
      rw [hm.send, hnothing]
      exact ⟨hf.acknowledged, hf.queued, hf.all, rfl⟩
    · exact .inr (.inr (hm.closed hc))

lemma ends (he : Ends t t') : Settled iss W t' where
  fins := fins_of_adds he.wire ▸ h.fins
  unshut hs := by
    rw [he.closed] at hs
    cases hs
  phase := .inr (.inr he.closed)
  idle _ := by rw [he.closed]; rfl

lemma output (env : Env) (hidle : t.finAcknowledged = true → t.state.canOutput = false) :
    Settled iss W (t.output env) := by
  have hsame : t.state.canOutput = false → Settled iss W (t.output env) := by
    intro hc
    rw [output_idle hc]
    exact ⟨h, fun _ => hc⟩
  rcases h.phase with ⟨b, o, d, hf⟩ | hf | hc
  · have hqueue := congrArg StillView.queue (Tcb.still_output env t)
    obtain ⟨⟨o', d', hf'⟩, hfins⟩ := hf.output env
    have hstate : (t.output env).state = t.state := congrArg RecvView.state (Tcb.recv_output env t)
    have hq : (t.output env).finQueued = t.finQueued := congrArg QueueView.finQueued hqueue
    exact ⟨h.sends hstate hq hfins (.inl ⟨b, o', d', hf'⟩),
      fun ha => nomatch ha.symm.trans hf'.unacknowledged⟩
  · exact hsame (hidle hf.acknowledged)
  · exact hsame (by rw [hc]; rfl)

/-! ## acknowledgements -/

lemma dropped (hc : t.state ≠ .Closed) (ha : t.acknowledges a = true)
    (hknown : seqGt a (finNumber iss W) = true → t.finSequence ≠ none) (env : Env) :
    Finishing iss W (t.dropped env a) ∧
      (seqGt a (finNumber iss W) = true → (t.dropped env a).finAcknowledged = true) := by
  have hview := send_dropped env t a
  have hfins : (t.dropped env a).fins = t.fins := fins_of_wire (wire_dropped env t a)
  have hsends := h.sends (congrArg state hview) (congrArg finQueued hview)
    fun x hx => .inl (hfins ▸ hx)
  rcases h.phase with ⟨b, o, d, hf⟩ | hf | hclosed
  · rcases hf.acked ha hknown with ⟨hnot, o', d', hf'⟩ | hf'
    · exact ⟨hsends (.inl ⟨0, o', d', by rwa [hview]⟩), fun hpast => nomatch hpast.symm.trans hnot⟩
    · have hdone : Finished (t.dropped env a).send := by rwa [hview]
      exact ⟨hsends (.inr (.inl hdone)), fun _ => hdone.acknowledged⟩
  · exact nomatch ha.symm.trans (hf.acknowledges _)
  · exact absurd hclosed hc

lemma resent (hc : t.state ≠ .Closed) (hr : Resent env t t') : Finishing iss W t' := by
  obtain ⟨data, hview⟩ := hr.send
  have hsends := h.sends (congrArg state hview) (congrArg finQueued hview)
  rcases h.phase with ⟨b, o, d, hf⟩ | hf | hclosed
  · refine hsends (fun x hx => ?_) (.inl ⟨b, o, d, by rw [hview]; exact hf.of_data⟩)
    exact (mem_fins_resent hr hx).imp_right fun hx => ⟨(hf.sent x hx.1).1, hf.queued hx.1⟩
  · refine hsends (fun x hx => ?_) (.inr (.inl ?_))
    · exact .inl ((mem_fins_resent hr hx).resolve_right fun hx =>
        nomatch hx.2.symm.trans hf.acknowledged)
    · rw [hview]
      exact { hf with }
  · exact absurd hclosed hc

lemma takeWindow (s : Segment) : Finishing iss W (t.takeWindow s) := by
  have hview := Tcb.send_takeWindow t s
  have hfins : (t.takeWindow s).fins = t.fins := fins_of_wire (by
    unfold Tcb.takeWindow
    split <;> rfl)
  have hstate : (t.takeWindow s).state = t.state := congrArg state hview
  refine h.sends hstate (congrArg finQueued hview) (fun x hx => .inl (hfins ▸ hx)) ?_
  rw [hview, hstate]
  exact h.phase

lemma heard (hc : t.state ≠ .Closed) (hknown : t.OnFin iss W s (t.finSequence ≠ none))
    (env : Env) (duplicate : Bool) : Settled iss W ((t.readied env s duplicate).output env) ∧
      t.OnFin iss W s (((t.readied env s duplicate).output env).finAcknowledged = true) := by
  obtain ⟨hheard, -, hseen⟩ : Finishing iss W (t.heard env s duplicate) ∧
      (t.heard env s duplicate).state ≠ .Closed ∧
        t.OnFin iss W s ((t.heard env s duplicate).finAcknowledged = true) := by
    refine heard_rule (P := fun w => Finishing iss W w ∧ w.state ≠ .Closed ∧
      t.OnFin iss W s (w.finAcknowledged = true)) (fun ha => ?_) (fun ha => ?_) (fun h hr => ?_)
      (fun h => ?_)
    · obtain ⟨hf, hseen⟩ := h.dropped hc ha (hknown ha) env
      have hstate := congrArg state (send_dropped env t s.acknowledgement)
      exact ⟨hf, fun e => hc (hstate.symm.trans e), fun _ => hseen⟩
    · exact ⟨h, hc, fun ha' => nomatch ha'.symm.trans ha⟩
    · obtain ⟨data, e⟩ := hr.send
      exact ⟨h.1.resent h.2.1 hr, fun hclosed => h.2.1 ((congrArg state e).symm.trans hclosed),
        fun ha hgt => (congrArg finAcknowledged e).trans (h.2.2 ha hgt)⟩
    · have e := fun w => Tcb.send_takeWindow w s
      exact ⟨h.1.takeWindow s, fun hclosed => h.2.1 ((congrArg state (e _)).symm.trans hclosed),
        fun ha hgt => (congrArg finAcknowledged (e _)).trans (h.2.2 ha hgt)⟩
  obtain ⟨hm, hpast, -⟩ := onAcknowledgement_stages env t s duplicate
  generalize t.readied env s duplicate = t' at hm hpast
  have hmoved := hheard.moves hm
  have hack : t'.finAcknowledged = (t.heard env s duplicate).finAcknowledged := hm.finAcknowledged
  refine ⟨hmoved.output env fun ha => ?_, fun ha hgt => ?_⟩
  · -- past the wait for the FIN, and the write side shut
    have hfinishing := hpast (hack ▸ ha)
    have hshut : t'.state.unshut = false := by
      by_contra hu
      have hnot := (hmoved.unshut (Bool.eq_true_of_not_eq_false hu)).1
      rcases hmoved.phase with ⟨b, o, d, hf⟩ | hf | hclosed
      · exact nomatch ha.symm.trans hf.unacknowledged
      · exact nomatch hnot.symm.trans hf.queued
      · rw [hclosed] at hu
        exact hu rfl
    revert hfinishing hshut
    cases t'.state <;> simp [State.finishing, State.unshut, State.canOutput]
  · refine (congrArg (·.queue.finAcknowledged) (Tcb.still_output env t')).trans ?_
    exact hack.trans (hseen ha hgt)

end Finishing

namespace Settled
section
variable (h : Settled iss W t)
include h

lemma moves (hm : Moves t t') : Settled iss W t' where
  toFinishing := h.toFinishing.moves hm
  idle ha := by
    by_contra hc
    have hc := (hm.kept (Bool.eq_true_of_not_eq_false hc)).1
    rw [h.idle (hm.finAcknowledged ▸ ha)] at hc
    cases hc

lemma heard (hs : Sends iss W old t.send u o d) (hc : t.state ≠ .Closed) {w : Tcb}
    (hw : Heard t s w) (hknown : t.OnFin iss W s (t.finSequence ≠ none))
    (env : Env) (duplicate : Bool) : Settled iss W ((w.readied env s duplicate).output env) ∧
      t.OnFin iss W s (((w.readied env s duplicate).output env).finAcknowledged = true) := by
  cases hw with
  | past => exact h.toFinishing.heard hc hknown env duplicate
  | opened hstate =>
    have hunshut : t.state.unshut = true := by rw [hstate]; rfl
    obtain ⟨hq, hnone⟩ := h.unshut hunshut
    obtain ⟨b, hf⟩ := hs.finish hunshut hq
    have hdone : Finishing iss W t.completeHandshake :=
      ⟨h.fins, fun _ => ⟨hq, hnone⟩, .inl ⟨b, o, d, hf.setState (s := .Established) nofun⟩⟩
    exact hdone.heard nofun hknown env duplicate

lemma opens (hu : t.state.unshut = true)
    (hs : Sends iss W old t'.send u o d) (hu' : t'.state.unshut = true)
    (hq : t'.finQueued = t.finQueued) (ha : Adds t t') : Settled iss W t' := by
  obtain ⟨hnot, hnone⟩ := h.unshut hu
  obtain ⟨b, hf⟩ := hs.finish hu' (hq.trans hnot)
  have hfins := fins_of_adds ha
  exact ⟨⟨hfins ▸ h.fins, fun _ => ⟨hq.trans hnot, hfins.trans hnone⟩, .inl ⟨b, o, d, hf⟩⟩,
    fun ha => nomatch ha.symm.trans hf.unacknowledged⟩

lemma established (hs : Sends iss W old t.send u o d) (hstate : t.state = .SynSent)
    (hlt : seqLt t.iss s.acknowledgement = true) (hle : seqLe s.acknowledgement t.sendNext = true)
    (env : Env) : Settled iss W ((t.established env s).output env) := by
  have w := hs.opening (.inl hstate)
  have hview := send_established env t s
  have hq : (t.established env s).finQueued = t.finQueued := congrArg finQueued hview
  have hopen : Sends iss W old (t.established env s).send 1 0 0 := (hs.established hstate hlt hle).2
  rw [output_nothing ((congrArg pending hview).trans w.pending) (hq.trans w.notQueued)]
  refine h.opens (by rw [hstate]; rfl) hopen ?_ hq (adds_established env t s)
  rw [show Tcb.state _ = .Established from congrArg state hview]
  rfl

lemma crossed (hs : Sends iss W old t.send u o d)
    (hstate : t.state = .SynSent) (env : Env) (s : Segment) : Settled iss W (t.crossed env s) := by
  have hview := send_crossed env t s
  refine h.opens (by rw [hstate]; rfl) (hs.crossed hstate s) ?_ (congrArg finQueued hview)
    (adds_crossed env t s)
  rw [show Tcb.state _ = .SynReceived from congrArg state hview]
  rfl

end

/-! ## the other calls -/

lemma retransmit (h : Settled iss W t) (hsyn : ¬(t.state = .SynSent ∨ t.state = .SynReceived) →
    W = [] → t.sendUnacknowledged ≠ iss) (env : Env) : Settled iss W (t.retransmit env) := by
  rcases retransmit_cases env t with ⟨-, hm⟩ | ⟨hst, hcases⟩
  · exact h.moves hm
  have hnone : t.goBack.finSequence = none := rfl
  have hidle : t.goBack.finAcknowledged = true → t.goBack.state.canOutput = false := h.idle
  have hphase : Finishing iss W t.goBack ∧ (t.goBack.pending = [] ∨ t.goBack.state = .Closed ∨
      ∃ d, Finish iss W t.goBack.send 0 0 d) := by
    rcases h.phase with ⟨b, o, d, hf⟩ | hf | hc
    · have hb : b = 0 := hf.syn.resolve_right fun hb => hsyn hst hb.2.2.2 hb.2.2.1
      subst hb
      exact ⟨⟨h.fins, h.unshut, .inl ⟨0, 0, d, hf.goBack⟩⟩, .inr (.inr ⟨d, hf.goBack⟩)⟩
    · exact ⟨⟨h.fins, h.unshut, .inr (.inl { hf with })⟩, .inl hf.nothing⟩
    · exact ⟨⟨h.fins, h.unshut, .inr (.inr hc)⟩, .inr (.inl hc)⟩
  obtain ⟨hg, hkind⟩ := hphase
  rcases hcases with e | ⟨byte, rest, hp, e⟩
  · rw [e]
    exact hg.output env hidle
  · -- the probe is the first byte of the queue
    rw [e]
    have hp : t.goBack.pending = byte :: rest := hp
    generalize t.goBack = g at hg hkind hidle hnone hp
    obtain ⟨new, hview, -⟩ := send_sendThrough env g ACK g.sendNext (g.sendNext + 1) [byte]
    have hprobe : (g.probe env byte).fins = g.fins :=
      fins_sendSegment env g (by decide) g.sendNext [byte] false
    have hstate : (g.probe env byte).state = g.state := congrArg state hview
    have hphase : (∃ b o d, Finish iss W (g.probe env byte).send b o d) ∨ g.state = .Closed := by
      rcases hkind with e | hc | ⟨d, hf⟩
      · exact nomatch hp.symm.trans e
      · exact .inr hc
      · refine .inl ⟨0, 0 + 1, max d (0 + 1), ?_⟩
        rw [Tcb.probe, hview]
        refine hf.sendData hnone ?_
        show 0 + 1 ≤ g.pending.length
        rw [hp]
        exact succ_le_succ (zero_le _)
    refine ⟨hg.sends hstate (congrArg finQueued hview)
      (fun x hx => .inl (hprobe ▸ hx)) (hphase.imp_right fun hc => .inr (hstate.trans hc)),
      fun ha => ?_⟩
    rw [hstate]
    exact hidle ((congrArg finAcknowledged hview).symm.trans ha)

lemma resent (h : Settled iss W t) {r : Tcb} (hr : r.send = t.send) (ho : r.out = t.out) (now : Nat)
    (hsyn : ¬(t.state = .SynSent ∨ t.state = .SynReceived) → W = [] → t.sendUnacknowledged ≠ iss)
    (env : Env) : Settled iss W ((r.backOff now).retransmit env) := by
  have hview : (r.backOff now).send = t.send := (Tcb.send_backOff r now).trans hr
  have hwire : (r.backOff now).wire = t.wire :=
    (show (r.backOff now).wire = r.wire from rfl).trans (congrArg OutView.wire ho)
  have hstate : (r.backOff now).state = t.state := congrArg state hview
  have hun : (r.backOff now).sendUnacknowledged = t.sendUnacknowledged :=
    congrArg sendUnacknowledged hview
  have hb : Settled iss W (r.backOff now) := by
    refine ⟨h.toFinishing.sends hstate (congrArg finQueued hview)
      (fun x hx => .inl (fins_of_wire hwire ▸ hx)) ?_, fun ha => ?_⟩
    · rw [hview, hstate]
      exact h.phase
    · rw [hstate]
      exact h.idle ((congrArg finAcknowledged hview).symm.trans ha)
  exact hb.retransmit (by rw [hstate, hun]; exact hsyn) env

/-- from here on a FIN is due behind what has been written -/
lemma shut (h : Settled iss W t) (hs : Sends iss W old t.send u o d) {state : State}
    (hst : Shuts t.state state) (env : Env) :
    Settled iss W ({ t with finQueued := true, state := state }.output env) := by
  obtain ⟨hu, hu', hw⟩ : t.state.unshut = true ∧ state.unshut = false ∧ state ≠ .FinWait2 := by
    generalize t.state = first at hst
    cases hst <;> exact ⟨rfl, rfl, nofun⟩
  obtain ⟨b, hf⟩ := hs.finish hu (h.unshut hu).1
  have hq : Finishing iss W { t with finQueued := true, state := state } :=
    ⟨h.fins, (fun hs => nomatch hs.symm.trans hu'), .inl ⟨b, o, d, hf.queue hw⟩⟩
  exact hq.output env fun ha => nomatch ha.symm.trans hf.unacknowledged

lemma queued (h : Settled iss W t) (hs : Sends iss W t.send.data t.send u o d)
    (hl : t.state = .Established ∨ t.state = .CloseWait) (hq : t.finQueued = false) {bytes : List Byte}
    (hroom : t.pending.length + bytes.length ≤ SEND_BUFFER) (env : Env) :
    Settled iss (W ++ bytes) ((t.enqueue bytes).output env) := by
  have hunshut : t.state.unshut = true := by
    rcases hl with hl | hl <;> rw [hl] <;> rfl
  have hnone := (h.unshut hunshut).2
  obtain ⟨b, hf⟩ := (hs.enqueue hl hq hroom).finish hunshut hq
  have hqueued : Finishing iss (W ++ bytes) (t.enqueue bytes) := by
    refine ⟨fun f hfin => ?_, fun _ => ⟨hq, hnone⟩, .inl ⟨b, o, d, hf⟩⟩
    rw [show (t.enqueue bytes).fins = [] from hnone] at hfin
    cases hfin
  exact hqueued.output env fun ha => nomatch ha.symm.trans hf.unacknowledged

end Settled

/-! ## runs -/

/-- an acknowledgement past the FIN finds its number kept, and a timeout after a shutdown the SYN
acknowledged -/
def Session.Known (s : Session) : Call → Prop
  | .segment _ segment => s.tcb.hears segment = true →
      s.tcb.acknowledges segment.acknowledgement = true →
      seqGt segment.acknowledgement (finNumber s.tcb.iss s.written) = true →
      s.tcb.finSequence ≠ none
  | .timer _ now => s.tcb.retransmitAt ≠ 0 → s.tcb.retransmitAt ≤ now → s.tcb.state ≠ .SynSent →
      s.tcb.state ≠ .SynReceived → s.written = [] → s.tcb.sendUnacknowledged ≠ s.tcb.iss
  | _ => True

instance (s : Session) : DecidablePred s.Known
  | .segment _ _ => inferInstanceAs (Decidable (_ → _))
  | .timer _ _ => inferInstanceAs (Decidable (_ → _))
  | .read .. | .write .. | .shutdownWrite _ | .others _ => isTrue trivial

lemma Tcb.hears_open (h : t.hears s = true) : t.state ≠ .Closed := by
  intro e
  simp [Tcb.hears, e] at h

lemma Settled.step {s : Session} (h : Settled iss s.written s.tcb)
    (hs : Sends iss s.written s.tcb.send.data s.tcb.send u o d) {c : Call} (hc : s.Known c) :
    Settled iss (s.step c).written (s.step c).tcb := by
  have hiss : s.tcb.iss = iss := hs.iss_eq
  obtain ⟨bytes, he, hwritten⟩ := s.effect c
  rw [hwritten]
  generalize (s.step c).tcb = t' at he
  have same : Settled iss s.written t' → Settled iss (s.written ++ []) t' := by
    rw [append_nil]
    exact id
  cases he with
  | moves hm => exact same (h.moves hm)
  | ends hends => exact same (h.toFinishing.ends hends)
  | heard hh hw =>
    simp only [Session.Known, hiss] at hc
    exact same (h.heard hs (Tcb.hears_open hh) hw (hc hh) _ _).1
  | established hstate hlt hle => exact same (h.established hs hstate hlt hle _)
  | crossed hstate => exact same (h.crossed hs hstate _ _)
  | resent hr ho hat hnow =>
    simp only [Session.Known, hiss] at hc
    exact same (h.resent hr ho _ (fun hst => hc hat hnow (fun e => hst (.inl e)) fun e => hst (.inr e)) _)
  | queued hl hq hroom hn =>
    exact h.queued hs hl hq (by rw [length_take, min_eq_left hn]; exact hroom) _
  | shut hst => exact same (h.shut hs hst _)

lemma Opened.settled (h : Opened t) (hclear : SendClear t) : Settled t.iss [] t := by
  obtain ⟨state, hstate, hview⟩ := h.send_eq hclear
  have hs : t.state = state := congrArg SendView.state hview
  have hunshut : t.state.unshut = true := by
    rw [hs]
    rcases hstate with rfl | rfl <;> rfl
  have hq : t.finQueued = false := congrArg SendView.finQueued hview
  have hfins : t.fins = [] := by
    have hactive : ∀ (env : Env) (w : Tcb) (iss : Seq), w.wire = [] →
        (w.openActive env iss).fins = [] := by
      intro env w iss hw
      have hsyn := fins_sendSegment env (w.startActive iss) (f := SYN) (by decide) iss [] true
      rw [Tcb.openActive, fins_armRetransmit, fins_timeSegment]
      refine hsyn.trans ?_
      show (w.wire.filter _).map _ = []
      rw [hw]
      rfl
    cases h with
    | active env heldBytes iss => exact hactive env _ iss rfl
    | again h calls env iss => exact hactive env _ iss rfl
    | passive env env' heldBytes request iss =>
      rw [Tcb.sendSynAck, fins_armRetransmit, fins_sendSegment _ _ (by decide), Tcb.acceptOpen,
        fins_timeSegment]
      refine fins_of_wire (t := Tcb.new heldBytes) ?_
      show (((Tcb.new heldBytes).takeRequest request).takeMss request).wire = _
      unfold Tcb.takeMss
      split <;> rfl
  obtain ⟨b, hf⟩ := (h.sends hclear).finish hunshut hq
  refine ⟨⟨fun f hfin => ?_, fun _ => ⟨hq, hfins⟩, .inl ⟨b, 1, 1, hf⟩⟩,
    fun ha => Bool.noConfusion (ha.symm.trans hf.unacknowledged)⟩
  rw [hfins] at hfin
  cases hfin

/-- **the FIN keeps its number**, one past everything written, where no acknowledgement past it
finds it forgotten and no timeout finds the SYN unacknowledged with the write side shut; and the
first such acknowledgement is taken as the FIN's; where the Tcb carries nothing of a connection
before -/
theorem fin_stays (t : Tcb) (ht : Opened t) (hclear : SendClear t) (calls : List Call)
    (h : Run.Allowed Session.step Session.Known (.start t) calls) :
    let s := Run.run Session.step (.start t) calls
    (∀ x ∈ s.tcb.wire, x.has FIN = true → x.sequence = t.iss + 1 + BitVec.ofNat 32 s.written.length) ∧
    ∀ (env : Env) (segment : Segment), s.Known (.segment env segment) →
      s.tcb.hears segment = true → s.tcb.acknowledges segment.acknowledgement = true →
      seqGt segment.acknowledgement (t.iss + 1 + BitVec.ofNat 32 s.written.length) = true →
      (s.tcb.onSegment env segment).1.finAcknowledged = true := by
  intro s
  obtain ⟨hsettled, u, o, d, hs⟩ := h.keeps (I := fun s => Settled t.iss s.written s.tcb ∧
      ∃ u o d, Sends t.iss s.written s.tcb.send.data s.tcb.send u o d)
    (fun s c hs hc => by
      obtain ⟨hsettled, u, o, d, hsends⟩ := hs
      obtain ⟨u', o', d', h'⟩ := hsends.step c
      exact ⟨hsettled.step hsends hc, u', o', d', h'.rebase⟩)
    ⟨ht.settled hclear, 0, 1, 1, ht.sends hclear⟩
  refine ⟨fun x hx hfin => hsettled.fins _ (mem_fins.2 ⟨x, hx, hfin, rfl⟩), ?_⟩
  intro env segment hknown hh ha hgt
  have hiss : s.tcb.iss = t.iss := hs.iss_eq
  simp only [Session.Known, hiss] at hknown
  rw [Tcb.onSegment_hears hh]
  rcases onAcknowledged_cases env s.tcb segment with ⟨hstate, -⟩ | ⟨w, hw, e⟩
  · -- nothing sent yet that could be past a FIN
    have w := hs.opening (.inr hstate)
    exact absurd w.noFin (hknown hh ha hgt)
  · rw [e]
    exact (hsettled.heard hs (Tcb.hears_open hh) hw (hknown hh) env _).2 ha hgt

/-! ## a FIN whose number is kept and one whose number is forgotten -/

def shut : List Call := [answered 1000, .write ⟨3, 0, true⟩ [1, 2], .shutdownWrite ⟨4, 0, true⟩]

def acknowledging (a : Seq) (window : BitVec 16) : Segment := ⟨501, a, ACK, window, none, []⟩

/-- the FIN is behind the two bytes, and its acknowledgement is seen -/
theorem fin_stays_shut : let s := Run.run Session.step (.start asking) shut
    (∃ x ∈ s.tcb.wire, x.has FIN = true ∧ x.sequence = asking.iss + 1 + 2) ∧
    (∀ x ∈ s.tcb.wire, x.has FIN = true →
      x.sequence = asking.iss + 1 + BitVec.ofNat 32 s.written.length) ∧
    (s.tcb.onSegment ⟨5, 0, true⟩ (acknowledging 104 1000)).1.finAcknowledged = true := by
  have h := fin_stays asking (.active _ _ _) asking_clear shut (by decide +kernel)
  exact ⟨by decide +kernel, h.1, h.2 ⟨5, 0, true⟩ (acknowledging 104 1000) (by decide +kernel)
    (by decide +kernel) (by decide +kernel) (by decide +kernel)⟩

/-- a timeout into a window of one byte clears the FIN's number; the acknowledgement of everything
sent is not taken as the FIN's, and a second FIN goes out -/
theorem fin_moves : ∃ (t : Tcb) (calls : List Call) (env : Env) (segment : Segment), Opened t ∧
    let s := Run.run Session.step (.start t) calls
    s.tcb.hears segment = true ∧ s.tcb.acknowledges segment.acknowledgement = true ∧
    seqGt segment.acknowledgement (t.iss + 1 + BitVec.ofNat 32 s.written.length) = true ∧
    (s.tcb.onSegment env segment).1.finAcknowledged = false ∧
    ∃ x ∈ (s.tcb.onSegment env segment).1.wire, x.has FIN = true ∧
      x.sequence ≠ t.iss + 1 + BitVec.ofNat 32 s.written.length :=
  ⟨asking, shut ++ [.segment ⟨5, 0, true⟩ (acknowledging 101 1), .timer ⟨900, 0, true⟩ 900],
    ⟨901, 0, true⟩, acknowledging 104 1, .active _ _ _, by decide +kernel⟩

end ClaudeOs.Net
