import ClaudeOs.Lib.Stream
import ClaudeOs.Net.Stages

/-!
# The send side sends what was written

`W` is the concatenation of everything `write` accepted.  `send_unacknowledged`, `send_next` and
`send_high` are followed as distances: `u` from `iss` to the first unacknowledged number, `o` and
`d` from there to the other two.  The SYN is number `0`, so byte `k` of `W` is number `k + 1`, and
`pending` is `W` from byte `u - 1` on; the FIN is the one number that is not a byte of `pending`.

* `Pinned W iss s`  the segment `s` carries bytes of `W` where its sequence number says;
* `Flight iss W old v u o d`  what every step of every method keeps;
* `Sends iss W old v u o d`  what holds between calls;
* `Sends.moves`, `Sends.resent`, `Sends.turns` …  one lemma a stage, and `Sends.effect` for a call;
* `sent_stream`  every data segment of every run carries bytes of `W` at its number.
-/

namespace ClaudeOs.Net
open Serial Stream List Nat Tcb

/-! ## the invariant -/

/-- the segment's payload is `W` from the one position its sequence number names -/
def Pinned (W : List Byte) (iss : Seq) (s : Segment) : Prop :=
  ∃ p, s.sequence = seqAt (iss + 1) p ∧ OccursAt W p s.payload ∧ W.length ≤ p + SEND_BUFFER

/-- a connection that takes writes has acknowledged or queued all of `W`, and sent no FIN -/
structure Writable (W : List Byte) (v : SendView) (u d : Nat) : Prop where
  queued : ∃ k, u = k + 1 ∧ k ≤ W.length ∧ W.drop k = v.pending
  sent : d ≤ v.pending.length
  noFin : v.finSequence = none
  noFinAck : v.finAcknowledged = false

/-- a connection whose SYN is outstanding has nothing else to send -/
structure Opening (W : List Byte) (v : SendView) (u o d : Nat) : Prop where
  u_eq : u = 0
  o_eq : o = 1
  d_eq : d = 1
  pending : v.pending = []
  written : W = []
  notQueued : v.finQueued = false
  noFin : v.finSequence = none
  noFinAck : v.finAcknowledged = false

/-- what every step keeps, `old` being the data segments sent before the call -/
structure Flight (iss : Seq) (W : List Byte) (old : List Segment) (v : SendView) (u o d : Nat) : Prop where
  iss_eq : v.iss = iss
  una : v.sendUnacknowledged = seqAt v.iss u
  next : v.sendNext = seqAt v.iss (u + o)
  high : v.sendHigh = seqAt v.iss (u + d)
  order : o ≤ d
  bound : d ≤ SEND_BUFFER + 2
  room : v.pending.length ≤ SEND_BUFFER
  queued : v.pending ≠ [] → ∃ k, u = k + 1 ∧ W.drop k = v.pending
  finNone : v.state.canOutput = true → v.finSequence = none →
    o ≤ v.pending.length + if u = 0 then 1 else 0
  finSome : ∀ f, v.finSequence = some f → v.finAcknowledged = false →
    ∃ m, f = seqAt v.iss (u + m) ∧ v.pending.length ≤ m ∧ m < d
  finAcked : v.finAcknowledged = true → v.pending = []
  data : ∃ new, v.data = old ++ new ∧ ∀ s ∈ new, Pinned W iss s

/-- what holds between calls -/
structure Sends (iss : Seq) (W : List Byte) (old : List Segment) (v : SendView) (u o d : Nat) : Prop
    extends Flight iss W old v u o d where
  live : v.state = .Established ∨ v.state = .CloseWait → v.finQueued = false → Writable W v u d
  opening : v.state = .SynSent ∨ v.state = .SynReceived → Opening W v u o d

variable {iss : Seq} {W : List Byte} {old : List Segment} {v : SendView} {u o d : Nat} {t t' : Tcb} {env : Env}

variable {n : Nat} {s : Segment} {a : Seq} {bytes : List Byte}

section
variable (h : Flight iss W old v u o d)
include h

lemma Flight.pinned {i : Nat} (hi : i < v.pending.length) (hs : s.sequence = seqAt v.iss (u + i))
    (hp : s.payload = (v.pending.drop i).take n) : Pinned W iss s := by
  rw [← h.iss_eq]
  have hne : v.pending ≠ [] := by
    intro e
    simp [e] at hi
  obtain ⟨k, hk, hw⟩ := h.queued hne
  have hlen : v.pending.length = W.length - k := by rw [← hw, length_drop]
  refine ⟨k + i, ?_, ?_, ?_⟩
  · have e : v.iss + 1 = seqAt v.iss 1 := rfl
    rw [hs, e, seqAt_seqAt]
    congr 1
    omega
  · rw [hp, ← hw, drop_drop]
    apply OccursAt.take
    intro j hj
    rw [getElem?_drop]
  · have := h.room
    omega

lemma Flight.send {new : List Segment} (hn : ∀ s ∈ new, Pinned W iss s) :
    Flight iss W old { v with data := v.data ++ new } u o d := by
  obtain ⟨new', e, hp⟩ := h.data
  refine { h with data := ⟨new' ++ new, ?_, ?_⟩ }
  · rw [e, append_assoc]
  · intro s hs
    rcases mem_append.mp hs with hs | hs
    · exact hp s hs
    · exact hn s hs

lemma sentThrough_high {e : Nat} (he : e ≤ SEND_BUFFER + 2) :
    (if seqLt v.sendHigh (seqAt v.iss (u + e)) then seqAt v.iss (u + e) else v.sendHigh) =
      seqAt v.iss (u + max d e) := by
  have hb : d ≤ 65536 + 2 := h.bound
  have he : e ≤ 65536 + 2 := he
  rw [h.high]
  refine (seqAt_max v.iss (by omega) (by omega)).trans ?_
  congr 1
  omega

end

/-! ## output -/

lemma not_opening_of_canOutput {s : State} (hc : s.canOutput = true) :
    ¬(s = .SynSent ∨ s = .SynReceived) := by
  rintro (rfl | rfl) <;> simp [State.canOutput] at hc

lemma Sends.sendChunk (h : Sends iss W old t.send u o d) (hc : t.state.canOutput = true)
    (hn : 0 < n) (hroom : o + n ≤ t.pending.length) :
    Sends iss W old (t.sendChunk env o n).send u (o + n) (max d (o + n)) := by
  have hlen : t.pending.length ≤ SEND_BUFFER := h.room
  have hnext : t.sendNext = seqAt t.iss (u + o) := h.next
  obtain ⟨new, e, hnew⟩ := send_sendChunk env t o n
  have hfin : t.sendNext + BitVec.ofNat 32 n = seqAt t.iss (u + (o + n)) := by
    rw [hnext, seqAt_add, Nat.add_assoc]
  have hhigh : (if seqLt t.sendHigh (seqAt t.iss (u + (o + n))) then seqAt t.iss (u + (o + n))
      else t.sendHigh) = seqAt t.iss (u + max d (o + n)) :=
    sentThrough_high h.toFlight (by omega)
  rw [hfin, hhigh] at e
  have hp : ∀ s ∈ new, Pinned W iss s := by
    intro s hs
    obtain ⟨hs1, hs2⟩ := hnew s hs
    exact h.toFlight.pinned (i := o) (n := n) (by show o < t.pending.length; omega)
      (hs1.trans hnext) hs2
  have hf := h.toFlight.send hp
  rw [e]
  refine ⟨⟨hf.iss_eq, hf.una, rfl, rfl, Nat.le_max_right _ _, ?_, hf.room, hf.queued, ?_, ?_, hf.finAcked,
    hf.data⟩, ?_, fun ho => absurd ho (not_opening_of_canOutput hc)⟩
  · have := h.bound
    omega
  · intro _ _
    exact Nat.le_trans hroom (Nat.le_add_right _ _)
  · intro f he ha
    obtain ⟨m, hm, hm1, hm2⟩ := h.finSome f he ha
    exact ⟨m, hm, hm1, by omega⟩
  · intro hl hq
    have hw := h.live hl hq
    exact ⟨hw.queued, Nat.max_le.mpr ⟨hw.sent, hroom⟩, hw.noFin, hw.noFinAck⟩

lemma Sends.sendFin (h : Sends iss W old t.send u o d) (hc : t.state.canOutput = true)
    (hall : t.pending.length ≤ o) (hq : t.finQueued = true) (hnone : t.finSequence = none) :
    Sends iss W old (t.sendFin env).send u (o + 1) (max d (o + 1)) := by
  have hlen : t.pending.length ≤ SEND_BUFFER := h.room
  have hnext : t.sendNext = seqAt t.iss (u + o) := h.next
  have ho : o ≤ t.pending.length + if u = 0 then 1 else 0 := h.finNone hc hnone
  have ho' : o + 1 ≤ SEND_BUFFER + 2 := by
    split at ho <;> omega
  have hhigh : (if seqLt t.sendHigh (seqAt t.iss (u + (o + 1))) then seqAt t.iss (u + (o + 1))
      else t.sendHigh) = seqAt t.iss (u + max d (o + 1)) := sentThrough_high h.toFlight ho'
  have hfin : t.sendNext + 1 = seqAt t.iss (u + (o + 1)) := by
    rw [hnext]
    exact seqAt_add t.iss (u + o) 1
  have e := send_sendFin env t
  rw [hfin, hhigh, hnext] at e
  rw [e]
  refine ⟨⟨h.iss_eq, h.una, rfl, rfl, le_max_right _ _, ?_, h.room, h.queued, ?_, ?_, h.finAcked,
    h.data⟩, ?_, fun ho => absurd ho (not_opening_of_canOutput hc)⟩
  · have := h.bound
    omega
  · intro _ he
    exact nomatch he
  · intro f he _
    obtain rfl := Option.some.inj he
    exact ⟨o, rfl, hall, by omega⟩
  · intro _ hq'
    exact absurd (hq.symm.trans hq') (by simp)

lemma Flight.offset (h : Flight iss W old t.send u o d) : t.offset = o := by
  have hb : d ≤ 65536 + 2 := h.bound
  have ho := h.order
  rw [Tcb.offset, show t.sendNext = seqAt t.iss (u + o) from h.next,
    show t.sendUnacknowledged = seqAt t.iss u from h.una, seqAt_dist _ (by omega) (by omega)]
  omega

section
variable (h : Sends iss W old t.send u o d)
include h

lemma Sends.turns (hc : t.state.canOutput = true) {limit : Seq} (ht : Outputs env limit t t') :
    ∃ o' d', Sends iss W old t'.send u o' d' := by
  induction ht generalizing o d with
  | done => exact ⟨o, d, h⟩
  | @chunk t _ n hn hleft _ _ _ ih =>
    rw [h.offset] at hleft ih
    have hstate : (t.sendChunk env o n).state = t.state :=
      congrArg (·.recv.state) (still_sendChunk env t o n)
    exact ih (h.sendChunk hc hn hleft) (hstate ▸ hc)
  | fin hall hq hnone => exact ⟨_, _, h.sendFin hc (h.offset ▸ hall) hq hnone⟩

lemma Sends.output : ∃ o' d', Sends iss W old (t.output env).send u o' d' := by
  rcases output_turns env t with ⟨-, e⟩ | ⟨hc, ht⟩
  · rw [e]
    exact ⟨o, d, h⟩
  · exact h.turns hc ht

lemma Sends.retransmitHead : Sends iss W old (t.retransmitHead env).send u o d := by
  obtain ⟨new, e, hnew⟩ := send_retransmitHead env t
  have hpin : ∀ s ∈ new, Pinned W iss s := by
    intro s hs
    obtain ⟨hne, hseq, hp⟩ := hnew s hs
    exact h.toFlight.pinned (i := 0) (length_pos_iff.2 hne) (hseq.trans h.una) hp
  rw [e]
  refine ⟨h.toFlight.send hpin, fun hl hq => ?_, fun ho => ?_⟩
  · have w := h.live hl hq
    exact { w with }
  · have w := h.opening ho
    exact { w with }

lemma Sends.resent (hr : Resent env t t') : Sends iss W old t'.send u o d := by
  cases hr with
  | tuned ht => rwa [ht.send]
  | head ht ht' =>
    rw [ht'.send]
    exact Sends.retransmitHead (by rwa [ht.send])

end

/-! ## acknowledgements -/

section
variable (h : Flight iss W old t.send u o d)
include h

lemma Flight.acknowledged (ha : t.acknowledges a = true) :
    ∃ e, a = seqAt t.iss (u + e) ∧ 0 < e ∧ e ≤ d := by
  have hb : d ≤ 65536 + 2 := h.bound
  have hu : t.sendUnacknowledged = seqAt t.iss u := h.una
  have hh : t.sendHigh = seqAt t.iss (u + d) := h.high
  simp only [acknowledges, Bool.and_eq_true] at ha
  obtain ⟨hgt, hle⟩ := ha
  rw [hu] at hgt
  obtain ⟨e, rfl, hpos, hlt⟩ := exists_seqAt_of_gt t.iss a hgt
  rw [hh, seqLe, seqAt_le t.iss (by omega) (by omega), decide_eq_true_eq] at hle
  exact ⟨e, rfl, hpos, by omega⟩

lemma Flight.finCovered {e : Nat} (he : e ≤ d) :
    (t.finCovered (seqAt t.iss (u + e)) = true → t.pending.length < e) ∧
    (t.finCovered (seqAt t.iss (u + e)) = false → t.finAcknowledged = false →
      ∀ f, t.finSequence = some f →
        ∃ m, f = seqAt t.iss (u + e + m) ∧ t.pending.length ≤ e + m ∧ e + m < d) := by
  have hb : d ≤ 65536 + 2 := h.bound
  unfold Tcb.finCovered
  cases hf : t.finSequence with
  | none => simp
  | some f =>
    cases hack : t.finAcknowledged with
    | true => simp
    | false =>
      obtain ⟨m, rfl, hm, hmd⟩ := h.finSome f hf hack
      have hlt : seqLt (seqAt t.iss (u + m)) (seqAt t.iss (u + e)) = decide (u + m < u + e) :=
        seqAt_lt t.iss (by omega) (by omega)
      have hm : t.pending.length ≤ m := hm
      simp only [show t.send.iss = t.iss from rfl, hlt]
      by_cases c : u + m < u + e
      · simp only [c]
        refine ⟨fun _ => by omega, fun hc => ?_⟩
        simp at hc
      · simp only [c]
        refine ⟨fun hc => ?_, fun _ _ f hf => ?_⟩
        · simp at hc
        · obtain rfl := Option.some.inj hf
          refine ⟨m - e, ?_, by omega, by omega⟩
          congr 1
          omega

lemma Flight.ackedBytes {e : Nat} (he : e ≤ d) : t.ackedBytes (seqAt t.iss (u + e)) =
      if t.finCovered (seqAt t.iss (u + e)) then e - 1 else e := by
  have hb : d ≤ 65536 + 2 := h.bound
  have hu : t.sendUnacknowledged = seqAt t.iss u := h.una
  simp only [Tcb.ackedBytes]
  rw [hu, seqAt_dist t.iss (by omega) (by omega)]
  simp only [Nat.add_sub_cancel_left]

lemma Flight.acked_length {e : Nat} (he : e ≤ d) :
    (t.ackedView (seqAt t.iss (u + e))).pending.length = t.pending.length - e := by
  have hbytes := h.ackedBytes he
  have hcov := (h.finCovered he).1
  show (t.pending.drop (min (t.ackedBytes _) _)).length = _
  rw [hbytes, length_drop]
  split
  · have := hcov ‹_›
    omega
  · omega

lemma Flight.acked {e : Nat} (hpos : 0 < e) (he : e ≤ d) :
    Flight iss W old (t.ackedView (seqAt t.iss (u + e))) (u + e) (o - e) (d - e) := by
  have hb : d ≤ 65536 + 2 := h.bound
  have ho := h.order
  have hroom : t.pending.length ≤ SEND_BUFFER := h.room
  obtain ⟨hcov, hnot⟩ := h.finCovered he
  have hbytes := h.ackedBytes he
  have hnext : t.sendNext = seqAt t.iss (u + o) := h.next
  have hplen : (t.ackedView (seqAt t.iss (u + e))).pending.length =
      t.pending.length - min (t.ackedBytes (seqAt t.iss (u + e))) t.pending.length :=
    length_drop
  refine ⟨h.iss_eq, rfl, ?_, ?_, by omega, ?_, ?_, ?_, ?_, ?_, ?_, h.data⟩
  · -- `send_next` is not left behind `send_unacknowledged`
    have hlt : seqLt t.sendNext (seqAt t.iss (u + e)) = decide (u + o < u + e) := by
      rw [hnext]
      exact seqAt_lt t.iss (by omega) (by omega)
    show (if seqLt t.sendNext _ then _ else t.sendNext) = _
    by_cases c : u + o < u + e
    · rw [hlt, if_pos (by simpa using c)]
      congr 1
      omega
    · rw [hlt, if_neg (by simpa using c), hnext]
      show seqAt t.iss _ = seqAt t.iss _
      congr 1
      omega
  · show t.sendHigh = seqAt t.iss _
    rw [show t.sendHigh = seqAt t.iss (u + d) from h.high]
    congr 1
    omega
  · simp only [SEND_BUFFER]
    omega
  · omega
  · -- what is left of `pending` starts at byte `u + e`
    intro hne
    have hlen := length_pos_iff.mpr hne
    have hpend : t.send.pending ≠ [] := by
      intro c
      have : t.pending.length = 0 := by rw [show t.pending = [] from c]; rfl
      omega
    have hcf : t.finCovered (seqAt t.iss (u + e)) = false := by
      by_contra c
      have hc : t.finCovered (seqAt t.iss (u + e)) = true := by simpa using c
      have := hcov hc
      rw [hbytes, if_pos hc] at hplen
      omega
    rw [hbytes, hcf, if_neg (by simp)] at hplen
    obtain ⟨k, hk, hw⟩ := h.queued hpend
    refine ⟨k + e, by omega, ?_⟩
    rw [← drop_drop, hw]
    show _ = t.pending.drop (min (t.ackedBytes _) _)
    rw [hbytes, hcf, if_neg (by simp)]
    show t.pending.drop e = _
    congr 1
    omega
  · intro hc hn
    have hcf : t.finCovered (seqAt t.iss (u + e)) = false := by
      rw [Tcb.finCovered, show t.finSequence = none from hn]
    have h0 : o ≤ t.pending.length + if u = 0 then 1 else 0 := h.finNone hc hn
    rw [hplen, hbytes, hcf, if_neg (by simp), if_neg (by omega)]
    split at h0
    · -- with the SYN outstanding nothing else is queued
      have hp : t.send.pending = [] := by
        by_contra hne
        obtain ⟨k, hk, -⟩ := h.queued hne
        omega
      have : t.pending.length = 0 := by rw [show t.pending = [] from hp]; rfl
      omega
    · omega
  · intro f hf hack
    have hack := Bool.or_eq_false_iff.mp hack
    obtain ⟨m, hm, hmp, hmd⟩ := hnot hack.2 hack.1 f hf
    refine ⟨m, hm, ?_, by omega⟩
    rw [hplen, hbytes, hack.2, if_neg (by simp)]
    omega
  · intro hack
    have hack := (Bool.or_eq_true _ _).mp hack
    apply eq_nil_of_length_eq_zero
    rw [hplen]
    rcases hack with hack | hack
    · have : t.pending = [] := h.finAcked hack
      simp [this]
    · have := hcov hack
      rw [hbytes, if_pos hack]
      omega

/-- an acknowledgement of something outstanding, of the SYN if that completes the handshake -/
lemma Flight.dropped (hst : ¬(t.state = .SynSent ∨ t.state = .SynReceived))
    (ha : t.acknowledges a = true)
    (hlive : t.state = .Established ∨ t.state = .CloseWait → t.finQueued = false →
      Writable W t.send u d ∨ Opening W t.send u o d) :
    ∃ u' o' d', Sends iss W old (t.dropped env a).send u' o' d' := by
  obtain ⟨e, rfl, hpos, he⟩ := h.acknowledged ha
  have hf := h.acked hpos he
  have hbytes := h.ackedBytes he
  refine ⟨u + e, o - e, d - e, ?_⟩
  rw [send_dropped]
  refine ⟨hf, fun hl hq => ?_, fun ho => absurd ho hst⟩
  have hcf : ∀ x, t.finSequence = none → t.finCovered x = false := by
    intro x hn
    rw [Tcb.finCovered, hn]
  rcases hlive hl hq with w | w
  · -- in the flow of data: `e` bytes of `pending`, all of them sent
    obtain ⟨k, hk, hkw, hdrop⟩ := w.queued
    have hsent : d ≤ t.pending.length := w.sent
    have hn := hcf (seqAt t.iss (u + e)) w.noFin
    rw [hn, if_neg (by simp)] at hbytes
    have hlen : t.pending.length = W.length - k := by
      rw [show t.pending = W.drop k from hdrop.symm, length_drop]
    have hmin : min (t.ackedBytes (seqAt t.iss (u + e))) t.pending.length = e := by omega
    have hp : (t.ackedView (seqAt t.iss (u + e))).pending = t.pending.drop e := by
      show t.pending.drop _ = _
      rw [hmin]
    refine ⟨⟨k + e, by omega, by omega, ?_⟩, ?_, w.noFin, ?_⟩
    · rw [hp, ← drop_drop, hdrop]
      rfl
    · rw [hp, length_drop]
      omega
    · show (t.finAcknowledged || _) = false
      rw [hn, show t.finAcknowledged = false from w.noFinAck]
      rfl
  · -- the handshake: `e` is the SYN alone
    have hn := hcf (seqAt t.iss (u + e)) w.noFin
    have hu := w.u_eq
    have hd := w.d_eq
    have hpend : t.pending = [] := w.pending
    have hp : (t.ackedView (seqAt t.iss (u + e))).pending = [] := by
      show t.pending.drop _ = _
      rw [hpend, drop_nil]
    refine ⟨⟨0, by omega, zero_le _, ?_⟩, ?_, w.noFin, ?_⟩
    · rw [hp, w.written]
      rfl
    · rw [hp]
      simp only [length_nil]
      omega
    · show (t.finAcknowledged || _) = false
      rw [hn, show t.finAcknowledged = false from w.noFinAck]
      rfl

end

/-! ## changes of state -/

/-- the state moves, and the queue is kept, or dropped where nothing more can be sent -/
lemma Flight.drop (h : Flight iss W old v u o d) {s : State} {p : List Byte} {q : Bool}
    (hp : p = v.pending ∨ p = [])
    (hc : s.canOutput = true → v.state.canOutput = true ∧ p = v.pending) :
    Flight iss W old { v with state := s, pending := p, finQueued := q } u o d := by
  have hlen : p.length ≤ v.pending.length := by
    rcases hp with rfl | rfl
    · exact le_refl _
    · exact zero_le _
  refine ⟨h.iss_eq, h.una, h.next, h.high, h.order, h.bound, le_trans hlen h.room, fun hne => ?_,
    fun c hn => ?_, fun f hf ha => ?_, fun ha => ?_, h.data⟩
  · obtain rfl := hp.resolve_right hne
    exact h.queued hne
  · obtain ⟨hout, rfl⟩ := hc c
    exact h.finNone hout hn
  · obtain ⟨m, hm, hle, hd⟩ := h.finSome f hf ha
    exact ⟨m, hm, le_trans hlen hle, hd⟩
  · rcases hp with rfl | rfl
    · exact h.finAcked ha
    · rfl

lemma Sends.moves (h : Sends iss W old t.send u o d) (hm : Moves t t') :
    Sends iss W old t'.send u o d := by
  rw [hm.send]
  refine ⟨h.toFlight.drop hm.short fun hc => ⟨(hm.kept hc).1, (hm.kept hc).2.1⟩, fun hl hq => ?_,
    fun ho => ?_⟩
  · have hu : t'.state.canOutput = true ∧ t'.state.unshut = true := by
      rcases hl with e | e <;> rw [show t'.state = _ from e] <;> exact ⟨rfl, rfl⟩
    obtain ⟨hc, hp, -⟩ := hm.kept hu.1
    have hlive : t.state = .Established ∨ t.state = .CloseWait := by
      have hu := hm.unshut hu.2
      revert hc hu
      cases t.state <;> simp [State.canOutput, State.unshut]
    have w := h.live hlive hq
    rw [hp]
    exact { w with }
  · obtain ⟨hs, hp⟩ := hm.opening ho
    have w := h.opening (by rwa [show t.send.state = t'.state from hs.symm])
    rw [hp]
    exact { w with }

lemma Sends.ends (h : Sends iss W old t.send u o d) (he : Ends t t') :
    Sends iss W old t'.send u o d := by
  rw [he.send]
  exact ⟨h.toFlight.drop he.short nofun, (fun l => by simp at l), (fun l => by simp at l)⟩

/-! ## whole segments -/

/-- with the SYN outstanding an acknowledgement is of the SYN alone -/
lemma Opening.acknowledged (h : Flight iss W old t.send u o d) (w : Opening W t.send u o d)
    (hlt : seqLt t.sendUnacknowledged a = true) (hle : seqLe a t.sendHigh = true) :
    a = seqAt t.iss 1 ∧ t.acknowledges a = true := by
  have hu : t.sendUnacknowledged = seqAt t.iss 0 := by rw [← w.u_eq]; exact h.una
  have hh : t.sendHigh = seqAt t.iss 1 := by
    rw [show t.sendHigh = seqAt t.iss (u + d) from h.high, w.u_eq, w.d_eq]
  rw [hu] at hlt
  obtain ⟨e, rfl, hpos, hmax⟩ := exists_seqAt_of_lt t.iss a hlt
  have hle' := hle
  rw [hh, seqLe, seqAt_le t.iss (by omega) (by omega), decide_eq_true_eq] at hle'
  obtain rfl : e = 1 := by omega
  refine ⟨rfl, ?_⟩
  rw [acknowledges, hle, hu, seqGt, seqAt_gt t.iss (by omega) (by omega)]
  rfl

section
variable (h : Sends iss W old t.send u o d)
include h

lemma Sends.completeHandshake (hs : t.state = .SynReceived) :
    Flight iss W old t.completeHandshake.send u o d := by
  have w := h.opening (.inr hs)
  refine { h.toFlight with finNone := fun _ _ => ?_ }
  rw [w.o_eq, if_pos w.u_eq]
  exact le_add_left _ _

lemma Sends.heard (hs : t.state ≠ .SynSent) {w : Tcb} (hw : Heard t s w) (duplicate : Bool) :
    ∃ u' o' d', Sends iss W old (w.heard env s duplicate).send u' o' d' := by
  refine heard_rule (P := fun w => ∃ u o d, Sends iss W old w.send u o d) (fun ha => ?_) (fun ha => ?_)
    (fun h hr => ?_) (fun h => ?_)
  · cases hw with
    | past hst =>
      exact h.toFlight.dropped (fun ho => ho.elim hs hst) ha fun l q => .inl (h.live l q)
    | opened hst =>
      have w := h.opening (.inr hst)
      exact Flight.dropped (t := t.completeHandshake) (h.completeHandshake hst) (by simp [Tcb.completeHandshake])
        ha fun _ _ => .inr
          { w with }
  · cases hw with
    | past => exact ⟨u, o, d, h⟩
    | opened hst hlt hle =>
      obtain ⟨-, ha'⟩ := (h.opening (.inr hst)).acknowledged h.toFlight hlt hle
      exact absurd (ha'.symm.trans ha) (by simp)
  · obtain ⟨u, o, d, h⟩ := h
    exact ⟨u, o, d, h.resent hr⟩
  · rwa [Tcb.send_takeWindow]

lemma Sends.established (hs : t.state = .SynSent) (hlt : seqLt t.iss s.acknowledgement = true)
    (hle : seqLe s.acknowledgement t.sendNext = true) :
    s.acknowledgement = seqAt t.iss 1 ∧ Sends iss W old (t.established env s).send 1 0 0 := by
  have w := h.opening (.inl hs)
  have hiss : t.sendUnacknowledged = t.iss := by
    rw [show t.sendUnacknowledged = seqAt t.iss u from h.una, w.u_eq, seqAt_zero]
  have hnext : t.sendNext = seqAt t.iss (1 + 0) := by
    rw [show t.sendNext = seqAt t.iss (u + o) from h.next, w.u_eq, w.o_eq]
  have hhigh : t.sendHigh = seqAt t.iss (1 + 0) := by
    rw [show t.sendHigh = seqAt t.iss (u + d) from h.high, w.u_eq, w.d_eq]
  obtain ⟨ha, -⟩ := w.acknowledged h.toFlight (hiss ▸ hlt) (hnext.trans hhigh.symm ▸ hle)
  have hp : t.send.pending = [] := w.pending
  refine ⟨ha, ?_⟩
  rw [send_established, ha]
  refine ⟨⟨h.iss_eq, rfl, hnext, hhigh, le_refl _, zero_le _, h.room, fun hne => absurd hp hne,
    fun _ _ => zero_le _, fun f hf => ?_, h.finAcked, h.data⟩,
    fun _ _ => ⟨⟨0, rfl, zero_le _, ?_⟩, zero_le _, w.noFin, w.noFinAck⟩, by simp⟩
  · exact nomatch w.noFin.symm.trans hf
  · rw [w.written]
    exact hp.symm

lemma Sends.crossed (hs : t.state = .SynSent) (s : Segment) :
    Sends iss W old (t.crossed env s).send u o d := by
  have w := h.opening (.inl hs)
  rw [send_crossed]
  exact ⟨h.toFlight.drop (.inl rfl) nofun, by simp, fun _ => { w with }⟩

end

/-! ## the other calls -/

section
variable (h : Sends iss W old t.send u o d)
include h

lemma Sends.goBack (hst : ¬(t.state = .SynSent ∨ t.state = .SynReceived)) :
    Sends iss W old t.goBack.send u 0 d := by
  have e : t.goBack.send =
      { t.send with sendNext := t.send.sendUnacknowledged, finSequence := none } := by rfl
  rw [e]
  refine ⟨{ h.toFlight with
      next := h.una
      order := zero_le _
      finNone := fun _ _ => zero_le _
      finSome := fun _ hf => nomatch hf }, fun l q => ?_, fun ho => absurd ho hst⟩
  have w := h.live l q
  exact { w with noFin := rfl }

omit h in
lemma Sends.probe (h : Sends iss W old t.send u 0 d) {byte : Byte} {rest : List Byte}
    (hp : t.pending = byte :: rest) (hst : ¬(t.state = .SynSent ∨ t.state = .SynReceived)) :
    Sends iss W old (t.probe env byte).send u 1 (max d 1) := by
  have hnext : t.sendNext = seqAt t.iss u := h.next
  have hlen : 0 < t.pending.length := by rw [hp]; exact Nat.succ_pos _
  obtain ⟨new, hview, hnew⟩ := send_sendThrough env t ACK t.sendNext (t.sendNext + 1) [byte]
  have hpin : ∀ s ∈ new, Pinned W iss s := by
    intro s hs
    obtain ⟨hs1, hs2⟩ := hnew s hs
    refine h.toFlight.pinned (i := 0) (n := 1) hlen (hs1.trans hnext) ?_
    rw [hs2, show t.send.pending = byte :: rest from hp]
    rfl
  have hf := h.toFlight.send hpin
  have hfin : t.sendNext + 1 = seqAt t.iss (u + 1) := by
    rw [hnext]
    exact seqAt_add t.iss u 1
  have hhigh : (if seqLt t.sendHigh (seqAt t.iss (u + 1)) then seqAt t.iss (u + 1)
      else t.sendHigh) = seqAt t.iss (u + max d 1) := sentThrough_high h.toFlight (by decide)
  rw [Tcb.probe, hview, hfin, hhigh]
  have hb := h.bound
  refine ⟨⟨hf.iss_eq, hf.una, rfl, rfl, Nat.le_max_right _ _, by omega, hf.room, hf.queued,
    fun _ _ => Nat.le_trans hlen (Nat.le_add_right _ _), ?_, hf.finAcked, hf.data⟩, ?_,
    fun ho => absurd ho hst⟩
  · intro f he ha
    obtain ⟨m, hm, hm1, hm2⟩ := h.finSome f he ha
    exact ⟨m, hm, hm1, by omega⟩
  · intro l q
    have hw := h.live l q
    exact ⟨hw.queued, Nat.max_le.mpr ⟨hw.sent, hlen⟩, hw.noFin, hw.noFinAck⟩

lemma Sends.retransmit : ∃ o' d', Sends iss W old (t.retransmit env).send u o' d' := by
  rcases retransmit_cases env t with ⟨-, hm⟩ | ⟨hst, e | ⟨byte, rest, hp, e⟩⟩
  · exact ⟨o, d, h.moves hm⟩
  · rw [e]
    exact (h.goBack hst).output
  · rw [e]
    exact ⟨_, _, (h.goBack hst).probe hp hst⟩

/-- a FIN queued behind everything: what was the last number before it stays -/
lemma Sends.shut {state : State} (hs : Shuts t.state state) :
    Sends iss W old ({ t with finQueued := true, state := state } : Tcb).send u o d := by
  refine ⟨{ h.toFlight with finNone := fun _ hn => ?_ }, (fun _ q => nomatch q), fun ho => ?_⟩
  · have hc : t.state.canOutput = true ∨ t.state = .SynReceived := by
      generalize t.state = first at hs
      cases hs
      · exact .inl rfl
      · exact .inr rfl
      · exact .inl rfl
    rcases hc with hc | hc
    · exact h.finNone hc hn
    · have w := h.opening (.inr hc)
      rw [w.o_eq, if_pos w.u_eq]
      exact le_add_left _ _
  · have ho : state = .SynSent ∨ state = .SynReceived := ho
    generalize t.state = first at hs
    cases hs <;> simp at ho

lemma Sends.enqueue (hl : t.state = .Established ∨ t.state = .CloseWait)
    (hq : t.finQueued = false) (hroom : t.pending.length + bytes.length ≤ SEND_BUFFER) :
    Sends iss (W ++ bytes) t.send.data (t.enqueue bytes).send u o d := by
  have w := h.live hl hq
  have hdrop : ∀ k, k ≤ W.length → W.drop k = t.pending →
      (W ++ bytes).drop k = t.pending ++ bytes := by
    intro k hk e
    rw [drop_append_of_le_length hk, e]
  obtain ⟨k, hk, hkw, hd⟩ := w.queued
  have hlen : (t.pending ++ bytes).length = t.pending.length + bytes.length := length_append
  have hn : t.send.finSequence = none := w.noFin
  have e : (t.enqueue bytes).send = { t.send with pending := t.pending ++ bytes } := by rfl
  rw [e]
  refine ⟨⟨h.iss_eq, h.una, h.next, h.high, h.order, h.bound, by rw [hlen]; exact hroom,
    fun _ => ⟨k, hk, hdrop k hkw hd⟩, fun c hn => ?_, ?_, ?_, [], (append_nil _).symm, by simp⟩,
    fun _ _ => ⟨⟨k, hk, ?_, hdrop k hkw hd⟩, ?_, hn, w.noFinAck⟩, ?_⟩
  · have := h.finNone c hn
    rw [hlen]
    have hp : t.send.pending.length = t.pending.length := rfl
    omega
  · intro f hf
    exact absurd (hn.symm.trans hf) (by simp)
  · intro ha
    exact absurd (w.noFinAck.symm.trans ha) (by simp)
  · rw [length_append]
    omega
  · rw [hlen]
    exact le_trans w.sent (le_add_right _ _)
  · intro ho
    rcases hl with hl | hl <;> rcases ho with ho | ho <;> exact absurd (hl.symm.trans ho) (by simp)

end

/-! ## runs -/

lemma Sends.rebase (h : Sends iss W old v u o d) : Sends iss W v.data v u o d :=
  { h with data := ⟨[], (append_nil _).symm, by simp⟩ }

/-- **One call.**  Every data segment it sends carries bytes of what has been written by then. -/
theorem Sends.effect {c : Call} (h : Sends iss W t.send.data t.send u o d)
    (he : Effect t c t' bytes) :
    ∃ u' o' d', Sends iss (W ++ bytes) t.send.data t'.send u' o' d' := by
  have same : ∀ {x : SendView}, (∃ u' o' d', Sends iss W t.send.data x u' o' d') →
      ∃ u' o' d', Sends iss (W ++ []) t.send.data x u' o' d' := by
    rw [append_nil]
    exact id
  cases he with
  | moves hm => exact same ⟨u, o, d, h.moves hm⟩
  | ends he => exact same ⟨u, o, d, h.ends he⟩
  | @heard env s w hh hw =>
    have hs : t.state ≠ .SynSent := by
      intro e
      simp [hears, e] at hh
    obtain ⟨u', o', d', h'⟩ := h.heard hs hw (t.isDuplicate s)
    exact same ⟨u', (h'.moves (onAcknowledgement_stages env w s _).1).output⟩
  | established hs hlt hle => exact same ⟨1, (h.established hs hlt hle).2.output⟩
  | crossed hs => exact same ⟨u, o, d, h.crossed hs _⟩
  | resent hs => exact same ⟨u, Sends.retransmit (by rwa [send_backOff, hs])⟩
  | queued hl hq => exact ⟨u, (h.enqueue hl hq (by rw [length_take]; omega)).output⟩
  | shut hs => exact same ⟨u, (h.shut hs).output⟩

lemma Sends.step {s : Session} (h : Sends iss s.written s.tcb.send.data s.tcb.send u o d)
    (c : Call) :
    ∃ u' o' d', Sends iss (s.step c).written s.tcb.send.data (s.step c).tcb.send u' o' d' := by
  obtain ⟨bytes, he, e⟩ := s.effect c
  rw [e]
  exact h.effect he

def OnStream (W : List Byte) (iss : Seq) (x : Segment) : Prop :=
  ∃ p, x.sequence = seqAt (iss + 1) p ∧ OccursAt W p x.payload

/-- what holds of a connection and its program between calls -/
structure Streams (iss : Seq) (s : Session) : Prop where
  sends : ∃ u o d, Sends iss s.written s.tcb.send.data s.tcb.send u o d
  wire : ∀ x ∈ dataSegments s.tcb.wire, OnStream s.written iss x

lemma Streams.step {s : Session} (h : Streams iss s) (c : Call) : Streams iss (s.step c) := by
  obtain ⟨u, o, d, hs⟩ := h.sends
  obtain ⟨u', o', d', h'⟩ := hs.step c
  refine ⟨⟨u', o', d', h'.rebase⟩, fun x hx => ?_⟩
  obtain ⟨new, e, hn⟩ := h'.data
  obtain ⟨more, -, hw⟩ := s.effect c
  rw [show dataSegments (s.step c).tcb.wire = _ from e] at hx
  rcases mem_append.mp hx with hx | hx
  · obtain ⟨p, hp, ho⟩ := h.wire x hx
    exact ⟨p, hp, hw ▸ ho.extend more⟩
  · obtain ⟨p, hp, ho, -⟩ := hn x hx
    exact ⟨p, hp, ho⟩

def SendView.synSent (state : State) (iss : Seq) : SendView :=
  ⟨state, iss, iss, iss + 1, iss + 1, [], false, none, false, []⟩

lemma sends_synSent {s : State} {iss : Seq} (hs : s = .SynSent ∨ s = .SynReceived) :
    Sends iss [] [] (SendView.synSent s iss) 0 1 1 := by
  refine ⟨⟨rfl, (seqAt_zero iss).symm, rfl, rfl, le_refl _, by decide, zero_le _,
    fun h => absurd rfl h, ?_, (fun _ hf => nomatch hf), (fun h => nomatch h), [], rfl, by simp⟩,
    ?_, fun _ => ⟨rfl, rfl, rfl, rfl, rfl, rfl, rfl, rfl⟩⟩
  · intro hc
    exact absurd hs (not_opening_of_canOutput hc)
  · intro hl
    rcases hs with rfl | rfl <;> simp [SendView.synSent] at hl

lemma seqLt_succ (iss : Seq) : seqLt iss (iss + 1) = true := by
  have e := seqAt_lt iss (p := 0) (q := 1) (by omega) (by omega)
  rw [seqAt_zero] at e
  exact e

lemma send_sentSyn (t : Tcb) (iss : Seq) (hv : t.send.sendHigh = iss) :
    (t.sentThrough (iss + 1)).send = { t.send with sendNext := iss + 1, sendHigh := iss + 1 } := by
  rw [send_sentThrough, show t.sendHigh = iss from hv, seqLt_succ iss]
  rfl

lemma send_openActive (env : Env) (t : Tcb) (iss : Seq) : (t.openActive env iss).send =
    { t.send with
      state := .SynSent
      iss := iss
      sendUnacknowledged := iss
      sendNext := iss + 1
      sendHigh := iss + 1 } := by
  have hs := Tcb.send_sendSegment_nil env (t.startActive iss) SYN iss true
  simp only [Tcb.openActive, Tcb.send_armRetransmit, Tcb.send_timeSegment]
  rw [send_sentSyn _ iss (by rw [hs]; rfl), hs]
  rfl

lemma send_openActive_clear {u : Tcb} {iss : Seq} (hwire : dataSegments u.wire = [])
    (hclear : SendClear (u.openActive env iss)) :
    (u.openActive env iss).send = SendView.synSent .SynSent iss := by
  have hv := send_openActive env u iss
  have hp : u.send.pending = [] := (congrArg SendView.pending hv).symm.trans hclear.pending
  have hq : u.send.finQueued = false := (congrArg SendView.finQueued hv).symm.trans hclear.notQueued
  have hf : u.send.finSequence = none := (congrArg SendView.finSequence hv).symm.trans hclear.noFin
  have ha : u.send.finAcknowledged = false :=
    (congrArg SendView.finAcknowledged hv).symm.trans hclear.unacknowledged
  rw [hv]
  simp only [hp, hq, hf, ha, show u.send.data = [] from hwire]
  rfl

lemma send_accepted (env env' : Env) (heldBytes : Nat) (request : Segment) (iss : Seq) :
    (((Tcb.new heldBytes).acceptOpen env request iss).sendSynAck env').send =
      SendView.synSent .SynReceived iss := by
  rw [Tcb.send_sendSynAck]
  have hs := send_request (Tcb.new heldBytes) request
  simp only [Tcb.acceptOpen, Tcb.send_timeSegment]
  generalize ((Tcb.new heldBytes).takeRequest request).takeMss request = r at hs
  have hp : (r.startPassive iss).send = { r.send with
      iss := iss, sendUnacknowledged := iss, sendHigh := iss, state := .SynReceived } := by rfl
  rw [send_sentSyn _ iss (by rw [hp]), hp, hs]
  rfl

/-- the send side of a connection just opened: its SYN is on its way and nothing else -/
lemma Opened.send_eq (h : Opened t) (hclear : SendClear t) :
    ∃ s, (s = .SynSent ∨ s = .SynReceived) ∧ t.send = SendView.synSent s t.iss := by
  obtain ⟨s, iss, hs, hview⟩ : ∃ s iss, (s = .SynSent ∨ s = .SynReceived) ∧
      t.send = SendView.synSent s iss := by
    cases h with
    | active env heldBytes iss => exact ⟨_, _, .inl rfl, send_openActive_clear rfl hclear⟩
    | again h calls env iss => exact ⟨_, _, .inl rfl, send_openActive_clear rfl hclear⟩
    | passive env env' heldBytes request iss => exact ⟨_, _, .inr rfl, send_accepted ..⟩
  exact ⟨s, hs, by rw [hview, show t.iss = iss from congrArg SendView.iss hview]⟩

lemma Opened.sends (h : Opened t) (hclear : SendClear t) :
    Sends t.iss [] t.send.data t.send 0 1 1 := by
  obtain ⟨s, hs, e⟩ := h.send_eq hclear
  rw [e]
  exact sends_synSent hs

/-- **the send side sends what was written**: whatever arrives, expires, is written or shut, a
segment with data carries, at `iss + 1 + p`, the bytes of `written` from `p` on, no more than a send
buffer behind its end if the last call sent it; where the Tcb carries nothing of a connection
before -/
theorem sent_stream (t : Tcb) (calls : List Call) (c : Call) (ht : Opened t) (hclear : SendClear t) :
    let s := Run.run Session.step (.start t) calls
    let s' := s.step c
    (∀ x ∈ s'.tcb.wire, x.payload ≠ [] → ∃ p, x.sequence - t.iss - 1 = BitVec.ofNat 32 p ∧
      p + x.payload.length ≤ s'.written.length ∧
      x.payload = (s'.written.drop p).take x.payload.length) ∧
    ∃ new, dataSegments s'.tcb.wire = dataSegments s.tcb.wire ++ new ∧
      ∀ x ∈ new, ∃ p, x.sequence - t.iss - 1 = BitVec.ofNat 32 p ∧
        p + x.payload.length ≤ s'.written.length ∧ s'.written.length ≤ p + SEND_BUFFER ∧
        x.payload = (s'.written.drop p).take x.payload.length := by
  intro s s'
  have hstart : Streams t.iss (Session.start t) := by
    refine ⟨⟨0, 1, 1, ht.sends hclear⟩, fun x hx => ?_⟩
    obtain ⟨st, -, e⟩ := ht.send_eq hclear
    have hd : dataSegments t.wire = [] := congrArg SendView.data e
    rw [show dataSegments (Session.start t).tcb.wire = [] from hd] at hx
    cases hx
  have hrun := Run.keeps (I := Streams t.iss) (fun _ c h => h.step c) hstart calls
  have number : ∀ {x : Segment} {p : Nat}, x.sequence = seqAt (t.iss + 1) p →
      x.sequence - t.iss - 1 = BitVec.ofNat 32 p := by
    intro x p hp
    rw [hp, seqAt, sub_sub, add_sub_cancel_left]
  refine ⟨fun x hx hne => ?_, ?_⟩
  · obtain ⟨p, hp, ho⟩ := (hrun.step c).wire x
      (mem_filter.mpr ⟨hx, by simpa using hne⟩)
    exact ⟨p, number hp, ho.length_le hne, ho.eq_take.symm⟩
  · obtain ⟨u, o, d, hs⟩ := hrun.sends
    obtain ⟨u', o', d', h'⟩ := hs.step c
    obtain ⟨new, e, hn⟩ := h'.data
    refine ⟨new, e, fun x hx => ?_⟩
    obtain ⟨p, hp, ho, hpin⟩ := hn x hx
    have hne : x.payload ≠ [] := by
      have hm : x ∈ dataSegments s'.tcb.wire :=
        (show dataSegments s'.tcb.wire = _ from e) ▸ mem_append_right _ hx
      simpa using (mem_filter.mp hm).2
    exact ⟨p, number hp, ho.length_le hne, hpin, ho.eq_take.symm⟩

/-- a write of two bytes, an acknowledgement of the SYN and the first, and a timeout that sends the
second again -/
def retransmitted : List Call :=
  [.segment ⟨1, 1, true⟩ ⟨501, 101, ACK, 1, none, []⟩, .write ⟨2, 2, true⟩ [7, 8],
   .segment ⟨3, 3, true⟩ ⟨501, 102, ACK, 1, none, []⟩]

/-- the second byte goes out twice, under its own number -/
theorem sent_stream_retransmitted :
    let t := ((new 0).acceptOpen ⟨0, 0, true⟩ ⟨500, 0, SYN, 65535, none, []⟩ 100).sendSynAck
      ⟨0, 0, true⟩
    let s' := (Run.run Session.step (.start t) retransmitted).step (.timer ⟨900, 900, true⟩ 900)
    s'.tcb.wire.map (fun x => (x.sequence, x.payload)) =
      [(100, []), (101, [7]), (102, [8]), (102, [8])] ∧
    ∀ x ∈ s'.tcb.wire, x.payload ≠ [] → ∃ p, x.sequence - t.iss - 1 = BitVec.ofNat 32 p ∧
      p + x.payload.length ≤ s'.written.length ∧
      x.payload = (s'.written.drop p).take x.payload.length :=
  ⟨by decide +kernel,
    (sent_stream _ retransmitted (.timer ⟨900, 900, true⟩ 900) (.passive _ _ _ _ _)
      ⟨rfl, rfl, rfl, rfl⟩).1⟩

/-- a connection shut by its program whose FIN is never acknowledged: it is given up -/
def givenUp : List Call :=
  [.segment ⟨2, 0, true⟩ ⟨500, 101, SYN ||| ACK, 1000, none, []⟩, .shutdownWrite ⟨3, 0, true⟩] ++
    (List.range 9).map fun n => .timer ⟨1000 * (n + 1), 0, true⟩ (1000 * (n + 1))

/-- the Tcb of it opened again, with the FIN's number still in it -/
def askingAgain : Tcb :=
  (Run.run Session.step (.start ((new 0).openActive ⟨1, 0, true⟩ 100)) givenUp).tcb.reopen
    ⟨9001, 0, true⟩ 200

/-- three bytes written on it, and an acknowledgement of the first -/
def firstTaken : List Call :=
  [.segment ⟨9002, 0, true⟩ ⟨700, 201, SYN ||| ACK, 1000, none, []⟩,
   .write ⟨9003, 0, true⟩ [1, 2, 3], .segment ⟨9004, 0, true⟩ ⟨701, 202, ACK, 1000, none, []⟩]

/-- the acknowledgement is taken for one of the FIN, the first byte stays queued, and the timeout
sends it as the second -/
theorem sent_stream_shifted : Opened askingAgain ∧
    let s := Run.run Session.step (.start askingAgain) firstTaken
    let s' := s.step (.timer ⟨9900, 0, true⟩ 9900)
    s'.written = [1, 2, 3] ∧ ∃ x ∈ s'.tcb.wire, x.sequence = askingAgain.iss + 1 + 1 ∧
      x.payload = [1, 2, 3] :=
  ⟨.again (.active _ _ _) _ _ _ (by decide +kernel), by decide +kernel⟩

end ClaudeOs.Net
