import ClaudeOs.Net.Session
import ClaudeOs.Net.Reassembly

/-!
# The receive side delivers the peer's stream

The other end sends the byte stream `B` and then its FIN.  Segments arrive in any order, cut,
repeated, overlapping or not at all; what ties them to `B` is only that one inside the window
carries bytes of `B` at its sequence number (`Carries`).

* `Receives B irs taken v`  the invariant of the receive side: what was read and what is in the
  buffer is a prefix of `B`, `receive_next` counts it, and every run held past a gap is a piece of
  `B` inside the window;
* `Receives.onData` …  each part of `on_segment` keeps it;
* `received_stream`  in every run, what is read is a prefix of `B`, and the FIN is taken only behind
  all of `B`.
-/

namespace ClaudeOs.Net
open Serial Stream List Bool Tcb

/-! ## the invariant -/

def State.beforeFin : State → Bool
  | .SynReceived | .Established | .FinWait1 | .FinWait2 => true
  | _ => false

def State.afterFin : State → Bool
  | .CloseWait | .Closing | .LastAck | .TimeWait => true
  | _ => false

/-- what holds of the receive side between calls, `taken` being what was read so far -/
structure Receives (B : List Byte) (irs : Seq) (taken : List Byte) (v : RecvView) : Prop where
  irs_eq : v.irs = irs
  stream : OccursAt B 0 (taken ++ v.received)
  next : v.receiveNext = seqAt (irs + 1) (taken.length + v.received.length + v.finReceived.toNat)
  finished : v.finReceived = true → taken.length + v.received.length = B.length
  runs : Runs B (irs + 1) (taken.length + v.received.length + 65535)
    (taken.length + v.received.length) v.outOfOrder
  heldFin : v.finReceived = false → ∀ f, v.heldFin = some f →
    f = seqAt (irs + 1) B.length ∧ B.length ≤ taken.length + v.received.length + 2 ^ 31
  before : v.state.beforeFin = true → v.finReceived = false
  after : v.state.afterFin = true → v.finReceived = true
  opened : v.state ≠ .SynSent ∧ v.state ≠ .Listen
  shut : v.readShutdown = true → v.finReceived = true
  kept : v.abandoned = false

variable {B taken : List Byte} {irs : Seq} {t : Tcb} {v : RecvView} {env : Env}

lemma Receives.moved_le (h : Receives B irs taken v) :
    taken.length + v.received.length ≤ B.length := by
  have := h.stream.isPrefix.length_le
  rwa [length_append] at this

lemma Receives.setState (h : Receives B irs taken v) (s : State)
    (hb : s.beforeFin = true → v.finReceived = false)
    (ha : s.afterFin = true → v.finReceived = true) (ho : s ≠ .SynSent ∧ s ≠ .Listen) :
    Receives B irs taken { v with state := s } :=
  { h with before := hb, after := ha, opened := ho }

lemma Receives.dropHeld (h : Receives B irs taken v) :
    Receives B irs taken { v with outOfOrder := [], heldFin := none } :=
  { h with runs := trivial, heldFin := fun _ _ hf => nomatch hf }

/-- the receive side once the other end's initial sequence number is known -/
lemma RecvClear.receives (h : RecvClear v) (B : List Byte) (irs : Seq) {state : State}
    (hs : state = .SynReceived ∨ state = .Established) :
    Receives B irs [] { v with state := state, irs := irs, receiveNext := irs + 1 } where
  irs_eq := rfl
  stream := by simpa [h.received] using OccursAt.nil
  next := by simp [h.received, h.finReceived]
  finished := by simp [h.finReceived]
  runs := by simp [h.outOfOrder, Runs]
  heldFin := by simp [h.heldFin]
  before := fun _ => h.finReceived
  after := by rcases hs with rfl | rfl <;> simp [State.afterFin]
  opened := by rcases hs with rfl | rfl <;> simp
  shut := by simp [h.readShutdown]
  kept := h.abandoned

/-! ## what a segment carries -/

/-- the segment's bytes are those of `B` at its number, its FIN is behind them, and all is near
position `n` -/
def Carries (B : List Byte) (irs : Seq) (n : Nat) (s : Segment) : Prop :=
  ∃ p, s.sequence = seqAt (irs + 1) p ∧ n ≤ p + 2 ^ 31 ∧
    p + s.payload.length + (s.has FIN).toNat ≤ n + 2 ^ 31 ∧
    p + s.payload.length ≤ B.length ∧ OccursAt B p s.payload ∧
    (s.has FIN = true → p + s.payload.length = B.length)

/-! ## data -/

/-- a connection past the handshake: until the FIN it is in a state that takes data -/
def Synced (v : RecvView) : Prop :=
  v.finReceived = false → v.state = .Established ∨ v.state = .FinWait1 ∨ v.state = .FinWait2

lemma Receives.canReceive (h : Receives B irs taken t.recv) (hs : Synced t.recv)
    (hf : t.finReceived = false) : t.canReceive = true := by
  have hshut : t.readShutdown = false := by
    by_contra e
    have := h.shut (by simpa [Tcb.recv] using e)
    simp [Tcb.recv, hf] at this
  have hkept : t.abandoned = false := h.kept
  rcases hs hf with e | e | e <;>
    (have e' : t.state = _ := e; simp [Tcb.canReceive, hshut, hkept, e'])

lemma recv_deliverHeld (env : Env) (t : Tcb) : (t.deliverHeld env).recv = { t.recv with
        receiveNext := (deliverRuns t.outOfOrder t.receiveNext t.received).1
        received := (deliverRuns t.outOfOrder t.receiveNext t.received).2.1
        outOfOrder := (deliverRuns t.outOfOrder t.receiveNext t.received).2.2 } := by
  unfold deliverHeld; simp only; split <;> rfl

variable {payload : List Byte} {p : Nat} {s : Segment} {finish : Seq}

lemma recv_hold (env : Env) (t : Tcb) (sequence : Seq) (payload : List Byte) :
    (t.hold env sequence payload).recv = t.recv ∨
    seqLt sequence (t.receiveNext + BitVec.ofNat 32 t.advertisedWindow) = true ∧
    (t.hold env sequence payload).recv = { t.recv with
      outOfOrder := ({ t with outOfOrder := t.outOfOrder ++ [Held.mk sequence (payload.take
        (t.receiveNext + BitVec.ofNat 32 t.advertisedWindow - sequence).toNat)] }.coalesce
          ).dropFurthest.outOfOrder } := by
  unfold hold
  simp only
  by_cases hlt : seqLt sequence (t.receiveNext + BitVec.ofNat 32 t.advertisedWindow) = true
  · rw [if_neg (by simp [hlt])]
    split
    · exact .inl rfl
    · split
      · exact .inl rfl
      · refine .inr ⟨hlt, ?_⟩
        simp only [account, setHeld, armReassembly, recv, dropFurthest]
        split <;> rfl
  · rw [if_pos (by simpa using hlt)]
    exact .inl rfl

lemma outOfOrder_dropFurthest (t : Tcb) : t.dropFurthest.outOfOrder = t.outOfOrder ∨
    t.dropFurthest.outOfOrder = t.outOfOrder.dropLast := by
  unfold dropFurthest
  split
  · exact .inr rfl
  · exact .inl rfl

lemma advertisedWindow_le (t : Tcb) : t.advertisedWindow ≤ 65535 := by
  unfold advertisedWindow
  split <;> omega

lemma Synced.noteFin (hs : Synced t.recv) : Synced (t.noteFin env s finish).recv := by
  unfold Tcb.noteFin
  repeat' split
  all_goals exact hs

lemma recv_takeFin_of_finReceived (hf : t.finReceived = true) :
    (t.takeFin env).1.recv = { t.recv with heldFin := none } := by
  simp only [takeFin, hf, if_true]
  rfl

lemma Receives.synced (h : Receives B irs taken v) (hr : v.state ≠ .SynReceived)
    (hc : v.state ≠ .Closed) : Synced v := by
  intro hf
  have ha := h.after
  have ho := h.opened
  cases e : v.state <;> simp_all [State.afterFin]

lemma Receives.onFinAcknowledged (env : Env) (h : Receives B irs taken t.recv) (hs : Synced t.recv) :
    Receives B irs taken (t.onFinAcknowledged env).1.recv ∧
      Synced (t.onFinAcknowledged env).1.recv ∧ (t.onFinAcknowledged env).1.received = t.received ∧
      (t.onFinAcknowledged env).1.finReceived = t.finReceived := by
  have hk : t.abandoned = false := h.kept
  unfold Tcb.onFinAcknowledged
  split
  · split
    · -- FIN-WAIT-1 to FIN-WAIT-2
      rename_i st
      refine ⟨h.setState .FinWait2 (fun _ => h.before (by simp [Tcb.recv, st, State.beforeFin]))
        (by simp [State.afterFin]) (by simp), fun _ => .inr (.inr rfl), rfl, rfl⟩
    · -- CLOSING to TIME-WAIT
      rename_i st
      have hf : t.finReceived = true := h.after (by simp [Tcb.recv, st, State.afterFin])
      have e : (t.enterTimeWait env).recv =
          { t.recv with state := .TimeWait, outOfOrder := [], heldFin := none,
                        readShutdown := true } := by
        simp [Tcb.enterTimeWait, Tcb.dropOutOfOrder, Tcb.account, Tcb.setHeld, Tcb.recv, hk]
      have hd := (h.setState .TimeWait (by simp [State.beforeFin]) (fun _ => hf) (by simp)).dropHeld
      refine ⟨?_, ?_, ?_, ?_⟩
      · rw [e]
        exact { hd with shut := fun _ => hf }
      · rw [e]
        intro hf'
        exact absurd (hf.symm.trans hf') (by simp)
      · exact congrArg RecvView.received e
      · exact congrArg RecvView.finReceived e
    · -- LAST-ACK to CLOSED
      rename_i st
      have hf : t.finReceived = true := h.after (by simp [Tcb.recv, st, State.afterFin])
      refine ⟨h.setState .Closed (by simp [State.beforeFin]) (by simp [State.afterFin]) (by simp),
        fun hf' => absurd (hf.symm.trans hf') (by simp), rfl, rfl⟩
    · exact ⟨h, hs, rfl, rfl⟩
  · exact ⟨h, hs, rfl, rfl⟩

lemma readEmpty_cases (t : Tcb) (size : Nat) : (t.readEmpty size).1.recv = t.recv ∧
    ((t.readEmpty size).2 = .ok [] ∨ ∃ e, (t.readEmpty size).2 = .error e) := by
  unfold readEmpty
  repeat' split
  all_goals first | exact ⟨rfl, .inl rfl⟩ | exact ⟨rfl, .inr ⟨_, rfl⟩⟩

lemma recv_write (env : Env) (t : Tcb) (buf : List Byte) : (t.write env buf).1.recv = t.recv := by
  unfold write
  simp only
  repeat' split
  all_goals simp

section
variable (h : Receives B irs taken t.recv)
include h

lemma Receives.next_open (hf : t.finReceived = false) :
    t.receiveNext = seqAt (irs + 1) (taken.length + t.received.length) := by
  simpa [recv, hf] using h.next

lemma Receives.deliver (hf : t.finReceived = false)
    (ho : OccursAt B (taken.length + t.received.length) payload) :
    let k := min payload.length (RECEIVE_WINDOW - t.received.length)
    let t' := { t with
      received := t.received ++ payload.take k
      receiveNext := t.receiveNext + BitVec.ofNat 32 k }.deliverHeld env
    Receives B irs taken t'.recv ∧ t'.finReceived = t.finReceived ∧ t'.state = t.state ∧
      t.received.length ≤ t'.received.length := by
  intro k t'
  have hk : (payload.take k).length = k := by rw [length_take]; omega
  have hk' : k ≤ 65535 := by simp only [k, RECEIVE_WINDOW]; omega
  have hnext := h.next_open hf
  obtain ⟨moved, rest, he, hm, hr⟩ := deliverRuns_spec (n := taken.length + t.received.length + k)
    h.runs (t.received ++ payload.take k) (by simp [recv]) (by simp [recv]; omega)
    (by omega)
  have hview : t'.recv = { t.recv with
      receiveNext := seqAt (irs + 1) (taken.length + t.received.length + k + moved.length)
      received := t.received ++ payload.take k ++ moved
      outOfOrder := rest } := by
    simp only [t', recv_deliverHeld]
    simp only [hnext, seqAt_add]
    rw [show t.outOfOrder = t.recv.outOfOrder from rfl, he]
    rfl
  have hlen : (t.received ++ payload.take k ++ moved).length =
      t.received.length + k + moved.length := by
    rw [length_append, length_append, hk]
  refine ⟨?_, ?_, ?_, ?_⟩
  · rw [hview]
    refine ⟨h.irs_eq, ?_, ?_, ?_, ?_, ?_, h.before, h.after, h.opened, h.shut, h.kept⟩
    · have h1 : OccursAt B 0 (taken ++ t.received ++ payload.take k) :=
        h.stream.append (by simpa [recv] using ho.take k)
      have hm' : OccursAt B (0 + (taken ++ t.received ++ payload.take k).length) moved := by
        simp only [length_append, hk, Nat.zero_add]
        exact hm
      have h2 := h1.append hm'
      simpa [append_assoc] using h2
    · simp only [hlen, recv, hf]
      congr 1
      simp; omega
    · simp [recv, hf]
    · simp only [hlen]
      exact hr.mono (by omega) (by simp [recv]; omega)
    · intro hf' f hfin
      obtain ⟨e, hb⟩ := h.heldFin hf f hfin
      refine ⟨e, ?_⟩
      simp only [hlen]
      have : t.recv.received.length = t.received.length := rfl
      omega
  · exact congrArg RecvView.finReceived hview
  · exact congrArg RecvView.state hview
  · have : t'.received = _ := congrArg RecvView.received hview
    rw [this, hlen]
    omega

lemma Receives.hold (env : Env) (hf : t.finReceived = false)
    (hp : taken.length + t.received.length ≤ p)
    (hp' : p < taken.length + t.received.length + 2 ^ 31) (ho : OccursAt B p payload) :
    Receives B irs taken (t.hold env (seqAt (irs + 1) p) payload).recv := by
  have hnext := h.next_open hf
  have hw := advertisedWindow_le t
  rcases recv_hold env t (seqAt (irs + 1) p) payload with e | ⟨hlt, e⟩
  · rwa [e]
  · rw [hnext, seqAt_add] at hlt
    rw [seqLt, seqAt_lt _ (by omega) (by omega), decide_eq_true_eq] at hlt
    rw [e]
    refine { h with runs := ?_ }
    -- every run lies between `receive_next` and the right edge of the largest window
    have hplaced : ∀ r ∈ t.outOfOrder ++ [Held.mk (seqAt (irs + 1) p) (payload.take
        (t.receiveNext + BitVec.ofNat 32 t.advertisedWindow - seqAt (irs + 1) p).toNat)],
        Placed B (irs + 1) (taken.length + t.received.length)
          (taken.length + t.received.length + 65535) r := by
      intro r hr
      rcases mem_append.mp hr with hr | hr
      · exact h.runs.placed r hr
      · obtain rfl := mem_singleton.mp hr
        refine ⟨p, hp, ?_, rfl, ho.take _⟩
        rw [hnext, seqAt_add, seqAt_dist _ (by omega) (by omega)]
        simp only [length_take]
        omega
    obtain ⟨hpl, hap⟩ := coalesce_runs (by omega) hplaced
    rw [← hnext] at hpl hap
    rcases outOfOrder_dropFurthest ({ t with outOfOrder := t.outOfOrder ++ [Held.mk
      (seqAt (irs + 1) p) (payload.take (t.receiveNext + BitVec.ofNat 32 t.advertisedWindow -
        seqAt (irs + 1) p).toNat)] }.coalesce) with e' | e'
    · rw [e']
      exact Runs.of_placed (by omega) hpl (hnext ▸ hap)
    · rw [e']
      exact Runs.of_placed (by omega) (fun r hr => hpl r (dropLast_subset _ hr))
        (hnext ▸ hap.sublist (dropLast_sublist _))

lemma Receives.takeData (env : Env) (hs : Synced t.recv)
    (hp : taken.length + t.received.length + t.finReceived.toNat ≤ p)
    (hp' : p < taken.length + t.received.length + 2 ^ 31) (ho : OccursAt B p payload) :
    let t' := (t.takeData env (seqAt (irs + 1) p) payload).1
    Receives B irs taken t'.recv ∧ t'.finReceived = t.finReceived ∧ t'.state = t.state ∧
      t.received.length ≤ t'.received.length := by
  intro t'
  by_cases empty : payload = []
  · have e : t' = t := by simp [t', Tcb.takeData, empty]
    rw [e]
    exact ⟨h, rfl, rfl, Nat.le_refl _⟩
  · -- bytes of `B` at `p` mean that the FIN behind all of `B` has not been taken
    have hf : t.finReceived = false := by
      by_contra hf
      have hf' : t.finReceived = true := by simpa using hf
      have hB := h.finished hf'
      have hlen := ho.length_le empty
      have hB' : taken.length + t.received.length = B.length := hB
      rw [hf'] at hp
      simp only [toNat_true] at hp
      omega
    have hnext := h.next_open hf
    rw [hf] at hp
    simp only [toNat_false, Nat.add_zero] at hp
    have hne : ¬payload.isEmpty = true := by simpa using empty
    have hcan' : ¬(!t.canReceive) = true := by simp [h.canReceive hs hf]
    by_cases inOrder : seqAt (irs + 1) p = t.receiveNext
    · have e : t' = { t with
          received := t.received ++ payload.take
            (min payload.length (RECEIVE_WINDOW - t.received.length))
          receiveNext := t.receiveNext + BitVec.ofNat 32
            (min payload.length (RECEIVE_WINDOW - t.received.length)) }.deliverHeld env := by
        simp only [t', Tcb.takeData]
        rw [if_neg hne, if_neg hcan', if_pos inOrder]
      have hpn : p = taken.length + t.received.length := by
        rw [hnext] at inOrder
        exact seqAt_inj _ (by omega) (by omega) inOrder
      rw [e]
      exact h.deliver hf (hpn ▸ ho)
    · have e : t' = t.hold env (seqAt (irs + 1) p) payload := by
        simp only [t', Tcb.takeData]
        rw [if_neg hne, if_neg hcan', if_neg inOrder]
      rw [e]
      have hview := h.hold env hf hp hp' ho
      refine ⟨hview, ?_, ?_, ?_⟩ <;>
        rcases recv_hold env t (seqAt (irs + 1) p) payload with e' | ⟨-, e'⟩
      · exact congrArg RecvView.finReceived e'
      · exact congrArg RecvView.finReceived e'
      · exact congrArg RecvView.state e'
      · exact congrArg RecvView.state e'
      · exact Nat.le_of_eq (congrArg (fun v => v.received.length) e').symm
      · exact Nat.le_of_eq (congrArg (fun v => v.received.length) e').symm

/-- trimming leaves a piece of `B` no earlier than the byte wanted next -/
lemma Receives.trim (hne : s.payload ≠ [] ∨ s.has FIN = true)
    (hc : Carries B irs (taken.length + t.received.length + t.finReceived.toNat) s) :
    ∃ p, (t.trim s).1 = seqAt (irs + 1) p ∧
      taken.length + t.received.length + t.finReceived.toNat ≤ p ∧
      p < taken.length + t.received.length + 2 ^ 31 ∧ OccursAt B p (t.trim s).2 ∧
      (s.has FIN = true → t.finReceived = false → p + (t.trim s).2.length = B.length ∧
        B.length ≤ taken.length + t.received.length + 2 ^ 31) := by
  obtain ⟨p, hseq, hfar, hnear, hlen, ho, hfin⟩ := hc
  have hfin1 : t.finReceived.toNat ≤ 1 := toNat_le _
  have hpos : 0 < s.payload.length + (s.has FIN).toNat := by
    rcases hne with e | e
    · have := length_pos_iff.mpr e
      omega
    · simp [e]
  have hnext : t.receiveNext = _ := h.next
  have hlt : seqLt s.sequence t.receiveNext =
      decide (p < taken.length + t.received.length + t.finReceived.toNat) := by
    rw [hseq, hnext]
    exact seqAt_lt (irs + 1) (by simp only [Tcb.recv]; omega) (by simp only [Tcb.recv]; omega)
  unfold Tcb.trim
  by_cases old : p < taken.length + t.received.length + t.finReceived.toNat
  · -- the front of the segment had already arrived
    rw [hlt, if_pos (by simpa using old)]
    have hd : (t.receiveNext - s.sequence).toNat =
        taken.length + t.received.length + t.finReceived.toNat - p := by
      rw [hseq, hnext]
      exact seqAt_dist (irs + 1) (by simp only [Tcb.recv]; omega) (by simp only [Tcb.recv]; omega)
    refine ⟨_, hnext, Nat.le_refl _, by simp only [Tcb.recv]; omega, ?_, ?_⟩
    · have := ho.drop (taken.length + t.received.length + t.finReceived.toNat - p)
      rw [Nat.add_sub_of_le (by omega)] at this
      rw [hd]
      exact this
    · intro hF hf
      have hB := hfin hF
      have hle : taken.length + t.received.length ≤ B.length := h.moved_le
      rw [hd, length_drop]
      simp only [Tcb.recv, hf, toNat_false]
      simp only [hf, toNat_false] at old hnear
      omega
  · rw [hlt, if_neg (by simpa using old)]
    refine ⟨p, hseq, by omega, ?_, ho, ?_⟩
    · by_cases hf : t.finReceived = true
      · have hB : taken.length + t.received.length = B.length := h.finished hf
        omega
      · simp only [hf, toNat_false] at hnear
        omega
    · intro hF hf
      refine ⟨hfin hF, ?_⟩
      simp only [hF, hf, toNat_false, toNat_true] at hnear
      have := hfin hF
      omega

/-! ## the FIN -/

lemma Receives.noteFin
    (hf : s.has FIN = true → t.finReceived = false → finish = seqAt (irs + 1) B.length ∧
      B.length ≤ taken.length + t.received.length + 2 ^ 31) :
    Receives B irs taken (t.noteFin env s finish).recv := by
  have note : s.has FIN = true → Receives B irs taken { t.recv with heldFin := some finish } := by
    intro hfin
    refine { h with heldFin := ?_ }
    intro hr f e
    obtain rfl := Option.some.inj e
    exact hf hfin hr
  unfold Tcb.noteFin
  split
  · rename_i hfin
    split
    · exact note hfin
    · split
      · exact note hfin
      · exact h
  · exact h

def RecvView.takeFin (v : RecvView) (s : State) : RecvView :=
  { v with heldFin := none, finReceived := true, receiveNext := v.receiveNext + 1, state := s }

lemma Receives.takeHeldFin (hs : Synced t.recv) :
    Receives B irs taken (t.takeHeldFin env).1.recv := by
  unfold Tcb.takeHeldFin
  by_cases held : t.heldFin = some t.receiveNext
  · rw [if_pos held]
    by_cases hf : t.finReceived = true
    · rw [recv_takeFin_of_finReceived hf]
      exact { h with heldFin := fun _ _ e => nomatch e }
    · have hf : t.finReceived = false := by simpa using hf
      have hnext := h.next_open hf
      obtain ⟨e, hB⟩ := h.heldFin hf _ held
      have hle := h.moved_le
      have hall : taken.length + t.received.length = B.length := by
        rw [hnext] at e
        have hr : t.recv.received.length = t.received.length := rfl
        exact seqAt_inj _ (by omega) (by omega) e
      have hnext' : t.receiveNext + 1 =
          seqAt (irs + 1) (taken.length + t.received.length + toNat true) := by
        rw [hnext]
        exact seqAt_add (irs + 1) _ 1
      have base : ∀ s : State, s.beforeFin = false → s ≠ .SynSent ∧ s ≠ .Listen →
          Receives B irs taken (t.recv.takeFin s) := fun s hb ho =>
        ⟨h.irs_eq, h.stream, hnext', fun _ => hall, h.runs, (fun e => nomatch e),
          (fun e => absurd (hb.symm.trans e) (by simp)), (fun _ => rfl), ho, (fun _ => rfl), h.kept⟩
      have hk : t.abandoned = false := h.kept
      rcases hs hf with st | st | st <;> replace st : t.state = _ := st
      · have e : (t.takeFin env).1.recv = t.recv.takeFin .CloseWait := by
          simp only [Tcb.takeFin, hf, false_eq_true, if_false, Tcb.clearHeldFin, st]
          rfl
        rw [e]
        exact base .CloseWait rfl (by simp)
      · have e : (t.takeFin env).1.recv = t.recv.takeFin .Closing := by
          simp only [Tcb.takeFin, hf, false_eq_true, if_false, Tcb.clearHeldFin, st]
          rfl
        rw [e]
        exact base .Closing rfl (by simp)
      · have e : (t.takeFin env).1.recv =
            { t.recv.takeFin .TimeWait with outOfOrder := [], readShutdown := true } := by
          simp only [Tcb.takeFin, hf, false_eq_true, if_false, Tcb.clearHeldFin, st]
          simp [Tcb.enterTimeWait, Tcb.dropOutOfOrder, Tcb.account, Tcb.setHeld, Tcb.recv, hk,
            RecvView.takeFin]
        rw [e]
        have hd := (base .TimeWait rfl (by simp)).dropHeld
        exact { hd with shut := fun _ => rfl }
  · rw [if_neg held]
    exact h

/-! ## whole segments -/

lemma Receives.onData (hs : Synced t.recv) {wanted : Seq} (hc : s.payload ≠ [] ∨ s.has FIN = true →
      Carries B irs (taken.length + t.received.length + t.finReceived.toNat) s) :
    Receives B irs taken (t.onData env s wanted).1.recv := by
  simp only [Tcb.onData, Tcb.recv_output, Tcb.recv_answer]
  by_cases hne : s.payload ≠ [] ∨ s.has FIN = true
  · obtain ⟨p, hp, hlo, hhi, ho, hfin⟩ := h.trim hne (hc hne)
    rw [hp]
    obtain ⟨hd, hdf, hds, hdr⟩ := h.takeData env hs hlo hhi ho
    have hs' : Synced (t.takeData env (seqAt (irs + 1) p) (t.trim s).2).1.recv := by
      intro hf
      show Tcb.state _ = _ ∨ Tcb.state _ = _ ∨ Tcb.state _ = _
      rw [hds]
      exact hs (hdf.symm.trans hf)
    refine Receives.takeHeldFin (hd.noteFin ?_) hs'.noteFin
    intro hF hf
    obtain ⟨hB, hnear⟩ := hfin hF (hdf.symm.trans hf)
    refine ⟨by rw [seqAt_add, hB], by omega⟩
  · -- neither data nor a FIN: only a FIN held earlier can be taken
    have hpay : s.payload = [] := by simpa using (not_or.mp hne).1
    have htrim : (t.trim s).2 = [] := by
      unfold Tcb.trim
      split <;> simp [hpay]
    have hF : s.has FIN = false := by simpa using (not_or.mp hne).2
    have hd : (t.takeData env (t.trim s).1 (t.trim s).2).1 = t := by simp [Tcb.takeData, htrim]
    rw [hd, Tcb.noteFin, if_neg (by simp [hF])]
    exact h.takeHeldFin hs

lemma Receives.onAcknowledgement (hs : Synced t.recv) {duplicate : Bool}
    (hc : s.payload ≠ [] ∨ s.has FIN = true →
      Carries B irs (taken.length + t.received.length + t.finReceived.toNat) s) :
    Receives B irs taken (t.onAcknowledgement env s duplicate).1.recv := by
  simp only [Tcb.onAcknowledgement]
  generalize ha : (if t.acknowledges s.acknowledgement = true
    then t.takeAck env s.acknowledgement else t) = ta
  generalize hd : (if duplicate = true then ta.onDuplicate env else ta) = td
  have ea : ta.recv = t.recv := by subst ha; split <;> simp
  have ed : (td.takeWindow s).recv = t.recv := by
    rw [Tcb.recv_takeWindow, ← ea]
    subst hd
    split <;> simp
  obtain ⟨h', hs', hr, hf⟩ := Receives.onFinAcknowledged env (ed ▸ h) (ed ▸ hs)
  refine h'.onData hs' ?_
  rw [hr, hf, show (td.takeWindow s).received = t.received from congrArg RecvView.received ed,
    show (td.takeWindow s).finReceived = t.finReceived from congrArg RecvView.finReceived ed]
  exact hc

lemma Receives.close : Receives B irs taken t.close.recv :=
  (h.setState .Closed (by simp [State.beforeFin]) (by simp [State.afterFin]) (by simp)).dropHeld

/-- **One segment.**  If a segment inside the window carries bytes of `B`, the receive side still
holds a prefix of `B`. -/
theorem Receives.onSegment
    (hc : t.acceptable s = true → s.payload ≠ [] ∨ s.has FIN = true →
      Carries B irs (taken.length + t.received.length + t.finReceived.toNat) s) :
    Receives B irs taken (t.onSegment env s).1.recv := by
  have hmain : t.state ≠ .Closed →
      Receives B irs taken (if !t.acceptable s then t.onUnacceptable env s
        else if s.has RST then t.onReset env s
        else if s.has SYN then (t.acknowledge env, false)
        else if !s.has ACK then (t, false)
        else t.onAcknowledged env s).1.recv := by
    intro hclosed
    by_cases acc : t.acceptable s = true
    · rw [if_neg (by simp [acc])]
      split
      · unfold Tcb.onReset
        split
        · simpa using h
        · exact h.close
      · split
        · simpa using h
        · split
          · exact h
          · unfold Tcb.onAcknowledged
            simp only
            split
            · rename_i st
              have st : t.state = .SynReceived := by simpa using st
              split
              · -- the handshake completes
                have h' : Receives B irs taken t.completeHandshake.recv :=
                  h.setState .Established
                    (fun _ => h.before (by simp [Tcb.recv, st, State.beforeFin]))
                    (by simp [State.afterFin]) (by simp)
                exact h'.onAcknowledgement (fun _ => .inl rfl) (hc acc)
              · simpa using h
            · rename_i st
              exact h.onAcknowledgement (h.synced (by simpa [Tcb.recv] using st) hclosed) (hc acc)
    · rw [if_pos (by simpa using acc)]
      unfold Tcb.onUnacceptable
      split
      · exact h
      · split
        · rw [Tcb.recv_sendSynAck]
          exact h
        · simpa using h
  have ho := h.opened
  unfold Tcb.onSegment
  split
  · rename_i st
    exact absurd st ho.1
  · exact h
  · exact h
  · rename_i st _
    exact hmain st

/-! ## the other calls -/

lemma Receives.takeReceived (n : Nat) :
    Receives B irs (taken ++ t.received.take n) (t.takeReceived env n).recv := by
  have hlen : (taken ++ t.received.take n).length + (t.received.drop n).length =
      taken.length + t.received.length := by
    simp only [length_append, length_take, length_drop]
    omega
  have hview : Receives B irs (taken ++ t.received.take n) (t.drain n).recv := by
    have e : (t.drain n).recv = { t.recv with received := t.received.drop n } := by rfl
    rw [e]
    refine ⟨h.irs_eq, ?_, ?_, ?_, ?_, ?_, h.before, h.after, h.opened, h.shut, h.kept⟩
    · rw [append_assoc, take_append_drop]
      exact h.stream
    · simp only [hlen]
      exact h.next
    · simp only [hlen]
      exact h.finished
    · simp only [hlen]
      exact h.runs
    · simp only [hlen]
      exact h.heldFin
  have e : (t.takeReceived env n).recv = (t.drain n).recv := by
    simp only [Tcb.takeReceived]
    split <;> simp
  rwa [e]

lemma Receives.read (size : Nat) (peek : Bool) : Receives B irs
      (match peek, (t.read env size peek).2 with
        | false, .ok bytes => taken ++ bytes
        | _, _ => taken) (t.read env size peek).1.recv := by
  unfold Tcb.read
  by_cases some : (!t.received.isEmpty) = true
  · rw [if_pos some]
    cases peek with
    | true => exact h
    | false =>
      simp only [false_eq_true, if_false]
      exact h.takeReceived _
  · rw [if_neg some]
    obtain ⟨hview, e | ⟨e, he⟩⟩ := readEmpty_cases t size
    · rw [e, hview]
      cases peek <;> simpa using h
    · rw [he, hview]
      cases peek <;> exact h

lemma Receives.shutdownWrite : Receives B irs taken (t.shutdownWrite env).recv := by
  have hwait : t.state = .Established ∨ t.state = .SynReceived →
      Receives B irs taken { t with finQueued := true, state := .FinWait1 }.recv := fun st =>
    h.setState .FinWait1
      (fun _ => h.before (by rcases st with st | st <;> simp [Tcb.recv, st, State.beforeFin]))
      (by simp [State.afterFin]) (by simp)
  unfold Tcb.shutdownWrite
  split
  · exact h
  · split <;> rename_i st
    · simpa using hwait (.inl st)
    · simpa using hwait (.inr st)
    · rw [Tcb.recv_output]
      exact h.setState .LastAck (by simp [State.beforeFin])
        (fun _ => h.after (by simp [Tcb.recv, st, State.afterFin])) (by simp)
    · exact absurd st h.opened.1
    · exact absurd st h.opened.2
    · exact h.setState .Closed (by simp [State.beforeFin]) (by simp [State.afterFin]) (by simp)
    · exact h

lemma Receives.abort : Receives B irs taken (t.abort env).recv := by
  have hsent : Receives B irs taken (if t.state.isSynchronised || t.state == .SynReceived
      then t.sendSegment env (RST ||| ACK) t.sendNext [] false else t).recv := by
    split
    · rwa [Tcb.recv_sendSegment]
    · exact h
  simp only [Tcb.abort, Tcb.recv_unqueueFin]
  exact hsent.close

lemma Receives.onTimer (now : Nat) : Receives B irs taken (t.onTimer env now).1.recv := by
  have hr : Receives B irs taken (t.expireReassembly now).recv := by
    unfold Tcb.expireReassembly
    split
    · exact h.dropHeld
    · exact h
  unfold Tcb.onTimer
  generalize t.expireReassembly now = u at hr
  unfold Tcb.onClocks
  split
  · split
    · exact hr.setState .Closed (by simp [State.beforeFin]) (by simp [State.afterFin]) (by simp)
    · exact hr
  · split
    · exact hr
    · split
      · exact Receives.abort (t := { u with retries := u.retries + 1, error := some .ETIMEDOUT }) hr
      · simpa using hr

end

/-! ## before the other end is heard of -/

/-- nothing has been received, and the other end's number is not known or not asked for any more -/
structure Waiting (v : RecvView) : Prop extends RecvClear v where
  unheard : v.state = .SynSent ∨ v.state = .Closed

lemma Waiting.closed (h : Waiting v) : Waiting { v with state := .Closed } :=
  ⟨{ h with }, .inr rfl⟩

lemma Waiting.dropHeld (h : Waiting v) : Waiting { v with outOfOrder := [], heldFin := none } :=
  ⟨{ h with outOfOrder := rfl, heldFin := rfl }, h.unheard⟩

lemma recv_request (t : Tcb) (s : Segment) : ((t.takeRequest s).takeMss s).recv =
    { t.recv with irs := s.sequence, receiveNext := s.sequence + 1 } := by
  rw [recv_takeMss]
  rfl

section
variable (h : Waiting t.recv)
include h

lemma Waiting.onSegment (B : List Byte) (s : Segment) : Waiting (t.onSegment env s).1.recv ∨
    ∃ irs, Receives B irs [] (t.onSegment env s).1.recv := by
  have heard : ∀ state, state = .SynReceived ∨ state = .Established →
      Receives B s.sequence [] { ((t.takeRequest s).takeMss s).recv with state := state } := by
    intro state hs
    rw [recv_request]
    exact h.toRecvClear.receives B s.sequence hs
  rcases h.unheard with hstate | hstate
  · rw [Tcb.onSegment, show t.state = .SynSent from hstate]
    simp only
    unfold Tcb.onSynSent
    split
    · split
      · exact .inl (by rwa [recv_sendSegment])
      · exact .inl h
    · split
      · exact .inl h.closed
      · split
        · exact .inl h
        · simp only
          split
          · refine .inr ⟨s.sequence, ?_⟩
            rw [recv_output, recv_acknowledge]
            exact heard .Established (.inr rfl)
          · refine .inr ⟨s.sequence, ?_⟩
            rw [recv_sendSynAck]
            exact heard .SynReceived (.inl rfl)
  · rw [Tcb.onSegment, show t.state = .Closed from hstate]
    exact .inl h

lemma Waiting.onTimer (now : Nat) : Waiting (t.onTimer env now).1.recv := by
  have hr : Waiting (t.expireReassembly now).recv := by
    unfold Tcb.expireReassembly
    split
    · exact h.dropHeld
    · exact h
  have abort : ∀ u : Tcb, Waiting u.recv → Waiting (u.abort env).recv := by
    intro u hu
    have hsent : Waiting (if u.state.isSynchronised || u.state == .SynReceived
        then u.sendSegment env (RST ||| ACK) u.sendNext [] false else u).recv := by
      split
      · rwa [recv_sendSegment]
      · exact hu
    simp only [Tcb.abort, recv_unqueueFin]
    exact hsent.closed.dropHeld
  unfold Tcb.onTimer
  generalize t.expireReassembly now = u at hr
  unfold Tcb.onClocks
  split
  · split
    · exact hr.closed
    · exact hr
  · split
    · exact hr
    · split
      · exact abort { u with retries := u.retries + 1, error := some .ETIMEDOUT } hr
      · simpa using hr

lemma Waiting.shutdownWrite : Waiting (t.shutdownWrite env).recv := by
  unfold Tcb.shutdownWrite
  split
  · exact h
  · rcases h.unheard with hs | hs <;> rw [show t.state = _ from hs] <;> exact h.closed

end

/-! ## runs -/

/-- a segment that arrives inside the window carries bytes of `B` where it says it does -/
def Session.Brings (B : List Byte) (s : Session) : Call → Prop
  | .segment _ segment => s.tcb.state ≠ .SynSent → s.tcb.acceptable segment = true →
      segment.payload ≠ [] ∨ segment.has FIN = true → Carries B s.tcb.irs s.wanted segment
  | _ => True

lemma Receives.step {s : Session} (h : Receives B irs s.taken s.tcb.recv) {c : Call}
    (hc : s.Brings B c) : Receives B irs (s.step c).taken (s.step c).tcb.recv := by
  cases c with
  | segment env segment =>
    have hirs : s.tcb.irs = irs := h.irs_eq
    exact h.onSegment (hirs ▸ hc h.opened.1)
  | read env size peek => exact h.read size peek
  | timer env now => exact h.onTimer now
  | write env buf =>
    show Receives B irs s.taken (s.tcb.write env buf).1.recv
    rwa [recv_write]
  | shutdownWrite env => exact h.shutdownWrite
  | others heldBytes =>
    show Receives B irs s.taken (s.tcb.setHeld s.tcb.held heldBytes).recv
    rwa [recv_setHeld]

/-- the other end is not heard of yet, or what is received is a prefix of its bytes -/
inductive Session.Hearing (B : List Byte) (s : Session) : Prop
  | waiting (h : Waiting s.tcb.recv) (ht : s.taken = [])
  | receiving (irs : Seq) (h : Receives B irs s.taken s.tcb.recv)

lemma Session.Hearing.step {s : Session} {c : Call} (h : s.Hearing B) (hc : s.Brings B c) :
    (s.step c).Hearing B := by
  cases h with
  | receiving irs h => exact .receiving irs (h.step hc)
  | waiting h ht =>
    cases c with
    | segment env segment =>
      rcases h.onSegment B segment with h' | ⟨irs, h'⟩
      · exact .waiting h' ht
      · exact .receiving irs (by rwa [← ht] at h')
    | read env size peek =>
      have hempty : s.tcb.received = [] := h.received
      obtain ⟨hview, e⟩ := readEmpty_cases s.tcb size
      have hread : s.tcb.read env size peek = s.tcb.readEmpty size := by simp [Tcb.read, hempty]
      refine .waiting (show Waiting (s.tcb.read env size peek).1.recv by rwa [hread, hview]) ?_
      show (match peek, (s.tcb.read env size peek).2 with
        | false, .ok bytes => s.taken ++ bytes
        | _, _ => s.taken) = []
      rw [hread, ht]
      rcases e with e | ⟨e', e⟩ <;> rw [e] <;> cases peek <;> rfl
    | timer env now => exact .waiting (h.onTimer now) ht
    | write env buf =>
      exact .waiting (show Waiting (s.tcb.write env buf).1.recv by rwa [recv_write]) ht
    | shutdownWrite env => exact .waiting h.shutdownWrite ht
    | others heldBytes =>
      exact .waiting (show Waiting (s.tcb.setHeld s.tcb.held heldBytes).recv by rwa [recv_setHeld]) ht

lemma recv_openActive (env : Env) (t : Tcb) (iss : Seq) :
    (t.openActive env iss).recv = { t.recv with state := .SynSent } := by
  simp only [openActive, recv_armRetransmit, recv_timeSegment, recv_sentThrough, recv_sendSegment]
  rfl

lemma Opened.hearing (h : Opened t) (hclear : RecvClear t.recv) (B : List Byte) :
    (Session.start t).Hearing B := by
  have hactive : ∀ (env : Env) (u : Tcb) (iss : Seq), RecvClear (u.openActive env iss).recv →
      (Session.start (u.openActive env iss)).Hearing B := fun env u iss hu =>
    .waiting ⟨hu, .inl (congrArg RecvView.state (recv_openActive env u iss))⟩ rfl
  cases h with
  | active env heldBytes iss => exact hactive env _ iss hclear
  | again h calls env iss => exact hactive env _ iss hclear
  | passive env env' heldBytes request iss =>
    refine .receiving request.sequence ?_
    show Receives B request.sequence [] (Tcb.sendSynAck env' _).recv
    rw [recv_sendSynAck] at hclear ⊢
    have e : ((new heldBytes).acceptOpen env request iss).recv = { (new heldBytes).recv with
        state := .SynReceived, irs := request.sequence, receiveNext := request.sequence + 1 } := by
      simp only [acceptOpen, recv_timeSegment, recv_sentThrough]
      have e := recv_request (new heldBytes) request
      generalize ((new heldBytes).takeRequest request).takeMss request = u at e
      have hu : (u.startPassive iss).recv = { u.recv with state := .SynReceived } := by rfl
      rw [hu, e]
    rw [e]
    exact RecvClear.receives (v := (new heldBytes).recv) ⟨rfl, rfl, rfl, rfl, rfl, rfl⟩ B _ (.inl rfl)

/-- **the receive side delivers the peer's stream**, where the Tcb carries nothing of a connection
before: whatever arrives, is read or timed out, what was read is a prefix of `B`, the FIN is taken
only after all of `B`, and from the moment the other end is heard of `receive_next` counts what was
moved -/
theorem received_stream (B : List Byte) (t : Tcb) (calls : List Call) (ht : Opened t)
    (hclear : RecvClear t.recv) (hc : Run.Allowed Session.step (Session.Brings B) (.start t) calls) :
    let s := Run.run Session.step (.start t) calls
    s.taken <+: B ∧ s.taken ++ s.tcb.received <+: B ∧
      (s.tcb.finReceived = true → s.taken ++ s.tcb.received = B) ∧
      ∀ before, before <+: calls →
        let known := (Run.run Session.step (.start t) before).tcb
        known.state ≠ .SynSent → known.state ≠ .Closed → s.tcb.irs = known.irs ∧
          s.tcb.receiveNext - s.tcb.irs - 1 =
            BitVec.ofNat 32 (s.moved + s.tcb.finReceived.toNat) := by
  intro s
  have hstart := ht.hearing hclear B
  have hend : s.Hearing B := hc.keeps (fun _ _ h hc => h.step hc) hstart
  refine ⟨?_, ?_, ?_, ?_⟩
  · cases hend with
    | waiting h htaken =>
      rw [show s.taken = [] from htaken]
      exact nil_prefix
    | receiving irs h => exact h.stream.append_left.isPrefix
  · cases hend with
    | waiting h htaken =>
      rw [show s.taken = [] from htaken, show s.tcb.received = [] from h.received]
      exact nil_prefix
    | receiving irs h => exact h.stream.isPrefix
  · intro hf
    cases hend with
    | waiting h => exact absurd (h.finReceived.symm.trans hf) (by simp)
    | receiving irs h =>
      refine h.stream.eq_of_length ?_
      rw [length_append]
      exact h.finished hf
  · rintro before ⟨after, rfl⟩ known hsyn hclosed
    obtain ⟨hbefore, hafter⟩ := hc.of_append
    cases hbefore.keeps (fun _ _ h hc => h.step hc) hstart with
    | waiting h => exact (h.unheard.elim hsyn hclosed).elim
    | receiving irs h =>
      have hs : s = Run.run Session.step (Run.run Session.step (.start t) before) after :=
        Run.run_append
      have h' : Receives B irs s.taken s.tcb.recv :=
        hs ▸ hafter.keeps (I := fun s => Receives B irs s.taken s.tcb.recv)
          (fun _ _ h hc => h.step hc) h
      have hirs : s.tcb.irs = irs := h'.irs_eq
      have hnext : s.tcb.receiveNext = seqAt (irs + 1) (s.moved + s.tcb.finReceived.toNat) := h'.next
      refine ⟨hirs.trans h.irs_eq.symm, ?_⟩
      rw [hnext, hirs, seqAt]
      generalize BitVec.ofNat 32 (s.moved + s.tcb.finReceived.toNat) = n
      rw [sub_sub, add_sub_cancel_left]

/-- a connection whose first byte has sequence number `0`, one past the largest number there is -/
def wrapped : Tcb := (new 0).openActive ⟨0, 0, true⟩ 100

/-- the other end answers, then the second byte with the FIN, ahead of the first, then the first,
then a read -/
def wrappedCalls : List Call :=
  [.segment ⟨0, 0, true⟩ ⟨0xFFFFFFFF, 101, SYN ||| ACK, 65535, none, []⟩,
   .segment ⟨1, 1, true⟩ ⟨1, 101, ACK ||| FIN, 65535, none, [8]⟩,
   .segment ⟨2, 2, true⟩ ⟨0, 101, ACK, 65535, none, [7]⟩, .read ⟨3, 3, true⟩ 10 false]

/-- the two bytes are read in order, and the FIN after them -/
theorem received_stream_wrapped : let s := Run.run Session.step (.start wrapped) wrappedCalls
    s.taken = [7, 8] ∧ s.tcb.finReceived = true ∧ s.taken <+: [7, 8] :=
  ⟨by decide +kernel, by decide +kernel,
    (received_stream [7, 8] wrapped wrappedCalls (.active _ _ _) ⟨rfl, rfl, rfl, rfl, rfl, rfl⟩
      ⟨fun hs => absurd rfl hs,
        fun _ _ _ => ⟨1, by decide +kernel, by decide +kernel, by decide +kernel, by decide +kernel,
          fun i hi => by
            obtain rfl : i = 0 := by simpa using hi
            rfl, by decide +kernel⟩,
        fun _ _ _ => ⟨0, by decide +kernel, by decide +kernel, by decide +kernel, by decide +kernel,
          fun i hi => by
            obtain rfl : i = 0 := by simpa using hi
            rfl, by decide +kernel⟩, trivial, trivial⟩).1⟩

/-- a byte arrives and is not read before the connection is reset -/
def reset : List Call :=
  [.segment ⟨1, 0, true⟩ ⟨500, 101, SYN ||| ACK, 65535, none, []⟩,
   .segment ⟨2, 0, true⟩ ⟨501, 101, ACK, 65535, none, [7]⟩,
   .segment ⟨3, 0, true⟩ ⟨502, 101, RST ||| ACK, 65535, none, []⟩]

/-- the Tcb of it opened again -/
def resetAgain : Tcb := (Run.run Session.step (.start wrapped) reset).tcb.reopen ⟨4, 0, true⟩ 200

/-- the other end of the new connection sends nothing, and the byte of the old one is read -/
theorem received_stream_stale : Opened resetAgain ∧ ∃ calls : List Call,
    Run.Allowed Session.step (Session.Brings []) (.start resetAgain) calls ∧
      ¬(Run.run Session.step (.start resetAgain) calls).taken <+: [] :=
  ⟨.again (.active _ _ _) _ _ _ (by decide +kernel),
    [.segment ⟨5, 0, true⟩ ⟨900, 201, SYN ||| ACK, 65535, none, []⟩, .read ⟨6, 0, true⟩ 10 false],
    ⟨fun hs => absurd (by decide +kernel) hs, trivial, trivial⟩, by decide +kernel⟩

end ClaudeOs.Net
