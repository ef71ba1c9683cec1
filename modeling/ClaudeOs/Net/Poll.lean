import ClaudeOs.Net.Session

/-!
# What poll reports of a stream socket, and what a read or a write would do

`InetSocket::readable` and `writable` are what `poll`, `select` and `epoll` ask; `Tcb::read` and
`Tcb::write` are what the program calls next.  A call that answers `EAGAIN` is the one that would
have blocked.

* `Tcb.readable`, `Tcb.writable`, `Tcb.shutdown`  the socket's half of `net/socket.rs`;
* `Tcb.readable_iff`, `Tcb.read_answers_iff`  the two read-side questions, field by field;
* `Tcb.writable_iff`, `Tcb.write_answers_iff`  the two write-side questions, state by state;
* `poll_agrees_iff`  where the answers agree, and only there.
-/

namespace ClaudeOs.Net
namespace Tcb

/-! ## what poll asks -/

/-- `InetSocket::readable`, `children` being the connections a listener has not handed out yet -/
def readable (t : Tcb) (children : List Tcb) : Bool :=
  if t.state == .Listen then children.any fun child => child.state.isSynchronised
  else !t.received.isEmpty || t.finReceived || t.error.isSome || t.state == .Closed

/-- `InetSocket::writable` -/
def writable (t : Tcb) : Bool :=
  match t.state with
  | .Established | .CloseWait => decide (t.pending.length < SEND_BUFFER)
  | .Closed => true
  | _ => t.error.isSome

/-- `InetSocket::shutdown` -/
def shutdown (env : Env) (t : Tcb) (read write : Bool) : Tcb × Except Errno Unit :=
  if !t.state.isSynchronised && t.state != .SynSent then (t, .error .ENOTCONN)
  else
    let t := if read then { t with readShutdown := true } else t
    (if write then t.shutdownWrite env else t, .ok ())

/-! ## reading -/

section
variable {t : Tcb} (env : Env)

lemma readable_iff (hl : t.state ≠ .Listen) (children : List Tcb) : t.readable children = true ↔
      t.received ≠ [] ∨ t.finReceived = true ∨ t.error.isSome = true ∨ t.state = .Closed := by
  have hb : (t.state == .Listen) = false := by simpa using hl
  simp only [readable, hb, Bool.or_eq_true, Bool.not_eq_true', List.isEmpty_eq_false_iff,
    beq_iff_eq, Bool.false_eq_true, if_false, or_assoc]

/-- a read answers unless the stream may still go on -/
lemma read_answers_iff (hl : t.state ≠ .Listen) {size : Nat} (hs : size ≠ 0) (peek : Bool) :
    (t.read env size peek).2 ≠ .error .EAGAIN ↔
      t.received ≠ [] ∨ t.finReceived = true ∨ t.readShutdown = true ∨
        t.state = .Closed ∧ t.error ≠ some .EAGAIN := by
  unfold read
  by_cases hr : t.received = []
  · rw [if_neg (by simp [hr]), readEmpty, if_neg hs]
    by_cases hf : (t.finReceived || t.readShutdown) = true
    · rw [if_pos hf]
      simp only [Bool.or_eq_true] at hf
      simp only [ne_eq, reduceCtorEq, not_false_eq_true, true_iff]
      tauto
    · rw [if_neg hf]
      simp only [Bool.or_eq_true, not_or] at hf
      simp only [hr, hf, ne_eq, not_true_eq_false, Bool.false_eq_true, false_or]
      cases hst : t.state with
      | Closed => cases he : t.error <;> simp
      | Listen => exact absurd hst hl
      | _ => simp
  · rw [if_pos (by simpa using hr)]
    simp [hr]

/-! ## writing -/

lemma writable_iff : t.writable = true ↔ match t.state with
    | .Established | .CloseWait => t.pending.length < SEND_BUFFER
    | .Closed => True
    | _ => t.error.isSome = true := by
  unfold writable
  cases t.state <;> simp

/-- a write is refused for good after a shutdown, and for now without a connection or room -/
lemma write_answers_iff (hl : t.state ≠ .Listen) (buf : List Byte) :
    (t.write env buf).2 ≠ .error .EAGAIN ↔ match t.state with
      | .Established | .CloseWait => t.finQueued = true ∨ t.pending.length < SEND_BUFFER
      | .SynSent | .SynReceived => False
      | .Closed => t.error ≠ some .EAGAIN
      | _ => True := by
  have accepted : ∀ (q : Bool) (n : Nat) (x : Tcb × Except Errno Nat),
      x.2 ≠ .error .EAGAIN → ((if q = true then (t, .error .EPIPE)
        else if SEND_BUFFER - n = 0 then (t, .error .EAGAIN) else x).2 ≠ .error .EAGAIN ↔
          q = true ∨ n < SEND_BUFFER) := by
    intro q n x hx
    split
    · rename_i hq
      simp [hq]
    · rename_i hq
      have hq : q = false := by simpa using hq
      split
      · rename_i hroom
        simp only [hq, ne_eq, not_true_eq_false, Bool.false_eq_true, false_or, false_iff]
        omega
      · rename_i hroom
        exact ⟨fun _ => .inr (by omega), fun _ => hx⟩
  unfold write
  cases hst : t.state with
  | Established => exact accepted _ _ _ (by simp)
  | CloseWait => exact accepted _ _ _ (by simp)
  | Closed => cases he : t.error <;> simp
  | Listen => exact absurd hst hl
  | _ => simp

end

/-! ## where the answers agree -/

/-- the read side: the two functions see a shut read side and a stored error differently -/
def ReadAgrees (t : Tcb) : Prop :=
  t.received = [] → t.finReceived = false →
    if t.state = .Closed then t.readShutdown = false → t.error ≠ some .EAGAIN
    else t.readShutdown = t.error.isSome

/-- the write side: one that is closing refuses for good, and one that is opening for now -/
def WriteAgrees (t : Tcb) : Prop :=
  if t.state = .Established ∨ t.state = .CloseWait then
    t.finQueued = true → t.pending.length < SEND_BUFFER
  else if t.state = .SynSent ∨ t.state = .SynReceived then t.error = none
  else if t.state = .Closed then t.error ≠ some .EAGAIN
  else t.error.isSome = true

instance : DecidablePred ReadAgrees := fun t => by unfold ReadAgrees; infer_instance
instance : DecidablePred WriteAgrees := fun t => by unfold WriteAgrees; infer_instance

lemma readable_agrees_iff {t : Tcb} (env : Env) (hl : t.state ≠ .Listen) (children : List Tcb)
    {size : Nat} (hs : size ≠ 0) (peek : Bool) :
    (t.readable children = true ↔ (t.read env size peek).2 ≠ .error .EAGAIN) ↔ t.ReadAgrees := by
  rw [readable_iff hl, read_answers_iff env hl hs, ReadAgrees]
  by_cases hr : t.received = []
  · by_cases hf : t.finReceived = true
    · simp [hf]
    · by_cases hc : t.state = .Closed
      · simp [hr, hf, hc]
        cases t.readShutdown <;> simp
      · have hf : t.finReceived = false := by simpa using hf
        simp only [hr, hf, hc, ne_eq, not_true_eq_false, false_or, or_false, false_and, if_false,
          Bool.false_eq_true, true_implies]
        cases t.readShutdown <;> cases t.error.isSome <;> simp
  · simp [hr]

lemma writable_agrees_iff {t : Tcb} (env : Env) (hl : t.state ≠ .Listen) (buf : List Byte) :
    (t.writable = true ↔ (t.write env buf).2 ≠ .error .EAGAIN) ↔ t.WriteAgrees := by
  rw [writable_iff, write_answers_iff env hl, WriteAgrees]
  cases hst : t.state with
  | Established => simp only [true_or, if_true]; tauto
  | CloseWait => simp only [or_true, if_true]; tauto
  | Listen => exact absurd hst hl
  | _ => simp

end Tcb

/-- **where poll agrees with the calls** on a socket that is not listening: exactly under
`ReadAgrees` and `WriteAgrees` -/
theorem poll_agrees_iff (t : Tcb) (children : List Tcb) (env : Env) (size : Nat) (peek : Bool)
    (buf : List Byte) (hl : t.state ≠ .Listen) (hs : size ≠ 0) :
    ((t.readable children = true ↔ (t.read env size peek).2 ≠ .error .EAGAIN) ∧
      (t.writable = true ↔ (t.write env buf).2 ≠ .error .EAGAIN)) ↔ t.ReadAgrees ∧ t.WriteAgrees :=
  and_congr (Tcb.readable_agrees_iff env hl children hs peek) (Tcb.writable_agrees_iff env hl buf)

def accepted : Tcb :=
  (((Tcb.new 0).acceptOpen ⟨0, 0, true⟩ ⟨500, 0, SYN, 65535, none, []⟩ 100).onSegment ⟨1, 1, true⟩
    ⟨501, 101, ACK, 65535, none, []⟩).1

/-- a connection just accepted -/
theorem poll_agrees_accepted :
    (accepted.readable [] = true ↔ (accepted.read ⟨2, 2, true⟩ 1 false).2 ≠ .error .EAGAIN) ∧
      (accepted.writable = true ↔ (accepted.write ⟨2, 2, true⟩ [7]).2 ≠ .error .EAGAIN) :=
  (poll_agrees_iff accepted [] ⟨2, 2, true⟩ 1 false [7] (by decide +kernel) (by decide)).mpr
    (by decide +kernel)

/-- **poll and the calls part** after a shutdown of either side, and at a second connect with the
first one's refusal still stored -/
theorem poll_disagrees : (let t := (accepted.shutdown ⟨2, 2, true⟩ false true).1;
      t.state = .FinWait1 ∧ t.writable = false ∧ (t.write ⟨3, 3, true⟩ [7]).2 = .error .EPIPE) ∧
    (let t := (accepted.shutdown ⟨2, 2, true⟩ true false).1;
      t.state = .Established ∧ t.readable [] = false ∧ (t.read ⟨3, 3, true⟩ 1 false).2 = .ok []) ∧
    let refused := (((Tcb.new 0).openActive ⟨0, 0, true⟩ 100).onSegment ⟨1, 1, true⟩
      ⟨0, 101, RST ||| ACK, 0, none, []⟩).1
    let t := refused.openActive ⟨2, 2, true⟩ 200
    refused.state = .Closed ∧ t.state = .SynSent ∧ t.readable [] = true ∧ t.writable = true ∧
      (t.read ⟨3, 3, true⟩ 1 false).2 = .error .EAGAIN ∧
      (t.write ⟨3, 3, true⟩ [7]).2 = .error .EAGAIN := by
  decide +kernel

end ClaudeOs.Net
