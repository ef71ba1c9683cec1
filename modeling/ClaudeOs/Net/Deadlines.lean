import ClaudeOs.Net.Dhcp

/-!
# The deadlines of the DHCP client

`Client::on_timer` of `net/dhcp.rs` lets several states come due in one call and cuts its loop off
after eight rounds.  A round that goes on leaves a state nearer to a DISCOVER, so the loop ends by
itself, and what it ends in has nothing due.

* `Client.rank`  how many rounds are left before one that sends;
* `pass_cases`  a round that goes on leaves fewer, one that does not leaves a deadline ahead;
* `Client.Settled`  no lease that has ended, a deadline ahead, and nothing more to do;
* `poll_settles`  what a call leaves, and that one before the deadline it left does nothing;
* `Reply.Patient`  the server names no time under half of the shortest lease;
* `lease_unhurried_iff`  only then is the client not made to renew faster than that.
-/

namespace ClaudeOs.Net.Dhcp
open Client Option Nat
namespace Client

/-- the rounds of the timer's loop before one that sends -/
def rank (c : Client) : Nat :=
  match c.state with
  | .Selecting _ => 0
  | .Init _ => 1
  | .Requesting _ _ | .Rebinding _ _ => 2
  | .Renewing _ _ => 3
  | .Bound _ => 4

end Client

variable {c : Client} {now : Nat}

/-! ## one round -/

lemma backoff_pos (sent : Nat) (r : Rng) : 0 < (backoff sent r).1 := by
  have hdelay : FIRST_RETRANSMIT ≤ FIRST_RETRANSMIT <<< min (sent - 1) 4 := by
    rw [Nat.shiftLeft_eq]
    exact Nat.le_mul_of_pos_right _ (Nat.two_pow_pos _)
  have hmin : FIRST_RETRANSMIT ≤ min (FIRST_RETRANSMIT <<< min (sent - 1) 4) MAX_RETRANSMIT :=
    Nat.le_min.mpr ⟨hdelay, by decide⟩
  have hjitter : JITTER < FIRST_RETRANSMIT := by decide
  rw [backoff, randomized]
  omega

lemma retransmitBefore_gt {stop : Nat} (hstop : now < stop) (hnow : now < U64_MAX) :
    now < retransmitBefore now stop := by
  have hwait : 0 < MIN_RENEW_RETRANSMIT := by decide
  rw [retransmitBefore]
  omega

lemma pass_before (h : now < c.nextDeadline) : c.pass now = ((c, []), false) := by
  unfold nextDeadline at h
  unfold Client.pass
  cases hstate : c.state with
  | Init due =>
    rw [hstate] at h
    exact if_pos h
  | Selecting exchange =>
    rw [hstate] at h
    exact if_pos h
  | Requesting exchange offer =>
    rw [hstate] at h
    exact if_pos h
  | Bound lease =>
    rw [hstate] at h
    exact if_pos h
  | Renewing exchange lease =>
    simp only [hstate, Nat.lt_min] at h
    simp only [if_neg (Nat.not_le.mpr h.2), if_pos h.1]
  | Rebinding exchange lease =>
    simp only [hstate, Nat.lt_min] at h
    simp only [if_neg (Nat.not_le.mpr h.2), if_pos h.1]

/-- **what one round leaves**: fewer to come and nothing sent, or a deadline ahead -/
theorem pass_cases (hnow : now < U64_MAX) :
    ((c.pass now).2 = true ∧ (c.pass now).1.1.rank < c.rank ∧
        (c.pass now).1.2.countP Effect.sends = 0) ∨
      ((c.pass now).2 = false ∧ now < (c.pass now).1.1.nextDeadline ∧
        (c.pass now).1.2.countP Effect.sends ≤ 1) := by
  have waits (sent : Nat) (r : Rng) : now < now + (backoff sent r).1 := by
    have := backoff_pos sent r
    omega
  by_cases hdue : now < c.nextDeadline
  · rw [pass_before hdue]
    exact Or.inr ⟨rfl, hdue, Nat.zero_le _⟩
  unfold nextDeadline at hdue
  unfold Client.pass
  obtain ⟨mac, nameserver, state, linkUp, rng⟩ := c
  cases state with
  | Init due =>
    simp only [if_neg hdue]
    exact Or.inl ⟨trivial, Nat.zero_lt_one, rfl⟩
  | Selecting exchange =>
    simp only [if_neg hdue]
    exact Or.inr ⟨trivial, waits .., Nat.le_refl 1⟩
  | Requesting exchange offer =>
    simp only [if_neg hdue]
    split
    · exact Or.inl ⟨rfl, Nat.lt_succ_self 1, rfl⟩
    · exact Or.inr ⟨rfl, waits .., Nat.le_refl 1⟩
  | Bound lease =>
    simp only [if_neg hdue]
    exact Or.inl ⟨trivial, Nat.lt_succ_self 3, rfl⟩
  | Renewing exchange lease =>
    by_cases hrebind : lease.rebindAt ≤ now
    · simp only [if_pos hrebind]
      exact Or.inl ⟨trivial, Nat.lt_succ_self 2, rfl⟩
    · have hlt := Nat.lt_of_not_le hrebind
      have hexchange : ¬ now < exchange.deadline := fun h => hdue (Nat.lt_min.mpr ⟨h, hlt⟩)
      simp only [if_neg hrebind, if_neg hexchange]
      exact Or.inr ⟨trivial, Nat.lt_min.mpr ⟨retransmitBefore_gt hlt hnow, hlt⟩, Nat.le_refl 1⟩
  | Rebinding exchange lease =>
    by_cases hexpire : lease.expiresAt ≤ now
    · simp only [if_pos hexpire]
      exact Or.inl ⟨trivial, Nat.lt_succ_self 1, rfl⟩
    · have hlt := Nat.lt_of_not_le hexpire
      have hexchange : ¬ now < exchange.deadline := fun h => hdue (Nat.lt_min.mpr ⟨h, hlt⟩)
      simp only [if_neg hexpire, if_neg hexchange]
      exact Or.inr ⟨trivial, Nat.lt_min.mpr ⟨retransmitBefore_gt hlt hnow, hlt⟩, Nat.le_refl 1⟩

lemma onTimer_settles (hnow : now < U64_MAX) {rounds : Nat} (h : c.rank < rounds) :
    now < (onTimer now rounds c).1.nextDeadline ∧
      (onTimer now rounds c).2.countP Effect.sends ≤ 1 := by
  induction rounds generalizing c with
  | zero => exact absurd h (not_lt_zero _)
  | succ rounds ih =>
    unfold onTimer
    rcases pass_cases (c := c) hnow with ⟨hmore, hrank, hnone⟩ | ⟨hdone, hahead, hone⟩
    · obtain ⟨hahead, hone⟩ := ih (c := (c.pass now).1.1) (by omega)
      simp only [hmore, if_true, List.countP_append, hnone, zero_add]
      exact ⟨hahead, hone⟩
    · simp only [hdone, Bool.false_eq_true, if_false]
      exact ⟨hahead, hone⟩

lemma rank_lt : c.rank < 8 := by
  unfold rank
  split <;> decide

/-! ## one call -/

namespace Client

lemma Ordered.nextDeadline_le (h : c.Ordered) {lease : Lease} (hl : c.lease = some lease) :
    c.nextDeadline ≤ lease.expiresAt := by
  obtain ⟨hrebind, hexpire⟩ := h lease hl
  obtain ⟨mac, nameserver, state, linkUp, rng⟩ := c
  cases state with
  | Bound held =>
    obtain rfl := some.inj hl
    exact le_trans hrebind hexpire
  | Renewing exchange held =>
    obtain rfl := some.inj hl
    exact le_trans (min_le_right ..) hexpire
  | Rebinding exchange held =>
    obtain rfl := some.inj hl
    exact min_le_right ..
  | _ => cases hl

structure Settled (c : Client) (now : Nat) : Prop where
  lease : ∀ lease, c.lease = some lease → now < lease.expiresAt
  ahead : now < c.nextDeadline
  fixed : c.pass now = ((c, []), false)

lemma Ordered.poll (h : c.Ordered) {t : Tick} (hnow : t.now < U64_MAX) :
    (c.poll t).1.Settled t.now ∧ (c.poll t).2.countP Effect.sends ≤ 1 := by
  have hordered := (poll_keeps t).ordered h
  obtain ⟨hahead, hone⟩ := onTimer_settles hnow
    (c := (onReceiveds t.now (t.received.take 64) (c.linked t)).1) rank_lt
  refine ⟨⟨fun lease hl => ?_, hahead, pass_before hahead⟩, ?_⟩
  · exact lt_of_lt_of_le hahead (hordered.nextDeadline_le hl)
  · show List.countP _ (_ ++ _) ≤ 1
    rw [List.countP_append, (heard_onReceiveds ..).silent, zero_add]
    exact hone

/-- a call before the deadline that hears nothing and finds the link as it was -/
lemma poll_before {t : Tick} (h : t.now < c.nextDeadline) (hnone : t.received = [])
    (hlink : t.up = c.linkUp) : c.poll t = (c, []) := by
  have hlinked : (if t.up && !c.linkUp then c.onLink t.now else c).setLink t.up = c := by
    rw [hlink, Bool.and_not_self, if_neg Bool.false_ne_true]
    rfl
  unfold Client.poll
  simp only [hlinked, hnone, List.take_nil, onReceiveds, onTimer, pass_before h]
  rfl

end Client

/-- **what a call of `poll` leaves**: no lease that has ended, a deadline ahead, at most one
message; and a call before that deadline does nothing -/
theorem poll_settles (mac : List Byte) (nameserver : Option Addr) (start : Nat) (rng : Rng)
    (ts : List Tick) (t : Tick) (hnow : t.now < U64_MAX) :
    let before := (polls ts (Client.new mac nameserver start rng)).1
    (before.poll t).1.Settled t.now ∧ (before.poll t).2.countP Effect.sends ≤ 1 ∧
      ∀ t' : Tick, t'.now < (before.poll t).1.nextDeadline → t'.received = [] →
        t'.up = (before.poll t).1.linkUp → (before.poll t).1.poll t' = ((before.poll t).1, []) := by
  have hordered := (polls_keeps ts (Client.new mac nameserver start rng)).ordered
    (ordered_of_none rfl)
  obtain ⟨hsettled, hone⟩ := hordered.poll hnow
  exact ⟨hsettled, hone, fun t' => poll_before⟩

/-- the first poll sends one DISCOVER at most -/
theorem poll_settles_first : ((Client.new [] none 5 ⟨fun _ => 0, 0⟩).poll ⟨7, false, []⟩).2.countP
    Effect.sends ≤ 1 :=
  (poll_settles [] none 5 ⟨fun _ => 0, 0⟩ [] ⟨7, false, []⟩ (by decide)).2.1

/-- **a link that comes up is acted on before the deadline**: the DISCOVER sent at tick 0 goes again
at tick 1 -/
theorem link_up_before_deadline :
    let before := ((Client.new [] none 0 ⟨fun _ => 0, 0⟩).poll ⟨0, false, []⟩).1
    1 < before.nextDeadline ∧ (before.poll ⟨1, true, []⟩).2.countP Effect.sends = 1 := by
  decide

/-! ## how soon a lease is renewed -/

/-- no time the server names is under half the shortest lease; a lease without end does not look at
the server's times, and the clock has to be that far from its own end -/
def Reply.Patient (reply : Reply) (start : Nat) : Prop :=
  if reply.leaseSeconds = some INFINITE then start + MIN_LEASE_SECONDS / 2 * HZ ≤ U64_MAX
  else (∀ t ∈ reply.renewalSeconds, MIN_LEASE_SECONDS / 2 ≤ t) ∧
    ∀ t ∈ reply.rebindingSeconds, MIN_LEASE_SECONDS / 2 ≤ t

lemma seconds_infinite (leaseSeconds : Option Nat) :
    max (leaseSeconds.getD DEFAULT_LEASE_SECONDS) MIN_LEASE_SECONDS = INFINITE ↔
      leaseSeconds = some INFINITE := by
  cases leaseSeconds with
  | none => decide
  | some s =>
    rw [getD_some, some.injEq, MIN_LEASE_SECONDS, INFINITE]
    omega

/-- a time that is only taken up to `bound` is at least `low` just when the server's is -/
lemma le_taken_iff {time : Option Nat} {low bound other : Nat} (hb : low ≤ bound)
    (ho : low ≤ other) : low ≤ (time.filter (· ≤ bound)).getD other ↔ ∀ t ∈ time, low ≤ t := by
  cases time with
  | none => simpa using ho
  | some t =>
    rw [filter_some]
    split
    · simp
    · next ht =>
      have hlow : low ≤ t := by
        rw [decide_eq_true_eq] at ht
        omega
      simpa [hlow] using ho

lemma Lease.renewAt_new_iff (config : Config) (server : Addr) (reply : Reply) (start : Nat) :
    start + MIN_LEASE_SECONDS / 2 * HZ ≤ (Lease.new config server reply start).renewAt ↔
      reply.Patient start := by
  unfold Lease.new Reply.Patient
  dsimp only
  simp only [seconds_infinite]
  split
  · exact Iff.rfl
  · generalize hs : max (reply.leaseSeconds.getD DEFAULT_LEASE_SECONDS) MIN_LEASE_SECONDS = s
    have hmin : MIN_LEASE_SECONDS ≤ s := hs ▸ Nat.le_max_right ..
    generalize ht : (reply.rebindingSeconds.filter (· ≤ s)).getD (s * 7 / 8) = t2
    have hrebind : MIN_LEASE_SECONDS / 2 ≤ t2 ↔
        ∀ t ∈ reply.rebindingSeconds, MIN_LEASE_SECONDS / 2 ≤ t := by
      rw [← ht]
      exact le_taken_iff (by omega) (by unfold MIN_LEASE_SECONDS at *; omega)
    rw [Nat.add_le_add_iff_left, Nat.mul_le_mul_right_iff (by decide), ← hrebind]
    by_cases hlow : MIN_LEASE_SECONDS / 2 ≤ t2
    · rw [le_taken_iff hlow (by omega)]
      exact (and_iff_left hlow).symm
    · -- an early rebinding time takes the renewal time with it
      have hle : (reply.renewalSeconds.filter (· ≤ t2)).getD (min (s / 2) t2) ≤ t2 :=
        taken_le (Nat.min_le_right ..)
      exact iff_of_false (by omega) fun h => hlow h.2

/-- **when a lease is renewed**: the times of the lease an acknowledgement gives are in order and
none comes before half the shortest lease, just when the server names no time under that -/
theorem lease_unhurried_iff (c : Client) (reply : Reply) (server : Addr) (start now : Nat)
    (lease : Lease) (h : (c.takeLease reply server start now).1.state = .Bound lease) :
    (start < lease.renewAt ∧ lease.renewAt ≤ lease.rebindAt ∧ lease.rebindAt ≤ lease.expiresAt ∧
      start + MIN_LEASE_SECONDS / 2 * HZ ≤ lease.renewAt) ↔ reply.Patient start := by
  unfold takeLease at h
  split at h
  · exact absurd h (by simp [startOver, setState])
  · next config hconfig =>
    obtain rfl := State.Bound.inj h
    rw [← Lease.renewAt_new_iff config server]
    have hordered := Lease.ordered_new config server reply start
    have hafter : start < start + MIN_LEASE_SECONDS / 2 * HZ := Nat.lt_add_of_pos_right (by decide)
    constructor
    · exact fun h => h.2.2.2
    · exact fun h => ⟨Nat.lt_of_lt_of_le hafter h, hordered.1, hordered.2, h⟩

def grant (renewalSeconds : Option Nat) : Reply :=
  ⟨ACK, 7, [2, 0, 0, 0, 0, 1], 0x0A000002, some 0x0A000001, some 0xFFFFFF00, [], [], some 3600,
    renewalSeconds, none⟩

def granted (renewalSeconds : Option Nat) : Lease :=
  .new ⟨0x0A000002, 0xFFFFFF00, none, []⟩ 0x0A000001 (grant renewalSeconds) 0

/-- a lease of an hour with no renewal time given -/
theorem lease_unhurried_hour : 0 + MIN_LEASE_SECONDS / 2 * HZ ≤ (granted none).renewAt :=
  ((lease_unhurried_iff (.new [] none 0 ⟨fun _ => 0, 0⟩) (grant none) 0x0A000001 0 3 (granted none)
    rfl).mpr (by simp [Reply.Patient, grant, INFINITE])).2.2.2

/-- **a renewal time of zero is taken**: the lease is due for renewal at the tick it was asked for -/
theorem lease_renewed_at_once : ∃ (c : Client) (exchange : Exchange) (offer : Offer) (reply : Reply)
    (lease : Lease), c.state = .Requesting exchange offer ∧
      (c.onReply reply 3).1.state = .Bound lease ∧ ¬exchange.firstSent < lease.renewAt :=
  ⟨⟨[2, 0, 0, 0, 0, 1], none, .Requesting ⟨7, 0, 0, 1, 500⟩ ⟨0x0A000002, 0x0A000001⟩, true,
    ⟨fun _ => 0, 0⟩⟩, _, _, grant (some 0), granted (some 0), rfl, rfl, by decide⟩

end ClaudeOs.Net.Dhcp
