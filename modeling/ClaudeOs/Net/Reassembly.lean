import ClaudeOs.Net.Views
import ClaudeOs.Lib.Stream

/-!
# Runs held past a gap

What `hold`, `coalesce` and `deliver_held` keep true of the runs a connection holds.  The stream
`B` is what the other end sends, and `base` the sequence number of its first byte.

* `Placed B base n hi r`  the run `r` is a piece of `B` at a position from `n` on, ending by `hi`;
* `Runs B base hi lo l`  the runs `l` are placed, in the order of their positions;
* `coalesce_runs`  sorting and joining placed runs gives runs in order and apart;
* `deliverRuns_spec`  delivering moves a piece of `B` that starts at the byte wanted next, and
  leaves runs that start past what was delivered.
-/

namespace ClaudeOs.Net
open Serial Stream List Nat Tcb
variable {B : List Byte} {base : Seq} {n hi lo : Nat} {l : List Held}

/-- a run that is a piece of the stream, from position `n` on and not past `hi` -/
def Placed (B : List Byte) (base : Seq) (n hi : Nat) (r : Held) : Prop :=
  ∃ p, n ≤ p ∧ p + r.data.length ≤ hi ∧ r.sequence = seqAt base p ∧ OccursAt B p r.data

def Runs (B : List Byte) (base : Seq) (hi : Nat) : Nat → List Held → Prop
  | _, [] => True
  | lo, r :: rs => ∃ p, lo ≤ p ∧ p + r.data.length ≤ hi ∧ r.sequence = seqAt base p ∧
      OccursAt B p r.data ∧ Runs B base hi (p + r.data.length) rs

lemma Runs.mono {lo' hi' : Nat} (h : Runs B base hi lo l) (hl : lo' ≤ lo) (hh : hi ≤ hi') :
    Runs B base hi' lo' l := by
  induction l generalizing lo lo' with
  | nil => trivial
  | cons r rs ih =>
    obtain ⟨p, hp, hend, hs, ho, hr⟩ := h
    exact ⟨p, by omega, by omega, hs, ho, ih hr (le_refl _)⟩

lemma Runs.placed (h : Runs B base hi lo l) : ∀ r ∈ l, Placed B base lo hi r := by
  induction l generalizing lo with
  | nil => simp
  | cons r rs ih =>
    obtain ⟨p, hp, hend, hs, ho, hr⟩ := h
    intro x hx
    rcases mem_cons.mp hx with rfl | hx
    · exact ⟨p, hp, hend, hs, ho⟩
    · obtain ⟨q, hq, h'⟩ := ih hr x hx
      exact ⟨q, by omega, h'⟩

/-! ## the order `coalesce` sorts by -/

instance (b : Seq) : Std.Total (startsBefore b) := ⟨fun _ _ => le_total _ _⟩
instance (b : Seq) : IsTrans Held (startsBefore b) := ⟨fun _ _ _ => le_trans⟩

/-- `x` ends by the start of `y`, seen from `b` -/
def Apart (b : Seq) (x y : Held) : Prop :=
  (x.sequence - b).toNat + x.data.length ≤ (y.sequence - b).toNat

lemma key_eq {a : Held} {p : Nat} (ha : a.sequence = seqAt base p) (hp : n ≤ p) (hp' : p ≤ hi)
    (hhi : hi ≤ n + 65535) : (a.sequence - seqAt base n).toNat = p - n := by
  rw [ha, seqAt_dist base hp (by omega)]

lemma startsBefore_iff {a b : Held} {p q : Nat} (ha : a.sequence = seqAt base p)
    (hb : b.sequence = seqAt base q) (hp : n ≤ p) (hq : n ≤ q) (hp' : p ≤ hi) (hq' : q ≤ hi)
    (hhi : hi ≤ n + 65535) : startsBefore (seqAt base n) a b ↔ p ≤ q := by
  unfold startsBefore
  rw [key_eq ha hp hp' hhi, key_eq hb hq hq' hhi]
  omega

lemma apart_iff {a b : Held} {p q : Nat} (ha : a.sequence = seqAt base p)
    (hb : b.sequence = seqAt base q) (hp : n ≤ p) (hq : n ≤ q) (hp' : p ≤ hi) (hq' : q ≤ hi)
    (hhi : hi ≤ n + 65535) : Apart (seqAt base n) a b ↔ p + a.data.length ≤ q := by
  unfold Apart
  rw [key_eq ha hp hp' hhi, key_eq hb hq hq' hhi]
  omega

section
variable (hhi : hi ≤ n + 65535)
include hhi

lemma Runs.of_placed (h : ∀ r ∈ l, Placed B base n hi r)
    (hs : l.Pairwise (Apart (seqAt base n))) : Runs B base hi n l := by
  have key : ∀ lo, n ≤ lo → (∀ r ∈ l, Placed B base lo hi r) → Runs B base hi lo l := by
    clear h
    induction l with
    | nil => intros; trivial
    | cons r rs ih =>
      intro lo hlo h
      obtain ⟨p, hp, hend, hseq, ho⟩ := h r mem_cons_self
      rw [pairwise_cons] at hs
      refine ⟨p, hp, hend, hseq, ho, ih hs.2 _ (by omega) ?_⟩
      intro x hx
      obtain ⟨q, hq, hqend, hqs, hqo⟩ := h x (mem_cons_of_mem _ hx)
      have hpq := (apart_iff hseq hqs (by omega) (by omega) (by omega) (by omega) hhi).mp
        (hs.1 x hx)
      exact ⟨q, hpq, hqend, hqs, hqo⟩
  exact key n (le_refl n) h

/-! ## joining -/

lemma Placed.join {a b : Held} (ha : Placed B base n hi a) (hb : Placed B base n hi b)
    (hab : startsBefore (seqAt base n) a b) (htouch : seqLe b.sequence a.endSeq = true) :
    Placed B base n hi
      { a with data := a.data ++ b.data.drop (a.endSeq - b.sequence).toNat } := by
  obtain ⟨p, hp, hpe, hps, hpo⟩ := ha
  obtain ⟨q, hq, hqe, hqs, hqo⟩ := hb
  have hpq := (startsBefore_iff hps hqs hp hq (by omega) (by omega) hhi).mp hab
  have hend : a.endSeq = seqAt base (p + a.data.length) := by rw [Held.endSeq, hps, seqAt_add]
  rw [hend, hqs, seqLe, seqAt_le base (by omega) (by omega), decide_eq_true_eq] at htouch
  rw [hend, hqs, seqAt_dist base htouch (by omega)]
  refine ⟨p, hp, ?_, hps, ?_⟩
  · simp only [length_append, length_drop]
    omega
  · apply hpo.append
    have hd := hqo.drop (p + a.data.length - q)
    rwa [show q + (p + a.data.length - q) = p + a.data.length by omega] at hd

lemma Placed.apart {a b : Held} (ha : Placed B base n hi a) (hb : Placed B base n hi b)
    (hgap : ¬seqLe b.sequence a.endSeq = true) : Apart (seqAt base n) a b := by
  obtain ⟨p, hp, hpe, hps, hpo⟩ := ha
  obtain ⟨q, hq, hqe, hqs, hqo⟩ := hb
  have hend : a.endSeq = seqAt base (p + a.data.length) := by rw [Held.endSeq, hps, seqAt_add]
  rw [hend, hqs, seqLe, seqAt_le base (by omega) (by omega), decide_eq_true_eq] at hgap
  exact (apart_iff hps hqs hp hq (by omega) (by omega) hhi).mpr (by omega)

omit hhi in
lemma Apart.trans {b : Seq} {x y z : Held} (h : Apart b x y) (h' : Apart b y z) : Apart b x z := by
  unfold Apart at *
  omega

/-- runs newest first, as `coalesce`'s loop builds them, with `b` where the window starts -/
structure Joined (B : List Byte) (base : Seq) (n hi : Nat) (acc : List Held) : Prop where
  placed : ∀ x ∈ acc, Placed B base n hi x
  apart : acc.Pairwise fun y x => Apart (seqAt base n) x y

lemma joinRun_spec {acc : List Held} {r : Held} (hacc : Joined B base n hi acc)
    (hr : Placed B base n hi r) (hlast : ∀ x ∈ acc.head?, startsBefore (seqAt base n) x r) :
    Joined B base n hi (joinRun acc r) ∧ ∀ z, startsBefore (seqAt base n) r z →
      ∀ x ∈ (joinRun acc r).head?, startsBefore (seqAt base n) x z := by
  match acc with
  | [] =>
    refine ⟨⟨by simpa [joinRun] using hr, by simp [joinRun]⟩, ?_⟩
    intro z hz x hx
    obtain rfl : r = x := by simpa [joinRun] using hx
    exact hz
  | last :: earlier =>
    have hlr : startsBefore (seqAt base n) last r := hlast last (by simp)
    have hall := hacc.placed
    have hap := pairwise_cons.mp hacc.apart
    simp only [joinRun]
    by_cases touch : seqLe r.sequence last.endSeq = true
    · simp only [if_pos touch]
      by_cases more : (last.endSeq - r.sequence).toNat < r.data.length
      · simp only [if_pos more]
        have hjoin := (hall last mem_cons_self).join hhi hr hlr touch
        refine ⟨⟨?_, pairwise_cons.mpr ⟨hap.1, hap.2⟩⟩, ?_⟩
        · intro x hx
          rcases mem_cons.mp hx with rfl | hx
          · exact hjoin
          · exact hall x (mem_cons_of_mem _ hx)
        · intro z hz x hx
          obtain rfl := Option.some.inj hx
          exact le_trans hlr hz
      · simp only [if_neg more]
        refine ⟨hacc, ?_⟩
        intro z hz x hx
        obtain rfl := Option.some.inj hx
        exact le_trans hlr hz
    · simp only [if_neg touch]
      have hgap := (hall last mem_cons_self).apart hhi hr touch
      refine ⟨⟨?_, pairwise_cons.mpr ⟨?_, hacc.apart⟩⟩, ?_⟩
      · intro x hx
        rcases mem_cons.mp hx with rfl | hx
        · exact hr
        · exact hall x hx
      · intro x hx
        rcases mem_cons.mp hx with rfl | hx
        · exact hgap
        · exact (hap.1 x hx).trans hgap
      · intro z hz x hx
        obtain rfl := Option.some.inj hx
        exact hz

lemma foldl_joinRun_spec {runs acc : List Held} (hacc : Joined B base n hi acc)
    (hr : ∀ x ∈ runs, Placed B base n hi x)
    (hlast : ∀ x ∈ acc.head?, ∀ r ∈ runs, startsBefore (seqAt base n) x r)
    (hs : runs.Pairwise (startsBefore (seqAt base n))) :
    Joined B base n hi (runs.foldl joinRun acc) := by
  induction runs generalizing acc with
  | nil => exact hacc
  | cons r rest ih =>
    rw [pairwise_cons] at hs
    obtain ⟨hj, hz⟩ := joinRun_spec hhi hacc (hr r mem_cons_self)
      (fun x hx => hlast x hx r mem_cons_self)
    exact ih hj (fun x hx => hr x (mem_cons_of_mem _ hx))
      (fun x hx z hzr => hz z (hs.1 z hzr) x hx) hs.2

lemma coalesce_runs (h : ∀ r ∈ l, Placed B base n hi r) :
    let joined := ((l.insertionSort (startsBefore (seqAt base n))).foldl joinRun []).reverse
    (∀ r ∈ joined, Placed B base n hi r) ∧ joined.Pairwise (Apart (seqAt base n)) := by
  have nothing : Joined B base n hi [] := ⟨by simp, by simp⟩
  have hj := foldl_joinRun_spec hhi nothing
    (fun x hx => h x ((mem_insertionSort _).mp hx)) (by simp)
    (pairwise_insertionSort (startsBefore (seqAt base n)) l)
  exact ⟨fun r hr => hj.placed r (mem_reverse.mp hr), pairwise_reverse.mpr hj.apart⟩

end

/-! ## delivering -/

lemma deliverRuns_spec (h : Runs B base hi lo l) (received : List Byte)
    (hlo : lo ≤ n) (hn : n ≤ lo + 2 ^ 30) (hhi : hi ≤ lo + 2 ^ 30) :
    ∃ moved rest, deliverRuns l (seqAt base n) received =
        (seqAt base (n + moved.length), received ++ moved, rest) ∧
      OccursAt B n moved ∧ Runs B base hi (n + moved.length) rest := by
  induction l generalizing lo n received with
  | nil => exact ⟨[], [], by simp [deliverRuns], OccursAt.nil, trivial⟩
  | cons r rs ih =>
    obtain ⟨p, hp, hend, hseq, ho, hr⟩ := h
    have hgt : seqGt r.sequence (seqAt base n) = decide (n < p) := by
      rw [hseq]
      exact seqAt_gt base (by omega) (by omega)
    unfold deliverRuns
    by_cases gap : n < p
    · rw [hgt, if_pos (by simpa using gap)]
      refine ⟨[], r :: rs, by simp, OccursAt.nil, p, ?_, hend, hseq, ho, hr⟩
      simp only [length_nil]
      omega
    · rw [hgt, if_neg (by simpa using gap)]
      have hskip : (seqAt base n - r.sequence).toNat = n - p := by
        rw [hseq]
        exact seqAt_dist base (by omega) (by omega)
      simp only [hskip]
      by_cases old : n - p ≥ r.data.length
      · -- every byte of the run had already arrived
        rw [if_pos old]
        exact ih hr received (by omega) (by omega) (by omega)
      · rw [if_neg old]
        have hd : OccursAt B n (r.data.drop (n - p)) := by
          have hd := ho.drop (n - p)
          rwa [show p + (n - p) = n by omega] at hd
        generalize htake : min (r.data.length - (n - p)) (RECEIVE_WINDOW - received.length) = k
        have hklen : ((r.data.drop (n - p)).take k).length = k := by
          rw [length_take, length_drop]
          omega
        rw [seqAt_add]
        by_cases full : n - p + k < r.data.length
        · -- the receive buffer is full: the rest of the run stays in front
          rw [if_pos full]
          refine ⟨(r.data.drop (n - p)).take k, _, by rw [hklen], hd.take k, ?_⟩
          rw [hklen]
          have hlen : (r.data.drop (n - p + k)).length = r.data.length - (n - p + k) := length_drop
          refine ⟨n + k, le_refl _, by simp only [hlen]; omega, rfl, ?_,
            hr.mono (by simp only [hlen]; omega) (le_refl _)⟩
          have := hd.drop k
          rwa [drop_drop] at this
        · rw [if_neg full]
          obtain ⟨moved, rest, he, hm, hrest⟩ :=
            ih (n := n + k) hr (received ++ (r.data.drop (n - p)).take k) (by omega) (by omega) (by omega)
          refine ⟨(r.data.drop (n - p)).take k ++ moved, rest, ?_, ?_, ?_⟩
          · rw [he, length_append, hklen, append_assoc, add_assoc]
          · apply (hd.take k).append
            rwa [hklen]
          · rwa [length_append, hklen, ← add_assoc]

end ClaudeOs.Net
