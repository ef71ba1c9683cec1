import ClaudeOs.Wifi.Handshake

/-!
# The keys of a whole run

A run is the frames one supplicant was given, with the result of each.  A supplicant nonce is drawn
anew for the first message 1 after its keys came into use, so each draw leads to keys in use at most
once, and from keys in use the temporal key is handed out at most once.

* `Event`, `Run`  the frames of a run and what became of them;
* `Ordered`  the draws behind the temporary keys and the keys in use;
* `Spent`, `Counted`  the temporal keys handed out so far, and the counters acted on;
* `keys_authentic`  where each key that is handed out comes from;
* `keys_fresh`  no temporal key is handed out a second time;
* `message3_rsn_iff`  which accepted messages 3 carry the beacon's RSN element.
-/

namespace ClaudeOs.Wifi
open List Option Nat
variable {T : Setting}

structure Event (T : Setting) where
  received : Octets
  before : Supplicant T
  result : Call.Outcome Error (Outcome T)
  after : Supplicant T

open Event
namespace Event

def next (received : Octets) (s : Supplicant T) : Event T :=
  ⟨received, s, (receive T received s).1, (receive T received s).2⟩

variable (e : Event T)

def pairwise : Option (PairwiseKey T) :=
  match e.result with
  | .ok o => o.pairwise
  | _ => none

def group : Option GroupKey :=
  match e.result with
  | .ok o => o.group
  | _ => none

def step : Option Step :=
  match e.result with
  | .ok o => some o.step
  | _ => none

/-- a frame with a MIC that passed every check, its MIC included -/
def ActedOn : Prop :=
  hasMic e.received = true ∧ ∃ key, (admission T e.received e.before).1 = .ok key

def replay : Nat := bigEndian (keyOf e.received).replay

structure Answers (ptk : Ptk T) : Prop where
  accepted : ∃ o, e.result = .ok o ∧ o.step = .message1
  snonce : e.after.snonce = ptk.snonce
  anonce : e.after.anonce = ptk.anonce
  theirs : ptk.anonce = (keyOf e.received).nonce

end Event

/-- the frames one supplicant was given, oldest first -/
inductive Run (T : Setting) : List (Event T) → Supplicant T → Prop
  | new : Run T [] (.new T)
  | receive {es : List (Event T)} {s : Supplicant T} (received : Octets) : Run T es s →
      Run T (es ++ [.next received s]) (receive T received s).2

/-! ## the draws -/

/-- the temporary keys are from the current nonces, and the keys in use from an earlier draw -/
structure Ordered (s : Supplicant T) : Prop where
  temporary : ∀ ptk ∈ s.tptk, ptk.snonce = s.snonce ∧ ptk.anonce = s.anonce
  older : ∀ ptk ∈ s.ptk, ptk.snonce.call ≤ s.snonce.call
  renewed : s.renewSnonce = false → ∀ ptk ∈ s.ptk, ptk.snonce.call < s.snonce.call
  apart : ∀ tptk ∈ s.tptk, ∀ ptk ∈ s.ptk, ptk.snonce.call < tptk.snonce.call
  drawn : s.renewSnonce = false → 0 < s.snonce.call
  drawnTptk : ∀ ptk ∈ s.tptk, 0 < ptk.snonce.call
  drawnPtk : ∀ ptk ∈ s.ptk, 0 < ptk.snonce.call

variable {r : Call.Outcome Error (Outcome T)} {received frame : Octets} {ptk : Ptk T} {e : Event T}
  {es : List (Event T)} {s s' : Supplicant T}

section
variable {s s' : Supplicant T} {ptk : Ptk T} {frame : Octets}

lemma Ordered.new : Ordered (.new T) where
  temporary _ h := absurd h (not_mem_none _)
  older _ h := absurd h (not_mem_none _)
  renewed h := Bool.noConfusion h
  apart _ h := absurd h (not_mem_none _)
  drawn h := Bool.noConfusion h
  drawnTptk _ h := absurd h (not_mem_none _)
  drawnPtk _ h := absurd h (not_mem_none _)

section
variable (O : Ordered s)
include O

lemma Ordered.keeps (h : Keeps s s') : Ordered s' where
  temporary := by
    rw [h.tptk, h.snonce, h.anonce]
    exact O.temporary
  older := by
    rw [h.ptk, h.snonce]
    exact O.older
  renewed hrenew := by
    rw [h.ptk, h.snonce]
    exact O.renewed (h.renew hrenew)
  apart := by
    rw [h.tptk, h.ptk]
    exact O.apart
  drawn hrenew := by
    rw [h.snonce]
    exact O.drawn (h.renew hrenew)
  drawnTptk := by
    rw [h.tptk]
    exact O.drawnTptk
  drawnPtk := by
    rw [h.ptk]
    exact O.drawnPtk

lemma Ordered.verified (h : Verified frame s ptk s') : Ordered s' := by
  cases h with
  | inUse _ _ => exact { O with }
  | promoted htptk _ =>
    refine ⟨fun _ h => absurd h (not_mem_none _), ?_, fun h => Bool.noConfusion h,
      fun _ h => absurd h (not_mem_none _), fun h => Bool.noConfusion h,
      fun _ h => absurd h (not_mem_none _), ?_⟩
    · rintro _ ⟨⟩
      exact le_of_eq (congrArg Drawn.call (O.temporary ptk htptk).1)
    · rintro _ ⟨⟩
      exact O.drawnTptk ptk htptk

lemma Ordered.answerNonce :
    0 < s.answerNonce.call ∧ ∀ ptk ∈ s.ptk, ptk.snonce.call < s.answerNonce.call := by
  rw [Supplicant.answerNonce]
  cases hrenew : s.renewSnonce with
  | true => exact ⟨succ_pos _, fun ptk hptk => lt_succ_of_le (O.older ptk hptk)⟩
  | false => exact ⟨O.drawn hrenew, O.renewed hrenew⟩

lemma Ordered.answer (anonce : Octets) : Ordered (s.answer anonce) where
  temporary := by
    rintro _ ⟨⟩
    exact ⟨rfl, rfl⟩
  older ptk hptk := le_of_lt (O.answerNonce.2 ptk hptk)
  renewed _ := O.answerNonce.2
  apart := by
    rintro _ ⟨⟩
    exact O.answerNonce.2
  drawn _ := O.answerNonce.1
  drawnTptk := by
    rintro _ ⟨⟩
    exact O.answerNonce.1
  drawnPtk := O.drawnPtk

lemma Ordered.stepped (h : Stepped received s r s') : Ordered s' := by
  cases h with
  | refused _ => exact O
  | answered _ => exact O.answer _
  | failed _ _ hverified hkeeps _ _ => exact (O.verified hverified).keeps hkeeps
  | replied _ _ hverified hreplied => exact (O.verified hverified).keeps hreplied.keeps

end
end

/-! ## where keys come from -/

def Rooted (es : List (Event T)) (s : Supplicant T) : Prop :=
  ∀ ptk, ptk ∈ s.tptk ∨ ptk ∈ s.ptk → ∃ e ∈ es, e.Answers ptk

section
variable {es : List (Event T)} {s s' : Supplicant T}

lemma Rooted.verified (h : Rooted es s) (hverified : Verified frame s ptk s') : Rooted es s' := by
  intro p hp
  cases hverified with
  | inUse _ _ => exact h p hp
  | promoted htptk _ =>
    rcases hp with hp | hp
    · cases hp
    · cases hp
      exact h ptk (.inl htptk)

lemma Rooted.keeps (h : Rooted es s) (hkeeps : Keeps s s') : Rooted es s' := by
  intro ptk hptk
  rw [hkeeps.tptk, hkeeps.ptk] at hptk
  exact h ptk hptk

lemma Rooted.more (h : Rooted es s) (e : Event T) : Rooted (es ++ [e]) s := fun ptk hptk =>
  (h ptk hptk).imp fun _ he => ⟨mem_append_left _ he.1, he.2⟩

lemma Rooted.stepped (h : Rooted es s) (hstep : Stepped received s r s') :
    Rooted (es ++ [⟨received, s, r, s'⟩]) s' := by
  cases hstep with
  | refused _ => exact h.more _
  | failed _ _ hverified hkeeps _ _ => exact ((h.verified hverified).keeps hkeeps).more _
  | replied _ _ hverified hreplied => exact ((h.verified hverified).keeps hreplied.keeps).more _
  | answered _ =>
    rintro ptk (hptk | hptk)
    · cases hptk
      exact ⟨_, mem_append_right _ (mem_singleton_self _), ⟨_, rfl, rfl⟩, rfl, rfl, rfl⟩
    · exact h.more _ ptk (.inr hptk)

end

/-! ## temporal keys handed out -/

/-- the keys in use are not older than what was handed out, and newer until they are handed out -/
def Spent (es : List (Event T)) (s : Supplicant T) : Prop :=
  ∀ e ∈ es, ∀ k ∈ e.pairwise, ∃ ptk ∈ s.ptk, k.ptk.snonce.call ≤ ptk.snonce.call ∧
    (s.ptkInstalled = false → k.ptk.snonce.call < ptk.snonce.call)

/-- keys handed out later are from later draws -/
def Rising (es : List (Event T)) : Prop :=
  es.Pairwise fun e e' => ∀ k ∈ e.pairwise, ∀ k' ∈ e'.pairwise,
    k.ptk.snonce.call < k'.ptk.snonce.call

section
variable {es : List (Event T)} {s s' : Supplicant T}

lemma Spent.verified (h : Spent es s) (O : Ordered s) (hverified : Verified frame s ptk s') :
    Spent es s' := by
  intro e he k hk
  cases hverified with
  | inUse _ _ => exact h e he k hk
  | promoted htptk _ =>
    obtain ⟨old, hold, hle, _⟩ := h e he k hk
    have hlt := lt_of_le_of_lt hle (O.apart ptk htptk old hold)
    exact ⟨ptk, rfl, le_of_lt hlt, fun _ => hlt⟩

lemma Spent.more (h : Spent es s) (hnone : e.pairwise = none) : Spent (es ++ [e]) s := by
  intro e' he' k hk
  rcases mem_append.mp he' with he' | he'
  · exact h e' he' k hk
  · rw [mem_singleton.mp he', hnone] at hk
    cases hk

lemma Spent.keeps (h : Spent es s) (hkeeps : Keeps s s')
    (hinstalled : s'.ptkInstalled = false → s.ptkInstalled = false) : Spent es s' := by
  intro e he k hk
  obtain ⟨ptk, hptk, hle, hlt⟩ := h e he k hk
  exact ⟨ptk, hkeeps.ptk ▸ hptk, hle, fun hno => hlt (hinstalled hno)⟩

lemma Spent.stepped (h : Spent es s) (O : Ordered s) (hstep : Stepped received s r s') :
    Spent (es ++ [⟨received, s, r, s'⟩]) s' := by
  cases hstep with
  | refused _ => exact h.more rfl
  | answered _ => exact Spent.more (s := s.answer _) h rfl
  | failed _ _ hverified hkeeps hinstalled _ =>
    exact ((h.verified O hverified).keeps hkeeps fun hno => hinstalled ▸ hno).more rfl
  | @replied o ptk s1 _ _ _ hverified hreplied =>
    have hold : Spent es s' := (h.verified O hverified).keeps hreplied.keeps fun hno =>
      (Bool.or_eq_false_iff.mp (hreplied.installed ▸ hno)).1
    intro e he k hk
    rcases mem_append.mp he with he | he
    · exact hold e he k hk
    · rw [mem_singleton.mp he] at hk
      have hk' : k ∈ o.pairwise := hk
      have hhanded : s'.ptkInstalled = true := by
        rw [hreplied.installed, isSome_of_mem hk', Bool.or_true]
      refine ⟨ptk, hreplied.keeps.ptk.trans hverified.ptk_eq, ?_, fun hno => ?_⟩
      · exact le_of_eq (congrArg (·.snonce.call) (hreplied.pairwise k hk').1)
      · exact absurd (hhanded.symm.trans hno) Bool.noConfusion

lemma Rising.stepped (hrising : Rising es) (h : Spent es s) (O : Ordered s)
    (hstep : Stepped received s r s') : Rising (es ++ [⟨received, s, r, s'⟩]) := by
  refine pairwise_append.mpr ⟨hrising, pairwise_singleton _ _, ?_⟩
  intro e he e' he' k hk k' hk'
  rw [mem_singleton.mp he'] at hk'
  cases hstep with
  | refused _ => cases hk'
  | answered _ => cases hk'
  | failed _ _ _ _ _ _ => cases hk'
  | replied _ _ hverified hreplied =>
    obtain ⟨hptk, hinstalled⟩ := hreplied.pairwise k' hk'
    obtain ⟨ptk, hmem, _, hlt⟩ := h.verified O hverified e he k hk
    rw [hptk, ← some.inj (hmem.symm.trans hverified.ptk_eq)]
    exact hlt hinstalled

end

/-! ## counters -/

def Counted (es : List (Event T)) (s : Supplicant T) : Prop :=
  ∀ e ∈ es, e.ActedOn → ∃ last ∈ s.rxReplay, last.length = REPLAY_COUNTER_LEN ∧
    e.replay ≤ bigEndian last

/-- frames acted on later have higher counters -/
def Climbing (es : List (Event T)) : Prop :=
  es.Pairwise fun e e' => e.ActedOn → e'.ActedOn → e.replay < e'.replay

section
variable {es : List (Event T)} {s s' : Supplicant T} {received : Octets}

lemma Verified.rxReplay (h : Verified frame s ptk s') :
    s'.rxReplay = some (KeyFrame.read frame).replay := by
  cases h with
  | promoted _ _ => rfl
  | inUse _ _ => rfl

lemma replay_length (frame : Octets) : (KeyFrame.read frame).replay.length = REPLAY_COUNTER_LEN :=
  length_slice _ _ _

lemma Counted.lt (h : Counted es s) (hnewer : Newer (bodyOf received) s) (he : e ∈ es)
    (hacted : e.ActedOn) : e.replay < bigEndian (keyOf received).replay := by
  obtain ⟨last, hlast, hlen, hle⟩ := h e he hacted
  exact lt_of_le_of_lt hle
    (bigEndian_lt_of_lt (hlen.trans (replay_length _).symm) (hnewer last hlast))

lemma Counted.verified (h : Counted es s) (hnewer : Newer (bodyOf received) s)
    (hreplay : s'.rxReplay = some (keyOf received).replay) (r : Call.Outcome Error (Outcome T)) :
    Counted (es ++ [⟨received, s, r, s'⟩]) s' := by
  intro e he hacted
  refine ⟨_, hreplay, replay_length _, ?_⟩
  rcases mem_append.mp he with he | he
  · exact le_of_lt (h.lt hnewer he hacted)
  · rw [mem_singleton.mp he]
    exact le_refl _

lemma Counted.more (h : Counted es s) (hnot : ¬ e.ActedOn) : Counted (es ++ [e]) s := by
  intro e' he' hacted
  rcases mem_append.mp he' with he' | he'
  · exact h e' he' hacted
  · exact absurd (mem_singleton.mp he' ▸ hacted) hnot

lemma Counted.stepped (h : Counted es s) (hstep : Stepped received s r s') :
    Counted (es ++ [⟨received, s, r, s'⟩]) s' := by
  cases hstep with
  | refused hnot => exact h.more fun hacted => hacted.2.elim (hnot hacted.1)
  | answered hmic =>
    exact Counted.more (s := s.answer _) h fun hacted => absurd (hmic.symm.trans hacted.1)
      Bool.noConfusion
  | failed _ hnewer hverified hkeeps _ _ =>
    exact h.verified hnewer (hkeeps.rxReplay.trans hverified.rxReplay) _
  | replied _ hnewer hverified hreplied =>
    exact h.verified hnewer (hreplied.keeps.rxReplay.trans hverified.rxReplay) _

lemma Climbing.stepped (hclimbing : Climbing es) (h : Counted es s)
    (hstep : Stepped received s r s') : Climbing (es ++ [⟨received, s, r, s'⟩]) := by
  refine pairwise_append.mpr ⟨hclimbing, pairwise_singleton _ _, ?_⟩
  intro e he e' he' hacted hacted'
  rw [mem_singleton.mp he'] at hacted' ⊢
  cases hstep with
  | refused hnot => exact absurd hacted'.2 fun ⟨key, hkey⟩ => hnot hacted'.1 key hkey
  | answered hmic => exact absurd (hmic.symm.trans hacted'.1) Bool.noConfusion
  | failed _ hnewer _ _ _ _ => exact h.lt hnewer he hacted
  | replied _ hnewer _ _ => exact h.lt hnewer he hacted

end

/-! ## every run -/

structure Sound (es : List (Event T)) (s : Supplicant T) : Prop where
  ordered : Ordered s
  rooted : Rooted es s
  spent : Spent es s
  rising : Rising es
  counted : Counted es s
  climbing : Climbing es

lemma Run.sound (h : Run T es s) : Sound es s := by
  induction h with
  | new =>
    refine ⟨.new, ?_, fun _ h => absurd h not_mem_nil, .nil, fun _ h => absurd h not_mem_nil, .nil⟩
    intro ptk hptk
    exact hptk.elim (absurd · (not_mem_none _)) (absurd · (not_mem_none _))
  | @receive es s received _ ih =>
    have hstep := receive_stepped received s
    exact ⟨ih.ordered.stepped hstep, ih.rooted.stepped hstep, ih.spent.stepped ih.ordered hstep,
      ih.rising.stepped ih.spent ih.ordered hstep, ih.counted.stepped hstep,
      ih.climbing.stepped ih.counted hstep⟩

lemma Verified.current (O : Ordered s) (h : Verified frame s ptk s') :
    (ptk.snonce = s.snonce ∧ ptk.anonce = s.anonce) ∨ s.ptk = some ptk := by
  cases h with
  | promoted htptk _ => exact .inl (O.temporary ptk htptk)
  | inUse hptk _ => exact .inr hptk

lemma Verified.checks (h : Verified frame s ptk s') : ptk.checks frame = true := by
  cases h with
  | promoted _ hchecks => exact hchecks
  | inUse _ hchecks => exact hchecks

lemma Verified.rooted (h : Rooted es s) (hverified : Verified frame s ptk s') :
    ∃ e ∈ es, e.Answers ptk := by
  cases hverified with
  | promoted htptk _ => exact h ptk (.inl htptk)
  | inUse hptk _ => exact h ptk (.inr hptk)

/-- **every key is authentic**: a frame hands out keys only with a MIC good under keys from the
master key and the nonces of a message 1 answered before, and a group key only from data decrypted
under them; and the counters climb -/
theorem keys_authentic {es : List (Event T)} {s : Supplicant T} (h : Run T es s)
    (received : Octets) :
    (((next received s).pairwise.isSome ∨ (next received s).group.isSome) →
      hasMic received = true ∧ ∃ ptk ∈ (next received s).after.ptk,
        mic T ptk.kck (putMic (bodyOf received) (replicate MIC_LEN 0)) =
            slice (bodyOf received) AT_MIC MIC_LEN ∧
          ptk.bytes = ptkBytes T ptk.snonce.nonce ptk.anonce ∧ (∃ e ∈ es, e.Answers ptk) ∧
          ((ptk.snonce = s.snonce ∧ ptk.anonce = s.anonce) ∨ s.ptk = some ptk) ∧
          (∀ k ∈ (next received s).pairwise, k.ptk = ptk ∧ k.key = ptk.tk) ∧
          ∀ g ∈ (next received s).group, FromData (bodyOf received) ptk g) ∧
    (es ++ [next received s]).Pairwise
      fun e e' => e.ActedOn → e'.ActedOn → e.replay < e'.replay := by
  have S := h.sound
  have hstep := receive_stepped received s
  refine ⟨?_, S.climbing.stepped S.counted hstep⟩
  rw [Event.next]
  generalize (receive T received s).1 = r, (receive T received s).2 = s' at hstep
  intro hhanded
  cases hstep with
  | refused _ => simp [pairwise, group] at hhanded
  | answered _ => simp [pairwise, group] at hhanded
  | failed _ _ _ _ _ _ => simp [pairwise, group] at hhanded
  | @replied o ptk s₁ _ hmic _ hverified hreplied =>
    refine ⟨hmic, ptk, hreplied.keeps.ptk.trans hverified.ptk_eq, Ptk.checks_iff.mp hverified.checks,
      ptk.derived, hverified.rooted S.rooted, hverified.current S.ordered, fun k hk => ?_,
      hreplied.group⟩
    have hk' : k.ptk = ptk := (hreplied.pairwise k hk).1
    exact ⟨hk', hk' ▸ k.isTk⟩

lemma Verified.gtk (h : Verified frame s ptk s') : s'.gtk = s.gtk := by
  cases h with
  | promoted _ _ => rfl
  | inUse _ _ => rfl

lemma Run.events (h : Run T es s) :
    ∀ e ∈ es, Ordered e.before ∧ Stepped e.received e.before e.result e.after := by
  induction h with
  | new => exact fun _ h => absurd h not_mem_nil
  | @receive es s received hrun ih =>
    intro e he
    rcases mem_append.mp he with he | he
    · exact ih e he
    · rw [mem_singleton.mp he]
      exact ⟨hrun.sound.ordered, receive_stepped received s⟩

lemma Stepped.drawn (h : Stepped received s r s') (O : Ordered s) :
    ∀ k ∈ (⟨received, s, r, s'⟩ : Event T).pairwise, 0 < k.ptk.snonce.call := by
  intro k hk
  cases h with
  | refused _ => cases hk
  | answered _ => cases hk
  | failed _ _ _ _ _ _ => cases hk
  | replied _ _ hverified hreplied =>
    rw [(hreplied.pairwise k hk).1]
    exact (O.verified hverified).drawnPtk _ hverified.ptk_eq

lemma Stepped.gtk {error : Error} (h : Stepped received s (.error error) s') : s'.gtk = s.gtk := by
  cases h with
  | refused _ => rfl
  | failed _ _ hverified _ _ hgtk => exact hgtk.trans hverified.gtk

/-- **no temporal key is handed out twice**: two of one run are from different calls of the random
source; and a frame that is refused leaves the group key as it was -/
theorem keys_fresh {es : List (Event T)} {s : Supplicant T} (h : Run T es s) :
    (es.Pairwise fun e e' => ∀ k ∈ e.pairwise, ∀ k' ∈ e'.pairwise,
      k.ptk.snonce.call < k'.ptk.snonce.call) ∧
    (∀ e ∈ es, ∀ k ∈ e.pairwise, ∃ call, k.ptk.snonce.call = call + 1 ∧
      k.ptk.snonce.nonce = T.random call ∧ k.key = k.ptk.tk ∧
      k.ptk.bytes = ptkBytes T (T.random call) k.ptk.anonce) ∧
    ((∀ e ∈ es, ∀ e' ∈ es, ∀ k ∈ e.pairwise, ∀ k' ∈ e'.pairwise, k.ptk.tk = k'.ptk.tk →
        k.ptk.snonce.call = k'.ptk.snonce.call) →
      es.Pairwise fun e e' => ∀ k ∈ e.pairwise, ∀ k' ∈ e'.pairwise, k.key ≠ k'.key) ∧
    ∀ e ∈ es, ∀ error, e.result = .error error → e.after.gtk = e.before.gtk := by
  refine ⟨h.sound.rising, fun e he k hk => ?_, fun hdistinct => ?_, fun e he error herror => ?_⟩
  · obtain ⟨O, hstep⟩ := h.events e he
    obtain ⟨call, hcall⟩ := Nat.exists_eq_succ_of_ne_zero (Nat.ne_of_gt (hstep.drawn O k hk))
    have hnonce : k.ptk.snonce.nonce = T.random call := by
      rw [k.ptk.snonce.drawn, hcall]
      rfl
    exact ⟨call, hcall, hnonce, k.isTk, hnonce ▸ k.ptk.derived⟩
  · refine h.sound.rising.imp_of_mem fun he he' hlt k hk k' hk' heq => ?_
    rw [k.isTk, k'.isTk] at heq
    exact Nat.ne_of_lt (hlt k hk k' hk') (hdistinct _ he _ he' k hk k' hk' heq)
  · exact Stepped.gtk (herror ▸ (h.events e he).2)

/-- **the RSN element of message 3**: what an accepted one carries, decrypted under the keys in use,
is the beacon's, byte for byte, just when there is one beside a vendor WPA element -/
theorem message3_rsn_iff (received : Octets) (s : Supplicant T)
    (h : (next received s).step = some .message3) :
    ∃ ptk ∈ (next received s).after.ptk, ∃ data ie,
      T.aesUnwrap ptk.kek (keyDataOf (bodyOf received)) = some data ∧ parseKeyData data = .ok ie ∧
      ((∃ rsn ∈ ie.rsn, T.association.apRsn = some rsn) ↔ (ie.wpa.isSome → ie.rsn.isSome)) := by
  have hstep := receive_stepped received s
  rw [Event.next] at h ⊢
  generalize (receive T received s).1 = r, (receive T received s).2 = s' at hstep h
  cases hstep with
  | refused _ => cases h
  | answered _ => cases h
  | failed _ _ _ _ _ _ => cases h
  | @replied o ptk _ _ _ _ hverified hreplied =>
    obtain ⟨data, ie, hdata, hie, hbeacon⟩ := hreplied.checked (some.inj h)
    refine ⟨ptk, hreplied.keeps.ptk.trans hverified.ptk_eq, data, ie, hdata, hie, ?_, fun hwpa => ?_⟩
    · exact fun ⟨rsn, hrsn, _⟩ _ => isSome_of_mem hrsn
    · obtain ⟨rsn, hrsn⟩ := isSome_iff_exists.mp (hbeacon.carries.elim hwpa id)
      exact ⟨rsn, hrsn, hbeacon.same rsn hrsn⟩

/-! ## two handshakes -/

def handSetting : Setting where
  association := ⟨[0, 0, 0, 0, 0, 1], [0, 0, 0, 0, 0, 2], [], some [48, 0], none, SUITE_CCMP, 1⟩
  pmk := replicate 32 7
  random call := UInt8.ofNat (call + 1) :: replicate 31 0
  hmacSha1 key message := .replicate 20 (3 * key.headD 0 + message.foldl (· + ·) 0)
  aesUnwrap _ wrapped := some (wrapped.drop 8)

def theirNonce (number : UInt8) : Octets := number :: replicate 31 0

def theirFrame (info : KeyInfo) (replay : UInt8) (nonce keyData : Octets) : Octets :=
  [1, EAPOL_TYPE_KEY] ++
    be16Bytes (BitVec.ofNat 16 (FIXED_LEN - EAPOL_HEADER_LEN + keyData.length)) ++
    [DESCRIPTOR_RSN] ++ be16Bytes info ++ [0, 16] ++ replicate 7 0 ++ [replay] ++ nonce ++
    replicate (16 + 8 + 8) 0 ++ replicate MIC_LEN 0 ++
    be16Bytes (BitVec.ofNat 16 keyData.length) ++ keyData

/-- the keys both sides have for a draw and a nonce of the access point -/
def sharedPtk (call : Nat) (number : UInt8) : Ptk handSetting :=
  derivePtk handSetting ⟨call, handSetting.drawn call, rfl⟩ (theirNonce number)

def wrappedGtk (byte : UInt8) : Octets :=
  replicate 8 0 ++ [48, 0] ++ [221, 22, 0x00, 0x0F, 0xAC, 1, 1, 0] ++
    replicate 16 byte ++ [221, 0, 0, 0, 0, 0]

def message1 (number replay : UInt8) : Octets := theirFrame 0x008A replay (theirNonce number) []

def message3 (call : Nat) (number replay byte : UInt8) : Octets :=
  sign handSetting (theirFrame 0x13CA replay (theirNonce number) (wrappedGtk byte))
    (sharedPtk call number).kck

def groupMessage (call : Nat) (number replay byte : UInt8) : Octets :=
  sign handSetting (theirFrame 0x1382 replay (theirNonce 0) (wrappedGtk byte))
    (sharedPtk call number).kck

def after : List Octets → Supplicant handSetting
  | [] => .new handSetting
  | received :: earlier => (receive handSetting received (after earlier)).2

def eventsOf : List Octets → List (Event handSetting)
  | [] => []
  | received :: earlier => eventsOf earlier ++ [.next received (after earlier)]

lemma eventsOf_run (frames : List Octets) : Run handSetting (eventsOf frames) (after frames) := by
  induction frames with
  | nil => exact .new
  | cons received earlier ih => exact .receive received ih

def firstHandshake : List Octets := [message3 1 1 2 5, message1 1 1]
def secondStarted : List Octets := message1 9 3 :: firstHandshake

/-- message 3 of the first handshake hands out a key -/
theorem keys_authentic_first :
    (next (message3 1 1 2 5) (after [message1 1 1])).pairwise.isSome = true ∧
      ∃ ptk ∈ (next (message3 1 1 2 5) (after [message1 1 1])).after.ptk,
        ∀ k ∈ (next (message3 1 1 2 5) (after [message1 1 1])).pairwise, k.key = ptk.tk := by
  have hhanded : (next (message3 1 1 2 5) (after [message1 1 1])).pairwise.isSome = true := by
    decide +kernel
  obtain ⟨_, ptk, hptk, _, _, _, _, hpairwise, _⟩ :=
    (keys_authentic (eventsOf_run [message1 1 1]) (message3 1 1 2 5)).1 (.inl hhanded)
  exact ⟨hhanded, ptk, hptk, fun k hk => (hpairwise k hk).2⟩

/-- a group key under keys in use, after another message 1 changed the nonces -/
theorem group_key_after_message1 : ∃ es s, Run handSetting es s ∧
    (next (groupMessage 1 1 4 6) s).group.isSome = true ∧
      (derivePtk handSetting s.snonce s.anonce).checks (bodyOf (groupMessage 1 1 4 6)) = false :=
  ⟨_, _, eventsOf_run secondStarted, by decide +kernel, by decide +kernel⟩

/-- two handshakes, two keys -/
theorem keys_fresh_second :
    ((eventsOf (message3 2 9 4 6 :: secondStarted)).filterMap pairwise).length = 2 ∧
      (eventsOf (message3 2 9 4 6 :: secondStarted)).Pairwise fun e e' =>
        ∀ k ∈ e.pairwise, ∀ k' ∈ e'.pairwise, k.key ≠ k'.key :=
  ⟨by decide +kernel, (keys_fresh (eventsOf_run (message3 2 9 4 6 :: secondStarted))).2.2.1
    (by decide +kernel)⟩

/-- message 3 of the first handshake, which has an RSN element -/
theorem message3_rsn_first : ∃ ptk ∈ (next (message3 1 1 2 5) (after [message1 1 1])).after.ptk,
    ∃ data ie, handSetting.aesUnwrap ptk.kek (keyDataOf (bodyOf (message3 1 1 2 5))) = some data ∧
      parseKeyData data = .ok ie ∧ ((∃ rsn ∈ ie.rsn, handSetting.association.apRsn = some rsn) ↔
        (ie.wpa.isSome → ie.rsn.isSome)) :=
  message3_rsn_iff (message3 1 1 2 5) (after [message1 1 1]) (by decide +kernel)

def wpaMessage3 : Octets :=
  sign handSetting (theirFrame 0x13CA 2 (theirNonce 1)
    (replicate 8 0 ++ [221, 6, 0x00, 0x50, 0xF2, 1, 1, 0] ++ (wrappedGtk 5).drop 10 ++ [0, 0]))
    (sharedPtk 1 1).kck

/-- **a WPA element alone is enough**: nothing is compared -/
theorem message3_without_rsn : ∃ es s, Run handSetting es s ∧
    (next wpaMessage3 s).step = some .message3 ∧
      (handSetting.aesUnwrap [] (keyDataOf (bodyOf wpaMessage3))).bind (fun data =>
        (parseKeyData data).toOption.map (·.rsn)) = some none :=
  ⟨_, _, eventsOf_run [message1 1 1], by decide +kernel, by decide +kernel⟩

end ClaudeOs.Wifi
