import ClaudeOs.Wifi.Wpa

/-!
# What a frame can do to the supplicant

Frames come in any order and with any bytes.  A frame with a MIC is let through under the temporary
keys of the last message 1, which then become the keys in use, or under the keys in use already;
every key that is handed out belongs to the keys it was let through under.

* `Verified`  the keys a MIC checks under, and the supplicant afterwards;
* `Replied`  what is handed out under them, and what stays as it is;
* `Stepped`  everything a frame can do, with `receive_stepped`.
-/

namespace ClaudeOs.Wifi
open KeyFrame
open Call (Outcome.Holds)
variable {T : Setting}

abbrev keyOf (received : Octets) : KeyFrame := read (bodyOf received)

abbrev hasMic (received : Octets) : Bool := marked (keyOf received).keyInfo KEY_INFO_MIC

def admission (T : Setting) (received : Octets) : Receiving T KeyFrame :=
  openBody T received >>= replayChecked T

/-! ## what a frame can do -/

inductive Verified (frame : Octets) (s : Supplicant T) : Ptk T → Supplicant T → Prop
  | promoted {ptk : Ptk T} : s.tptk = some ptk → ptk.checks frame = true →
      Verified frame s ptk ((s.promote ptk).setRxReplay (read frame).replay)
  | inUse {ptk : Ptk T} : s.ptk = some ptk → ptk.checks frame = true →
      Verified frame s ptk (s.setRxReplay (read frame).replay)

def Newer (frame : Octets) (s : Supplicant T) : Prop :=
  ∀ last ∈ s.rxReplay, last < (read frame).replay

structure Keeps (s s' : Supplicant T) : Prop where
  snonce : s'.snonce = s.snonce
  anonce : s'.anonce = s.anonce
  tptk : s'.tptk = s.tptk
  ptk : s'.ptk = s.ptk
  rxReplay : s'.rxReplay = s.rxReplay
  renew : s'.renewSnonce = false → s.renewSnonce = false

variable (received : Octets) (s : Supplicant T)

lemma Keeps.refl : Keeps s s := ⟨rfl, rfl, rfl, rfl, rfl, id⟩

/-- a group key is from a marked frame, in what its data unwraps to under the keys in use -/
def FromData (frame : Octets) (ptk : Ptk T) (group : GroupKey) : Prop :=
  marked (read frame).keyInfo KEY_INFO_ENCR_KEY_DATA = true ∧
    ∃ plain ie kde, T.aesUnwrap ptk.kek (keyDataOf frame) = some plain ∧
      parseKeyData plain = .ok ie ∧ ie.gtk = some kde ∧ group.key = kde.drop 2

/-- what `validate_ie` finds in the elements it passes -/
structure FromBeacon (T : Setting) (ie : KeyData) : Prop where
  carries : ie.wpa.isSome ∨ ie.rsn.isSome
  same : ∀ rsn ∈ ie.rsn, T.association.apRsn = some rsn

/-- what is handed out under the keys in use, what was checked, and what stays as it is -/
structure Replied (frame : Octets) (ptk : Ptk T) (s : Supplicant T) (o : Outcome T)
    (s' : Supplicant T) : Prop where
  keeps : Keeps s s'
  installed : s'.ptkInstalled = (s.ptkInstalled || o.pairwise.isSome)
  pairwise : ∀ k ∈ o.pairwise, k.ptk = ptk ∧ s.ptkInstalled = false
  group : ∀ g ∈ o.group, FromData frame ptk g
  checked : o.step = .message3 → ∃ data ie, T.aesUnwrap ptk.kek (keyDataOf frame) = some data ∧
    parseKeyData data = .ok ie ∧ FromBeacon T ie

inductive Stepped (received : Octets) (s : Supplicant T) :
    Call.Outcome Error (Outcome T) → Supplicant T → Prop
  /-- a frame that is refused before its MIC is good, or has none -/
  | refused {e : Error} : (hasMic received = true → ∀ key, (admission T received s).1 ≠ .ok key) →
      Stepped received s (.error e) s
  | answered {reply : Octets} : hasMic received = false →
      Stepped received s (.ok ⟨.message1, reply, none, none⟩) (s.answer (keyOf received).nonce)
  /-- a frame with a good MIC that is refused then -/
  | failed {e : Error} {ptk : Ptk T} {s₁ s' : Supplicant T} : hasMic received = true →
      Newer (bodyOf received) s → Verified (bodyOf received) s ptk s₁ → Keeps s₁ s' →
      s'.ptkInstalled = s₁.ptkInstalled → s'.gtk = s₁.gtk → Stepped received s (.error e) s'
  | replied {o : Outcome T} {ptk : Ptk T} {s₁ s' : Supplicant T} : hasMic received = true →
      Newer (bodyOf received) s → Verified (bodyOf received) s ptk s₁ →
      Replied (bodyOf received) ptk s₁ o s' → Stepped received s (.ok o) s'

/-! ## one function after the other -/

variable {a b info : KeyInfo} {frame : Octets} {key : KeyFrame} {ptk : Ptk T}

section
variable {s : Supplicant T}

lemma openBody_spec : Outcome.Holds
    (fun frame s' => frame = bodyOf received ∧ s' = s) (fun _ s' => s' = s)
    (openBody T received s) :=
  .ite (fun _ => rfl) fun _ => .ite (fun _ => rfl) fun _ => .ite (fun _ => rfl) fun _ => ⟨rfl, rfl⟩

lemma checkFrame_spec (frame : Octets) : Outcome.Holds
    (fun key s' => key = read frame ∧ Newer frame s ∧ s' = s) (fun _ s' => s' = s)
    (checkFrame T frame s) := by
  rw [checkFrame, Call.get_bind_run]
  refine .ite (fun _ => rfl) fun _ => .ite (fun _ => rfl) fun _ => .ite (fun _ => rfl) fun hold => ?_
  refine .ite (fun _ => rfl) fun _ => .ite (fun _ => rfl) fun _ => .ite (fun _ => rfl) fun _ =>
    .ite (fun _ => rfl) fun _ => ⟨rfl, fun last hlast => ?_, rfl⟩
  by_contra hnot
  exact hold ⟨last, hlast, hnot⟩

lemma verifyMic_spec (frame : Octets) : Outcome.Holds
    (fun _ s' => ∃ ptk, Verified frame s ptk s') (fun _ s' => s' = s)
    (verifyMic T frame (read frame) s) := by
  rw [verifyMic, Call.get_bind_run]
  cases htptk : s.tptk.filter (·.checks frame) with
  | some tptk =>
    obtain ⟨hsome, hchecks⟩ := Option.filter_eq_some_iff.mp htptk
    exact ⟨tptk, .promoted hsome hchecks⟩
  | none =>
    cases hptk : s.ptk with
    | none => rfl
    | some ptk =>
      refine .ite (fun _ => rfl) fun hchecks => ⟨ptk, .inUse hptk ?_⟩
      exact Decidable.not_not.mp hchecks

lemma admission_spec : Outcome.Holds
    (fun key s' => key = keyOf received ∧ Newer (bodyOf received) s ∧
      ((hasMic received = false ∧ s' = s) ∨
        hasMic received = true ∧ ∃ ptk, Verified (bodyOf received) s ptk s'))
    (fun _ s' => s' = s) (admission T received s) := by
  refine (openBody_spec received).bind ?_
  rintro _ _ ⟨rfl, rfl⟩
  refine (checkFrame_spec _).bind ?_
  rintro _ _ ⟨rfl, hnewer, rfl⟩
  cases hmic : marked (keyOf received).keyInfo KEY_INFO_MIC with
  | false =>
    rw [if_neg Bool.false_ne_true]
    exact ⟨rfl, hnewer, .inl ⟨hmic, rfl⟩⟩
  | true =>
    rw [if_pos rfl]
    exact (verifyMic_spec _).bind fun _ _ hverified => ⟨rfl, hnewer, .inr ⟨hmic, hverified⟩⟩

lemma openKeyData_spec (key : KeyFrame) (keyData : Octets) : Outcome.Holds
    (fun data s' => s' = s ∧ (marked key.keyInfo KEY_INFO_ENCR_KEY_DATA = true →
      marked key.keyInfo KEY_INFO_MIC = true ∧
        ∀ ptk ∈ s.ptk, T.aesUnwrap ptk.kek keyData = some data))
    (fun _ s' => s' = s) (openKeyData T key keyData s) := by
  refine .ite (fun _ => .ite (fun _ => rfl) fun hmic => ?_) fun hplain =>
    ⟨rfl, fun h => absurd h hplain⟩
  rw [decryptKeyData, Call.get_bind_run]
  cases hptk : s.ptk with
  | none => rfl
  | some ptk =>
    refine .ite (fun _ => rfl) fun _ => ?_
    cases hplain : T.aesUnwrap ptk.kek keyData with
    | none => rfl
    | some plain =>
      refine ⟨rfl, fun _ => ⟨Decidable.not_not.mp hmic, ?_⟩⟩
      rintro _ ⟨⟩
      exact hplain

lemma elements_spec (keyData : Octets) : Outcome.Holds
    (fun ie s' => parseKeyData keyData = .ok ie ∧ s' = s) (fun _ s' => s' = s)
    (elements T keyData s) := by
  rw [elements]
  cases hparse : parseKeyData keyData with
  | error => rfl
  | ok ie => exact ⟨rfl, rfl⟩

lemma validateIe_spec (ie : KeyData) : Outcome.Holds (fun _ s' => FromBeacon T ie ∧ s' = s)
    (fun _ s' => s' = s) (validateIe T ie s) := by
  rw [validateIe]
  cases hap : T.association.apRsn with
  | none => rfl
  | some apRsn =>
    refine .ite (fun _ => rfl) fun hnone => .ite (fun _ => rfl) fun hother => ?_
    refine .ite (fun _ => rfl) fun _ => ⟨⟨?_, fun rsn hrsn => ?_⟩, rfl⟩
    · by_contra hno
      exact hnone (by simpa using hno)
    · rw [hap]
      by_contra hne
      exact hother ⟨rsn, hrsn, fun h => hne (congrArg some h.symm)⟩

lemma takeGtk_spec (kde rsc : Octets) : Outcome.Holds
    (fun group s' => (group = none ∧ s' = s) ∨
      ∃ g, group = some g ∧ g.key = kde.drop 2 ∧ s' = s.setGtk (kde.drop 2))
    (fun _ s' => s' = s) (takeGtk T kde rsc s) :=
  .ite (fun _ => rfl) fun _ => .ite (fun _ => rfl) fun _ =>
    .ite (fun _ => .inl ⟨rfl, rfl⟩) fun _ => .inr ⟨_, rfl, rfl, rfl⟩

lemma process1Of4_spec (key : KeyFrame) (keyData : Octets) : Outcome.Holds
    (fun o s' => (∃ reply, o = ⟨.message1, reply, none, none⟩) ∧ s' = s.answer key.nonce)
    (fun _ s' => s' = s) (process1Of4 T key keyData s) := by
  refine (elements_spec keyData).bind ?_
  rintro ie _ ⟨_, rfl⟩
  exact ⟨⟨_, rfl⟩, rfl⟩

lemma handOut_spec {installed : Bool} {k : PairwiseKey T} (h : k ∈ handOut T key ptk installed) :
    k.ptk = ptk ∧ installed = false := by
  rw [handOut] at h
  split at h
  · rename_i hcond
    cases h
    exact ⟨rfl, Bool.eq_false_iff.mpr hcond.2⟩
  · cases h

abbrev Refused (s s' : Supplicant T) : Prop :=
  Keeps s s' ∧ s'.ptkInstalled = s.ptkInstalled ∧ s'.gtk = s.gtk

lemma Refused.refl (s : Supplicant T) : Refused s s := ⟨.refl s, rfl, rfl⟩
lemma Refused.of_eq {s s' : Supplicant T} (h : s' = s) : Refused s s' := h ▸ .refl s

lemma Refused.renew (s : Supplicant T) : Refused s s.renew :=
  ⟨⟨rfl, rfl, rfl, rfl, rfl, fun h => Bool.noConfusion h⟩, rfl, rfl⟩

section
variable {frame data : Octets} {ptk : Ptk T}
  (hdata : marked (read frame).keyInfo KEY_INFO_ENCR_KEY_DATA = true →
    T.aesUnwrap ptk.kek (keyDataOf frame) = some data)

include hdata

lemma fromData {ie : KeyData} (hie : parseKeyData data = .ok ie) {kde : Octets}
    (hgtk : ie.gtk = some kde)
    (hmarked : ¬ (ie.gtk.isSome ∧ ¬ marked (read frame).keyInfo KEY_INFO_ENCR_KEY_DATA)) :
    T.aesUnwrap ptk.kek (keyDataOf frame) = some data ∧
      ∀ g : GroupKey, g.key = kde.drop 2 → FromData frame ptk g := by
  have hencr : marked (read frame).keyInfo KEY_INFO_ENCR_KEY_DATA = true := by
    by_contra hnot
    exact hmarked ⟨by rw [hgtk]; rfl, hnot⟩
  exact ⟨hdata hencr, fun g hg => ⟨hencr, data, ie, kde, hdata hencr, hie, hgtk, hg⟩⟩

lemma process3Of4_spec (hptk : s.ptk = some ptk) : Outcome.Holds
    (fun o s' => Replied frame ptk s o s') (fun _ s' => Refused s s')
    (process3Of4 T (read frame) data s) := by
  refine ((elements_spec data).mono (fun _ _ h => h) fun _ _ h => .of_eq h).bind ?_
  rintro ie s ⟨hie, rfl⟩
  refine .ite (fun _ => .refl _) fun hmarked => ?_
  refine ((validateIe_spec ie).mono (fun _ _ h => h) fun _ _ h => .of_eq h).bind ?_
  rintro _ s ⟨hbeacon, rfl⟩
  refine .ite (fun _ => .refl _) fun _ => ?_
  rw [Call.get_bind_run]
  refine .ite (fun _ => .refl _) fun _ => .ite (fun _ => .refl _) fun _ => ?_
  rw [hptk]
  show Outcome.Holds _ _ (process3With T (read frame) ie ptk s.ptkInstalled s)
  rw [process3With, Call.modify_bind_run]
  cases hgtk : ie.gtk with
  | none => exact .renew s
  | some kde =>
    refine ((takeGtk_spec kde _).mono (fun _ _ h => h) fun _ _ h => h ▸ .renew s).bind ?_
    rintro group s2 hgroup
    rw [Call.modify_bind_run]
    have hkeeps : Keeps s s2 ∧ s2.ptkInstalled = s.ptkInstalled := by
      rcases hgroup with ⟨_, rfl⟩ | ⟨_, _, _, rfl⟩ <;>
        exact ⟨⟨rfl, rfl, rfl, rfl, rfl, fun h => Bool.noConfusion h⟩, rfl⟩
    have hfrom := fromData hdata hie hgtk hmarked
    refine ⟨⟨hkeeps.1.snonce, hkeeps.1.anonce, hkeeps.1.tptk, hkeeps.1.ptk, hkeeps.1.rxReplay,
      hkeeps.1.renew⟩, ?_, fun k hk => handOut_spec hk, fun g hg => ?_,
      fun _ => ⟨data, ie, hfrom.1, hie, hbeacon⟩⟩
    · show (s2.ptkInstalled || _) = _
      rw [hkeeps.2]
    · rcases hgroup with ⟨rfl, _⟩ | ⟨g', rfl, hkey, _⟩
      · cases hg
      · cases hg
        exact hfrom.2 _ hkey

lemma process1Of2_spec (hptk : s.ptk = some ptk) : Outcome.Holds
    (fun o s' => Replied frame ptk s o s') (fun _ s' => Refused s s')
    (process1Of2 T (read frame) data s) := by
  rw [process1Of2, Call.get_bind_run]
  refine .ite (fun _ => .refl _) fun _ => ?_
  refine ((elements_spec data).mono (fun _ _ h => h) fun _ _ h => .of_eq h).bind ?_
  rintro ie s ⟨hie, rfl⟩
  refine .ite (fun _ => .refl _) fun hmarked => ?_
  cases hgtk : ie.gtk with
  | none => exact .refl _
  | some kde =>
    refine ((takeGtk_spec kde _).mono (fun _ _ h => h) fun _ _ h => .of_eq h).bind ?_
    rintro group s2 hgroup
    rw [hptk]
    refine ⟨?_, ?_, fun k hk => absurd hk (Option.not_mem_none k), fun g hg => ?_,
      fun hstep => by cases hstep⟩
    · rcases hgroup with ⟨_, rfl⟩ | ⟨_, _, _, rfl⟩
      · exact .refl _
      · exact ⟨rfl, rfl, rfl, rfl, rfl, id⟩
    · rcases hgroup with ⟨_, rfl⟩ | ⟨_, _, _, rfl⟩
      · exact (Bool.or_false _).symm
      · exact (Bool.or_false _).symm
    · rcases hgroup with ⟨rfl, _⟩ | ⟨g', rfl, hkey, _⟩
      · cases hg
      · cases hg
        exact (fromData hdata hie hgtk hmarked).2 _ hkey

end

lemma marked_or (h : marked info b = false) : marked info (a ||| b) = marked info a := by
  have hzero : info &&& b = 0#16 := by
    rw [marked, bne_eq_false_iff_eq] at h
    exact h
  rw [marked, marked, BitVec.and_or_distrib_left, hzero, BitVec.or_zero]

lemma marked_or_left (h : marked info a = true) : marked info (a ||| b) = true := by
  rw [marked, bne_iff_ne] at *
  intro hzero
  rw [BitVec.and_or_distrib_left] at hzero
  exact h (BitVec.or_eq_zero_iff.mp hzero).1

lemma dispatch_plain (hmic : marked key.keyInfo KEY_INFO_MIC = false)
    (hencr : marked key.keyInfo KEY_INFO_ENCR_KEY_DATA = false) (data : Octets) : Outcome.Holds
    (fun o s' => (∃ reply, o = ⟨.message1, reply, none, none⟩) ∧ s' = s.answer key.nonce)
    (fun _ s' => s' = s) (dispatch T key data s) := by
  refine .ite (fun _ => .ite (fun _ => rfl) fun _ => ?_) fun _ => ?_
  · rw [marked_or hencr, hmic, if_neg Bool.false_ne_true]
    exact process1Of4_spec key data
  · rw [hmic, if_neg Bool.false_ne_true]
    rfl

lemma dispatch_mic {data : Octets} (hptk : s.ptk = some ptk)
    (hmic : marked (read frame).keyInfo KEY_INFO_MIC = true)
    (hdata : marked (read frame).keyInfo KEY_INFO_ENCR_KEY_DATA = true →
      T.aesUnwrap ptk.kek (keyDataOf frame) = some data) : Outcome.Holds
    (fun o s' => Replied frame ptk s o s') (fun _ s' => Refused s s')
    (dispatch T (read frame) data s) := by
  refine .ite (fun _ => .ite (fun _ => .refl _) fun _ => ?_) fun _ => ?_
  · rw [marked_or_left hmic, if_pos rfl]
    exact process3Of4_spec hdata hptk
  · rw [hmic, if_pos rfl]
    exact process1Of2_spec hdata hptk

end

/-! ## a whole frame -/

lemma Verified.ptk_eq {s s1 : Supplicant T} (h : Verified frame s ptk s1) : s1.ptk = some ptk := by
  cases h with
  | promoted _ _ => rfl
  | inUse hptk _ => exact hptk

lemma receive_eq : receive T received s =
    (admission T received >>= fun key => openKeyData T key (keyDataOf (bodyOf received)) >>=
      fun data => dispatch T key data) s := by
  rw [receive, admission, Call.bind_assoc, Call.bind_run, Call.bind_run]
  have hbody := openBody_spec (s := s) received
  rcases hrun : openBody T received s with ⟨frame | _ | _, s'⟩
  · rw [hrun] at hbody
    obtain ⟨rfl, rfl⟩ := hbody
    rfl
  · rfl
  · rfl

/-- **everything a frame can do** -/
theorem receive_stepped : Stepped received s (receive T received s).1 (receive T received s).2 := by
  rw [receive_eq]
  have hadm := admission_spec (s := s) received
  rcases hrun : admission T received s with ⟨key | e | _, s1⟩
  · rw [hrun] at hadm
    rw [Call.bind_run, hrun]
    obtain ⟨rfl, hnewer, ⟨hmic, rfl⟩ | ⟨hmic, ptk, hverified⟩⟩ := hadm
    · have hrefused : ∀ (e : Error) (s' : Supplicant T), s' = s1 →
          Stepped received s1 (.error e) s' := by
        rintro e s' rfl
        exact .refused fun h => absurd h (by rw [hmic]; exact Bool.false_ne_true)
      refine Outcome.Holds.ends (P := Stepped received s1) ?_
      refine ((openKeyData_spec _ _).mono (fun _ _ h => h) hrefused).bind ?_
      rintro data s ⟨rfl, hencr⟩
      have hplain : marked (keyOf received).keyInfo KEY_INFO_ENCR_KEY_DATA = false := by
        rw [Bool.eq_false_iff]
        intro h
        exact Bool.false_ne_true (hmic.symm.trans (hencr h).1)
      refine (dispatch_plain hmic hplain data).mono ?_ hrefused
      rintro _ _ ⟨⟨reply, rfl⟩, rfl⟩
      exact .answered hmic
    · refine Outcome.Holds.ends (P := Stepped received s) ?_
      have hfailed : ∀ (e : Error) (s' : Supplicant T), Refused s1 s' →
          Stepped received s (.error e) s' := fun e s' h =>
        .failed hmic hnewer hverified h.1 h.2.1 h.2.2
      refine ((openKeyData_spec _ _).mono (fun _ _ h => h) fun e s' h =>
        hfailed e s' (.of_eq h)).bind ?_
      rintro data _ ⟨rfl, hencr⟩
      refine (dispatch_mic hverified.ptk_eq hmic fun h => (hencr h).2 _ hverified.ptk_eq).mono
        (fun _ _ h => .replied hmic hnewer hverified h) hfailed
  · rw [hrun] at hadm
    rw [Call.bind_run, hrun, hadm]
    refine .refused fun _ key hok => ?_
    rw [hrun] at hok
    cases hok
  · rw [hrun] at hadm
    exact hadm.elim

end ClaudeOs.Wifi
