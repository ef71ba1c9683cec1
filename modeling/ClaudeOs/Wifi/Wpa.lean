import ClaudeOs.Lib.Call

/-!
# The WPA2 supplicant

One EAPOL frame from the access point goes in; a reply, and perhaps keys to install, come out.  The
hash and the key unwrapping are those of other crates and stay parameters, and so does the random
source, of which the model keeps which of its calls a nonce came from.

* `Setting`  the association, the master key and the primitives;
* `Drawn`, `Ptk`  a supplicant nonce with its call, and the keys derived from two nonces;
* `parseKeyData`, `KeyFrame`  what is read from a frame;
* `Supplicant`, `receive`  the state machine.
-/

namespace ClaudeOs.Wifi
open Pure

abbrev Octets : Type := List UInt8
abbrev KeyInfo : Type := BitVec 16

def NONCE_LEN : Nat := 32
def REPLAY_COUNTER_LEN : Nat := 8
def MIC_LEN : Nat := 16
def KCK_LEN : Nat := 16
def KEK_LEN : Nat := 16
def TK_LEN : Nat := 16
def PTK_LEN : Nat := KCK_LEN + KEK_LEN + TK_LEN
def GTK_MAX_LEN : Nat := 32
def RSC_LEN : Nat := 6
def PMKID_LEN : Nat := 16
def SUITE_CCMP : Nat := 0x000FAC04
def SUITE_TKIP : Nat := 0x000FAC02

def groupKeyLen (suite : Nat) : Option Nat :=
  if suite = SUITE_CCMP then some 16 else if suite = SUITE_TKIP then some 32 else none

def EAPOL_HEADER_LEN : Nat := 4
def EAPOL_TYPE_KEY : UInt8 := 3
def DESCRIPTOR_RSN : UInt8 := 2
def KEY_HEADER_LEN : Nat := 1 + 2 + 2 + REPLAY_COUNTER_LEN + NONCE_LEN + 16 + 8 + 8
def FIXED_LEN : Nat := EAPOL_HEADER_LEN + KEY_HEADER_LEN + MIC_LEN + 2

-- offsets from the start of the 802.1X header
def AT_KEY_INFO : Nat := 5
def AT_KEY_LENGTH : Nat := 7
def AT_REPLAY : Nat := 9
def AT_NONCE : Nat := 17
def AT_RSC : Nat := 65
def AT_MIC : Nat := 81
def AT_KEY_DATA_LENGTH : Nat := 97
def AT_KEY_DATA : Nat := 99
def KEY_INFO_TYPE_MASK : KeyInfo := 0x0007
def KEY_INFO_TYPE_HMAC_SHA1_AES : KeyInfo := 2
def KEY_INFO_KEY_TYPE : KeyInfo := 0x0008
def KEY_INFO_KEY_INDEX_MASK : KeyInfo := 0x0030
def KEY_INFO_INSTALL : KeyInfo := 0x0040
def KEY_INFO_ACK : KeyInfo := 0x0080
def KEY_INFO_MIC : KeyInfo := 0x0100
def KEY_INFO_SECURE : KeyInfo := 0x0200
def KEY_INFO_REQUEST : KeyInfo := 0x0800
def KEY_INFO_ENCR_KEY_DATA : KeyInfo := 0x1000
def KEY_INFO_SMK_MESSAGE : KeyInfo := 0x2000
def WLAN_EID_RSN : UInt8 := 48
def WLAN_EID_VENDOR_SPECIFIC : UInt8 := 221
def WLAN_EID_RSNX : UInt8 := 244
def RSN_SELECTOR_LEN : Nat := 4
def WPA_OUI_TYPE : Octets := [0x00, 0x50, 0xF2, 1]
def RSN_KEY_DATA_GROUPKEY : Octets := [0x00, 0x0F, 0xAC, 1]
def RSN_KEY_DATA_PMKID : Octets := [0x00, 0x0F, 0xAC, 4]
def RSN_KEY_DATA_KEYID : Octets := [0x00, 0x0F, 0xAC, 10]
def marked (info mask : KeyInfo) : Bool := info &&& mask != 0

/-! ## bytes -/

section
variable (bytes : Octets) (start : Nat)

/-- `len` bytes from `start` on; past the end they read as zero, where no caller reads -/
def slice (len : Nat) : Octets :=
  (List.range len).map fun i => bytes.getD (start + i) 0

@[simp] lemma length_slice (len : Nat) : (slice bytes start len).length = len := by
  rw [slice, List.length_map, List.length_range]

def be16 : KeyInfo :=
  BitVec.ofNat 16 ((bytes.getD start 0).toNat * 256 + (bytes.getD (start + 1) 0).toNat)

def be16Bytes (value : KeyInfo) : Octets :=
  [UInt8.ofNat (value.toNat / 256), UInt8.ofNat (value.toNat % 256)]

def bigEndian : Octets → Nat
  | [] => 0
  | b :: bytes => b.toNat * 256 ^ bytes.length + bigEndian bytes

lemma bigEndian_lt : bigEndian bytes < 256 ^ bytes.length := by
  induction bytes with
  | nil => decide
  | cons b bytes ih =>
    have hb : b.toNat < 256 := b.toNat_lt
    have hmul : (b.toNat + 1) * 256 ^ bytes.length ≤ 256 * 256 ^ bytes.length :=
      Nat.mul_le_mul_right _ hb
    rw [bigEndian, List.length_cons, Nat.pow_succ, Nat.mul_comm (256 ^ _) 256]
    rw [Nat.add_one_mul] at hmul
    omega

end

lemma bigEndian_lt_of_lt {a b : Octets} (hlen : a.length = b.length) (h : a < b) :
    bigEndian a < bigEndian b := by
  induction a generalizing b with
  | nil =>
    rw [List.length_nil] at hlen
    rw [List.eq_nil_of_length_eq_zero hlen.symm] at h
    exact absurd h (List.lt_irrefl _)
  | cons x a ih =>
    cases b with
    | nil => cases hlen
    | cons y b =>
      have hlen' : a.length = b.length := Nat.succ.inj hlen
      rw [bigEndian, bigEndian, hlen']
      rcases List.cons_lt_cons_iff.mp h with hxy | ⟨rfl, hab⟩
      · have hx : x.toNat + 1 ≤ y.toNat := hxy
        have hmul := Nat.mul_le_mul_right (256 ^ b.length) hx
        have ha := bigEndian_lt a
        rw [Nat.add_one_mul] at hmul
        rw [hlen'] at ha
        omega
      · exact Nat.add_lt_add_left (ih hlen' hab) _

def equalInConstantTime (a b : Octets) : Bool :=
  a.length == b.length && (List.zipWith (· ^^^ ·) a b).foldl (· ||| ·) 0 == 0

lemma difference_eq_zero {a b : Octets} (hlen : a.length = b.length) (difference : UInt8) :
    (List.zipWith (· ^^^ ·) a b).foldl (· ||| ·) difference = 0 ↔ difference = 0 ∧ a = b := by
  induction a generalizing b difference with
  | nil =>
    rw [List.eq_nil_of_length_eq_zero hlen.symm]
    simp
  | cons x a ih =>
    cases b with
    | nil => cases hlen
    | cons y b =>
      rw [List.zipWith_cons_cons, List.foldl_cons, ih (Nat.succ.inj hlen), UInt8.or_eq_zero_iff,
        UInt8.xor_eq_zero_iff, List.cons.injEq, and_assoc]

lemma equalInConstantTime_iff {a b : Octets} : equalInConstantTime a b = true ↔ a = b := by
  rw [equalInConstantTime, Bool.and_eq_true, beq_iff_eq, beq_iff_eq]
  constructor
  · rintro ⟨hlen, hzero⟩
    exact ((difference_eq_zero hlen 0).mp hzero).2
  · rintro rfl
    exact ⟨rfl, (difference_eq_zero rfl 0).mpr ⟨rfl, rfl⟩⟩

/-! ## keys -/

structure Association where
  own : Octets
  aa : Octets
  ownRsn : Octets
  apRsn : Option Octets
  apRsnx : Option Octets
  groupCipher : Nat
  eapolVersion : UInt8

/-- an association, its master key, the calls of the random source, and the primitives -/
structure Setting where
  association : Association
  pmk : Octets
  random : Nat → Octets
  hmacSha1 : Octets → Octets → Vector UInt8 20
  aesUnwrap : Octets → Octets → Option Octets

open List
variable (T : Setting)

/-- hashes with a counter byte, one after the other, cut to the length wanted -/
def prfFrom (key label data : Octets) (counter : UInt8) (len : Nat) : Octets :=
  if len = 0 then []
  else (T.hmacSha1 key (label ++ [0] ++ data ++ [counter])).toList.take len ++
    prfFrom key label data (counter + 1) (len - 20)
termination_by len

def prfSha1 (key label data : Octets) (len : Nat) : Octets := prfFrom T key label data 0 len

def EXPANSION_LABEL : Octets :=
  [0x50, 0x61, 0x69, 0x72, 0x77, 0x69, 0x73, 0x65, 0x20, 0x6B, 0x65, 0x79, 0x20, 0x65, 0x78, 0x70,
    0x61, 0x6E, 0x73, 0x69, 0x6F, 0x6E]

def inOrder (a b : Octets) : Octets := if a < b then a ++ b else b ++ a

def ptkBytes (snonce anonce : Octets) : Octets :=
  prfSha1 T T.pmk EXPANSION_LABEL
    (inOrder T.association.own T.association.aa ++ inOrder snonce anonce) PTK_LEN

/-- the nonce after a number of calls of the random source; before the first it is zero -/
def Setting.drawn : Nat → Octets
  | 0 => replicate NONCE_LEN 0
  | call + 1 => T.random call

/-- a supplicant nonce, with the number of calls of the random source when it was drawn -/
structure Drawn where
  call : Nat
  nonce : Octets
  drawn : nonce = T.drawn call

def Drawn.next (d : Drawn T) : Drawn T := ⟨d.call + 1, T.random d.call, rfl⟩

/-- KCK, KEK and TK, in that order, with the nonces they come from -/
structure Ptk where
  snonce : Drawn T
  anonce : Octets
  bytes : Octets
  derived : bytes = ptkBytes T snonce.nonce anonce

def derivePtk (snonce : Drawn T) (anonce : Octets) : Ptk T :=
  ⟨snonce, anonce, ptkBytes T snonce.nonce anonce, rfl⟩

namespace Ptk
variable {T} (ptk : Ptk T)

def kck : Octets := ptk.bytes.take KCK_LEN
def kek : Octets := (ptk.bytes.drop KCK_LEN).take KEK_LEN
def tk : Octets := ptk.bytes.drop (KCK_LEN + KEK_LEN)

end Ptk

structure PairwiseKey where
  key : Octets
  ptk : Ptk T
  isTk : key = ptk.tk

structure GroupKey where
  index : UInt8
  key : Octets
  rsc : Octets
deriving DecidableEq

def mic (kck frame : Octets) : Octets := (T.hmacSha1 kck frame).toList.take MIC_LEN

/-! ## frames -/

inductive Step where
  | message1
  | message3
  | groupMessage1
deriving DecidableEq, Repr

structure Outcome where
  step : Step
  reply : Octets
  pairwise : Option (PairwiseKey T)
  group : Option GroupKey

inductive Error where
  | tooShort
  | notKeyFrame
  | badLength
  | notRsnDescriptor
  | keyDataOverflow
  | replayCounterNotIncreased
  | smkBit
  | noAckBit
  | requestBit
  | descriptorVersion (version : KeyInfo)
  | micMismatch
  | noKeyForMic
  | encryptedWithoutMic
  | keyDataNotBlocks
  | unwrapFailed
  | pairwiseKeyIndex
  | groupWithoutMic
  | keyDataElements
  | gtkUnencrypted
  | noApRsnElement
  | rsnElementDiffers
  | rsnxElementDiffers
  | extendedKeyId
  | anonceDiffers
  | keyLength (length : KeyInfo)
  | noGtk
  | gtkLength
  | groupBeforePairwise
deriving DecidableEq, Repr

structure KeyData where
  rsn : Option Octets
  rsnx : Option Octets
  wpa : Option Octets
  gtk : Option Octets
  keyId : Option Octets
deriving DecidableEq

/-- a vendor element: one of the kinds this network uses, or passed over -/
def parseGeneric (element : Octets) (found : KeyData) : KeyData :=
  if element.length < 2 + RSN_SELECTOR_LEN then found
  else
    let selector := slice element 2 RSN_SELECTOR_LEN
    let body := element.drop (2 + RSN_SELECTOR_LEN)
    if selector = WPA_OUI_TYPE ∧ body.length ≥ 2 ∧ body.getD 0 0 = 1 ∧ body.getD 1 0 = 0 then
      { found with wpa := some element }
    else if selector = RSN_KEY_DATA_PMKID ∧ body.length ≥ PMKID_LEN then found
    else if selector = RSN_KEY_DATA_KEYID ∧ body.length ≥ 2 then { found with keyId := some body }
    else if selector = RSN_KEY_DATA_GROUPKEY ∧ body.length > 2 then { found with gtk := some body }
    else found

def parseElement (element : Octets) (found : KeyData) : KeyData :=
  if element.getD 0 0 = WLAN_EID_RSN then { found with rsn := some element }
  else if element.getD 0 0 = WLAN_EID_RSNX then { found with rsnx := some element }
  else if element.getD 0 0 = WLAN_EID_VENDOR_SPECIFIC then parseGeneric element found
  else found

/-- elements until padding; `fuel` bounds the elements left, each of which has two bytes at least -/
def parseFrom : Nat → Octets → KeyData → Except Error KeyData
  | 0, _, found => .ok found
  | fuel + 1, data, found =>
    if data.length ≤ 1 then .ok found
    else if data.getD 0 0 = WLAN_EID_VENDOR_SPECIFIC ∧ data.getD 1 0 = 0 then .ok found
    else if 2 + (data.getD 1 0).toNat > data.length then .error .keyDataElements
    else parseFrom fuel (data.drop (2 + (data.getD 1 0).toNat))
      (parseElement (data.take (2 + (data.getD 1 0).toNat)) found)

def parseKeyData (data : Octets) : Except Error KeyData :=
  parseFrom data.length data ⟨none, none, none, none, none⟩

structure KeyFrame where
  version : UInt8
  keyInfo : KeyInfo
  keyLength : KeyInfo
  replay : Octets
  nonce : Octets
  rsc : Octets

section
variable (frame : Octets)

def KeyFrame.read : KeyFrame where
  version := frame.getD 0 0
  keyInfo := be16 frame AT_KEY_INFO
  keyLength := be16 frame AT_KEY_LENGTH
  replay := slice frame AT_REPLAY REPLAY_COUNTER_LEN
  nonce := slice frame AT_NONCE NONCE_LEN
  rsc := slice frame AT_RSC 8

def build (version : UInt8) (keyInfo : KeyInfo) (replay nonce keyData : Octets) : Octets :=
  [version, EAPOL_TYPE_KEY] ++
    be16Bytes (BitVec.ofNat 16 (FIXED_LEN - EAPOL_HEADER_LEN + keyData.length)) ++
    [DESCRIPTOR_RSN] ++ be16Bytes keyInfo ++ [0, 0] ++ replay ++ nonce ++
    replicate (16 + 8 + 8) 0 ++ replicate MIC_LEN 0 ++
    be16Bytes (BitVec.ofNat 16 keyData.length) ++ keyData

def putMic (value : Octets) : Octets :=
  frame.take AT_MIC ++ value ++ frame.drop (AT_MIC + MIC_LEN)

def sign (kck : Octets) : Octets := putMic frame (mic T kck frame)

def keyDataOf : Octets :=
  slice frame AT_KEY_DATA (be16 frame AT_KEY_DATA_LENGTH).toNat

def Ptk.checks {T : Setting} (ptk : Ptk T) (frame : Octets) : Bool :=
  equalInConstantTime (mic T ptk.kck (putMic frame (replicate MIC_LEN 0)))
    (slice frame AT_MIC MIC_LEN)

lemma Ptk.checks_iff {T : Setting} {ptk : Ptk T} {frame : Octets} : ptk.checks frame = true ↔
    mic T ptk.kck (putMic frame (replicate MIC_LEN 0)) = slice frame AT_MIC MIC_LEN :=
  equalInConstantTime_iff

/-! ## the state machine -/

structure Supplicant where
  snonce : Drawn T
  renewSnonce : Bool
  anonce : Octets
  tptk : Option (Ptk T)
  ptk : Option (Ptk T)
  ptkInstalled : Bool
  rxReplay : Option Octets
  msg3Of4Ok : Bool
  gtk : Option Octets

def Supplicant.new : Supplicant T :=
  ⟨⟨0, _, rfl⟩, true, replicate NONCE_LEN 0, none, none, false, none, false, none⟩

namespace Supplicant
variable {T} (s : Supplicant T)

def promote (ptk : Ptk T) : Supplicant T :=
  { s with tptk := none, ptk := some ptk, ptkInstalled := false, renewSnonce := true }

def setRxReplay (replay : Octets) : Supplicant T := { s with rxReplay := some replay }
def answerNonce : Drawn T := if s.renewSnonce then s.snonce.next else s.snonce

def answer (anonce : Octets) : Supplicant T :=
  { s with
    snonce := s.answerNonce, renewSnonce := false, anonce := anonce
    tptk := some (derivePtk T s.answerNonce anonce) }

def renew : Supplicant T := { s with renewSnonce := true }
def setGtk (gtk : Octets) : Supplicant T := { s with gtk := some gtk }

def finish (handed : Bool) : Supplicant T :=
  { s with ptkInstalled := s.ptkInstalled || handed, msg3Of4Ok := true }

end Supplicant

abbrev Receiving (α : Type) : Type := Call Error (Supplicant T) α

/-- what is asked of the fixed fields before a key is used -/
def checkFrame : Receiving T KeyFrame :=
  Call.get >>= fun s =>
    let key := KeyFrame.read frame
    if frame.getD 4 0 ≠ DESCRIPTOR_RSN then Call.fail .notRsnDescriptor
    else if (be16 frame AT_KEY_DATA_LENGTH).toNat > frame.length - FIXED_LEN then
      Call.fail .keyDataOverflow
    else if ∃ last ∈ s.rxReplay, ¬ last < key.replay then Call.fail .replayCounterNotIncreased
    else if marked key.keyInfo KEY_INFO_SMK_MESSAGE then Call.fail .smkBit
    else if ¬ marked key.keyInfo KEY_INFO_ACK then Call.fail .noAckBit
    else if marked key.keyInfo KEY_INFO_REQUEST then Call.fail .requestBit
    else if key.keyInfo &&& KEY_INFO_TYPE_MASK ≠ KEY_INFO_TYPE_HMAC_SHA1_AES then
      Call.fail (.descriptorVersion (key.keyInfo &&& KEY_INFO_TYPE_MASK))
    else pure key

def verifyMic (key : KeyFrame) : Receiving T Unit :=
  Call.get >>= fun s =>
    match s.tptk.filter (·.checks frame) with
    | some tptk => Call.modify fun s => (s.promote tptk).setRxReplay key.replay
    | none =>
      match s.ptk with
      | none => Call.fail .noKeyForMic
      | some ptk =>
        if ¬ ptk.checks frame then Call.fail .micMismatch
        else Call.modify fun s => s.setRxReplay key.replay

def decryptKeyData (keyData : Octets) : Receiving T Octets :=
  Call.get >>= fun s =>
    match s.ptk with
    | none => Call.fail .noKeyForMic
    | some ptk =>
      if keyData.length < 8 ∨ keyData.length % 8 ≠ 0 then Call.fail .keyDataNotBlocks
      else
        match T.aesUnwrap ptk.kek keyData with
        | none => Call.fail .unwrapFailed
        | some plain => pure plain

def elements (keyData : Octets) : Receiving T KeyData :=
  match parseKeyData keyData with
  | .error e => Call.fail e
  | .ok ie => pure ie

section
variable (key : KeyFrame) (keyData : Octets)

def process1Of4 : Receiving T (Outcome T) :=
  elements T keyData >>= fun _ => Call.get >>= fun s =>
    let info := KEY_INFO_TYPE_HMAC_SHA1_AES ||| KEY_INFO_KEY_TYPE ||| KEY_INFO_MIC |||
      (if s.ptk.isSome then KEY_INFO_SECURE else 0)
    let reply := build T.association.eapolVersion info key.replay s.answerNonce.nonce
      T.association.ownRsn
    Call.modify (·.answer key.nonce) >>= fun _ =>
      pure ⟨.message1, sign T reply (derivePtk T s.answerNonce key.nonce).kck, none, none⟩

def validateIe (ie : KeyData) : Receiving T Unit :=
  match T.association.apRsn with
  | none => Call.fail .noApRsnElement
  | some apRsn =>
    if ie.wpa.isNone ∧ ie.rsn.isNone then Call.fail .rsnElementDiffers
    else if ∃ rsn ∈ ie.rsn, rsn ≠ apRsn then Call.fail .rsnElementDiffers
    else if T.association.apRsnx ≠ ie.rsnx then Call.fail .rsnxElementDiffers
    else pure ()

/-- where reception starts; a counter whose bytes look swapped is taken as zero -/
def rscStart (rsc : Octets) : Octets :=
  if (rsc.getD 5 0 ≠ 0 ∧ rsc.getD 0 0 = 0) ∨ rsc.getD 6 0 ≠ 0 ∨ rsc.getD 7 0 ≠ 0 then
    replicate RSC_LEN 0
  else slice rsc 0 RSC_LEN

def takeGtk (kde rsc : Octets) : Receiving T (Option GroupKey) :=
  if kde.length < 2 ∨ kde.length - 2 > GTK_MAX_LEN then Call.fail .gtkLength
  else if some (kde.drop 2).length ≠ groupKeyLen T.association.groupCipher then
    Call.fail .gtkLength
  else Call.get >>= fun s =>
    if ∃ current ∈ s.gtk, equalInConstantTime current (kde.drop 2) then pure none
    else Call.modify (·.setGtk (kde.drop 2)) >>= fun _ =>
      pure (some ⟨kde.getD 0 0 &&& 3, kde.drop 2, rscStart rsc⟩)

def lastReply (info : KeyInfo) (ptk : Ptk T) : Octets :=
  sign T (build T.association.eapolVersion info key.replay (replicate NONCE_LEN 0) []) ptk.kck

def handOut (ptk : Ptk T) (installed : Bool) : Option (PairwiseKey T) :=
  if marked key.keyInfo KEY_INFO_INSTALL ∧ ¬ installed then some ⟨ptk.tk, ptk, rfl⟩ else none

def process3With (ie : KeyData) (ptk : Ptk T) (installed : Bool) : Receiving T (Outcome T) :=
  Call.modify (·.renew) >>= fun _ =>
    match ie.gtk with
    | none => Call.fail .noGtk
    | some gtk =>
      takeGtk T gtk key.rsc >>= fun group =>
        Call.modify (·.finish (handOut T key ptk installed).isSome) >>= fun _ =>
          pure ⟨.message3, lastReply T key ((key.keyInfo &&& KEY_INFO_SECURE) |||
            KEY_INFO_TYPE_HMAC_SHA1_AES ||| KEY_INFO_KEY_TYPE ||| KEY_INFO_MIC) ptk,
            handOut T key ptk installed, group⟩

def process3Of4 : Receiving T (Outcome T) :=
  elements T keyData >>= fun ie =>
    if ie.gtk.isSome ∧ ¬ marked key.keyInfo KEY_INFO_ENCR_KEY_DATA then Call.fail .gtkUnencrypted
    else validateIe T ie >>= fun _ =>
      if ∃ keyId ∈ ie.keyId, keyId.getD 0 0 &&& 3 ≠ 0 then Call.fail .extendedKeyId
      else Call.get >>= fun s =>
        if key.nonce ≠ s.anonce then Call.fail .anonceDiffers
        else if key.keyLength.toNat ≠ TK_LEN then Call.fail (.keyLength key.keyLength)
        else
          match s.ptk with
          | none => Call.fail .noKeyForMic
          | some ptk => process3With T key ie ptk s.ptkInstalled

def process1Of2 : Receiving T (Outcome T) :=
  Call.get >>= fun s =>
    if ¬ s.msg3Of4Ok then Call.fail .groupBeforePairwise
    else elements T keyData >>= fun ie =>
      if ie.gtk.isSome ∧ ¬ marked key.keyInfo KEY_INFO_ENCR_KEY_DATA then
        Call.fail .gtkUnencrypted
      else
        match ie.gtk with
        | none => Call.fail .noGtk
        | some gtk =>
          takeGtk T gtk key.rsc >>= fun group =>
            match s.ptk with
            | none => Call.fail .noKeyForMic
            | some ptk =>
              pure ⟨.groupMessage1, lastReply T key ((key.keyInfo &&& KEY_INFO_KEY_INDEX_MASK)
                ||| KEY_INFO_TYPE_HMAC_SHA1_AES ||| KEY_INFO_SECURE ||| KEY_INFO_MIC) ptk,
                none, group⟩

def replayChecked : Receiving T KeyFrame :=
  checkFrame T frame >>= fun key =>
    (if marked key.keyInfo KEY_INFO_MIC then verifyMic T frame key else pure ()) >>= fun _ =>
      pure key

def openKeyData : Receiving T Octets :=
  if marked key.keyInfo KEY_INFO_ENCR_KEY_DATA then
    if ¬ marked key.keyInfo KEY_INFO_MIC then Call.fail .encryptedWithoutMic
    else decryptKeyData T keyData
  else pure keyData

def dispatch : Receiving T (Outcome T) :=
  if marked key.keyInfo KEY_INFO_KEY_TYPE then
    if marked key.keyInfo KEY_INFO_KEY_INDEX_MASK then Call.fail .pairwiseKeyIndex
    else if marked key.keyInfo (KEY_INFO_MIC ||| KEY_INFO_ENCR_KEY_DATA) then
      process3Of4 T key keyData
    else process1Of4 T key keyData
  else if marked key.keyInfo KEY_INFO_MIC then process1Of2 T key keyData
  else Call.fail .groupWithoutMic

end

def receiveCopy : Receiving T (Outcome T) :=
  replayChecked T frame >>= fun key =>
    openKeyData T key (keyDataOf frame) >>= fun keyData => dispatch T key keyData

end

def bodyOf (received : Octets) : Octets :=
  received.take (EAPOL_HEADER_LEN + (be16 received 2).toNat)

def openBody (received : Octets) : Receiving T Octets :=
  if received.length < FIXED_LEN then Call.fail .tooShort
  else if received.getD 1 0 ≠ EAPOL_TYPE_KEY then Call.fail .notKeyFrame
  else if (be16 received 2).toNat > received.length - EAPOL_HEADER_LEN ∨
      (be16 received 2).toNat < FIXED_LEN - EAPOL_HEADER_LEN then Call.fail .badLength
  else pure (bodyOf received)

def receive (received : Octets) : Receiving T (Outcome T) :=
  openBody T received >>= receiveCopy T

end ClaudeOs.Wifi
