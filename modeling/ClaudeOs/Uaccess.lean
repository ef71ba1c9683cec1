import ClaudeOs.Lib.Call
import ClaudeOs.Mm.Guard

/-!
# Copying between kernel and user memory

The functions of `uaccess`, over whatever the address space of the task is: a `Space` says what
`access_page` and `fault_in` do to it, what is read and written, and what siblings do to it while
interrupts are on.  Every addition and subtraction of the source stands behind its check.

* `Space`  the address space behind the calls;
* `validateIn`  the check of a range, page by page;
* `readBytesIn` ...  the copies, a chunk at a time;
* `readCstr`, `readIovecs`  the two that read until they know how much;
* `Tally`, `Touches`  pages found ready, and one walk of the calls that keeps count of them;
* `user_pointers`  when one of them stops the machine, and what they accept.
-/

namespace ClaudeOs
open Mm Call Nat Post Ends

inductive Errno where
  | EPERM
  | EINTR
  | EBADF
  | ENOMEM
  | EFAULT
  | ECHILD
  | ENODEV
  | EINVAL
  | ENAMETOOLONG
deriving DecidableEq, Repr

inductive PageAccess where
  | ready
  | absent
  | refused
deriving DecidableEq, Repr

/-- an address space as these calls reach it, and what else happens to it meanwhile -/
structure Space (σ : Type) where
  /-- siblings running while interrupts are on -/
  gap : σ → σ
  accessPage : Nat → Bool → σ → PageAccess × σ
  faultIn : Nat → σ → Bool × σ
  load : Nat → σ → UInt8 × σ
  store : Nat → UInt8 → σ → σ

def isUserAddr (virt : Nat) : Prop := virt < USER_LIMIT

instance (virt : Nat) : Decidable (isUserAddr virt) := decLt _ _

variable {addr cur dst len n src stop : Nat}

namespace Uaccess
variable {σ : Type} (S : Space σ)

abbrev Access (σ α : Type) : Type := Call Errno σ α

/-- interrupts off: siblings ran until then -/
def withoutInterrupts {α : Type} (m : Access σ α) : Access σ α :=
  act (fun s => ((), S.gap s)) >>= fun _ => m

def reach (page : Nat) (write : Bool) : Access σ PageAccess := act (S.accessPage page write)

def readyPage (page : Nat) (write : Bool) : Access σ Unit :=
  reach S page write >>= fun access =>
    match access with
    | .ready => Pure.pure ()
    | .refused => fail .EFAULT
    | .absent =>
      act (S.faultIn page) >>= fun backed =>
        if !backed then fail .EFAULT
        else reach S page write >>= fun access =>
          if access ≠ .ready then fail .EFAULT else Pure.pure ()

def readyPages (stop page : Nat) (write : Bool) : Access σ Unit :=
  if page < stop then
    readyPage S page write >>= fun _ =>
      addOk page PAGE_SIZE >>= fun _ => readyPages stop (page + PAGE_SIZE) write
  else Pure.pure ()
termination_by stop - page
decreasing_by
  simp only [PAGE_SIZE]
  omega

def validateIn (addr len : Nat) (write : Bool) : Access σ Unit :=
  if len = 0 then Pure.pure ()
  else if WORD ≤ addr + len then fail .EFAULT
  else if ¬ isUserAddr addr ∨ ¬ isUserAddr (addr + len - 1) then fail .EFAULT
  else readyPages S (addr + len) (pageAlignDown addr) write

def pageEnd (addr : Nat) : Nat := pageAlignDown addr + PAGE_SIZE

lemma lt_pageEnd (addr : Nat) : addr < pageEnd addr := by
  simp only [pageEnd, pageAlignDown, PAGE_SIZE]
  omega

def loadAll : Nat → Nat → σ → List UInt8 × σ
  | 0, _, s => ([], s)
  | n + 1, addr, s =>
    let (byte, s) := S.load addr s
    let (bytes, s) := loadAll n (addr + 1) s
    (byte :: bytes, s)

def storeAll : List UInt8 → Nat → σ → σ
  | [], _, s => s
  | byte :: bytes, addr, s => storeAll bytes (addr + 1) (S.store addr byte s)

def readFrom (addr stop cur : Nat) : Access σ (List UInt8) :=
  if cur < stop then
    addOk (pageAlignDown cur) PAGE_SIZE >>= fun _ =>
      subOk cur addr >>= fun _ => subOk (min (pageEnd cur) stop) cur >>= fun _ =>
        withoutInterrupts S
          (validateIn S cur (min (pageEnd cur) stop - cur) false >>= fun _ =>
            act (loadAll S (min (pageEnd cur) stop - cur) cur)) >>= fun bytes =>
          readFrom addr stop (min (pageEnd cur) stop) >>= fun rest => Pure.pure (bytes ++ rest)
  else Pure.pure []
termination_by stop - cur
decreasing_by
  have := lt_pageEnd cur
  omega

section
variable (addr len : Nat)

def readBytesIn : Access σ (List UInt8) :=
  if len = 0 then Pure.pure []
  else if WORD ≤ addr + len then fail .EFAULT
  else readFrom S addr (addr + len) addr

def writeFrom (addr : Nat) (buf : List UInt8) (cur : Nat) : Access σ Unit :=
  if cur < addr + buf.length then
    addOk (pageAlignDown cur) PAGE_SIZE >>= fun _ =>
      subOk cur addr >>= fun _ => subOk (min (pageEnd cur) (addr + buf.length)) cur >>= fun _ =>
        withoutInterrupts S
          (validateIn S cur (min (pageEnd cur) (addr + buf.length) - cur) true >>= fun _ =>
            act fun s => ((), storeAll S
              ((buf.drop (cur - addr)).take (min (pageEnd cur) (addr + buf.length) - cur)) cur s))
          >>= fun _ => writeFrom addr buf (min (pageEnd cur) (addr + buf.length))
  else Pure.pure ()
termination_by addr + buf.length - cur
decreasing_by
  have := lt_pageEnd cur
  omega

def writeBytesIn (buf : List UInt8) : Access σ Unit :=
  if buf.length = 0 then Pure.pure ()
  else if WORD ≤ addr + buf.length then fail .EFAULT
  else writeFrom S addr buf addr

def moveChunk (src dst len done : Nat) : Nat :=
  min (min (pageEnd (src + done) - (src + done)) (pageEnd (dst + done) - (dst + done))) (len - done)

def moveFrom (dst src len done : Nat) : Access σ Unit :=
  if done < len then
    addOk src done >>= fun _ => addOk dst done >>= fun _ =>
      addOk (pageAlignDown (src + done)) PAGE_SIZE >>= fun _ =>
      subOk (pageEnd (src + done)) (src + done) >>= fun _ =>
      addOk (pageAlignDown (dst + done)) PAGE_SIZE >>= fun _ =>
      subOk (pageEnd (dst + done)) (dst + done) >>= fun _ =>
      subOk len done >>= fun _ =>
        withoutInterrupts S
          (validateIn S (src + done) (moveChunk src dst len done) false >>= fun _ =>
            validateIn S (dst + done) (moveChunk src dst len done) true >>= fun _ =>
              act fun s =>
                let (bytes, s) := loadAll S (moveChunk src dst len done) (src + done) s
                ((), storeAll S bytes (dst + done) s)) >>= fun _ =>
          addOk done (moveChunk src dst len done) >>= fun _ =>
            moveFrom dst src len (done + moveChunk src dst len done)
  else Pure.pure ()
termination_by len - done
decreasing_by
  have := lt_pageEnd (src + done)
  have := lt_pageEnd (dst + done)
  simp only [moveChunk]
  omega

def copyWithinUserIn (dst src len : Nat) : Access σ Unit :=
  if len = 0 then Pure.pure ()
  else if WORD ≤ src + len then fail .EFAULT
  else if WORD ≤ dst + len then fail .EFAULT
  else moveFrom S dst src len 0

def readStruct (size : Nat) : Access σ (List UInt8) :=
  withoutInterrupts S (validateIn S addr size false >>= fun _ => act (loadAll S size addr))

def writeStruct (value : List UInt8) : Access σ Unit :=
  withoutInterrupts S
    (validateIn S addr value.length true >>= fun _ => act fun s => ((), storeAll S value addr s))

def CHUNK : Nat := 256

/-- the end of the piece of a string that starts at `cursor` -/
def cstrEnd (max cursor : Nat) : Nat := min (min (pageEnd cursor) (addr + max)) (cursor + CHUNK)

/-- the pieces of a string after the `done` bytes of `out` -/
def cstrFrom (utf8 : List UInt8 → Bool) (addr max done : Nat) (out : List UInt8) :
    Access σ (List UInt8) :=
  if done < max then
    addOk (pageAlignDown (addr + done)) PAGE_SIZE >>= fun _ => addOk addr max >>= fun _ =>
      addOk (addr + done) CHUNK >>= fun _ =>
      subOk (cstrEnd addr max (addr + done)) (addr + done) >>= fun _ =>
        withoutInterrupts S
          (validateIn S (addr + done) (cstrEnd addr max (addr + done) - (addr + done)) false
            >>= fun _ =>
              act (loadAll S (cstrEnd addr max (addr + done) - (addr + done)) (addr + done)))
          >>= fun piece =>
            match piece.findIdx? (· == 0) with
            | some n =>
              if utf8 (out ++ piece.take n) then Pure.pure (out ++ piece.take n) else fail .EINVAL
            | none =>
              cstrFrom utf8 addr max (cstrEnd addr max (addr + done) - addr) (out ++ piece)
  else fail .ENAMETOOLONG
termination_by max - done
decreasing_by
  have := lt_pageEnd (addr + done)
  simp only [cstrEnd, CHUNK]
  omega

def readCstr (utf8 : List UInt8 → Bool) (addr max : Nat) : Access σ (List UInt8) :=
  cstrFrom S utf8 addr max 0 []

/-- `n` entries of the array for readv and writev, from the `i`th on -/
def iovecsFrom (addr : Nat) : Nat → Nat → Access σ (List (List UInt8))
  | 0, _ => Pure.pure []
  | n + 1, i =>
    addOk addr (i * 16) >>= fun _ => readStruct S (addr + i * 16) 16 >>= fun iovec =>
      iovecsFrom addr n (i + 1) >>= fun rest => Pure.pure (iovec :: rest)

def readIovecs (count : Nat) : Access σ (List (List UInt8)) :=
  if count > 1024 then fail .EINVAL else iovecsFrom S addr count 0

/-! ## what is accepted is in the user half, and nothing overflows on the way -/

/-- every byte of `[addr, addr + len)` is in the half a program owns -/
def InUser : Prop := ∀ b, addr ≤ b → b < addr + len → isUserAddr b

/-- the last page of the address space, past whose end no address is -/
def InTopPage : Prop := WORD - PAGE_SIZE ≤ addr

lemma pageEnd_fits : pageAlignDown addr + PAGE_SIZE < WORD ↔ ¬ InTopPage addr := by
  simp only [InTopPage, pageAlignDown, WORD, PAGE_SIZE]
  omega

lemma InTopPage.wraps {addr : Nat} (h : InTopPage addr) :
    ¬ pageAlignDown addr + PAGE_SIZE < WORD := fun hfits => (pageEnd_fits addr).mp hfits h

end

lemma pageEnd_le (h : isUserAddr addr) : pageEnd addr ≤ USER_LIMIT := by
  simp only [isUserAddr, pageEnd, pageAlignDown, USER_LIMIT, PAGE_SIZE] at *
  omega

lemma not_inTopPage (h : addr ≤ USER_LIMIT) : ¬ InTopPage addr := by
  simp only [InTopPage, USER_LIMIT, WORD, PAGE_SIZE] at *
  omega

lemma InUser.append {mid : Nat} (h : InUser cur (mid - cur)) (h' : InUser mid (stop - mid))
    (hcur : cur ≤ mid) (hmid : mid ≤ stop) : InUser cur (stop - cur) := by
  intro b hlo hhi
  by_cases hb : b < mid
  · exact h b hlo (by omega)
  · exact h' b (by omega) (by omega)

lemma length_loadAll (n addr : Nat) (s : σ) : (loadAll S n addr s).1.length = n := by
  induction n generalizing addr s with
  | zero => rfl
  | succ n ih => exact congrArg (· + 1) (ih (addr + 1) (S.load addr s).2)

/-! ## pages found ready

A tally over an address space says which pages have been found ready since interrupts went off.
Looking at a page adds to it, backing another page keeps it, and a load or a store needs the page in
it.  A tally may ask for calm before a page is backed: right after interrupts went off there is,
and after a page was found ready there need not be, so such a tally covers the copies that check
one page at a time. -/

structure Tally (S : Space σ) where
  Good : σ → Prop
  /-- a page may be backed now -/
  Calm : σ → Prop
  /-- the page at an address was found ready, for a store or not -/
  Held : σ → Nat → Bool → Prop
  gap : ∀ {s}, Good s → Good (S.gap s) ∧ Calm (S.gap s)
  accessPage : ∀ {s} (page : Nat) (write : Bool), Good s → Good (S.accessPage page write s).2
  keeps_accessPage : ∀ {s} (page : Nat) (write : Bool) {q v}, Good s → Held s q v →
    Held (S.accessPage page write s).2 q v
  ready : ∀ {s page write}, Good s → (S.accessPage page write s).1 = .ready →
    Held (S.accessPage page write s).2 page write
  absent : ∀ {s page write}, Calm s → (S.accessPage page write s).1 = .absent →
    Calm (S.accessPage page write s).2
  faultIn : ∀ {s} (page : Nat), Good s → Calm s → Good (S.faultIn page s).2
  keeps_faultIn : ∀ {s} (page : Nat) {q v}, Good s → Held s q v → Held (S.faultIn page s).2 q v
  load : ∀ {s va v}, Good s → Held s (pageAlignDown va) v → Good (S.load va s).2
  keeps_load : ∀ {s va q v}, Held s q v → Held (S.load va s).2 q v
  store : ∀ {s va byte}, Good s → Held s (pageAlignDown va) true → Good (S.store va byte s)
  keeps_store : ∀ {s va byte q v}, Held s q v → Held (S.store va byte s) q v

namespace Tally
variable {S : Space σ} (T : Tally S) {s : σ}

def Keeps (s s' : σ) : Prop := ∀ q v, T.Held s q v → T.Held s' q v

/-- every byte of `[addr, addr + len)` is on a page in the tally -/
def Range (s : σ) (addr len : Nat) (write : Bool) : Prop :=
  ∀ b, addr ≤ b → b < addr + len → T.Held s (pageAlignDown b) write

variable {T}

lemma Keeps.trans {s1 s2 s3 : σ} (h : T.Keeps s1 s2) (h' : T.Keeps s2 s3) : T.Keeps s1 s3 :=
  fun q v hq => h' q v (h q v hq)

lemma Range.keeps {s s' : σ} {write : Bool} (h : T.Range s addr len write) (hk : T.Keeps s s') :
    T.Range s' addr len write :=
  fun b hlo hhi => hk _ _ (h b hlo hhi)

/-! ## the check -/

/-- a call that keeps to the tally and returns with `Q`, and stops only without `C` -/
abbrev Touches {α : Type} (T : Tally S) (C : Prop) (Q : α → σ → Prop) (m : Access σ α) (s : σ) : Prop :=
  Ends T.Good C Q (fun _ _ => True) (m s)

variable {C : Prop}

lemma reach (page : Nat) (write : Bool) (hs : T.Good s) :
    Touches T C (fun access s' => T.Keeps s s' ∧ (access = .ready → T.Held s' page write) ∧
      (access = .absent → T.Calm s → T.Calm s')) (reach S page write) s :=
  ⟨T.accessPage page write hs, fun _ _ => T.keeps_accessPage page write hs, fun h => T.ready hs h,
    fun h hcalm => T.absent hcalm h⟩

lemma readyPage (page : Nat) (write : Bool) (hs : T.Good s) (hcalm : T.Calm s) :
    Touches T C (fun _ s' => T.Keeps s s' ∧ T.Held s' page write) (readyPage S page write) s := by
  refine (reach page write hs).bind fun access s1 h1 ⟨hkept, hready, habsent⟩ => ?_
  cases access with
  | ready => exact ⟨h1, hkept, hready rfl⟩
  | refused => exact ⟨h1, trivial⟩
  | absent =>
    have h2 : T.Good (S.faultIn page s1).2 := T.faultIn page h1 (habsent rfl hcalm)
    have hkept2 : T.Keeps s (S.faultIn page s1).2 := hkept.trans fun _ _ => T.keeps_faultIn page h1
    have hact : Touches T C (fun _ s' => T.Keeps s s') (act (S.faultIn page)) s1 := ⟨h2, hkept2⟩
    refine hact.bind fun backed s2 h2 hkept2 => ite (fun _ => ⟨h2, trivial⟩) fun _ => ?_
    refine (reach page write h2).bind fun access s3 h3 ⟨hkept3, hready3, _⟩ => ?_
    refine ite (fun _ => ⟨h3, trivial⟩) fun hne => ⟨h3, hkept2.trans hkept3, hready3 ?_⟩
    exact not_not.mp hne

section
variable (hs : T.Good s)
include hs

lemma readyPages {page : Nat} {write : Bool} (hcalm : T.Calm s) (hpage : PAGE_SIZE ∣ page)
    (hone : (∀ s, T.Calm s) ∨ stop ≤ page + PAGE_SIZE) (hstop : stop ≤ USER_LIMIT) :
    Touches T C (fun _ s' => T.Keeps s s' ∧
      ∀ b, page ≤ b → b < stop → T.Held s' (pageAlignDown b) write) (readyPages S stop page write) s := by
  induction hn : stop - page using Nat.strongRecOn generalizing page s with
  | _ n ih =>
    rw [Touches, Uaccess.readyPages]
    refine ite (fun hlt => ?_) fun hge => ⟨hs, fun _ _ h => h, fun b hlo hhi => by omega⟩
    refine (readyPage page write hs hcalm).bind fun _ s1 h1 hready => addOk h1 (fun _ => ?_) ?_
    · simp only [USER_LIMIT, PAGE_SIZE, WORD] at *
      omega
    intro _
    obtain ⟨hkept, hheld⟩ := hready
    have hhere : ∀ b, page ≤ b → b < page + PAGE_SIZE → pageAlignDown b = page := by
      intro b hlo hhi
      obtain ⟨k, rfl⟩ := hpage
      simp only [pageAlignDown, PAGE_SIZE] at *
      omega
    rcases Nat.lt_or_ge (page + PAGE_SIZE) stop with hmore | hlast
    · have hsteady : ∀ s, T.Calm s := hone.resolve_right (by omega)
      have hless : stop - (page + PAGE_SIZE) < n := by
        simp only [PAGE_SIZE]
        omega
      have hrest := ih _ hless h1 (hsteady s1) (Dvd.dvd.add hpage (dvd_refl _)) (.inl hsteady) rfl
      refine hrest.mono (fun _ s2 ⟨h2, hkept2, hheld2⟩ => ⟨h2, hkept.trans hkept2, fun b hlo hhi => ?_⟩)
        fun _ _ h => h
      rcases Nat.lt_or_ge b (page + PAGE_SIZE) with hb | hb
      · rw [hhere b hlo hb]
        exact hkept2 _ _ hheld
      · exact hheld2 b hb hhi
    · rw [Uaccess.readyPages, if_neg (by omega)]
      refine ⟨h1, hkept, fun b hlo hhi => ?_⟩
      rw [hhere b hlo (by omega)]
      exact hheld

lemma validateIn {write : Bool} (hcalm : T.Calm s)
    (hone : (∀ s, T.Calm s) ∨ addr + len ≤ pageEnd addr) :
    Touches T C (fun _ s' => T.Keeps s s' ∧ T.Range s' addr len write ∧ InUser addr len)
      (validateIn S addr len write) s := by
  refine ite (fun hzero => ?_) fun hlen => ?_
  · exact ⟨hs, fun _ _ h => h, fun b hlo hhi => by omega, fun b hlo hhi => by omega⟩
  refine ite (fun _ => ⟨hs, trivial⟩) fun _ => ite (fun _ => ⟨hs, trivial⟩) fun huser => ?_
  rw [not_or, not_not, not_not] at huser
  have hend : addr + len ≤ USER_LIMIT := by
    have : addr + len - 1 < USER_LIMIT := huser.2
    omega
  have hpage : PAGE_SIZE ∣ pageAlignDown addr := Dvd.intro_left _ rfl
  have hbelow : pageAlignDown addr ≤ addr := div_mul_le_self addr PAGE_SIZE
  refine (readyPages hs hcalm hpage hone hend).mono (fun _ s' ⟨h', hkept, hheld⟩ => ⟨h', hkept, ?_, ?_⟩)
    fun _ _ h => h
  · exact fun b hlo hhi => hheld b (hbelow.trans hlo) hhi
  · exact fun b _ hhi => lt_of_lt_of_le hhi hend

/-! ## the accesses -/

lemma loadAll {v : Bool} (hrange : T.Range s addr n v) :
    T.Good (loadAll S n addr s).2 ∧ T.Keeps s (loadAll S n addr s).2 := by
  induction n generalizing addr s with
  | zero => exact ⟨hs, fun _ _ h => h⟩
  | succ n ih =>
    have hkept : T.Keeps s (S.load addr s).2 := fun _ _ => T.keeps_load
    have hgood : T.Good (S.load addr s).2 := T.load hs (hrange addr (le_refl _) (by omega))
    have hrest : T.Range (S.load addr s).2 (addr + 1) n v :=
      fun b hlo hhi => hkept _ _ (hrange b (by omega) (by omega))
    obtain ⟨hgood', hkept'⟩ := ih hgood hrest
    exact ⟨hgood', hkept.trans hkept'⟩

lemma storeAll {bytes : List UInt8} (hrange : T.Range s addr bytes.length true) :
    T.Good (storeAll S bytes addr s) := by
  induction bytes generalizing addr s with
  | nil => exact hs
  | cons byte bytes ih =>
    rw [List.length_cons] at hrange
    refine ih (T.store hs (hrange addr (le_refl _) (by omega))) fun b hlo hhi => ?_
    exact T.keeps_store (hrange b (by omega) (by omega))

/-! ## the blocks with interrupts off -/

lemma withoutInterrupts {α : Type} {m : Access σ α} {Q : α → σ → Prop}
    (hm : ∀ s, T.Good s → T.Calm s → Touches T C Q m s) :
    Touches T C Q (withoutInterrupts S m) s := by
  obtain ⟨hgood, hcalm⟩ := T.gap hs
  exact hm (S.gap s) hgood hcalm

lemma read (hone : (∀ s, T.Calm s) ∨ addr + len ≤ pageEnd addr) :
    Touches T C (fun bytes _ => bytes.length = len ∧ InUser addr len) (Uaccess.withoutInterrupts S
      (Uaccess.validateIn S addr len false >>= fun _ => act (Uaccess.loadAll S len addr))) s := by
  refine withoutInterrupts hs fun s hgood hcalm => ?_
  refine (validateIn hgood hcalm hone).bind fun _ s' hgood' ⟨_, hrange, huser⟩ => ?_
  exact ⟨(loadAll hgood' hrange).1, length_loadAll S len addr s', huser⟩

end

lemma write (addr : Nat) (bytes : List UInt8) (hs : T.Good s)
    (hone : (∀ s, T.Calm s) ∨ addr + bytes.length ≤ pageEnd addr) :
    Touches T C (fun _ _ => InUser addr bytes.length) (Uaccess.withoutInterrupts S
      (Uaccess.validateIn S addr bytes.length true >>= fun _ =>
        act fun s => ((), Uaccess.storeAll S bytes addr s))) s := by
  refine withoutInterrupts hs fun s hgood hcalm => ?_
  refine (validateIn hgood hcalm hone).bind fun _ s' hgood' ⟨_, hrange, huser⟩ => ?_
  exact ⟨storeAll hgood' hrange, huser⟩

lemma move (hsteady : ∀ s, T.Calm s) (hs : T.Good s) :
    Touches T C (fun _ _ => InUser src n ∧ InUser dst n) (Uaccess.withoutInterrupts S
      (Uaccess.validateIn S src n false >>= fun _ => Uaccess.validateIn S dst n true >>= fun _ =>
        act fun s =>
          let (bytes, s) := Uaccess.loadAll S n src s
          ((), Uaccess.storeAll S bytes dst s))) s := by
  refine withoutInterrupts hs fun s hgood hcalm => ?_
  refine (validateIn hgood hcalm (.inl hsteady)).bind fun _ s1 h1 ⟨_, hsrc, huser⟩ => ?_
  refine (validateIn h1 (hsteady s1) (.inl hsteady)).bind fun _ s2 h2 ⟨hkept, hdst, huser'⟩ => ?_
  obtain ⟨h3, hkept3⟩ := loadAll h2 (hsrc.keeps hkept)
  refine ⟨storeAll h3 ?_, huser, huser'⟩
  rw [length_loadAll]
  exact hdst.keeps hkept3

/-! ## the loops -/

lemma readFrom (addr stop : Nat) (hs : T.Good s) (haddr : addr ≤ cur) :
    Touches T (¬ InTopPage cur) (fun _ _ => InUser cur (stop - cur)) (readFrom S addr stop cur) s := by
  induction hn : stop - cur using Nat.strongRecOn generalizing cur s with
  | _ n ih =>
    rw [Touches, Uaccess.readFrom]
    refine ite (fun hlt => ?_) fun hge => ⟨hs, fun b _ _ => by omega⟩
    have hpast := lt_pageEnd cur
    refine addOk hs (pageEnd_fits cur).mpr fun _ => subOk hs (fun _ => haddr) fun _ =>
      subOk hs (fun _ => by omega) fun _ => ?_
    refine (read hs (.inr (by omega))).bind fun bytes s1 h1 ⟨_, huser⟩ => ?_
    have hnext : min (pageEnd cur) stop ≤ USER_LIMIT :=
      Nat.le_trans (Nat.min_le_left _ _) (pageEnd_le (huser cur (Nat.le_refl _) (by omega)))
    refine ((ih _ (by omega) h1 (by omega) rfl).surely (not_inTopPage hnext)).bind
      fun rest s2 h2 hrest => ⟨h2, ?_⟩
    rw [← hn]
    exact huser.append hrest (by omega) (by omega)

lemma writeFrom (addr : Nat) (buf : List UInt8) (hs : T.Good s) (haddr : addr ≤ cur) :
    Touches T (¬ InTopPage cur) (fun _ _ => InUser cur (addr + buf.length - cur))
      (writeFrom S addr buf cur) s := by
  induction hn : addr + buf.length - cur using Nat.strongRecOn generalizing cur s with
  | _ n ih =>
    rw [Touches, Uaccess.writeFrom]
    refine ite (fun hlt => ?_) fun _ => ⟨hs, fun b _ _ => by omega⟩
    have hpast := lt_pageEnd cur
    refine addOk hs (pageEnd_fits cur).mpr fun _ => subOk hs (fun _ => haddr) fun _ =>
      subOk hs (fun _ => by omega) fun _ => ?_
    have hlen : ((buf.drop (cur - addr)).take
        (min (pageEnd cur) (addr + buf.length) - cur)).length =
        min (pageEnd cur) (addr + buf.length) - cur := by
      rw [List.length_take, List.length_drop]
      omega
    have hwrite := write (C := ¬ InTopPage cur) cur ((buf.drop (cur - addr)).take
      (min (pageEnd cur) (addr + buf.length) - cur)) hs (.inr (by rw [hlen]; omega))
    rw [hlen] at hwrite
    refine hwrite.bind fun _ s1 h1 huser => ?_
    have hnext : min (pageEnd cur) (addr + buf.length) ≤ USER_LIMIT :=
      Nat.le_trans (Nat.min_le_left _ _) (pageEnd_le (huser cur (Nat.le_refl _) (by omega)))
    refine ((ih _ (by omega) h1 (by omega) rfl).surely (not_inTopPage hnext)).mono
      (fun _ s2 h2 => ⟨h2.1, ?_⟩) fun _ _ h => h
    rw [← hn]
    exact huser.append h2.2 (by omega) (by omega)

lemma moveFrom (done : Nat) (hsteady : ∀ s, T.Calm s) (hs : T.Good s) (hsrc : src + len < WORD)
    (hdst : dst + len < WORD) : Touches T (¬ InTopPage (src + done) ∧ ¬ InTopPage (dst + done))
      (fun _ _ => InUser (src + done) (len - done) ∧ InUser (dst + done) (len - done))
      (moveFrom S dst src len done) s := by
  induction hn : len - done using Nat.strongRecOn generalizing done s with
  | _ n ih =>
    rw [Touches, Uaccess.moveFrom]
    refine ite (fun hlt => ?_) fun _ => ⟨hs, fun b _ _ => by omega, fun b _ _ => by omega⟩
    have hend := lt_pageEnd (src + done)
    have hend' := lt_pageEnd (dst + done)
    refine addOk hs (fun _ => by omega) fun _ => addOk hs (fun _ => by omega) fun _ =>
      addOk hs (fun c => (pageEnd_fits _).mpr c.1) fun _ => subOk hs (fun _ => by omega)
      fun _ => addOk hs (fun c => (pageEnd_fits _).mpr c.2) fun _ =>
      subOk hs (fun _ => by omega) fun _ => subOk hs (fun _ => by omega) fun _ => ?_
    have hchunk : 0 < moveChunk src dst len done ∧ moveChunk src dst len done ≤ len - done ∧
        src + done + moveChunk src dst len done ≤ pageEnd (src + done) ∧
        dst + done + moveChunk src dst len done ≤ pageEnd (dst + done) := by
      simp only [moveChunk]
      omega
    obtain ⟨hpos, hle, hpage, hpage'⟩ := hchunk
    refine (move hsteady hs).bind fun _ s1 h1 huser => addOk h1 (fun _ => by omega) fun _ => ?_
    have hnext := Nat.le_trans hpage (pageEnd_le (huser.1 _ (Nat.le_refl _) (by omega)))
    have hnext' := Nat.le_trans hpage' (pageEnd_le (huser.2 _ (Nat.le_refl _) (by omega)))
    rw [Nat.add_assoc] at hnext hnext'
    refine ((ih _ (by omega) _ h1 rfl).surely ⟨not_inTopPage hnext, not_inTopPage hnext'⟩).mono
      (fun _ s2 h2 => ⟨h2.1, ?_⟩) fun _ _ h => h
    obtain ⟨-, hrest, hrest'⟩ := h2
    rw [← hn]
    refine ⟨fun b hlo hhi => ?_, fun b hlo hhi => ?_⟩
    · by_cases hb : b < src + done + moveChunk src dst len done
      · exact huser.1 b hlo hb
      · exact hrest b (by omega) (by omega)
    · by_cases hb : b < dst + done + moveChunk src dst len done
      · exact huser.2 b hlo hb
      · exact hrest' b (by omega) (by omega)

lemma cstrFrom (utf8 : List UInt8 → Bool) (addr max done : Nat) {out : List UInt8}
    (hs : T.Good s) (hout : out.length = done) :
    Touches T (¬ InTopPage (addr + done) ∧ addr + max < WORD)
      (fun str _ => InUser (addr + done) (str.length + 1 - done))
      (cstrFrom S utf8 addr max done out) s := by
  induction hn : max - done using Nat.strongRecOn generalizing done out s with
  | _ n ih =>
    rw [Touches, Uaccess.cstrFrom]
    refine ite (fun hlt => ?_) fun _ => ⟨hs, trivial⟩
    have hend := lt_pageEnd (addr + done)
    have hlow : addr + done < cstrEnd addr max (addr + done) := by
      simp only [cstrEnd, CHUNK]
      omega
    have hhigh : cstrEnd addr max (addr + done) ≤ pageEnd (addr + done) :=
      (Nat.min_le_left _ _).trans (Nat.min_le_left _ _)
    have hchunk (hclear : ¬ InTopPage (addr + done)) : addr + done + CHUNK < WORD := by
      simp only [InTopPage, WORD, PAGE_SIZE, CHUNK] at *
      omega
    refine addOk hs (fun c => (pageEnd_fits _).mpr c.1) fun _ => addOk hs (fun c => c.2)
      fun hmax => addOk hs (fun c => hchunk c.1) fun _ =>
      subOk hs (fun _ => Nat.le_of_lt hlow) fun _ => ?_
    refine (read hs (.inr (by omega))).bind fun piece s1 h1 ⟨hlen, huser⟩ => ?_
    cases hnul : piece.findIdx? (· == 0) with
    | some k =>
      have hk : k < piece.length := (List.findIdx?_eq_some_iff_getElem.mp hnul).1
      refine ite (fun _ => ⟨h1, fun b hlo hhi => ?_⟩) fun _ => ⟨h1, trivial⟩
      rw [List.length_append, List.length_take, hout, hlen] at hhi
      exact huser b hlo (by omega)
    | none =>
      have hnext : addr + (cstrEnd addr max (addr + done) - addr) ≤ USER_LIMIT := by
        have := pageEnd_le (huser _ (Nat.le_refl _) (by omega))
        omega
      refine ((ih _ (by omega) _ h1 (by rw [List.length_append, hout, hlen]; omega) rfl).surely
        ⟨not_inTopPage hnext, hmax⟩).mono (fun str s2 h2 => ⟨h2.1, fun b hlo hhi => ?_⟩) fun _ _ h => h
      by_cases hb : b < cstrEnd addr max (addr + done)
      · exact huser b hlo (by omega)
      · exact h2.2 b (by omega) (by omega)

lemma iovecsFrom (addr n i : Nat) (hs : T.Good s) (hone : (∀ s, T.Calm s) ∨
      ∀ j, i ≤ j → j < i + n → addr + j * 16 + 16 ≤ pageEnd (addr + j * 16)) :
    Touches T (addr + i * 16 < WORD) (fun _ _ => InUser (addr + i * 16) (n * 16))
      (iovecsFrom S addr n i) s := by
  induction n generalizing i s with
  | zero => exact ⟨hs, fun b _ _ => by omega⟩
  | succ n ih =>
    refine addOk hs (fun c => c) fun _ => ?_
    rw [Uaccess.readStruct]
    refine (read hs (hone.imp_right fun h => h i (le_refl _) (by omega))).bind
      fun iovec s1 h1 ⟨_, huser⟩ => ?_
    have hnext : addr + (i + 1) * 16 < WORD := by
      have hcur := huser _ (le_refl _) (by omega)
      simp only [isUserAddr, USER_LIMIT, WORD] at *
      omega
    refine ((ih (i + 1) h1 (hone.imp_right fun h j hlo hhi => h j (by omega) (by omega))).surely hnext).bind
      fun rest s2 h2 hrest => ⟨h2, fun b hlo hhi => ?_⟩
    by_cases hb : b < addr + i * 16 + 16
    · exact huser b hlo hb
    · exact hrest b (by omega) (by omega)

/-! ## the calls -/

lemma readBytesIn (addr len : Nat) (hs : T.Good s) :
    Touches T (len = 0 ∨ WORD ≤ addr + len ∨ ¬ InTopPage addr) (fun _ _ => InUser addr len)
      (readBytesIn S addr len) s := by
  refine ite (fun hzero => ⟨hs, fun b _ _ => by omega⟩) fun hlen =>
    ite (fun _ => ⟨hs, trivial⟩) fun hover => ?_
  have h := readFrom addr (addr + len) hs (Nat.le_refl addr)
  rw [Nat.add_sub_cancel_left] at h
  exact h.weaken fun c => (c.resolve_left hlen).resolve_left hover

lemma writeBytesIn (addr : Nat) (buf : List UInt8) (hs : T.Good s) :
    Touches T (buf.length = 0 ∨ WORD ≤ addr + buf.length ∨ ¬ InTopPage addr)
      (fun _ _ => InUser addr buf.length) (writeBytesIn S addr buf) s := by
  refine ite (fun hzero => ⟨hs, fun b _ _ => by omega⟩) fun hlen =>
    ite (fun _ => ⟨hs, trivial⟩) fun hover => ?_
  have h := writeFrom addr buf hs (Nat.le_refl addr)
  rw [Nat.add_sub_cancel_left] at h
  exact h.weaken fun c => (c.resolve_left hlen).resolve_left hover

lemma readStruct {size : Nat} (hs : T.Good s)
    (hone : (∀ s, T.Calm s) ∨ addr + size ≤ pageEnd addr) :
    Touches T C (fun _ _ => InUser addr size) (readStruct S addr size) s := by
  rw [Uaccess.readStruct]
  exact (read hs hone).mono (fun _ _ h => ⟨h.1, h.2.2⟩) fun _ _ h => h

lemma writeStruct {value : List UInt8} (hs : T.Good s)
    (hone : (∀ s, T.Calm s) ∨ addr + value.length ≤ pageEnd addr) :
    Touches T C (fun _ _ => InUser addr value.length) (writeStruct S addr value) s := by
  rw [Uaccess.writeStruct]
  exact write addr value hs hone

lemma copyWithinUserIn (hsteady : ∀ s, T.Calm s) (hs : T.Good s) :
    Touches T (len = 0 ∨ WORD ≤ src + len ∨ WORD ≤ dst + len ∨ ¬ InTopPage src ∧ ¬ InTopPage dst)
      (fun _ _ => InUser src len ∧ InUser dst len) (copyWithinUserIn S dst src len) s := by
  refine ite (fun hzero => ⟨hs, fun b _ _ => by omega, fun b _ _ => by omega⟩) fun hlen =>
    ite (fun _ => ⟨hs, trivial⟩) fun hsrc => ite (fun _ => ⟨hs, trivial⟩) fun hdst => ?_
  have h := moveFrom 0 hsteady hs (Nat.lt_of_not_le hsrc) (Nat.lt_of_not_le hdst)
  exact h.weaken fun c => ((c.resolve_left hlen).resolve_left hsrc).resolve_left hdst

end Tally

inductive UserCall where
  | readBytes (addr len : Nat)
  | writeBytes (addr : Nat) (buf : List UInt8)
  | copyWithin (dst src len : Nat)
  | readStruct (addr size : Nat)
  | writeStruct (addr : Nat) (value : List UInt8)
  | readCstr (addr max : Nat)
  | readIovecs (addr count : Nat)

namespace UserCall

def run (utf8 : List UInt8 → Bool) : UserCall → Access σ (List UInt8)
  | readBytes addr len => readBytesIn S addr len
  | writeBytes addr buf => writeBytesIn S addr buf >>= fun _ => Pure.pure []
  | copyWithin dst src len => copyWithinUserIn S dst src len >>= fun _ => Pure.pure []
  | readStruct addr size => Uaccess.readStruct S addr size
  | writeStruct addr value => Uaccess.writeStruct S addr value >>= fun _ => Pure.pure []
  | readCstr addr max => Uaccess.readCstr S utf8 addr max
  | readIovecs addr count => Uaccess.readIovecs S addr count >>= fun iovecs => Pure.pure iovecs.flatten

def Words : UserCall → Prop
  | readBytes addr _ => addr < WORD
  | writeBytes addr _ => addr < WORD
  | copyWithin dst src _ => dst < WORD ∧ src < WORD
  | readStruct addr _ => addr < WORD
  | writeStruct addr _ => addr < WORD
  | readCstr addr _ => addr < WORD
  | readIovecs addr _ => addr < WORD

def Fits : UserCall → Prop
  | readBytes addr len => len = 0 ∨ WORD ≤ addr + len ∨ ¬ InTopPage addr
  | writeBytes addr buf => buf.length = 0 ∨ WORD ≤ addr + buf.length ∨ ¬ InTopPage addr
  | copyWithin dst src len => len = 0 ∨ WORD ≤ src + len ∨ WORD ≤ dst + len ∨
      ¬ InTopPage src ∧ ¬ InTopPage dst
  | readStruct _ _ => True
  | writeStruct _ _ => True
  | readCstr addr max => max = 0 ∨ ¬ InTopPage addr ∧ addr + max < WORD
  | readIovecs _ _ => True

def Touched (out : List UInt8) : UserCall → Prop
  | readBytes addr len => InUser addr len
  | writeBytes addr buf => InUser addr buf.length
  | copyWithin dst src len => InUser src len ∧ InUser dst len
  | readStruct addr size => InUser addr size
  | writeStruct addr value => InUser addr value.length
  | readCstr addr _ => InUser addr (out.length + 1)
  | readIovecs addr count => InUser addr (count * 16)

def OnePage : UserCall → Prop
  | readBytes .. | writeBytes .. | readCstr .. => True
  | copyWithin .. => False
  | readStruct addr size => addr + size ≤ pageEnd addr
  | writeStruct addr value => addr + value.length ≤ pageEnd addr
  | readIovecs addr count => ∀ i < count, addr + i * 16 + 16 ≤ pageEnd (addr + i * 16)

variable {S : Space σ} {T : Tally S} {s : σ}

lemma touches (utf8 : List UInt8 → Bool) {c : UserCall} (hone : (∀ s, T.Calm s) ∨ c.OnePage)
    (hs : T.Good s) :
    Tally.Touches T (c.Words ∧ c.Fits) (fun out _ => c.Touched out) (c.run S utf8) s := by
  cases c with
  | readBytes addr len => exact (Tally.readBytesIn addr len hs).weaken fun c => c.2
  | writeBytes addr buf =>
    exact ((Tally.writeBytesIn addr buf hs).weaken fun c => c.2).bind fun _ s1 h1 huser => ⟨h1, huser⟩
  | copyWithin dst src len =>
    exact ((Tally.copyWithinUserIn (hone.resolve_right id) hs).weaken fun c => c.2).bind
      fun _ s1 h1 huser => ⟨h1, huser⟩
  | readStruct addr size => exact Tally.readStruct hs hone
  | writeStruct addr value =>
    exact (Tally.writeStruct hs hone).bind fun _ s1 h1 huser => ⟨h1, huser⟩
  | readCstr addr max =>
    by_cases hzero : max = 0
    · rw [run, Uaccess.readCstr, cstrFrom, if_neg (by omega)]
      exact ⟨hs, trivial⟩
    · have hcstr := Tally.cstrFrom utf8 addr max 0 hs (List.length_nil (α := UInt8))
      exact hcstr.weaken fun c => c.2.resolve_left hzero
  | readIovecs addr count =>
    have hiovecs := Tally.iovecsFrom addr count 0 hs
      (hone.imp_right fun h j _ hhi => h j (by omega))
    rw [zero_mul, add_zero] at hiovecs
    refine bind (Q := fun _ _ => InUser addr (count * 16)) ?_ fun _ s1 h1 huser => ⟨h1, huser⟩
    exact ite (fun _ => ⟨hs, trivial⟩) fun _ => hiovecs.weaken fun c => c.1

lemma stops (utf8 : List UInt8 → Bool) {c : UserCall} (hfits : ¬ c.Fits) (s : σ) :
    (c.run S utf8 s).1 = .stopped := by
  cases c with
  | readBytes addr len =>
    simp only [Fits, not_or, not_not] at hfits
    obtain ⟨hlen, hover, htop⟩ := hfits
    rw [run, readBytesIn, if_neg hlen, if_neg hover, readFrom, if_pos (by omega),
      addOk_overflow htop.wraps]
    rfl
  | writeBytes addr buf =>
    simp only [Fits, not_or, not_not] at hfits
    obtain ⟨hlen, hover, htop⟩ := hfits
    rw [run, writeBytesIn, if_neg hlen, if_neg hover, writeFrom, if_pos (by omega),
      addOk_overflow htop.wraps]
    rfl
  | copyWithin dst src len =>
    simp only [Fits, not_or, not_and, not_not] at hfits
    obtain ⟨hlen, hsrc, hdst, htop⟩ := hfits
    rw [run, copyWithinUserIn, if_neg hlen, if_neg hsrc, if_neg hdst, moveFrom, if_pos (by omega),
      addOk_bind (by omega), addOk_bind (by omega), add_zero, add_zero]
    by_cases hs : InTopPage src
    · rw [addOk_overflow hs.wraps]
      rfl
    · rw [addOk_bind ((pageEnd_fits src).mpr hs), subOk_bind (le_of_lt (lt_pageEnd src)),
        addOk_overflow (htop hs).wraps]
      rfl
  | readStruct addr size => exact absurd trivial hfits
  | writeStruct addr value => exact absurd trivial hfits
  | readCstr addr max =>
    simp only [Fits, not_or, not_and, not_lt] at hfits
    obtain ⟨hmax, hover⟩ := hfits
    rw [run, Uaccess.readCstr, cstrFrom, if_pos (by omega), add_zero]
    by_cases htop : InTopPage addr
    · rw [addOk_overflow htop.wraps]
      rfl
    · rw [addOk_bind ((pageEnd_fits addr).mpr htop), addOk_overflow (not_lt.mpr (hover htop))]
      rfl
  | readIovecs addr count => exact absurd trivial hfits

end UserCall

/-- an account of nothing: what a call does whatever it finds -/
def Tally.blind : Tally S where
  Good _ := True
  Calm _ := True
  Held _ _ _ := True
  gap _ := ⟨trivial, trivial⟩
  accessPage _ _ _ := trivial
  keeps_accessPage _ _ _ _ _ _ := trivial
  ready _ _ := trivial
  absent _ _ := trivial
  faultIn _ _ _ := trivial
  keeps_faultIn _ _ _ _ _ := trivial
  load _ _ := trivial
  keeps_load _ := trivial
  store _ _ := trivial
  keeps_store _ := trivial

/-- **user pointers**: a call goes through without an overflow exactly when its page ends are
addresses, and one that returns touched user memory only -/
theorem user_pointers (S : Space σ) (utf8 : List UInt8 → Bool) {c : UserCall} (hwords : c.Words)
    (s : σ) : ((c.run S utf8 s).1 ≠ .stopped ↔ c.Fits) ∧
      ∀ out, (c.run S utf8 s).1 = .ok out → c.Touched out := by
  by_cases hfits : c.Fits
  · have hrun := (UserCall.touches (T := .blind S) (s := s) utf8 (.inl fun _ => trivial) trivial).holds
      ⟨hwords, hfits⟩
    exact ⟨⟨fun _ => hfits, fun _ => hrun.not_stopped⟩, fun out hok => hrun.of_ok hok⟩
  · have hstop := UserCall.stops (S := S) utf8 hfits s
    refine ⟨⟨fun h => absurd hstop h, fun h => absurd h hfits⟩, fun out hok => ?_⟩
    rw [hstop] at hok
    cases hok

def openSpace : Space Unit where
  gap s := s
  accessPage _ _ s := (.ready, s)
  faultIn _ s := (true, s)
  load _ s := (0, s)
  store _ _ s := s

/-- a byte well below the last page -/
theorem user_pointers_firstByte :
    (((UserCall.readBytes 0x1000 1).run openSpace (fun _ => true) ()).1 ≠ .stopped ↔
      (UserCall.readBytes 0x1000 1).Fits) ∧ (UserCall.readBytes 0x1000 1).Fits :=
  ⟨(user_pointers openSpace (fun _ => true)
      (show (UserCall.readBytes 0x1000 1).Words by simp only [UserCall.Words]; decide) ()).1,
    Or.inr (Or.inr (by simp only [InTopPage]; decide))⟩

/-- one byte of the last page: the machine stops, with the address not yet looked at -/
theorem read_last_page : (readBytesIn openSpace 0xFFFFFFFFFFFFF000 1 ()).1 = .stopped :=
  UserCall.stops (S := openSpace) (fun _ => true)
    (show ¬ (UserCall.readBytes 0xFFFFFFFFFFFFF000 1).Fits by
      simp only [UserCall.Fits, InTopPage]; decide) ()

-- what is known of a copy is its specification; unfolding it counts out the addresses in it
attribute [irreducible] readBytesIn writeBytesIn copyWithinUserIn readStruct writeStruct

end Uaccess
end ClaudeOs
