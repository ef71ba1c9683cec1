import ClaudeOs.Fs.Calls

/-!
# What a call leaves that fails to make a descriptor

A step that does not reach the table keeps to itself (`Still`), and a call made of such steps with
an installation as its last one is `Safe`: when it fails the descriptors are as they were.  A pair is
installed one after the other and undone when the second finds no room.

* `Kernel.Same`  the same descriptors, on the same files;
* `Still`, `Safe`  the rules the calls are put together with;
* `acceptReady_keeps`  what one look at the queue takes off it;
* `failed_call_keeps`  what a call that fails leaves;
* `failed_call_changes`  a `pipe2` that cannot say which descriptors it made, and a connection taken
  and dropped.
-/

namespace ClaudeOs.Fs.Fd
open Call List FdTable Uaccess
variable {c : Prop} {child x y : Nat} {α : Type}

variable {f : Unit → Uaccess.Access σ α} {s : σ}

section
variable {σ φ : Type}

def Kernel.Same (k k' : Kernel σ φ) : Prop :=
  (∀ d, k'.fds.fileAt d = k.fds.fileAt d) ∧ k.files <+: k'.files

/-- the table and the connections as they are, the files too but for new ones -/
structure Kernel.Quiet (k k' : Kernel σ φ) : Prop where
  fds : k'.fds = k.fds
  files : k.files <+: k'.files
  stack : k'.stack = k.stack

namespace Kernel.Quiet
variable {k k' k'' : Kernel σ φ}

lemma refl (k : Kernel σ φ) : k.Quiet k := ⟨rfl, prefix_rfl, rfl⟩
lemma same (h : k.Quiet k') : k.Same k' := ⟨fun d => by rw [h.fds], h.files⟩

end Kernel.Quiet

/-- the call, run in `k`, keeps to itself however it ends -/
def Still {α : Type} (m : Sys σ φ α) (k₀ k : Kernel σ φ) : Prop :=
  Allows (fun _ => k₀.Quiet) (fun _ => k₀.Quiet) (m k)

/-- when the call, run in `k`, fails, the descriptors are those of `k0` -/
def Safe {α : Type} (m : Sys σ φ α) (k₀ k : Kernel σ φ) : Prop :=
  Allows (fun _ _ => True) (fun _ => k₀.Same) (m k)

section
variable {α β : Type} {m : Sys σ φ α} {f : α → Sys σ φ β} {k0 k : Kernel σ φ}

lemma Still.then {Q : β → Kernel σ φ → Prop} {R : Errno → Kernel σ φ → Prop}
    (hm : Still m k0 k) (hR : ∀ e k', k0.Quiet k' → R e k')
    (hf : ∀ a k', k0.Quiet k' → Allows Q R (f a k')) : Allows Q R ((m >>= f) k) :=
  (hm.mono (fun _ _ h => h) hR).bind hf

lemma Still.bind (hm : Still m k0 k) (hf : ∀ a k', k0.Quiet k' → Still (f a) k0 k') :
    Still (m >>= f) k0 k :=
  hm.then (fun _ _ h => h) hf

lemma Still.bindSafe (hm : Still m k0 k) (hf : ∀ a k', k0.Quiet k' → Safe (f a) k0 k') :
    Safe (m >>= f) k0 k :=
  hm.then (fun _ _ h => h.same) hf

section
variable (h : k0.Quiet k)
include h

lemma Still.pure (a : α) : Still (Pure.pure a : Sys σ φ α) k0 k := h
lemma Still.fail (e : Errno) : Still (Call.fail e : Sys σ φ α) k0 k := h
lemma Safe.fail (e : Errno) : Safe (Call.fail e : Sys σ φ α) k0 k := h.same

lemma Still.user (m : Uaccess.Access σ α) : Still (Fd.user m : Sys σ φ α) k0 k :=
  Post.mapError (Post.lift (Allows.of_forall fun _ => ⟨h.fds, h.files, h.stack⟩))

lemma Still.onFs (f : φ → Except Errno α × φ) : Still (Fd.onFs f : Sys σ φ α) k0 k :=
  Allows.tryAct_snd ⟨h.fds, h.files, h.stack⟩

lemma Still.fdsGet (fd : Int) : Still (Fd.fdsGet fd : Sys σ φ File) k0 k := Allows.tryAct_snd h

end

lemma Still.attempt (hm : Still m k0 k) : Still m.attempt k0 k := Post.attempt hm

lemma Still.mapError (hm : Still m k0 k) (g : Errno → Errno) : Still (m.mapError g) k0 k :=
  Post.mapError hm

lemma Still.ite [Decidable c] {m' : Sys σ φ α} (h : c → Still m k0 k) (h' : ¬ c → Still m' k0 k) :
    Still (if c then m else m') k0 k := Post.ite h h'

lemma Safe.ite [Decidable c] {m' : Sys σ φ α} (h : c → Safe m k0 k) (h' : ¬ c → Safe m' k0 k) :
    Safe (if c then m else m') k0 k := Post.ite h h'

lemma Still.makeFile (h : k0.Quiet k) (file : OpenFile) :
    Still (Fd.makeFile file : Sys σ φ File) k0 k :=
  ⟨h.fds, h.files.trans (prefix_append _ _), h.stack⟩

end

/-! ### descriptors given and taken back -/

section
variable {M : Machine σ φ} {k0 k : Kernel σ φ}

lemma dropFile_fds (k : Kernel σ φ) (file : File) : (dropFile M k file).fds = k.fds := by
  unfold dropFile
  split <;> rfl

lemma dropFile_files (k : Kernel σ φ) (file : File) : (dropFile M k file).files = k.files := by
  unfold dropFile
  split <;> rfl

lemma dropFile_same (h : k0.Same k) (file : File) : k0.Same (dropFile M k file) := by
  unfold Kernel.Same
  rw [dropFile_fds, dropFile_files]
  exact h

lemma allows_fdsAllocNew (file : File) (cloexec : Bool) (k : Kernel σ φ) :
    Allows (fun fd k' => k.fds.LowestFree 0 fd ∧ k' = k.setFds (k.fds.insertAt fd file cloexec))
      (fun e k' => e = .EMFILE ∧ k.fds.Full 0 ∧ k' = dropFile M k file)
      (fdsAllocNew M file cloexec k) := by
  rcases k.fds.full_or_lowestFree 0 with hfull | ⟨fd, hlow⟩
  · have hrun : fdsAllocNew M file cloexec k = (.error .EMFILE, dropFile M k file) := by
      simp only [fdsAllocNew, tryAct, alloc, allocAtLeast_of_full hfull]
      rfl
    rw [hrun]
    exact ⟨rfl, hfull, rfl⟩
  · have hrun : fdsAllocNew M file cloexec k =
        (.ok fd, k.setFds (k.fds.insertAt fd file cloexec)) := by
      simp only [fdsAllocNew, tryAct, alloc, allocAtLeast_of_lowestFree hlow]
    rw [hrun]
    exact ⟨hlow, rfl⟩

lemma Safe.fdsAllocNew (h : k0.Quiet k) (file : File) (cloexec : Bool) :
    Safe (Fd.fdsAllocNew M file cloexec) k0 k := by
  refine (allows_fdsAllocNew file cloexec k).mono (fun _ _ _ => trivial) ?_
  rintro e k' ⟨-, -, rfl⟩
  exact dropFile_same h.same file

lemma Safe.fdsAlloc (h : k0.Quiet k) (file : File) (cloexec : Bool) :
    Safe (Fd.fdsAlloc file cloexec : Sys σ φ Nat) k0 k := by
  refine Post.tryAct (fun _ _ _ => trivial) fun e k' hrun => ?_
  rcases k.fds.full_or_lowestFree 0 with hfull | ⟨fd, hlow⟩
  · rw [alloc, allocAtLeast_of_full hfull] at hrun
    cases hrun
    exact h.same
  · rw [alloc, allocAtLeast_of_lowestFree hlow] at hrun
    cases hrun

lemma Kernel.Same.undo {fd : Nat} (file : File) (cloexec : Bool) (h : k0.Quiet k)
    (hlow : k.fds.LowestFree 0 fd) {k' : Kernel σ φ}
    (hfds : k'.fds = ((k.fds.insertAt fd file cloexec).close fd).1) (hfiles : k'.files = k.files) :
    k0.Same k' := by
  refine ⟨fun d => ?_, hfiles ▸ h.files⟩
  rw [hfds, fileAt_close, fileAt_insertAt, h.fds.symm]
  by_cases hd : d = fd
  · rw [if_pos (by omega), hd, hlow.free]
  · rw [if_neg (by omega), if_neg hd]

/-- the call, run in `s`, fails with nothing but EFAULT -/
def Faults {α : Type} (m : Uaccess.Access σ α) (s : σ) : Prop :=
  Allows (fun _ _ => True) (fun e _ => e = .EFAULT) (m s)

lemma faults_act (f : σ → α × σ) (s : σ) : Faults (act f) s := trivial

lemma Faults.bind {β : Type} {m : Uaccess.Access σ α} {f : α → Uaccess.Access σ β} {s : σ}
    (hm : Faults m s) (hf : ∀ a s', Faults (f a) s') : Faults (m >>= f) s :=
  Post.bind hm fun a s' _ => hf a s'

lemma Faults.ite [Decidable c] {m m' : Uaccess.Access σ α} {s : σ} (h : c → Faults m s)
    (h' : ¬ c → Faults m' s) : Faults (if c then m else m') s :=
  Post.ite h h'

lemma Faults.addOk (hf : Faults (f ()) s) : Faults (Call.addOk x y >>= f) s :=
  Allows.addOk fun _ => hf

lemma Faults.subOk (hf : Faults (f ()) s) : Faults (Call.subOk x y >>= f) s :=
  Post.subOk (fun _ => trivial) fun _ => hf

section
variable (S : Space σ) (addr : Nat)

lemma faults_readyPage (page : Nat) (write : Bool) (s : σ) : Faults (readyPage S page write) s := by
  refine (faults_act _ s).bind fun access s1 => ?_
  cases access with
  | ready => trivial
  | refused => exact rfl
  | absent =>
    refine (faults_act _ s1).bind fun backed s2 => .ite (fun _ => rfl) fun _ => ?_
    exact (faults_act _ s2).bind fun _ _ => .ite (fun _ => rfl) fun _ => trivial

lemma faults_readyPages (stop page : Nat) (write : Bool) (s : σ) :
    Faults (readyPages S stop page write) s := by
  induction page using Nat.strongRecMeasure (fun page => stop - page) generalizing s with
  | ind page ih =>
    unfold readyPages
    refine .ite (fun hlt => ?_) fun _ => trivial
    refine (faults_readyPage S page write s).bind fun _ s' => .addOk (ih _ ?_ s')
    simp only [Mm.PAGE_SIZE]
    omega

lemma faults_validateIn (len : Nat) (write : Bool) (s : σ) :
    Faults (validateIn S addr len write) s :=
  .ite (fun _ => trivial) fun _ => .ite (fun _ => rfl) fun _ => .ite (fun _ => rfl) fun _ =>
    faults_readyPages S _ _ write s

lemma faults_writeFrom (buf : List UInt8) (cur : Nat) (s : σ) :
    Faults (writeFrom S addr buf cur) s := by
  induction cur using Nat.strongRecMeasure (fun cur => addr + buf.length - cur) generalizing s with
  | ind cur ih =>
    unfold writeFrom
    refine .ite (fun hlt => ?_) fun _ => trivial
    refine .addOk (.subOk (.subOk ?_))
    refine Faults.bind ((faults_act _ s).bind fun _ s1 => ?_) fun _ s2 => ih _ ?_ s2
    · exact (faults_validateIn S _ _ true s1).bind fun _ s2 => faults_act _ s2
    · have hnext := lt_pageEnd cur
      omega

lemma faults_writeBytesIn (buf : List UInt8) (s : σ) : Faults (writeBytesIn S addr buf) s := by
  unfold writeBytesIn
  exact .ite (fun _ => trivial) fun _ => .ite (fun _ => rfl) fun _ =>
    faults_writeFrom S addr buf addr s

end

lemma allows_writeU32 (addr value : Nat) (k : Kernel σ φ) :
    Allows (fun _ _ => True) (fun e _ => e = .EFAULT) (writeU32 M addr value k) := by
  refine Post.mapError (Post.lift ((faults_writeBytesIn M.space addr (leBytes value) _).mono
    (fun _ _ h => h) ?_))
  rintro e - rfl
  rfl

section
variable (h : k0.Quiet k)
include h

lemma allows_installPair (first second : File) (cloexec : Bool) (out : Nat) :
    Allows (fun _ _ => True) (fun e k' => k0.Same k' ∨ e = .EFAULT)
      (installPair M first second cloexec out k) := by
  refine ((allows_fdsAllocNew first cloexec k).mono (fun _ _ h => h) ?_).bind ?_
  · rintro e k' ⟨-, -, rfl⟩
    exact .inl (dropFile_same h.same first)
  · rintro fd k1 ⟨hlow, rfl⟩
    refine (Post.attempt (Q := fun r k' => ∀ e, r = .error e →
      k' = dropFile M (k.setFds (k.fds.insertAt fd first cloexec)) second)
      ((allows_fdsAllocNew second cloexec _).mono ?_ ?_)).bind ?_
    · rintro _ _ - e he
      cases he
    · rintro e k' ⟨-, -, rfl⟩ _ -
      rfl
    · rintro (e | secondFd) k2 hk2
      · refine .inl (Kernel.Same.undo first cloexec h hlow ?_ ?_)
        · rw [hk2 e rfl]
          show ((dropFile M _ second).fds.close fd).1 = _
          rw [dropFile_fds]
          rfl
        · rw [hk2 e rfl]
          show (dropFile M _ second).files = _
          rw [dropFile_files]
          rfl
      · have hwrite : ∀ (addr value : Nat) (k' : Kernel σ φ), Allows (fun _ _ => True)
            (fun e k' => k0.Same k' ∨ e = .EFAULT) (writeU32 M addr value k') :=
          fun addr value k' => (allows_writeU32 addr value k').mono (fun _ _ h => h)
            fun _ _ h => .inr h
        refine (hwrite out fd k2).bind fun _ k3 _ => ?_
        refine Allows.addOk fun _ => ?_
        exact (hwrite (out + 4) secondFd k3).bind fun _ _ _ => trivial

/-! ### each call -/

omit h in
lemma Safe.dup (k : Kernel σ φ) (fd : Int) : Safe (Fd.dup fd : Sys σ φ Nat) k k :=
  (Still.fdsGet (.refl k) fd).bindSafe fun file _ h => .fdsAlloc h file false

lemma Safe.openDescriptor (fd : Int) (flags : Nat) :
    Safe (Fd.openDescriptor fd flags : Sys σ φ Nat) k0 k :=
  ((Still.fdsGet h fd).mapError _).bindSafe fun file _ h => .fdsAlloc h file _

lemma Still.resolveStr (dirfd : Int) (path : String) : Still (Fd.resolveStr M dirfd path) k0 k := by
  refine .ite (fun _ => .pure h _) fun _ => .ite (fun _ => .pure h _) fun _ => ?_
  refine (Still.fdsGet h _).bind fun file k' h' => ?_
  exact .ite (c := _ = true) (fun _ => .fail h' _) fun _ => .pure h' _

lemma Still.resolveAt (dirfd : Int) (pathAddr : Nat) : Still (Fd.resolveAt M dirfd pathAddr) k0 k :=
  (Still.user h _).bind fun _ _ h' => .resolveStr h' dirfd _

lemma Still.finalLinkTarget (path : String) : Still (Fd.finalLinkTarget M path) k0 k := by
  refine (Still.onFs h _).attempt.bind fun found k' h' => ?_
  split
  · exact .pure h' _
  · exact .pure h' _

omit h in
lemma Still.findTarget (rounds : Nat) (h : k0.Quiet k) (path : String) :
    Still (Fd.findTarget M rounds path) k0 k := by
  induction rounds generalizing k path with
  | zero => exact .pure h _
  | succ rounds ih =>
    rw [Fd.findTarget]
    refine Still.bind (m := Call.get) h fun k1 k h => ?_
    dsimp only
    cases M.ownDescriptor ((M.procfsOverride path k1.fds k1.files).getD path) with
    | some fd => exact .pure h _
    | none =>
      refine (Still.onFs h _).attempt.bind fun found k' h' => ?_
      split
      · exact .pure h' _
      · refine (Still.finalLinkTarget h' _).bind fun target k'' h'' => ?_
        cases target with
        | none => exact .pure h'' _
        | some target => exact ih h'' target
      · exact .fail h' _

lemma Safe.openNode (path : String) (node : Node) (flags : Nat) :
    Safe (Fd.openNode M path node flags) k0 k := by
  unfold Fd.openNode
  split
  · exact .ite (fun _ => .openDescriptor h _ flags) fun _ => .fail h _
  · refine .ite (fun _ => .fail h _) fun _ => .ite (fun _ => .fail h _) fun _ => ?_
    have htrunc := Still.ite (c := (has flags O_TRUNC && node.kind != .dir) = true)
      (fun _ => Still.onFs h (M.truncate node)) fun _ => Still.pure h ()
    refine htrunc.bindSafe fun _ k1 h1 => ?_
    have hfile : Still (if node.kind = .fifo then
        Fd.onFs (M.openFifo node.ino flags path) >>= fun _ => Fd.makeFile ⟨.pipe, flags, path⟩
        else Fd.makeFile ⟨.node, flags, path⟩) k0 k1 :=
      .ite (fun _ => (Still.onFs h1 _).bind fun _ _ h2 => .makeFile h2 _) fun _ => .makeFile h1 _
    exact hfile.bindSafe fun file _ h2 => .fdsAllocNew h2 file _

end

section
variable (k : Kernel σ φ)

lemma Safe.openat (dirfd : Int) (pathAddr flags mode : Nat) :
    Safe (Fd.openat M dirfd pathAddr flags mode) k k := by
  refine (Still.resolveAt (.refl k) dirfd pathAddr).bindSafe fun path k1 h1 => ?_
  refine (Still.findTarget SYMLINK_DEPTH h1 path).bindSafe fun target k2 h2 => ?_
  cases target with
  | descriptor fd => exact .openDescriptor h2 fd flags
  | node path node =>
    exact .ite (c := _ = true) (fun _ => .fail h2 _) fun _ => .openNode h2 path node flags
  | missing path =>
    refine .ite (c := _ = true) (fun _ => ?_) fun _ => .fail h2 _
    exact (Still.onFs h2 _).bindSafe fun node _ h3 => .openNode h3 path node flags

lemma allows_pipe2 (out flags : Nat) :
    Allows (fun _ _ => True) (fun e k' => k.Same k' ∨ e = .EFAULT) (Fd.pipe2 M out flags k) := by
  refine (Still.makeFile (.refl k) _).then (fun _ _ h => .inl h.same) fun readEnd k1 h1 => ?_
  refine (Still.makeFile h1 _).then (fun _ _ h => .inl h.same) fun writeEnd k2 h2 => ?_
  exact allows_installPair h2 readEnd writeEnd _ out

lemma allows_socketpair (domain kind out : Nat) :
    Allows (fun _ _ => True) (fun e k' => k.Same k' ∨ e = .EFAULT)
      (Fd.socketpair M domain kind out k) := by
  have hrefl : k.Same k := (Kernel.Quiet.refl k).same
  refine Post.ite (fun _ => .inl hrefl) fun _ => Post.ite (fun _ => .inl hrefl) fun _ => ?_
  refine (Still.makeFile (.refl k) _).then (fun _ _ h => .inl h.same) fun one k1 h1 => ?_
  refine (Still.makeFile h1 _).then (fun _ _ h => .inl h.same) fun two k2 h2 => ?_
  exact allows_installPair h2 one two _ out

lemma Safe.eventfd (flags : Nat) : Safe (Fd.eventfd M flags) k k :=
  (Still.makeFile (.refl k) _).bindSafe fun file _ h => .fdsAllocNew h file _

lemma Safe.epollCreate (flags : Nat) : Safe (Fd.epollCreate M flags) k k :=
  (Still.makeFile (.refl k) _).bindSafe fun file _ h => .fdsAllocNew h file _

lemma Safe.socket (domain kind protocol : Nat) : Safe (Fd.socket M domain kind protocol) k k := by
  refine .ite (fun _ => .fail (.refl k) _) fun _ => .ite (fun _ => .fail (.refl k) _) fun _ => ?_
  refine Safe.ite (fun _ => .fail (.refl k) _) fun _ => ?_
  have hmade (k' : Kernel σ φ) (hfds : k'.fds = k.fds) (hfiles : k'.files = k.files) (id : Nat) :
      Safe (makeInet id (has kind SOCK_NONBLOCK) >>= fun file =>
        Fd.fdsAllocNew M file (has kind SOCK_CLOEXEC)) k k' := by
    refine (Still.makeFile (.refl k') _).then (fun e k'' h => ?_) fun file k1 h1 => ?_
    · exact ⟨fun d => by rw [h.fds, hfds], hfiles ▸ h.files⟩
    · refine Post.mono (Safe.fdsAllocNew h1 file _) (fun _ _ h => h) fun e k2 h => ?_
      exact ⟨fun d => by rw [h.1 d, hfds], hfiles ▸ h.2⟩
  exact hmade (k.setStack (k.stack.push (.new (decide (kind &&& 0xF = SOCK_STREAM)) M.heldBytes)))
    rfl rfl k.stack.socks.length

end

/-! ### accept4 -/

def Queued (w : Net.Stack) (id child : Nat) : Prop :=
  ∃ s, w.socks[id]? = some s ∧ child ∈ s.children

def Completed (w : Net.Stack) (child : Nat) : Prop :=
  (w.childState child).any Net.State.isSynchronised = true

lemma socks_foldl_unregister (dead : List Nat) (w : Net.Stack) :
    (dead.foldl Net.Stack.unregister w).socks = w.socks := by
  induction dead generalizing w with
  | nil => rfl
  | cons child dead ih => exact ih (w.unregister child)

lemma acceptReady_keeps {w : Net.Stack} {id : Nat} (hq : Queued w id child)
    (hc : Completed w child) :
    Queued (w.acceptReady id).1 id child ∨ (w.acceptReady id).2 = .ok (some child) := by
  obtain ⟨s, hs, hmem⟩ := hq
  unfold Net.Stack.acceptReady
  by_cases hstream : (!w.asks id Net.Sock.stream) = true
  · rw [if_pos hstream]
    exact .inl ⟨s, hs, hmem⟩
  rw [if_neg hstream]
  by_cases hlisten : w.asks id Net.Sock.listening = true
  · rw [if_pos hlisten]
    by_cases hready : some child = w.readyChild id
    · exact .inr (by rw [hready])
    · refine .inl ⟨s.setChildren (w.keptChildren id s.children), ?_, ?_⟩
      · show ((w.deadChildren id).foldl Net.Stack.unregister _).socks[id]? = _
        rw [socks_foldl_unregister]
        show (w.socks.modify id _)[id]? = _
        rw [getElem?_modify, hs]
        show some (if id = id then _ else _) = _
        rw [if_pos rfl]
      · -- a completed connection is not a dead one
        have hdead : (w.deadChildren id).contains child = false := by
          rw [contains_eq_mem, decide_eq_false_iff_not]
          intro hd
          have hclosed := (mem_filter.mp hd).2
          unfold Completed at hc
          rw [beq_iff_eq.mp hclosed] at hc
          cases hc
        refine mem_filter.mpr ⟨hmem, ?_⟩
        rw [hdead, Bool.not_false, Bool.true_and, decide_eq_true_eq]
        exact hready
  · rw [if_neg hlisten]
    exact .inl ⟨s, hs, hmem⟩

lemma acceptSteps_keeps (id : Nat) (nonblock : Bool) (rounds : List Round) (w : Net.Stack)
    {p : Net.Stack × Net.Stack} (hp : p ∈ acceptSteps id nonblock rounds w)
    (hq : Queued p.1 id child) (hc : Completed p.1 child) :
    Queued p.2 id child ∨ (acceptLoop id nonblock rounds w).1 = .took child := by
  induction rounds generalizing w with
  | nil => cases hp
  | cons round rounds ih =>
    unfold acceptSteps at hp
    unfold acceptLoop
    rcases mem_cons.mp hp with hp | hp
    · subst hp
      refine (acceptReady_keeps hq hc).imp_right fun htook => ?_
      rcases hrun : (round.before.foldl Net.Stack.step w).acceptReady id with ⟨w', r⟩
      have hr : r = .ok (some child) := (congrArg Prod.snd hrun).symm.trans htook
      rw [hr]
    · rcases hrun : (round.before.foldl Net.Stack.step w).acceptReady id with ⟨w', e | _ | taken⟩
      · rw [hrun] at hp
        cases hp
      · rw [hrun] at hp
        dsimp only at hp ⊢
        by_cases hstop : (nonblock || round.signal) = true
        · rw [if_pos hstop] at hp
          cases hp
        · rw [if_neg hstop] at hp
          rw [Bool.not_eq_true, Bool.or_eq_false_iff] at hstop
          rw [hstop.1, hstop.2, if_neg Bool.false_ne_true, if_neg Bool.false_ne_true, ← hstop.1]
          exact ih w' hp
      · rw [hrun] at hp
        cases hp

/-- what the last of them leaves is what the loop leaves -/
lemma acceptSteps_last (id : Nat) (nonblock : Bool) (rounds : List Round) (w : Net.Stack)
    {p : Net.Stack × Net.Stack} (hp : (acceptSteps id nonblock rounds w).getLast? = some p) :
    (acceptLoop id nonblock rounds w).2 = p.2 := by
  fun_induction acceptLoop id nonblock rounds w with
  | case1 => cases hp
  | case2 round rounds w w' e hrun | case3 round rounds w w' c hrun =>
    simp only [acceptSteps, hrun, getLast?_singleton, Option.some.injEq] at hp
    rw [← hp]
  | case4 round rounds w w' hrun hnonblock =>
    simp only [acceptSteps, hrun, hnonblock, Bool.true_or, if_true, getLast?_singleton,
      Option.some.injEq] at hp
    rw [← hp]
  | case5 round rounds w w' hrun hnonblock hsignal =>
    simp only [acceptSteps, hrun, hsignal, Bool.or_true, if_true, getLast?_singleton,
      Option.some.injEq] at hp
    rw [← hp]
  | case6 round rounds w w' hrun hnonblock hsignal ih =>
    simp only [acceptSteps, hrun, hnonblock, hsignal, Bool.or_self] at hp
    cases rounds with
    | nil =>
      cases hp
      rfl
    | cons r rs => exact ih (by simpa [acceptSteps, hnonblock] using hp)

/-- a listening socket does not take itself -/
lemma acceptLoop_ne {id : Nat} {nonblock : Bool} {rounds : List Round} {w : Net.Stack}
    (h : (acceptLoop id nonblock rounds w).1 = .took child) : child ≠ id := by
  fun_induction acceptLoop id nonblock rounds w with
  | case3 round rounds w w' c hrun =>
    cases h
    rintro rfl
    unfold Net.Stack.acceptReady at hrun
    split_ifs at hrun with hstream hlisten
    · cases hrun
    · have hready := find?_some (Except.ok.inj (Prod.mk.inj hrun).2)
      -- a socket that listens is in no connection
      rw [Net.Stack.asks, Option.any_eq_true] at hlisten
      obtain ⟨s, hs, hlisten⟩ := hlisten
      rw [Net.Sock.listening, Bool.and_eq_true, beq_iff_eq] at hlisten
      rw [Net.Stack.childState, hs, Option.map_some, Option.any_some, hlisten.2] at hready
      cases hready
    · cases hrun
  | case6 round rounds w w' hrun hnonblock hsignal ih => exact ih h
  | case1 | case2 | case4 | case5 => cases h

/-- closing another socket leaves a queue as it is -/
lemma Queued.close {w : Net.Stack} {id c : Nat} (h : Queued w id c) (hne : child ≠ id) (env : Net.Env)
    (heldBytes : Nat) : Queued (Net.Stack.close env w child heldBytes) id c := by
  have hmodify {w : Net.Stack} {a : Nat} {f : Net.Sock → Net.Sock} (h : Queued w id c)
      (hf : a = id → ∀ s, (f s).children = s.children) : Queued (w.modify a f) id c := by
    obtain ⟨s, hs, hmem⟩ := h
    refine ⟨if a = id then f s else s, ?_, ?_⟩
    · rw [Net.Stack.modify, getElem?_modify, hs]
      split <;> rfl
    · split
      · rwa [hf ‹_›]
      · exact hmem
  unfold Net.Stack.close
  split
  · exact hmodify h fun e => absurd e hne
  · have hreset (dead : List Nat) {w : Net.Stack} (h : Queued w id c) :
        Queued (dead.foldl (Net.Stack.resetChild env) w) id c := by
      induction dead generalizing w with
      | nil => exact h
      | cons d dead ih => exact ih (hmodify h fun _ _ => rfl)
    dsimp only
    split
    · exact hreset _ (hmodify h fun e => absurd e hne)
    · exact hreset _ (hmodify h fun e => absurd e hne)

lemma Still.putName (h : k0.Quiet k) (name : List UInt8) (addr roomAddr : Nat) :
    Still (Fd.putName M name addr roomAddr) k0 k := by
  refine Still.bind ((Still.user h _).bind fun bytes _ h1 => .pure h1 _) fun room k1 h1 => ?_
  refine .ite (fun _ => .fail h1 _) fun _ => ?_
  exact (Still.ite (fun _ => .user h1 _) fun _ => .pure h1 _).bind fun _ _ h2 => .user h2 _

lemma dropFile_child {flags : Nat} {path : String} {k' : Kernel σ φ}
    (h : (k.push ⟨.inet child, flags, path⟩).Quiet k') : k.Same (dropFile M k' k.files.length) ∧
      (dropFile M k' k.files.length).stack = Net.Stack.close M.env k.stack child M.heldBytes := by
  have hfile : k'.files[k.files.length]?.map OpenFile.backing = some (.inet child) := by
    obtain ⟨rest, hrest⟩ := h.files
    rw [← hrest]
    show ((k.files ++ [_]) ++ rest)[k.files.length]?.map _ = _
    rw [append_assoc, getElem?_append_right (Nat.le_refl _), Nat.sub_self]
    rfl
  have hsame : k.Same k' := ⟨fun d => by rw [h.fds]; rfl, (prefix_append _ _).trans h.files⟩
  refine ⟨dropFile_same hsame _, ?_⟩
  unfold dropFile
  rw [hfile]
  exact congrArg (Net.Stack.close M.env · child M.heldBytes) h.stack

lemma allows_installChild (k : Kernel σ φ) (child addr addrlen flags : Nat) :
    Allows (fun _ _ => True) (fun _ k' => k.Same k' ∧ (addr ≠ 0 ∨ k.fds.Full 0) ∧
      k'.stack = Net.Stack.close M.env k.stack child M.heldBytes)
      (installChild M child addr addrlen flags k) := by
  let file : OpenFile :=
    ⟨.inet child, O_RDWR ||| if has flags SOCK_NONBLOCK then O_NONBLOCK else 0, "socket:[inet]"⟩
  refine Post.bind (Q := fun a k' => k = a ∧ k = k') ⟨rfl, rfl⟩ ?_
  rintro _ _ ⟨rfl, rfl⟩
  refine Post.bind (Q := fun a k' => a = k.files.length ∧ k' = k.push file) ⟨rfl, rfl⟩ ?_
  rintro _ _ ⟨rfl, rfl⟩
  refine Post.bind (Q := fun named k' => (k.push file).Quiet k' ∧
    ∀ e, named = Except.error e → addr ≠ 0) (Post.attempt ?_) ?_
  · refine Post.ite (fun haddr => ?_) fun _ => ⟨.refl _, fun e he => by cases he⟩
    refine (Still.putName (.refl (k.push file)) _ addr addrlen).mono ?_ ?_
    · exact fun _ _ h => ⟨h, fun _ _ => haddr⟩
    · exact fun _ _ h => ⟨h, fun _ _ => haddr⟩
  · rintro (e | _) k' ⟨hquiet, haddr⟩
    · obtain ⟨hsame, hstack⟩ := dropFile_child (M := M) hquiet
      exact ⟨hsame, .inl (haddr e rfl), hstack⟩
    · refine (allows_fdsAllocNew k.files.length _ k').mono (fun _ _ _ => trivial) ?_
      rintro e k'' ⟨-, hfull, rfl⟩
      obtain ⟨hsame, hstack⟩ := dropFile_child (M := M) hquiet
      have hfull : k.fds.Full 0 := by
        rw [hquiet.fds] at hfull
        exact hfull
      exact ⟨hsame, .inr hfull, hstack⟩

end

/-- the connection `child` that a failed `accept4` had taken was closed -/
structure Dropped (M : Machine σ φ) (k k' : Kernel σ φ) (loop : Taken × Net.Stack)
    (addr child : Nat) : Prop where
  took : loop.1 = .took child
  failing : addr ≠ 0 ∨ k.fds.Full 0
  closed : k'.stack = Net.Stack.close M.env loop.2 child M.heldBytes

/-- no `accept_ready` of the call takes a completed connection off the queue but one that is dropped,
and all that the last one leaves in the queue is in it after the call -/
def KeepsQueue (M : Machine σ φ) (k k' : Kernel σ φ) (fd : Int) (addr : Nat)
    (rounds : List Round) : Prop :=
  ∀ file id flags path, k.fds.get fd = .ok file → k.files[file]? = some ⟨.inet id, flags, path⟩ →
    (∀ p ∈ acceptSteps id (has flags O_NONBLOCK) rounds k.stack, ∀ child, Queued p.1 id child →
      Completed p.1 child → Queued p.2 id child ∨
        Dropped M k k' (acceptLoop id (has flags O_NONBLOCK) rounds k.stack) addr child) ∧
    ∀ p ∈ (acceptSteps id (has flags O_NONBLOCK) rounds k.stack).getLast?, ∀ child,
      Queued p.2 id child → Queued k'.stack id child

section
variable {M : Machine σ φ}

lemma allows_acceptOn (k : Kernel σ φ) (id : Nat) (nonblock : Bool) (addr addrlen flags : Nat)
    (rounds : List Round) : Allows (fun _ _ => True) (fun _ k' => k.Same k' ∧
      (∀ child, (acceptLoop id nonblock rounds k.stack).1 = .took child →
        Dropped M k k' (acceptLoop id nonblock rounds k.stack) addr child) ∧
      ∀ child, Queued (acceptLoop id nonblock rounds k.stack).2 id child → Queued k'.stack id child)
      (acceptOn M id nonblock addr addrlen flags rounds k) := by
  refine Post.bind (Q := fun taken k' => taken = (acceptLoop id nonblock rounds k.stack).1 ∧
    k' = k.setStack (acceptLoop id nonblock rounds k.stack).2) ⟨rfl, rfl⟩ ?_
  rintro taken k' ⟨htaken, rfl⟩
  rcases hloop : acceptLoop id nonblock rounds k.stack with ⟨taken', w⟩
  rw [hloop] at htaken
  subst htaken
  cases taken with
  | asleep => trivial
  | failed e =>
    refine ⟨⟨fun _ => rfl, prefix_rfl⟩, fun child htook => ?_, fun _ h => h⟩
    cases htook
  | took child =>
    have hne := acceptLoop_ne (congrArg Prod.fst hloop)
    refine Post.bind ((allows_installChild (k.setStack w) child addr addrlen flags).mono
      (fun _ _ h => h) ?_) fun _ _ _ => trivial
    rintro e k' ⟨hsame, hfailing, hclosed⟩
    refine ⟨hsame, fun child' htook => ?_, fun c hc => hclosed ▸ hc.close hne _ _⟩
    cases htook
    exact ⟨rfl, hfailing, hclosed⟩

lemma allows_fdsGet (k : Kernel σ φ) (fd : Int) :
    Allows (fun file k' => k.fds.get fd = .ok file ∧ k = k')
      (fun e k' => k.fds.get fd = .error e ∧ k = k') ((fdsGet fd : Sys σ φ File) k) := by
  refine Post.tryAct (fun file k' h => ?_) fun e k' h => ?_
  · exact ⟨congrArg Prod.fst h, congrArg Prod.snd h⟩
  · exact ⟨congrArg Prod.fst h, congrArg Prod.snd h⟩

lemma allows_accept4 (k : Kernel σ φ) (fd : Int) (addr addrlen flags : Nat) (rounds : List Round) :
    Allows (fun _ _ => True) (fun _ k' => k.Same k' ∧ KeepsQueue M k k' fd addr rounds)
      (accept4 M fd addr addrlen flags rounds k) := by
  have hrefl : k.Same k := (Kernel.Quiet.refl k).same
  refine Post.bind ((allows_fdsGet k fd).mono (fun _ _ h => h) ?_) ?_
  · rintro e k' ⟨hget, rfl⟩
    refine ⟨hrefl, fun file id fileFlags path hfile => ?_⟩
    rw [hget] at hfile
    cases hfile
  · rintro file k' ⟨hget, rfl⟩
    refine Post.bind (Q := fun a k' => k = a ∧ k = k') ⟨rfl, rfl⟩ ?_
    rintro _ _ ⟨rfl, rfl⟩
    -- a file that is not a connection's
    have hother (e : Errno) (h : ∀ id fileFlags path,
        k.files[file]? ≠ some ⟨.inet id, fileFlags, path⟩) :
        Allows (fun _ _ => True) (fun _ k' => k.Same k' ∧ KeepsQueue M k k' fd addr rounds)
          ((fail e : Sys σ φ (Option Nat)) k) := by
      refine ⟨hrefl, fun file' id fileFlags path hfile hinet => ?_⟩
      rw [hget] at hfile
      cases hfile
      exact absurd hinet (h id fileFlags path)
    cases hfile : k.files[file]? with
    | none =>
      refine hother _ fun id fileFlags path => ?_
      rw [hfile]
      exact fun h => by cases h
    | some openFile =>
      obtain ⟨backing, fileFlags, path⟩ := openFile
      cases backing with
      | inet id =>
        refine (allows_acceptOn k id _ addr addrlen flags rounds).mono (fun _ _ h => h) ?_
        rintro e k' ⟨hsame, hdropped, hleft⟩
        refine ⟨hsame, fun file' id' fileFlags' path' hget' hfile' => ?_⟩
        rw [hget] at hget'
        cases hget'
        rw [hfile] at hfile'
        cases hfile'
        refine ⟨fun p hp child hq hc => ?_, fun p hp child hq => hleft child ?_⟩
        · exact (acceptSteps_keeps id _ rounds k.stack hp hq hc).imp_right (hdropped child)
        · rwa [acceptSteps_last id _ rounds k.stack hp]
      | node | pipe | eventFd | socket | epoll =>
        exact hother _ fun id fileFlags path => by rw [hfile]; exact fun h => by cases h

end

/-- the calls that write the numbers of the two descriptors they made -/
def Syscall.makesPair : Syscall → Bool
  | .pipe2 _ _ => true
  | .socketpair _ _ _ => true
  | _ => false

/-- **calls that fail** leave every descriptor on its file, a `pipe2` or `socketpair` that cannot
write its numbers apart; and a failed `accept4` leaves every connection queued but one it took and
closed -/
theorem failed_call_keeps (M : Machine σ φ) (k k' : Kernel σ φ) (call : Syscall) (e : Errno)
    (h : call.run M k = (.error e, k')) (hpair : call.makesPair = true → e ≠ .EFAULT) :
    k.Same k' ∧ ∀ fd addr addrlen flags rounds, call = .accept4 fd addr addrlen flags rounds →
      KeepsQueue M k k' fd addr rounds := by
  have hmap {m : Sys σ φ Nat} {R : Errno → Kernel σ φ → Prop}
      (hm : Allows (fun _ _ => True) R (m k)) :
      Allows (fun _ _ => True) R ((some <$> m) k) := Post.bind hm fun _ _ _ => trivial
  -- only `accept4` has the second part
  have hfirst (hsame : k.Same k') (hne : ∀ fd addr addrlen flags rounds,
      call ≠ .accept4 fd addr addrlen flags rounds) :
      k.Same k' ∧ ∀ fd addr addrlen flags rounds, call = .accept4 fd addr addrlen flags rounds →
        KeepsQueue M k k' fd addr rounds :=
    ⟨hsame, fun fd addr addrlen flags rounds heq => absurd heq (hne fd addr addrlen flags rounds)⟩
  cases call with
  | openat dirfd pathAddr flags mode =>
    refine hfirst ((hmap (Safe.openat k dirfd pathAddr flags mode)).of_error h) ?_
    intro _ _ _ _ _ heq
    cases heq
  | pipe2 out flags =>
    refine hfirst (((hmap (allows_pipe2 k out flags)).of_error h).resolve_right (hpair rfl)) ?_
    intro _ _ _ _ _ heq
    cases heq
  | socketpair domain kind out =>
    refine hfirst (((hmap (allows_socketpair k domain kind out)).of_error h).resolve_right
      (hpair rfl)) ?_
    intro _ _ _ _ _ heq
    cases heq
  | socket domain kind protocol =>
    refine hfirst ((hmap (Safe.socket k domain kind protocol)).of_error h) ?_
    intro _ _ _ _ _ heq
    cases heq
  | accept4 fd addr addrlen flags rounds =>
    obtain ⟨hsame, hqueue⟩ := (allows_accept4 k fd addr addrlen flags rounds).of_error h
    refine ⟨hsame, fun fd' addr' addrlen' flags' rounds' heq => ?_⟩
    cases heq
    exact hqueue
  | eventfd flags =>
    refine hfirst ((hmap (Safe.eventfd k flags)).of_error h) ?_
    intro _ _ _ _ _ heq
    cases heq
  | epollCreate flags =>
    refine hfirst ((hmap (Safe.epollCreate k flags)).of_error h) ?_
    intro _ _ _ _ _ heq
    cases heq
  | dup fd =>
    refine hfirst ((hmap (Safe.dup k fd)).of_error h) ?_
    intro _ _ _ _ _ heq
    cases heq

/-! ## calls that fail late -/

/-- a machine whose program has no memory and whose file system has no files -/
def bare : Machine Unit Unit where
  space := ⟨id, fun _ _ s => (.refused, s), fun _ s => (false, s), fun _ s => (0, s), fun _ _ s => s⟩
  lookup _ fs := (.error .ENOENT, fs)
  lookupNofollow _ fs := (.error .ENOENT, fs)
  create _ _ fs := (.error .ENOSPC, fs)
  truncate _ fs := (.error .EINVAL, fs)
  openFifo _ _ _ fs := (.error .EINTR, fs)
  procfsOverride _ _ _ := none
  ownDescriptor _ := none
  pid := 1
  cwd := "/"
  umask := 0
  oDirectory := 0o200000
  env := ⟨0, 0, true⟩
  heldBytes := 0

def oneWaiting : Kernel Unit Unit where
  fds := ⟨[⟨some 0, false⟩]⟩
  files := [⟨.inet 0, O_RDWR, "socket:[inet]"⟩]
  stack := ⟨[(Net.Stack.startListening (.new true 0) 1).setChildren [1],
    (Net.Sock.new true 0).setTcb { Net.Tcb.new 0 with state := .Established }], [0, 1],
    Net.EPHEMERAL_FIRST, none⟩
  mem := ()
  fs := ()

def acceptNamed : Syscall := .accept4 0 (2 ^ 64 - 1) (2 ^ 64 - 1) 0 [⟨[], false⟩]

/-- the name cannot be written: the connection taken is dropped, and no other leaves the queue -/
theorem failed_call_keeps_acceptNamed :
    acceptNamed.run bare oneWaiting = (.error .EFAULT, (acceptNamed.run bare oneWaiting).2) ∧
      oneWaiting.Same (acceptNamed.run bare oneWaiting).2 ∧
      KeepsQueue bare oneWaiting (acceptNamed.run bare oneWaiting).2 0 (2 ^ 64 - 1) [⟨[], false⟩] := by
  have hrun : acceptNamed.run bare oneWaiting =
      (.error .EFAULT, (acceptNamed.run bare oneWaiting).2) := Prod.ext (by decide +kernel) rfl
  obtain ⟨hsame, hqueue⟩ := failed_call_keeps bare oneWaiting _ acceptNamed .EFAULT hrun
    fun hpair => absurd hpair Bool.false_ne_true
  exact ⟨hrun, hsame, hqueue _ _ _ _ _ rfl⟩

/-- a `pipe2` leaves both descriptors open, and an `accept4` has taken a connection off the queue -/
theorem failed_call_changes :
    (((Syscall.pipe2 (2 ^ 64 - 1) 0).run bare oneWaiting).1 = .error .EFAULT ∧
      oneWaiting.fds.fileAt 1 = none ∧
      ((Syscall.pipe2 (2 ^ 64 - 1) 0).run bare oneWaiting).2.fds.fileAt 1 = some 1 ∧
      ((Syscall.pipe2 (2 ^ 64 - 1) 0).run bare oneWaiting).2.fds.fileAt 2 = some 2) ∧
    (acceptNamed.run bare oneWaiting).1 = .error .EFAULT ∧
      Queued oneWaiting.stack 0 1 ∧ Completed oneWaiting.stack 1 ∧
      ¬ Queued (acceptNamed.run bare oneWaiting).2.stack 0 1 := by
  have hpipe : ((Syscall.pipe2 (2 ^ 64 - 1) 0).run bare oneWaiting).1 = .error .EFAULT ∧
      oneWaiting.fds.fileAt 1 = none ∧
      ((Syscall.pipe2 (2 ^ 64 - 1) 0).run bare oneWaiting).2.fds.fileAt 1 = some 1 ∧
      ((Syscall.pipe2 (2 ^ 64 - 1) 0).run bare oneWaiting).2.fds.fileAt 2 = some 2 := by
    decide +kernel
  have hqueue : (acceptNamed.run bare oneWaiting).2.stack.socks[0]?.map Net.Sock.children =
      some [] := by decide +kernel
  refine ⟨hpipe, by decide +kernel, ⟨_, rfl, mem_singleton_self 1⟩, rfl, ?_⟩
  rintro ⟨s, hs, hmem⟩
  rw [hs] at hqueue
  rw [Option.some.inj hqueue] at hmem
  cases hmem

end
end ClaudeOs.Fs.Fd
