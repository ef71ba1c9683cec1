import ClaudeOs.Mem.Regions
import ClaudeOs.Sched.Wait
import ClaudeOs.Signal.Words

/-!
# Sums that stop the machine

The kernel is built with overflow checks and aborts on a panic, so a sum a program can push past a
word is a way to stop the machine.  Three groups of calls do arithmetic on what a program passes: the
memory calls, `wait4`, and the signal calls with the delivery that follows them.

* `calls_in_words`  under the conditions of the three groups no call of any run stops;
* `calls_overflow`  one call of each group that stops, from a task that did nothing unusual.
-/

namespace ClaudeOs
open Mm Call

/-- **no sum stops the machine** in a memory call, a round of `wait4`, a signal call or a delivery,
where the arguments leave room for their sums -/
theorem calls_in_words (M : Machine) {σ : Type} (S : Space σ) :
    (∀ (F : Mem.Frames) (start : Mem.AddressSpace) (c : Mem.Shared) (t : Mem.Turn)
      (rest : List Mem.Turn), start.mem.Bounded → Mem.Reached M Mem.InWords start c →
        Mem.Takes c t rest → Mem.InWords c.space t → (t.run M F c.space).1 ≠ .stopped) ∧
    (∀ (start : Mem.AddressSpace) (c : Mem.Shared) (base oldAddr size oldSize : Nat) (u : σ),
      start.mem.Bounded → Mem.Reached M Mem.InWords start c →
        Mem.Turn.move base oldAddr size oldSize ∈ c.pending →
          (Uaccess.copyWithinUserIn S base oldAddr size u).1 ≠ .stopped) ∧
    (∀ (tasks : Sched.Tasks σ) (me : Nat) (pid : Int) (statusAddr : Nat) (options : Bits)
      (interrupted : Bool), Sched.WantFits (Sched.toI32 pid) me tasks.table →
        Sched.StatusFits statusAddr →
          (Sched.waitRound S me pid statusAddr options interrupted tasks).1 ≠ .stopped) ∧
    (∀ (t : Signal.Thread σ) (c : Signal.SignalCall),
      Signal.Signalling S t → Signal.SignalFits S t c → (c.run S t).1 ≠ .stopped) := by
  refine ⟨?_, ?_, ?_, ?_⟩
  · intro F start c t rest hstart hreached htakes hwords
    exact hreached.words hstart F htakes hwords
  · intro start c base oldAddr size oldSize u hstart hreached hmove
    exact hreached.move_words hstart hmove S u
  · intro tasks me pid statusAddr options interrupted hwant hstatus
    exact (Sched.waitRound_ends S options interrupted hwant hstatus).not_stopped
  · intro t c hsignalling hfits
    exact hsignalling.words hfits

/-! ### a mapping that has to move -/

def freshThread : Signal.Thread Unit where
  frame := ⟨0, 0, 0, 0, 0, 0, 0, 0, 0, 0, 0, 0, 0, 0, 0, 0, 0, 0x400000, 0x23, 0x202,
    0x7FFFFFFFE000, 0x1B⟩
  sigStack := .default
  blocked := 0
  record := ⟨0, 0, fun _ => 0⟩
  cpu := ⟨0, 0, fun _ => 0⟩
  mem := ()

def onStackAction : Signal.SigAction := ⟨0x401000, Signal.SA_ONSTACK, 0x402000, 0⟩
def runningChild : Sched.Entry := ⟨2, 2, 1, 2, false, false, none, 0, false, false, none⟩

def pageAfter : Mem.Vma :=
  ⟨Mem.USER_MMAP_BASE + 0x2000, Mem.USER_MMAP_BASE + 0x3000, 3, 0x22, none⟩

def crowdedSpace : Mem.AddressSpace :=
  ⟨⟨[Mem.twoPages, pageAfter], 0, 0, Mem.USER_MMAP_BASE + 0x3000⟩, fun _ => none⟩

lemma crowdedSpace_bounded : crowdedSpace.mem.Bounded where
  regions := by decide
  offsets v hv f hf := by
    have hnone : v.file = none := by
      rcases List.mem_pair.mp hv with rfl | rfl <;> rfl
    rw [hnone] at hf
    exact absurd hf (Option.not_mem_none f)
  top := by decide
  brk := by decide

lemma crowdedSpace_run :
    (Mem.Turn.mremap Mem.USER_MMAP_BASE 0x2000 0x3000).run x8664 Mem.noFrames crowdedSpace =
      (.ok [.move (Mem.USER_MMAP_BASE + 0x3000) Mem.USER_MMAP_BASE 0x2000 0x2000],
        crowdedSpace.setMem ((crowdedSpace.mem.setMmapTop (Mem.USER_MMAP_BASE + 0x6000)).push
          ⟨Mem.USER_MMAP_BASE + 0x3000, Mem.USER_MMAP_BASE + 0x6000, 3, 0x22, none⟩)) := by
  have hvma : crowdedSpace.mem.findVma Mem.USER_MMAP_BASE = some Mem.twoPages := by decide
  have hfree : (Mem.findFrom crowdedSpace.mem.vmas (pageAlignUp (pageAlignUp 0x3000))
      crowdedSpace.mem.mmapTop : Mem.Locked Mem.AddressSpace Nat) =
        Pure.pure (Mem.USER_MMAP_BASE + 0x3000) :=
    Mem.findFrom_above (by decide) (by decide)
  rw [Mem.Turn.run, Mem.mremap, Mem.alignUpOk_bind (by decide), Mem.alignUpOk_bind (by decide),
    if_neg (by decide), if_neg (by decide), Mem.grow, get_bind_run, hvma]
  dsimp only
  rw [addOk_bind (by decide), addOk_bind (by decide), if_neg (by decide), Mem.findFree,
    Call.bind_assoc, get_bind_run, Mem.MemState.findFreeRegion, Call.bind_assoc,
    Mem.alignUpOk_bind (by decide), hfree]
  simp only [Call.pure_bind]
  rw [Call.bind_assoc, modify_bind_run, Call.pure_bind, addOk_bind (by decide)]
  rfl

lemma crowdedSpace_inWords : Mem.InWords crowdedSpace (.mremap Mem.USER_MMAP_BASE 0x2000 0x3000) :=
  ⟨by decide, by decide, fun _ _ => ⟨by decide, by decide⟩⟩

lemma crowdedSpace_reached : ∃ space, Mem.Reached x8664 Mem.InWords crowdedSpace
    ⟨space, [.move (Mem.USER_MMAP_BASE + 0x3000) Mem.USER_MMAP_BASE 0x2000 0x2000]⟩ :=
  ⟨_, .turn (some _) .start (.first rfl) crowdedSpace_inWords crowdedSpace_run
    fun _ ht => Option.mem_some.mp ht ▸ List.mem_singleton_self _⟩

/-- one call of each kind, the first on a record with a neighbour in the way -/
theorem calls_in_words_crowded :
    ((Mem.Turn.mremap Mem.USER_MMAP_BASE 0x2000 0x3000).run x8664 Mem.noFrames crowdedSpace).1 ≠
      .stopped ∧
    (Uaccess.copyWithinUserIn Uaccess.openSpace (Mem.USER_MMAP_BASE + 0x3000) Mem.USER_MMAP_BASE
      0x2000 ()).1 ≠ .stopped ∧
    (Sched.waitRound Uaccess.openSpace 1 (-1) 0 0 false ⟨[runningChild], ()⟩).1 ≠ .stopped ∧
    ((Signal.SignalCall.deliver 10 onStackAction none).run Uaccess.openSpace freshThread).1 ≠
      .stopped := by
  obtain ⟨hturn, hmove, hwait, hsignal⟩ := calls_in_words x8664 Uaccess.openSpace
  refine ⟨?_, ?_, ?_, ?_⟩
  · exact hturn Mem.noFrames crowdedSpace ⟨crowdedSpace, []⟩ _ _ crowdedSpace_bounded .start
      (.first rfl) crowdedSpace_inWords
  · obtain ⟨space, hreached⟩ := crowdedSpace_reached
    exact hmove crowdedSpace _ _ _ _ _ () crowdedSpace_bounded hreached
      (List.mem_singleton_self _)
  · exact hwait ⟨[runningChild], ()⟩ 1 (-1) 0 0 false
      (.inl (by decide)) (.inl rfl)
  · refine hsignal freshThread _ (.start rfl) ?_
    show ¬ Uaccess.InTopPage (Signal.frameBelow (Signal.stackTop freshThread onStackAction))
    rw [Uaccess.InTopPage]
    decide +kernel

/-! ## tasks that ask for too much -/

/-- memory that reads as an alternate stack of the largest size at the largest address -/
def endlessStack : Space Unit where
  gap s := s
  accessPage _ _ s := (.ready, s)
  faultIn _ s := (true, s)
  load virt s := (if virt % 32 < 8 ∨ 16 ≤ virt % 32 then 0xFF else 0, s)
  store _ _ s := s

/-- **each group has a call that stops the machine** -/
theorem calls_overflow : ((Mem.Turn.brk (WORD - 1)).run x8664 Mem.noFrames .empty).1 = .stopped ∧
    ((Mem.Turn.mremap 0 (WORD - 1) 0).run x8664 Mem.noFrames .empty).1 = .stopped ∧
    (Sched.waitRound Uaccess.openSpace 1 (-2 ^ 31) 0 0 false ⟨[runningChild], ()⟩).1 = .stopped ∧
    ((Signal.SignalCall.deliver 10 onStackAction none).run endlessStack
      ((Signal.SignalCall.sigaltstack 0x1000 0).run endlessStack freshThread).2).1 = .stopped := by
  refine ⟨?_, ?_, ?_, ?_⟩
  · rw [Mem.Turn.run, Mem.brk, get_bind_run, if_neg (by decide), Mem.alignUpOk_overflow (by decide)]
    rfl
  · rw [Mem.Turn.run, Mem.mremap, Mem.alignUpOk_overflow (by decide)]
    rfl
  · decide +kernel
  · decide +kernel

end ClaudeOs
