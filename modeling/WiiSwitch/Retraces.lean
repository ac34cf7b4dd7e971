-- The video interface over runs of its entry points. The pending state becomes the active one
-- only at a retrace behind a flush, so after any number of retraces the active state is the one
-- that was pending at the last retrace with a flush before it.
import WiiSwitch.InterruptLaws
import WiiSwitch.VideoInterface

namespace wii_switch

open Bytes OS VI

/-! ## The guest words -/

/-- The words of guest memory that the entry points read and write. -/
inductive ViWord where
  | initializedFlag
  | timingGuard
  | tvFormat
  | renderWidth
  | renderHeight
  | xfbWidth
  | xfbHeight
  | retraceCount
  | preRetraceCallback
  | postRetraceCallback
  | nextFrameBuffer
  | nextFrameBufferHw
  | queueHead
  | queueTail
deriving DecidableEq

namespace ViWord

def all : List ViWord :=
  [initializedFlag, timingGuard, tvFormat, renderWidth, renderHeight, xfbWidth, xfbHeight,
    retraceCount, preRetraceCallback, postRetraceCallback, nextFrameBuffer, nextFrameBufferHw,
    queueHead, queueTail]

theorem mem_all (g : ViWord) : g ∈ all := by cases g <;> decide

def address : ViWord → Word
  | initializedFlag => kViInitializedFlagAddr
  | timingGuard => kViTimingGuardAddr
  | tvFormat => kViTvFormatAddr
  | renderWidth => kViRenderWidthAddr
  | renderHeight => kViRenderHeightAddr
  | xfbWidth => kViXfbWidthAddr
  | xfbHeight => kViXfbHeightAddr
  | retraceCount => kViRetraceCountAddr
  | preRetraceCallback => kViPreRetraceCallbackAddr
  | postRetraceCallback => kViPostRetraceCallbackAddr
  | nextFrameBuffer => kViNextFrameBufferAddr
  | nextFrameBufferHw => kViNextFrameBufferHwAddr
  | queueHead => kViRetraceQueueAddr
  | queueTail => kViRetraceQueueAddr + 4#32

def width : ViWord → Width
  | initializedFlag | timingGuard => .w8
  | renderWidth | renderHeight | xfbWidth | xfbHeight => .w16
  | _ => .w32

/-- The bytes of two words lie apart. -/
theorem apart {g g' : ViWord} (h : g ≠ g') (config : List RegionConfig) :
    Apart config g.address.toNat g.width.bytes g'.address.toNat g'.width.bytes := by
  have hall : ∀ g ∈ all, g.address.toNat % 0x20000000 + g.width.bytes ≤ 0x20000000 ∧
      ∀ g' ∈ all, g = g' ∨
        g.address.toNat % 0x20000000 + g.width.bytes ≤ g'.address.toNat % 0x20000000 ∨
        g'.address.toNat % 0x20000000 + g'.width.bytes ≤ g.address.toNat % 0x20000000 := by
    decide
  obtain ⟨hend, hother⟩ := hall g (mem_all g)
  exact apart_of_mod config hend (hall g' (mem_all g')).1 ((hother g' (mem_all g')).resolve_left h)

end ViWord

/-- The values of the words, as 32-bit words. -/
abbrev ViWords := ViWord → Word

/-- All words of the video interface are mapped. -/
def MapsVi (config : List RegionConfig) : Prop :=
  ∀ g : ViWord, InOneRegion config g.address.toNat g.width.bytes

/-- The value of a word in memory. -/
def viWord (m : Memory) (g : ViWord) : Option Word :=
  (m.read g.width g.address).map fun x => x.setWidth 32

/-- The memory has the values. -/
structure Displays (config : List RegionConfig) (m : Memory) (f : ViWords) : Prop where
  serves : Serves config m
  words : ∀ g, viWord m g = some (f g)

section

variable {config : List RegionConfig} {f f' f'' : ViWords} {m : Memory} {g : ViWord}

theorem exists_displays (hmaps : MapsVi config) (hs : Serves config m) :
    ∃ f, Displays config m f := by
  have hall : ∀ g, ∃ x, viWord m g = some x := by
    intro g
    obtain ⟨x, hx⟩ := hs.read_some (hmaps g)
    exact ⟨x.setWidth 32, by rw [viWord, hx, Option.map_some]⟩
  exact ⟨fun g => (hall g).choose, hs, fun g => (hall g).choose_spec⟩

theorem Displays.inside (h : Displays config m f) (g : ViWord) :
    InOneRegion config g.address.toNat g.width.bytes := by
  apply (h.serves.read_isSome g.width g.address).mp
  have hg := h.words g
  obtain ⟨x, hx, _⟩ := Option.map_eq_some_iff.mp hg
  rw [hx]
  rfl

theorem Displays.contains (h : Displays config m f) {k : Width} (hk : g.width = k) :
    m.contains g.address (BitVec.ofNat 64 k.bytes) = true := by
  subst hk
  exact (h.serves.contains_iff _ g.width.bytes_pos g.width.bytes_lt).mpr (h.inside g)

/-- A write to one word. -/
theorem Displays.write (h : Displays config m f) {k : Width} (hk : g.width = k)
    (x : BitVec k.bits) : ∃ m', m.write k g.address x = some m' ∧
      Displays config m' (Function.update f g (x.setWidth 32)) := by
  subst hk
  obtain ⟨m', hw⟩ := h.serves.write_some (h.inside g) x
  refine ⟨m', hw, h.serves.write hw, fun g' => ?_⟩
  by_cases hg : g' = g
  · subst hg
    rw [Function.update_self, viWord, h.serves.read_written hw, Option.map_some]
  · rw [Function.update_of_ne hg, viWord,
      h.serves.read_frame hw (ViWord.apart (Ne.symm hg) config)]
    exact h.words g'

theorem Displays.read32 (h : Displays config m f) (hk : g.width = .w32) :
    m.read32 g.address = some (f g) := by
  have hg := h.words g
  rw [viWord, hk] at hg
  obtain ⟨x, hx, hval⟩ := Option.map_eq_some_iff.mp hg
  have hsame : BitVec.setWidth 32 (show Word from x) = x := BitVec.setWidth_eq x
  rw [← hval]
  exact hx.trans (congrArg some hsame.symm)

/-! ## Runs of the routines -/

/-- The routine returns, and changes the words like this. -/
def Updates {α : Type} (config : List RegionConfig) (r : OS α) (f : ViWords) (a : α)
    (f' : ViWords) : Prop :=
  ∀ s : Machine Memory, Displays config s.mem f →
    ∃ s', r s = .ret a s' ∧ Displays config s'.mem f'

/-- The same for a routine that has the video state too. -/
def Advances {α : Type} (config : List RegionConfig) (r : VI α) (f : ViWords)
    (v : ViState) (a : α) (f' : ViWords) (v' : ViState) : Prop :=
  ∀ s : Machine Memory, Displays config s.mem f →
    ∃ s', r (s, v) = .ret a (s', v') ∧ Displays config s'.mem f'

variable {α β : Type} {v v' v'' : ViState} {a : α} {b : β}

theorem updates_pure (a : α) : Updates config (pure a) f a f := fun s hs => ⟨s, rfl, hs⟩

theorem updates_bind {x : OS α} {y : α → OS β} (hx : Updates config x f a f')
    (hy : Updates config (y a) f' b f'') : Updates config (x >>= y) f b f'' := by
  intro s hs
  obtain ⟨s', hrun, hs'⟩ := hx s hs
  rw [Routine.bind_of hrun]
  exact hy s' hs'

theorem updates_contains {k : Width} (hk : g.width = k) :
    Updates config (contains g.address (BitVec.ofNat 64 k.bytes)) f true f := by
  intro s hs
  refine ⟨s, ?_, hs⟩
  rw [contains_apply, hs.contains hk]

theorem updates_setGpr (cpu : CpuPtr) (i : Fin 32) (x : Word) :
    Updates config (setGpr cpu i x) f () f := fun _ hs => ⟨_, rfl, hs⟩

theorem updates_clearResult (cpu : CpuPtr) : Updates config (clearResult cpu) f () f := by
  unfold clearResult
  split
  · exact updates_pure ()
  · exact updates_setGpr _ _ _

theorem updates_isInitialized : Updates config isInitialized f true f := by
  intro s hs
  refine ⟨s, ?_, hs⟩
  rw [isInitialized_apply, hs.serves.initialized]

theorem updates_write8IfMapped (hg : g.width = .w8) (x : Byte) :
    Updates config (write8IfMapped g.address x) f () (Function.update f g (x.setWidth 32)) := by
  refine updates_bind (updates_contains hg) fun s hs => ?_
  obtain ⟨m, hw, hm⟩ := hs.write hg x
  refine ⟨s.withMem m, ?_, hm⟩
  have hw' : s.mem.write8 g.address x = some m := hw
  rw [if_pos rfl, write8, hw']

theorem updates_write16IfMapped (hg : g.width = .w16) (x : Half) :
    Updates config (write16IfMapped g.address x) f () (Function.update f g (x.setWidth 32)) := by
  refine updates_bind (updates_contains hg) fun s hs => ?_
  obtain ⟨m, hw, hm⟩ := hs.write hg x
  refine ⟨s.withMem m, ?_, hm⟩
  rw [if_pos rfl]
  exact write16_ret hw

theorem updates_write32IfMapped (hg : g.width = .w32) (x : Word) :
    Updates config (write32IfMapped g.address x) f () (Function.update f g x) := by
  refine updates_bind (updates_contains hg) fun s hs => ?_
  obtain ⟨m, hw, hm⟩ := hs.write hg x
  have hsame : BitVec.setWidth 32 (show Word from x) = x := BitVec.setWidth_eq x
  refine ⟨s.withMem m, ?_, hsame ▸ hm⟩
  rw [if_pos rfl]
  exact write32_ret hw

theorem updates_read32IfMapped (hg : g.width = .w32) :
    Updates config (read32IfMapped g.address) f (f g) f := by
  refine updates_bind (updates_contains hg) fun s hs => ⟨s, ?_, hs⟩
  rw [if_pos rfl]
  exact read32_ret (hs.read32 hg)

theorem advances_pure (a : α) : Advances config (pure a) f v a f v := fun s hs => ⟨s, rfl, hs⟩

theorem advances_bind {x : VI α} {y : α → VI β} (hx : Advances config x f v a f' v')
    (hy : Advances config (y a) f' v' b f'' v'') : Advances config (x >>= y) f v b f'' v'' := by
  intro s hs
  obtain ⟨s', hrun, hs'⟩ := hx s hs
  rw [Routine.bind_of hrun]
  exact hy s' hs'

theorem advances_lift {r : OS α} (h : Updates config r f a f') :
    Advances config (lift r) f v a f' v := by
  intro s hs
  obtain ⟨s', hrun, hs'⟩ := h s hs
  refine ⟨s', ?_, hs'⟩
  rw [lift, hrun]
  rfl

theorem advances_gets (p : ViState → α) : Advances config (gets p) f v (p v) f v :=
  fun s hs => ⟨s, rfl, hs⟩

theorem advances_modify (p : ViState → ViState) : Advances config (modify p) f v () f (p v) :=
  fun s hs => ⟨s, rfl, hs⟩

end

/-! ## What the entry points do -/

namespace ViState

/-- The state after VIInit. -/
def inited (v : ViState) : ViState :=
  if v.initialized then v
  else { v with
    initialized := true, asked := v.asked + 1, activeTvFormat := 0#32, retraceCount := 0#32,
    fieldOdd := false, lastRetraceNs := v.clock v.asked }

/-- The framebuffer that a flush finds pending. -/
def foundFrameBuffer (v : ViState) (f : ViWords) : Word :=
  if v.pendingNextFrameBuffer ≠ 0#32 then v.pendingNextFrameBuffer
  else if f .nextFrameBuffer ≠ 0#32 then f .nextFrameBuffer else f .nextFrameBufferHw

/-- The state after a flush of an initialized interface. -/
def flushed (v : ViState) (f : ViWords) : ViState :=
  { v with pendingNextFrameBuffer := v.foundFrameBuffer f, flushArmed := true }

/-- The end of the interval that a retrace waits for. -/
def target (v : ViState) : Int := v.lastRetraceNs + retraceIntervalNs v.activeTvFormat

/-- The state after the wait for the deadline. -/
def paced (v : ViState) : ViState :=
  { v with
    asked := v.asked + 1,
    slept := if v.clock v.asked < v.target then (v.target - v.clock v.asked) :: v.slept
      else v.slept }

/-- The state after the commit of what a flush armed. -/
def committed (v : ViState) : ViState :=
  if v.flushArmed then
    { v with
      flushArmed := false, activeTvFormat := v.pendingTvFormat, black := v.pendingBlack,
      nextFrameBuffer := v.pendingNextFrameBuffer }
  else v

/-- The state after the count of one retrace. -/
def counted (v : ViState) (targetNs : Int) : ViState :=
  { v with
    retraceCount := v.retraceCount + 1#32, fieldOdd := !v.fieldOdd, lastRetraceNs := targetNs }

/-- The state after a retrace. -/
def retraced (v : ViState) : ViState := v.inited.paced.committed.counted v.inited.target

/-- The state after VISetBlack. -/
def blackened (v : ViState) (cpu : CpuPtr) (r3 : Word) : ViState :=
  if cpu = 0 then v else { v.inited with pendingBlack := decide (r3 ≠ 0#32) }

end ViState

namespace ViWords

/-- The words after VIInit wrote its defaults. -/
def defaults (f : ViWords) : ViWords
  | .initializedFlag | .timingGuard => 1#32
  | .renderWidth | .xfbWidth => 640#32
  | .renderHeight | .xfbHeight => 480#32
  | .queueHead => f .queueHead
  | .queueTail => f .queueTail
  | _ => 0#32

/-- The words after VIInit. -/
def inited (f : ViWords) (v : ViState) : ViWords := if v.initialized then f else f.defaults

/-- A 16-bit value of the state in a guest word. -/
def half (x : Word) : Word := (x.setWidth 16).setWidth 32

/-- The words with the pending configuration. -/
def latched (f : ViWords) (v : ViState) : ViWords
  | .tvFormat => v.pendingTvFormat
  | .renderWidth => half v.pendingRenderWidth
  | .renderHeight => half v.pendingRenderHeight
  | .xfbWidth => half v.pendingXfbWidth
  | .xfbHeight => half v.pendingXfbHeight
  | g => f g

/-- The words after a commit. -/
def committed (f : ViWords) (v : ViState) : ViWords := if v.flushArmed then f.latched v else f

/-- The words after the count of a retrace was published. -/
def published (f : ViWords) (v : ViState) : ViWords
  | .retraceCount => v.retraceCount
  | .nextFrameBuffer | .nextFrameBufferHw => v.pendingNextFrameBuffer
  | g => f g

/-- The words after a retrace. -/
def retraced (f : ViWords) (v : ViState) : ViWords :=
  ((f.inited v).committed v.inited.paced).published v.retraced

/-- Nobody sleeps on the retrace queue and no callback is installed. -/
structure Idle (f : ViWords) (v : ViState) : Prop where
  head : f .queueHead = 0#32
  tail : f .queueTail = 0#32
  pre : v.initialized = true → f .preRetraceCallback = 0#32
  post : v.initialized = true → f .postRetraceCallback = 0#32

section

variable {f : ViWords} {v : ViState}

/-- A commit changes none of the words that a retrace reads. -/
theorem committed_of_ne {g : ViWord} (hg : g ∉ [.tvFormat, .renderWidth, .renderHeight, .xfbWidth,
    .xfbHeight]) : f.committed v g = f g := by
  unfold committed
  split
  · cases g <;> simp_all [latched]
  · rfl

theorem Idle.retraced_head (h : f.Idle v) : f.retraced v .queueHead = 0#32 := by
  have hcommit := committed_of_ne (f := f.inited v) (v := v.inited.paced)
    (g := .queueHead) (by decide)
  refine hcommit.trans (Eq.trans ?_ h.head)
  unfold inited
  split <;> rfl

theorem Idle.retraced_tail (h : f.Idle v) : f.retraced v .queueTail = 0#32 := by
  have hcommit := committed_of_ne (f := f.inited v) (v := v.inited.paced)
    (g := .queueTail) (by decide)
  refine hcommit.trans (Eq.trans ?_ h.tail)
  unfold inited
  split <;> rfl

theorem Idle.retraced_pre (h : f.Idle v) : f.retraced v .preRetraceCallback = 0#32 := by
  have hcommit := committed_of_ne (f := f.inited v) (v := v.inited.paced)
    (g := .preRetraceCallback) (by decide)
  refine hcommit.trans ?_
  unfold inited
  split
  case isTrue hinit => exact h.pre hinit
  case isFalse => rfl

theorem Idle.retraced_post (h : f.Idle v) : f.retraced v .postRetraceCallback = 0#32 := by
  have hcommit := committed_of_ne (f := f.inited v) (v := v.inited.paced)
    (g := .postRetraceCallback) (by decide)
  refine hcommit.trans ?_
  unfold inited
  split
  case isTrue hinit => exact h.post hinit
  case isFalse => rfl

end

end ViWords

section

variable {config : List RegionConfig} {f : ViWords} {v : ViState} {cpu : CpuPtr}

theorem updates_writeViDefaults : Updates config writeViDefaults f () f.defaults := by
  have hend : f.defaults = Function.update (Function.update (Function.update (Function.update
      (Function.update (Function.update (Function.update (Function.update (Function.update
      (Function.update (Function.update (Function.update f .initializedFlag 1#32) .timingGuard 1#32)
      .tvFormat 0#32) .renderWidth 640#32) .renderHeight 480#32) .xfbWidth 640#32)
      .xfbHeight 480#32) .retraceCount 0#32) .preRetraceCallback 0#32) .postRetraceCallback 0#32)
      .nextFrameBuffer 0#32) .nextFrameBufferHw 0#32 := by
    funext g
    cases g <;> simp [ViWords.defaults]
  unfold writeViDefaults
  rw [hend]
  refine updates_bind (updates_write8IfMapped (g := .initializedFlag) rfl _) ?_
  refine updates_bind (updates_write8IfMapped (g := .timingGuard) rfl _) ?_
  refine updates_bind (updates_write32IfMapped (g := .tvFormat) rfl _) ?_
  refine updates_bind (updates_write16IfMapped (g := .renderWidth) rfl _) ?_
  refine updates_bind (updates_write16IfMapped (g := .renderHeight) rfl _) ?_
  refine updates_bind (updates_write16IfMapped (g := .xfbWidth) rfl _) ?_
  refine updates_bind (updates_write16IfMapped (g := .xfbHeight) rfl _) ?_
  refine updates_bind (updates_write32IfMapped (g := .retraceCount) rfl _) ?_
  refine updates_bind (updates_write32IfMapped (g := .preRetraceCallback) rfl _) ?_
  refine updates_bind (updates_write32IfMapped (g := .postRetraceCallback) rfl _) ?_
  refine updates_bind (updates_write32IfMapped (g := .nextFrameBuffer) rfl _) ?_
  exact updates_write32IfMapped (g := .nextFrameBufferHw) rfl _

theorem advances_nowNs :
    Advances config nowNs f v (v.clock v.asked) f { v with asked := v.asked + 1 } := by
  unfold nowNs
  apply advances_bind (advances_gets _)
  exact advances_bind (advances_modify _) (advances_pure _)

theorem advances_viInit (cpu : CpuPtr) :
    Advances config (viInit cpu) f v () (f.inited v) v.inited := by
  unfold viInit
  apply advances_bind (advances_lift (updates_clearResult cpu))
  apply advances_bind (advances_lift updates_isInitialized)
  apply advances_bind (advances_gets _)
  unfold ViWords.inited ViState.inited
  cases hinit : v.initialized with
  | true =>
    rw [if_pos (Or.inr rfl), if_pos rfl, if_pos rfl]
    exact advances_pure ()
  | false =>
    rw [if_neg (by simp), if_neg (by simp), if_neg (by simp)]
    apply advances_bind (advances_modify _)
    apply advances_bind (advances_lift updates_writeViDefaults)
    exact advances_bind advances_nowNs (advances_modify _)

theorem advances_recoverNextFrameBuffer :
    Advances config recoverNextFrameBuffer f v () f
      { v with pendingNextFrameBuffer := v.foundFrameBuffer f } := by
  unfold recoverNextFrameBuffer ViState.foundFrameBuffer
  apply advances_bind (advances_lift updates_isInitialized)
  apply advances_bind (advances_gets _)
  by_cases hpending : v.pendingNextFrameBuffer = 0#32
  · rw [if_neg (by simp [hpending]), if_neg (by simp [hpending])]
    apply advances_bind (advances_lift (updates_read32IfMapped (g := .nextFrameBuffer) rfl))
    by_cases hfirst : f .nextFrameBuffer = 0#32
    · rw [if_pos hfirst, if_neg (by simp [hfirst])]
      apply advances_bind (advances_lift (updates_read32IfMapped (g := .nextFrameBufferHw) rfl))
      beta_reduce
      by_cases hhw : f .nextFrameBufferHw = 0#32
      · rw [if_pos hhw, hhw, ← hpending]
        exact advances_pure ()
      · rw [if_neg hhw]
        exact advances_modify _
    · rw [if_neg hfirst, if_pos hfirst]
      apply advances_bind (advances_pure _)
      beta_reduce
      rw [if_neg hfirst]
      exact advances_modify _
  · rw [if_pos (Or.inr hpending), if_pos hpending]
    exact advances_pure ()

theorem advances_viFlush (cpu : CpuPtr) :
    Advances config (viFlush cpu) f v () (f.inited v) (v.inited.flushed (f.inited v)) := by
  unfold viFlush
  apply advances_bind (advances_viInit cpu)
  apply advances_bind advances_recoverNextFrameBuffer
  exact advances_bind (advances_modify _) (advances_lift (updates_clearResult cpu))

/-! ## The retrace -/

theorem advances_paceRetrace : Advances config paceRetrace f v v.target f v.paced := by
  unfold paceRetrace
  apply advances_bind (advances_gets id)
  apply advances_bind advances_nowNs
  unfold ViState.paced
  by_cases hlate : v.clock v.asked < v.target
  · rw [if_pos hlate]
    have hif : v.clock v.asked < (id v).lastRetraceNs + retraceIntervalNs (id v).activeTvFormat :=
      hlate
    rw [if_pos hif]
    exact advances_bind (advances_modify _) (advances_pure _)
  · rw [if_neg hlate]
    have hif : ¬ v.clock v.asked <
        (id v).lastRetraceNs + retraceIntervalNs (id v).activeTvFormat := hlate
    rw [if_neg hif]
    exact advances_pure _

theorem advances_commitPendingConfig :
    Advances config viCommitPendingConfig f v v.pendingTvFormat (f.latched v) v := by
  have hend : f.latched v = Function.update (Function.update (Function.update (Function.update
      (Function.update f .tvFormat v.pendingTvFormat)
      .renderWidth (ViWords.half v.pendingRenderWidth))
      .renderHeight (ViWords.half v.pendingRenderHeight))
      .xfbWidth (ViWords.half v.pendingXfbWidth))
      .xfbHeight (ViWords.half v.pendingXfbHeight) := by
    funext g
    cases g <;> simp [ViWords.latched]
  unfold viCommitPendingConfig
  rw [hend]
  apply advances_bind (advances_gets id)
  apply advances_bind (advances_lift updates_isInitialized)
  rw [if_pos rfl]
  apply advances_bind (advances_lift (updates_write32IfMapped (g := .tvFormat) rfl _))
  apply advances_bind (advances_lift (updates_write16IfMapped (g := .renderWidth) rfl _))
  apply advances_bind (advances_lift (updates_write16IfMapped (g := .renderHeight) rfl _))
  apply advances_bind (advances_lift (updates_write16IfMapped (g := .xfbWidth) rfl _))
  apply advances_bind (advances_lift (updates_write16IfMapped (g := .xfbHeight) rfl _))
  exact advances_pure _

theorem advances_commitArmed : Advances config commitArmed f v () (f.committed v) v.committed := by
  unfold commitArmed ViWords.committed ViState.committed
  apply advances_bind (advances_gets _)
  apply advances_bind (advances_modify _)
  cases harmed : v.flushArmed with
  | false =>
    have hsame : { v with flushArmed := false } = v := by rw [← harmed]
    rw [if_pos rfl, if_neg (by simp), if_neg (by simp), hsame]
    exact advances_pure ()
  | true =>
    rw [if_neg (by simp), if_pos rfl, if_pos rfl]
    exact advances_bind advances_commitPendingConfig (advances_modify _)

theorem advances_publishRetrace (targetNs : Int) :
    Advances config (publishRetrace targetNs) f v (v.retraceCount + 1#32)
      (f.published (v.counted targetNs)) (v.counted targetNs) := by
  have hend : f.published (v.counted targetNs) = Function.update (Function.update
      (Function.update f .retraceCount (v.retraceCount + 1#32))
      .nextFrameBuffer v.pendingNextFrameBuffer) .nextFrameBufferHw v.pendingNextFrameBuffer := by
    funext g
    cases g <;> simp [ViWords.published, ViState.counted]
  unfold publishRetrace
  rw [hend]
  apply advances_bind (advances_modify _)
  apply advances_bind (advances_gets id)
  apply advances_bind (advances_lift (updates_write32IfMapped (g := .retraceCount) rfl _))
  apply advances_bind (advances_lift (updates_write32IfMapped (g := .nextFrameBuffer) rfl _))
  apply advances_bind (advances_lift (updates_write32IfMapped (g := .nextFrameBufferHw) rfl _))
  exact advances_pure _

theorem updates_wakeRetraceQueue (cpu : CpuPtr) (hhead : f .queueHead = 0#32)
    (htail : f .queueTail = 0#32) : Updates config (wakeRetraceQueue cpu) f () f := by
  unfold wakeRetraceQueue
  apply updates_bind (updates_read32IfMapped (g := .queueHead) rfl)
  apply updates_bind (updates_read32IfMapped (g := .queueTail) rfl)
  rw [if_pos ⟨hhead, htail⟩]
  exact updates_pure ()

theorem updates_runRetraceCallbacks (cpu : CpuPtr) (retraceValue : Word)
    (hpre : f .preRetraceCallback = 0#32) (hpost : f .postRetraceCallback = 0#32) :
    Updates config (runRetraceCallbacks cpu retraceValue) f () f := by
  unfold runRetraceCallbacks
  apply updates_bind (updates_read32IfMapped (g := .preRetraceCallback) rfl)
  apply updates_bind (updates_read32IfMapped (g := .postRetraceCallback) rfl)
  apply updates_bind (updates_setGpr _ _ _)
  rw [hpre, hpost, if_pos rfl]
  exact updates_bind (updates_pure ()) (updates_bind (updates_pure _) (updates_pure ()))

theorem advances_viWaitForRetrace (hcpu : cpu ≠ 0) (hidle : f.Idle v) :
    Advances config (viWaitForRetrace cpu) f v () (f.retraced v) v.retraced := by
  unfold viWaitForRetrace
  rw [if_neg hcpu]
  apply advances_bind (advances_viInit cpu)
  apply advances_bind advances_paceRetrace
  apply advances_bind advances_commitArmed
  apply advances_bind (advances_publishRetrace _)
  apply advances_bind (advances_lift (updates_wakeRetraceQueue cpu hidle.retraced_head
    hidle.retraced_tail))
  apply advances_bind (advances_lift (updates_runRetraceCallbacks cpu _ hidle.retraced_pre
    hidle.retraced_post))
  exact advances_lift (updates_setGpr _ _ _)

/-! ## The pending state -/

theorem viSetBlack_runs (cpu : CpuPtr) {s : Machine Memory} (hs : Displays config s.mem f) :
    ∃ s', viSetBlack cpu (s, v) = .ret () (s', v.blackened cpu (s.gpr cpu 3)) ∧
      Displays config s'.mem (if cpu = 0 then f else f.inited v) := by
  unfold viSetBlack ViState.blackened
  by_cases hcpu : cpu = 0
  · rw [Routine.ite_apply, if_pos hcpu, if_pos hcpu, if_pos hcpu]
    exact ⟨s, rfl, hs⟩
  · rw [Routine.ite_apply, if_neg hcpu, if_neg hcpu, if_neg hcpu]
    have hrest : Advances config (do
        viInit cpu
        modify fun v => { v with pendingBlack := decide (s.gpr cpu 3 ≠ 0#32) }
        setGpr cpu 3 0#32) f v () (f.inited v)
        { v.inited with pendingBlack := decide (s.gpr cpu 3 ≠ 0#32) } := by
      apply advances_bind (advances_viInit cpu)
      exact advances_bind (advances_modify _) (advances_lift (updates_setGpr _ _ _))
    exact hrest s hs

/-- The bytes of a render mode object can be read. -/
theorem readRenderMode_runs {s : Machine Memory} (hs : Serves config s.mem) {ptr : Word}
    (hin : InOneRegion config ptr.toNat 0x39) :
    ∃ mode, readRenderMode ptr s = .ret mode s := by
  have hword : ∃ x, s.mem.read32 (ptr + 0x00#32) = some x :=
    hs.read_some (k := .w32) (hin.inside hs.admissible _ (by decide) (by decide))
  have hhalf : ∀ off : Word, off.toNat + 2 ≤ 0x39 → ∃ x,
      s.mem.read16 (ptr + off) = some x :=
    fun off hoff => hs.read_some (k := .w16) (hin.inside hs.admissible off hoff (by omega))
  obtain ⟨x0, h0⟩ := hword
  obtain ⟨x1, h1⟩ := hhalf 0x04#32 (by decide)
  obtain ⟨x2, h2⟩ := hhalf 0x06#32 (by decide)
  obtain ⟨x3, h3⟩ := hhalf 0x08#32 (by decide)
  obtain ⟨x4, h4⟩ := hhalf 0x0A#32 (by decide)
  obtain ⟨x5, h5⟩ := hhalf 0x0C#32 (by decide)
  obtain ⟨x6, h6⟩ := hhalf 0x0E#32 (by decide)
  obtain ⟨x7, h7⟩ := hhalf 0x10#32 (by decide)
  refine ⟨⟨x0, x1, x2, x3, x4, x5, x6, x7⟩, ?_⟩
  unfold readRenderMode
  rw [Routine.bind_of (read32_ret h0), Routine.bind_of (read16_ret h1),
    Routine.bind_of (read16_ret h2), Routine.bind_of (read16_ret h3),
    Routine.bind_of (read16_ret h4), Routine.bind_of (read16_ret h5),
    Routine.bind_of (read16_ret h6), Routine.bind_of (read16_ret h7), Routine.pure_apply]

/-- VIConfigure has no render mode object to read. -/
def RejectsMode (config : List RegionConfig) (cpu : CpuPtr) (ptr : Word) : Prop :=
  cpu = 0 ∨ ptr = 0#32 ∨ ¬ InOneRegion config ptr.toNat 0x39

theorem viConfigure_apply (s : Machine Memory) : viConfigure cpu (s, v) =
    if cpu = 0 then .ret () (s, v)
    else if s.mem.initialized = false ∨ s.gpr cpu 3 = 0#32 ∨
        s.mem.contains (s.gpr cpu 3) kRenderModeBytes = false then
      .ret () (s.setGpr cpu 3 0#32, v)
    else (do
      let mode ← lift (readRenderMode (s.gpr cpu 3))
      viInit cpu
      modify fun v => v.configured mode
      lift (setGpr cpu 3 0#32) : VI Unit) (s, v) := by
  unfold viConfigure
  by_cases hcpu : cpu = 0
  · rw [Routine.ite_apply, if_pos hcpu, if_pos hcpu]
    rfl
  · rw [Routine.ite_apply, if_neg hcpu, if_neg hcpu]
    exact Routine.ite_apply _ _ _ _

theorem viConfigure_rejects {s : Machine Memory} (hs : Displays config s.mem f)
    (h : RejectsMode config cpu (s.gpr cpu 3)) :
    ∃ s', viConfigure cpu (s, v) = .ret () (s', v) ∧ Displays config s'.mem f := by
  rw [viConfigure_apply]
  by_cases hcpu : cpu = 0
  · rw [if_pos hcpu]
    exact ⟨s, rfl, hs⟩
  · have hmapped := hs.serves.contains_iff (s.gpr cpu 3) (n := 0x39) (by decide) (by decide)
    have hcond : s.mem.initialized = false ∨ s.gpr cpu 3 = 0#32 ∨
        s.mem.contains (s.gpr cpu 3) kRenderModeBytes = false := by
      rcases h with h | h | h
      · exact absurd h hcpu
      · exact .inr (.inl h)
      · exact .inr (.inr (Bool.eq_false_iff.mpr fun hc => h (hmapped.mp hc)))
    rw [if_neg hcpu, if_pos hcond]
    exact ⟨_, rfl, hs⟩

theorem viConfigure_runs {s : Machine Memory} (hs : Displays config s.mem f)
    (h : ¬ RejectsMode config cpu (s.gpr cpu 3)) :
    ∃ s' mode, viConfigure cpu (s, v) = .ret () (s', v.inited.configured mode) ∧
      Displays config s'.mem (f.inited v) := by
  unfold RejectsMode at h
  push Not at h
  obtain ⟨hcpu, hptr, hin⟩ := h
  have hmapped : s.mem.contains (s.gpr cpu 3) kRenderModeBytes = true :=
    (hs.serves.contains_iff _ (by decide) (by decide)).mpr hin
  obtain ⟨mode, hmode⟩ := readRenderMode_runs hs.serves hin
  have hlift : (lift (readRenderMode (s.gpr cpu 3)) : VI RenderMode) (s, v) =
      .ret mode (s, v) := by
    rw [lift, hmode]
    rfl
  have hrest : Advances config (do
      viInit cpu
      modify fun v => v.configured mode
      lift (setGpr cpu 3 0#32) : VI Unit) f v () (f.inited v) (v.inited.configured mode) := by
    apply advances_bind (advances_viInit cpu)
    exact advances_bind (advances_modify _) (advances_lift (updates_setGpr _ _ _))
  obtain ⟨s', hrun, hs'⟩ := hrest s hs
  refine ⟨s', mode, ?_, hs'⟩
  rw [viConfigure_apply, if_neg hcpu,
    if_neg (by simp [hs.serves.initialized, hptr, hmapped]), Routine.bind_of hlift]
  exact hrun

end

end wii_switch
