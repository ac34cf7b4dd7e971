-- The history of the video interface. A retrace makes the pending state active only when a
-- flush came since the retrace before it, so the active state is the one that was pending at
-- the last such retrace, and the defaults of VIInit when there is none.
import WiiSwitch.Retraces
import WiiSwitch.WiiLayout

namespace wii_switch

open Bytes OS VI

/-! ## Histories -/

/-- The pending values that a commit makes active. -/
structure ViPending where
  tvFormat : Word
  black : Bool
  nextFrameBuffer : Word
  renderWidth : Word
  renderHeight : Word
  xfbWidth : Word
  xfbHeight : Word

/-- What VIInit starts with. -/
def ViPending.defaults : ViPending := ⟨0#32, false, 0#32, 640#32, 480#32, 640#32, 480#32⟩

def ViState.pending (v : ViState) : ViPending :=
  ⟨v.pendingTvFormat, v.pendingBlack, v.pendingNextFrameBuffer, v.pendingRenderWidth,
    v.pendingRenderHeight, v.pendingXfbWidth, v.pendingXfbHeight⟩

/-- The entry points. -/
inductive ViCall where
  | init
  | configure
  | setBlack
  | flush
  | waitForRetrace
deriving DecidableEq

def ViCall.routine (cpu : CpuPtr) : ViCall → VI Unit
  | init => viInit cpu
  | configure => viConfigure cpu
  | setBlack => viSetBlack cpu
  | flush => viFlush cpu
  | waitForRetrace => viWaitForRetrace cpu

/-- The calls so far, each with the values that were pending when it was made, newest first. -/
abbrev ViHistory := List (ViCall × ViPending)

/-- How many flushes came since the last retrace. -/
def flushesSince : ViHistory → Nat
  | [] => 0
  | (.waitForRetrace, _) :: _ => 0
  | (.flush, _) :: h => flushesSince h + 1
  | _ :: h => flushesSince h

/-- The retraces, newest first: the flushes since the one before, and what was pending. -/
def retraces : ViHistory → List (Nat × ViPending)
  | [] => []
  | (.waitForRetrace, p) :: h => (flushesSince h, p) :: retraces h
  | _ :: h => retraces h

/-- What was pending at the last retrace with a flush before it. -/
def lastArmed (h : ViHistory) : ViPending :=
  ((retraces h).find? fun r => decide (0 < r.1)).elim .defaults (·.2)

section

variable {h : ViHistory} {p : ViPending} {c : ViCall}

theorem retraces_of_ne (hc : c ≠ .waitForRetrace) : retraces ((c, p) :: h) = retraces h := by
  cases c <;> simp_all [retraces]

theorem lastArmed_of_ne (hc : c ≠ .waitForRetrace) : lastArmed ((c, p) :: h) = lastArmed h := by
  unfold lastArmed
  rw [retraces_of_ne hc]

theorem flushesSince_of_ne (hc : c ≠ .waitForRetrace) (hf : c ≠ .flush) :
    flushesSince ((c, p) :: h) = flushesSince h := by
  cases c <;> simp_all [flushesSince]

theorem lastArmed_armed (hflush : 0 < flushesSince h) :
    lastArmed ((.waitForRetrace, p) :: h) = p := by
  simp [lastArmed, retraces, hflush]

theorem lastArmed_unarmed (hflush : ¬ 0 < flushesSince h) :
    lastArmed ((.waitForRetrace, p) :: h) = lastArmed h := by
  simp [lastArmed, retraces, hflush]

end

/-! ## Runs -/

/-- Nobody sleeps on the retrace queue and no callback is installed. Before VIInit the words
of the callbacks have no meaning. -/
structure RetraceIdle (m : Memory) (v : ViState) : Prop where
  head : viWord m .queueHead = some 0#32
  tail : viWord m .queueTail = some 0#32
  pre : v.initialized = true → viWord m .preRetraceCallback = some 0#32
  post : v.initialized = true → viWord m .postRetraceCallback = some 0#32

/-- The words that only the entry points write. -/
def ownWords : List ViWord :=
  [.tvFormat, .renderWidth, .renderHeight, .xfbWidth, .xfbHeight, .retraceCount]

/-- The histories of the calls from the start of the process on. Between two calls the guest
changes its registers and the rest of its memory. -/
inductive ViRun (config : List RegionConfig) : ViHistory → Machine Memory → ViState → Prop
  | start {s : Machine Memory} {clock : Nat → Int} :
      Serves config s.mem → ViRun config [] s (.start clock)
  | guest {h : ViHistory} {s s' : Machine Memory} {v : ViState} :
      ViRun config h s v → Serves config s'.mem →
      (∀ g ∈ ownWords, viWord s'.mem g = viWord s.mem g) → ViRun config h s' v
  | call {h : ViHistory} {s s' : Machine Memory} {v v' : ViState} {c : ViCall} {cpu : CpuPtr} :
      ViRun config h s v → (c = .waitForRetrace → cpu ≠ 0 ∧ RetraceIdle s.mem v) →
      c.routine cpu (s, v) = .ret () (s', v') → ViRun config ((c, v.pending) :: h) s' v'

/-! ## The invariant -/

/-- The active state of the host. -/
structure ActiveIs (v : ViState) (p : ViPending) : Prop where
  tvFormat : v.activeTvFormat = p.tvFormat
  black : v.black = p.black
  nextFrameBuffer : v.nextFrameBuffer = p.nextFrameBuffer

/-- The active state in guest memory. -/
structure WordsAre (f : ViWords) (p : ViPending) : Prop where
  tvFormat : f .tvFormat = p.tvFormat
  renderWidth : f .renderWidth = p.renderWidth
  renderHeight : f .renderHeight = p.renderHeight
  xfbWidth : f .xfbWidth = p.xfbWidth
  xfbHeight : f .xfbHeight = p.xfbHeight

/-- The pending sizes fit in the halfwords of the guest. -/
structure SizesFit (v : ViState) : Prop where
  renderWidth : ViWords.half v.pendingRenderWidth = v.pendingRenderWidth
  renderHeight : ViWords.half v.pendingRenderHeight = v.pendingRenderHeight
  xfbWidth : ViWords.half v.pendingXfbWidth = v.pendingXfbWidth
  xfbHeight : ViWords.half v.pendingXfbHeight = v.pendingXfbHeight

/-- What holds after every history. -/
structure Latches (h : ViHistory) (f : ViWords) (v : ViState) : Prop where
  armed : v.flushArmed = true ↔ 0 < flushesSince h
  fresh : v.initialized = false → retraces h = []
  active : ActiveIs v (lastArmed h)
  words : v.initialized = true → WordsAre f (lastArmed h)
  count : v.retraceCount = BitVec.ofNat 32 (retraces h).length
  countWord : v.initialized = true → f .retraceCount = v.retraceCount
  sizes : SizesFit v

section

variable {h : ViHistory} {f : ViWords} {v : ViState} {p : ViPending} {cpu : CpuPtr}

theorem latches_start (f : ViWords) (clock : Nat → Int) : Latches [] f (.start clock) where
  armed := by simp [ViState.start, flushesSince]
  fresh := fun _ => rfl
  active := ⟨rfl, rfl, rfl⟩
  words := by simp [ViState.start]
  count := rfl
  countWord := by simp [ViState.start]
  sizes := ⟨rfl, rfl, rfl, rfl⟩

@[simp] theorem ViState.inited_initialized (v : ViState) : v.inited.initialized = true := by
  unfold inited
  split
  case isTrue hinit => exact hinit
  case isFalse => rfl

theorem ViState.inited_of_initialized (hinit : v.initialized = true) : v.inited = v := by
  rw [inited, if_pos hinit]

theorem ViWords.inited_of_initialized (hinit : v.initialized = true) : f.inited v = f := by
  rw [inited, if_pos hinit]

@[simp] theorem ViState.inited_pending (v : ViState) : v.inited.pending = v.pending := by
  unfold inited
  split <;> rfl

/-- VIInit starts with the defaults. -/
theorem Latches.inited (hl : Latches h f v) : Latches h (f.inited v) v.inited := by
  cases hinit : v.initialized with
  | true =>
    rw [ViState.inited_of_initialized hinit, ViWords.inited_of_initialized hinit]
    exact hl
  | false =>
    have hnone := hl.fresh hinit
    have hlast : lastArmed h = .defaults := by
      unfold lastArmed
      rw [hnone]
      rfl
    unfold ViState.inited ViWords.inited
    rw [if_neg (by simp [hinit]), if_neg (by simp [hinit])]
    have hactive := hl.active
    rw [hlast] at hactive
    constructor
    case armed => exact hl.armed
    case fresh => simp
    case active =>
      rw [hlast]
      exact ⟨rfl, hactive.black, hactive.nextFrameBuffer⟩
    case words =>
      rw [hlast]
      exact fun _ => ⟨rfl, rfl, rfl, rfl, rfl⟩
    case count =>
      rw [hnone]
      rfl
    case countWord => exact fun _ => rfl
    case sizes => exact ⟨hl.sizes.renderWidth, hl.sizes.renderHeight, hl.sizes.xfbWidth,
      hl.sizes.xfbHeight⟩

/-- A call that is neither a flush nor a retrace adds nothing that counts. -/
theorem Latches.other {c : ViCall} (hl : Latches h f v) (hc : c ≠ .waitForRetrace)
    (hf : c ≠ .flush) : Latches ((c, p) :: h) f v where
  armed := by rw [flushesSince_of_ne hc hf]; exact hl.armed
  fresh := by rw [retraces_of_ne hc]; exact hl.fresh
  active := by rw [lastArmed_of_ne hc]; exact hl.active
  words := by rw [lastArmed_of_ne hc]; exact hl.words
  count := by rw [retraces_of_ne hc]; exact hl.count
  countWord := hl.countWord
  sizes := hl.sizes

theorem half_setWidth (x : Half) : ViWords.half (x.setWidth 32) = x.setWidth 32 := by
  apply BitVec.eq_of_toNat_eq
  have := x.isLt
  simp only [ViWords.half, BitVec.toNat_setWidth]
  omega

theorem Latches.configured (hl : Latches h f v) (m : RenderMode) :
    Latches h f (v.configured m) where
  armed := hl.armed
  fresh := hl.fresh
  active := ⟨hl.active.tvFormat, hl.active.black, hl.active.nextFrameBuffer⟩
  words := hl.words
  count := hl.count
  countWord := hl.countWord
  sizes := by
    constructor
    case renderWidth =>
      unfold ViState.configured
      dsimp only
      split <;> exact half_setWidth _
    case renderHeight =>
      unfold ViState.configured
      dsimp only
      split <;> exact half_setWidth _
    case xfbWidth => exact half_setWidth _
    case xfbHeight =>
      unfold ViState.configured
      dsimp only
      split <;> exact half_setWidth _

theorem Latches.withBlack (hl : Latches h f v) (b : Bool) :
    Latches h f { v with pendingBlack := b } :=
  ⟨hl.armed, hl.fresh, ⟨hl.active.tvFormat, hl.active.black, hl.active.nextFrameBuffer⟩,
    hl.words, hl.count, hl.countWord,
    ⟨hl.sizes.renderWidth, hl.sizes.renderHeight, hl.sizes.xfbWidth, hl.sizes.xfbHeight⟩⟩

/-- A flush arms the next retrace. -/
theorem Latches.flushed (hl : Latches h f v) (f' : ViWords) :
    Latches ((.flush, p) :: h) f (v.flushed f') where
  armed := by simp [ViState.flushed, flushesSince]
  fresh := hl.fresh
  active := ⟨hl.active.tvFormat, hl.active.black, hl.active.nextFrameBuffer⟩
  words := hl.words
  count := hl.count
  countWord := hl.countWord
  sizes := ⟨hl.sizes.renderWidth, hl.sizes.renderHeight, hl.sizes.xfbWidth, hl.sizes.xfbHeight⟩

/-- A retrace latches what is pending when a flush armed it, and counts. -/
theorem Latches.retraced (hl : Latches h f v) (hinit : v.initialized = true) :
    Latches ((.waitForRetrace, v.pending) :: h) (f.retraced v) v.retraced := by
  unfold ViWords.retraced ViState.retraced
  rw [ViState.inited_of_initialized hinit, ViWords.inited_of_initialized hinit]
  have hcount : v.retraceCount + 1#32 =
      BitVec.ofNat 32 (retraces ((.waitForRetrace, v.pending) :: h)).length := by
    rw [hl.count, retraces, List.length_cons, BitVec.ofNat_add]
  unfold ViState.committed ViWords.committed
  have harmed : v.paced.flushArmed = v.flushArmed := rfl
  cases hflush : v.flushArmed with
  | true =>
    rw [harmed, if_pos hflush, if_pos hflush]
    have hlast := lastArmed_armed (p := v.pending) (hl.armed.mp hflush)
    constructor
    case armed => simp [ViState.counted, flushesSince]
    case fresh => simp [ViState.counted, ViState.paced, hinit]
    case active =>
      rw [hlast]
      exact ⟨rfl, rfl, rfl⟩
    case words =>
      rw [hlast]
      exact fun _ => ⟨rfl, hl.sizes.renderWidth, hl.sizes.renderHeight, hl.sizes.xfbWidth,
        hl.sizes.xfbHeight⟩
    case count => exact hcount
    case countWord => exact fun _ => rfl
    case sizes => exact ⟨hl.sizes.renderWidth, hl.sizes.renderHeight, hl.sizes.xfbWidth,
      hl.sizes.xfbHeight⟩
  | false =>
    have hneg : ¬ v.flushArmed = true := by simp [hflush]
    rw [harmed, if_neg hneg, if_neg hneg]
    have hlast := lastArmed_unarmed (p := v.pending) fun hpos => hneg (hl.armed.mpr hpos)
    constructor
    case armed => simp [ViState.counted, ViState.paced, hflush, flushesSince]
    case fresh => simp [ViState.counted, ViState.paced, hinit]
    case active =>
      rw [hlast]
      exact ⟨hl.active.tvFormat, hl.active.black, hl.active.nextFrameBuffer⟩
    case words =>
      rw [hlast]
      have hwords := hl.words hinit
      exact fun _ => ⟨hwords.tvFormat, hwords.renderWidth, hwords.renderHeight, hwords.xfbWidth,
        hwords.xfbHeight⟩
    case count => exact hcount
    case countWord => exact fun _ => rfl
    case sizes => exact ⟨hl.sizes.renderWidth, hl.sizes.renderHeight, hl.sizes.xfbWidth,
      hl.sizes.xfbHeight⟩

theorem ViState.retraced_initialized (v : ViState) : v.retraced.initialized = true := by
  unfold retraced counted committed
  split <;> exact v.inited_initialized

theorem ViState.inited_retraced (v : ViState) : v.inited.retraced = v.retraced := by
  unfold retraced
  rw [ViState.inited_of_initialized v.inited_initialized]

theorem ViWords.inited_retraced (f : ViWords) (v : ViState) :
    (f.inited v).retraced v.inited = f.retraced v := by
  unfold ViWords.retraced
  rw [ViWords.inited_of_initialized v.inited_initialized,
    ViState.inited_of_initialized v.inited_initialized, ViState.inited_retraced]

theorem RetraceIdle.words {config : List RegionConfig} {m : Memory} (hidle : RetraceIdle m v)
    (hd : Displays config m f) : f.Idle v := by
  have hword : ∀ {g x}, viWord m g = some x → f g = x := by
    intro g x hx
    exact Option.some_inj.mp ((hd.words g).symm.trans hx)
  exact ⟨hword hidle.head, hword hidle.tail, fun hinit => hword (hidle.pre hinit),
    fun hinit => hword (hidle.post hinit)⟩

/-- What one call does to a state in which the invariant holds. -/
theorem call_latches {config : List RegionConfig} {s : Machine Memory}
    (hd : Displays config s.mem f) (hl : Latches h f v) (c : ViCall)
    (hwait : c = .waitForRetrace → cpu ≠ 0 ∧ RetraceIdle s.mem v) :
    ∃ s' v' f', c.routine cpu (s, v) = .ret () (s', v') ∧ Displays config s'.mem f' ∧
      Latches ((c, v.pending) :: h) f' v' ∧ (v.initialized = true → v'.initialized = true) := by
  cases c with
  | init =>
    obtain ⟨s', hrun, hd'⟩ := advances_viInit (v := v) cpu s hd
    exact ⟨s', _, _, hrun, hd', hl.inited.other (by decide) (by decide),
      fun _ => v.inited_initialized⟩
  | configure =>
    by_cases hrej : RejectsMode config cpu (s.gpr cpu 3)
    · obtain ⟨s', hrun, hd'⟩ := viConfigure_rejects (v := v) hd hrej
      exact ⟨s', _, _, hrun, hd', hl.other (by decide) (by decide), id⟩
    · obtain ⟨s', mode, hrun, hd'⟩ := viConfigure_runs (v := v) hd hrej
      exact ⟨s', _, _, hrun, hd', (hl.inited.configured mode).other (by decide) (by decide),
        fun _ => v.inited_initialized⟩
  | setBlack =>
    obtain ⟨s', hrun, hd'⟩ := viSetBlack_runs (v := v) cpu hd
    refine ⟨s', _, _, hrun, hd', ?_⟩
    unfold ViState.blackened
    split
    · exact ⟨hl.other (by decide) (by decide), id⟩
    · exact ⟨(hl.inited.withBlack _).other (by decide) (by decide),
        fun _ => v.inited_initialized⟩
  | flush =>
    obtain ⟨s', hrun, hd'⟩ := advances_viFlush (v := v) cpu s hd
    exact ⟨s', _, _, hrun, hd', hl.inited.flushed _, fun _ => v.inited_initialized⟩
  | waitForRetrace =>
    obtain ⟨hcpu, hidle⟩ := hwait rfl
    obtain ⟨s', hrun, hd'⟩ := advances_viWaitForRetrace hcpu (hidle.words hd) s hd
    have hnext := hl.inited.retraced v.inited_initialized
    rw [ViState.inited_retraced, ViWords.inited_retraced, ViState.inited_pending] at hnext
    exact ⟨s', _, _, hrun, hd', hnext, fun _ => v.retraced_initialized⟩

/-- What the guest does between two calls. -/
theorem Latches.guest {config : List RegionConfig} {m m' : Memory} {f' : ViWords}
    (hl : Latches h f v) (hd : Displays config m f) (hd' : Displays config m' f')
    (hkeep : ∀ g ∈ ownWords, viWord m' g = viWord m g) : Latches h f' v := by
  have hsame : ∀ g ∈ ownWords, f' g = f g := by
    intro g hg
    have hg' := hkeep g hg
    rw [hd.words, hd'.words] at hg'
    exact Option.some_inj.mp hg'
  constructor
  case armed => exact hl.armed
  case fresh => exact hl.fresh
  case active => exact hl.active
  case words =>
    intro hinit
    have hwords := hl.words hinit
    exact ⟨(hsame _ (by decide)).trans hwords.tvFormat,
      (hsame _ (by decide)).trans hwords.renderWidth,
      (hsame _ (by decide)).trans hwords.renderHeight,
      (hsame _ (by decide)).trans hwords.xfbWidth, (hsame _ (by decide)).trans hwords.xfbHeight⟩
  case count => exact hl.count
  case countWord => exact fun hinit => (hsame _ (by decide)).trans (hl.countWord hinit)
  case sizes => exact hl.sizes

/-- The invariant holds after every history. -/
theorem run_latches {config : List RegionConfig} (hmaps : MapsVi config) {s : Machine Memory}
    (hrun : ViRun config h s v) : ∃ f, Displays config s.mem f ∧ Latches h f v := by
  induction hrun with
  | start hs =>
    obtain ⟨f, hd⟩ := exists_displays hmaps hs
    exact ⟨f, hd, latches_start f _⟩
  | guest _ hs hkeep ih =>
    obtain ⟨f, hd, hl⟩ := ih
    obtain ⟨f', hd'⟩ := exists_displays hmaps hs
    exact ⟨f', hd', hl.guest hd hd' hkeep⟩
  | call _ hwait hcall ih =>
    obtain ⟨f, hd, hl⟩ := ih
    obtain ⟨s', v', f', hrun, hd', hl', _⟩ := call_latches hd hl _ hwait
    rw [hrun] at hcall
    injection hcall with _ hstate
    injection hstate with hs hv
    subst hs hv
    exact ⟨f', hd', hl'⟩

end

/-! ## The law -/

/-- The guest words of the active state. -/
structure WordsShow (m : Memory) (p : ViPending) : Prop where
  tvFormat : viWord m .tvFormat = some p.tvFormat
  renderWidth : viWord m .renderWidth = some p.renderWidth
  renderHeight : viWord m .renderHeight = some p.renderHeight
  xfbWidth : viWord m .xfbWidth = some p.xfbWidth
  xfbHeight : viWord m .xfbHeight = some p.xfbHeight

/-- What a state shows of the history that led to it. -/
structure ShowsHistory (config : List RegionConfig) (h : ViHistory) (s : Machine Memory)
    (v : ViState) : Prop where
  initialized : retraces h ≠ [] → v.initialized = true
  count : retraces h ≠ [] →
    viWord s.mem .retraceCount = some (BitVec.ofNat 32 (retraces h).length)
  active : ActiveIs v (lastArmed h)
  words : v.initialized = true → WordsShow s.mem (lastArmed h)
  returns : ∀ (c : ViCall) (cpu : CpuPtr),
    (c = .waitForRetrace → cpu ≠ 0 ∧ RetraceIdle s.mem v) →
    ∃ s' v', c.routine cpu (s, v) = .ret () (s', v')
  steady : v.initialized = true → ∀ c : ViCall, c ≠ .waitForRetrace →
    ∀ (cpu : CpuPtr) (s' : Machine Memory) (v' : ViState),
      c.routine cpu (s, v) = .ret () (s', v') →
      v'.activeTvFormat = v.activeTvFormat ∧ v'.black = v.black ∧
        v'.nextFrameBuffer = v.nextFrameBuffer ∧
        ∀ g ∈ ownWords, viWord s'.mem g = viWord s.mem g
  flushTwice : ∀ (cpu : CpuPtr) (s₁ s₂ : Machine Memory) (v₁ v₂ : ViState),
    viFlush cpu (s, v) = .ret () (s₁, v₁) → viFlush cpu (s₁, v₁) = .ret ()
      (s₂, v₂) → v₂ = v₁
  rejected : ∀ (cpu : CpuPtr) (s' : Machine Memory) (v' : ViState),
    RejectsMode config cpu (s.gpr cpu 3) → viConfigure cpu (s, v) = .ret () (s', v') → v' = v

section

variable {config : List RegionConfig} {h : ViHistory} {f : ViWords} {s s' : Machine Memory}
  {v v' : ViState} {cpu : CpuPtr}

theorem Latches.wordsShow (hl : Latches h f v) (hd : Displays config s.mem f)
    (hinit : v.initialized = true) : WordsShow s.mem (lastArmed h) := by
  have hwords := hl.words hinit
  constructor
  case tvFormat => rw [hd.words, hwords.tvFormat]
  case renderWidth => rw [hd.words, hwords.renderWidth]
  case renderHeight => rw [hd.words, hwords.renderHeight]
  case xfbWidth => rw [hd.words, hwords.xfbWidth]
  case xfbHeight => rw [hd.words, hwords.xfbHeight]

/-- Between two retraces nothing active changes. -/
theorem Latches.steady (hl : Latches h f v) (hd : Displays config s.mem f)
    (hinit : v.initialized = true) {c : ViCall} (hc : c ≠ .waitForRetrace)
    (hcall : c.routine cpu (s, v) = .ret () (s', v')) :
    v'.activeTvFormat = v.activeTvFormat ∧ v'.black = v.black ∧
      v'.nextFrameBuffer = v.nextFrameBuffer ∧
      ∀ g ∈ ownWords, viWord s'.mem g = viWord s.mem g := by
  obtain ⟨s₁, v₁, f₁, hrun, hd₁, hl₁, hkeep⟩ :=
    call_latches hd hl c fun h => absurd h hc
  rw [hcall] at hrun
  injection hrun with _ hstate
  injection hstate with hs hv
  subst hs hv
  have hactive := hl₁.active
  have hwords := hl₁.words (hkeep hinit)
  have hcount := hl₁.count
  rw [lastArmed_of_ne hc] at hactive hwords
  rw [retraces_of_ne hc, ← hl.count] at hcount
  refine ⟨hactive.tvFormat.trans hl.active.tvFormat.symm,
    hactive.black.trans hl.active.black.symm,
    hactive.nextFrameBuffer.trans hl.active.nextFrameBuffer.symm, fun g hg => ?_⟩
  rw [hd₁.words, hd.words]
  have hold := hl.words hinit
  simp only [ownWords, List.mem_cons, List.not_mem_nil, or_false] at hg
  rcases hg with rfl | rfl | rfl | rfl | rfl | rfl
  · rw [hwords.tvFormat, hold.tvFormat]
  · rw [hwords.renderWidth, hold.renderWidth]
  · rw [hwords.renderHeight, hold.renderHeight]
  · rw [hwords.xfbWidth, hold.xfbWidth]
  · rw [hwords.xfbHeight, hold.xfbHeight]
  · rw [hl₁.countWord (hkeep hinit), hl.countWord hinit, hcount]

/-- A second flush finds what the first one found. -/
theorem ViState.flushed_flushed (v : ViState) (f : ViWords) :
    (v.flushed f).flushed f = v.flushed f := by
  have hfound : (v.flushed f).foundFrameBuffer f = v.foundFrameBuffer f := by
    unfold ViState.flushed ViState.foundFrameBuffer
    dsimp only
    split
    case isTrue hsome => rfl
    case isFalse hnone =>
      by_cases hfirst : v.pendingNextFrameBuffer = 0#32 <;> simp_all
  unfold ViState.flushed at hfound ⊢
  rw [hfound]

theorem viFlush_twice (hd : Displays config s.mem f) {s₁ s₂ : Machine Memory}
    {v₁ v₂ : ViState} (h₁ : viFlush cpu (s, v) = .ret () (s₁, v₁))
    (h₂ : viFlush cpu (s₁, v₁) = .ret () (s₂, v₂)) : v₂ = v₁ := by
  obtain ⟨t₁, hrun₁, hd₁⟩ := advances_viFlush (v := v) cpu s hd
  rw [h₁] at hrun₁
  injection hrun₁ with _ hstate₁
  injection hstate₁ with hs₁ hv₁
  subst hs₁ hv₁
  obtain ⟨t₂, hrun₂, _⟩ :=
    advances_viFlush (v := v.inited.flushed (f.inited v)) cpu s₁ hd₁
  rw [h₂] at hrun₂
  injection hrun₂ with _ hstate₂
  injection hstate₂ with _ hv₂
  have hinit : (v.inited.flushed (f.inited v)).initialized = true := v.inited_initialized
  rw [ViState.inited_of_initialized hinit, ViWords.inited_of_initialized hinit,
    ViState.flushed_flushed] at hv₂
  exact hv₂

/-- After every history the active state is the one that was pending at the last retrace behind
a flush, and only a retrace changes it. -/
theorem active_state_is_the_last_armed_one (hmaps : MapsVi config) (hrun : ViRun config h s v) :
    ShowsHistory config h s v := by
  obtain ⟨f, hd, hl⟩ := run_latches hmaps hrun
  have hinit : retraces h ≠ [] → v.initialized = true := by
    intro hsome
    by_contra hnot
    exact hsome (hl.fresh (Bool.not_eq_true _ ▸ hnot))
  constructor
  case initialized => exact hinit
  case count =>
    intro hsome
    rw [hd.words, hl.countWord (hinit hsome), hl.count]
  case active => exact hl.active
  case words => exact hl.wordsShow hd
  case returns =>
    intro c cpu hwait
    obtain ⟨s', v', _, hcall, _⟩ := call_latches hd hl c hwait
    exact ⟨s', v', hcall⟩
  case steady =>
    intro hv c hc cpu s' v' hcall
    exact hl.steady hd hv hc hcall
  case flushTwice =>
    intro cpu s₁ s₂ v₁ v₂ h₁ h₂
    exact viFlush_twice hd h₁ h₂
  case rejected =>
    intro cpu s' v' hrej hcall
    obtain ⟨s₁, hreject, _⟩ := viConfigure_rejects (v := v) hd hrej
    rw [hcall] at hreject
    injection hreject with _ hstate
    injection hstate

end

/-! ## The first retrace of a Wii -/

theorem wii_mapsVi : MapsVi wiiDefaults := by
  have hall : ∀ g ∈ ViWord.all, 0x80000000 ≤ g.address.toNat ∧
      g.address.toNat + g.width.bytes ≤ 0x81800000 := by decide
  intro g
  obtain ⟨hlow, hhigh⟩ := hall g (ViWord.mem_all g)
  exact lowMemory_mapped hlow hhigh

theorem wiiBoot_displays {m : Memory} (hm : wiiBoot = some m) :
    Displays wiiDefaults m fun _ => 0#32 := by
  refine ⟨wiiBoot_serves hm, fun g => ?_⟩
  unfold viWord
  rw [wiiBoot_read hm g.width (wii_mapsVi g)]
  simp

/-- VISetBlack and VIFlush, and then a retrace. -/
theorem black_at_the_first_retrace : ∃ (h : ViHistory) (s : Machine Memory) (v : ViState),
    ViRun wiiDefaults h s v ∧ ShowsHistory wiiDefaults h s v ∧ (retraces h).length = 1 ∧
      v.black = true := by
  obtain ⟨m, hm⟩ := Option.isSome_iff_exists.mp wiiBoot_isSome
  have hd₀ : Displays wiiDefaults ((bootMachine m).setGpr 1 3 1#32).mem fun _ => 0#32 :=
    wiiBoot_displays hm
  have hrun₀ : ViRun wiiDefaults [] ((bootMachine m).setGpr 1 3 1#32) (.start fun _ => 0) :=
    .start hd₀.serves
  obtain ⟨s₁, hcall₁, hd₁⟩ := viSetBlack_runs (v := .start fun _ => 0) 1 hd₀
  have hrun₁ := ViRun.call (c := .setBlack) hrun₀ (fun h => absurd h (by decide)) hcall₁
  obtain ⟨s₂, hcall₂, hd₂⟩ := advances_viFlush 1 s₁ hd₁
  have hrun₂ := ViRun.call (c := .flush) hrun₁ (fun h => absurd h (by decide)) hcall₂
  have hidle : ∀ v, RetraceIdle s₂.mem v :=
    fun v => ⟨hd₂.words _, hd₂.words _, fun _ => hd₂.words _, fun _ => hd₂.words _⟩
  obtain ⟨s₃, hcall₃, hd₃⟩ := advances_viWaitForRetrace (Nat.succ_ne_zero 0)
    ((hidle _).words hd₂) s₂ hd₂
  have hrun₃ :=
    ViRun.call (c := .waitForRetrace) hrun₂ (fun _ => ⟨by decide, hidle _⟩) hcall₃
  have hlaw := active_state_is_the_last_armed_one wii_mapsVi hrun₃
  exact ⟨_, _, _, hrun₃, hlaw, rfl, hlaw.active.black⟩

end wii_switch
