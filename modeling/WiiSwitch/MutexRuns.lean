-- Histories of mutex calls. Any thread may call at any time, and between two calls
-- other code may do anything to the machine but write the words of the locks. From
-- mutexes that are all free, the memory tracks a history of the locks.
import WiiSwitch.MutexLaws
import WiiSwitch.WiiLayout

namespace wii_switch

open OS Routine

/-! ## Calls -/

/-- The bridge of a call. -/
def bridgeOf : LockCall Word Word → CpuPtr → OS Unit
  | .lock _ _ => osLockMutex
  | .unlock _ _ => osUnlockMutex

/-- The call is by the running thread, on the mutex in r3. -/
structure CalledAs (L : Layout) (c : LockCall Word Word) (cpu : CpuPtr) (s : Machine Memory) :
    Prop where
  cpu_ne : cpu ≠ 0
  running : (viewOf s.mem).runningContext = c.thread
  gpr3 : s.gpr cpu 3 = c.mutex
  thread_mem : c.thread ∈ L.threads
  mutex_mem : c.mutex ∈ L.mutexes

/-- A bridge with no register file, no mutex or no running thread. -/
def NoCall (cpu : CpuPtr) (s : Machine Memory) : Prop :=
  cpu = 0 ∨ s.gpr cpu 3 = 0#32 ∨ (viewOf s.mem).runningContext = 0#32

/-- The memory may change, but not the words of the locks. -/
def LeavesLocks (L : Layout) (s s' : Machine Memory) : Prop :=
  Serves L.config s'.mem ∧
    ∀ c, L.HasCell c → c.OfLocks → (viewOf s'.mem).word c = (viewOf s.mem).word c

/-- The histories from the machine `s₀`: the calls that returned, newest first, each
with the machine after it. The mirror of the interrupt flag in the current context
must lie outside the view. -/
inductive MutexRun (L : Layout) (s₀ : Machine Memory) :
    List (LockCall Word Word × Machine Memory) → Machine Memory → Prop
  | start : MutexRun L s₀ [] s₀
  | other {h : List (LockCall Word Word × Machine Memory)} {s s' : Machine Memory} :
    MutexRun L s₀ h s → LeavesLocks L s s' → MutexRun L s₀ h s'
  | idle {h : List (LockCall Word Word × Machine Memory)} {s s' : Machine Memory}
    {c : LockCall Word Word} {cpu : CpuPtr} : MutexRun L s₀ h s → NoCall cpu s →
    L.ContextClear (viewOf s.mem).currentContext → bridgeOf c cpu s = .ret () s' →
    MutexRun L s₀ h s'
  | call {h : List (LockCall Word Word × Machine Memory)} {s s' : Machine Memory}
    {c : LockCall Word Word} {cpu : CpuPtr} : MutexRun L s₀ h s → CalledAs L c cpu s →
    L.ContextClear (viewOf s.mem).currentContext → bridgeOf c cpu s = .ret () s' →
    MutexRun L s₀ ((c, s') :: h) s'

/-- Every mutex is free, and every held list is empty. -/
structure AllFree (L : Layout) (s : Machine Memory) : Prop where
  owner : ∀ m ∈ L.mutexes, (viewOf s.mem).word (.mutex .owner m) = 0#32
  count : ∀ m ∈ L.mutexes, (viewOf s.mem).word (.mutex .count m) = 0#32
  held : ∀ t ∈ L.threads, (viewOf s.mem).HeldList t []

/-! ## One call -/

section

variable {L : Layout} {v : View} {cpu : CpuPtr} {s s' : Machine Memory}

/-- A bridge changes the view as its body does. -/
theorem meets_onMutex {Q : View → Prop} {body : Word → Word → OS Unit} {m : Word}
    (hs : Represents L s.mem v) (hcpu : cpu ≠ 0) (hr3 : s.gpr cpu 3 = m) (hm0 : m ≠ 0#32)
    (hc : L.ContextClear v.currentContext)
    (hbody : ∀ irqState, Goes L .any (body m irqState) v fun _ w => Q w ∧
      w.currentContext = v.currentContext) :
    (onMutex cpu body s).Meets .any fun _ t => ∃ w, Represents L t.mem w ∧ Q w := by
  unfold onMutex
  rw [Routine.ite_apply, if_neg hcpu, bind_of (isInitialized_apply s), hs.initialized,
    Routine.ite_apply, if_pos rfl, bind_of (getGpr_apply cpu 3 s), hr3, Routine.ite_apply,
    if_neg hm0]
  have hrest : Goes L .any (do
      let irqState ← Mutex.disableInterrupts cpu
      body m irqState
      restoreInterrupts cpu irqState) v fun _ w => Q w := by
    refine goes_bind (R := fun _ w => w = v) ?_ ?_
    · refine goes_bind (goes_exchangeInterrupts hc cpu false) ?_
      rintro _ _ rfl
      rw [if_neg hcpu]
      exact goes_gets _
    rintro irqState _ rfl
    refine goes_bind (hbody irqState) ?_
    rintro _ w ⟨hQ, hctx⟩
    refine (goes_restoreInterrupts (hctx ▸ hc) cpu irqState).mono ?_
    rintro _ _ rfl
    exact hQ
  exact hrest s hs

/-- A call makes the step of the locks. -/
theorem Tracks.call {l : Locks Word Word} {c : LockCall Word Word}
    (h : Tracks L (viewOf s.mem) l) (hl : l.Good) (hL : L.Sound) (hserves : Serves L.config s.mem)
    (hcall : CalledAs L c cpu s) (hctx : L.ContextClear (viewOf s.mem).currentContext)
    (hcount : l.count c.mutex < 2 ^ 32) (hret : bridgeOf c cpu s = .ret () s') :
    Serves L.config s'.mem ∧ ∃ l', l.step c = some l' ∧ Tracks L (viewOf s'.mem) l' := by
  have hs := represents_viewOf hL hserves
  have hm0 := hL.mutex_ne_zero hcall.mutex_mem
  have hmeets : (bridgeOf c cpu s).Meets .any fun _ t => ∃ w, Represents L t.mem w ∧
      ∃ l', l.step c = some l' ∧ Tracks L w l' := by
    cases c with
    | lock t m =>
      refine meets_onMutex hs hcall.cpu_ne hcall.gpr3 hm0 hctx fun irqState => ?_
      refine (goes_lock h hl hL hcall.thread_mem hcall.mutex_mem hcall.running).mono ?_
      exact fun _ w hw => ⟨hw.2, hw.1⟩
    | unlock t m =>
      refine meets_onMutex hs hcall.cpu_ne hcall.gpr3 hm0 hctx fun irqState => ?_
      refine (goes_unlock h hl hL hcall.thread_mem hcall.mutex_mem hcall.running hcount).mono ?_
      exact fun _ w hw => ⟨hw.1.2, hw.1.1⟩
  rw [hret] at hmeets
  obtain ⟨w, hw, l', hstep, htracks⟩ := hmeets
  refine ⟨hw.serves, l', hstep, htracks.congr (hl.step hstep) fun c hc _ => ?_⟩
  exact hw.viewOf_word hc

/-- The unlock of a mutex that another thread owns, or no thread. -/
theorem Tracks.unlock_other {l : Locks Word Word} {t m : Word}
    (h : Tracks L (viewOf s.mem) l) (hl : l.Good) (hL : L.Sound) (hserves : Serves L.config s.mem)
    (hcall : CalledAs L (.unlock t m) cpu s) (hctx : L.ContextClear (viewOf s.mem).currentContext)
    (hcount : l.count m < 2 ^ 32) (hown : l.owner m ≠ some t)
    (hret : osUnlockMutex cpu s = .ret () s') : LeavesLocks L s s' := by
  have hmeets : (osUnlockMutex cpu s).Meets .any fun _ u => ∃ w, Represents L u.mem w ∧
      w = viewOf s.mem := by
    refine meets_onMutex (represents_viewOf hL hserves) hcall.cpu_ne hcall.gpr3
      (hL.mutex_ne_zero hcall.mutex_mem) hctx fun irqState => ?_
    refine (goes_unlock h hl hL hcall.thread_mem hcall.mutex_mem hcall.running hcount).mono ?_
    exact fun _ w hw => ⟨hw.2 hown, hw.1.1⟩
  rw [hret] at hmeets
  obtain ⟨w, hw, rfl⟩ := hmeets
  exact ⟨hw.serves, fun c hc _ => hw.viewOf_word hc⟩

theorem goes_allMapped32 {C : Coop.Contract (Machine Memory) Stop Away} (as : List Word) :
    Goes L C (allMapped32 as) v fun _ w => w = v := by
  induction as with
  | nil => exact goes_pure rfl
  | cons a as ih =>
    refine goes_bind (R := fun _ w => w = v) ?_ ?_
    · refine goes_bind (goes_gets _) ?_
      rintro _ _ rfl
      split
      · exact goes_gets _
      · exact goes_pure rfl
    rintro _ _ rfl
    split
    · exact ih
    · exact goes_pure rfl

/-- With no running thread, the body of a bridge ends at once. -/
theorem goes_idle_body (hrun : v.runningContext = 0#32) (c : LockCall Word Word)
    (cpu : CpuPtr) (m irqState : Word) :
    Goes L .any ((match c with
      | .lock _ _ => Mutex.lock cpu
      | .unlock _ _ => Mutex.unlock cpu) m irqState) v fun _ w => w = v := by
  have hread := runs_read (v := v) (L := L)
    (c := .global kOSRunningContextAddr) runningContext_mem rfl
  rw [show v.word (.global kOSRunningContextAddr) = 0#32 from hrun] at hread
  cases c with
  | lock _ _ =>
    refine goes_bind (goes_allMapped32 _) ?_
    rintro b _ rfl
    cases b with
    | false => exact goes_abort _ _
    | true => exact hread.then (goes_pure rfl)
  | unlock _ _ =>
    refine goes_bind (goes_allMapped32 _) ?_
    rintro b _ rfl
    cases b with
    | false => exact goes_abort _ _
    | true => exact hread.then (goes_pure rfl)

theorem bridgeOf_eq (c : LockCall Word Word) (cpu : CpuPtr) :
    bridgeOf c cpu = onMutex cpu (match c with
      | .lock _ _ => Mutex.lock cpu
      | .unlock _ _ => Mutex.unlock cpu) := by
  cases c <;> rfl

/-- Such a bridge leaves the locks. -/
theorem NoCall.leavesLocks {c : LockCall Word Word} (h : NoCall cpu s) (hL : L.Sound)
    (hserves : Serves L.config s.mem) (hctx : L.ContextClear (viewOf s.mem).currentContext)
    (hret : bridgeOf c cpu s = .ret () s') : LeavesLocks L s s' := by
  have hs := represents_viewOf hL hserves
  have hmeets : (bridgeOf c cpu s).Meets .any fun _ u => ∃ w, Represents L u.mem w ∧
      w = viewOf s.mem := by
    rw [bridgeOf_eq]
    by_cases hcpu : cpu = 0
    · subst hcpu
      exact ⟨_, hs, rfl⟩
    by_cases hm0 : s.gpr cpu 3 = 0#32
    · unfold onMutex
      rw [Routine.ite_apply, if_neg hcpu, bind_of (isInitialized_apply s), hs.initialized,
        Routine.ite_apply, if_pos rfl, bind_of (getGpr_apply cpu 3 s), hm0]
      exact ⟨_, hs, rfl⟩
    have hrun : (viewOf s.mem).runningContext = 0#32 := (h.resolve_left hcpu).resolve_left hm0
    refine meets_onMutex hs hcpu rfl hm0 hctx fun irqState => ?_
    refine (goes_idle_body hrun c cpu _ irqState).mono ?_
    rintro _ _ rfl
    exact ⟨rfl, rfl⟩
  rw [hret] at hmeets
  obtain ⟨w, hw, rfl⟩ := hmeets
  exact ⟨hw.serves, fun c hc _ => hw.viewOf_word hc⟩

end

/-! ## Histories -/

/-- The mutex has an owner. -/
def hasOwner (m : Word) (s : Machine Memory) : Bool :=
    (viewOf s.mem).word (.mutex .owner m) ≠ 0#32

/-- The calls since the mutex was free. -/
def callsSinceFree (m : Word) (h : List (LockCall Word Word × Machine Memory)) :
    List (LockCall Word Word) := Locks.since (hasOwner m) h

/-- The mutexes, their counts and the held lists after a history. -/
structure MutexesAgree (L : Layout) (h : List (LockCall Word Word × Machine Memory))
    (s : Machine Memory) (held : Word → List Word) : Prop where
  lists : ∀ t ∈ L.threads, (viewOf s.mem).HeldList t (held t) ∧
    ∀ m ∈ held t, m ∈ L.mutexes
  in_order : ∀ t ∈ L.threads, (held t).Pairwise fun a b =>
    (callsSinceFree b h).length < (callsSinceFree a h).length
  free_or_owned : ∀ m ∈ L.mutexes,
    ((viewOf s.mem).word (.mutex .owner m) = 0#32 ∧
      (viewOf s.mem).word (.mutex .count m) = 0#32 ∧
      ∀ t ∈ L.threads, m ∉ held t) ∨
    ∃ t ∈ L.threads, (viewOf s.mem).word (.mutex .owner m) = t ∧
      1 ≤ ((viewOf s.mem).word (.mutex .count m)).toNat ∧
      ((viewOf s.mem).word (.mutex .count m)).toNat + (callsSinceFree m h).count (.unlock t m) =
        (callsSinceFree m h).count (.lock t m) ∧
      (held t).count m = 1 ∧ ∀ u ∈ L.threads, u ≠ t → m ∉ held u

section

variable {L : Layout} {s₀ s : Machine Memory} {h : List (LockCall Word Word × Machine Memory)}

theorem Tracks.hasOwner_eq {l : Locks Word Word} (ht : Tracks L (viewOf s.mem) l) (hL : L.Sound)
    {m : Word} (hm : m ∈ L.mutexes) : hasOwner m s = (l.owner m).isSome := by
  rw [hasOwner, ht.owner m hm]
  cases ho : l.owner m with
  | none => simp
  | some t => simpa using hL.thread_ne_zero (ht.owned m t ho).2

theorem AllFree.tracks (hfree : AllFree L s) : Tracks L (viewOf s.mem) .free where
  owned := fun _ _ hm => by cases hm
  owner := hfree.owner
  count := hfree.count
  held := hfree.held

/-- The memory after a history tracks the locks after the same history. -/
theorem MutexRun.tracks (hrun : MutexRun L s₀ h s) (hL : L.Sound)
    (hserves : Serves L.config s₀.mem) (hfree : AllFree L s₀) (hlen : h.length < 2 ^ 32) :
    Serves L.config s.mem ∧ ∃ hl l, Locks.Run hl l ∧ Tracks L (viewOf s.mem) l ∧
      List.Forall₂ (fun e e' => e.1 = e'.1 ∧
        ∀ m ∈ L.mutexes, hasOwner m e.2 = (e'.2.owner m).isSome) h hl := by
  induction hrun with
  | start => exact ⟨hserves, [], .free, .start, hfree.tracks, .nil⟩
  | other _ hleaves ih =>
    obtain ⟨_, hl, l, hr, htracks, hsame⟩ := ih hlen
    exact ⟨hleaves.1, hl, l, hr, htracks.congr hr.good hleaves.2, hsame⟩
  | idle _ hno hctx hret ih =>
    obtain ⟨hsv, hl, l, hr, htracks, hsame⟩ := ih hlen
    have hleaves := hno.leavesLocks hL hsv hctx hret
    exact ⟨hleaves.1, hl, l, hr, htracks.congr hr.good hleaves.2, hsame⟩
  | @call h _ _ c _ _ hcall hctx hret ih =>
    rw [List.length_cons] at hlen
    obtain ⟨hsv, hl, l, hr, htracks, hsame⟩ := ih (by omega)
    have hcount : l.count c.mutex < 2 ^ 32 := by
      have := hr.count_le c.mutex
      have := hsame.length_eq
      omega
    obtain ⟨hsv', l', hstep, htracks'⟩ := htracks.call hr.good hL hsv hcall hctx hcount hret
    exact ⟨hsv', _, l', hr.call hstep, htracks',
      .cons ⟨rfl, fun m hm => htracks'.hasOwner_eq hL hm⟩ hsame⟩

/-- Over every history of fewer than 2^32 calls from free mutexes, a mutex is free
with count 0 and on no list, or it has one owner, which holds it once and has locked it
as often as the count says more than it has unlocked it; each held list is well linked
and in the order of acquisition. An unlock by another thread changes no lock. -/
theorem the_mutexes_agree_over_every_history (hL : L.Sound) (hserves : Serves L.config s₀.mem)
    (hfree : AllFree L s₀) (hrun : MutexRun L s₀ h s) (hlen : h.length < 2 ^ 32) :
    (∃ held, MutexesAgree L h s held) ∧
    ∀ t m cpu s', CalledAs L (.unlock t m) cpu s →
      L.ContextClear (viewOf s.mem).currentContext →
      (viewOf s.mem).word (.mutex .owner m) ≠ t → osUnlockMutex cpu s = .ret () s' →
      LeavesLocks L s s' := by
  obtain ⟨hsv, hl, l, hr, htracks, hsame⟩ := hrun.tracks hL hserves hfree hlen
  have hgood := hr.good
  have hsince : ∀ m ∈ L.mutexes, callsSinceFree m h = Locks.sinceFree m hl := fun m hm =>
    Locks.since_congr (hsame.imp fun _ _ he => ⟨he.1, he.2 m hm⟩)
  have hcount : ∀ m, l.count m < 2 ^ 32 := fun m => by
    have := hr.count_le m
    have := hsame.length_eq
    omega
  refine ⟨⟨l.held, ?_, ?_, ?_⟩, ?_⟩
  · exact fun t ht => ⟨htracks.held t ht, fun m hm => htracks.mem_mutexes hgood hm⟩
  · refine fun t _ => (hr.held_order t).imp_of_mem fun {a b} ha hb hab => ?_
    rw [hsince a (htracks.mem_mutexes hgood ha), hsince b (htracks.mem_mutexes hgood hb)]
    exact hab
  · intro m hm
    rw [htracks.owner m hm, htracks.count m hm, hsince m hm, BitVec.toNat_ofNat,
      Nat.mod_eq_of_lt (hcount m)]
    cases ho : l.owner m with
    | none =>
      refine Or.inl ⟨rfl, by rw [hgood.count_free ho], fun t _ hmt => ?_⟩
      rw [(hgood.held_iff t m).mp hmt] at ho
      cases ho
    | some t =>
      refine Or.inr ⟨t, (htracks.owned m t ho).2, rfl, hgood.count_owned ho,
        hr.count_eq ho, ?_, ?_⟩
      · exact List.count_eq_one_of_mem (hgood.nodup t) ((hgood.held_iff t m).mpr ho)
      · intro u _ hut hmu
        rw [(hgood.held_iff u m).mp hmu, Option.some.injEq] at ho
        exact hut ho
  · intro t m cpu s' hcall hctx hne hret
    refine htracks.unlock_other hgood hL hsv hcall hctx (hcount m) (fun ho => hne ?_) hret
    rw [htracks.owner m hcall.mutex_mem, ho]
    rfl

end

/-! ## A history of two locks -/

/-- One thread and two mutexes. -/
def pairLayout : Layout := wiiLayout [0x80400000#32] [] [0x80401000#32, 0x80401020#32]

theorem pairLayout_sound : pairLayout.Sound := wiiLayout_sound (by decide +kernel)

/-- A booted Wii on which the thread runs, with the mutex in r3. -/
def readyMachine (m : Memory) (mutex : Word) : Machine Memory :=
  (bootMachine m).setGpr 1 3 mutex

/-- The thread locks the first mutex, and then the second one. -/
def lockBoth : Option (Memory × Memory × Machine Memory × Machine Memory) := do
  let m ← wiiBoot
  let m₁ ← m.write32 kOSRunningContextAddr 0x80400000#32
  let (_, s₁) ← (osLockMutex 1 (readyMachine m₁ 0x80401000#32)).ended
  let (_, s₂) ← (osLockMutex 1 (s₁.setGpr 1 3 0x80401020#32)).ended
  return (m, m₁, s₁, s₂)

theorem lockBoth_reads : (lockBoth.map fun r => decide (
      [0x80401008#32, 0x8040100C#32, 0x80401028#32, 0x8040102C#32, 0x804002F4#32,
        0x804002F8#32].map r.1.read32 = List.replicate 6 (some 0#32) ∧
      [kOSRunningContextAddr, kOSCurrentContextAddr].map r.2.1.read32 =
        [some 0x80400000#32, some 0#32] ∧
      [kOSRunningContextAddr, kOSCurrentContextAddr].map r.2.2.1.mem.read32 =
        [some 0x80400000#32, some 0#32] ∧
      r.2.2.2.mem.read32 0x80401028#32 = some 0x80400000#32)) = some true := by
  decide +kernel

/-- The law over the history. -/
theorem the_mutexes_agree_after_two_locks : ∃ h s held, h.length = 2 ∧
    MutexesAgree pairLayout h s held ∧
      (viewOf s.mem).word (.mutex .owner 0x80401020#32) = 0x80400000#32 := by
  obtain ⟨⟨_, _, _, _⟩, hsome, hread⟩ := Option.map_eq_some_iff.mp lockBoth_reads
  obtain ⟨hfree, hrun₁, hrun₂, hown⟩ := of_decide_eq_true hread
  simp only [List.map_cons, List.map_nil, List.replicate, List.cons.injEq,
    and_true] at hfree hrun₁ hrun₂
  simp only [lockBoth, Option.bind_eq_bind, Option.bind_eq_some_iff, Prod.exists, Option.pure_def,
    Option.some.injEq, Prod.mk.injEq] at hsome
  obtain ⟨m, hm, m₁, hw, _, s₁, h₁, _, s₂, h₂, rfl, rfl, rfl, rfl⟩ := hsome
  obtain ⟨ho₁, hc₁, ho₂, hc₂, hhead, htail⟩ := hfree
  have hserves := wiiBoot_serves hm
  have hcell : pairLayout.HasCell (.global kOSRunningContextAddr) := runningContext_mem
  obtain ⟨m', hw', hrep⟩ :=
    (represents_viewOf pairLayout_sound hserves).write hcell 0x80400000#32
  have hmm : m' = m₁ := Option.some.inj (hw'.symm.trans hw)
  subst hmm
  have hother : LeavesLocks pairLayout (bootMachine m) (readyMachine m' 0x80401000#32) := by
    refine ⟨hrep.serves, fun c hc hlock => (hrep.viewOf_word hc).trans ?_⟩
    have hne : c ≠ .global kOSRunningContextAddr := by
      rintro rfl
      exact hlock
    rw [View.put_word, if_neg hne]
  have hfree : AllFree pairLayout (bootMachine m) := by
    refine ⟨fun k hk => ?_, fun k hk => ?_, fun t ht => ?_⟩
    · rcases List.mem_pair.mp hk with rfl | rfl
      · exact viewOf_word ho₁
      · exact viewOf_word ho₂
    · rcases List.mem_pair.mp hk with rfl | rfl
      · exact viewOf_word hc₁
      · exact viewOf_word hc₂
    · rw [List.mem_singleton.mp ht]
      exact ⟨⟨viewOf_word (c := .thread .heldHead _) hhead,
        viewOf_word (c := .thread .heldTail _) htail⟩, List.nodup_singleton _⟩
  have hclear : ∀ {s : Machine Memory}, s.mem.read32 kOSCurrentContextAddr = some 0#32 →
      pairLayout.ContextClear (viewOf s.mem).currentContext :=
    fun h => Or.inl (viewOf_word (c := .global kOSCurrentContextAddr) h)
  have hcall₁ : CalledAs pairLayout (.lock 0x80400000#32 0x80401000#32) 1
      (readyMachine m' 0x80401000#32) :=
    ⟨by decide, viewOf_word (c := .global kOSRunningContextAddr) hrun₁.1, rfl,
      List.mem_singleton_self _, List.mem_cons_self⟩
  have hfirst : MutexRun pairLayout (bootMachine m)
      [(.lock 0x80400000#32 0x80401000#32, s₁)] s₁ :=
    (MutexRun.start.other hother).call hcall₁ (hclear hrun₁.2) (Coop.ret_of_ended h₁)
  have hserves₁ : Serves wiiDefaults s₁.mem :=
    (hfirst.tracks pairLayout_sound hserves hfree (by simp)).1
  have hother₁ : LeavesLocks pairLayout s₁ (s₁.setGpr 1 3 0x80401020#32) :=
    ⟨hserves₁, fun _ _ _ => rfl⟩
  have hcall₂ : CalledAs pairLayout (.lock 0x80400000#32 0x80401020#32) 1
      (s₁.setGpr 1 3 0x80401020#32) :=
    ⟨by decide, viewOf_word (c := .global kOSRunningContextAddr) hrun₂.1,
      by simp [LockCall.mutex],
      List.mem_singleton_self _, List.mem_cons_of_mem _ List.mem_cons_self⟩
  have hsecond := (hfirst.other hother₁).call hcall₂ (hclear hrun₂.2) (Coop.ret_of_ended h₂)
  obtain ⟨⟨held, hagree⟩, _⟩ :=
    the_mutexes_agree_over_every_history pairLayout_sound hserves hfree
    hsecond (by simp)
  exact ⟨_, s₂, held, rfl, hagree, viewOf_word (c := .mutex .owner _) hown⟩

end wii_switch
