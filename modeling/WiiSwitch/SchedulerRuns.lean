-- Whole runs of the scheduler. Any threads create threads, resume them, sleep on wait
-- queues and select; each call that hands the machine over waits while the others run,
-- and guest code stores beside the scheduler between the calls.
import WiiSwitch.ThreadBirth
import WiiSwitch.ResumeReturn

namespace wii_switch

open OS Routine CreateThread

/-! ## The operations -/

/-- The live threads. -/
structure ThreadWorld where
  live : Set Word

instance : Preorder ThreadWorld where
  le g g' := g.live ⊆ g'.live
  le_refl _ := Set.Subset.rfl
  le_trans _ _ _ h h' := h.trans h'

/-- A call that leaves the live threads. -/
def schedulerCall (code : OS Unit) : Coop.Operation ThreadWorld (Machine Memory) Stop Away where
  code := code
  note g _ _ := g
  grow g _ := g

/-- A call of OSCreateThread for the block `t`; the thread is live when the call gives 1. -/
def createCall (ctx : CpuPtr)
    (t : Word) : Coop.Operation ThreadWorld (Machine Memory) Stop Away where
  code := osCreateThread ctx
  note g _ _ := g
  grow g s := if s.gpr (cpuOf ctx) 3 = 1#32 then ⟨insert t g.live⟩ else g

/-- The calls that a thread may begin: of a new thread, of a live one, of a wait queue. -/
inductive BeginsCall (L : Layout) (g : ThreadWorld) (s : Machine Memory) :
    Coop.Operation ThreadWorld (Machine Memory) Stop Away → Prop
  | create (ctx : CpuPtr) :
    (∀ v, Represents L s.mem v → Birth L g.live v (arguments (s.cpus (cpuOf ctx)))) →
    BeginsCall L g s (createCall ctx (arguments (s.cpus (cpuOf ctx))).threadPtr)
  | resume (fuel : Nat) (ctx : CpuPtr) :
    s.gpr (cpuOf ctx) 3 = 0#32 ∨ s.gpr (cpuOf ctx) 3 ∈ g.live →
    BeginsCall L g s (schedulerCall (osResumeThread fuel ctx))
  | sleep (fuel : Nat) (ctx : CpuPtr) :
    s.gpr (cpuOf ctx) 3 = 0#32 ∨
      (∀ v, Represents L s.mem v → WaitQueue L g.live v (s.gpr (cpuOf ctx) 3)) →
    BeginsCall L g s (schedulerCall (osSleepThread fuel ctx))
  | select (fuel : Nat) (ctx : CpuPtr) : BeginsCall L g s (schedulerCall (selectThread fuel ctx))

/-- Guest code between the calls stores beside the scheduler. -/
def StoresBeside (L : Layout) (g : ThreadWorld) (s : Machine Memory) (g' : ThreadWorld)
    (s' : Machine Memory) : Prop :=
  g' = g ∧ ∀ v, Represents L s.mem v → ∃ w, Represents L s'.mem w ∧
    Undisturbed L g.live v w

/-- The scheduler of the live threads is in order. -/
def Orderly (L : Layout) (g : ThreadWorld) (v : View) : Prop := InOrder L g.live v

/-- The runs of the scheduler, by any threads. -/
abbrev SchedulerRun (L : Layout) :
    Coop.Pool ThreadWorld (Machine Memory) Stop Away → Prop :=
  Coop.PoolRun (GivesAway fun _ => False) (AnswersCall L) (Shows L (Orderly L)) (BeginsCall L)
    (StoresBeside L)

/-! ## Every call keeps the order -/

section

variable {L : Layout} {g : ThreadWorld} {v w : View} {s s' : Machine Memory} {ctx : CpuPtr}
  {fuel : Nat} {r : Word}

/-- The contract of the threads: wherever one hands the machine over, the scheduler is in
order. -/
abbrev scheduling (L : Layout) : Coop.WorldContract ThreadWorld (Machine Memory) Away :=
  Coop.sharing (GivesAway fun _ => False) (AnswersCall L) (Shows L (Orderly L)) fun g _ _ => g

theorem scheduling_leaves (f : Word) : LeavesView L (scheduling L) g f :=
  leavesView_sharing id id

theorem scheduling_handsOver (h : InOrder L g.live v) :
    HandsOverIn L (scheduling L) g v fun g' w => g ≤ g' ∧ Orderly L g' w :=
  handsOverIn_sharing (fun _ _ _ _ => rfl) (fun _ _ _ => rfl) h

theorem schedulerCall_grows (code : OS Unit) : (schedulerCall code).Grows :=
  ⟨fun _ _ _ => le_rfl, fun _ _ => le_rfl⟩

theorem createCall_grows (ctx : CpuPtr) (t : Word) : (createCall ctx t).Grows := by
  refine ⟨fun _ _ _ => le_rfl, fun g s => ?_⟩
  show g ≤ if s.gpr (cpuOf ctx) 3 = 1#32 then ⟨insert t g.live⟩ else g
  split
  · exact Set.subset_insert t g.live
  · exact le_rfl

theorem selectThread_keeps (hL : L.Sound) (h : InOrder L g.live v) (hs : Represents L s.mem v) :
    (selectThread fuel ctx s).MeetsIn (scheduling L)
      (fun g' _ t => Shows L (Orderly L) g' t) g := by
  obtain ⟨W, ls, r, hrun⟩ := h
  have hleaves : LeavesView L (scheduling L) g v.callback := scheduling_leaves _
  have hgoes : GoesIn L (scheduling L) (selectThread fuel ctx) v
      (fun g' _ w => Orderly L g' w) g :=
    goesIn_selectThread hL hrun.atSelect hleaves
      (fun _ _ _ hd => (scheduling_handsOver (hd.reordered hL hrun.atSelect).inOrder).mono
        fun _ _ hw => hw.2)
      (fun _ => ⟨W, ls, r, hrun⟩) ctx
  exact hgoes s hs

theorem osSleepThread_keeps (hL : L.Sound) (h : InOrder L g.live v) (hs : Represents L s.mem v)
    (hq : WaitQueue L g.live v (s.gpr (cpuOf ctx) 3)) :
    (osSleepThread fuel ctx s).MeetsIn (scheduling L)
      (fun g' _ t => Shows L (Orderly L) g' t) g := by
  obtain ⟨W, ls, r, hrun⟩ := h
  have hback : ∀ g' w, g ≤ g' ∧ Orderly L g' w →
      r ∈ ThreadWorld.live g' ∧ InOrder L (ThreadWorld.live g') w := by
    rintro g' w ⟨hsub, hw⟩
    exact ⟨hsub hrun.live, hw⟩
  refine (osSleepThread_meetsIn hL hrun hq (scheduling_leaves v.callback)
    (fun w hw => scheduling_handsOver hw.inOrder) hback hs rfl).mono ?_
  rintro g' _ t ⟨w, hw, ⟨rfl, rfl⟩ | ⟨u, _, hu⟩⟩
  · exact ⟨w, hw, W, ls, r, hrun⟩
  · exact ⟨w, hw, hu.inOrder⟩

theorem osResumeThread_keeps (hL : L.Sound) (h : InOrder L g.live v) (hs : Represents L s.mem v)
    (ht : s.gpr (cpuOf ctx) 3 ∈ g.live) :
    (osResumeThread fuel ctx s).MeetsIn (scheduling L)
      (fun g' _ t => Shows L (Orderly L) g' t) g := by
  obtain ⟨W, ls, r, hrun⟩ := h
  refine osResumeThread_meetsIn (Q := fun g' w => Orderly L g' w) hL hrun ht
    (scheduling_leaves v.callback) ?_ ?_ (fun g' w hw => ⟨g'.live, hw⟩) hs rfl
  · intro ls' w u _ _ _ hres hd
    have hu := hd.reordered hL (hres.running hL hrun ht).atSelect
    exact (scheduling_handsOver hu.inOrder).mono fun _ _ hw => hw.2
  · exact fun ls' w hres => ⟨W, ls', r, hres.running hL hrun ht⟩

theorem osCreateThread_keeps (hL : L.Sound) (h : InOrder L g.live v) (hs : Represents L s.mem v)
    (ha : Birth L g.live v (arguments (s.cpus (cpuOf ctx)))) :
    (osCreateThread ctx s).MeetsIn (scheduling L) (fun g' _ t => Shows L (Orderly L)
      ((createCall ctx (arguments (s.cpus (cpuOf ctx))).threadPtr).grow g' t) t) g := by
  have hmeets := osCreateThread_meets (C := (scheduling L).still g)
    (fun _ _ => still_stops _ _) hL ha ?_ (h.contextClear hL) hs
  · refine hmeets.meetsIn.mono ?_
    rintro _ _ t ⟨rfl, ⟨h1, w, hw, hmade⟩ | ⟨h0, hv⟩⟩
    · refine ⟨w, hw, ?_⟩
      show Orderly L (if t.gpr (cpuOf ctx) 3 = 1#32 then _ else _) w
      rw [if_pos h1]
      exact hmade.inOrder ha.thread h
    · refine ⟨v, hv, ?_⟩
      show Orderly L (if t.gpr (cpuOf ctx) 3 = 1#32 then _ else _) v
      rw [if_neg (by rw [h0]; decide)]
      exact h
  · obtain ⟨W, ls, r, hrun⟩ := h
    exact hrun.scheduled.tail

/-- Every call that begins in order keeps the order. -/
theorem BeginsCall.keeps {x : Coop.Operation ThreadWorld (Machine Memory) Stop Away}
    (hx : BeginsCall L g s x) (hL : L.Sound) (h : Shows L (Orderly L) g s) :
    x.Grows ∧ (x.code s).MeetsIn
      (Coop.sharing (GivesAway fun _ => False) (AnswersCall L) (Shows L (Orderly L)) x.note)
      (fun g' _ t => Shows L (Orderly L) (x.grow g' t) t) g := by
  obtain ⟨v, hs, hv⟩ := h
  cases hx with
  | create ctx ha => exact ⟨createCall_grows _ _, osCreateThread_keeps hL hv hs (ha v hs)⟩
  | resume fuel ctx ht =>
    refine ⟨schedulerCall_grows _, ?_⟩
    rcases ht with h0 | ht
    · show (osResumeThread fuel ctx s).MeetsIn _ _ _
      unfold osResumeThread
      rw [bind_of (getGpr_apply ..), h0, Routine.ite_apply, if_pos rfl]
      exact ⟨v, hs, hv⟩
    · exact osResumeThread_keeps hL hv hs ht
  | sleep fuel ctx hq =>
    refine ⟨schedulerCall_grows _, ?_⟩
    rcases hq with h0 | hq
    · show (osSleepThread fuel ctx s).MeetsIn _ _ _
      unfold osSleepThread
      rw [bind_of (getGpr_apply ..), h0, Routine.ite_apply, if_pos rfl]
      exact ⟨v, hs, hv⟩
    · exact osSleepThread_keeps hL hv hs (hq v hs)
  | select fuel ctx => exact ⟨schedulerCall_grows _, selectThread_keeps hL hv hs⟩

end

/-! ## Every run keeps the order -/

section

variable {L : Layout} {p : Coop.Pool ThreadWorld (Machine Memory) Stop Away}

/-- The threads agree on it at each step. -/
theorem SchedulerRun.shows (hL : L.Sound) (h : SchedulerRun L p) :
    Shows L (Orderly L) p.world p.state := by
  refine (Coop.PoolRun.keeps (Shows L (Orderly L)) ?_ ?_ ?_ h).1
  · exact fun _ _ hv => hv
  · rintro g s g' s' ⟨v, hs, W, ls, r, hrun⟩ ⟨rfl, hstep⟩
    obtain ⟨w, hw, hbeside⟩ := hstep v hs
    exact ⟨le_rfl, w, hw, _, ls, r, hrun.undisturbed hbeside⟩
  · exact fun _ _ _ hv hx => hx.keeps hL hv

end

/-! ## A run on a Wii -/

end wii_switch
