-- The invariant of the scheduler, on views. Every queue of a set is a well-formed ring
-- whose members name it in their queue field, so a thread is in one of them at most.
-- The run queues hold ready threads, the others hold waiting ones.
import WiiSwitch.Selection

namespace wii_switch

open OS Routine Ring SelectThread Levels

/-! ## Lists of threads -/

/-- The queues of `W` with their members. -/
structure Lists (v : View) (W : Set Word) (ls : Word → List Word) : Prop where
  queue : ∀ q ∈ W, v.Queue q (ls q)
  field : ∀ q ∈ W, ∀ t ∈ ls q, v.word (.thread .queue t) = q

/-- The thread is in none of the queues. -/
def Unlinked (W : Set Word) (ls : Word → List Word) (t : Word) : Prop := ∀ q ∈ W, t ∉ ls q

section

variable {v w : View} {W : Set Word} {ls : Word → List Word} {q q' t u n : Word}
  {xs ys : List Word}

/-- A thread is in one queue at most. -/
theorem Lists.unique (h : Lists v W ls) (hq : q ∈ W) (hq' : q' ∈ W) (ht : t ∈ ls q)
    (ht' : t ∈ ls q') : q = q' := (h.field q hq t ht).symm.trans (h.field q' hq' t ht')

theorem Lists.link (h : Lists v W ls) (hq : q ∈ W) (hls : ls q = xs ++ ys)
    (hn : n = first ys 0#32) (ht0 : t ≠ 0#32) (hout : Unlinked W ls t) :
    Lists (v.linkBefore q t n) W (Function.update ls q (xs ++ t :: ys)) := by
  have hsame : v.Queue q (xs ++ ys) := hls ▸ h.queue q hq
  refine ⟨fun q' hq' => ?_, fun q' hq' u hu => ?_⟩
  · by_cases hqq : q' = q
    · subst hqq
      rw [Function.update_self]
      exact hsame.linkBefore ht0 (hls ▸ hout q' hq) hn
    · rw [Function.update_of_ne hqq]
      refine (h.queue q' hq').linkBefore_other hqq hsame hn ht0 (hout q' hq') fun x hx hx' => ?_
      exact hqq (h.unique hq' hq hx' (hls ▸ hx))
  · have hold : u ≠ t → ∀ {p}, p ∈ W → u ∈ ls p →
        (v.linkBefore q t n).word (.thread .queue u) = p := by
      intro hut p hp hu
      rw [View.linkBefore_plain (by simp [Cell.Plain]) (by simpa using hut)]
      exact h.field p hp u hu
    by_cases hqq : q' = q
    · subst hqq
      rw [Function.update_self] at hu
      by_cases hut : u = t
      · subst hut
        exact View.linkBefore_queue ..
      · refine hold hut hq ?_
        rw [hls]
        simp only [List.mem_append, List.mem_cons] at hu ⊢
        tauto
    · rw [Function.update_of_ne hqq] at hu
      exact hold (fun hut => hout q' hq' (hut ▸ hu)) hq' hu

/-- The thread out of its queue, in any view that agrees but for the thread. -/
theorem Lists.unlink (h : Lists v W ls) (hq : q ∈ W) (hls : ls q = xs ++ t :: ys)
    (hn : ∀ q' x, x ≠ t → w.nextOf q' x = (v.unlink q t).nextOf q' x)
    (hp : ∀ q' x, x ≠ t → w.prevOf q' x = (v.unlink q t).prevOf q' x)
    (hf : ∀ u, u ≠ t → w.word (.thread .queue u) = v.word (.thread .queue u)) :
    Lists w W (Function.update ls q (xs ++ ys)) := by
  have hsame : v.Queue q (xs ++ t :: ys) := hls ▸ h.queue q hq
  have hnd := (List.nodup_cons.mp hsame.2).2
  refine ⟨fun q' hq' => ?_, fun q' hq' u hu => ?_⟩
  · by_cases hqq : q' = q
    · subst hqq
      rw [Function.update_self]
      exact hsame.unlink (hn q') (hp q')
    · rw [Function.update_of_ne hqq]
      refine (h.queue q' hq').unlink_other hqq hsame (fun x hx hx' => ?_) (hn q') (hp q')
      exact hqq (h.unique hq' hq hx' (hls ▸ hx))
  · have hut : u ≠ t := by
      rintro rfl
      by_cases hqq : q' = q
      · subst hqq
        rw [Function.update_self] at hu
        rw [List.nodup_append] at hnd
        grind
      · rw [Function.update_of_ne hqq] at hu
        exact hqq (h.unique hq' hq hu (by rw [hls]; simp))
    rw [hf u hut]
    by_cases hqq : q' = q
    · subst hqq
      rw [Function.update_self] at hu
      refine h.field q' hq u ?_
      rw [hls]
      simp only [List.mem_append, List.mem_cons] at hu ⊢
      tauto
    · rw [Function.update_of_ne hqq] at hu
      exact h.field q' hq' u hu

/-- The thread that was taken out is in no queue. -/
theorem Lists.unlinked (h : Lists v W ls) (hq : q ∈ W) (hls : ls q = xs ++ t :: ys) :
    Unlinked W (Function.update ls q (xs ++ ys)) t := by
  have hnd := (List.nodup_cons.mp (hls ▸ (h.queue q hq).2)).2
  intro q' hq' ht
  by_cases hqq : q' = q
  · subst hqq
    rw [Function.update_self] at ht
    rw [List.nodup_append] at hnd
    grind
  · rw [Function.update_of_ne hqq] at ht
    exact hqq (h.unique hq' hq ht (by rw [hls]; simp))

theorem Lists.congr {W' : Set Word} (h : Lists v W ls) (hW : W' ⊆ W)
    (hhead : ∀ q ∈ W', w.word (.head q) = v.word (.head q))
    (htail : ∀ q ∈ W', w.word (.tail q) = v.word (.tail q))
    (hthread : ∀ q ∈ W', ∀ t ∈ ls q, w.word (.thread .next t) = v.word (.thread .next t) ∧
      w.word (.thread .prev t) = v.word (.thread .prev t) ∧
      w.word (.thread .queue t) = v.word (.thread .queue t)) : Lists w W' ls := by
  refine ⟨fun q hq => (h.queue q (hW hq)).congr (fun x hx => ?_) fun x hx => ?_,
    fun q hq t ht => ?_⟩
  · by_cases hx0 : x = 0#32
    · subst hx0
      exact hhead q hq
    · simp only [View.nextOf, nextCell_thread q hx0]
      exact (hthread q hq x ((List.mem_cons.mp hx).resolve_left hx0)).1
  · by_cases hx0 : x = 0#32
    · subst hx0
      exact htail q hq
    · simp only [View.prevOf, prevCell_thread q hx0]
      exact (hthread q hq x ((List.mem_cons.mp hx).resolve_left hx0)).2.1
  · rw [(hthread q hq t ht).2.2]
    exact h.field q (hW hq) t ht

end

/-! ## The invariant -/

/-- The queues of the scheduler, for the threads that are live. `W` holds the run queues
and the wait queues in use. -/
structure Scheduled (L : Layout) (live : Set Word) (v : View) (W : Set Word)
    (ls : Word → List Word) : Prop where
  lists : Lists v W ls
  threads : ∀ t ∈ live, t ∈ L.threads
  member : ∀ q ∈ W, ∀ t ∈ ls q, t ∈ live
  isQueue : ∀ q ∈ W, L.IsQueue q
  runs : ∀ p, runQueue p ∈ W
  ready : ∀ p, ∀ t ∈ ls (runQueue p), v.state t = kThreadStateReady ∧
    v.word (.thread .suspend t) = 0#32 ∧ v.word (.thread .priority t) = level p
  waiting : ∀ q ∈ W, onRunQueueArray q = false → ∀ t ∈ ls q,
    v.state t = kThreadStateWaiting
  placed : ∀ t ∈ live, v.state t = kThreadStateWaiting →
    v.word (.thread .queue t) ≠ 0#32 →
    v.word (.thread .queue t) ∈ W ∧ onRunQueueArray (v.word (.thread .queue t)) = false ∧
      t ∈ ls (v.word (.thread .queue t))
  mask : ∀ p, maskBit v.mask p = true ↔ ls (runQueue p) ≠ []
  tail : L.ThreadOrNone (v.word (.global kThreadListTailAddr))

section

variable {L : Layout} {live : Set Word} {v w : View} {W : Set Word} {ls : Word → List Word}
  {q t u n : Word} {p : Fin 32} {xs ys : List Word}

theorem Scheduled.readyQueues (h : Scheduled L live v W ls) :
    ReadyQueues L v fun p => ls (runQueue p) where
  queue := fun p => h.lists.queue _ (h.runs p)
  threads := fun p t ht => h.threads t (h.member _ (h.runs p) t ht)
  ready := fun p t ht => (h.ready p t ht).1
  priority := fun p t ht => (h.ready p t ht).2.2
  mask := h.mask

theorem Scheduled.unlinked_of_state (h : Scheduled L live v W ls)
    (hr : v.state t ≠ kThreadStateReady) (hw : v.state t ≠ kThreadStateWaiting) :
    Unlinked W ls t := by
  intro q hq ht
  cases hon : onRunQueueArray q with
  | true =>
    obtain ⟨p, rfl⟩ := runQueue_of_onArray hon
    exact hr (h.ready p t ht).1
  | false => exact hw (h.waiting q hq hon t ht)

/-- A thread that is in no queue has another state. -/
theorem Scheduled.putState (h : Scheduled L live v W ls) (hout : Unlinked W ls t) {x : Half}
    (hx : x = kThreadStateWaiting → v.word (.thread .queue t) = 0#32) :
    Scheduled L live (v.putState t x) W ls := by
  have hstate : ∀ {q u}, q ∈ W → u ∈ ls q → (v.putState t x).state u = v.state u := by
    intro q u hq hu
    have hut : u ≠ t := fun he => hout q hq (he ▸ hu)
    simp [hut]
  refine ⟨h.lists.congr Set.Subset.rfl (fun _ _ => rfl) (fun _ _ => rfl)
    (fun _ _ _ _ => ⟨rfl, rfl, rfl⟩), h.threads, h.member, h.isQueue, h.runs, fun p u hu => ?_,
    fun q hq hon u hu => ?_, fun u hu hw hne => ?_, h.mask, h.tail⟩
  · rw [hstate (h.runs p) hu]
    exact h.ready p u hu
  · rw [hstate hq hu]
    exact h.waiting q hq hon u hu
  · by_cases hut : u = t
    · subst hut
      rw [View.putState_state, if_pos rfl] at hw
      exact absurd (hx hw) hne
    · rw [View.putState_state, if_neg hut] at hw
      exact h.placed u hu hw hne

/-- A word of a thread that is no link of it. -/
theorem Scheduled.putField (h : Scheduled L live v W ls) {f : ThreadField} (hn : f ≠ .next)
    (hp : f ≠ .prev) (hq : f ≠ .queue) {x : Word}
    (hx : (∀ p, t ∉ ls (runQueue p)) ∨ v.word (.thread f t) = x) :
    Scheduled L live (v.put (.thread f t) x) W ls := by
  have hword : ∀ {g u}, (g = .next ∨ g = .prev ∨ g = .queue) →
      (v.put (.thread f t) x).word (.thread g u) = v.word (.thread g u) := by
    intro g u hg
    rw [View.put_word, if_neg]
    rintro heq
    obtain ⟨rfl, rfl⟩ := Cell.thread.inj heq
    rcases hg with hg | hg | hg
    · exact hn hg
    · exact hp hg
    · exact hq hg
  refine ⟨h.lists.congr Set.Subset.rfl (fun _ _ => by simp) (fun _ _ => by simp) (fun q hq u hu =>
    ⟨hword (by simp), hword (by simp), hword (by simp)⟩), h.threads, h.member,
      h.isQueue, h.runs,
    fun p u hu => ?_, h.waiting, fun u hu hw hne => ?_, h.mask, ?_⟩
  · have hsame : ∀ g, (v.put (.thread f t) x).word (.thread g u) = v.word (.thread g u) := by
      intro g
      rw [View.put_word]
      split
      · rename_i heq
        obtain ⟨rfl, rfl⟩ := Cell.thread.inj heq
        rcases hx with hx | hx
        · exact absurd hu (hx p)
        · exact hx.symm
      · rfl
    rw [hsame, hsame]
    exact h.ready p u hu
  · rw [hword (by simp)] at hne ⊢
    exact h.placed u hu hw hne
  · rw [View.put_word, if_neg (by simp)]
    exact h.tail

/-- The queue field of a thread that is in no queue is cleared. -/
theorem Scheduled.clearField (h : Scheduled L live v W ls) (hout : Unlinked W ls t) :
    Scheduled L live (v.put (.thread .queue t) 0#32) W ls := by
  have hword : ∀ {g u}, (g = .queue → u ≠ t) →
      (v.put (.thread .queue t) 0#32).word (.thread g u) = v.word (.thread g u) := by
    intro g u hg
    rw [View.put_word, if_neg]
    rintro heq
    obtain ⟨rfl, rfl⟩ := Cell.thread.inj heq
    exact hg rfl rfl
  refine ⟨h.lists.congr Set.Subset.rfl (fun _ _ => by simp) (fun _ _ => by simp) (fun q hq u hu =>
    ⟨hword (by simp), hword (by simp), hword fun _ he => hout q hq (he ▸ hu)⟩),
      h.threads, h.member,
    h.isQueue, h.runs, fun p u hu => ?_, h.waiting, fun u hu hw hne => ?_, h.mask, ?_⟩
  · rw [hword (by simp), hword (by simp)]
    exact h.ready p u hu
  · by_cases hut : u = t
    · subst hut
      simp at hne
    · rw [hword fun _ => hut] at hne ⊢
      exact h.placed u hu hw hne
  · rw [View.put_word, if_neg (by simp)]
    exact h.tail

/-- A global word other than the mask. -/
theorem Scheduled.putGlobal (h : Scheduled L live v W ls) {a x : Word}
    (ha : a ≠ kSchedulerPendingFlagAddr) (hx : a = kThreadListTailAddr → L.ThreadOrNone x) :
    Scheduled L live (v.put (.global a) x) W ls := by
  refine ⟨h.lists.congr Set.Subset.rfl (fun _ _ => by simp) (fun _ _ => by simp)
    (fun _ _ _ _ => by
    simp), h.threads, h.member, h.isQueue, h.runs, fun p u hu => ?_, h.waiting,
    fun u hu hw hne => ?_, fun p => ?_, ?_⟩
  · rw [View.put_word, View.put_word, if_neg (by simp), if_neg (by simp)]
    exact h.ready p u hu
  · rw [View.put_word, if_neg (by simp)] at hne ⊢
    exact h.placed u hu hw hne
  · rw [View.mask, View.put_word, if_neg (by simpa using ha.symm)]
    exact h.mask p
  · rw [View.put_word]
    split
    · rename_i heq
      exact hx (Cell.global.inj heq).symm
    · exact h.tail

theorem runQueue_off {q : Word} (h : onRunQueueArray q = false) (p : Fin 32) :
    runQueue p ≠ q := by
  rintro rfl
  rw [runQueue_onArray] at h
  cases h

/-- A waiting thread goes into a wait queue. -/
theorem Scheduled.linkWait (h : Scheduled L live v W ls) (ht : t ∈ live) (ht0 : t ≠ 0#32)
    (hout : Unlinked W ls t) (hstate : v.state t = kThreadStateWaiting) (hq : q ∈ W)
    (hoff : onRunQueueArray q = false) (hls : ls q = xs ++ ys) (hn : n = first ys 0#32) :
    Scheduled L live (v.linkBefore q t n) W (Function.update ls q (xs ++ t :: ys)) := by
  have hrun : ∀ p, Function.update ls q (xs ++ t :: ys) (runQueue p) = ls (runQueue p) := fun p =>
    Function.update_of_ne (runQueue_off hoff p) ..
  have hmem : ∀ {q' u}, u ∈ Function.update ls q (xs ++ t :: ys) q' → u ∈ ls q' ∨
      (q' = q ∧ u = t) := by
    intro q' u hu
    by_cases hqq : q' = q
    · subst hqq
      rw [Function.update_self] at hu
      rw [hls]
      simp only [List.mem_append, List.mem_cons] at hu ⊢
      tauto
    · rw [Function.update_of_ne hqq] at hu
      exact Or.inl hu
  have hsub : ∀ {q' u}, u ∈ ls q' → u ∈ Function.update ls q (xs ++ t :: ys) q' := by
    intro q' u hu
    by_cases hqq : q' = q
    · subst hqq
      rw [Function.update_self]
      rw [hls] at hu
      simp only [List.mem_append, List.mem_cons] at hu ⊢
      tauto
    · rwa [Function.update_of_ne hqq]
  refine ⟨h.lists.link hq hls hn ht0 hout, h.threads, fun q' hq' u hu => ?_, h.isQueue, h.runs,
    fun p u hu => ?_, fun q' hq' hon u hu => ?_, fun u hu hw hne => ?_, fun p => ?_, ?_⟩
  · rcases hmem hu with hu | ⟨rfl, rfl⟩
    · exact h.member q' hq' u hu
    · exact ht
  · rw [hrun] at hu
    rw [View.linkBefore_plain (by simp [Cell.Plain]) (by simp),
      View.linkBefore_plain (by simp [Cell.Plain]) (by simp)]
    exact h.ready p u hu
  · rcases hmem hu with hu | ⟨rfl, rfl⟩
    · exact h.waiting q' hq' hon u hu
    · exact hstate
  · by_cases hut : u = t
    · subst hut
      rw [View.linkBefore_queue]
      refine ⟨hq, hoff, ?_⟩
      rw [Function.update_self]
      simp
    · rw [View.linkBefore_plain (by simp [Cell.Plain]) (by simpa using hut)] at hne ⊢
      obtain ⟨h1, h2, h3⟩ := h.placed u hu hw hne
      exact ⟨h1, h2, hsub h3⟩
  · rw [hrun, View.mask, View.linkBefore_plain (c := .global _) trivial (by simp)]
    exact h.mask p
  · rw [View.linkBefore_plain (c := .global _) trivial (by simp)]
    exact h.tail

/-- A ready thread goes into the run queue of its priority. -/
theorem Scheduled.linkReady (h : Scheduled L live v W ls) (ht : t ∈ live) (ht0 : t ≠ 0#32)
    (hout : Unlinked W ls t) (hstate : v.state t = kThreadStateReady)
    (hsuspend : v.word (.thread .suspend t) = 0#32) (hprio : v.word (.thread .priority t) = level p)
    (hls : ls (runQueue p) = xs ++ ys) (hn : n = first ys 0#32) :
    Scheduled L live
      ((v.linkBefore (runQueue p) t n).setMask (v.mask ||| pendingBit (level p))) W
      (Function.update ls (runQueue p) (xs ++ t :: ys)) := by
  have hmem : ∀ {q' u}, u ∈ Function.update ls (runQueue p) (xs ++ t :: ys) q' →
      u ∈ ls q' ∨ (q' = runQueue p ∧ u = t) := by
    intro q' u hu
    by_cases hqq : q' = runQueue p
    · subst hqq
      rw [Function.update_self] at hu
      rw [hls]
      simp only [List.mem_append, List.mem_cons] at hu ⊢
      tauto
    · rw [Function.update_of_ne hqq] at hu
      exact Or.inl hu
  have hword : ∀ {c : Cell}, c.Plain → c ≠ .thread .queue t →
    c ≠ .global kSchedulerPendingFlagAddr →
      ((v.linkBefore (runQueue p) t n).setMask (v.mask ||| pendingBit (level p))).word
        c = v.word c := by
    intro c hc h1 h2
    rw [View.setMask_word h2, View.linkBefore_plain hc h1]
  have hlists := h.lists.link (h.runs p) hls hn ht0 hout
  refine ⟨hlists.congr Set.Subset.rfl (fun _ _ => View.setMask_word (by simp) _)
    (fun _ _ => View.setMask_word (by simp) _) (fun _ _ _ _ => ⟨View.setMask_word (by simp) _,
      View.setMask_word (by simp) _, View.setMask_word (by simp) _⟩), h.threads,
    fun q' hq' u hu => ?_, h.isQueue, h.runs, fun p' u hu => ?_, fun q' hq' hon u hu => ?_,
    fun u hu hw hne => ?_, fun p' => ?_, ?_⟩
  · rcases hmem hu with hu | ⟨_, rfl⟩
    · exact h.member q' hq' u hu
    · exact ht
  · rw [hword (by simp [Cell.Plain]) (by simp) (by simp), hword (by simp [Cell.Plain])
      (by simp) (by simp)]
    rcases hmem hu with hu | ⟨hpp, rfl⟩
    · exact h.ready p' u hu
    · rw [runQueue_inj.mp hpp]
      exact ⟨hstate, hsuspend, hprio⟩
  · rcases hmem hu with hu | ⟨rfl, _⟩
    · exact h.waiting q' hq' hon u hu
    · exact absurd rfl (runQueue_off hon p)
  · have hut : u ≠ t := by
      rintro rfl
      rw [View.setMask_state, View.linkBefore_state, hstate] at hw
      exact absurd hw (by decide)
    rw [hword (by simp [Cell.Plain]) (by simpa using hut) (by simp)] at hne ⊢
    obtain ⟨h1, h2, h3⟩ := h.placed u hu hw hne
    refine ⟨h1, h2, ?_⟩
    rwa [Function.update_of_ne (runQueue_off h2 p).symm]
  · rw [View.setMask_mask, maskBit_mark, Bool.or_eq_true, h.mask, decide_eq_true_eq]
    by_cases hpp : p' = p
    · subst hpp
      simp
    · rw [Function.update_of_ne (by simpa [runQueue_inj] using hpp)]
      simp [hpp]
  · rw [hword (c := .global _) trivial (by simp) (by decide)]
    exact h.tail

/-- A waiting thread goes out of its wait queue. -/
theorem Scheduled.unlinkWait (h : Scheduled L live v W ls) (hq : q ∈ W)
    (hoff : onRunQueueArray q = false) (hls : ls q = xs ++ t :: ys) :
    Scheduled L live (v.remove q t) W (Function.update ls q (xs ++ ys)) ∧
      Unlinked W (Function.update ls q (xs ++ ys)) t := by
  have hrun : ∀ p, Function.update ls q (xs ++ ys) (runQueue p) = ls (runQueue p) := fun p =>
    Function.update_of_ne (runQueue_off hoff p) ..
  have hmem : ∀ {q' u}, u ∈ Function.update ls q (xs ++ ys) q' → u ∈ ls q' := by
    intro q' u hu
    by_cases hqq : q' = q
    · subst hqq
      rw [Function.update_self] at hu
      rw [hls]
      simp only [List.mem_append, List.mem_cons] at hu ⊢
      tauto
    · rwa [Function.update_of_ne hqq] at hu
  have hout := h.lists.unlinked hq hls
  refine ⟨⟨h.lists.unlink hq hls (fun q' x hx => View.remove_nextOf hx q')
    (fun q' x hx => View.remove_prevOf hx q')
    (fun u hu =>
      by simp [View.remove, hu, View.unlink_plain (c := .thread .queue u) (by simp [Cell.Plain])]),
    h.threads, fun q' hq' u hu => h.member q' hq' u (hmem hu), h.isQueue, h.runs, fun p u hu => ?_,
    fun q' hq' hon u hu => h.waiting q' hq' hon u (hmem hu), fun u hu hw hne => ?_,
    fun p => ?_, ?_⟩,
    hout⟩
  · rw [hrun] at hu
    rw [View.remove_plain (by simp [Cell.Plain]) (by simp),
      View.remove_plain (by simp [Cell.Plain]) (by simp)]
    exact h.ready p u hu
  · have hut : u ≠ t := by
      rintro rfl
      exact hne (View.remove_queue ..)
    rw [View.remove_plain (by simp [Cell.Plain]) (by simpa using hut)] at hne ⊢
    obtain ⟨h1, h2, h3⟩ := h.placed u hu hw hne
    refine ⟨h1, h2, ?_⟩
    by_cases hqq : v.word (.thread .queue u) = q
    · rw [hqq, Function.update_self]
      rw [hqq, hls] at h3
      simp only [List.mem_append, List.mem_cons] at h3 ⊢
      tauto
    · rwa [Function.update_of_ne hqq]
  · rw [hrun, View.mask, View.remove_plain (c := .global _) trivial (by simp)]
    exact h.mask p
  · rw [View.remove_plain (c := .global _) trivial (by simp)]
    exact h.tail

/-- The thread that is served goes out of its run queue, and runs. -/
theorem Scheduled.take (h : Scheduled L live v W ls) (hls : ls (runQueue p) = t :: xs) :
    Scheduled L live (v.take p t) W (Function.update ls (runQueue p) xs) ∧
      Unlinked W (Function.update ls (runQueue p) xs) t := by
  have hls' : ls (runQueue p) = [] ++ t :: xs := hls
  have hmem : ∀ {q' u}, u ∈ Function.update ls (runQueue p) xs q' → u ∈ ls q' := by
    intro q' u hu
    by_cases hqq : q' = runQueue p
    · subst hqq
      rw [Function.update_self] at hu
      rw [hls]
      exact List.mem_cons_of_mem t hu
    · rwa [Function.update_of_ne hqq] at hu
  have hout : Unlinked W (Function.update ls (runQueue p) xs) t := h.lists.unlinked (h.runs p) hls'
  have hstate : ∀ {u}, u ≠ t → (v.take p t).state u = v.state u := fun hut => by
    simp [View.take, hut]
  have hlists : Lists (v.take p t) W (Function.update ls (runQueue p) xs) := by
    refine h.lists.unlink (h.runs p) hls' (fun q' x hx => ?_) (fun q' x hx => ?_) fun u hu => ?_
    · simp [View.take, View.nextOf, (Cell.Plain.ne_nextCell (c := .thread .queue t)
        (by simp [Cell.Plain]) q' x).symm, View.clearEmpty_word (View.nextCell_ne_global q' x _)]
    · simp [View.take, View.prevOf, (Cell.Plain.ne_prevCell (c := .thread .queue t)
        (by simp [Cell.Plain]) q' x).symm, View.clearEmpty_word (View.prevCell_ne_global q' x _)]
    · exact View.take_plain (by simp [Cell.Plain]) (by simpa using hu) (by simp)
  refine ⟨⟨hlists, h.threads, fun q' hq' u hu => h.member q' hq' u (hmem hu), h.isQueue, h.runs,
    fun p' u hu => ?_, fun q' hq' hon u hu => ?_, fun u hu hw hne => ?_, fun p' => ?_, ?_⟩,
    hout⟩
  · have hut : u ≠ t := fun he => hout _ (h.runs p') (he ▸ hu)
    rw [hstate hut, View.take_plain (by simp [Cell.Plain]) (by simp) (by simp),
      View.take_plain (by simp [Cell.Plain]) (by simp) (by simp)]
    exact h.ready p' u (hmem hu)
  · have hut : u ≠ t := fun he => hout q' hq' (he ▸ hu)
    rw [hstate hut]
    exact h.waiting q' hq' hon u (hmem hu)
  · have hut : u ≠ t := by
      rintro rfl
      simp [View.take, kThreadStateRunning, kThreadStateWaiting] at hw
    rw [hstate hut] at hw
    rw [View.take_plain (by simp [Cell.Plain]) (by simpa using hut) (by simp)] at hne ⊢
    obtain ⟨h1, h2, h3⟩ := h.placed u hu hw hne
    refine ⟨h1, h2, ?_⟩
    rwa [Function.update_of_ne (runQueue_off h2 p).symm]
  · rw [View.take_maskBit (hls ▸ h.lists.queue _ (h.runs p)), Bool.and_eq_true, h.mask]
    by_cases hpp : p' = p
    · subst hpp
      simp [hls]
    · rw [Function.update_of_ne (by simpa [runQueue_inj] using hpp)]
      simp [hpp]
  · rw [View.take_global (by decide)]
    exact h.tail

theorem Scheduled.congr {W' : Set Word} (h : Scheduled L live v W ls) (hW : W' ⊆ W)
    (hruns : ∀ p, runQueue p ∈ W') (hhead : ∀ q ∈ W', w.word (.head q) = v.word (.head q))
    (htail : ∀ q ∈ W', w.word (.tail q) = v.word (.tail q))
    (hthread : ∀ u ∈ live, ∀ f, w.word (.thread f u) = v.word (.thread f u))
    (hstate : ∀ u ∈ live, w.state u = v.state u) (hmask : w.mask = v.mask)
    (hlast : L.ThreadOrNone (w.word (.global kThreadListTailAddr)))
    (hplaced : ∀ u ∈ live, v.state u = kThreadStateWaiting →
      v.word (.thread .queue u) ∈ W →
      v.word (.thread .queue u) ∈ W') : Scheduled L live w W' ls := by
  have hmem : ∀ q ∈ W', ∀ u ∈ ls q, u ∈ live := fun q hq => h.member q (hW hq)
  refine ⟨h.lists.congr hW hhead htail (fun q hq u hu => ?_), h.threads, hmem,
    fun q hq => h.isQueue q (hW hq), hruns, fun p u hu => ?_, fun q hq hon u hu => ?_,
    fun u hu hw hne => ?_, fun p => ?_, hlast⟩
  · have := hthread u (hmem q hq u hu)
    exact ⟨this _, this _, this _⟩
  · have hlive := hmem _ (hruns p) u hu
    rw [hstate u hlive, hthread u hlive, hthread u hlive]
    exact h.ready p u hu
  · rw [hstate u (hmem q hq u hu)]
    exact h.waiting q (hW hq) hon u hu
  · rw [hstate u hu] at hw
    rw [hthread u hu] at hne ⊢
    obtain ⟨h1, h2, h3⟩ := h.placed u hu hw hne
    exact ⟨hplaced u hu hw h1, h2, h3⟩
  · rw [hmask]
    exact h.mask p

/-- One more thread is live, and does not wait. -/
theorem Scheduled.born (h : Scheduled L live v W ls) (ht : t ∈ L.threads)
    (hstate : v.state t ≠ kThreadStateWaiting) : Scheduled L (insert t live) v W ls := by
  refine ⟨h.lists, fun u hu => ?_, fun q hq u hu => Or.inr (h.member q hq u hu),
    h.isQueue, h.runs,
    h.ready, h.waiting, fun u hu hw hne => ?_, h.mask, h.tail⟩
  · rcases hu with rfl | hu
    · exact ht
    · exact h.threads u hu
  · rcases hu with rfl | hu
    · exact absurd hw hstate
    · exact h.placed u hu hw hne

end

/-! ## Wait queues -/

/-- A well-formed wait queue outside the run queues. -/
structure WaitQueue (L : Layout) (live : Set Word) (v : View) (q : Word) : Prop where
  isQueue : L.IsQueue q
  off : onRunQueueArray q = false
  members : ∃ xs, v.Queue q xs ∧ ∀ x ∈ xs, x ∈ live ∧
    v.state x = kThreadStateWaiting ∧
    v.word (.thread .queue x) = q

section

variable {L : Layout} {live : Set Word} {v : View} {W : Set Word}
    {ls : Word → List Word} {q : Word}

/-- An empty queue comes into use. -/
theorem Scheduled.addQueue (h : Scheduled L live v W ls) (hnew : q ∉ W) (hq : L.IsQueue q)
    (hoff : onRunQueueArray q = false) (hempty : v.Queue q []) :
    Scheduled L live v (insert q W) (Function.update ls q []) := by
  have hold : ∀ {q'}, q' ∈ W → Function.update ls q [] q' = ls q' := by
    rintro q' hq'
    apply Function.update_of_ne
    rintro rfl
    exact hnew hq'
  have hmem : ∀ {q' u}, q' ∈ insert q W → u ∈ Function.update ls q [] q' →
      q' ∈ W ∧ u ∈ ls q' := by
    rintro q' u hq' hu
    rcases hq' with rfl | hq'
    · rw [Function.update_self] at hu
      exact absurd hu List.not_mem_nil
    · rw [hold hq'] at hu
      exact ⟨hq', hu⟩
  refine ⟨⟨fun q' hq' => ?_, fun q' hq' u hu => ?_⟩, h.threads, fun q' hq' u hu => ?_,
    fun q' hq' => ?_, fun p => Or.inr (h.runs p), fun p u hu => ?_, fun q' hq' hon u hu => ?_,
    fun u hu hw hne => ?_, fun p => ?_, h.tail⟩
  · rcases hq' with rfl | hq'
    · rw [Function.update_self]
      exact hempty
    · rw [hold hq']
      exact h.lists.queue q' hq'
  · obtain ⟨hq', hu⟩ := hmem hq' hu
    exact h.lists.field q' hq' u hu
  · obtain ⟨hq', hu⟩ := hmem hq' hu
    exact h.member q' hq' u hu
  · rcases hq' with rfl | hq'
    · exact hq
    · exact h.isQueue q' hq'
  · rw [hold (h.runs p)] at hu
    exact h.ready p u hu
  · obtain ⟨hq', hu⟩ := hmem hq' hu
    exact h.waiting q' hq' hon u hu
  · obtain ⟨h1, h2, h3⟩ := h.placed u hu hw hne
    rw [hold h1]
    exact ⟨Or.inr h1, h2, h3⟩
  · rw [hold (h.runs p)]
    exact h.mask p

/-- A well-formed wait queue is among the queues, or can be. -/
theorem Scheduled.use (h : Scheduled L live v W ls) (hq : WaitQueue L live v q)
    (hq0 : q ≠ 0#32) : ∃ W' ls', Scheduled L live v W' ls' ∧ q ∈ W' ∧ W ⊆ W' ∧
      ∀ q' ∈ W, ls' q' = ls q' := by
  by_cases hin : q ∈ W
  · exact ⟨W, ls, h, hin, Set.Subset.rfl, fun _ _ => rfl⟩
  obtain ⟨xs, hxs, hmem⟩ := hq.members
  have hnil : xs = [] := by
    cases xs with
    | nil => rfl
    | cons x xs =>
      obtain ⟨hlive, hwait, hfield⟩ := hmem x List.mem_cons_self
      obtain ⟨hw, _⟩ := h.placed x hlive hwait (hfield ▸ hq0)
      exact absurd (hfield ▸ hw) hin
  refine ⟨_, _, h.addQueue hin hq.isQueue hq.off (hnil ▸ hxs), Set.mem_insert q W,
    Set.subset_insert q W, fun q' hq' => Function.update_of_ne ?_ ..⟩
  rintro rfl
  exact hin hq'

/-- A queue in use outside the run queues is a well-formed wait queue. -/
theorem Scheduled.waitQueue (h : Scheduled L live v W ls) (hq : q ∈ W)
    (hoff : onRunQueueArray q = false) : WaitQueue L live v q := by
  refine ⟨h.isQueue q hq, hoff, ls q, h.lists.queue q hq, fun x hx => ?_⟩
  exact ⟨h.member q hq x hx, h.waiting q hq hoff x hx, h.lists.field q hq x hx⟩

end

end wii_switch
