-- The thread queues of a view. A queue is a ring of threads through its head and
-- tail words; to link a thread in and to unlink one are the two changes of the
-- ring. Each bridge has its own copy of the code for them, and each copy makes the
-- same change.
import WiiSwitch.Lib.Ring
import WiiSwitch.Footprints
import WiiSwitch.ThreadBridges

namespace wii_switch

open OS Routine Ring

/-! ## Queues as rings -/

/-- The word that leads on from `x` in the queue `q`. -/
def nextCell (q x : Word) : Cell := if x = 0#32 then .head q else .thread .next x

/-- The word that leads back from `x` in the queue `q`. -/
def prevCell (q x : Word) : Cell := if x = 0#32 then .tail q else .thread .prev x

@[simp] theorem nextCell_inj (q q' x y : Word) :
    nextCell q x = nextCell q' y ↔ x = y ∧ (x = 0#32 → q = q') := by
  unfold nextCell
  split <;> split <;> simp_all
  rintro rfl
  contradiction

@[simp] theorem prevCell_inj (q q' x y : Word) :
    prevCell q x = prevCell q' y ↔ x = y ∧ (x = 0#32 → q = q') := by
  unfold prevCell
  split <;> split <;> simp_all
  rintro rfl
  contradiction

@[simp] theorem nextCell_ne_prevCell (q q' x y : Word) : nextCell q x ≠ prevCell q' y := by
  unfold nextCell prevCell
  split <;> split <;> simp

@[simp] theorem prevCell_ne_nextCell (q q' x y : Word) : prevCell q x ≠ nextCell q' y :=
  (nextCell_ne_prevCell q' q y x).symm

theorem nextCell_zero (q : Word) : nextCell q 0#32 = .head q := rfl

theorem prevCell_zero (q : Word) : prevCell q 0#32 = .tail q := rfl

theorem nextCell_thread (q : Word) {x : Word} (h : x ≠ 0#32) : nextCell q x = .thread .next x :=
  if_neg h

theorem prevCell_thread (q : Word) {x : Word} (h : x ≠ 0#32) : prevCell q x = .thread .prev x :=
  if_neg h

/-- A word that is neither a queue word nor a link of a thread. -/
def Cell.Plain : Cell → Prop
  | .global _ => True
  | .thread f _ => f ≠ .next ∧ f ≠ .prev
  | .mutex _ _ => True
  | .word _ => True
  | _ => False

theorem Cell.Plain.ne_nextCell {c : Cell} (h : c.Plain) (q x : Word) : c ≠ nextCell q x := by
  unfold nextCell
  split
  · rintro rfl
    exact h
  · rintro rfl
    exact h.1 rfl

theorem Cell.Plain.ne_prevCell {c : Cell} (h : c.Plain) (q x : Word) : c ≠ prevCell q x := by
  unfold prevCell
  split
  · rintro rfl
    exact h
  · rintro rfl
    exact h.2 rfl

namespace View

def nextOf (v : View) (q x : Word) : Word := v.word (nextCell q x)

def prevOf (v : View) (q x : Word) : Word := v.word (prevCell q x)

/-- The threads of the queue, from its head to its tail. -/
def Queue (v : View) (q : Word) (xs : List Word) : Prop :=
  Linked (v.nextOf q) (v.prevOf q) 0#32 xs

theorem Queue.congr {v w : View} {q : Word} {xs : List Word} (h : v.Queue q xs)
    (hn : ∀ x ∈ 0#32 :: xs, w.nextOf q x = v.nextOf q x)
    (hp : ∀ x ∈ 0#32 :: xs, w.prevOf q x = v.prevOf q x) : w.Queue q xs :=
  Linked.congr h hn hp

theorem Queue.ne_zero {v : View} {q x : Word} {xs : List Word} (h : v.Queue q xs) (hx : x ∈ xs) :
    x ≠ 0#32 := by
  rintro rfl
  exact (List.nodup_cons.mp h.2).1 hx

theorem Queue.head_eq {v : View} {q : Word} {xs : List Word} (h : v.Queue q xs) :
    v.word (.head q) = first xs 0#32 := Linked.fd_eq h

theorem Queue.empty_iff {v : View} {q : Word} {xs : List Word} (h : v.Queue q xs) :
    v.word (.head q) = 0#32 ↔ xs = [] := by
  rw [h.head_eq]
  cases xs with
  | nil => simp
  | cons x xs => simpa using h.ne_zero List.mem_cons_self

/-! ### The two changes -/

/-- The thread `t` before `n` in the queue `q`; before 0 is at its tail. -/
def linkBefore (v : View) (q t n : Word) : View :=
  ((((v.put (nextCell q (v.prevOf q n)) t).put (prevCell q n) t).put (.thread .next t) n).put
    (.thread .prev t) (v.prevOf q n)).put (.thread .queue t) q

/-- The thread `t` out of the queue `q`. -/
def unlink (v : View) (q t : Word) : View :=
  (v.put (nextCell q (v.prevOf q t)) (v.nextOf q t)).put (prevCell q (v.nextOf q t)) (v.prevOf q t)

theorem linkBefore_nextOf {v : View} {q t n : Word} (ht : t ≠ 0#32) (q' x : Word) :
    (v.linkBefore q t n).nextOf q' x =
      if x = t then n else if x = v.prevOf q n ∧ (x = 0#32 → q' = q) then t
        else v.nextOf q' x := by
  have hc : Cell.thread .next t = nextCell q t := (nextCell_thread q ht).symm
  have hp : nextCell q' x ≠ Cell.thread .prev t := by
    rw [← prevCell_thread q ht]
    exact nextCell_ne_prevCell _ _ _ _
  have hq : nextCell q' x ≠ Cell.thread .queue t :=
    (Cell.Plain.ne_nextCell (by simp [Cell.Plain]) q' x).symm
  simp only [nextOf, linkBefore, put_word, hc, hp, hq, if_false, nextCell_inj, nextCell_ne_prevCell]
  grind

theorem linkBefore_prevOf {v : View} {q t n : Word} (ht : t ≠ 0#32) (q' x : Word) :
    (v.linkBefore q t n).prevOf q' x =
      if x = t then v.prevOf q n else if x = n ∧ (x = 0#32 → q' = q) then t
      else v.prevOf q' x := by
  have hc : Cell.thread .prev t = prevCell q t := (prevCell_thread q ht).symm
  have hp : prevCell q' x ≠ Cell.thread .next t := by
    rw [← nextCell_thread q ht]
    exact prevCell_ne_nextCell _ _ _ _
  have hq : prevCell q' x ≠ Cell.thread .queue t :=
    (Cell.Plain.ne_prevCell (by simp [Cell.Plain]) q' x).symm
  unfold linkBefore
  simp only [prevOf, put_word, hc, hp, hq, if_false, prevCell_inj, prevCell_ne_nextCell]
  grind

theorem linkBefore_plain {v : View} {q t n : Word} {c : Cell} (hc : c.Plain)
    (hq : c ≠ .thread .queue t) : (v.linkBefore q t n).word c = v.word c := by
  have h1 : c ≠ .thread .next t := by
    rintro rfl
    exact hc.1 rfl
  have h2 : c ≠ .thread .prev t := by
    rintro rfl
    exact hc.2 rfl
  simp only [linkBefore, put_word, hq, h1, h2, hc.ne_nextCell, hc.ne_prevCell, if_false]

@[simp] theorem linkBefore_queue (v : View) (q t n : Word) :
    (v.linkBefore q t n).word (.thread .queue t) = q := by simp [linkBefore]

@[simp] theorem linkBefore_state (v : View) (q t n : Word) :
    (v.linkBefore q t n).state = v.state := rfl

theorem unlink_nextOf (v : View) (q t q' x : Word) :
    (v.unlink q t).nextOf q' x =
      if x = v.prevOf q t ∧ (x = 0#32 → q' = q) then v.nextOf q t else v.nextOf q' x := by
  simp only [nextOf, unlink, put_word, nextCell_inj, nextCell_ne_prevCell, if_false]

theorem unlink_prevOf (v : View) (q t q' x : Word) :
    (v.unlink q t).prevOf q' x =
      if x = v.nextOf q t ∧ (x = 0#32 → q' = q) then v.prevOf q t else v.prevOf q' x := by
  simp only [prevOf, unlink, put_word, prevCell_inj, prevCell_ne_nextCell, if_false]

theorem unlink_plain {v : View} {q t : Word} {c : Cell} (hc : c.Plain) :
    (v.unlink q t).word c = v.word c := by
  simp only [unlink, put_word, hc.ne_nextCell, hc.ne_prevCell, if_false]

@[simp] theorem unlink_state (v : View) (q t : Word) : (v.unlink q t).state = v.state := rfl

/-- The thread `t` out of the queue `q`, with its own links and its queue cleared. -/
def remove (v : View) (q t : Word) : View :=
  (((v.unlink q t).put (.thread .next t) 0#32).put (.thread .prev t) 0#32).put (.thread .queue t)
    0#32

theorem remove_nextOf {v : View} {q t x : Word} (hx : x ≠ t) (q' : Word) :
    (v.remove q t).nextOf q' x = (v.unlink q t).nextOf q' x := by
  unfold nextOf nextCell
  split <;> simp [remove, hx]

theorem remove_prevOf {v : View} {q t x : Word} (hx : x ≠ t) (q' : Word) :
    (v.remove q t).prevOf q' x = (v.unlink q t).prevOf q' x := by
  unfold prevOf prevCell
  split <;> simp [remove, hx]

theorem remove_plain {v : View} {q t : Word} {c : Cell} (hc : c.Plain)
    (hq : c ≠ .thread .queue t) : (v.remove q t).word c = v.word c := by
  have h1 : c ≠ .thread .next t := by
    rintro rfl
    exact hc.1 rfl
  have h2 : c ≠ .thread .prev t := by
    rintro rfl
    exact hc.2 rfl
  simp only [remove, put_word, hq, h1, h2, if_false, unlink_plain hc]

@[simp] theorem remove_queue (v : View) (q t : Word) :
    (v.remove q t).word (.thread .queue t) = 0#32 := by simp [remove]

@[simp] theorem remove_state (v : View) (q t : Word) : (v.remove q t).state = v.state := rfl

/-- The queue with `t` linked in. -/
theorem Queue.linkBefore {v : View} {q t n : Word} {xs ys : List Word} (h : v.Queue q (xs ++ ys))
    (ht0 : t ≠ 0#32) (ht : t ∉ xs ++ ys) (hn : n = first ys 0#32) :
    (v.linkBefore q t n).Queue q (xs ++ t :: ys) := by
  refine Linked.insert h (by simp_all) hn (fun x => ?_) fun x => ?_
  · rw [linkBefore_nextOf ht0]
    simp
  · rw [linkBefore_prevOf ht0]
    simp

theorem Queue.prevOf_mem {v : View} {q n : Word} {xs ys : List Word} (h : v.Queue q (xs ++ ys))
    (hn : n = first ys 0#32) : v.prevOf q n ∈ 0#32 :: xs := hn ▸ Linked.bk_mem h

theorem Queue.tail_mem {v : View} {q : Word} {xs : List Word} (h : v.Queue q xs) :
    v.word (.tail q) ∈ 0#32 :: xs := by
  rw [← List.append_nil xs] at h
  have := h.prevOf_mem rfl
  rwa [first_nil, prevOf, prevCell_zero] at this

theorem Queue.nextOf_mem {v : View} {q t : Word} {xs ys : List Word}
    (h : v.Queue q (xs ++ t :: ys)) :
    v.nextOf q t = first ys 0#32 := by
  obtain ⟨_, h2⟩ := path_append.mp h.1
  cases ys with
  | nil => exact h2.1
  | cons y ys => exact h2.1.1

theorem Queue.nextOf_head {v : View} {q t : Word} {ys : List Word} (h : v.Queue q (t :: ys)) :
    v.nextOf q t = first ys 0#32 := by
  rw [← List.nil_append (t :: ys)] at h
  exact h.nextOf_mem

theorem Queue.prevOf_head {v : View} {q t : Word} {ys : List Word} (h : v.Queue q (t :: ys)) :
    v.prevOf q t = 0#32 := Linked.bk_eq_of_cons h

/-- The queue with `t` unlinked, in any view that agrees but for `t`. -/
theorem Queue.unlink {v w : View} {q t : Word} {xs ys : List Word} (h : v.Queue q (xs ++ t :: ys))
    (hn : ∀ x, x ≠ t → w.nextOf q x = (v.unlink q t).nextOf q x)
    (hp : ∀ x, x ≠ t → w.prevOf q x = (v.unlink q t).prevOf q x) : w.Queue q (xs ++ ys) := by
  refine Linked.remove h (fun x hx => ?_) fun x hx => ?_
  · rw [hn x hx, unlink_nextOf]
    simp
  · rw [hp x hx, unlink_prevOf]
    simp

theorem Queue.remove {v : View} {q t : Word} {xs ys : List Word} (h : v.Queue q (xs ++ t :: ys)) :
    (v.remove q t).Queue q (xs ++ ys) :=
  h.unlink (fun _ hx => remove_nextOf hx q) fun _ hx => remove_prevOf hx q

/-! ### What a change leaves -/

/-- A write to a plain cell moves no link. -/
theorem Queue.put {v : View} {q : Word} {xs : List Word} (h : v.Queue q xs) {c : Cell}
    (hc : c.Plain) (x : Word) : (v.put c x).Queue q xs := by
  refine h.congr (fun y _ => ?_) fun y _ => ?_
  · simp [nextOf, (hc.ne_nextCell q y).symm]
  · simp [prevOf, (hc.ne_prevCell q y).symm]

theorem Queue.putState {v : View} {q : Word} {xs : List Word} (h : v.Queue q xs) (t : Word)
    (x : Half) : (v.putState t x).Queue q xs := h

/-- A thread that goes into one queue leaves the others. -/
theorem Queue.linkBefore_other {v : View} {q q' t n : Word} {xs ys zs : List Word}
    (h : v.Queue q' zs) (hq : q' ≠ q) (hqueue : v.Queue q (xs ++ ys)) (hn : n = first ys 0#32)
    (ht0 : t ≠ 0#32) (ht : t ∉ zs) (hdis : ∀ x ∈ xs ++ ys, x ∉ zs) :
    (v.linkBefore q t n).Queue q' zs := by
  have hprev := hqueue.prevOf_mem hn
  have hfirst : n ∈ 0#32 :: ys := hn ▸ first_mem
  simp only [List.mem_cons, List.mem_append] at hprev hfirst hdis
  refine h.congr (fun x hx => ?_) fun x hx => ?_
  · rw [List.mem_cons] at hx
    rw [linkBefore_nextOf ht0, if_neg (by grind), if_neg (by grind)]
  · rw [List.mem_cons] at hx
    rw [linkBefore_prevOf ht0, if_neg (by grind), if_neg (by grind)]

/-- A thread that goes out of one queue leaves the others, in any view that agrees but
for the thread. -/
theorem Queue.unlink_other {v w : View} {q q' t : Word} {xs ys zs : List Word}
    (h : v.Queue q' zs) (hq : q' ≠ q) (hqueue : v.Queue q (xs ++ t :: ys))
    (hdis : ∀ x ∈ xs ++ t :: ys, x ∉ zs)
    (hn : ∀ x, x ≠ t → w.nextOf q' x = (v.unlink q t).nextOf q' x)
    (hp : ∀ x, x ≠ t → w.prevOf q' x = (v.unlink q t).prevOf q' x) : w.Queue q' zs := by
  have hprev := hqueue.prevOf_mem (n := t) rfl
  have hnext : v.nextOf q t ∈ 0#32 :: ys := hqueue.nextOf_mem ▸ first_mem
  have ht0 := hqueue.ne_zero (x := t) (by simp)
  simp only [List.mem_cons, List.mem_append] at hprev hnext hdis
  refine h.congr (fun x hx => ?_) fun x hx => ?_
  · rw [List.mem_cons] at hx
    rw [hn x (by grind), unlink_nextOf, if_neg (by grind)]
  · rw [List.mem_cons] at hx
    rw [hp x (by grind), unlink_prevOf, if_neg (by grind)]

theorem Queue.remove_other {v : View} {q q' t : Word} {xs ys zs : List Word}
    (h : v.Queue q' zs) (hq : q' ≠ q) (hqueue : v.Queue q (xs ++ t :: ys))
    (hdis : ∀ x ∈ xs ++ t :: ys, x ∉ zs) : (v.remove q t).Queue q' zs :=
  h.unlink_other hq hqueue hdis (fun _ hx => remove_nextOf hx q') fun _ hx => remove_prevOf hx q'

end View

/-! ## The routines -/

/-- A thread of the layout, or none. -/
def Layout.ThreadOrNone (L : Layout) (x : Word) : Prop := x = 0#32 ∨ x ∈ L.threads

section

variable {L : Layout} {v : View} {q t x : Word}

theorem hasCell_next (hq : L.IsQueue q) (hx : L.ThreadOrNone x) : L.HasCell (nextCell q x) := by
  unfold nextCell
  split
  · exact hq
  · exact hx.resolve_left ‹_›

theorem hasCell_prev (hq : L.IsQueue q) (hx : L.ThreadOrNone x) : L.HasCell (prevCell q x) := by
  unfold prevCell
  split
  · exact hq
  · exact hx.resolve_left ‹_›

theorem writes_setQueueNext (hq : L.IsQueue q) (hx : L.ThreadOrNone x) (y : Word) :
    Writes L (setQueueNext q x y) v () (v.put (nextCell q x) y) := by
  have hc := hasCell_next hq hx
  unfold setQueueNext
  by_cases h0 : x = 0#32
  · subst h0
    exact writes_write hc rfl y
  · rw [if_neg h0]
    refine writes_write hc ?_ y
    rw [nextCell_thread q h0]
    rfl

theorem writes_setQueuePrev (hq : L.IsQueue q) (hx : L.ThreadOrNone x) (y : Word) :
    Writes L (setQueuePrev q x y) v () (v.put (prevCell q x) y) := by
  have hc := hasCell_prev hq hx
  unfold setQueuePrev
  by_cases h0 : x = 0#32
  · subst h0
    exact writes_write hc rfl y
  · rw [if_neg h0]
    refine writes_write hc ?_ y
    rw [prevCell_thread q h0]
    rfl

theorem threadOrNone_of_mem {xs : List Word} (hxs : ∀ y ∈ xs, y ∈ L.threads)
    (hx : x ∈ 0#32 :: xs) : L.ThreadOrNone x := by
  rcases List.mem_cons.mp hx with h | h
  · exact Or.inl h
  · exact Or.inr (hxs x h)

theorem writes_read_next (hx : x ∈ L.threads) (h0 : x ≠ 0#32) (q : Word) :
    Writes L (read32 (x + kThreadNextOffset)) v (v.nextOf q x) v := by
  rw [View.nextOf, nextCell_thread q h0]
  exact writes_read (c := .thread .next x) hx rfl

theorem writes_read_prev (hx : x ∈ L.threads) (h0 : x ≠ 0#32) (q : Word) :
    Writes L (read32 (x + kThreadPrevOffset)) v (v.prevOf q x) v := by
  rw [View.prevOf, prevCell_thread q h0]
  exact writes_read (c := .thread .prev x) hx rfl

/-! ### Linking -/

theorem writes_linkThreadOnRunQueue {priority : Word} (hp : validPriority priority = true)
    (hq : L.IsQueue (runQueueOf priority)) (ht : t ∈ L.threads)
    (htail : L.ThreadOrNone (v.word (.tail (runQueueOf priority)))) :
    Writes L (SelectThread.linkThreadOnRunQueue t priority) v ()
      (v.linkBefore (runQueueOf priority) t 0#32) := by
  unfold SelectThread.linkThreadOnRunQueue
  rw [hp, if_neg (by decide)]
  refine writes_bind (writes_read (c := .tail (runQueueOf priority)) hq rfl) ?_
  refine writes_bind (writes_setQueueNext hq htail t) ?_
  refine writes_bind (writes_write (c := .thread .prev t) ht rfl _) ?_
  refine writes_bind (writes_write (c := .thread .next t) ht rfl _) ?_
  refine writes_bind (writes_write (c := .tail (runQueueOf priority)) hq rfl _) ?_
  refine (writes_write (c := .thread .queue t) ht rfl _).to (View.ext (funext fun c => ?_) rfl)
  simp only [View.linkBefore, View.put_word, View.prevOf, prevCell_zero]
  grind

/-- The thread of the queue that a thread of this priority is put before. -/
def View.insertionPoint (v : View) (priority : Word) (xs : List Word) : Word :=
  first (xs.dropWhile fun x => (v.word (.thread .priority x)).toInt ≤ priority.toInt) 0#32

/-- The search passes the threads with no greater priority number. -/
theorem findInsertBefore_eq {s : Machine Memory} (hs : Represents L s.mem v) (xs ys : List Word)
    (h : v.Queue q (xs ++ ys)) (hys : ∀ y ∈ ys, y ∈ L.threads)
    (priority : Word) (fuel : Nat) :
    findInsertBefore priority fuel (first ys 0#32) s =
      if (ys.takeWhile fun x =>
        (v.word (.thread .priority x)).toInt ≤ priority.toInt).length < fuel
      then .ret (v.insertionPoint priority ys) s else .stop .diverge s := by
  induction fuel generalizing xs ys with
  | zero => simp [findInsertBefore]
  | succ fuel ih =>
    cases ys with
    | nil => simp [findInsertBefore, View.insertionPoint]
    | cons y ys =>
      have hy0 : y ≠ 0#32 := h.ne_zero (by simp)
      have hread : s.mem.read32 (y + kThreadPriorityOffset) =
          some (v.word (.thread .priority y)) :=
        hs.words (.thread .priority y) (hys y List.mem_cons_self)
      have hnext : s.mem.read32 (y + kThreadNextOffset) = some (first ys 0#32) := by
        rw [← h.nextOf_mem, View.nextOf, nextCell_thread q hy0]
        exact hs.words (.thread .next y) (hys y List.mem_cons_self)
      rw [findInsertBefore, first_cons, Routine.ite_apply, if_neg hy0, bind_of (read32_ret hread)]
      by_cases hle : (v.word (.thread .priority y)).toInt ≤ priority.toInt
      · rw [Routine.ite_apply, if_neg (by omega), bind_of (read32_ret hnext),
          ih (xs ++ [y]) ys (by simpa using h) fun x hx => hys x (List.mem_cons_of_mem _ hx)]
        simp [View.insertionPoint, hle]
      · rw [Routine.ite_apply, if_pos (by omega)]
        simp [View.insertionPoint, hle]

theorem View.insertionPoint_split (v : View) (priority : Word) (zs : List Word) :
    ∃ xs ys, zs = xs ++ ys ∧ v.insertionPoint priority zs = first ys 0#32 :=
  ⟨_, _, List.takeWhile_append_dropWhile.symm, rfl⟩

theorem dropWhile_congr {α : Type} {f g : α → Bool} {xs : List α}
    (h : ∀ x ∈ xs, f x = g x) :
    xs.dropWhile f = xs.dropWhile g := by
  induction xs with
  | nil => rfl
  | cons x xs ih =>
    rw [List.dropWhile_cons, List.dropWhile_cons, h x List.mem_cons_self,
      ih fun y hy => h y (List.mem_cons_of_mem x hy)]

/-- Only the priorities in the queue matter. -/
theorem View.insertionPoint_congr {v w : View} {zs : List Word} (priority : Word)
    (h : ∀ z ∈ zs, w.word (.thread .priority z) = v.word (.thread .priority z)) :
    w.insertionPoint priority zs = v.insertionPoint priority zs := by
  have hsame : zs.dropWhile (fun x => (w.word (.thread .priority x)).toInt ≤ priority.toInt) =
      zs.dropWhile fun x => (v.word (.thread .priority x)).toInt ≤ priority.toInt := by
    apply dropWhile_congr
    intro z hz
    rw [h z hz]
  exact congrArg (fun ys => first ys 0#32) hsame

theorem first_mem_of_ne {ys : List Word} (h : first ys 0#32 ≠ 0#32) : first ys 0#32 ∈ ys :=
  (List.mem_cons.mp first_mem).resolve_left h

/-- A thread goes into a queue in the order of the priorities, when the search ends. -/
theorem writes_insertByPriority (hq : L.IsQueue q) (ht : t ∈ L.threads) (ht0 : t ≠ 0#32)
    {zs : List Word} (h : v.Queue q zs) (hzs : ∀ z ∈ zs, z ∈ L.threads)
    (htz : t ∉ zs) {fuel : Nat} {priority : Word} (hfuel : (zs.takeWhile fun x =>
      (v.word (.thread .priority x)).toInt ≤ priority.toInt).length < fuel) :
    Writes L (SleepThread.insertThreadIntoQueueByPriority fuel q t priority) v ()
      (v.linkBefore q t (v.insertionPoint priority zs)) := by
  obtain ⟨xs, ys, hsplit, hpoint⟩ := v.insertionPoint_split priority zs
  generalize hn : v.insertionPoint priority zs = n at hpoint
  unfold SleepThread.insertThreadIntoQueueByPriority
  refine writes_bind (writes_write (c := .thread .queue t) ht rfl q) ?_
  have h' : (v.put (.thread .queue t) q).Queue q zs := h.put (by simp [Cell.Plain]) q
  refine writes_bind (writes_read (c := .head q) hq rfl) ?_
  rw [h'.head_eq]
  have hfind : Sees L (findInsertBefore priority fuel (first zs 0#32))
      (v.put (.thread .queue t) q) n := by
    intro s hs
    have hpt : (v.put (.thread .queue t) q).insertionPoint priority zs = n := by
      rw [← hn]
      simp [View.insertionPoint]
    rw [findInsertBefore_eq hs [] zs h' hzs, hpt, if_pos (by simpa using hfuel)]
  refine writes_bind hfind.writes ?_
  subst hsplit
  have hprev := h.prevOf_mem hpoint
  have hprevT : L.ThreadOrNone (v.prevOf q n) :=
    threadOrNone_of_mem (fun y hy => hzs y (by simp [hy])) hprev
  have hne1 : nextCell q (v.prevOf q n) ≠ .thread .queue t :=
    (Cell.Plain.ne_nextCell (by simp [Cell.Plain]) _ _).symm
  by_cases hn0 : n = 0#32
  · rw [if_pos hn0]
    subst hn0
    refine writes_bind (writes_read (c := .tail q) hq rfl) ?_
    have htail : (v.put (.thread .queue t) q).word (.tail q) = v.prevOf q 0#32 := by
      simp [View.prevOf, prevCell_zero]
    rw [htail]
    refine writes_bind (writes_setQueueNext hq hprevT t) ?_
    refine writes_bind (writes_write (c := .thread .prev t) ht rfl _) ?_
    refine writes_bind (writes_write (c := .thread .next t) ht rfl _) ?_
    refine (writes_write (c := .tail q) hq rfl _).to (View.ext (funext fun c => ?_) rfl)
    rw [View.prevOf, prevCell_zero] at hne1
    simp only [View.linkBefore, View.put_word, View.prevOf, prevCell_zero]
    grind
  · rw [if_neg hn0]
    have hny : n ∈ ys := by
      rw [hpoint] at hn0 ⊢
      exact first_mem_of_ne hn0
    have hnT : n ∈ L.threads := hzs n (by simp [hny])
    have hnt : n ≠ t := fun he => htz (by simp [← he, hny])
    have hpt : v.prevOf q n ≠ t := by
      rintro he
      rcases List.mem_cons.mp (he ▸ hprev) with h0 | hx
      · exact ht0 h0
      · exact htz (by simp [hx])
    refine writes_bind (writes_write (c := .thread .next t) ht rfl _) ?_
    refine writes_bind (writes_read_prev hnT hn0 q) ?_
    have hval : ((v.put (.thread .queue t) q).put (.thread .next t) n).prevOf q n =
        v.prevOf q n := by
      simp [View.prevOf, prevCell_thread q hn0]
    rw [hval]
    refine writes_bind (writes_write (c := .thread .prev n) hnT rfl _) ?_
    refine writes_bind (writes_write (c := .thread .prev t) ht rfl _) ?_
    refine (writes_setQueueNext hq hprevT t).to (View.ext (funext fun c => ?_) rfl)
    have hne : nextCell q (v.prevOf q n) ≠ .thread .next t := by
      rw [← nextCell_thread q ht0]
      simpa using fun he => absurd he hpt
    have hne2 : ∀ x, nextCell q (v.prevOf q n) ≠ .thread .prev x := by
      intro x
      unfold nextCell
      split <;> simp
    have hcell : prevCell q n = .thread .prev n := prevCell_thread q hn0
    simp only [View.linkBefore, View.put_word, hcell]
    grind

/-- More fuel than threads in the queue is enough. -/
theorem writes_insertByPriority_of_length (hq : L.IsQueue q) (ht : t ∈ L.threads)
    (ht0 : t ≠ 0#32) {zs : List Word} (h : v.Queue q zs) (hzs : ∀ z ∈ zs, z ∈ L.threads)
    (htz : t ∉ zs) {fuel : Nat} (hfuel : zs.length < fuel) (priority : Word) :
    Writes L (SleepThread.insertThreadIntoQueueByPriority fuel q t priority) v ()
      (v.linkBefore q t (v.insertionPoint priority zs)) := by
  apply writes_insertByPriority hq ht ht0 h hzs htz
  exact lt_of_le_of_lt (List.takeWhile_sublist _).length_le hfuel

/-- The same under a contract that allows the search not to end, or with enough fuel. -/
theorem goes_insertByPriority {C : Coop.Contract (Machine Memory) Stop Away} {zs : List Word}
    {fuel : Nat} (hstop : (∀ s, C.stops .diverge s) ∨ zs.length < fuel) (hq : L.IsQueue q)
    (ht : t ∈ L.threads) (ht0 : t ≠ 0#32) (h : v.Queue q zs)
    (hzs : ∀ z ∈ zs, z ∈ L.threads) (htz : t ∉ zs) (priority : Word) :
    Goes L C (SleepThread.insertThreadIntoQueueByPriority fuel q t priority) v
      fun _ w => w = v.linkBefore q t (v.insertionPoint priority zs) := by
  by_cases hfuel : (zs.takeWhile fun x =>
      (v.word (.thread .priority x)).toInt ≤ priority.toInt).length < fuel
  · exact (writes_insertByPriority hq ht ht0 h hzs htz hfuel).runs.goes rfl
  -- the search does not end
  unfold SleepThread.insertThreadIntoQueueByPriority
  refine (runs_write (c := .thread .queue t) ht rfl q).then ?_
  have h' : (v.put (.thread .queue t) q).Queue q zs := h.put (by simp [Cell.Plain]) q
  refine (runs_read (c := .head q) hq rfl).then ?_
  rw [h'.head_eq]
  intro s hs
  rw [bind_apply, findInsertBefore_eq hs [] zs h' hzs, if_neg (by simpa using hfuel)]
  refine hstop.elim (fun hd => hd s) fun hlt => absurd ?_ hfuel
  exact lt_of_le_of_lt (List.takeWhile_sublist _).length_le hlt

/-! ### Unlinking -/

/-- The steps that every copy of the removal starts with. -/
theorem writes_unlink_then {α : Type} {w : View} {y : OS α} {a : α} (hq : L.IsQueue q)
    (hn : L.ThreadOrNone (v.nextOf q t)) (hp : L.ThreadOrNone (v.prevOf q t))
    (hy : Writes L y (v.unlink q t) a w) :
    Writes L (do
      setQueuePrev q (v.nextOf q t) (v.prevOf q t)
      setQueueNext q (v.prevOf q t) (v.nextOf q t)
      y) v a w := by
  refine writes_bind (writes_setQueuePrev hq hn _) (writes_bind (writes_setQueueNext hq hp _) ?_)
  have hswap : (v.put (prevCell q (v.nextOf q t)) (v.prevOf q t)).put
      (nextCell q (v.prevOf q t)) (v.nextOf q t) = v.unlink q t := by
    refine View.ext (funext fun c => ?_) rfl
    have := nextCell_ne_prevCell q q (v.prevOf q t) (v.nextOf q t)
    simp only [View.unlink, View.put_word]
    grind
  exact hswap ▸ hy

theorem writes_unlinkNode (hq : L.IsQueue q) (ht : t ∈ L.threads) (ht0 : t ≠ 0#32)
    (hn : L.ThreadOrNone (v.nextOf q t)) (hp : L.ThreadOrNone (v.prevOf q t)) :
    Writes L (SleepThread.unlinkWaitQueueNode q t) v ()
      (((v.unlink q t).put (.thread .next t) 0#32).put (.thread .prev t) 0#32) := by
  refine writes_bind (writes_read_next ht ht0 q) (writes_bind (writes_read_prev ht ht0 q) ?_)
  refine writes_unlink_then hq hn hp ?_
  exact writes_bind (writes_write (c := .thread .next t) ht rfl _)
    (writes_write (c := .thread .prev t) ht rfl _)

theorem writes_unlinkWaitQueueNode (hq : L.IsQueue q) (ht : t ∈ L.threads) (ht0 : t ≠ 0#32)
    (hn : L.ThreadOrNone (v.nextOf q t)) (hp : L.ThreadOrNone (v.prevOf q t)) :
    Writes L (do
      SleepThread.unlinkWaitQueueNode q t
      write32 (t + kThreadQueueOffset) 0#32) v () (v.remove q t) := by
  exact writes_bind (writes_unlinkNode hq ht ht0 hn hp)
    (writes_write (c := .thread .queue t) ht rfl _)

/-- The head of a queue is taken off. -/
theorem runs_popThreadQueueHead (hq : L.IsQueue q) {xs : List Word} (h : v.Queue q (t :: xs))
    (hxs : ∀ x ∈ t :: xs, x ∈ L.threads) :
    Runs L (SelectThread.popThreadQueueHead q t) v (first xs 0#32) (v.unlink q t) := by
  have ht0 : t ≠ 0#32 := h.ne_zero List.mem_cons_self
  have hn : L.ThreadOrNone (first xs 0#32) :=
    threadOrNone_of_mem (fun y hy => hxs y (List.mem_cons_of_mem t hy)) first_mem
  have hread := (writes_read_next (v := v) (hxs t List.mem_cons_self) ht0 q).runs
  rw [h.nextOf_head] at hread
  refine runs_bind hread ?_
  refine runs_bind ((writes_setQueuePrev hq hn _).runs) ?_
  refine runs_bind (runs_write (c := .head q) hq rfl _) ((runs_pure _).to ?_)
  refine View.ext (funext fun c => ?_) rfl
  have := nextCell_ne_prevCell q q 0#32 (first xs 0#32)
  rw [nextCell_zero] at this
  simp only [View.unlink, View.put_word, h.prevOf_head, h.nextOf_head, nextCell_zero]
  grind

end

end wii_switch
