-- Sources that are read in pieces. A key is opened on a source by its name, and each piece that
-- is taken by the key begins where the pieces before it end. A table may give keys of its own to
-- the keys of another party; when the two histories mirror each other, the keys of the table read
-- the same pieces.
import Mathlib.Logic.Function.Basic
import Mathlib.Data.List.Infix

namespace Cursors

variable {κ μ ν α : Type}

/-- What happens to a key. -/
inductive Entry (κ ν α : Type) where
  | opened (key : κ) (name : ν)
  | took (key : κ) (piece : List α)
deriving DecidableEq

/-- The keys that were opened. Histories are newest first. -/
def keys : List (Entry κ ν α) → List κ
  | [] => []
  | .opened k _ :: past => k :: keys past
  | .took _ _ :: past => keys past

section

variable [DecidableEq κ] [DecidableEq μ]

/-- The name that a key was opened with last. -/
def name : List (Entry κ ν α) → κ → Option ν
  | [], _ => none
  | .opened k n :: past, key => if k = key then some n else name past key
  | .took _ _ :: past, key => name past key

/-- The pieces that were taken by a key since it was opened. -/
def taken : List (Entry κ ν α) → κ → List α
  | [], _ => []
  | .opened k _ :: past, key => if k = key then [] else taken past key
  | .took k piece :: past, key => if k = key then taken past key ++ piece else taken past key

/-- Each piece is what comes next in the source of its key. -/
def Faithful (sources : ν → List α) : List (Entry κ ν α) → Prop
  | [] => True
  | .opened _ _ :: past => Faithful sources past
  | .took k piece :: past => Faithful sources past ∧
    ∃ n, name past k = some n ∧ piece <+: (sources n).drop (taken past k).length

variable {sources : ν → List α} {past g : List (Entry κ ν α)} {h : List (Entry μ ν α)}
  {k key : κ} {a : μ} {n : ν} {piece : List α} {link : κ → Option μ}

@[simp] theorem name_opened : name (.opened k n :: past) key =
    if k = key then some n else name past key := rfl

@[simp] theorem name_took : name (.took k piece :: past) key = name past key := rfl

@[simp] theorem taken_opened : taken (.opened k n :: past) key =
    if k = key then [] else taken past key := rfl

@[simp] theorem taken_took : taken (.took k piece :: past) key =
    if k = key then taken past key ++ piece else taken past key := rfl

/-- What a key took is the beginning of its source. -/
theorem Faithful.taken_prefix (hf : Faithful sources past) (hname : name past key = some n) :
    taken past key <+: sources n := by
  induction past with
  | nil => cases hname
  | cons e past ih =>
    cases e with
    | opened k m =>
      rw [name_opened] at hname
      rw [taken_opened]
      split
      · exact List.nil_prefix
      · rename_i hne
        rw [if_neg hne] at hname
        exact ih hf hname
    | took k piece =>
      rw [name_took] at hname
      rw [taken_took]
      split
      · rename_i heq
        subst heq
        obtain ⟨hpast, m, hm, hpiece⟩ := hf
        obtain rfl : m = n := Option.some.inj (hm.symm.trans hname)
        obtain ⟨rest, hrest⟩ := ih hpast hname
        rw [← hrest, List.drop_left] at hpiece
        rw [← hrest]
        exact (List.prefix_append_right_inj _).mpr hpiece
      · exact ih hf.1 hname

/-! ## Keys for the keys of another -/

/-- Each key that stands for a key of the other history has its name and its pieces. -/
structure Mirrors (link : κ → Option μ) (g : List (Entry κ ν α))
    (h : List (Entry μ ν α)) :
    Prop where
  one : ∀ k k' a, link k = some a → link k' = some a → k' = k
  name : ∀ k a, link k = some a → name g k = name h a
  taken : ∀ k a, link k = some a → taken g k = taken h a

theorem Mirrors.none (g : List (Entry κ ν α)) (h : List (Entry μ ν α)) :
    Mirrors (fun _ => Option.none) g h where
  one k k' a hk := by cases hk
  name k a hk := by cases hk
  taken k a hk := by cases hk

/-- A piece goes to both. -/
theorem Mirrors.took (hm : Mirrors link g h) (hk : link k = some a) (piece : List α) :
    Mirrors link (.took k piece :: g) (.took a piece :: h) := by
  constructor
  case one => exact hm.one
  case name => exact fun key b hkey => hm.name key b hkey
  case taken =>
    intro key b hkey
    rw [taken_took, taken_took, hm.taken key b hkey]
    by_cases heq : k = key
    · subst heq
      rw [if_pos rfl, if_pos (Option.some.inj (hk.symm.trans hkey))]
    · rw [if_neg heq, if_neg]
      intro hab
      subst hab
      exact heq (hm.one key k a hkey hk)

/-- The other opens a key that none stands for. -/
theorem Mirrors.opened_there (hm : Mirrors link g h) (ha : ∀ k, link k ≠ some a) (n : ν) :
    Mirrors link g (.opened a n :: h) := by
  have hne : ∀ key b, link key = some b → a ≠ b := by
    rintro key _ hkey rfl
    exact ha key hkey
  constructor
  case one => exact hm.one
  case name =>
    exact fun key b hkey => by rw [name_opened, if_neg (hne key b hkey), hm.name key b hkey]
  case taken =>
    exact fun key b hkey => by rw [taken_opened, if_neg (hne key b hkey), hm.taken key b hkey]

/-- A new key stands for one that the other opens. -/
theorem Mirrors.opened (hm : Mirrors link g h) (ha : ∀ k, link k ≠ some a) (k : κ) (n : ν) :
    Mirrors (Function.update link k (some a)) (.opened k n :: g) (.opened a n :: h) := by
  have hthere := hm.opened_there ha n
  constructor
  case one =>
    intro i j b hi hj
    by_cases hik : i = k <;> by_cases hjk : j = k
    · rw [hik, hjk]
    · subst hik
      rw [Function.update_self] at hi
      rw [Function.update_of_ne hjk, ← hi] at hj
      exact absurd hj (ha j)
    · subst hjk
      rw [Function.update_self] at hj
      rw [Function.update_of_ne hik, ← hj] at hi
      exact absurd hi (ha i)
    · rw [Function.update_of_ne hik] at hi
      rw [Function.update_of_ne hjk] at hj
      exact hm.one i j b hi hj
  case name =>
    intro key b hkey
    by_cases heq : k = key
    · subst heq
      rw [Function.update_self] at hkey
      rw [name_opened, name_opened, if_pos rfl, if_pos (Option.some.inj hkey)]
    · rw [Function.update_of_ne (Ne.symm heq)] at hkey
      rw [name_opened, if_neg heq, hthere.name key b hkey]
  case taken =>
    intro key b hkey
    by_cases heq : k = key
    · subst heq
      rw [Function.update_self] at hkey
      rw [taken_opened, taken_opened, if_pos rfl, if_pos (Option.some.inj hkey)]
    · rw [Function.update_of_ne (Ne.symm heq)] at hkey
      rw [taken_opened, if_neg heq, hthere.taken key b hkey]

/-- A key is forgotten. -/
theorem Mirrors.erase {link' : κ → Option μ} (hm : Mirrors link g h)
    (hle : ∀ k a, link' k = some a → link k = some a) : Mirrors link' g h where
  one k k' a hk hk' := hm.one k k' a (hle k a hk) (hle k' a hk')
  name k a hk := hm.name k a (hle k a hk)
  taken k a hk := hm.taken k a (hle k a hk)

/-- A piece that comes next there comes next here. -/
theorem Mirrors.faithful (hm : Mirrors link g h) (hk : link k = some a) (hg : Faithful sources g)
    (hh : Faithful sources (.took a piece :: h)) : Faithful sources (.took k piece :: g) := by
  obtain ⟨_, n, hn, hpiece⟩ := hh
  refine ⟨hg, n, ?_, ?_⟩
  · rw [hm.name k a hk, hn]
  · rw [hm.taken k a hk]
    exact hpiece

end

end Cursors
