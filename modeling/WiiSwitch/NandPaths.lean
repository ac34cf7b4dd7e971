-- The host path of a guest NAND path (source/switch_nand_open_runtime.cpp). A guest
-- path is normalized to components below the root, and each component is appended to
-- the NAND root of the host.
import WiiSwitch.Lib.Segments
import WiiSwitch.GuestFlat

namespace wii_switch

open Bytes

/-! ## Normalization -/

/-- The bytes of a text. -/
def ascii (s : String) : List Byte := s.toList.map fun c => BitVec.ofNat 8 c.toNat

def slash : Byte := 0x2F#8
def backslash : Byte := 0x5C#8
def dot : Byte := 0x2E#8

/-- The byte is an ASCII digit or letter. -/
def isAlphanumeric (ch : Byte) : Bool :=
  (0x30#8 ≤ ch ∧ ch ≤ 0x39#8) ∨ (0x41#8 ≤ ch ∧ ch ≤ 0x5A#8) ∨
    (0x61#8 ≤ ch ∧ ch ≤ 0x7A#8)

def kFallbackGameCode : Word := 0x524D4350#32

/-- The game code in a low-memory word, or the fallback. -/
def gameCode (code : Word) : Word :=
  if [24, 16, 8, 0].all fun shift => isAlphanumeric ((code >>> shift).setWidth 8) then code
  else kFallbackGameCode

/-- `CurrentGameCode`, by the word at 0x80000000 when that is mapped. -/
def currentGameCode (low : Option Word) : Word := low.elim kFallbackGameCode gameCode

/-- A digit of `%x`. -/
def hexDigit (n : Nat) : Byte := BitVec.ofNat 8 (if n < 10 then 0x30 + n else 0x57 + n)

/-- `%08x`. -/
def hexWord (code : Word) : List Byte :=
  [28, 24, 20, 16, 12, 8, 4, 0].map fun shift => hexDigit ((code >>> shift).toNat % 16)

/-- `CurrentDataDir`. -/
def currentDataDir (code : Word) : List Byte :=
  ascii "/title/00010004/" ++ hexWord code ++ ascii "/data"

/-- The end of a part: `..` drops the last part, and an empty part or `.` is no part. -/
def closePart (part : List Byte) (parts : List (List Byte)) : List (List Byte) :=
  if part = [dot, dot] then parts.dropLast
  else if part ≠ [] ∧ part ≠ [dot] then parts ++ [part] else parts

/-- The loop of `Normalize` over the characters behind the first one. -/
def splitParts : List Byte → List Byte → List (List Byte) → List (List Byte)
  | [], part, parts => closePart part parts
  | c :: rest, part, parts =>
    if c ≠ slash then splitParts rest (part ++ [c]) parts
    else splitParts rest [] (closePart part parts)

/-- `std::replace(path.begin(), path.end(), '\\', '/')`. -/
def replaceBackslashes (path : List Byte) : List Byte :=
  path.map fun c => if c = backslash then slash else c

/-- The path from the root, in the data directory when it is relative. -/
def rooted (dataDir path : List Byte) : List Byte :=
  if path.head? ≠ some slash then dataDir ++ slash :: path else path

/-- `Normalize`. -/
def normalize (dataDir path : List Byte) : List Byte :=
  let path := replaceBackslashes path
  if path = [] then []
  else
    let parts := splitParts (rooted dataDir path).tail [] []
    let result := Segments.join slash parts
    if result = [] then [slash] else result

/-! ## The host path -/

/-- The loop of `HostPath` from the cursor on: `append` is the append of a component to a
host path. -/
def hostPathLoop {π : Type} (append : π → List Byte → π) (host : π)
    (guestPath : List Byte) : π :=
  if _hempty : guestPath = [] then host
  else
    let component := guestPath.takeWhile (· ≠ slash)
    let host := if component ≠ [] then append host component else host
    match _hrest : guestPath.dropWhile (· ≠ slash) with
    | [] => host
    | _ :: rest => hostPathLoop append host rest
termination_by guestPath.length
decreasing_by
  have hle := (List.dropWhile_sublist (l := guestPath) (· ≠ slash)).length_le
  rw [_hrest] at hle
  exact hle

/-- `HostPath`, with `nandRoot` as the root. -/
def hostPath {π : Type} (append : π → List Byte → π) (nandRoot : π)
    (guestPath : List Byte) : π :=
  hostPathLoop append nandRoot guestPath

/-! ## The parts of a normalized path -/

/-- A component that names something below its directory. -/
def IsComponent (part : List Byte) : Prop :=
  part ≠ [] ∧ part ≠ [dot] ∧ part ≠ [dot, dot] ∧ slash ∉ part ∧ backslash ∉ part

theorem IsComponent.plain {part : List Byte} (h : IsComponent part) : Segments.Plain slash part :=
  ⟨h.1, h.2.2.2.1⟩

/-- The end of a part keeps the parts components. -/
theorem closePart_components {part : List Byte} {parts : List (List Byte)}
    (hpart : slash ∉ part ∧ backslash ∉ part) (h : ∀ x ∈ parts, IsComponent x) :
    ∀ x ∈ closePart part parts, IsComponent x := by
  unfold closePart
  split
  · exact fun x hx => h x (List.dropLast_subset parts hx)
  rename_i hdots
  split
  · rename_i hne
    intro x hx
    rcases List.mem_append.mp hx with hx | hx
    · exact h x hx
    · rw [List.mem_singleton.mp hx]
      exact ⟨hne.1, hne.2, hdots, hpart⟩
  · exact h

theorem splitParts_components {path part : List Byte} {parts : List (List Byte)}
    (hpath : backslash ∉ path) (hpart : slash ∉ part ∧ backslash ∉ part)
    (h : ∀ x ∈ parts, IsComponent x) : ∀ x ∈ splitParts path part parts, IsComponent x := by
  induction path generalizing part parts with
  | nil => exact closePart_components hpart h
  | cons c path ih =>
    rw [List.mem_cons, not_or] at hpath
    unfold splitParts
    split
    · rename_i hc
      refine ih hpath.2 ⟨?_, ?_⟩ h
      · simp only [List.mem_append, List.mem_singleton, not_or]
        exact ⟨hpart.1, Ne.symm hc⟩
      · simp only [List.mem_append, List.mem_singleton, not_or]
        exact ⟨hpart.2, hpath.1⟩
    · exact ih hpath.2 ⟨List.not_mem_nil, List.not_mem_nil⟩ (closePart_components hpart h)

theorem hexDigit_ne_backslash {n : Nat} (h : n < 16) : hexDigit n ≠ backslash := by
  have : ∀ n : Fin 16, hexDigit n ≠ backslash := by decide
  exact this ⟨n, h⟩

theorem backslash_not_mem_dataDir (code : Word) : backslash ∉ currentDataDir code := by
  unfold currentDataDir
  simp only [List.mem_append, not_or]
  refine ⟨⟨by decide, fun hmem => ?_⟩, by decide⟩
  obtain ⟨shift, -, hdigit⟩ := List.mem_map.mp hmem
  exact hexDigit_ne_backslash (Nat.mod_lt _ (by decide)) hdigit

theorem backslash_not_mem_replace (path : List Byte) : backslash ∉ replaceBackslashes path := by
  intro hmem
  obtain ⟨c, -, hc⟩ := List.mem_map.mp hmem
  split at hc
  · exact absurd hc (by decide)
  · contradiction

theorem backslash_not_mem_rooted {dataDir path : List Byte} (hd : backslash ∉ dataDir)
    (hp : backslash ∉ path) : backslash ∉ rooted dataDir path := by
  unfold rooted
  split
  · simp only [List.mem_append, List.mem_cons, not_or]
    exact ⟨hd, by decide, hp⟩
  · exact hp

/-- The parts of a path. -/
def partsOf (dataDir path : List Byte) : List (List Byte) :=
  splitParts (rooted dataDir (replaceBackslashes path)).tail [] []

theorem partsOf_components (code : Word) (path : List Byte) :
    ∀ x ∈ partsOf (currentDataDir code) path, IsComponent x := by
  refine splitParts_components ?_ ⟨List.not_mem_nil, List.not_mem_nil⟩
    fun x hx => absurd hx List.not_mem_nil
  have hrooted := backslash_not_mem_rooted (backslash_not_mem_dataDir code)
    (backslash_not_mem_replace path)
  exact fun h => hrooted (List.mem_of_mem_tail h)

/-- A normalized path is its parts, each behind a slash, or the root. -/
theorem normalize_eq {path : List Byte} (hne : path ≠ []) (dataDir : List Byte) :
    normalize dataDir path =
      if partsOf dataDir path = [] then [slash]
        else Segments.join slash (partsOf dataDir path) := by
  have hreplace : replaceBackslashes path ≠ [] := by simpa [replaceBackslashes] using hne
  simp only [normalize, if_neg hreplace]
  exact if_congr Segments.join_eq_nil rfl rfl

/-- The components that `HostPath` appends are the non-empty pieces of the path. -/
theorem hostPathLoop_eq {π : Type} (append : π → List Byte → π) (host : π)
    (guestPath : List Byte) :
    hostPathLoop append host guestPath = (Segments.pieces slash guestPath).foldl append host := by
  induction hn : guestPath.length using Nat.strong_induction_on generalizing guestPath host with
  | _ n ih =>
    subst hn
    cases guestPath with
    | nil => rw [hostPathLoop, dif_pos rfl, Segments.pieces_nil, List.foldl_nil]
    | cons c l =>
      rw [hostPathLoop, dif_neg (List.cons_ne_nil c l)]
      by_cases hc : c = slash
      · subst hc
        simp only [ne_eq, decide_not, decide_true, Bool.not_true, Bool.false_eq_true,
          not_false_eq_true, List.takeWhile_cons_of_neg, not_true_eq_false, if_false,
          Segments.pieces_sep]
        exact ih _ (Nat.lt_succ_self _) host l rfl
      · rw [Segments.pieces, if_neg hc, List.foldl_cons]
        have htake : (c :: l).takeWhile (· ≠ slash) = c :: l.takeWhile (· ≠ slash) :=
          List.takeWhile_cons_of_pos (decide_eq_true hc)
        have hdrop : (c :: l).dropWhile (· ≠ slash) = l.dropWhile (· ≠ slash) :=
          List.dropWhile_cons_of_pos (decide_eq_true hc)
        simp only [htake, ne_eq, List.cons_ne_nil, not_false_eq_true, if_true]
        split
        · rename_i hrest
          rw [hdrop] at hrest
          rw [hrest, Segments.pieces_nil, List.foldl_nil]
        · rename_i d rest hrest
          rw [hdrop] at hrest
          have hd : d = slash := by
            have := List.head?_dropWhile_not (p := (· ≠ slash)) (l := l)
            rw [hrest] at this
            simpa using this
          have hlen := (List.dropWhile_sublist (l := l) (· ≠ slash)).length_le
          rw [hrest, List.length_cons] at hlen
          rw [hrest, hd, Segments.pieces_sep]
          exact ih _ (by rw [List.length_cons]; omega) _ rest rfl

/-- The components of the host path of a guest path are its parts. -/
theorem hostPath_normalize {π : Type} (append : π → List Byte → π) (root : π)
    {path : List Byte} (hne : path ≠ []) (code : Word) :
    hostPath append root (normalize (currentDataDir code) path) =
      (partsOf (currentDataDir code) path).foldl append root := by
  have hparts := partsOf_components code path
  rw [hostPath, hostPathLoop_eq, normalize_eq hne]
  split
  · rename_i hnil
    rw [hnil, Segments.pieces_sep, Segments.pieces_nil]
  · rw [Segments.pieces_join fun x hx => (hparts x hx).plain]

/-! ## Containment -/

section

variable {π : Type} {append : π → List Byte → π}
    {components : π → List (List Byte)} {root : π}

/-- Each append of a part adds one component. -/
theorem components_foldl (happend : ∀ p part, part ≠ [] → slash ∉ part →
      components (append p part) = components p ++ [part])
    {parts : List (List Byte)} (h : ∀ x ∈ parts, IsComponent x) (host : π) :
    components (parts.foldl append host) = components host ++ parts := by
  induction parts generalizing host with
  | nil => simp
  | cons x parts ih =>
    have hx := h x List.mem_cons_self
    rw [List.foldl_cons, ih fun y hy => h y (List.mem_cons_of_mem x hy),
      happend host x hx.plain.1 hx.plain.2, List.append_assoc, List.singleton_append]

/-- Guest paths stay below the NAND root: the host path is the root with components
behind it, none of which leads up or has a separator in it. Two guest paths have the same
host path exactly when their normalized forms are the same. It is assumed that the append
of a component adds that component to the host path. -/
theorem guest_paths_stay_below_the_root (happend : ∀ p part, part ≠ [] → slash ∉ part →
      components (append p part) = components p ++ [part])
    (low : Option Word) {path : List Byte} (hne : path ≠ []) :
    (∃ parts, components
        (hostPath append root (normalize (currentDataDir (currentGameCode low)) path)) =
          components root ++ parts ∧ ∀ part ∈ parts, IsComponent part) ∧
    ∀ (low' : Option Word) (path' : List Byte), path' ≠ [] →
      (hostPath append root (normalize (currentDataDir (currentGameCode low)) path) =
          hostPath append root (normalize (currentDataDir (currentGameCode low')) path') ↔
        normalize (currentDataDir (currentGameCode low)) path =
          normalize (currentDataDir (currentGameCode low')) path') := by
  have hparts := partsOf_components (currentGameCode low) path
  refine ⟨⟨_, ?_, hparts⟩, fun low' path' hne' =>
    ⟨fun heq => ?_, fun heq => by rw [heq]⟩⟩
  · rw [hostPath_normalize append root hne, components_foldl happend hparts]
  · rw [hostPath_normalize append root hne, hostPath_normalize append root hne'] at heq
    have hcomponents := congrArg components heq
    rw [components_foldl happend hparts,
      components_foldl happend (partsOf_components (currentGameCode low') path'),
      List.append_cancel_left_eq] at hcomponents
    rw [normalize_eq hne, normalize_eq hne', hcomponents]

end

/-- The law for a path that tries to climb out, with host paths as lists of components. -/
theorem a_climbing_path_stays_below_the_root :
    (∃ parts, hostPath (fun p part => p ++ [part]) [ascii "NAND"]
        (normalize (currentDataDir (currentGameCode none)) (ascii "/..\\../tmp//./x")) =
          [ascii "NAND"] ++ parts ∧ ∀ part ∈ parts, IsComponent part) :=
  (@guest_paths_stay_below_the_root _ _ id _ (fun _ _ _ _ => rfl) none _ (by decide)).1

end wii_switch
