-- The script that names the type in the bare aggregate returns of state-free functions.
-- A scanner goes over the lines of a file; two flags and a depth of braces say whether
-- it is in a function that returns `MkwStateFreeResult2`.
import WiiSwitch.Lib.PyText

namespace wii_switch.returns

open PyText

variable (alnum : Char → Bool)

/-! ## The patterns -/

def resultType : Text :=
  ['M', 'k', 'w', 'S', 't', 'a', 't', 'e', 'F', 'r', 'e', 'e', 'R', 'e', 's', 'u', 'l', 't', '2']

def returnWord : Text := ['r', 'e', 't', 'u', 'r', 'n']

/-- `return MkwStateFreeResult2{` -/
def replacement : Text := returnWord ++ ' ' :: resultType ++ ['{']

def isIdentStart (c : Char) : Bool := c.isAlpha || c == '_'

def isIdent (c : Char) : Bool := c.isAlphanum || c == '_'

/-- `[A-Za-z0-9_]*\s*\(` -/
def opensParams (t : Text) : Bool :=
  ((t.dropWhile isIdent).dropWhile isSpace).head? == some '('

/-- `\s+[A-Za-z_][A-Za-z0-9_]*\s*\(` -/
def namesFunction (t : Text) : Bool :=
  t.head?.any isSpace && (t.dropWhile isSpace).head?.any isIdentStart &&
    opensParams (t.dropWhile isSpace)

/-- `FUNC_START` at the head of the text. -/
def funcStartAt (t : Text) : Bool :=
  match resultType.isPrefixOf? t with
  | none => false
  | some r => namesFunction r

/-- `FUNC_START.search`, where `prev` says that a word character stands before the text. -/
def funcStart (prev : Bool) : Text → Bool
  | [] => false
  | c :: t => !prev && funcStartAt (c :: t) || funcStart (isWord alnum c) t

/-- The length of a match of `BARE_RETURN` at the head of the text. -/
def bareReturnAt (t : Text) : Option Nat :=
  match returnWord.isPrefixOf? t with
  | none => none
  | some r =>
    if (r.dropWhile isSpace).head? = some '{' then
      some (returnWord.length + (r.takeWhile isSpace).length + 1)
    else none

/-- `BARE_RETURN.subn`: the text with the replacements, and their number. The next `skip`
characters belong to the last match. -/
def subReturn (prev : Bool) (skip : Nat) : Text → Text × Nat
  | [] => ([], 0)
  | c :: t =>
    match skip with
    | k + 1 => subReturn (isWord alnum c) k t
    | 0 =>
      match if prev then none else bareReturnAt (c :: t) with
      | none => (c :: (subReturn (isWord alnum c) 0 t).1, (subReturn (isWord alnum c) 0 t).2)
      | some n =>
        (replacement ++ (subReturn (isWord alnum c) (n - 1) t).1,
          (subReturn (isWord alnum c) (n - 1) t).2 + 1)

/-! ## The scanner -/

/-- `brace_delta` from a position in the line. -/
def braceDelta (inString inChar escape : Bool) : Text → Int
  | [] => 0
  | ch :: t =>
    if escape then braceDelta inString inChar false t
    else if inString then
      if ch = '\\' then braceDelta inString inChar true t
      else if ch = '"' then braceDelta false inChar escape t
      else braceDelta inString inChar escape t
    else if inChar then
      if ch = '\\' then braceDelta inString inChar true t
      else if ch = '\'' then braceDelta inString false escape t
      else braceDelta inString inChar escape t
    else if ch = '/' ∧ t.head? = some '/' then 0
    else if ch = '"' then braceDelta true inChar escape t
    else if ch = '\'' then braceDelta inString true escape t
    else if ch = '{' then 1 + braceDelta inString inChar escape t
    else if ch = '}' then -1 + braceDelta inString inChar escape t
    else braceDelta inString inChar escape t

structure Scan where
  pending : Bool
  active : Bool
  depth : Int

/-- A line of a declaration sets `pending`. -/
def Scan.enter (s : Scan) (line : Text) : Scan :=
  if !s.active && !s.pending && funcStart alnum false line then { s with pending := true } else s

/-- The line ends a forward declaration, which is not a function body. -/
def Scan.prototype (s : Scan) (line : Text) : Bool :=
  s.pending && line.contains ';' && !line.contains '{'

def Scan.opens (s : Scan) (line : Text) : Bool :=
  s.pending && line.contains '{'

def Scan.advance (s : Scan) (line : Text) : Scan :=
  if s.opens line then ⟨false, true, braceDelta false false false line⟩
  else if s.active then { s with depth := s.depth + braceDelta false false false line }
  else s

def Scan.leave (s : Scan) : Scan :=
  if s.depth ≤ 0 then { s with active := false, depth := 0 } else s

/-- What one turn of the loop gives. -/
structure Turn where
  scan : Scan
  line : Text
  functions : Nat
  replacements : Nat

def normalizeLine (s : Scan) (line : Text) : Turn :=
  let s := s.enter alnum line
  if s.pending || s.active then
    if s.prototype line then ⟨{ s with pending := false }, line, 0, 0⟩
    else
      let functions := if s.opens line then 1 else 0
      let s := s.advance line
      if s.active then
        let r := subReturn alnum false 0 line
        ⟨s.leave, r.1, functions, r.2⟩
      else ⟨s, line, functions, 0⟩
  else ⟨s, line, 0, 0⟩

structure Normalized where
  out : List Text
  functions : Nat
  replacements : Nat

def normalizeLines (s : Scan) : List Text → Normalized
  | [] => ⟨[], 0, 0⟩
  | line :: lines =>
    let t := normalizeLine alnum s line
    let r := normalizeLines t.scan lines
    ⟨t.line :: r.out, t.functions + r.functions, t.replacements + r.replacements⟩

def Scan.initial : Scan := ⟨false, false, 0⟩

/-- The loop of `normalize_file` over the lines of a text. -/
def normalizeText (original : Text) : Normalized :=
  normalizeLines alnum .initial (splitLines original)

/-- `normalize_file`: the content of the file after it, and what it returns. The file is
only written if the text has changed. -/
def normalizeFile (content : Text) : Text × Nat × Nat :=
  let original := readText content
  let r := normalizeText alnum original
  let rewritten := r.out.flatten
  (if rewritten ≠ original then rewritten else content, r.functions, r.replacements)

end wii_switch.returns
