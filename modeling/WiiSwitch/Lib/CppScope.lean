-- The lexical scopes of C++ text: literals and comments, and the bodies of some functions. A
-- cursor reads the text by characters. Which braces open the body of such a function is for
-- the grammar of C++ to say, and a parameter here.
import Mathlib.Data.List.Basic

namespace CppScope

/-! ## Literals and comments -/

/-- What the next character belongs to. After a slash that is not yet known: it may begin
a comment. -/
inductive Mode
  | code
  | slash
  | comment
  | string
  | stringEscape
  | char
  | charEscape
  deriving DecidableEq

def Mode.isCode : Mode → Bool
  | .code => true
  | .slash => true
  | _ => false

/-! ## The cursor -/

/-- The position of a character in the text, and the braces that are open there, counted from the
one that opens the body; outside of the bodies, 0. -/
structure Cursor where
  mode : Mode
  depth : Nat
  position : Nat

def Cursor.start : Cursor := ⟨.code, 0, 0⟩

/-- The cursor is on code in a body. -/
def Cursor.inBody (cur : Cursor) : Bool := cur.mode.isCode && decide (0 < cur.depth)

variable (opens : Nat → Bool)

/-- The open braces behind a character of code. -/
def nest (position depth : Nat) (c : Char) : Nat :=
  if c = '{' then (if 0 < depth ∨ opens position = true then depth + 1 else 0)
  else if c = '}' then depth - 1
  else depth

/-- A character where a token may begin. -/
def codeStep (position depth : Nat) (c : Char) : Cursor :=
  if c = '/' then ⟨.slash, depth, position + 1⟩
  else if c = '"' then ⟨.string, depth, position + 1⟩
  else if c = '\'' then ⟨.char, depth, position + 1⟩
  else ⟨.code, nest opens position depth c, position + 1⟩

/-- A line break ends a comment, and a literal that has not ended before. -/
def Cursor.step (cur : Cursor) (c : Char) : Cursor :=
  let goes (mode : Mode) : Cursor := ⟨mode, cur.depth, cur.position + 1⟩
  match cur.mode with
  | .code => codeStep opens cur.position cur.depth c
  | .slash => if c = '/' then goes .comment else codeStep opens cur.position cur.depth c
  | .comment => if c = '\n' then goes .code else goes .comment
  | .string =>
    if c = '\n' ∨ c = '"' then goes .code
    else if c = '\\' then goes .stringEscape
    else goes .string
  | .stringEscape => if c = '\n' then goes .code else goes .string
  | .char =>
    if c = '\n' ∨ c = '\'' then goes .code
    else if c = '\\' then goes .charEscape
    else goes .char
  | .charEscape => if c = '\n' then goes .code else goes .char

def Cursor.run (cur : Cursor) (t : List Char) : Cursor := t.foldl (Cursor.step opens) cur

end CppScope
