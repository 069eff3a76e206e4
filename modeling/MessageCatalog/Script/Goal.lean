/-
The constructs that nest in one another. Every rule of the grammar is written over the readers of
these goals, so that the knot is tied in one place, where the depth of nesting is bounded.
-/
import MessageCatalog.Script.Reader

namespace MessageCatalog.Script

/-- A name that a pattern binds, and where it stands. -/
abbrev BoundName := String × Nat

inductive Goal where
  /-- Expressions between commas. -/
  | expression
  /-- One expression; whether an arrow function in it may state its result type. -/
  | assignment (resultType : Bool)
  /-- Operands joined by operators that bind tighter than a level. -/
  | binary (level : Nat)
  | unary
  /-- A statement; a sole one is not part of a list of statements. -/
  | statement (sole : Bool)
  | pattern
  | type

def Goal.Result (source : List Char) : Goal → Type
  | .expression | .assignment _ | .binary _ | .unary => Expr source
  | .statement _ => Statement source
  | .pattern => List BoundName
  | .type => PUnit

/-- A reader for every goal. -/
abbrev Readers (source : List Char) := (goal : Goal) → Reader source (goal.Result source)

namespace Readers

variable {source : List Char} (go : Readers source)

def expression : Reader source (Expr source) := go .expression

def assignment : Reader source (Expr source) := go (.assignment true)

def unary : Reader source (Expr source) := go .unary

def statement : Reader source (Statement source) := go (.statement false)

def soleStatement : Reader source (Statement source) := go (.statement true)

def pattern : Reader source (List BoundName) := go .pattern

def type : Reader source PUnit := go .type

end Readers

/-! ## Words -/

/-- Words that are never identifiers. -/
def reservedWords : List String :=
  ["break", "case", "catch", "class", "const", "continue", "debugger", "default", "delete", "do",
    "else", "enum", "export", "extends", "false", "finally", "for", "function", "if", "import",
    "in", "instanceof", "new", "null", "return", "super", "switch", "this", "throw", "true", "try",
    "typeof", "var", "void", "while", "with"]

def isIdentifierWord (text : String) : Bool := !reservedWords.contains text

namespace Reader

variable {source : List Char}

/-- The current token is an identifier. -/
def atIdentifier : Reader source Bool := do
  match ← kind with
  | .name text => return isIdentifierWord text
  | _ => return false

/-- `await` and `yield` name nothing in the functions where they are operators. -/
def isOperatorWord (text : String) : Reader source Bool := do
  let s ← around
  return (text = "await" && s.insideAsync) || (text = "yield" && s.insideGenerator)

/-- Takes an identifier. -/
def identifier : Reader source BoundName := do
  match ← kind with
  | .name text =>
    if isIdentifierWord text then
      let place ← start
      if ← isOperatorWord text then fault place
      advance
      return (text, place)
    else unexpected
  | _ => unexpected

/-- Takes a name, which may be a keyword. -/
def anyName : Reader source BoundName := do
  match ← kind with
  | .name text =>
    let place ← start
    advance
    return (text, place)
  | _ => unexpected

/-- The kind of the token behind the current one, and whether a line ended in front of it. -/
def peek : Reader source (TokenKind × Bool) :=
  lookahead (.endOfText, true) do
    advance
    return (← kind, ← onNewLine)

/-- The current token can start the name of a property. -/
def atPropertyName : Reader source Bool := do
  match ← kind with
  | .name _ | .string _ | .number _ | .bigint | .privateName => return true
  | .punctuator p => return p = "["
  | _ => return false

end Reader

end MessageCatalog.Script
