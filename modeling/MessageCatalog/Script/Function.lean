/-
Functions and classes: parameters, bodies, members. Only their extents are kept.
-/
import MessageCatalog.Script.Pattern
import MessageCatalog.Script.TypeSyntax

namespace MessageCatalog.Script

namespace Function

open Reader TypeSyntax

variable {source : List Char} (go : Readers source)

/-! ## Parameters -/

/-- Words that may stand in front of a parameter or a member where type syntax is allowed. -/
def accessWords : List String := ["public", "private", "protected", "readonly", "override"]

def skipAccessWords : Reader source PUnit := do
  if (← around).typed then
    loop () fun _ => do
      match ← kind with
      | .name text =>
        if accessWords.contains text then
          match ← peek with
          | (.name _, _) | (.punctuator "\x7b", _) | (.punctuator "[", _) =>
            advance
            return ((), true)
          | _ => return ((), false)
        else return ((), false)
      | _ => return ((), false)

def decorators : Reader source PUnit :=
  loop () fun _ => do
    if ← eat "@" then
      let _ ← go.unary
      return ((), true)
    else return ((), false)

def parameter : Reader source PUnit := do
  decorators go
  skipAccessWords
  if ← eat "..." then
    let _ ← go.pattern
    let _ ← typeAnnotation go
  else
    if (← around).typed && (← isWord "this") then advance else let _ ← go.pattern
    if (← around).typed then let _ ← eat "?"
    let _ ← typeAnnotation go
    if ← eat "=" then let _ ← within (fun s => { s with allowIn := true }) go.assignment

/-- The parameters of a function. -/
structure Parameters where
  start : Nat
  count : Nat
  /-- Where a parameter that takes the rest starts. -/
  rest : Option Nat

def parameters : Reader source Parameters := do
  let place ← start
  expect "("
  let (items, rest) ← restList ")" (parameter go)
  expect ")"
  return ⟨place, items.length, rest⟩

/-! ## Bodies -/

/-- Statements up to a closing brace, which is left. -/
def statements : Reader source PUnit :=
  loop () fun _ => do
    match ← kind with
    | .punctuator "\x7d" | .endOfText => return ((), false)
    | _ =>
      let _ ← go.statement
      return ((), true)

def block : Reader source PUnit := do
  expect "\x7b"
  statements go
  expect "\x7d"

def insideFunction (async generator : Bool) (s : Surroundings) : Surroundings :=
  { s with
    allowIn := true, insideFunction := true, insideAsync := async, insideGenerator := generator
    noConditionalType := false }

def body (async generator : Bool) : Reader source PUnit :=
  within (insideFunction async generator) (block go)

/-- A body, or where type syntax is allowed the end of a statement in its place. -/
def bodyOrSignature (async generator : Bool) : Reader source PUnit := do
  if (← isPunctuator "\x7b") || !(← around).typed then body go async generator else semicolon

/-- Type parameters, parameters and result type. -/
def head (async generator : Bool) : Reader source Parameters := do
  optionalTypeParameters go
  let parameters ← within (insideFunction async generator) (parameters go)
  let _ ← resultAnnotation go
  return parameters

/-- Where a function stands. -/
inductive Role where
  | expression
  /-- A declaration, which needs a name. -/
  | declaration
  | defaultExport
  deriving DecidableEq

/--
A function from its keyword on, with whether it is a generator; `isAsync` if that word stood in
front.
-/
def function (isAsync : Bool) (role : Role) : Reader source Bool := do
  expectWord "function"
  let generator ← eat "*"
  if ← atIdentifier then advance
  else if role = .declaration && (← isPunctuator "(") then fault (← start)
  let _ ← head go isAsync generator
  if role = .expression then body go isAsync generator else bodyOrSignature go isAsync generator
  return generator

/-- The parameters and the body of a method. -/
def method (isAsync generator : Bool) : Reader source PUnit := do
  let _ ← head go isAsync generator
  bodyOrSignature go isAsync generator

/-- A getter takes no parameter; a setter takes one, which is not the rest. -/
def accessor (isGetter : Bool) : Reader source PUnit := do
  let p ← head go false false
  bodyOrSignature go false false
  if isGetter then
    if p.count ≠ 0 then fault p.start
  else
    match p.rest with
    | some place => fault place
    | none => if p.count ≠ 1 then fault p.start

/-! ## Classes -/

/-- A word is a modifier if the member goes on behind it. -/
def isModifier (word : String) : Reader source Bool := do
  if ← isWord word then
    match ← peek with
    | (.punctuator p, _) => return ["[", "*", "\x7b"].contains p && (word = "static" || p ≠ "\x7b")
    | (.name _, newLine) | (.string _, newLine) | (.number _, newLine) | (.bigint, newLine)
    | (.privateName, newLine) =>
      return !(newLine && ["async", "accessor", "declare", "abstract", "readonly"].contains word)
    | _ => return false
  else return false

def memberWords : List String :=
  ["static", "async", "get", "set", "accessor", "declare", "abstract", "readonly", "override",
    "public", "private", "protected"]

/-- The modifiers of a member. -/
def modifiers : Reader source (List String) :=
  loop [] fun words => do
    match ← kind with
    | .name text =>
      if memberWords.contains text && (← isModifier text) then
        advance
        return (text :: words, true)
      else return (words, false)
    | _ => return (words, false)

/-- An index signature in brackets. -/
def isIndexSignature : Reader source Bool :=
  lookahead false do
    expect "["
    let _ ← identifier
    isPunctuator ":"

def member : Reader source PUnit := do
  if ← eat ";" then return
  decorators go
  let words ← modifiers
  if words.contains "static" && (← isPunctuator "\x7b") then
    body go false false
    return
  let generator ← eat "*"
  if (← around).typed && (← isIndexSignature) then
    advance
    let _ ← identifier
    expect ":"
    go.type
    expect "]"
    let _ ← typeAnnotation go
    semicolon
    return
  Pattern.propertyName go
  if (← around).typed then
    if !(← eat "?") then let _ ← eat "!"
  if generator || (← isPunctuator "(") || (← isPunctuator "<") then
    if words.contains "get" then accessor go true
    else if words.contains "set" then accessor go false
    else method go (words.contains "async") generator
  else
    let _ ← typeAnnotation go
    if ← eat "=" then
      let _ ← within (insideFunction false false) go.assignment
    semicolon

/-- What a class extends or implements. -/
def heritage : Reader source PUnit := do
  if ← eatWord "extends" then
    let _ ← go.unary
    if (← around).typed && (← isPunctuator "<") then typeArguments go
  if (← around).typed then
    if ← eatWord "implements" then
      go.type
      loop () fun _ => do
        if ← eat "," then
          go.type
          return ((), true)
        else return ((), false)

/-- A class from its keyword on. -/
def classTail : Reader source PUnit := do
  expectWord "class"
  if (← atIdentifier) && !(← isWord "implements") then advance
  optionalTypeParameters go
  heritage go
  expect "\x7b"
  loop () fun _ => do
    match ← kind with
    | .punctuator "\x7d" | .endOfText => return ((), false)
    | _ =>
      member go
      return ((), true)
  expect "\x7d"

end Function

end MessageCatalog.Script
