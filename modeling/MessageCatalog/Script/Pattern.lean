/-
Patterns: what a declaration or a parameter binds, and which expressions an assignment can take as
its target.
-/
import MessageCatalog.Script.Goal

namespace MessageCatalog.Script

namespace Pattern

open Reader

variable {source : List Char} (go : Readers source)

/-! ## Binding patterns -/

/-- A pattern that may have a default. -/
def withDefault : Reader source (List BoundName) := do
  let names ← go.pattern
  if ← eat "=" then let _ ← go.assignment
  return names

/-- The name of a property in a pattern or a class; names in brackets are computed. -/
def propertyName : Reader source PUnit := do
  if ← eat "[" then
    let _ ← within (fun s => { s with allowIn := true }) go.assignment
    expect "]"
  else
    if ← atPropertyName then advance else unexpected

def objectProperty : Reader source (List BoundName) := do
  if ← eat "..." then go.pattern
  else
    let isShorthand ← atIdentifier
    let next ← peek
    if isShorthand && next.1 != .punctuator ":" then
      let name ← identifier
      if ← eat "=" then let _ ← go.assignment
      return [name]
    else
      propertyName go
      expect ":"
      withDefault go

def arrayElement : Reader source (List BoundName) := do
  if ← isPunctuator "," then return []
  if ← isPunctuator "]" then return []
  if ← eat "..." then go.pattern
  else withDefault go

/-- A pattern without a default. -/
def pattern : Reader source (List BoundName) := do
  match ← kind with
  | .punctuator "\x7b" =>
    advance
    let (names, _) ← restList "\x7d" (objectProperty go)
    expect "\x7d"
    return names.flatten
  | .punctuator "[" =>
    advance
    let (names, _) ← restList "]" (arrayElement go)
    expect "]"
    return names.flatten
  | _ =>
    let name ← identifier
    return [name]

end Pattern

/-! ## Assignment targets -/

namespace Expr

variable {source : List Char}

mutual

/--
Whether an expression can be assigned to: `none` if it can, else the byte at which it cannot. Object
and array literals are read as patterns.
-/
def targetFault : Expr source → Option Nat
  | .object properties _ => propertiesFault properties
  | .array elements _ => elementsFault elements
  | e => simpleTargetFault e

def simpleTargetFault : Expr source → Option Nat
  | .identifier .. | .member _ | .ascribed .. => none
  | .parenthesized inner x =>
    match inner with
    | .object .. | .array .. => some x.start
    | inner => simpleTargetFault inner
  | e => some e.extent.start

def defaultedFault : Expr source → Option Nat
  | .assignment true _ => none
  | .object properties _ => propertiesFault properties
  | .array elements _ => elementsFault elements
  | e => simpleTargetFault e

def propertiesFault : List (Property source) → Option Nat
  | [] => none
  | .spread argument x :: rest =>
    if rest.isEmpty then targetFault argument else some x.start
  | .pair _ _ value _ :: rest => (defaultedFault value).or (propertiesFault rest)
  | .computed value _ :: rest => (defaultedFault value).or (propertiesFault rest)
  | .shorthand _ :: rest => propertiesFault rest
  | .method value _ :: _ => some value.start

def elementsFault : List (Element source) → Option Nat
  | [] => none
  | .spread argument x :: rest =>
    if rest.isEmpty then targetFault argument else some x.start
  | .item e :: rest => (defaultedFault e).or (elementsFault rest)
  | .hole :: rest => elementsFault rest

end

mutual

/-- The starts of the shorthand properties that become parts of a pattern. -/
def patternShorthands : Expr source → List Nat
  | .object properties _ => propertyShorthands properties
  | .array elements _ => elementShorthands elements
  | _ => []

def propertyShorthands : List (Property source) → List Nat
  | [] => []
  | .shorthand x :: rest => x.start :: propertyShorthands rest
  | .pair _ _ value _ :: rest => patternShorthands value ++ propertyShorthands rest
  | .computed value _ :: rest => patternShorthands value ++ propertyShorthands rest
  | .spread argument _ :: rest => patternShorthands argument ++ propertyShorthands rest
  | .method .. :: rest => propertyShorthands rest

def elementShorthands : List (Element source) → List Nat
  | [] => []
  | .item e :: rest => patternShorthands e ++ elementShorthands rest
  | .spread e _ :: rest => patternShorthands e ++ elementShorthands rest
  | .hole :: rest => elementShorthands rest

end

end Expr

namespace Reader

variable {source : List Char}

/-- Reads an expression as the target of an assignment. -/
def takeAsTarget (plain : Bool) (e : Expr source) : Reader source PUnit := do
  match (if plain then e.targetFault else e.simpleTargetFault) with
  | some offset => stopAt offset
  | none =>
    let shorthands := e.patternShorthands
    modify fun s => { s with openDefaults := s.openDefaults.filter (!shorthands.contains ·) }

end Reader

end MessageCatalog.Script
