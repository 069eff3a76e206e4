/-
Type syntax. Types are read and forgotten: only where they end matters.
-/
import MessageCatalog.Script.Goal

namespace MessageCatalog.Script

namespace TypeSyntax

open Reader

variable {source : List Char} (go : Readers source)

/-! ## Parts of types -/

/-- Types between angle brackets. -/
def typeArguments : Reader source PUnit := do
  expect "<"
  let _ ← commaList ">" go.type
  expect ">"

/-- Type parameters between angle brackets, with bounds and defaults. -/
def typeParameters : Reader source PUnit := do
  expect "<"
  let _ ← commaList ">" do
    loop () fun _ => do
      match ← kind with
      | .name text =>
        if ["const", "in", "out"].contains text then
          match ← peek with
          | (.name _, _) =>
            advance
            return ((), true)
          | _ => return ((), false)
        else return ((), false)
      | _ => return ((), false)
    let _ ← identifier
    if ← eatWord "extends" then go.type
    if ← eat "=" then go.type
  expect ">"

def optionalTypeParameters : Reader source PUnit := do
  if (← around).typed then
    if ← isPunctuator "<" then typeParameters go

/-- A type behind a colon, where type syntax is allowed and one is there. -/
def typeAnnotation : Reader source Bool := do
  if (← around).typed then
    if ← eat ":" then
      go.type
      return true
  return false

/-- The type of a result, which may be a predicate on a parameter. -/
def resultType : Reader source PUnit := do
  let isPredicate ← lookahead false do
    let _ ← anyName
    return (← isWord "is") && !(← onNewLine)
  if ← isWord "asserts" then
    match ← peek with
    | (.name text, false) =>
      if text ≠ "is" then
        advance
        let _ ← anyName
        if ← eatWord "is" then go.type
        return
      else pure ()
    | _ => pure ()
  if isPredicate then
    let _ ← anyName
    expectWord "is"
    go.type
  else go.type

def resultAnnotation : Reader source Bool := do
  if (← around).typed then
    if ← eat ":" then
      resultType go
      return true
  return false

/-! ## Parameters of function types -/

def parameter : Reader source PUnit := do
  let _ ← eat "..."
  if ← isWord "this" then advance else let _ ← go.pattern
  let _ ← eat "?"
  if ← eat ":" then go.type
  if ← eat "=" then let _ ← go.assignment

def parameters : Reader source PUnit := do
  expect "("
  let _ ← commaList ")" (parameter go)
  expect ")"

/-- The type of a function behind its parameters' opening. -/
def functionType : Reader source PUnit := do
  if ← isPunctuator "<" then typeParameters go
  parameters go
  expect "=>"
  within (fun s => { s with noConditionalType := false }) (resultType go)

/-- Whether a parenthesis opens the parameters of a function type. -/
def isFunctionType : Reader source Bool := do
  if ← isPunctuator "<" then return true
  if ← isPunctuator "(" then
    lookahead false do
      advance
      match ← kind with
      | .punctuator ")" =>
        return true
      | .punctuator "..." => return true
      | .punctuator p =>
        if p = "\x7b" || p = "[" then
          let _ ← go.pattern
          match ← kind with
          | .punctuator q =>
            if [":", ",", "?", "="].contains q then return true
            if q = ")" then
              advance
              return ← isPunctuator "=>"
            return false
          | _ => return false
        else return false
      | .name _ =>
        advance
        match ← kind with
        | .punctuator q =>
          if [":", ",", "?", "="].contains q then return true
          if q = ")" then
            advance
            return ← isPunctuator "=>"
          return false
        | _ => return false
      | _ => return false
  else return false

/-! ## Members of object types -/

def memberSeparator : Reader source PUnit := do
  if ← eat "," then return
  semicolon

/-- The name of a member: a property name, or an index signature in brackets. -/
def memberName : Reader source PUnit := do
  if ← eat "[" then
    let isIndex ← lookahead false do
      let _ ← identifier
      isPunctuator ":"
    if isIndex then
      let _ ← identifier
      expect ":"
      go.type
    else
      let _ ← go.expression
    expect "]"
  else
    if ← atPropertyName then advance else unexpected

/-- Skips a word if it stands in front of the name of a member. -/
def memberModifier (word : String) : Reader source PUnit := do
  if ← isWord word then
    let follows ← lookahead false do
      advance
      atPropertyName
    if follows then advance

def signature : Reader source PUnit := do
  if ← isPunctuator "<" then typeParameters go
  parameters go
  let _ ← resultAnnotation go

def objectMember : Reader source PUnit := do
  if (← isPunctuator "(") || (← isPunctuator "<") then
    signature go
    memberSeparator
  else
    memberModifier "readonly"
    memberModifier "get"
    memberModifier "set"
    memberName go
    let _ ← eat "?"
    if (← isPunctuator "(") || (← isPunctuator "<") then signature go
    else let _ ← typeAnnotation go
    memberSeparator

/-- Whether braces hold a mapped type. -/
def isMappedType : Reader source Bool :=
  lookahead false do
    expect "\x7b"
    if (← isPunctuator "+") || (← isPunctuator "-") then
      advance
      return ← isWord "readonly"
    if ← isWord "readonly" then advance
    expect "["
    let _ ← identifier
    isWord "in"

def mappedType : Reader source PUnit := do
  expect "\x7b"
  if (← isPunctuator "+") || (← isPunctuator "-") then advance
  if ← isWord "readonly" then advance
  expect "["
  let _ ← identifier
  expectWord "in"
  go.type
  if ← eatWord "as" then go.type
  expect "]"
  if (← isPunctuator "+") || (← isPunctuator "-") then advance
  let _ ← eat "?"
  if ← eat ":" then go.type
  let _ ← eat ";"
  expect "\x7d"

def objectType : Reader source PUnit := do
  expect "\x7b"
  loop () fun _ => do
    if ← atListEnd "\x7d" then return ((), false)
    objectMember go
    return ((), true)
  expect "\x7d"

def tupleElement : Reader source PUnit := do
  let _ ← eat "..."
  let isNamed ← lookahead false do
    let _ ← anyName
    let _ ← eat "?"
    isPunctuator ":"
  if isNamed then
    let _ ← anyName
    let _ ← eat "?"
    expect ":"
  go.type
  let _ ← eat "?"

/-! ## Operands -/

/-- A name with its qualifications and arguments. -/
def typeReference : Reader source PUnit := do
  let _ ← anyName
  loop () fun _ => do
    if ← eat "." then
      let _ ← anyName
      return ((), true)
    else return ((), false)
  if (← isPunctuator "<") && !(← onNewLine) then typeArguments go

/-- The rest of a template type behind a part that ended in a substitution. -/
def templateTypeRest : Reader source PUnit :=
  loop () fun _ => do
    go.type
    if ← isPunctuator "\x7d" then
      recut .template
      match ← kind with
      | .templatePart _ =>
        advance
        return ((), true)
      | .templateEnd _ =>
        advance
        return ((), false)
      | _ => unexpected
    else unexpected

def primaryType : Reader source PUnit := do
  match ← kind with
  | .punctuator "(" =>
    advance
    within (fun s => { s with noConditionalType := false }) go.type
    expect ")"
  | .punctuator "[" =>
    advance
    let _ ← within (fun s => { s with noConditionalType := false })
      (commaList "]" (tupleElement go))
    expect "]"
  | .punctuator "\x7b" =>
    within (fun s => { s with noConditionalType := false }) do
      if ← isMappedType then mappedType go else objectType go
  | .punctuator "-" =>
    advance
    match ← kind with
    | .number _ | .bigint => advance
    | _ => unexpected
  | .string _ | .number _ | .bigint | .templateEnd _ => advance
  | .templatePart _ =>
    advance
    templateTypeRest go
  | .name "typeof" =>
    advance
    if ← isWord "import" then
      advance
      expect "("
      go.type
      expect ")"
    typeReference go
  | .name "import" =>
    advance
    expect "("
    go.type
    if ← eat "," then let _ ← go.assignment
    expect ")"
    if ← eat "." then typeReference go
    else if ← isPunctuator "<" then typeArguments go
  | .name text =>
    if ["void", "null", "true", "false", "this"].contains text then advance
    else typeReference go
  | _ => unexpected

/-- An operand with array brackets and indexed accesses behind it. -/
def postfixType : Reader source PUnit := do
  primaryType go
  loop () fun _ => do
    if (← isPunctuator "[") && !(← onNewLine) then
      advance
      if ← eat "]" then return ((), true)
      go.type
      expect "]"
      return ((), true)
    else return ((), false)

/-- Operators in front of an operand. -/
def operatorType : Reader source PUnit := do
  loop () fun _ => do
    match ← kind with
    | .name text =>
      if ["keyof", "unique", "readonly"].contains text then
        match ← peek with
        | (.name _, _) | (.punctuator "(", _) | (.punctuator "\x7b", _) | (.punctuator "[", _) =>
          advance
          return ((), true)
        | _ => return ((), false)
      else return ((), false)
    | _ => return ((), false)
  if ← isWord "infer" then
    match ← peek with
    | (.name _, _) =>
      advance
      let _ ← identifier
      -- a bound belongs to the inferred name unless it starts a conditional type
      let _ ← attempt do
        expectWord "extends"
        within (fun s => { s with noConditionalType := true }) go.type
        if (← around).noConditionalType then return
        if ← isPunctuator "?" then unexpected
    | _ => postfixType go
  else postfixType go

/-- Operands joined by one operator, which may also stand in front. -/
def joined (operator : String) (operand : Reader source PUnit) : Reader source PUnit := do
  let _ ← eat operator
  operand
  loop () fun _ => do
    if ← eat operator then
      operand
      return ((), true)
    else return ((), false)

def unionType : Reader source PUnit := joined "|" (joined "&" (operatorType go))

/-! ## Types -/

def type : Reader source PUnit := do
  if ← isFunctionType go then functionType go
  else if ← isWord "new" then
    advance
    functionType go
  else if (← isWord "abstract") && (← peek).1 == .name "new" then
    advance
    advance
    functionType go
  else
    unionType go
    if !(← around).noConditionalType && (← isWord "extends") && !(← onNewLine) then
      advance
      within (fun s => { s with noConditionalType := true }) go.type
      expect "?"
      within (fun s => { s with noConditionalType := false }) go.type
      expect ":"
      within (fun s => { s with noConditionalType := false }) go.type

end TypeSyntax

end MessageCatalog.Script
