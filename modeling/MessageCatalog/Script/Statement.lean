/-
Statements and modules. Of a statement only its extent is kept, and what it means for the default
export; the names that a module exports are kept to find those that are exported twice.
-/
import MessageCatalog.Script.Expression

namespace MessageCatalog.Script

namespace StatementSyntax

open Reader TypeSyntax

variable {source : List Char} (go : Readers source)

/-! ## Declarations -/

/-- Which declared names must have a value. -/
inductive ValueNeed where
  | noName
  /-- Those that a pattern takes out of the value. -/
  | patterns
  | everyName
  deriving DecidableEq

/-- A missing value is a fault behind a name, and at the start of a pattern. -/
def missingValue (need : ValueNeed) (s : Nat) (isPattern : Bool) : Reader source PUnit := do
  if isPattern then
    if need ≠ .noName then fault s
  else if need = .everyName then fault (← get).previousStop

/-- Declared names with types and values up to the end of the list. -/
def declarators (need : ValueNeed) : Reader source (List BoundName) := do
  let one : Reader source (List BoundName) := do
    let s ← start
    let isPattern := (← isPunctuator "\x7b") || (← isPunctuator "[")
    let names ← go.pattern
    if (← around).typed then let _ ← eat "!"
    let _ ← typeAnnotation go
    if ← eat "=" then
      let _ ← go.assignment
    else missingValue need s isPattern
    return names
  let first ← one
  loop first fun names => do
    if ← eat "," then
      let more ← one
      return (names ++ more, true)
    else return (names, false)

/-- Variables; a sole statement binds none in its own block. -/
def variableStatement (sole : Bool) : Reader source (List BoundName) := do
  let s ← start
  let isBlockBound := !(← isWord "var")
  let need ← if ← isWord "const" then pure .everyName else pure .patterns
  advance
  let names ← declarators go need
  semicolon
  if sole && isBlockBound then fault s
  return names

def functionStatement (role : Function.Role) (sole : Bool) : Reader source (List BoundName) := do
  let s ← start
  let isAsync ← eatWord "async"
  let name ← lookahead none do
    expectWord "function"
    let _ ← eat "*"
    if ← atIdentifier then return some (← identifier) else return none
  let generator ← Function.function go isAsync role
  if sole && (isAsync || generator) then fault s
  return name.toList

def classStatement : Reader source (List BoundName) := do
  Function.decorators go
  let _ ← eatWord "abstract"
  let name ← lookahead none do
    expectWord "class"
    if ← atIdentifier then return some (← identifier) else return none
  Function.classTail go
  return name.toList

/-! ## Declarations of types -/

def typeAlias : Reader source PUnit := do
  expectWord "type"
  let _ ← identifier
  optionalTypeParameters go
  expect "="
  go.type
  semicolon

def interface : Reader source PUnit := do
  expectWord "interface"
  let _ ← identifier
  optionalTypeParameters go
  if ← eatWord "extends" then
    go.type
    loop () fun _ => do
      if ← eat "," then
        go.type
        return ((), true)
      else return ((), false)
  objectType go

def enumeration : Reader source (List BoundName) := do
  let _ ← eatWord "const"
  expectWord "enum"
  let name ← identifier
  expect "\x7b"
  let _ ← commaList "\x7d" do
    Pattern.propertyName go
    if ← eat "=" then let _ ← go.assignment
  expect "\x7d"
  return [name]

/-- A namespace, or a module that is named by a string and may lack its block. -/
def namespaceBlock : Reader source (List BoundName) := do
  if ← eatWord "global" then
    Function.block go
    return []
  advance
  match ← kind with
  | .string _ =>
    advance
    if ← isPunctuator "\x7b" then Function.block go else semicolon
    return []
  | _ =>
    let name ← identifier
    loop () fun _ => do
      if ← eat "." then
        let _ ← anyName
        return ((), true)
      else return ((), false)
    Function.block go
    return [name]

/-- The words that may follow `declare`. -/
def declaredWords : List String :=
  ["var", "let", "const", "function", "class", "enum", "interface", "type", "namespace", "module",
    "global", "abstract", "async", "import"]

/-- Whether a word starts a declaration of type syntax here. -/
def startsTypeDeclaration : Reader source (Option String) := do
  if !(← around).typed then return none
  match ← kind with
  | .name text =>
    match text, ← peek with
    | "type", (.name _, false) => return some "type"
    | "interface", (.name _, false) => return some "interface"
    | "enum", (.name _, _) => return some "enum"
    | "const", (.name "enum", _) => return some "enum"
    | "namespace", (.name _, false) => return some "namespace"
    | "module", (.name _, false) | "module", (.string _, false) => return some "namespace"
    | "global", (.punctuator "\x7b", _) => return some "namespace"
    | "abstract", (.name "class", false) => return some "class"
    | "declare", (.name word, false) =>
      return if declaredWords.contains word then some "declare" else none
    | _, _ => return none
  | _ => return none

/-- A declaration of type syntax: its kind and the names it binds. -/
def typeDeclaration (word : String) : Reader source (StatementKind source × List BoundName) := do
  match word with
  | "type" =>
    typeAlias go
    return (.silent, [])
  | "interface" =>
    interface go
    return (.silent, [])
  | "enum" => return (.other, ← enumeration go)
  | "namespace" => return (.other, ← namespaceBlock go)
  | "class" => return (.other, ← classStatement go)
  | _ =>
    -- `declare` in front of any declaration
    advance
    match ← startsTypeDeclaration with
    | some "type" =>
      typeAlias go
      return (.silent, [])
    | some "interface" =>
      interface go
      return (.silent, [])
    | _ =>
      if (← isWord "const") || (← isWord "let") || (← isWord "var") then
        advance
        let names ← declarators go .noName
        semicolon
        return (.other, names)
      let s ← go.statement
      return (s.kind, [])

/-! ## Imports -/

def importSpecifier : Reader source PUnit := do
  let one : Reader source PUnit := do
    match ← kind with
    | .string _ =>
      advance
      expectWord "as"
      let _ ← identifier
    | _ =>
      let name ← anyName
      if ← eatWord "as" then let _ ← identifier
      else if !isIdentifierWord name.1 then stopAt name.2
  if (← around).typed && (← isWord "type") then
    match ← peek with
    | (.name text, _) =>
      if text ≠ "as" then advance
      one
    | (.string _, _) =>
      advance
      one
    | _ => one
  else one

def moduleName : Reader source PUnit := do
  match ← kind with
  | .string _ => advance
  | _ => unexpected

/-- The attributes behind the name of a module. -/
def importAttributes : Reader source PUnit := do
  if ((← isWord "with") || (← isWord "assert")) && !(← onNewLine) then
    advance
    expect "\x7b"
    let _ ← commaList "\x7d" do
      match ← kind with
      | .string _ | .name _ => advance
      | _ => unexpected
      expect ":"
      moduleName
    expect "\x7d"

def fromModule : Reader source PUnit := do
  expectWord "from"
  moduleName
  importAttributes
  semicolon

/-- The end of an import that gives another module a name. -/
def importEquals : Reader source PUnit := do
  if ← isWord "require" then
    advance
    expect "("
    moduleName
    expect ")"
  else
    let _ ← identifier
    loop () fun _ => do
      if ← eat "." then
        let _ ← anyName
        return ((), true)
      else return ((), false)
  semicolon

def namedImports : Reader source PUnit := do
  if ← eat "*" then
    expectWord "as"
    let _ ← identifier
  else
    expect "\x7b"
    let _ ← commaList "\x7d" importSpecifier
    expect "\x7d"

def importStatement : Reader source (StatementKind source) := do
  expectWord "import"
  match ← kind with
  | .string _ =>
    advance
    importAttributes
    semicolon
    return .silent
  | _ =>
    if (← around).typed && (← isWord "type") then
      match ← peek with
      | (.punctuator "\x7b", _) | (.punctuator "*", _) => advance
      | (.name text, _) =>
        let twice ← lookahead false do
          advance
          advance
          return (← isWord "from") || (← isPunctuator "=")
        if text ≠ "from" || twice then advance
      | _ => pure ()
    if (← isPunctuator "*") || (← isPunctuator "\x7b") then
      namedImports
      fromModule
      return .silent
    else
      let _ ← identifier
      if (← around).typed && (← isPunctuator "=") then
        advance
        importEquals
        return .other
      if ← eat "," then namedImports
      fromModule
      return .silent

/-! ## Exports -/

/--
What stands between the braces of an export: a name of this or another module, and its new one.
-/
structure Specifier where
  name : BoundName
  /-- The name is written as a string. -/
  isString : Bool
  exported : BoundName

/-- A name in braces, which may be a string, with whether it is one. -/
def specifierName : Reader source (BoundName × Bool) := do
  match ← kind with
  | .string value =>
    let place ← start
    advance
    return ((value, place), true)
  | _ => return (← anyName, false)

def specifier : Reader source Specifier := do
  let first ← specifierName
  let (name, isString) ←
    if (← around).typed && first.1.1 = "type" then
      match ← kind with
      | .name text => if text = "as" then pure first else specifierName
      | .string _ => specifierName
      | _ => pure first
    else pure first
  if ← eatWord "as" then return ⟨name, isString, (← specifierName).1⟩
  else return ⟨name, isString, name⟩

/-- Words that name nothing in a module. -/
def moduleReservedWords : List String :=
  reservedWords ++ ["await", "yield", "implements", "interface", "let", "package", "private",
    "protected", "public", "static"]

/-- The exports in braces; those of this module have to be names of it. -/
def namedExports : Reader source (List BoundName) := do
  expect "\x7b"
  let specifiers ← commaList "\x7d" specifier
  expect "\x7d"
  if ← isWord "from" then fromModule
  else
    specifiers.forM fun s => do
      if s.isString || moduleReservedWords.contains s.name.1 then fault s.name.2
    semicolon
  return specifiers.map (·.exported)

/-- What an export makes of the default export, and the names it exports. -/
def exportStatement : Reader source (StatementKind source × List BoundName) := do
  expectWord "export"
  match ← kind with
  | .name "default" =>
    let name : BoundName := ("default", ← start)
    advance
    let isInterface ← do
      if (← around).typed && (← isWord "interface") then
        match ← peek with
        | (.name _, false) => pure true
        | _ => pure false
      else pure false
    if (← isWord "function") || (← Expression.isAsyncFunction) then
      let _ ← functionStatement go .defaultExport false
      return (.exportDefault none, [name])
    else if (← isWord "class") || (← isPunctuator "@") ||
        ((← isWord "abstract") && (← peek) == (.name "class", false)) then
      let _ ← classStatement go
      return (.exportDefault none, [name])
    else if isInterface then
      interface go
      return (.exportDefault none, [name])
    else
      let value ← go.assignment
      semicolon
      return (.exportDefault (some value), [name])
  | .punctuator "*" =>
    advance
    let names ←
      if ← eatWord "as" then
        match ← kind with
        | .string value =>
          let place ← start
          advance
          pure [(value, place)]
        | _ => pure [← anyName]
      else pure []
    fromModule
    return (.other, names)
  | .punctuator "\x7b" =>
    return (.other, ← namedExports)
  | .punctuator "=" =>
    if (← around).typed then
      advance
      let _ ← go.expression
      semicolon
      return (.other, [])
    else unexpected
  | .name text =>
    if (← around).typed && text = "type" then
      match ← peek with
      | (.punctuator "\x7b", _) =>
        advance
        return (.other, ← namedExports)
      | (.punctuator "*", _) =>
        advance
        advance
        if ← eatWord "as" then let _ ← anyName
        fromModule
        return (.other, [])
      | _ => pure ()
    if (← around).typed && text = "as" then
      advance
      expectWord "namespace"
      let _ ← identifier
      semicolon
      return (.other, [])
    if (← around).typed && text = "import" then
      let _ ← importStatement
      return (.other, [])
    if let some word ← startsTypeDeclaration then
      let (_, names) ← typeDeclaration go word
      return (.other, names)
    if ["const", "let", "var"].contains text then return (.other, ← variableStatement go false)
    if text = "function" || (← Expression.isAsyncFunction) then
      return (.other, ← functionStatement go .declaration false)
    if text = "class" then return (.other, ← classStatement go)
    unexpected
  | .punctuator "@" => return (.other, ← classStatement go)
  | _ => unexpected

/-! ## Statements that hold statements -/

def parenthesizedCondition : Reader source PUnit := do
  expect "("
  let _ ← go.expression
  expect ")"

def ifStatement : Reader source PUnit := do
  advance
  parenthesizedCondition go
  let _ ← go.soleStatement
  if ← eatWord "else" then let _ ← go.soleStatement

/-- The parts of a loop head behind its first one. -/
def forRest : Reader source PUnit := do
  if (← isWord "of") || (← isWord "in") then
    let isOf ← isWord "of"
    advance
    let _ ← if isOf then go.assignment else go.expression
  else
    expect ";"
    if !(← isPunctuator ";") then let _ ← go.expression
    expect ";"
    if !(← isPunctuator ")") then let _ ← go.expression

def forStatement : Reader source PUnit := do
  advance
  if (← isWord "await") && !(← around).insideAsync then fault (← start)
  let _ ← eatWord "await"
  expect "("
  let without := fun (s : Surroundings) => { s with allowIn := false }
  match ← kind with
  | .punctuator ";" => forRest go
  | .name text =>
    let isDeclaration ← do
      if ["var", "const"].contains text then pure true
      else if text = "let" then
        match (← peek).1 with
        | .name next => pure (next ≠ "in" && next ≠ "of")
        | .punctuator p => pure (p = "[" || p = "\x7b")
        | _ => pure false
      else pure false
    if isDeclaration then
      advance
      let _ ← within without (declarators go .noName)
    else
      let e ← within without go.expression
      if (← isWord "of") || (← isWord "in") then takeAsTarget true e
    forRest go
  | _ =>
    let e ← within without go.expression
    if (← isWord "of") || (← isWord "in") then takeAsTarget true e
    forRest go
  expect ")"
  let _ ← go.soleStatement

def tryStatement : Reader source PUnit := do
  advance
  Function.block go
  let caught ← do
    if ← eatWord "catch" then
      if ← eat "(" then
        let _ ← go.pattern
        let _ ← typeAnnotation go
        expect ")"
      Function.block go
      pure true
    else pure false
  if ← eatWord "finally" then Function.block go
  else if !caught then stopAt (← start)

def switchStatement : Reader source PUnit := do
  advance
  parenthesizedCondition go
  expect "\x7b"
  loop () fun _ => do
    if ← atListEnd "\x7d" then return ((), false)
    if ← eatWord "default" then expect ":"
    else
      expectWord "case"
      let _ ← go.expression
      expect ":"
    loop () fun _ => do
      if (← atListEnd "\x7d") || (← isWord "case") || (← isWord "default") then
        return ((), false)
      let _ ← go.statement
      return ((), true)
    return ((), true)
  expect "\x7d"

/-- `break` and `continue`, with a label on the same line. -/
def jump : Reader source PUnit := do
  advance
  if (← atIdentifier) && !(← onNewLine) then advance
  semicolon

def returnStatement : Reader source PUnit := do
  let s ← start
  advance
  if !(← isPunctuator ";") && !(← canOmitSemicolon) then let _ ← go.expression
  semicolon
  if !(← around).insideFunction then fault s

def throwStatement : Reader source PUnit := do
  advance
  if ← onNewLine then fault (← get).previousStop
  let _ ← go.expression
  semicolon

def doStatement : Reader source PUnit := do
  advance
  let _ ← go.soleStatement
  expectWord "while"
  parenthesizedCondition go
  let _ ← eat ";"

/-- An expression, or a statement behind a label. -/
def expressionStatement : Reader source (StatementKind source) := do
  let s ← start
  let e ← go.expression
  match e with
  | .identifier .. =>
    if ← eat ":" then
      let _ ← go.soleStatement
      return .other
    semicolon
    return .other
  | .string literal =>
    semicolon
    return if literal.extent.start = s then .directive else .other
  | _ =>
    semicolon
    return .other

/-! ## All statements -/

/-- `using` starts a declaration in front of a name on the same line. -/
def isUsingDeclaration : Reader source Bool := do
  lookahead false do
    let _ ← eatWord "await"
    if !(← isWord "using") || (← onNewLine) then return false
    advance
    match ← kind with
    | .name text => return text ≠ "of" && isIdentifierWord text && !(← onNewLine)
    | _ => return false

/--
`let` starts a declaration unless an expression goes on behind it. As a sole statement it does so in
front of a bracket only.
-/
def isLetDeclaration (sole : Bool) : Reader source Bool := do
  if ← isWord "let" then
    match (← peek).1 with
    | .name text => return !sole && text ≠ "in" && text ≠ "instanceof"
    | .punctuator p =>
      let goesOn := p = "." || p = "(" || p = ";" || Expression.assignmentOperators.contains p ||
        (Expression.levelOf (.punctuator p)).isSome
      return p = "[" || !(sole || goesOn)
    | _ => return !sole
  else return false

/-- A statement; a sole one is not part of a list of statements. -/
def statement (sole : Bool) : Reader source (Statement source) := do
  let s ← start
  let plain (r : Reader source PUnit) : Reader source (Statement source) := do
    r
    return ⟨.other, ← extentFrom s⟩
  match ← kind with
  | .punctuator "\x7b" => plain (Function.block go)
  | .punctuator ";" => plain advance
  | .punctuator "@" => plain (do let _ ← classStatement go)
  | .name text =>
    match text with
    | "if" => plain (ifStatement go)
    | "for" => plain (forStatement go)
    | "while" =>
      plain do
        advance
        parenthesizedCondition go
        let _ ← go.soleStatement
    | "do" => plain (doStatement go)
    | "switch" => plain (switchStatement go)
    | "break" | "continue" => plain jump
    | "return" => plain (returnStatement go)
    | "with" =>
      plain do
        advance
        parenthesizedCondition go
        let _ ← go.soleStatement
    | "throw" => plain (throwStatement go)
    | "try" => plain (tryStatement go)
    | "debugger" =>
      plain do
        advance
        semicolon
    | "class" =>
      plain do
        let _ ← classStatement go
        if sole then fault s
    | "function" => plain (do let _ ← functionStatement go .declaration sole)
    | "var" => plain (do let _ ← variableStatement go sole)
    | "import" =>
      match (← peek).1 with
      | .punctuator "(" | .punctuator "." =>
        let k ← expressionStatement go
        return ⟨k, ← extentFrom s⟩
      | _ =>
        let k ← importStatement
        return ⟨k, ← extentFrom s⟩
    | "export" =>
      let (k, _) ← exportStatement go
      return ⟨k, ← extentFrom s⟩
    | _ =>
      if let some word ← startsTypeDeclaration then
        let (k, _) ← typeDeclaration go word
        return ⟨k, ← extentFrom s⟩
      if text = "const" then return ← plain (do let _ ← variableStatement go sole)
      if ← isLetDeclaration sole then return ← plain (do let _ ← variableStatement go sole)
      if ← isUsingDeclaration then
        let _ ← eatWord "await"
        return ← plain (do let _ ← variableStatement go false)
      if ← Expression.isAsyncFunction then
        return ← plain (do let _ ← functionStatement go .declaration sole)
      let k ← expressionStatement go
      return ⟨k, ← extentFrom s⟩
  | _ =>
    let k ← expressionStatement go
    return ⟨k, ← extentFrom s⟩

/-! ## Modules -/

/-- What a module holds: its statements behind the directives, and the names it exports. -/
structure Contents (source : List Char) where
  directives : Nat
  statements : Array (Statement source)
  exports : Array BoundName

/-- The statements up to the end of the text. -/
def moduleContents : Reader source (Contents source) := do
  if (← kind) == .hashbang then advance
  loop ⟨0, #[], #[]⟩ fun c => do
    if (← kind) == .endOfText then return (c, false)
    if ← isWord "export" then
      let s ← start
      let (k, names) ← exportStatement go
      return ({ c with
        statements := c.statements.push ⟨k, ← extentFrom s⟩
        exports := c.exports ++ names.toArray }, true)
    let s ← statement go false
    match s.kind with
    | .directive =>
      if c.statements.isEmpty then return ({ c with directives := c.directives + 1 }, true)
      else return ({ c with statements := c.statements.push s }, true)
    | _ => return ({ c with statements := c.statements.push s }, true)

end StatementSyntax

end MessageCatalog.Script
