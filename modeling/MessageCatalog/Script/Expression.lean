/-
Expressions. Operands are read from the tightest construct outwards; an arrow function is told from
a parenthesized expression by its first tokens, and where these leave it open, by trying.
-/
import MessageCatalog.Script.Function

namespace MessageCatalog.Script

namespace Expression

open Reader TypeSyntax

variable {source : List Char} (go : Readers source)

def withIn {α : Type} (r : Reader source α) : Reader source α :=
  within (fun s => { s with allowIn := true }) r

/-! ## Object and array literals -/

/-- A word that makes an accessor or an asynchronous method of what follows it. -/
def isPropertyModifier (word : String) : Reader source Bool := do
  if ← isWord word then
    match ← peek with
    | (.punctuator p, newLine) => return (p = "[" || (p = "*" && word = "async")) &&
        !(newLine && word = "async")
    | (.name _, newLine) | (.string _, newLine) | (.number _, newLine) | (.bigint, newLine)
    | (.privateName, newLine) => return !(newLine && word = "async")
    | _ => return false
  else return false

/-- A key with its extent; a computed one is told apart. -/
def propertyKey : Reader source (PropertyKey × Extent × Bool) := do
  let s ← start
  match ← kind with
  | .name text =>
    advance
    return (.identifier text, ← extentFrom s, false)
  | .string value =>
    advance
    return (.string value, ← extentFrom s, false)
  | .number value =>
    advance
    return (.number value, ← extentFrom s, false)
  | .bigint =>
    advance
    return (.other, ← extentFrom s, false)
  | .punctuator "[" =>
    advance
    let _ ← withIn go.assignment
    expect "]"
    return (.other, ← extentFrom s, true)
  | _ => unexpected

/-- A method behind its key. -/
def methodProperty (s : Nat) (isAsync generator : Bool) : Reader source (Property source) := do
  let m ← start
  Function.method go isAsync generator
  return .method (← extentFrom m) (← extentFrom s)

def property : Reader source (Property source) := do
  let s ← start
  if ← eat "..." then
    let argument ← withIn go.assignment
    return .spread argument (← extentFrom s)
  let isAsync ← isPropertyModifier "async"
  if isAsync then advance
  let isGetter ← isPropertyModifier "get"
  if !isAsync && (isGetter || (← isPropertyModifier "set")) then
    advance
    let _ ← propertyKey go
    let m ← start
    Function.accessor go isGetter
    return .method (← extentFrom m) (← extentFrom s)
  let generator ← eat "*"
  let mayBeShorthand ←
    match ← kind with
    | .name text => pure (isIdentifierWord text && !(← isOperatorWord text))
    | _ => pure false
  let (key, keyExtent, computed) ← propertyKey go
  if isAsync || generator || (← isPunctuator "(") || (← isPunctuator "<") then
    return ← methodProperty go s isAsync generator
  if mayBeShorthand && !(← isPunctuator ":") then
    if ← eat "=" then
      let _ ← withIn go.assignment
      modify fun st => { st with openDefaults := st.openDefaults ++ [s] }
    return .shorthand (← extentFrom s)
  expect ":"
  let value ← withIn go.assignment
  if computed then return .computed value (← extentFrom s)
  else return .pair key keyExtent value (← extentFrom s)

def objectLiteral : Reader source (Expr source) := do
  let s ← start
  expect "\x7b"
  let properties ← commaList "\x7d" (property go)
  expect "\x7d"
  return .object properties (← extentFrom s)

def element : Reader source (Element source) := do
  let s ← start
  if (← isPunctuator ",") || (← isPunctuator "]") then return .hole
  if ← eat "..." then
    let argument ← withIn go.assignment
    return .spread argument (← extentFrom s)
  return .item (← withIn go.assignment)

def arrayLiteral : Reader source (Expr source) := do
  let s ← start
  expect "["
  let elements ← commaList "]" (element go)
  expect "]"
  return .array elements (← extentFrom s)

/-! ## Templates -/

/-- The parts of a template behind its first substitution was opened. -/
def templateRest : Reader source PUnit :=
  loop () fun _ => do
    let _ ← withIn go.expression
    if ← isPunctuator "\x7d" then
      recut .template
      match ← kind with
      | .templatePart _ =>
        advance
        return ((), true)
      | .templateEnd _ =>
        advance
        return ((), false)
      | _ => unexpected
    else stopAt (← start)

/-- The characters between the backticks, with line ends made uniform. -/
def rawTemplate (t : Token) : String :=
  let body := (t.text.drop 1).take ((cutLength t) - 2)
  String.ofList (uniform body)
where
  cutLength (t : Token) : Nat := (takeBytes (t.stop - t.start) t.text).length
  takeBytes (n : Nat) (cs : List Char) : List Char := ((Text.cut? n cs).getD ([], [])).1
  uniform : List Char → List Char
    | '\r' :: '\n' :: rest => '\n' :: uniform rest
    | '\r' :: rest => '\n' :: uniform rest
    | c :: rest => c :: uniform rest
    | [] => []

/-- A template; in front of a tag's template an invalid escape is no fault. -/
def template (tagged : Bool) : Reader source (Expr source) := do
  let t ← current
  match t.kind with
  | .templateEnd cooked =>
    if cooked.isNone && !tagged then fault (t.start + 1)
    advance
    return .template (cooked.getD (rawTemplate t)) (← extentFrom t.start)
  | .templatePart cooked =>
    if cooked.isNone && !tagged then fault (t.start + 1)
    advance
    templateRest go
    return .other (← extentFrom t.start)
  | _ => unexpected

/-! ## Primary expressions -/

def parenthesized : Reader source (Expr source) := do
  let s ← start
  expect "("
  if ← isPunctuator ")" then
    advance
    stopAt s
  let inner ← withIn do
    let first ← go.assignment
    let more ← loop false fun more => do
      if ← isPunctuator "," then
        let comma ← start
        advance
        if ← isPunctuator ")" then stopAt comma
        let _ ← go.assignment
        return (true, true)
      else return (more, false)
    if more then return .other (← extentFrom first.extent.start) else return first
  expect ")"
  return .parenthesized inner (← extentFrom s)

def regexLiteral : Reader source (Expr source) := do
  let s ← start
  recut .regex
  match ← kind with
  | .regex =>
    advance
    return .other (← extentFrom s)
  | _ => unexpected

def arguments : Reader source PUnit := do
  expect "("
  let _ ← commaList ")" do
    let _ ← eat "..."
    withIn go.assignment
  expect ")"

/-- The module that is imported, and options. -/
def importArguments : Reader source PUnit := do
  expect "("
  if ← isPunctuator ")" then unexpected
  let _ ← withIn go.assignment
  if ← eat "," then
    if !(← isPunctuator ")") then
      let _ ← withIn go.assignment
      let _ ← eat ","
  expect ")"

/-- `import` as an expression: a call, or a property of the module. -/
def importExpression : Reader source (Expr source) := do
  let s ← start
  advance
  if ← eat "." then
    match ← kind with
    | .name "meta" => advance
    | .name "source" | .name "defer" =>
      advance
      importArguments go
    | _ => stopAt s
  else importArguments go
  return .other (← extentFrom s)

def isAsyncFunction : Reader source Bool := do
  if ← isWord "async" then
    return (← peek) == (.name "function", false)
  else return false

/-- Operands that are one token or stand between brackets. -/
def primary : Reader source (Expr source) := do
  let s ← start
  match ← kind with
  | .string _ =>
    match (← get).stringLiteral? with
    | some literal =>
      advance
      return .string literal
    | none => unexpected
  | .number value =>
    advance
    return .number value (← extentFrom s)
  | .bigint =>
    advance
    return .other (← extentFrom s)
  | .templateEnd _ | .templatePart _ => template go false
  | .punctuator "\x7b" => objectLiteral go
  | .punctuator "[" => arrayLiteral go
  | .punctuator "(" => parenthesized go
  | .punctuator "/" | .punctuator "/=" => regexLiteral
  | .punctuator "@" =>
    Function.decorators go
    Function.classTail go
    return .other (← extentFrom s)
  | .name "true" =>
    advance
    return .bool true (← extentFrom s)
  | .name "false" =>
    advance
    return .bool false (← extentFrom s)
  | .name "null" =>
    advance
    return .null (← extentFrom s)
  | .name "this" =>
    advance
    return .other (← extentFrom s)
  | .name "function" =>
    let _ ← Function.function go false .expression
    return .function (← extentFrom s)
  | .name "class" =>
    Function.classTail go
    return .other (← extentFrom s)
  | .name "import" => importExpression go
  | .name "super" =>
    advance
    match ← kind with
    | .punctuator "(" | .punctuator "." | .punctuator "[" => return .other (← extentFrom s)
    | _ => unexpected
  | .name text =>
    if ← isAsyncFunction then
      advance
      let _ ← Function.function go true .expression
      return .function (← extentFrom s)
    if isIdentifierWord text && !(← isOperatorWord text) then
      advance
      return .identifier text (← extentFrom s)
    else unexpected
  | _ => unexpected

/-! ## Members and calls -/

/-- Type arguments in an expression count only in front of what cannot follow a comparison. -/
def tryTypeArguments : Reader source Bool := do
  if (← around).typed && (← isPunctuator "<") then
    let read ← attempt do
      typeArguments go
      match ← kind with
      | .punctuator "(" | .templateEnd _ | .templatePart _ => return
      | .punctuator p =>
        if ["<", ">", "+", "-", "[", "\x7b", "!", "~", "@"].contains p then unexpected
      | .endOfText => return
      | _ => if !(← onNewLine) then unexpected
    return read.isSome
  else return false

/-- The name of a member behind a dot. -/
def memberNameAfterDot : Reader source PUnit := do
  match ← kind with
  | .name _ | .privateName => advance
  | _ => unexpected

/-- Accesses behind an operand, and calls where they are allowed. -/
def accesses (calls : Bool) (s : Nat) (operand : Expr source) : Reader source (Expr source) := do
  let (e, _) ← loop (operand, false) fun (e, chained) => do
    match ← kind with
    | .punctuator "." =>
      advance
      memberNameAfterDot
      let x ← extentFrom s
      return ((if chained then .other x else .member x, chained), true)
    | .punctuator "?." =>
      if calls then
        advance
        match ← kind with
        | .punctuator "(" => arguments go
        | .punctuator "[" =>
          advance
          let _ ← withIn go.expression
          expect "]"
        | .punctuator "<" =>
          typeArguments go
          arguments go
        | .templateEnd _ | .templatePart _ => unexpected
        | _ => memberNameAfterDot
        return ((.other (← extentFrom s), true), true)
      else unexpected
    | .punctuator "[" =>
      advance
      let _ ← withIn go.expression
      expect "]"
      let x ← extentFrom s
      return ((if chained then .other x else .member x, chained), true)
    | .punctuator "!" =>
      if (← around).typed && !(← onNewLine) then
        advance
        return ((.member (← extentFrom s), chained), true)
      else return ((e, chained), false)
    | .templateEnd _ | .templatePart _ =>
      let _ ← template go true
      return ((.other (← extentFrom s), chained), true)
    | .punctuator "(" =>
      if calls then
        arguments go
        return ((.other (← extentFrom s), chained), true)
      else return ((e, chained), false)
    | .punctuator "<" =>
      if ← tryTypeArguments go then
        return ((.other (← extentFrom s), chained), true)
      else return ((e, chained), false)
    | _ => return ((e, chained), false)
  return e

/-- `new` with its constructor, which is an operand without calls, and its arguments. -/
def newExpression : Nat → Reader source (Expr source)
  | 0 => unexpected
  | fuel + 1 => do
    let s ← start
    expectWord "new"
    if ← eat "." then
      if ← eatWord "target" then accesses go true s (.other (← extentFrom s)) else stopAt s
    else
      let c ← start
      if ← isWord "new" then
        let _ ← newExpression fuel
      else if ← isWord "import" then
        unexpected
      else
        let operand ← primary go
        let _ ← accesses go false c operand
      if ← isPunctuator "(" then arguments go
      return .other (← extentFrom s)

/-- An operand with all its accesses and calls. -/
def leftHandSide : Reader source (Expr source) := do
  let s ← start
  if ← isWord "new" then
    let e ← newExpression go (← rounds)
    accesses go true s e
  else
    let operand ← primary go
    accesses go true s operand

/-! ## Unary operators -/

def update : Reader source (Expr source) := do
  let s ← start
  if (← isPunctuator "++") || (← isPunctuator "--") then
    advance
    let argument ← go.unary
    takeAsTarget false argument
    return .other (← extentFrom s)
  else
    let operand ← leftHandSide go
    if ((← isPunctuator "++") || (← isPunctuator "--")) && !(← onNewLine) then
      takeAsTarget false operand
      advance
      return .other (← extentFrom s)
    else return operand

/--
Outside of an async function `await` is an operator, and a fault, where an operand follows it.
-/
def isAwait : Reader source Bool := do
  if ← isWord "await" then
    if (← around).insideAsync then return true
    match ← peek with
    | (.name text, false) =>
      return text ∉ ["in", "instanceof", "of", "as", "satisfies"]
    | (.string _, false) | (.number _, false) | (.bigint, false) => return true
    | _ => return false
  else return false

/-- An operand with the operators in front of it. -/
def unary : Reader source (Expr source) := do
  let s ← start
  let operator (e : Expr source → Extent → Expr source) : Reader source (Expr source) := do
    advance
    let argument ← go.unary
    let e := e argument (← extentFrom s)
    if ← isPunctuator "**" then fault s
    return e
  match ← kind with
  | .punctuator "+" => operator (.signed false)
  | .punctuator "-" => operator (.signed true)
  | .punctuator "!" | .punctuator "~" => operator fun _ x => .other x
  | .name "delete" | .name "void" | .name "typeof" => operator fun _ x => .other x
  | .punctuator "<" =>
    if (← around).typed then
      advance
      go.type
      expect ">"
      let _ ← go.unary
      return .member (← extentFrom s)
    else unexpected
  | _ =>
    if ← isAwait then
      if !(← around).insideAsync then fault s
      operator fun _ x => .other x
    else update go

/-! ## Binary operators -/

/-- How tightly an operator binds; operators of a higher level are read first. -/
def levelOf : TokenKind → Option Nat
  | .punctuator p =>
    match p with
    | "??" => some 1
    | "||" => some 2
    | "&&" => some 3
    | "|" => some 4
    | "^" => some 5
    | "&" => some 6
    | "==" | "!=" | "===" | "!==" => some 7
    | "<" | ">" | "<=" | ">=" => some 8
    | "<<" | ">>" | ">>>" => some 9
    | "+" | "-" => some 10
    | "*" | "/" | "%" => some 11
    | "**" => some 12
    | _ => none
  | .name text =>
    if text = "instanceof" ∨ text = "in" ∨ text = "as" ∨ text = "satisfies" then some 8 else none
  | _ => none

/-- Cuts an operator that starts with a closing angle bracket in its full length. -/
def recutAngle : Reader source PUnit := do
  if ← isPunctuator ">" then
    recut .angle

/-- The operand of a binary operator; a private name may stand in front of `in`. -/
def operand : Reader source (Expr source) := do
  let s ← start
  if (← kind) == .privateName then
    advance
    if ← isWord "in" then return .other (← extentFrom s) else unexpected
  else go.unary

/-- Operators on one level are taken from the left; `??` does not mix with `&&` and `||`. -/
def binary (level : Nat) : Reader source (Expr source) := do
  let s ← start
  let first ← operand go
  loop first fun e => do
    recutAngle
    let k ← kind
    match levelOf k with
    | none => return (e, false)
    | some l =>
      if l < level || (l = level && k != .punctuator "**") then return (e, false)
      else if k == .name "in" && !(← around).allowIn then return (e, false)
      else if k == .name "as" || k == .name "satisfies" then
        if ← onNewLine then return (e, false)
        advance
        go.type
        if !(← around).typed then fault s
        return (.ascribed e (← extentFrom s), true)
      else
        advance
        let right ← go (.binary l)
        let x ← extentFrom s
        if k == .punctuator "??" && (e.isLogical || right.isLogical) then fault s
        if k == .punctuator "&&" || k == .punctuator "||" then return (.logical x, true)
        return (.other x, true)

/-! ## Arrow functions -/

/-- Whether an arrow function starts here: yes, no, or perhaps. -/
inductive Likely where
  | yes
  | no
  | perhaps
  deriving DecidableEq

/-- What the tokens behind an opening parenthesis say. -/
def behindParenthesis : Reader source Likely := do
  match ← kind with
  | .punctuator ")" =>
    advance
    match ← kind with
    | .punctuator ":" | .punctuator "=>" | .punctuator "\x7b" => return .yes
    | _ => return .no
  | .punctuator "[" | .punctuator "\x7b" => return .perhaps
  | .punctuator "..." =>
    advance
    match ← kind with
    | .punctuator "[" | .punctuator "\x7b" => return .perhaps
    | .name _ => return .yes
    | _ => return .no
  | .name text =>
    if !isIdentifierWord text && text ≠ "this" then return .no
    advance
    match ← kind with
    | .punctuator ":" => return .yes
    | .punctuator "?" =>
      advance
      match ← kind with
      | .punctuator ":" | .punctuator "," | .punctuator "=" | .punctuator ")" => return .yes
      | _ => return .no
    | .punctuator "," | .punctuator "=" | .punctuator ")" => return .perhaps
    | _ => return .no
  | _ => return .no

def likelyArrow : Reader source Likely := do
  match ← kind with
  | .punctuator "(" | .punctuator "<" | .name "async" =>
    lookahead .no do
      if ← isWord "async" then
        advance
        if ← onNewLine then return .no
      match ← kind with
      | .punctuator "(" =>
        advance
        behindParenthesis
      | .punctuator "<" =>
        advance
        match ← kind with
        | .name text => return if isIdentifierWord text || text = "const" then .perhaps else .no
        | _ => return .no
      | _ => return .no
  | _ => return .no

/-- The body of an arrow function: a block or one expression. -/
def arrowBody (isAsync resultType : Bool) : Reader source PUnit := do
  if ← isPunctuator "\x7b" then Function.body go isAsync false
  else
    let allowIn := (← around).allowIn
    let _ ← within (fun s => { Function.insideFunction isAsync false s with allowIn })
      (go (.assignment resultType))

/-- Everything in front of the body, with whether it states a result type. -/
def arrowHead : Reader source (Bool × Bool) := do
  let isAsync ← eatWord "async"
  optionalTypeParameters go
  let _ ← within (Function.insideFunction isAsync false) (Function.parameters go)
  let typed ← resultAnnotation go
  if ← onNewLine then fault (← start)
  expect "=>"
  return (isAsync, typed)

/-- An arrow function with parenthesized parameters, if one starts here. -/
def tryArrow (resultType : Bool) : Reader source (Option (Expr source)) := do
  let s ← start
  let whole : Reader source (Expr source) := do
    let (isAsync, _) ← arrowHead go
    arrowBody go isAsync resultType
    return .function (← extentFrom s)
  match ← likelyArrow with
  | .no => return none
  | .yes => return some (← whole)
  | .perhaps =>
    match ← lookahead none (do let (_, typed) ← arrowHead go; return some typed) with
    | none => return none
    | some typed =>
      -- in the arm of a conditional the colon behind the parameters may belong to the conditional
      if !resultType && typed then
        attempt do
          let e ← whole
          if ← isPunctuator ":" then return e else unexpected
      else return some (← whole)

/-- `async` and a single parameter in front of an arrow. -/
def isAsyncArrow : Reader source Bool := do
  if ← isWord "async" then
    lookahead false do
      advance
      if ← onNewLine then return false
      if !(← atIdentifier) then return false
      advance
      isPunctuator "=>"
  else return false

/-! ## Assignments and sequences -/

def assignmentOperators : List String :=
  ["=", "+=", "-=", "*=", "/=", "%=", "**=", "<<=", ">>=", ">>>=", "&=", "|=", "^=", "&&=", "||=",
    "??="]

/-- Outside of a generator `yield` is an operator, and a fault, where an operand follows it. -/
def isYield : Reader source Bool := do
  if ← isWord "yield" then
    if (← around).insideGenerator then return true
    match ← peek with
    | (.name _, false) | (.string _, false) | (.number _, false) | (.bigint, false) => return true
    | _ => return false
  else return false

def yieldExpression : Reader source (Expr source) := do
  let s ← start
  if !(← around).insideGenerator then fault s
  advance
  if !(← onNewLine) then
    let delegate ← eat "*"
    let ended ← match ← kind with
      | .punctuator p => pure ([")", "]", "\x7d", ",", ";", ":"].contains p)
      | .endOfText => pure true
      | .name text => pure (text = "in" || text = "of")
      | _ => pure false
    if delegate || !ended then let _ ← go.assignment
  return .other (← extentFrom s)

/-- The arms of a conditional expression, if a question mark follows the condition. -/
def conditionalRest (resultType : Bool) (s : Nat) (condition : Expr source) :
    Reader source (Expr source) := do
  if ← eat "?" then
    let _ ← withIn (go (.assignment false))
    expect ":"
    let _ ← go (.assignment resultType)
    return .other (← extentFrom s)
  else return condition

def assignment (resultType : Bool) : Reader source (Expr source) := do
  let s ← start
  if ← isYield then return ← yieldExpression go
  if let some e ← tryArrow go resultType then return e
  if ← isAsyncArrow then
    advance
    advance
    expect "=>"
    arrowBody go true resultType
    return .function (← extentFrom s)
  let left ← go (.binary 0)
  if ← isPunctuator "=>" then
    if left matches .identifier .. then
      if ← onNewLine then fault (← start)
      advance
      arrowBody go false resultType
      return .function (← extentFrom s)
  match ← kind with
  | .punctuator p =>
    if assignmentOperators.contains p then
      let plain := p = "="
      takeAsTarget plain left
      advance
      let _ ← go (.assignment resultType)
      return .assignment plain (← extentFrom s)
    else conditionalRest go resultType s left
  | _ => conditionalRest go resultType s left

def expression : Reader source (Expr source) := do
  let s ← start
  let first ← go.assignment
  if ← isPunctuator "," then
    loop () fun _ => do
      if ← eat "," then
        let _ ← go.assignment
        return ((), true)
      else return ((), false)
    return .other (← extentFrom s)
  else return first

end Expression

end MessageCatalog.Script
