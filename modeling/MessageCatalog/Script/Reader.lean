/-
Reading script text token by token. A reader has the current token and the faults found so far; it
goes on after a fault of a token or of meaning, and stops at the first token that does not fit. An
attempt that stops can be taken back together with all it found.
-/
import MessageCatalog.Script.Syntax
import MessageCatalog.Proofs.Script.Tail

namespace MessageCatalog.Script

open MessageCatalog.Text

/-! ## State -/

/-- What surrounds the current place of the text. -/
structure Surroundings where
  /-- Type syntax is allowed. -/
  typed : Bool
  /-- `in` is an operator here. -/
  allowIn : Bool := true
  insideFunction : Bool := false
  insideAsync : Bool := true
  insideGenerator : Bool := false
  /-- Conditional types are not read here. -/
  noConditionalType : Bool := false
  deriving Inhabited

structure ReaderState (source : List Char) where
  token : Token
  rest : List Char
  stands : token.Stands source rest
  /-- The end of the token before the current one. -/
  previousStop : Nat
  /-- Faults of tokens, in order. -/
  tokenFaults : Array Nat
  /-- Faults of meaning, in order. -/
  faults : Array Nat
  /-- Starts and places of defaults in object literals that are no patterns yet. -/
  openDefaults : List Nat

/-- Where reading stopped, and the faults found until then. -/
structure Stop where
  offset : Nat
  tokenFaults : Array Nat
  faults : Array Nat

/-- The size of the whole text makes offsets of what is left of it. -/
structure Setting (source : List Char) where
  size : Nat
  size_eq : size = byteLength source
  around : Surroundings

def Setting.ofText (source : List Char) (around : Surroundings) : Setting source :=
  ⟨byteLength source, rfl, around⟩

abbrev Reader (source : List Char) (α : Type) :=
  ReaderT (Setting source) (StateT (ReaderState source) (Except Stop)) α

/-! ## Steps from state to state -/

namespace ReaderState

variable {source : List Char}

/-- The state in front of the first token of a text. -/
def ofText (setting : Setting source) : ReaderState source :=
  let next := nextToken (offsetIn setting.size) source
  { token := next.1
    rest := next.2.1
    stands := nextToken_stands setting.size_eq List.suffix_rfl
    previousStop := 0
    tokenFaults := next.2.2.toArray
    faults := #[]
    openDefaults := [] }

/-- The state in front of the token behind the current one. -/
def next (setting : Setting source) (s : ReaderState source) : ReaderState source :=
  let next := nextToken (offsetIn setting.size) s.rest
  { s with
    previousStop := s.token.stop
    token := next.1
    rest := next.2.1
    tokenFaults := s.tokenFaults ++ next.2.2.toArray
    stands := nextToken_stands setting.size_eq (s.stands.inText.trans s.stands.inSource) }

/-- The state with another cut of the text of the current token. -/
def recut (cut : Recut) (setting : Setting source) (s : ReaderState source) : ReaderState source :=
  let c := cut.cut (offsetIn setting.size) s.token
  { s with
    token := { s.token with kind := c.kind, stop := offsetIn setting.size c.rest }
    rest := c.rest
    tokenFaults := s.tokenFaults ++ c.faults.toArray
    stands := s.stands.recut setting.size_eq cut }

/-- The current token, if it is a string. -/
def stringLiteral? (s : ReaderState source) : Option (StringLiteral source) :=
  match h : s.token.kind with
  | .string value =>
    some ⟨value, ⟨s.token.start, s.token.stop⟩, s.token, s.rest, s.stands, h, rfl⟩
  | _ => none

end ReaderState

namespace Reader

variable {source : List Char}

/-! ## Tokens -/

def current : Reader source Token := return (← get).token

def kind : Reader source TokenKind := return (← get).token.kind

def start : Reader source Nat := return (← get).token.start

/-- From a start to the end of the last token that was taken. -/
def extentFrom (start : Nat) : Reader source Extent := return ⟨start, (← get).previousStop⟩

/-- Takes the current token. -/
def advance : Reader source Unit := do
  let setting ← read
  modify (·.next setting)

/-- Replaces the current token by another cut of the same text. -/
def recut (cut : Recut) : Reader source Unit := do
  let setting ← read
  modify (·.recut cut setting)

def isPunctuator (text : String) : Reader source Bool := return (← kind) == .punctuator text

def isWord (text : String) : Reader source Bool := return (← kind) == .name text

def onNewLine : Reader source Bool := return (← get).token.onNewLine

/-! ## Faults -/

/-- Stops at an offset. -/
def stopAt {α : Type} (offset : Nat) : Reader source α := do
  let s ← get
  throw ⟨offset, s.tokenFaults, s.faults⟩

/-- Stops at the current token, or at the fault that was found in it. -/
def unexpected {α : Type} : Reader source α := do
  let s ← get
  match s.token.kind with
  | .endOfText | .unknown =>
    match s.tokenFaults.back? with
    | some fault => throw ⟨fault, s.tokenFaults.pop, s.faults⟩
    | none => stopAt s.token.start
  | _ => stopAt s.token.start

/-- Reports a fault and goes on. -/
def fault (offset : Nat) : Reader source Unit :=
  modify fun s => { s with faults := s.faults.push offset }

/-! ## Expectations -/

def expect (text : String) : Reader source Unit := do
  if ← isPunctuator text then advance else stopAt (← start)

def expectWord (text : String) : Reader source Unit := do
  if ← isWord text then advance else stopAt (← start)

/-- Takes a punctuator if it is there. -/
def eat (text : String) : Reader source Bool := do
  if ← isPunctuator text then
    advance
    return true
  else return false

def eatWord (text : String) : Reader source Bool := do
  if ← isWord text then
    advance
    return true
  else return false

/-! ## Attempts -/

/-- Reads something and takes it back if reading stops. -/
def attempt {α : Type} (r : Reader source α) : Reader source (Option α) := fun env s =>
  match r env s with
  | .ok (a, s') => .ok (some a, s')
  | .error _ => .ok (none, s)

/-- Reads something and takes it back in any case. -/
def lookahead {α : Type} (default : α) (r : Reader source α) : Reader source α := fun env s =>
  match r env s with
  | .ok (a, _) => .ok (a, s)
  | .error _ => .ok (default, s)

def within {α : Type} (change : Surroundings → Surroundings) (r : Reader source α) :
    Reader source α :=
  fun env => r { env with around := change env.around }

def around : Reader source Surroundings := return (← read).around

/-! ## Repetition -/

/-- Reads while the body says so; the fuel is the most rounds there can be. -/
def repeatWhile {α : Type} (body : α → Reader source (α × Bool)) : Nat → α → Reader source α
  | 0, a => return a
  | fuel + 1, a => do
    let (a, again) ← body a
    if again then repeatWhile body fuel a else return a

/-- As many rounds as there is text, and one more. -/
def rounds : Reader source Nat := return (← read).size + 2

def loop {α : Type} (init : α) (body : α → Reader source (α × Bool)) : Reader source α := do
  repeatWhile body (← rounds) init

/-- Whether no list can go on here: its end, or text without tokens. -/
def atListEnd (closing : String) : Reader source Bool := do
  match ← kind with
  | .punctuator p => return p = closing
  | .endOfText | .unknown => return true
  | _ => return false

/-- One more round of a list between commas: a comma, and an item behind it. -/
def listRound {α : Type} (closing : String) (item : Reader source α) (items : Array α) :
    Reader source (Array α × Bool) := do
  if ← atListEnd closing then return (items, false)
  expect ","
  if ← isPunctuator closing then return (items, false)
  let next ← item
  return (items.push next, true)

/-- Items between commas up to a closing punctuator, which is left; a comma may end the list. -/
def commaList {α : Type} (closing : String) (item : Reader source α) : Reader source (List α) := do
  if ← atListEnd closing then return []
  let first ← item
  let items ← loop #[first] (listRound closing item)
  return items.toList

/--
Items between commas, of which one that starts with an ellipsis takes the rest: nothing may follow
it, not even a comma. With the items comes the start of that one.
-/
def restList {α : Type} (closing : String) (item : Reader source α) :
    Reader source (List α × Option Nat) := do
  if ← atListEnd closing then return ([], none)
  let restStart : Reader source (Option Nat) := do
    if ← isPunctuator "..." then return some (← start) else return none
  let taken ← restStart
  let first ← item
  let (items, taken) ← loop (#[first], taken) fun (items, taken) => do
    if ← atListEnd closing then return ((items, taken), false)
    let comma ← start
    expect ","
    if ← isPunctuator closing then
      if taken.isSome then fault comma
      return ((items, taken), false)
    if let some place := taken then fault place
    let taken := taken.or (← restStart)
    let next ← item
    return ((items.push next, taken), true)
  return (items.toList, taken)

/-- Whether a statement may end here without a semicolon. -/
def canOmitSemicolon : Reader source Bool := do
  match ← kind with
  | .punctuator "\x7d" | .endOfText => return true
  | _ => onNewLine

/-- The end of a statement. -/
def semicolon : Reader source Unit := do
  if ← eat ";" then return
  if ← canOmitSemicolon then return
  stopAt (← get).previousStop

end Reader

end MessageCatalog.Script
