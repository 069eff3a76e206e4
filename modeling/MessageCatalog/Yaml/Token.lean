/-
The tokens of YAML. Blocks have no brackets of their own: they are opened and closed by the
indentation of their items. Whether a node is a key shows only at the colon behind it, so tokens
wait until no place in front of them can become a key any more.
-/
import MessageCatalog.Yaml.Lexeme

namespace MessageCatalog.Yaml

/-! ## Tokens -/

inductive ScalarStyle where
  | plain
  | quoted
  | block
  deriving DecidableEq, Repr, Inhabited

inductive TokenKind where
  | streamStart
  | streamEnd
  | directive (d : Lexer.Directive)
  | documentStart
  | documentEnd
  | blockSequenceStart
  | blockMappingStart
  | blockEnd
  | flowSequenceStart
  | flowSequenceEnd
  | flowMappingStart
  | flowMappingEnd
  | blockEntry
  | flowEntry
  | key
  | value
  | alias (name : String)
  | anchor (name : String)
  | tag (handle suffix : String)
  | scalar (style : ScalarStyle) (text : String)
  deriving DecidableEq, Repr, Inhabited

structure Token where
  mark : Mark
  kind : TokenKind
  deriving DecidableEq, Repr, Inhabited

/-! ## State -/

/-- A place in front of a token that becomes a key if a colon follows the node behind it. -/
structure PossibleKey where
  possible : Bool
  /-- The block the key is in accepts nothing else here. -/
  required : Bool
  /-- The number of the token in front of which the key is. -/
  token : Nat
  mark : Mark
  deriving Repr, Inhabited

def PossibleKey.none : PossibleKey := ⟨false, false, 0, .start⟩

/-- The indentation around a level of indentation, and whether the level is a block to be closed. -/
structure Indent where
  outer : Int
  isBlock : Bool
  deriving Repr, Inhabited

structure TokenizerState where
  cursor : Cursor
  /-- All tokens so far; those that wait are at the end. -/
  tokens : Array Token
  /-- The number of tokens that do not wait any more. -/
  taken : Nat
  started : Bool
  /-- A colon here needs no gap behind it. -/
  tightColonAt : Nat
  keyAllowed : Bool
  /-- The key that is possible on every level of flow collections, the innermost first. -/
  possibleKeys : List PossibleKey
  indent : Int
  indents : List Indent
  flowLevel : Nat
  /-- A flow mapping was opened, so a pair in a sequence needs no mapping around it. -/
  mappingOpened : Bool
  /-- For every open flow sequence whether a mapping of one pair is open in it, innermost first. -/
  singlePairs : List Bool
  deriving Inhabited

def TokenizerState.ofText (text : List Char) : TokenizerState where
  cursor := .ofText text
  tokens := #[]
  taken := 0
  started := false
  tightColonAt := 0
  keyAllowed := false
  possibleKeys := []
  indent := -1
  indents := []
  flowLevel := 0
  mappingOpened := false
  singlePairs := []

def TokenizerState.inFlow (s : TokenizerState) : Bool := 0 < s.flowLevel

abbrev Tokenizer (α : Type) := StateT TokenizerState (Except Nat) α

namespace Tokenizer

/-- Runs a lexer at the cursor. -/
def lex {α : Type} (l : Lexer α) : Tokenizer α := fun s =>
  (l s.cursor).map fun (a, cursor) => (a, { s with cursor })

def mark : Tokenizer Mark := return (← get).cursor.mark

def char : Tokenizer Char := return (← get).cursor.char

def faultAt {α : Type} (mark : Mark) : Tokenizer α := throw mark.index

def fault {α : Type} : Tokenizer α := do throw (← mark).index

def push (mark : Mark) (kind : TokenKind) : Tokenizer Unit :=
  modify fun s => { s with tokens := s.tokens.push ⟨mark, kind⟩ }

/-- Puts a token in front of one that waits, given by its number. -/
def insert (number : Nat) (mark : Mark) (kind : TokenKind) : Tokenizer Unit :=
  modify fun s => { s with tokens := s.tokens.insertIdxIfInBounds number ⟨mark, kind⟩ }

def allowKey (allowed : Bool) : Tokenizer Unit :=
  modify fun s => { s with keyAllowed := allowed }

/-! ## Indentation -/

/--
Opens a block at a column unless one is open there; its start goes in front of a token, if given.
-/
def openBlock (column : Nat) (before : Option Nat) (kind : TokenKind) (mark : Mark) :
    Tokenizer Unit := do
  if (← get).inFlow then return
  modify fun s =>
    match s.indents with
    | i :: rest =>
      if !i.isBlock && s.indent ≤ column then { s with indent := i.outer, indents := rest } else s
    | [] => s
  if (← get).indent < column then
    modify fun s => { s with indent := column, indents := ⟨s.indent, true⟩ :: s.indents }
    match before with
    | some number => insert number mark kind
    | none => push mark kind

/-- The ends of the levels that are further in than a column. -/
def closedBlocks (column : Int) (mark : Mark) :
    Int → List Indent → Int × List Indent × Array Token
  | indent, [] => (indent, [], #[])
  | indent, i :: rest =>
    if column < indent then
      let (final, left, ends) := closedBlocks column mark i.outer rest
      (final, left, (if i.isBlock then #[⟨mark, .blockEnd⟩] else #[]) ++ ends)
    else (indent, i :: rest, #[])

/-- Closes all levels that are further in than a column. -/
def closeBlocks (column : Int) : Tokenizer Unit :=
  modify fun s =>
    if s.inFlow then s
    else
      let (indent, indents, ends) := closedBlocks column s.cursor.mark s.indent s.indents
      { s with indent, indents, tokens := s.tokens ++ ends }

/-- Inside a block, asks the next lines for one column more than it has. -/
def indentOneColumn : Tokenizer Unit :=
  modify fun s =>
    match s.inFlow, s.indents with
    | false, i :: _ =>
      if i.isBlock then
        { s with indent := s.indent + 1, indents := ⟨s.indent, false⟩ :: s.indents }
      else s
    | _, _ => s

/-- The levels from the innermost block on. -/
def blocksOnly : Int → List Indent → Int × List Indent
  | indent, [] => (indent, [])
  | indent, i :: rest => if i.isBlock then (indent, i :: rest) else blocksOnly i.outer rest

/-- Takes back what was asked for beyond the innermost block. -/
def dropOneColumn : Tokenizer Unit :=
  modify fun s =>
    let (indent, indents) := blocksOnly s.indent s.indents
    { s with indent, indents }

/-! ## Possible keys -/

/-- How far its colon may be from the start of a key. -/
def keyLimit : Nat := 1024

/--
Outside flow collections, forgets keys on other lines or out of reach; a required one is missed.
-/
def forgetStaleKeys : Tokenizer Unit := do
  let s ← get
  let here := s.cursor.mark
  let isStale (k : PossibleKey) : Bool :=
    k.possible && !s.inFlow && (k.mark.line < here.line || k.mark.index + keyLimit < here.index)
  if s.possibleKeys.any fun k => isStale k && k.required then fault
  let kept := s.possibleKeys.map fun k => if isStale k then { k with possible := false } else k
  set { s with possibleKeys := kept }

/-- What comes next may become a key. -/
def noteKey : Tokenizer Unit :=
  modify fun s =>
    if s.keyAllowed then
      let here := s.cursor.mark
      let inBlock :=
        match s.indents with
        | i :: _ => i.isBlock
        | [] => false
      let key : PossibleKey :=
        { possible := true
          required := !s.inFlow && s.indent = here.column && inBlock
          token := s.tokens.size
          mark := here }
      { s with possibleKeys := key :: s.possibleKeys.drop 1 }
    else s

/-- Nothing before this becomes a key on this level. -/
def dropKey : Tokenizer Unit := do
  match (← get).possibleKeys with
  | [] => return
  | k :: rest =>
    if k.possible && k.required then fault
    modify fun s => { s with possibleKeys := { k with possible := false } :: rest }

/-! ## Gaps -/

/-- Passes blanks, comments and lines; a tab must not stand for indentation in front of content. -/
def skipGap : Tokenizer Unit := do
  let s ← get
  let allowed ← lex <| Lexer.loop s.keyAllowed fun allowed => do
    Lexer.look 1
    let c ← get
    if c.char = '\t' && !s.indents.isEmpty && c.leading && c.mark.column < s.indent then
      let _ ← Lexer.separation true
      if !isLineEnd (← Lexer.char) then Lexer.fault
      return (allowed, true)
    else if isSpace c.char then
      Lexer.skipBlank
      return (allowed, true)
    else if isBreak c.char then
      Lexer.skipBreak
      return (allowed || !s.inFlow, true)
    else if c.char = '#' then
      modify (·.skipWhile (!isLineEnd ·))
      return (allowed, true)
    else return (allowed, false)
  allowKey allowed

/-- Passes at least one space or line break behind the indicator of a key. -/
def skipKeyGap : Tokenizer Unit := do
  let s ← get
  let (allowed, found) ← lex <| Lexer.loop (s.keyAllowed, false) fun (allowed, found) => do
    Lexer.look 1
    let c ← Lexer.char
    if c = ' ' then
      Lexer.skipBlank
      return ((allowed, true), true)
    else if isBreak c then
      Lexer.skipBreak
      return ((allowed || !s.inFlow, true), true)
    else if c = '#' then
      modify (·.skipWhile (!isLineEnd ·))
      return ((allowed, found), true)
    else return ((allowed, found), false)
  allowKey allowed
  if !found then fault

/-! ## Stream and documents -/

def streamStart : Tokenizer Unit := do
  modify fun s => { s with started := true, keyAllowed := true, possibleKeys := [.none] }
  push (← mark) .streamStart

def streamEnd : Tokenizer Unit := do
  modify fun s =>
    let m := s.cursor.mark
    if m.column = 0 then s
    else { s with cursor := { s.cursor with mark := ⟨m.index, m.line + 1, 0⟩ } }
  if (← get).possibleKeys.any fun k => k.possible && k.required then fault
  modify fun s =>
    { s with possibleKeys := s.possibleKeys.map fun k => { k with possible := false } }
  closeBlocks (-1)
  allowKey false
  push (← mark) .streamEnd

def directive : Tokenizer Unit := do
  closeBlocks (-1)
  dropKey
  allowKey false
  let start ← mark
  push start (.directive (← lex Lexer.directive))

def documentIndicator (kind : TokenKind) : Tokenizer Unit := do
  closeBlocks (-1)
  dropKey
  allowKey false
  let start ← mark
  lex (Lexer.skip 3)
  push start kind

def documentEnd : Tokenizer Unit := do
  documentIndicator .documentEnd
  let _ ← lex (Lexer.separation true)
  if !isLineEnd (← char) then fault

/-! ## Flow collections -/

/-- The deepest nesting of flow collections. -/
def flowLimit : Nat := 255

def openFlow (kind : TokenKind) : Tokenizer Unit := do
  noteKey
  indentOneColumn
  if (← get).flowLevel = flowLimit then fault
  let start ← mark
  lex (Lexer.skip 1)
  modify fun s =>
    { s with
      possibleKeys := .none :: s.possibleKeys
      flowLevel := s.flowLevel + 1
      keyAllowed := true
      mappingOpened := s.mappingOpened || kind == .flowMappingStart
      singlePairs := if kind = .flowSequenceStart then false :: s.singlePairs else s.singlePairs }
  let _ ← lex (Lexer.separation true)
  push start kind

/-- Closes the mapping of one pair that is open in the innermost sequence. -/
def endSinglePair : Tokenizer Unit := do
  match (← get).singlePairs with
  | true :: rest =>
    modify fun s => { s with mappingOpened := false, singlePairs := false :: rest }
    push (← mark) .flowMappingEnd
  | _ => return

def closeFlow (kind : TokenKind) : Tokenizer Unit := do
  dropKey
  modify fun s =>
    if s.inFlow then { s with flowLevel := s.flowLevel - 1, possibleKeys := s.possibleKeys.drop 1 }
    else s
  allowKey false
  if kind = .flowSequenceEnd then
    endSinglePair
    modify fun s => { s with singlePairs := s.singlePairs.drop 1 }
  let start ← mark
  lex (Lexer.skip 1)
  let _ ← lex (Lexer.separation true)
  modify fun s => if s.inFlow then { s with tightColonAt := s.cursor.mark.index } else s
  push start kind

def flowSeparator : Tokenizer Unit := do
  dropKey
  allowKey true
  endSinglePair
  let start ← mark
  lex (Lexer.skip 1)
  let _ ← lex (Lexer.separation true)
  push start .flowEntry

/-! ## Entries, keys and values -/

/-- A lonely anchor or tag at the start of a line inside a block. -/
def isMisplaced (s : TokenizerState) : Option Mark :=
  match (s.tokens.extract s.taken s.tokens.size).back? with
  | some ⟨m, .anchor _⟩ | some ⟨m, .tag _ _⟩ =>
    if s.cursor.mark.column = 0 && m.column = 0 && -1 < s.indent then some m else none
  | _ => none

def entryIndicator : Tokenizer Unit := do
  let s ← get
  if s.inFlow || !s.keyAllowed then fault
  if let some m := isMisplaced s then faultAt m
  let start ← mark
  lex (Lexer.skip 1)
  openBlock start.column none .blockSequenceStart start
  let gap ← lex (Lexer.separation true)
  let c := (← get).cursor
  if gap.tab && c.char = '-' && isGap (c.charAt 1) then fault
  let _ ← lex (Lexer.separation false)
  let c ← char
  if isBreak c || isFlowIndicator c then indentOneColumn
  dropKey
  allowKey true
  push (← mark) .blockEntry

def keyIndicator : Tokenizer Unit := do
  let start ← mark
  if (← get).inFlow then modify fun s => { s with mappingOpened := true }
  else
    if !(← get).keyAllowed then fault
    openBlock start.column none .blockMappingStart start
  dropKey
  allowKey (!(← get).inFlow)
  lex (Lexer.skip 1)
  skipKeyGap
  if (← char) = '\t' then fault
  push start .key

/-- Makes the node behind a possible key the key of a pair whose colon was at `start`. -/
def valueOfKey (key : PossibleKey) (start : Mark) (single : Bool) : Tokenizer Unit := do
  insert key.token key.mark .key
  if single then
    if key.mark.line < start.line then faultAt start
    insert key.token (← mark) .flowMappingStart
  openBlock key.mark.column (some key.token) .blockMappingStart start
  indentOneColumn
  modify fun s =>
    { s with
      possibleKeys := { key with possible := false } :: s.possibleKeys.drop 1
      keyAllowed := false }

/-- A colon behind an explicit key, or behind none. -/
def valueAlone (start : Mark) (single : Bool) : Tokenizer Unit := do
  if single then push (← mark) .flowMappingStart
  if !(← get).inFlow then
    if !(← get).keyAllowed then faultAt start
    openBlock start.column none .blockMappingStart start
  indentOneColumn
  allowKey (!(← get).inFlow)

def valueIndicator : Tokenizer Unit := do
  let s ← get
  let key := s.possibleKeys.headD .none
  let start := s.cursor.mark
  let single := !s.singlePairs.isEmpty && !s.mappingOpened
  if single then set { s with singlePairs := true :: s.singlePairs.drop 1 }
  lex (Lexer.skip 1)
  if (← char) = '\t' then
    let gap ← lex (Lexer.separation true)
    let c ← char
    if !gap.space && isNameChar c then fault
  if key.possible then valueOfKey key start single else valueAlone start single
  push start .value

/-! ## Nodes -/

/-- An anchor, an alias or a tag: a key may start at it, none in front of what follows. -/
def property (l : Lexer TokenKind) : Tokenizer Unit := do
  noteKey
  allowKey false
  let start ← mark
  push start (← lex l)

def blockScalar (literal : Bool) : Tokenizer Unit := do
  noteKey
  allowKey true
  let start ← mark
  lex (Lexer.skip 1)
  dropOneColumn
  let (text, place) ← lex (Lexer.block start literal (← get).indent)
  push place (.scalar .block text)

def quotedScalar (single : Bool) : Tokenizer Unit := do
  noteKey
  allowKey false
  let s ← get
  let text ← lex (Lexer.quoted single s.inFlow s.indent)
  skipGap
  modify fun s => { s with tightColonAt := s.cursor.mark.index }
  push s.cursor.mark (.scalar .quoted text)

def plainScalar : Tokenizer Unit := do
  noteKey
  allowKey false
  dropOneColumn
  let s ← get
  let text ← lex (Lexer.plain s.inFlow (s.indent + 1))
  if (← get).cursor.leading then allowKey true
  push s.cursor.mark (.scalar .plain text)

/-- A token of the content, told by its first characters. -/
def content : Tokenizer Unit := do
  let s ← get
  let c := s.cursor.char
  let next := s.cursor.charAt 1
  let adjacent := isFlowIndicator next || s.cursor.mark.index = s.tightColonAt
  if c = '[' then openFlow .flowSequenceStart
  else if c = '\x7b' then openFlow .flowMappingStart
  else if c = ']' then closeFlow .flowSequenceEnd
  else if c = '\x7d' then closeFlow .flowMappingEnd
  else if c = ',' then flowSeparator
  else if c = '-' && isGap next then entryIndicator
  else if c = '?' && isGap next then keyIndicator
  else if c = ':' && (isGap next || (s.inFlow && adjacent)) then valueIndicator
  else if c = '*' then property (return .alias (← Lexer.anchorName))
  else if c = '&' then property (return .anchor (← Lexer.anchorName))
  else if c = '!' then
    property do
      let (handle, suffix) ← Lexer.tag s.inFlow
      return .tag handle suffix
  else if c = '|' && !s.inFlow then blockScalar true
  else if c = '>' && !s.inFlow then blockScalar false
  else if c = '\'' then quotedScalar true
  else if c = '"' then quotedScalar false
  else if c = '%' || c = '@' || c.toNat = 0x60 then fault
  else plainScalar

/-- The next token, with all that its place opens and closes in front of it. -/
def nextTokens : Tokenizer Unit := do
  if !(← get).started then
    streamStart
    return
  skipGap
  forgetStaleKeys
  closeBlocks (← mark).column
  lex (Lexer.look 4)
  let s ← get
  let c := s.cursor
  if c.char = endOfText then streamEnd
  else if c.mark.column = 0 && c.char = '%' then directive
  else if c.mark.column = 0 && c.isIndicator '-' then documentIndicator .documentStart
  else if c.mark.column = 0 && c.isIndicator '.' then documentEnd
  else if c.mark.column < s.indent then fault
  else content

/-! ## The token stream -/

/-- A token with the index up to which the text had been read when it was taken. -/
structure TakenToken where
  token : Token
  reached : Nat
  deriving Repr, Inhabited

/-- The tokens of a text up to its end or the first fault, and the index of the fault or the end. -/
structure TokenStream where
  tokens : List TakenToken
  stop : Nat
  deriving Repr, Inhabited

/-- Whether there is a token that need not wait. -/
def isReady : Tokenizer Bool := do
  if (← get).taken = (← get).tokens.size then return false
  forgetStaleKeys
  let s ← get
  return !s.possibleKeys.any fun k => k.possible && k.token = s.taken

/-- Takes the next token, or reads one that has to wait. -/
def step : Tokenizer (Option TakenToken) := do
  if ← isReady then
    let s ← get
    set { s with taken := s.taken + 1 }
    return s.tokens[s.taken]?.map fun token => ⟨token, s.cursor.mark.index⟩
  else
    nextTokens
    return none

def run : Nat → TokenizerState → TokenStream
  | 0, s => ⟨[], s.cursor.mark.index⟩
  | fuel + 1, s =>
    match step s with
    | .error stop => ⟨[], stop⟩
    | .ok (none, s) => run fuel s
    | .ok (some t, s) =>
      if t.token.kind = .streamEnd then ⟨[t], t.reached⟩
      else
        let rest := run fuel s
        ⟨t :: rest.tokens, rest.stop⟩

end Tokenizer

/-- A step brings a few tokens at most, and passes a character unless it is the last. -/
def tokenize (text : List Char) : Tokenizer.TokenStream :=
  Tokenizer.run (8 * (text.length + 4)) (.ofText text)

end MessageCatalog.Yaml
