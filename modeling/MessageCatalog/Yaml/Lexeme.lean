/-
The lexemes of YAML: scalars in their five styles, anchors, tags and directives. Each is read from
its first character on, where the enclosing indentation is given.
-/
import MessageCatalog.Yaml.Cursor

namespace MessageCatalog.Yaml.Lexer

open MessageCatalog.Text

/-! ## Folding -/

/-- What was passed since the last content of a scalar that may go over several lines. -/
structure Fold where
  /-- Blanks on the line of the content. -/
  blanks : List Char := []
  /-- The line was broken. -/
  broken : Bool := false
  /-- Line breaks after the first. -/
  emptyLines : Nat := 0

def lineFeeds (n : Nat) : List Char := List.replicate n '\n'

/-- What stands for it in the value; `newLine` tells that content goes on on another line. -/
def Fold.text (f : Fold) (newLine : Bool) : List Char :=
  if !newLine then f.blanks
  else if f.broken && f.emptyLines = 0 then [' ']
  else lineFeeds f.emptyLines

/-! ## Quoted scalars -/

/-- What an escape stands for: a character, or a number of hexadecimal digits to read. -/
def escape? (c : Char) : Option (Char ⊕ Nat) :=
  match c with
  | '0' => some (.inl '\x00')
  | 'a' => some (.inl '\x07')
  | 'b' => some (.inl '\x08')
  | 't' | '\t' => some (.inl '\t')
  | 'n' => some (.inl '\n')
  | 'v' => some (.inl '\x0b')
  | 'f' => some (.inl '\x0c')
  | 'r' => some (.inl '\r')
  | 'e' => some (.inl '\x1b')
  | ' ' => some (.inl ' ')
  | '"' => some (.inl '"')
  | '/' => some (.inl '/')
  | '\\' => some (.inl '\\')
  | 'N' => some (.inl '\u0085')
  | '_' => some (.inl '\u00a0')
  | 'L' => some (.inl '\u2028')
  | 'P' => some (.inl '\u2029')
  | 'x' => some (.inr 2)
  | 'u' => some (.inr 4)
  | 'U' => some (.inr 8)
  | _ => none

/-- The character of a number, if it is one. -/
def charOf? (n : Nat) : Option Char :=
  if n.isValidChar then some (Char.ofNat n) else none

/-- Reads an escape; every fault of it is a fault of the scalar. -/
def escaped (start : Mark) : Lexer Char := do
  match escape? (← charAt 1) with
  | none => faultAt start
  | some (.inl c) =>
    skip 2
    return c
  | some (.inr count) =>
    skip 2
    look count
    let digits := (← get).rest.take count
    if digits.length < count || !digits.all isHexDigit then faultAt start
    match charOf? (digitsValue 16 digits) with
    | none => faultAt start
    | some c =>
      skip count
      return c

/-- Reads content up to a blank, a line break or the closing quote. True: an escaped line break. -/
def quotedWord (single : Bool) (start : Mark) (text : Array Char) : Lexer (Array Char × Bool) :=
  loop (text, false) fun (text, _) => do
    let c ← char
    if isGap c then return ((text, false), false)
    else if single && c = '\'' then
      if (← charAt 1) = '\'' then
        skip 2
        return ((text.push '\'', false), true)
      else return ((text, false), false)
    else if !single && c = '"' then return ((text, false), false)
    else if !single && c = '\\' then
      if isBreak (← charAt 1) then
        skip 1
        skipBreak
        return ((text, true), false)
      else
        let c ← escaped start
        return ((text.push c, false), true)
    else
      skip 1
      return ((text.push c, false), true)

/-- Passes blanks and line breaks inside quotes; `newLine` tells that a line was broken before. -/
def quotedGap (indent : Int) (newLine : Bool) : Lexer (Fold × Bool) :=
  loop (({} : Fold), newLine) fun (f, newLine) => do
    let c ← char
    if isSpace c then
      if newLine then
        if c = '\t' && (← mark).column < indent then fault
        skipBlank
        return ((f, true), true)
      else
        skipBlank
        return (({ f with blanks := f.blanks ++ [c] }, false), true)
    else if isBreak c then
      skipBreak
      if newLine then return (({ f with emptyLines := f.emptyLines + 1 }, true), true)
      else return (({ f with blanks := [], broken := true }, true), true)
    else return ((f, newLine), false)

/-- What may follow a closing quote on its line. -/
def quotedEnd (flow : Bool) (start : Mark) : Lexer Unit := do
  let _ ← separation true
  let c ← char
  let fits :=
    isLineEnd c || (flow && [',', '\x7d', ']', ':'].contains c) ||
      (!flow && c = ':' && start.line = (← mark).line)
  if !fits then fault

/-- A scalar in single or double quotes. -/
def quoted (single flow : Bool) (indent : Int) : Lexer String := do
  let start ← mark
  skip 1
  let text ← loop #[] fun text => do
    if (← get).atDocumentIndicator then faultAt start
    if (← char) = endOfText then faultAt start
    if (← mark).column < indent then faultAt start
    let (text, joined) ← quotedWord single start text
    let c ← char
    if c = (if single then '\'' else '"') then return (text, false)
    else
      let (f, newLine) ← quotedGap indent joined
      return (text ++ (f.text newLine).toArray, true)
  skip 1
  quotedEnd flow start
  return String.ofList text.toList

/-! ## Plain scalars -/

/-- An indicator that ends a plain scalar in front of it. -/
def endsPlain (flow : Bool) (c next : Char) : Bool :=
  if c = ':' then isGap next || (flow && isFlowIndicator next) else flow && isFlowIndicator c

/-- The longest run of plain content on this line. -/
def plainWord (flow : Bool) : List Char → List Char
  | [] => []
  | c :: cs =>
    if isGap c || endsPlain flow c (cs.headD endOfText) then [] else c :: plainWord flow cs

/-- Passes blanks and line breaks behind a part of a plain scalar that starts at `start`. -/
def plainGap (start : Mark) (indent : Int) (f : Fold) : Lexer Fold :=
  loop f fun f => do
    let c ← char
    let leading := (← get).leading
    if isSpace c then
      if !leading then
        skipBlank
        return ({ f with blanks := f.blanks ++ [c] }, true)
      else if c = '\t' && (← mark).column < indent then
        let _ ← separation true
        if !isLineEnd (← char) then faultAt start
        return (f, true)
      else
        skipBlank
        return (f, true)
    else if isBreak c then
      skipBreak
      if leading then return ({ f with emptyLines := f.emptyLines + 1 }, true)
      else return ({ f with blanks := [], broken := true }, true)
    else return (f, false)

/-- A plain scalar; in a block it goes on on lines with at least `indent` columns in front. -/
def plain (flow : Bool) (indent : Int) : Lexer String := do
  let start ← mark
  if flow && start.column < indent then faultAt start
  let (text, _) ← loop ((#[] : Array Char), ({} : Fold)) fun (text, f) => do
    let c ← char
    if (← get).atDocumentIndicator || c = '#' then return ((text, f), false)
    if flow && c = '-' && isFlowIndicator (← charAt 1) then fault
    let here ← get
    let word := plainWord flow here.rest
    let (text, f) :=
      if word = [] then (text, f)
      else (text ++ (f.text here.leading).toArray ++ word.toArray, ({} : Fold))
    skip word.length
    if !isSpace (← char) && !isBreak (← char) then return ((text, f), false)
    let f ← plainGap start indent f
    return ((text, f), flow || indent ≤ (← mark).column)
  return String.ofList text.toList

/-! ## Block scalars -/

inductive Chomping where
  | strip
  | clip
  | keep
  deriving DecidableEq, Repr

def chomping? : Char → Option Chomping
  | '+' => some .keep
  | '-' => some .strip
  | _ => none

/-- The chomping and the indentation indicator of a block scalar's header, in either order. -/
def blockHeader (start : Mark) : Lexer (Chomping × Nat) := do
  let chomping : Lexer (Option Chomping) := do
    look 1
    match chomping? (← char) with
    | some c =>
      skip 1
      return some c
    | none => return none
  let increment : Lexer Nat := do
    look 1
    let c ← char
    if isAsciiDigit c then
      if c = '0' then faultAt start
      skip 1
      return hexValue c
    else return 0
  match ← chomping with
  | some c => return (c, ← increment)
  | none =>
    let n ← increment
    if n = 0 then return (.clip, 0)
    return ((← chomping).getD .clip, n)

/-- The widest window over the text. -/
def window : Nat := 16

/-- Passes spaces up to a column, a window at a time. -/
def blockSpaces (indent : Nat) : Lexer Unit := do
  let _ ← loop () fun _ => do
    look window
    let c ← get
    let spaces := ((c.rest.take (min c.ahead (indent - c.mark.column))).takeWhile (· = ' ')).length
    modify (·.skipBlanks spaces)
    let c ← get
    return ((), c.mark.column < indent && (c.ahead = 0 || c.char = ' '))
  look 2

/--
Passes the indentation of a line of content, and empty lines in front of it, which are counted.
-/
def blockIndent (indent : Nat) (emptyLines : Nat) : Lexer Nat :=
  loop emptyLines fun n => do
    blockSpaces indent
    if isBreak (← char) then
      skipBreak
      return (n + 1, true)
    else return (n, false)

/-- The indentation of the first line of content or the widest empty line, and the empty lines. -/
def blockFirstIndent : Lexer (Nat × Nat) :=
  loop (0, 0) fun (widest, n) => do
    look 1
    let _ ← loop () fun _ => do
      if (← char) = ' ' then
        skipBlank
        look 1
        return ((), true)
      else return ((), false)
    let widest := max widest (← mark).column
    if isBreak (← char) then
      skipBreak
      return ((widest, n + 1), true)
    else return ((widest, n), false)

/--
Takes a line of content. What had been looked at counts in characters, the rest of the line in
bytes, so that all later marks are off by what the rest has more bytes than characters.
-/
def blockLine : Lexer (List Char) := do
  let c ← get
  let line := c.rest.takeWhile (!isLineEnd ·)
  if line.length < c.ahead then
    modify (·.skipBlanks line.length)
  else
    let width := c.ahead + byteLength (line.drop c.ahead)
    set { c with
      rest := c.rest.drop line.length
      mark := { c.mark with index := c.mark.index + width, column := c.mark.column + width }
      ahead := 1 }
  return line

/-- The lines of a block scalar so far. -/
structure BlockText where
  text : Array Char := #[]
  /-- The last line was broken. -/
  broken : Bool := false
  /-- Line breaks after that. -/
  emptyLines : Nat := 0
  /-- The last line started with a blank. -/
  indented : Bool := false

/-- The break in front of the next line: folded to a space between two lines of unindented text. -/
def BlockText.joint (b : BlockText) (literal indented : Bool) : List Char :=
  if !literal && b.broken && !b.indented && !indented then
    if b.emptyLines = 0 then [' '] else lineFeeds b.emptyLines
  else lineFeeds ((if b.broken then 1 else 0) + b.emptyLines)

def blockLines (literal : Bool) (indent : Nat) (emptyLines : Nat) : Lexer BlockText :=
  loop { emptyLines } fun b => do
    let c ← get
    if c.mark.column ≠ indent || c.char = endOfText then return (b, false)
    if indent = 0 then look 4
    if indent = 0 && c.isIndicator '.' then return (b, false)
    let indented := isSpace c.char
    let line ← blockLine
    let text := b.text ++ (b.joint literal indented).toArray ++ line.toArray
    if (← char) = endOfText then return (⟨text, false, 0, indented⟩, false)
    skipBreak
    let emptyLines ← blockIndent indent 0
    return (⟨text, true, emptyLines, indented⟩, true)

/-- The end of a block scalar by its chomping. -/
def BlockText.chomped (b : BlockText) (chomping : Chomping) (openEnd : Bool) : List Char :=
  let last := lineFeeds ((if b.broken then 1 else 0) + if openEnd then 1 else 0)
  b.text.toList ++
    match chomping with
    | .strip => []
    | .clip => last
    | .keep => last ++ lineFeeds b.emptyLines

/--
The content of a block scalar behind its indicator, with the mark it is given: that of its first
character, or that of the indicator if nothing follows in the text.
-/
def block (start : Mark) (literal : Bool) (indent : Int) : Lexer (String × Mark) := do
  let (chomping, increment) ← blockHeader start
  let _ ← separation true
  look 1
  if !isLineEnd (← char) then faultAt start
  let broken := isBreak (← char)
  if broken then skipBreak
  look 1
  if (← char) = '\t' then faultAt start
  let (own, emptyLines) ←
    if increment = 0 then do
      let (widest, n) ← blockFirstIndent
      pure (max widest (indent + 1).toNat, n)
    else do
      let own := increment + indent.toNat
      pure (own, ← blockIndent own 0)
  let here ← mark
  if (← char) = endOfText then
    let content : Nat :=
      if chomping = .strip || here.line = start.line then 0
      else if chomping = .keep && 0 < emptyLines then emptyLines
      else if broken then 1 else 0
    return (String.ofList (lineFeeds content), start)
  if here.column < own && indent < here.column then faultAt here
  let b ← blockLines literal own emptyLines
  let c ← get
  let openEnd := c.char = endOfText && max own 1 ≤ c.mark.column
  return (String.ofList (b.chomped chomping openEnd), here)

/-! ## Anchors, tags and directives -/

/-- The name behind the indicator of an anchor or an alias. -/
def anchorName : Lexer String := do
  let start ← mark
  skip 1
  let name ← takeWhile isAnchorChar
  if name = [] then faultAt start
  return String.ofList name

/-- The number of bytes that the first byte of an encoded character announces. -/
def leadingWidth? (byte : Nat) : Option Nat :=
  if byte < 0x80 then some 1
  else if byte < 0xC0 then none
  else if byte < 0xE0 then some 2
  else if byte < 0xF0 then some 3
  else if byte < 0xF8 then some 4
  else none

/-- The byte of an escape in a tag. -/
def escapedByte (start : Mark) : Lexer Nat := do
  let c ← get
  if c.char = '%' && isHexDigit (c.charAt 1) && isHexDigit (c.charAt 2) then
    skip 3
    return digitsValue 16 [c.charAt 1, c.charAt 2]
  else faultAt start

/-- A character in a tag as escaped bytes; the bytes are put side by side, not decoded. -/
def escapedTagChar (start : Mark) : Lexer Char := do
  let byte ← escapedByte start
  match leadingWidth? byte with
  | none => faultAt start
  | some width =>
    let code ← (List.range (width - 1)).foldlM (fun code _ => do
      let next ← escapedByte start
      if next < 0x80 || 0xC0 ≤ next then faultAt start
      return code * 256 + next) byte
    match charOf? code with
    | some c => return c
    | none => faultAt start

/-- Characters of a tag, escaped or not. -/
def tagChars (start : Mark) (p : Char → Bool) : Lexer (List Char) := do
  let text ← loop #[] fun text => do
    let c ← char
    if !p c then return (text, false)
    else if c = '%' then
      let c ← escapedTagChar start
      return (text.push c, true)
    else
      skip 1
      return (text.push c, true)
  return text.toList

/-- An exclamation mark, a name and perhaps another exclamation mark. -/
def tagHandle (start : Mark) (directive : Bool) : Lexer (List Char) := do
  if (← char) ≠ '!' then faultAt start
  skip 1
  let name ← takeWhile isNameChar
  if (← char) = '!' then
    skip 1
    return '!' :: name ++ ['!']
  else
    if directive && name ≠ [] then faultAt start
    return '!' :: name

/-- A tag as its handle and its suffix. -/
def tag (flow : Bool) : Lexer (String × String) := do
  let start ← mark
  let (handle, suffix) ←
    if (← charAt 1) = '<' then do
      skip 2
      let uri ← tagChars start isUriChar
      if (← char) ≠ '>' then faultAt start
      skip 1
      pure ([], uri)
    else do
      let handle ← tagHandle start false
      let suffix ← tagChars start isTagChar
      if 2 ≤ handle.length && handle.getLast? = some '!' then
        if suffix = [] then faultAt start
        pure (handle, suffix)
      else
        match handle.drop 1 ++ suffix with
        | [] => pure ([], ['!'])
        | name => pure (['!'], name)
  let c ← char
  if !isGap c && !(flow && isFlowIndicator c) then faultAt start
  return (String.ofList handle, String.ofList suffix)

/-- What a directive says that matters later. -/
inductive Directive where
  | version
  /-- A handle for tags; a directive of unknown name is one of the empty handle. -/
  | tag (handle : String)
  deriving DecidableEq, Repr

/-- One of the two numbers of a version: at most nine digits. -/
def versionNumber (start : Mark) : Lexer Unit := do
  let digits ← takeWhile isAsciiDigit
  if digits = [] || 9 < digits.length then faultAt start

/-- The prefix that a directive gives to a handle. -/
def tagPrefix (start : Mark) : Lexer Unit := do
  let c ← char
  if c = '!' then skip 1
  else if !isTagChar c then faultAt start
  let _ ← tagChars start isUriChar

def directiveBody (start : Mark) (name : List Char) : Lexer Directive := do
  match String.ofList name with
  | "YAML" =>
    modify fun c => c.skipBlanks (c.rest.takeWhile isSpace).length
    versionNumber start
    if (← char) ≠ '.' then faultAt start
    skip 1
    versionNumber start
    return .version
  | "TAG" =>
    modify fun c => c.skipBlanks (c.rest.takeWhile isSpace).length
    let handle ← tagHandle start true
    modify fun c => c.skipBlanks (c.rest.takeWhile isSpace).length
    tagPrefix start
    if !isGap (← char) then faultAt start
    return .tag (String.ofList handle)
  | _ =>
    modify (·.skipWhile (!isLineEnd ·))
    return .tag ""

/-- A directive with the end of its line. -/
def directive : Lexer Directive := do
  let start ← mark
  skip 1
  let nameStart ← mark
  let name ← takeWhile isNameChar
  if name = [] || !isGap (← char) then faultAt nameStart
  let d ← directiveBody start name
  let _ ← separation true
  if !isLineEnd (← char) then faultAt start
  skipBreak
  return d

end MessageCatalog.Yaml.Lexer
