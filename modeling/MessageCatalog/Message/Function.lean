/-
The function that a message compiles to. Its text is a list of pieces, some of them anchored at the
byte of the message they come from; the columns of the anchors make the map of the function.
-/
import MessageCatalog.Json.Write
import MessageCatalog.Message.Basic
import MessageCatalog.Options.Basic
import MessageCatalog.SourceMap.Builder
import MessageCatalog.Text.Position

namespace MessageCatalog.Message

open MessageCatalog.Text

/-! ## Helpers -/

/-- The runtime helpers that a function refers to, besides the one that joins a case. -/
structure Helpers where
  interpolate : Bool
  named : Bool
  list : Bool
  linked : Bool
  plural : Bool
  deriving DecidableEq, Repr

def Part.isNamed : Part → Bool
  | .named _ => true
  | _ => false

def Part.isList : Part → Bool
  | .list _ => true
  | _ => false

def Part.isLinked : Part → Bool
  | .linked .. => true
  | _ => false

/-- The helpers that the cases need. -/
def Helpers.ofCases (cases : List Case) : Helpers :=
  let parts := cases.flatten.map (·.part)
  { interpolate := parts.any fun p => p.isNamed || p.isList
    named := parts.any Part.isNamed
    list := parts.any Part.isList
    linked := parts.any Part.isLinked
    plural := 1 < cases.length }

/-- The statement that binds the helpers. -/
def Helpers.binding (h : Helpers) : String :=
  let names := ["normalize: _normalize"] ++
    (if h.interpolate then ["interpolate: _interpolate"] else []) ++
    (if h.named then ["named: _named"] else []) ++
    (if h.list then ["list: _list"] else []) ++
    (if h.linked then ["linked: _linked", "type: _type"] else []) ++
    (if h.plural then ["plural: _plural"] else [])
  "const \x7b " ++ ", ".intercalate names ++ " \x7d = ctx;"

/-! ## Pieces -/

/--
A stretch of generated text, with the byte of the message that its first character stands for.
-/
structure Piece where
  code : String
  anchor : Option Nat
  deriving DecidableEq, Repr

def Piece.plain (code : String) : Piece := ⟨code, none⟩

def quotedChars (cs : List Char) : String := Json.quoted (String.ofList cs)

def Part.code : Part → String
  | .text s | .literal s => quotedChars s
  | .named name => "_interpolate(_named(" ++ quotedChars name ++ "))"
  | .list index => "_interpolate(_list(" ++ toString index ++ "))"
  | .linked key modifier =>
    "_linked(" ++ quotedChars key ++ ", " ++ (modifier.map quotedChars).getD "undefined" ++
      ", _type)"

def Item.piece (item : Item) : Piece := ⟨item.part.code, some item.offset⟩

def casePieces (items : Case) : List Piece :=
  .plain "_normalize([" :: (items.map Item.piece).intersperse (.plain ", ") ++ [.plain "])"]

def bodyPieces : List Case → List Piece
  | [] => []
  | [only] => casePieces only
  | cases =>
    .plain "_plural([" ::
      ((cases.map casePieces).intersperse [.plain ", "]).flatten ++ [.plain "])"]

/-- The function of the cases; in development it carries the message it comes from. -/
def functionPieces (cases : List Case) (source : List Char) (environment : Environment) :
    List Piece :=
  let function := ⟨"(ctx) => \x7b", some 0⟩ :: .plain (Helpers.ofCases cases).binding ::
    .plain "return " :: bodyPieces cases ++ [.plain "\x7d"]
  match environment with
  | .production => function
  | .development =>
    .plain "(()=>\x7bconst fn=" :: function ++
      [.plain ";fn.source=", .plain (quotedChars source), .plain ";return fn;\x7d)()"]

def piecesCode (pieces : List Piece) : String := String.join (pieces.map (·.code))

/-- The anchors of the pieces as columns and bytes, the first piece starting at `column`. -/
def anchorsFrom (column : Nat) : List Piece → List (Nat × Nat)
  | [] => []
  | piece :: rest =>
    let others := anchorsFrom (column + units piece.code.toList) rest
    match piece.anchor with
    | some offset => (column, offset) :: others
    | none => others

/-! ## The map -/

/-- Maps the columns of the anchors to lines and columns of the message. -/
def functionMap (anchors : List (Nat × Nat)) (source : List Char) (path : List String) :
    SourceMap :=
  let index := LineIndex.ofText source
  let (id, b) := (SourceMapBuilder.new none).addSource (".".intercalate path)
  let b := anchors.foldl (fun b (column, offset) =>
    let p := index.position offset
    b.addMapping 0 column id (p.line - 1) p.column none) b
  b.build

end MessageCatalog.Message
