/-
Writing a document as a module. Functions keep their code, so that a module that is read, pruned and
written again still has them.
-/
import MessageCatalog.Code.Writer
import MessageCatalog.Resource.Node

namespace MessageCatalog.Script

open MessageCatalog.Code

mutual

def writeNode (w : Writer) : Node → Writer
  | .mapping [] _ => w.push "\x7b\x7d"
  | .mapping (pair :: rest) _ =>
    ((writePairs ((w.push "\x7b").indent) (pair :: rest)).deindent).push "\x7d"
  | .sequence [] _ => w.push "[]"
  | .sequence (item :: rest) _ =>
    ((writeItems ((w.push "[").indent) (item :: rest)).deindent).push "]"
  | .scalar s => w.push s.value.literal
  | .verbatim v => w.push v.code

/-- The pairs on lines of their own. -/
def writePairs (w : Writer) : List (Key × Node) → Writer
  | [] => w
  | (key, value) :: rest =>
    let w := writeNode ((w.push (Json.quoted key.text)).push ": ") value
    writePairs (if rest.isEmpty then w else w.pushLine ",") rest

/-- The items on lines of their own. -/
def writeItems (w : Writer) : List Node → Writer
  | [] => w
  | item :: rest =>
    let w := writeNode w item
    writeItems (if rest.isEmpty then w else w.pushLine ",") rest

end

/-- The module whose default export is the document. -/
def writeModule (document : Document) : String :=
  let w := (Writer.new "" document.filename false).push "export default "
  ((writeNode w document.root).push "\n").finish.1

end MessageCatalog.Script
