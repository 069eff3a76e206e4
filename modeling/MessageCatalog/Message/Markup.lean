/-
Markup in messages: finding what looks like a tag, and escaping the characters that make one.
-/
import MessageCatalog.Text.CharClass
import MessageCatalog.Text.Measure

namespace MessageCatalog.Message

open MessageCatalog.Text

/-! ## Escaping -/

def escapeMarkupChar (c : Char) : List Char :=
  match c with
  | '<' => "&lt;".toList
  | '>' => "&gt;".toList
  | '"' => "&quot;".toList
  | '\'' => "&apos;".toList
  | c => [c]

/-- Replaces the characters that make a message render as markup. -/
def escapeMarkup (cs : List Char) : List Char := cs.flatMap escapeMarkupChar

/-! ## Detection -/

/-- What may stand between the angle brackets of a tag. -/
def isTagChar (c : Char) : Bool :=
  isWord c || isBlank c || ['=', '"', '/', '.', '\'', ':', ';', '#', '-'].contains c

/-- Whether the text behind `<` continues as a tag: at least one tag character, then `>`. -/
def isTagBody (cs : List Char) : Bool :=
  cs.takeWhile isTagChar ≠ [] && (cs.dropWhile isTagChar).head? = some '>'

/-- The byte offset of the first tag, the text starting at byte `pos`. -/
def findTag (pos : Nat) : List Char → Option Nat
  | [] => none
  | c :: cs => if c = '<' ∧ isTagBody cs then some pos else findTag (pos + c.utf8Size) cs

def containsMarkup (cs : List Char) : Bool := (findTag 0 cs).isSome

end MessageCatalog.Message
