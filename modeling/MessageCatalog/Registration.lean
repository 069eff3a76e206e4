/-
Registrations that carry the whole resource as JSON text in a single-quoted string of a script: the
older form of the generated module, and the payload of a bridge.
-/
import MessageCatalog.Options.Basic
import MessageCatalog.Resource.Node

namespace MessageCatalog.Registration

/-! ## Quoting -/

/-- What a character of a JSON text is written as between single quotes. -/
def quoteChar (c : Char) : List Char :=
  match c with
  | '\u2028' => "\\\\u2028".toList
  | '\u2029' => "\\\\u2029".toList
  | '\\' => ['\\', '\\']
  | '\'' => "\\u0027".toList
  | c => [c]

/-- The body of a single-quoted string that evaluates to a JSON text of the same value. -/
def quote (json : String) : String := String.ofList (json.toList.flatMap quoteChar)

/-! ## Payloads -/

/-- The resource as compact JSON in the order of its source. -/
def resourceJson (document : Document) : String := document.materialize.compact

/-- The resource, under its locale when there is one. -/
def payload (document : Document) (options : Options) : String :=
  if options.locale = "" then resourceJson document
  else (Json.object [(options.locale, document.materialize)]).compact

/-- The older form of a component registration. -/
def emit (document : Document) (options : Options) : String :=
  options.exportPrefix ++ " function (Component) \x7b\n" ++
    "  Component.options.__i18n = Component.options.__i18n || []\n" ++
    "  Component.options.__i18n.push('" ++ quote (payload document options) ++ "')\n\x7d"

end MessageCatalog.Registration
