/-
Keeping only the requested locales of a component block. The filtered resource is written out in its
own notation, to be read again; modules are pruned as trees, because functions have no data form.
-/
import MessageCatalog.Format
import MessageCatalog.Options.Basic

namespace MessageCatalog.LocaleFilter

/-- Keeps the members of an object whose keys are listed; an empty list keeps all. -/
def filterValue (locales : List String) (value : Json) : Json :=
  if locales.isEmpty then value
  else
    match value with
    | .object members => .object (members.filter fun m => locales.contains m.1)
    | other => other

/-- Keeps the top-level pairs whose keys are listed. -/
def retain (locales : List String) (document : Document) : Document :=
  match document.root with
  | .mapping pairs span =>
    { document with
      root := .mapping (pairs.filter fun p => locales.contains p.1.text) span }
  | _ => document

/-- A block with a locale of its own holds messages at its top level and is never filtered. -/
def applies (options : Options) : Bool :=
  options.isComponent && !options.onlyLocales.isEmpty && options.locale = ""

/-- The text of the filtered resource; `none` if nothing is to be filtered. -/
def filteredText (document : Document) (format : ResourceFormat) (options : Options) :
    Option String :=
  if applies options then
    match format with
    | .plainModule => some (Script.writeModule (retain options.onlyLocales document))
    | _ => some (format.write (filterValue options.onlyLocales document.materialize))
  else none

end MessageCatalog.LocaleFilter
