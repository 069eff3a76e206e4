/-
The notations of resources. Which one a resource is in follows from its file name or from the
language it states, never from its content.
-/
import MessageCatalog.Json.Write
import MessageCatalog.Script.ModuleWriter
import MessageCatalog.Script.Resource
import MessageCatalog.Yaml.Resource
import MessageCatalog.Yaml.Write

namespace MessageCatalog

inductive ResourceFormat where
  | json
  | yaml
  | plainModule
  deriving DecidableEq, Repr, Inhabited

namespace ResourceFormat

/-! ## Choosing a format -/

def lowerAscii (s : String) : String :=
  String.ofList (s.toList.map fun c => if 'A' ≤ c && c ≤ 'Z' then Char.ofNat (c.toNat + 32) else c)

/-- The format of a language or a file name extension, in any case of ASCII letters. -/
def ofLang? (lang : String) : Option ResourceFormat :=
  let lang := lowerAscii lang
  if ["json", "json5"].contains lang then some .json
  else if ["yaml", "yml"].contains lang then some .yaml
  else if ["js", "mjs", "cjs", "ts", "mts", "cts"].contains lang then some .plainModule
  else none

/-- The format of what follows the last dot of a file name. -/
def ofFilename? (filename : String) : Option ResourceFormat :=
  let cs := filename.toList
  if cs.contains '.' then
    ofLang? (String.ofList (cs.reverse.takeWhile (· ≠ '.')).reverse)
  else none

/-! ## Reading and writing -/

/-- The document of a source text, and the warnings about it. -/
def read (format : ResourceFormat) (source filename : String) :
    Except CompileError Document × List String :=
  match format with
  | .json => (Script.readData source filename, [])
  | .yaml => (Yaml.readResource source filename, [])
  | .plainModule => Script.readResourceModule source filename

/-- A value in the format. -/
def write (format : ResourceFormat) (value : Json) : String :=
  match format with
  | .json => value.pretty 0
  | .yaml => Yaml.write value
  | .plainModule => "export default " ++ value.pretty 0 ++ "\n"

end ResourceFormat

end MessageCatalog
