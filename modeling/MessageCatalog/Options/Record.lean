/-
Options and source maps as JSON records. A record is an object, whose unknown keys are ignored, or
an array of the fields in their order; a missing field has its default, and a field of another type
makes the record unreadable.
-/
import MessageCatalog.Json.Value
import MessageCatalog.Options.Basic

namespace MessageCatalog

/-! ## Fields -/

/-- The fields of a record by name. -/
def Json.fields? (names : List String) : Json → Option (String → Option Json)
  | .object members => some fun name => (members.find? (·.1 = name)).map (·.2)
  | .array items =>
    if items.length ≤ names.length then some fun name => (names.zip items).lookup name else none
  | _ => none

def Json.bool? : Json → Option Bool
  | .bool b => some b
  | _ => none

def Json.string? : Json → Option String
  | .string s => some s
  | _ => none

def Json.list? {α : Type} (item : Json → Option α) : Json → Option (List α)
  | .array items => items.mapM item
  | _ => none

/-- `null` is the absent value. -/
def Json.nullable? {α : Type} (item : Json → Option α) : Json → Option (Option α)
  | .null => some none
  | value => (item value).map some

/-- A word of an enumeration, also in the form of an object with the word as its one key. -/
def Json.word? {α : Type} (words : List (String × α)) : Json → Option α
  | .string s => words.lookup s
  | .object [(s, .null)] => words.lookup s
  | _ => none

def Json.byte? : Json → Option Nat
  | .number (.whole n) => if 0 ≤ n ∧ n < 256 then some n.toNat else none
  | _ => none

/-- A field that may be missing. -/
def fieldOr {α : Type} (fields : String → Option Json) (name : String) (default : α)
    (read : Json → Option α) : Option α :=
  match fields name with
  | none => some default
  | some value => read value

/-! ## Records -/

def SourceMap.ofJson? (value : Json) : Option SourceMap := do
  let fields ← value.fields? ["version", "file", "sources", "sourcesContent", "names", "mappings"]
  let version ← (← fields "version").byte?
  let file ← fieldOr fields "file" none (Json.nullable? Json.string?)
  let sources ← fieldOr fields "sources" [] (Json.list? Json.string?)
  let contents ← fieldOr fields "sourcesContent" none
    (Json.nullable? (Json.list? (Json.nullable? Json.string?)))
  let names ← fieldOr fields "names" [] (Json.list? Json.string?)
  let mappings ← fieldOr fields "mappings" "" Json.string?
  return ⟨version, file, sources, contents, names, mappings⟩

/-- Absent parts are left out. -/
def SourceMap.toJson (map : SourceMap) : Json :=
  let file := map.file.toList.map fun f => ("file", Json.string f)
  let contents := map.sourcesContent.toList.map fun cs =>
    ("sourcesContent", Json.array (cs.map fun c => (c.map Json.string).getD .null))
  .object ([("version", .number (.whole map.version))] ++ file ++
    [("sources", .array (map.sources.map .string))] ++ contents ++
    [("names", .array (map.names.map .string)), ("mappings", .string map.mappings)])

def kindWords : List (String × ResourceKind) := [("plain", .plain), ("sfc", .component)]

def environmentWords : List (String × Environment) :=
  [("development", .development), ("production", .production)]

namespace Options

def fieldNames : List String :=
  ["type", "locale", "isGlobal", "onlyLocales", "forceStringify", "strictMessage", "escapeHtml",
    "exportESM", "jit", "bridge", "legacy", "useClassComponent", "sourceMap", "inSourceMap", "env",
    "allowDynamic", "lenient"]

def ofJson? (value : Json) : Option Options := do
  let d : Options := {}
  let fields ← value.fields? fieldNames
  let flag (name : String) (default : Bool) := fieldOr fields name default Json.bool?
  return {
    kind := ← fieldOr fields "type" d.kind (Json.word? kindWords)
    locale := ← fieldOr fields "locale" d.locale Json.string?
    isGlobal := ← flag "isGlobal" d.isGlobal
    onlyLocales := ← fieldOr fields "onlyLocales" d.onlyLocales (Json.list? Json.string?)
    forceStringify := ← flag "forceStringify" d.forceStringify
    strictMessage := ← flag "strictMessage" d.strictMessage
    escapeHtml := ← flag "escapeHtml" d.escapeHtml
    exportEsm := ← flag "exportESM" d.exportEsm
    jit := ← flag "jit" d.jit
    bridge := ← flag "bridge" d.bridge
    legacy := ← flag "legacy" d.legacy
    useClassComponent := ← flag "useClassComponent" d.useClassComponent
    sourceMap := ← flag "sourceMap" d.sourceMap
    inSourceMap := ← fieldOr fields "inSourceMap" d.inSourceMap (Json.nullable? SourceMap.ofJson?)
    environment := ← fieldOr fields "env" d.environment (Json.word? environmentWords)
    allowDynamic := ← flag "allowDynamic" d.allowDynamic
    lenient := ← flag "lenient" d.lenient }

def toJson (options : Options) : Json :=
  let kind := match options.kind with
    | .plain => "plain"
    | .component => "sfc"
  let environment := match options.environment with
    | .development => "development"
    | .production => "production"
  .object [
    ("type", .string kind),
    ("locale", .string options.locale),
    ("isGlobal", .bool options.isGlobal),
    ("onlyLocales", .array (options.onlyLocales.map .string)),
    ("forceStringify", .bool options.forceStringify),
    ("strictMessage", .bool options.strictMessage),
    ("escapeHtml", .bool options.escapeHtml),
    ("exportESM", .bool options.exportEsm),
    ("jit", .bool options.jit),
    ("bridge", .bool options.bridge),
    ("legacy", .bool options.legacy),
    ("useClassComponent", .bool options.useClassComponent),
    ("sourceMap", .bool options.sourceMap),
    ("inSourceMap", (options.inSourceMap.map SourceMap.toJson).getD .null),
    ("env", .string environment),
    ("allowDynamic", .bool options.allowDynamic),
    ("lenient", .bool options.lenient)]

end Options

end MessageCatalog
