/-
What a caller decides about the generated module.
-/
import MessageCatalog.SourceMap.Basic

namespace MessageCatalog

inductive ResourceKind where
  /-- A resource file, exported as a bare object. -/
  | plain
  /-- A block of a component file, registered on the component. -/
  | component
  deriving DecidableEq, Repr, Inhabited

inductive Environment where
  | development
  | production
  deriving DecidableEq, Repr, Inhabited

structure Options where
  kind : ResourceKind := .plain
  locale : String := ""
  isGlobal : Bool := false
  onlyLocales : List String := []
  forceStringify : Bool := false
  strictMessage : Bool := true
  escapeHtml : Bool := false
  exportEsm : Bool := false
  /-- Messages are left to be parsed at run time. -/
  jit : Bool := false
  bridge : Bool := false
  legacy : Bool := false
  useClassComponent : Bool := false
  sourceMap : Bool := false
  inSourceMap : Option SourceMap := none
  environment : Environment := .development
  /-- Modules with content that is not static are passed through. -/
  allowDynamic : Bool := false
  /-- Rejected messages are kept as raw strings, with a warning. -/
  lenient : Bool := false
  deriving DecidableEq, Repr, Inhabited

namespace Options

def isComponent (options : Options) : Bool := options.kind = .component

/-- How the generated module exports: a module export unless a bridge wants the older form. -/
def exportPrefix (options : Options) : String :=
  if options.bridge && !options.exportEsm then "module.exports =" else "export default"

end Options

/-- How a message stands in the generated module. -/
inductive EmissionStrategy where
  /-- As a function. -/
  | aheadOfTime
  /-- As a string that is parsed on first use. -/
  | deferred
  deriving DecidableEq, Repr

def Options.strategy (options : Options) : EmissionStrategy :=
  if options.jit then .deferred else .aheadOfTime

end MessageCatalog
