/-
What can go wrong in a compile, the notices that do not stop it, and the channel both go to. An
error knows its code, where it is, and its text.
-/
import MessageCatalog.Text.Position

namespace MessageCatalog

open MessageCatalog.Text

/-! ## Errors -/

/-- What is known about a rejected message. -/
structure MessageContext where
  literal : String
  path : String
  code : String
  span : Option Span
  deriving DecidableEq, Repr, Inhabited

inductive CompileError where
  /-- The source text breaks the rules of its notation. -/
  | malformed (filename message : String) (span : Option Span)
  /-- A message was rejected by the message compiler. -/
  | message (filename message : String) (context : MessageContext)
  /-- The source is well-formed but holds what is no static resource. -/
  | unsupportedShape (filename message : String) (span : Option Span)
  | unreadable (filename path reason : String)
  | unwritable (filename message : String)
  | sourceMap (filename message : String)
  deriving DecidableEq, Repr, Inhabited

/-- The line and column of a span, from 1; `0:0` without one. -/
def locationText : Option Span → String
  | some span => toString span.start.line ++ ":" ++ toString (span.start.column + 1)
  | none => "0:0"

namespace CompileError

def code : CompileError → String
  | .malformed .. => "E-PARSE"
  | .message _ _ context => context.code
  | .unsupportedShape .. => "E-UNSUPPORTED-SHAPE"
  | .unreadable .. => "E-IO"
  | .unwritable .. => "E-SERIALIZE"
  | .sourceMap .. => "E-SOURCE-MAP"

def filename : CompileError → String
  | .malformed f _ _ | .message f _ _ | .unsupportedShape f _ _ | .unreadable f _ _
  | .unwritable f _ | .sourceMap f _ => f

def span : CompileError → Option Span
  | .malformed _ _ span | .unsupportedShape _ _ span => span
  | .message _ _ context => context.span
  | _ => none

/-- The error on one line: file, place, text. -/
def text : CompileError → String
  | .malformed f m span | .unsupportedShape f m span => f ++ ":" ++ locationText span ++ ": " ++ m
  | .message f m context =>
    f ++ ":" ++ locationText context.span ++ " (at `" ++ context.path ++ "`): " ++ m
  | .unreadable f path reason => f ++ ": failed to read `" ++ path ++ "`: " ++ reason
  | .unwritable f m => f ++ ": failed to re-serialize filtered resource: " ++ m
  | .sourceMap f m => f ++ ": invalid source map: " ++ m

end CompileError

/-! ## Diagnostics -/

/-- One thing said on the diagnostics channel. -/
inductive Notice where
  | warning (text : String)
  | rejected (path text : String)
  deriving DecidableEq, Repr, Inhabited

/--
A channel: what it says at a warning and at a rejected message, and the error that a rejected
message becomes. What was said is kept in order by whoever calls it.
-/
structure Diagnostics where
  warn : String → List Notice
  reject : (filename message : String) → MessageContext → List Notice × CompileError

namespace Diagnostics

/-- Tells nothing. -/
def silent : Diagnostics where
  warn _ := []
  reject filename message context := ([], .message filename message context)

/-- Tells the warnings and is silent about rejected messages. -/
def warnings : Diagnostics where
  warn text := [.warning text]
  reject filename message context := ([], .message filename message context)

/-- Tells warnings and rejected messages. -/
def full : Diagnostics where
  warn text := [.warning text]
  reject filename message context :=
    ([.rejected context.path message], .message filename message context)

end Diagnostics

end MessageCatalog
