/-
Composing source maps. A segment of the structural map whose name is a literal anchors the map of
that literal's code: the positions of the fragment count from the segment, on the generated side and
on the side of the source. With an inbound map, origins are looked up in it, and what it does not
know is left out.
-/
import MessageCatalog.Error
import MessageCatalog.SourceMap.Builder
import MessageCatalog.SourceMap.Decode

namespace MessageCatalog

/-! ## Literals and their maps -/

/-- The maps of compiled literals; a literal that is set again keeps its place. -/
abbrev CodeMaps := List (String × SourceMap)

def CodeMaps.set (literal : String) (map : SourceMap) : CodeMaps → CodeMaps
  | [] => [(literal, map)]
  | (l, m) :: rest =>
    if l = literal then (l, map) :: rest else (l, m) :: CodeMaps.set literal map rest

/-! ## Composition -/

/-- What the merge reads: the structural map, and the inbound map with its segments. -/
structure MergeContext where
  structural : SourceMap
  inbound : Option (SourceMap × List Segment)

/-- A position on from an anchor: on the anchor's line columns add up, below it they start anew. -/
def anchored (anchor position : Nat × Nat) : Nat × Nat :=
  (anchor.1 + position.1, if position.1 = 0 then anchor.2 + position.2 else position.2)

/-- Where an origin leads: to what the inbound map knows of it, if there is one. -/
def MergeContext.route (cx : MergeContext) (source : Nat) (origin : Nat × Nat) :
    Option (SourceMap × Origin) :=
  match cx.inbound with
  | some (map, segments) => (originAt segments origin.1 origin.2).map fun o => (map, o)
  | none => some (cx.structural, ⟨source, origin.1, origin.2, none⟩)

/-- Records a segment from a source of a map, along with the content that the map has of it. -/
def SourceMapBuilder.addFrom (b : SourceMapBuilder) (map : SourceMap) (generated : Nat × Nat)
    (origin : Origin) (name : Option String) : SourceMapBuilder :=
  match map.source? origin.source with
  | none => b
  | some source =>
    let (id, b) := b.addSource source
    let b :=
      match map.content? origin.source with
      | some content => b.setContent id content
      | none => b
    b.addMapping generated.1 generated.2 id origin.line origin.column name

/-- Records one composed segment where its origin leads. -/
def MergeContext.add (cx : MergeContext) (b : SourceMapBuilder) (source : Nat)
    (generated origin : Nat × Nat) (name : Option String) : SourceMapBuilder :=
  match cx.route source origin with
  | none => b
  | some (map, origin) => b.addFrom map generated origin name

/-- Records the segments of a fragment that is anchored at a structural segment. -/
def MergeContext.addFragment (cx : MergeContext) (b : SourceMapBuilder) (anchor : Segment)
    (origin : Origin) (fragment : List Segment) : SourceMapBuilder :=
  fragment.foldl (fun b f =>
    match f.origin with
    | none => b
    | some fo =>
      -- the anchor itself covers the start of the fragment
      if f.line = 0 ∧ f.column = 0 then b
      else cx.add b origin.source (anchored (anchor.line, anchor.column) (f.line, f.column))
        (anchored (origin.line, origin.column) (fo.line, fo.column)) none) b

/-- Records a structural segment and the fragment of the literal it is named after. -/
def MergeContext.addSegment (cx : MergeContext) (fragments : List (String × List Segment))
    (b : SourceMapBuilder) (s : Segment) : SourceMapBuilder :=
  match s.origin with
  | none => b
  | some o =>
    let name := o.name.bind cx.structural.name?
    let b := cx.add b o.source (s.line, s.column) (o.line, o.column) name
    match name.bind fun n => fragments.lookup n with
    | none => b
    | some fragment => cx.addFragment b s o fragment

/-- The composed map; every map that takes part must decode. -/
def mergeSourceMaps (structural : SourceMap) (codeMaps : CodeMaps) (inbound : Option SourceMap)
    (filename : String) : Except CompileError SourceMap := do
  let decode (map : SourceMap) : Except CompileError (List Segment) :=
    map.decode.mapError fun e => .sourceMap filename e.message
  let segments ← decode structural
  let inbound ←
    match inbound with
    | some map => do
      let inboundSegments ← decode map
      pure (some (map, inboundSegments))
    | none => pure none
  let fragments ← codeMaps.mapM fun (literal, map) => do
    let decoded ← decode map
    return (literal, decoded)
  let cx : MergeContext := ⟨structural, inbound⟩
  return (segments.foldl (cx.addSegment fragments) (.new structural.file)).build

end MessageCatalog
