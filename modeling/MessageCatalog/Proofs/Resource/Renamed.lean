/-
Reading a text under another file name. The name has no part in the tree: it stands in the document, and
in the error where there is none. For a module this takes that both names are of typed scripts, or
neither is.
-/
import MessageCatalog.Format
import MessageCatalog.Proofs.Error

namespace MessageCatalog

open MessageCatalog.Text

/-- The same error about another file. -/
def CompileError.rename (name : String) : CompileError → CompileError
  | .malformed _ text span => .malformed name text span
  | .message _ text context => .message name text context
  | .unsupportedShape _ text span => .unsupportedShape name text span
  | .unreadable _ path reason => .unreadable name path reason
  | .unwritable _ text => .unwritable name text
  | .sourceMap _ text => .sourceMap name text

@[simp] theorem CompileError.code_rename (name : String) (e : CompileError) :
    (e.rename name).code = e.code := by
  cases e <;> rfl

/-- The same resource in another file. -/
def Document.rename (name : String) (document : Document) : Document :=
  { document with filename := name }

/-- The same answer about another file. -/
def renamed (name : String) (read : Except CompileError Document) : Except CompileError Document :=
  (read.mapError (·.rename name)).map (·.rename name)

@[simp] theorem renamed_ok (name : String) (document : Document) :
    renamed name (.ok document) = .ok (document.rename name) := rfl

@[simp] theorem renamed_error (name : String) (e : CompileError) :
    renamed name (.error e) = .error (e.rename name) := rfl

/-! ## Script texts -/

namespace Script

/-- The same lowering for another file. -/
abbrev Lowering.rename (name : String) (l : Lowering) : Lowering := { l with filename := name }

variable (name : String) (l : Lowering)

theorem refused_rename (message : String) (x : Extent) :
    (l.rename name).refused message x = (l.refused message x).rename name := by
  cases h : l.dialect <;> simp [Lowering.refused, CompileError.rename, h, Lowering.span]

theorem number?_rename : ∀ e : Expr l.source, (l.rename name).number? e = l.number? e
  | .parenthesized inner x => by
    rw [Lowering.number?, Lowering.number?, number?_rename inner]
  | .number _ _ => rfl
  | .identifier _ _ => by
    unfold Lowering.number?
    split
    case h_4 h => cases h
    all_goals rfl
  | .object _ _ | .array _ _ | .ascribed _ _ | .string _ | .bool _ _ | .null _
  | .template _ _ | .signed _ _ _ | .member _ | .assignment _ _ | .logical _ | .function _
  | .other _ => rfl

theorem leaf_rename (e : Expr l.source) :
    (l.rename name).leaf e = (l.leaf e).mapError (·.rename name) := by
  unfold Lowering.leaf
  split
  · rfl
  · rfl
  · rfl
  all_goals
    simp only [number?_rename, refused_rename]
    split <;> rfl

mutual

theorem node_rename : ∀ e : Expr l.source,
    (l.rename name).node e = (l.node e).mapError (·.rename name)
  | .object properties x => by
    rw [Lowering.node, Lowering.node, pairs_rename properties, mapError_bind]
    rfl
  | .array elements x => by
    rw [Lowering.node, Lowering.node, items_rename elements, mapError_bind]
    rfl
  | .parenthesized inner x | .ascribed inner x => by
    rw [Lowering.node, Lowering.node, node_rename inner, refused_rename]
    cases h : l.dialect <;> rfl
  | .string _ | .number _ _ | .bool _ _ | .null _ | .identifier _ _ | .template _ _
  | .signed _ _ _ | .member _ | .assignment _ _ | .logical _ | .function _ | .other _ =>
    leaf_rename name l _

theorem pairs_rename : ∀ properties : List (Property l.source),
    (l.rename name).pairs properties = (l.pairs properties).mapError (·.rename name)
  | [] => rfl
  | .spread _ _ :: _ | .shorthand _ :: _ | .computed _ _ :: _ | .method _ _ :: _ =>
    congrArg Except.error (refused_rename name l _ _)
  | .pair key keyExtent value x :: rest => by
    rw [Lowering.pairs, Lowering.pairs]
    show (match l.keyText? key with | none => _ | some text => _) = _
    cases l.keyText? key with
    | none => exact congrArg Except.error (refused_rename name l _ _)
    | some text =>
      simp only [node_rename value, pairs_rename rest, mapError_bind]
      rfl

theorem items_rename : ∀ (elements : List (Element l.source)) {x : Extent},
    (l.rename name).items x elements = (l.items x elements).mapError (·.rename name)
  | [], x => rfl
  | .item e :: rest, x => by
    rw [Lowering.items, Lowering.items]
    simp only [node_rename e, items_rename rest, mapError_bind]
    rfl
  | .hole :: _, x | .spread _ _ :: _, x => congrArg Except.error (refused_rename name l _ _)

end

theorem new_rename (source filename : String) (dialect : Dialect) :
    Lowering.new source name dialect = (Lowering.new source filename dialect).rename name := rfl

theorem readData_rename (source filename : String) :
    readData source name = renamed name (readData source filename) := by
  unfold readData
  rw [new_rename name source filename]
  generalize Lowering.new source filename .data = l
  dsimp only [Lowering.rename]
  cases readExpression l.source with
  | error offset => rfl
  | ok e =>
    dsimp only
    cases onlyTrivia ((cut? e.extent.stop l.source).getD ([], [])).2 with
    | false => rfl
    | true =>
      have hnode := node_rename name l e
      dsimp only [Lowering.rename] at hnode
      simp only [hnode, Bool.not_true, Bool.false_eq_true, if_false]
      cases l.node e <;> rfl

theorem readResourceModule_rename (source : String) {filename : String}
    (htyped : isTypedName name = isTypedName filename) :
    (readResourceModule source name).1 = renamed name (readResourceModule source filename).1 := by
  unfold readResourceModule
  rw [htyped, new_rename name source filename]
  generalize Lowering.new source filename .module = l
  dsimp only [Lowering.rename]
  cases readModule (isTypedName filename) l.source with
  | error offset => rfl
  | ok contents =>
    dsimp only
    cases defaultExport contents.statements.toList with
    | none => rfl
    | some exported =>
      obtain ⟨value, x⟩ := exported
      cases value with
      | none => exact congrArg Except.error (refused_rename name l _ _)
      | some e =>
        dsimp only
        split
        · have hnode := node_rename name l e
          dsimp only [Lowering.rename] at hnode
          rw [hnode]
          cases l.node e <;> rfl
        · exact congrArg Except.error (refused_rename name l _ _)

end Script

/-! ## YAML texts -/

theorem Yaml.readResource_rename (name source filename : String) :
    readResource source name = renamed name (readResource source filename) := by
  unfold readResource
  simp only
  split
  · rfl
  · split <;> rfl

/-! ## Resources -/

/-- A text is read under another name as it is read under its own. -/
theorem ResourceFormat.read_rename (format : ResourceFormat) (source : String) {name filename : String}
    (htyped : format = .plainModule → Script.isTypedName name = Script.isTypedName filename) :
    (format.read source name).1 = renamed name (format.read source filename).1 := by
  cases format with
  | json => exact Script.readData_rename name source filename
  | yaml => exact Yaml.readResource_rename name source filename
  | plainModule => exact Script.readResourceModule_rename name source (htyped rfl)

end MessageCatalog
