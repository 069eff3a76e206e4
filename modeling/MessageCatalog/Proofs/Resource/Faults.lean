/-
What a resource is refused with before it is compiled: it is malformed, or it has an unsupported shape.
A script text is refused at once if its bytes cannot be counted in a word.
-/
import MessageCatalog.Format
import MessageCatalog.Proofs.Error
import MessageCatalog.Proofs.Script.Leaf

namespace MessageCatalog

open MessageCatalog.Text

/-- An error about the text of a resource. -/
inductive CompileError.OfReading : CompileError → Prop where
  | malformed (filename message : String) (span : Option Span) :
    OfReading (.malformed filename message span)
  | unsupportedShape (filename message : String) (span : Option Span) :
    OfReading (.unsupportedShape filename message span)

theorem CompileError.OfReading.code_ne {e : CompileError} (h : e.OfReading) :
    e.code ≠ "E-SOURCE-MAP" := by
  cases h <;> simp [CompileError.code]

/-- Whether an error says that a text is well-formed but holds what is no static resource. -/
def CompileError.isShape : CompileError → Bool
  | .unsupportedShape .. => true
  | _ => false

/-! ## Script texts -/

namespace Script

variable {l : Lowering} {error : CompileError}

/-- What a lowering refuses a value with. -/
def Lowering.Refuses (l : Lowering) (error : CompileError) : Prop :=
  ∃ message x, error = l.refused message x

theorem Lowering.Refuses.ofReading (h : l.Refuses error) : error.OfReading := by
  obtain ⟨message, x, rfl⟩ := h
  unfold Lowering.refused
  cases l.dialect
  · exact .unsupportedShape _ _ _
  · exact .malformed _ _ _

/-- Data that is refused is malformed. -/
theorem Lowering.Refuses.malformed (h : l.Refuses error) (hdialect : l.dialect = .data) :
    ∃ message span, error = .malformed l.filename message span := by
  obtain ⟨message, x, rfl⟩ := h
  exact ⟨message, some (l.span x), by rw [Lowering.refused, hdialect]⟩

theorem leaf_refused {e : Expr l.source} (h : l.leaf e = .error error) : l.Refuses error := by
  unfold Lowering.leaf at h
  split at h
  · cases h
  · cases h
  · cases h
  all_goals
    split at h
    · cases h
    · cases h
      exact ⟨_, _, rfl⟩

mutual

theorem node_refused : ∀ (e : Expr l.source), l.node e = .error error → l.Refuses error
  | .object properties x, h => by
    rcases bind_eq_error.1 h with h | ⟨pairs, -, h⟩
    · exact pairs_refused properties h
    · cases h
  | .array elements x, h => by
    rcases bind_eq_error.1 h with h | ⟨items, -, h⟩
    · exact items_refused elements h
    · cases h
  | .parenthesized inner x, h | .ascribed inner x, h => by
    rw [Lowering.node] at h
    split at h
    · exact node_refused inner h
    · cases h
      exact ⟨_, _, rfl⟩
  | .string _, h | .number _ _, h | .bool _ _, h | .null _, h | .identifier _ _, h
  | .template _ _, h | .signed _ _ _, h | .member _, h | .assignment _ _, h
  | .logical _, h | .function _, h | .other _, h => leaf_refused h

theorem pairs_refused : ∀ (properties : List (Property l.source)),
    l.pairs properties = .error error → l.Refuses error
  | [], h => by cases h
  | .spread _ _ :: _, h | .shorthand _ :: _, h | .computed _ _ :: _, h | .method _ _ :: _, h => by
    cases h
    exact ⟨_, _, rfl⟩
  | .pair key keyExtent value x :: rest, h => by
    rw [Lowering.pairs] at h
    cases hkey : l.keyText? key with
    | none =>
      rw [hkey] at h
      cases h
      exact ⟨_, _, rfl⟩
    | some text =>
      rw [hkey] at h
      rcases bind_eq_error.1 h with h | ⟨node, -, h⟩
      · exact node_refused value h
      · rcases bind_eq_error.1 h with h | ⟨others, -, h⟩
        · exact pairs_refused rest h
        · cases h

theorem items_refused : ∀ (elements : List (Element l.source)) {x : Extent},
    l.items x elements = .error error → l.Refuses error
  | [], x, h => by cases h
  | .item e :: rest, x, h => by
    rcases bind_eq_error.1 h with h | ⟨item, -, h⟩
    · exact node_refused e h
    · rcases bind_eq_error.1 h with h | ⟨others, -, h⟩
      · exact items_refused rest h
      · cases h
  | .hole :: _, x, h | .spread _ _ :: _, x, h => by
    cases h
    exact ⟨_, _, rfl⟩

end

/-- A data text that is refused is malformed. -/
theorem readData_malformed {source filename : String} (h : readData source filename = .error error) :
    ∃ message span, error = .malformed filename message span := by
  unfold readData at h
  simp only at h
  split at h
  · cases h
    exact ⟨_, _, rfl⟩
  · split at h
    · cases h
      exact ⟨_, _, rfl⟩
    · rcases bind_eq_error.1 h with h | ⟨root, -, h⟩
      · exact (node_refused _ h).malformed rfl
      · cases h

theorem readResourceModule_ofReading {source filename : String}
    (h : (readResourceModule source filename).1 = .error error) : error.OfReading := by
  unfold readResourceModule at h
  simp only at h
  split at h
  · cases h
    exact .malformed _ _ _
  · simp only at h
    split at h
    · cases h
      exact .unsupportedShape _ _ _
    · cases h
      exact Lowering.Refuses.ofReading ⟨_, _, rfl⟩
    · split at h
      · exact (node_refused _ (map_eq_error h)).ofReading
      · cases h
        exact Lowering.Refuses.ofReading ⟨_, _, rfl⟩

/-- A module whose shape is refused has been read as a script. -/
theorem readResourceModule_size_of_shape {source filename : String}
    (h : (readResourceModule source filename).1 = .error error) (hshape : error.isShape = true) :
    byteLength source.toList ≤ sizeLimit := by
  unfold readResourceModule at h
  simp only at h
  split at h
  · cases h
    cases hshape
  · rename_i hread
    exact readModule_size hread

theorem readResourceModule_size {source filename : String} {document : Document}
    (h : (readResourceModule source filename).1 = .ok document) :
    byteLength source.toList ≤ sizeLimit := by
  unfold readResourceModule at h
  simp only at h
  split at h
  · cases h
  · rename_i hread
    exact readModule_size hread

end Script

/-- A YAML text that is refused is malformed. -/
theorem Yaml.readResource_malformed {source filename : String} {error : CompileError}
    (h : readResource source filename = .error error) :
    ∃ message span, error = .malformed filename message span := by
  unfold readResource at h
  simp only at h
  split at h
  · cases h
    exact ⟨_, _, rfl⟩
  · split at h
    · cases h
      exact ⟨_, _, rfl⟩
    · cases h

/-! ## Resources -/

variable {format : ResourceFormat} {source filename : String}

theorem ResourceFormat.read_ofReading {e : CompileError}
    (h : (format.read source filename).1 = .error e) : e.OfReading := by
  cases format with
  | json =>
    obtain ⟨message, span, rfl⟩ := Script.readData_malformed h
    exact .malformed _ _ _
  | plainModule => exact Script.readResourceModule_ofReading h
  | yaml =>
    obtain ⟨message, span, rfl⟩ := Yaml.readResource_malformed h
    exact .malformed _ _ _

/-- Only what a module holds can have a shape that is refused. -/
theorem ResourceFormat.plainModule_of_shape {e : CompileError}
    (h : (format.read source filename).1 = .error e) (hshape : e.isShape = true) :
    format = .plainModule := by
  cases format with
  | plainModule => rfl
  | json =>
    obtain ⟨message, span, rfl⟩ := Script.readData_malformed h
    cases hshape
  | yaml =>
    obtain ⟨message, span, rfl⟩ := Yaml.readResource_malformed h
    cases hshape

/-- The bytes of a script text that is read are counted in a word. -/
theorem ResourceFormat.read_size {document : Document} (hformat : format ≠ .yaml)
    (h : (format.read source filename).1 = .ok document) :
    byteLength source.toList ≤ Script.sizeLimit := by
  cases format with
  | json => exact Script.readData_size h
  | plainModule => exact Script.readResourceModule_size h
  | yaml => exact absurd rfl hformat

end MessageCatalog
