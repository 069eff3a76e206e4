/-
The strings of a resource. In a data text each of them is a token of the source, and one that is
spelled on one line with the escapes of JSON stands there for just its literal.
-/
import MessageCatalog.Script.Resource
import MessageCatalog.Proofs.Error
import MessageCatalog.Proofs.Script.Spelling
import MessageCatalog.Proofs.Text.Position

namespace MessageCatalog

open MessageCatalog.Code MessageCatalog.Script MessageCatalog.Text

/-! ## Leaves -/

/-- A string of a resource, with the keys and indices on the way to it. -/
structure Leaf where
  scalar : Scalar
  literal : String
  path : List String
  deriving DecidableEq, Repr

mutual

/-- The strings of a node in order, where the node is found at a path. -/
def Node.leaves (path : List String) : Node → List Leaf
  | .mapping pairs _ => pairLeaves path pairs
  | .sequence items _ => itemLeaves path 0 items
  | .scalar s =>
    match s.value with
    | .string literal => [⟨s, literal, path⟩]
    | _ => []
  | .verbatim _ => []

def pairLeaves (path : List String) : List (Key × Node) → List Leaf
  | [] => []
  | (key, value) :: rest => value.leaves (path ++ [key.text]) ++ pairLeaves path rest

def itemLeaves (path : List String) (index : Nat) : List Node → List Leaf
  | [] => []
  | item :: rest => item.leaves (path ++ [toString index]) ++ itemLeaves path (index + 1) rest

end

/-- A leaf whose token is on one line and has no escapes but those of JSON. -/
def Leaf.Plain (source : List Char) (leaf : Leaf) : Prop :=
  ∃ quote raw text, slice? source leaf.scalar.span.start.offset leaf.scalar.span.stop.offset =
    some (quote :: (raw ++ [quote])) ∧ Spelled quote raw text

/-- A leaf whose token stands between two texts and spells its literal. -/
structure Leaf.StandsAt (source : List Char) (leaf : Leaf) (quote : Char)
    (before raw after : List Char) : Prop where
  text : source = before ++ quote :: (raw ++ quote :: after)
  quotes : quote = '"' ∨ quote = '\''
  spelled : Spelled quote raw leaf.literal.toList
  start : leaf.scalar.span.start.offset = byteLength before
  stop : leaf.scalar.span.stop.offset = byteLength (before ++ quote :: (raw ++ [quote]))
  content : leaf.scalar.contentStart =
    (LineIndex.ofText source).position (byteLength (before ++ [quote]))

/-- The character at a byte of a literal is spelled in the source from a byte on. -/
inductive Leaf.SpellsAt (source : List Char) (leaf : Leaf) : Nat → Nat → Prop where
  | intro {quote c : Char} {raw spelling rest decoded remaining : List Char}
    (token : slice? source leaf.scalar.span.start.offset leaf.scalar.span.stop.offset =
      some (quote :: (raw ++ (spelling ++ rest) ++ [quote])))
    (literal : leaf.literal.toList = decoded ++ c :: remaining)
    (before : Spelled quote raw decoded) (spells : Spells quote spelling c)
    (behind : Spelled quote rest remaining) :
    SpellsAt source leaf (byteLength decoded)
      (leaf.scalar.span.start.offset + byteLength (quote :: raw))

section

variable {source before raw after : List Char} {quote : Char} {leaf : Leaf}

theorem Leaf.StandsAt.slice (h : leaf.StandsAt source quote before raw after) :
    slice? source leaf.scalar.span.start.offset leaf.scalar.span.stop.offset =
      some (quote :: (raw ++ [quote])) := by
  have := slice?_append before (quote :: (raw ++ [quote])) after
  rw [h.start, h.stop, h.text]
  simpa using this

/-- A position in the token, by the raw text in front of it. -/
theorem Leaf.StandsAt.position (h : leaf.StandsAt source quote before raw after)
    {front back : List Char}
    (hraw : raw = front ++ back) :
    (LineIndex.ofText source).position (byteLength (before ++ quote :: front)) =
        ⟨leaf.scalar.contentStart.line, leaf.scalar.contentStart.column + units front,
          leaf.scalar.contentStart.offset + byteLength front⟩ ∧
      source = (before ++ quote :: front) ++ (back ++ quote :: after) := by
  subst hraw
  have hcontent := position_append (before ++ [quote]) (front ++ back ++ quote :: after)
  have hfront := position_append (before ++ [quote] ++ front) (back ++ quote :: after)
  have hline : '\n' ∉ front := fun hmem =>
    h.spelled.newline_not_mem (List.mem_append_left _ hmem)
  have hsource : source = (before ++ [quote]) ++ (front ++ back ++ quote :: after) := by
    rw [h.text]
    simp only [List.append_assoc, List.cons_append, List.nil_append]
  have hsource' : source = (before ++ [quote] ++ front) ++ (back ++ quote :: after) := by
    rw [h.text]
    simp only [List.append_assoc, List.cons_append, List.nil_append]
  rw [← hsource] at hcontent
  rw [← hsource', byteLength_append, advance_append, advance_of_not_mem hline] at hfront
  refine ⟨?_, ?_⟩
  · rw [h.content, hcontent, ← List.singleton_append, ← List.append_assoc, byteLength_append, hfront]
  · rw [hsource', List.append_assoc before [quote], List.singleton_append]
/-- A character is spelled where its part of the token is. -/
theorem Leaf.StandsAt.spellsAt_iff (h : leaf.StandsAt source quote before raw after)
    {byte place : Nat} :
    leaf.SpellsAt source byte place ↔ ∃ decoded c remaining rawFront rawBack,
      leaf.literal.toList = decoded ++ c :: remaining ∧ raw = rawFront ++ rawBack ∧
      Spelled quote rawFront decoded ∧ Spelled quote rawBack (c :: remaining) ∧
      byte = byteLength decoded ∧ place = byteLength (before ++ quote :: rawFront) := by
  constructor
  · rintro ⟨htoken, hliteral, hbefore, hspells, hbehind⟩
    obtain ⟨rfl, hraw⟩ := List.cons.inj (Option.some.inj (htoken.symm.trans h.slice))
    refine ⟨_, _, _, _, _, hliteral, (List.append_cancel_right hraw).symm, hbefore,
      .cons hspells hbehind, rfl, ?_⟩
    rw [h.start, byteLength_append]
  · rintro ⟨decoded, c, remaining, rawFront, rawBack, hliteral, rfl, hbefore, hbehind, rfl, rfl⟩
    cases hbehind with
    | cons hspells hbehind =>
      rw [byteLength_append, ← h.start]
      exact .intro h.slice hliteral hbefore hspells hbehind

end

/-! ## Lowering data -/

namespace Script

/-- A node without code, in which every string is a string of the source. -/
inductive IsData (l : Lowering) : Node → Prop where
  | mapping {pairs : List (Key × Node)} {span : Span} (values : ∀ pair ∈ pairs, IsData l pair.2) :
    IsData l (.mapping pairs span)
  | sequence {items : List Node} {span : Span} (values : ∀ item ∈ items, IsData l item) :
    IsData l (.sequence items span)
  | string (literal : StringLiteral l.source) : IsData l (l.string literal.value literal.extent)
  | bare {s : Scalar} (other : ∀ text, s.value ≠ .string text) : IsData l (.scalar s)

section

variable {l : Lowering}

/-- A pair is lowered to its key and the node of its value, in front of the pairs behind it. -/
theorem pairs_cons_eq_ok {key : PropertyKey} {keyExtent x : Extent} {value : Expr l.source}
    {rest : List (Property l.source)} {pairs : List (Key × Node)}
    (h : l.pairs (.pair key keyExtent value x :: rest) = .ok pairs) :
    ∃ text node others, l.keyText? key = some text ∧ l.node value = .ok node ∧ l.pairs rest = .ok others ∧
      pairs = (⟨text, l.span keyExtent⟩, node) :: others := by
  rw [Lowering.pairs] at h
  split at h
  · cases h
  · rename_i text hkey
    obtain ⟨node, hnode, h⟩ := bind_eq_ok.1 h
    obtain ⟨others, hothers, h⟩ := bind_eq_ok.1 h
    cases h
    exact ⟨text, node, others, hkey, hnode, hothers, rfl⟩

theorem leaf_isData (hl : l.dialect = .data) {e : Expr l.source} {node : Node}
    (h : l.leaf e = .ok node) :
    IsData l node := by
  have hmodule : l.dialect ≠ .module := by rw [hl]; nofun
  unfold Lowering.leaf at h
  split at h
  · cases h
    exact .string _
  · cases h
    exact .bare nofun
  · cases h
    exact .bare nofun
  · split at h
    · cases h
      exact .bare nofun
    · cases h
  · rw [if_neg hmodule] at h
    cases h
  · rw [if_neg hmodule] at h
    cases h
  · split at h
    · cases h
      exact .bare nofun
    · cases h

mutual

theorem node_isData (hl : l.dialect = .data) : ∀ (e : Expr l.source) {node : Node},
    l.node e = .ok node → IsData l node
  | .object properties x, node, h => by
    obtain ⟨pairs, hpairs, h⟩ := bind_eq_ok.1 h
    cases h
    exact .mapping (pairs_isData hl properties hpairs)
  | .array elements x, node, h => by
    obtain ⟨items, hitems, h⟩ := bind_eq_ok.1 h
    cases h
    exact .sequence (items_isData hl elements hitems)
  | .parenthesized inner x, node, h => by
    rw [Lowering.node, hl] at h
    cases h
  | .ascribed inner x, node, h => by
    rw [Lowering.node, hl] at h
    cases h
  | .string _, _, h | .number _ _, _, h | .bool _ _, _, h | .null _, _, h | .identifier _ _, _, h
  | .template _ _, _, h | .signed _ _ _, _, h | .member _, _, h | .assignment _ _, _, h
  | .logical _, _, h | .function _, _, h | .other _, _, h => leaf_isData hl h

theorem pairs_isData (hl : l.dialect = .data) : ∀ (properties : List (Property l.source))
    {pairs : List (Key × Node)}, l.pairs properties = .ok pairs → ∀ pair ∈ pairs, IsData l pair.2
  | [], pairs, h => by
    cases h
    exact nofun
  | .pair key keyExtent value x :: rest, pairs, h => by
    obtain ⟨text, node, others, -, hnode, hothers, rfl⟩ := pairs_cons_eq_ok h
    exact List.forall_mem_cons.2 ⟨node_isData hl value hnode, pairs_isData hl rest hothers⟩

theorem items_isData (hl : l.dialect = .data) : ∀ (elements : List (Element l.source)) {x : Extent}
    {items : List Node}, l.items x elements = .ok items → ∀ item ∈ items, IsData l item
  | [], x, items, h => by
    cases h
    exact nofun
  | .item e :: rest, x, items, h => by
    obtain ⟨node, hnode, h⟩ := bind_eq_ok.1 h
    obtain ⟨others, hothers, h⟩ := bind_eq_ok.1 h
    cases h
    exact List.forall_mem_cons.2 ⟨node_isData hl e hnode, items_isData hl rest hothers⟩

end

/-! ## Strings of data -/

theorem forall_mem_pairLeaves {P : Leaf → Prop} : ∀ {pairs : List (Key × Node)},
    (∀ pair ∈ pairs, ∀ path, ∀ leaf ∈ pair.2.leaves path, P leaf) →
    ∀ path, ∀ leaf ∈ pairLeaves path pairs, P leaf
  | [], _, _ => fun _ h => absurd h List.not_mem_nil
  | (key, value) :: rest, h, path => by
    obtain ⟨hvalue, hrest⟩ := List.forall_mem_cons.1 h
    exact List.forall_mem_append.2 ⟨hvalue _, forall_mem_pairLeaves hrest path⟩

theorem forall_mem_itemLeaves {P : Leaf → Prop} : ∀ {items : List Node},
    (∀ item ∈ items, ∀ path, ∀ leaf ∈ item.leaves path, P leaf) →
    ∀ path index, ∀ leaf ∈ itemLeaves path index items, P leaf
  | [], _, _, _ => fun _ h => absurd h List.not_mem_nil
  | item :: rest, h, path, index => by
    obtain ⟨hitem, hrest⟩ := List.forall_mem_cons.1 h
    exact List.forall_mem_append.2 ⟨hitem _, forall_mem_itemLeaves hrest path (index + 1)⟩

/-- The strings of data are strings of the source. -/
theorem IsData.leaves {node : Node} (h : IsData l node) : ∀ path, ∀ leaf ∈ node.leaves path,
    ∃ literal : StringLiteral l.source, l.string literal.value literal.extent = .scalar leaf.scalar ∧
      leaf.literal = literal.value := by
  induction h with
  | mapping _ ih => exact forall_mem_pairLeaves ih
  | sequence _ ih => exact fun path => forall_mem_itemLeaves ih path 0
  | string literal =>
    intro path leaf hleaf
    cases List.mem_singleton.1 hleaf
    exact ⟨literal, rfl, rfl⟩
  | @bare s other =>
    intro path leaf hleaf
    rw [Node.leaves] at hleaf
    split at hleaf
    · rename_i literal hvalue
      exact absurd hvalue (other literal)
    · cases hleaf

/-- A spelled string has the value that it spells. -/
theorem startsWithString_spelled {token rest raw text : List Char} {value : String} {quote : Char}
    (h : StartsWithString (token ++ rest) value rest) (htoken : token = quote :: (raw ++ [quote]))
    (hspelled : Spelled quote raw text) :
    (quote = '"' ∨ quote = '\'') ∧ value.toList = text := by
  generalize hall : token ++ rest = all at h
  cases h with
  | @intro offset quote' body read quotes reads =>
    rw [htoken, List.cons_append, List.append_assoc] at hall
    obtain ⟨rfl, rfl⟩ := List.cons.inj hall
    have hquote : quote ≠ '\\' := by
      rcases quotes with rfl | rfl <;> decide
    have hread := readStringBody_spelled hquote hspelled reads
    refine ⟨quotes, ?_⟩
    rw [String.toList_ofList, hread]
    exact unitsText_chars text

/-- A string of the source stands in it with its extent, and its value is what its token spells. -/
theorem StringLiteral.standsAt {source : List Char} (literal : StringLiteral source) {leaf : Leaf}
    (hspan : leaf.scalar.span =
      (LineIndex.ofText source).span literal.extent.start literal.extent.stop)
    (hcontent : leaf.scalar.contentStart =
      (LineIndex.ofText source).position (literal.extent.start + 1))
    (hliteral : leaf.literal = literal.value) (hplain : leaf.Plain source) :
    ∃ quote before raw after, leaf.StandsAt source quote before raw after := by
  obtain ⟨t, rest, ht, hkind, hextent⟩ := literal.stands
  obtain ⟨before, hsource⟩ := ht.inSource
  obtain ⟨token, htoken⟩ := ht.inText
  have hsize := congrArg byteLength hsource
  have hsize' := congrArg byteLength htoken
  rw [byteLength_append] at hsize hsize'
  have hstart : literal.extent.start = byteLength before := by
    rw [hextent]
    show t.start = _
    rw [ht.start]
    omega
  have hstop : literal.extent.stop = byteLength (before ++ token) := by
    rw [hextent]
    show t.stop = _
    rw [ht.stop, byteLength_append]
    omega
  have hoffset : ∀ n, n ≤ byteLength source → ((LineIndex.ofText source).position n).offset = n :=
    fun n hn => Nat.min_eq_left hn
  have hspanStart : leaf.scalar.span.start.offset = byteLength before := by
    rw [hspan, hstart]
    exact hoffset _ (by omega)
  have hspanStop : leaf.scalar.span.stop.offset = byteLength (before ++ token) := by
    rw [hspan, hstop]
    exact hoffset _ (by rw [byteLength_append]; omega)
  -- the token is the one that the leaf is said to be spelled with
  obtain ⟨quote, raw, text, hslice, hspelled⟩ := hplain
  have hfound := slice?_append before token rest
  rw [htoken, hsource, ← hspanStart, ← hspanStop, hslice] at hfound
  have htokenText := (Option.some.inj hfound).symm
  have hstring := ht.string literal.value hkind
  rw [← htoken] at hstring
  obtain ⟨hquotes, hvalue⟩ := startsWithString_spelled hstring htokenText hspelled
  have hquoteLength : byteLength [quote] = 1 := by
    rcases hquotes with rfl | rfl <;> decide
  refine ⟨quote, before, raw, rest, ?_, hquotes, ?_, hspanStart, ?_, ?_⟩
  · rw [← hsource, ← htoken, htokenText]
    simp only [List.append_assoc, List.cons_append, List.nil_append]
  · rwa [hliteral, hvalue]
  · rw [hspanStop, htokenText]
  · rw [hcontent, hstart, byteLength_append, hquoteLength]

/-- A data text is one expression, lowered. -/
theorem readData_expression {source filename : String} {document : Document}
    (h : readData source filename = .ok document) :
    ∃ e, readExpression (Lowering.new source filename .data).source = .ok e ∧
      (Lowering.new source filename .data).node e = .ok document.root ∧
      document.filename = filename := by
  unfold readData at h
  simp only at h
  cases hread : readExpression (Lowering.new source filename .data).source with
  | error offset =>
    rw [hread] at h
    cases h
  | ok e =>
    rw [hread] at h
    simp only at h
    split at h
    · cases h
    · obtain ⟨root, hroot, h⟩ := bind_eq_ok.1 h
      cases h
      exact ⟨e, rfl, hroot, rfl⟩

/-- What a data text is read into. -/
theorem readData_isData {source filename : String} {document : Document}
    (h : readData source filename = .ok document) :
    IsData (.new source filename .data) document.root ∧ document.filename = filename := by
  obtain ⟨e, -, hroot, hfilename⟩ := readData_expression h
  exact ⟨node_isData rfl e hroot, hfilename⟩

/-- A text of more bytes than a word counts is not read at all. -/
theorem run_size {α : Type} {typed : Bool} {text : List Char} {r : Readers text → Reader text α}
    {answer : α × ReaderState text} (h : run typed text r = .ok answer) :
    byteLength text ≤ sizeLimit := by
  unfold run at h
  simp only at h
  split at h
  · assumption
  · cases h

theorem readExpression_size {text : List Char} {e : Expr text} (h : readExpression text = .ok e) :
    byteLength text ≤ sizeLimit := by
  unfold readExpression at h
  split at h
  · cases h
  · rename_i hrun
    exact run_size hrun

theorem readModule_size {typed : Bool} {text : List Char} {contents : StatementSyntax.Contents text}
    (h : readModule typed text = .ok contents) : byteLength text ≤ sizeLimit := by
  unfold readModule at h
  split at h
  · cases h
  · rename_i hrun
    exact run_size hrun

theorem readData_size {source filename : String} {document : Document}
    (h : readData source filename = .ok document) : byteLength source.toList ≤ sizeLimit := by
  obtain ⟨e, hread, -⟩ := readData_expression h
  exact readExpression_size hread

/-- A plain string of a data text stands in the text and spells its literal there. -/
theorem readData_standsAt {source filename : String} {document : Document}
    (h : readData source filename = .ok document) {path : List String} {leaf : Leaf}
    (hleaf : leaf ∈ document.root.leaves path) (hplain : leaf.Plain source.toList) :
    ∃ quote before raw after, leaf.StandsAt source.toList quote before raw after := by
  obtain ⟨literal, hscalar, hliteral⟩ := (readData_isData h).1.leaves path leaf hleaf
  have hscalar := Node.scalar.inj hscalar
  exact literal.standsAt (by rw [← hscalar]; rfl) (by rw [← hscalar]; rfl) hliteral hplain

end

end Script

end MessageCatalog
