/-
What is read as data is a value of its text. Faults are never taken back on the way to data, so a state
without faults has come from states without faults, each of whose tokens was cut as it should be.
-/
import MessageCatalog.Proofs.Script.Direct
import MessageCatalog.Proofs.Script.Leaf
import MessageCatalog.Proofs.Script.Value
import Mathlib.Data.List.Forall2

namespace MessageCatalog.Script

open MessageCatalog.Text Reader Expression

variable {source : List Char} {setting : Setting source} {s s' : ReaderState source}

/-! ## States without faults -/

/-- No fault has been found, neither of a token nor of meaning. -/
structure ReaderState.Clean (s : ReaderState source) : Prop where
  tokenFaults : s.tokenFaults = #[]
  faults : s.faults = #[]

/-- The current token, if it can belong to data, is what its text starts with. -/
def ReaderState.IsCut (s : ReaderState source) : Prop :=
  s.tokenFaults = #[] → isDataKind s.token.kind = true → IsToken s.token.text s.token.kind s.rest

theorem nextToken_faultless {offset : OffsetOf} {cs : List Char} (h : (nextToken offset cs).2.2 = []) :
    Leads cs (nextToken offset cs).1.text ∧
      (isDataKind (nextToken offset cs).1.kind = true →
        IsToken (nextToken offset cs).1.text (nextToken offset cs).1.kind (nextToken offset cs).2.1) := by
  unfold nextToken at h ⊢
  split at h
  · rename_i newLine text hskip
    refine ⟨leads_of_skipped hskip, fun hkind => ?_⟩
    have hcut := congrArg (Cut.mk (cutToken offset (offset cs = 0 && offset text = 0) text).kind
      (cutToken offset (offset cs = 0 && offset text = 0) text).rest) h
    exact isToken_of_cut hkind hcut
  · cases h

theorem ofText_isCut (setting : Setting source) : (ReaderState.ofText setting).IsCut :=
  fun hfaults => (nextToken_faultless (congrArg Array.toList hfaults)).2

theorem ofText_leads (h : (ReaderState.ofText setting).Clean) :
    Leads source (ReaderState.ofText setting).token.text :=
  (nextToken_faultless (congrArg Array.toList h.tokenFaults)).1

theorem next_isCut (setting : Setting source) (s : ReaderState source) : (s.next setting).IsCut :=
  fun hfaults => (nextToken_faultless (congrArg Array.toList (Array.append_eq_empty_iff.1 hfaults).2)).2

theorem next_leads (h : (s.next setting).Clean) : Leads s.rest (s.next setting).token.text :=
  (nextToken_faultless (congrArg Array.toList (Array.append_eq_empty_iff.1 h.tokenFaults).2)).1

theorem ReaderState.Clean.of_next (h : (s.next setting).Clean) : s.Clean :=
  ⟨(Array.append_eq_empty_iff.1 h.tokenFaults).1, h.faults⟩

theorem ReaderState.Clean.isToken (h : s.Clean) (hcut : s.IsCut) {kind : TokenKind}
    (hkind : s.token.kind = kind) (hdata : isDataKind kind = true) : IsToken s.token.text kind s.rest := by
  subst hkind
  exact hcut h.tokenFaults hdata

/-- A state behind a part of the text, in front of a rest. -/
structure ReaderState.After (s : ReaderState source) (rest : List Char) : Prop where
  leads : Leads rest s.token.text
  stop : s.previousStop = offsetIn (byteLength source) rest

theorem next_after (h : (s.next setting).Clean) : (s.next setting).After s.rest :=
  ⟨next_leads h, s.stands.stop⟩

/-! ## Lists -/

section

variable {α β : Type} {item : Reader source α} {closing : String} {reads : α → β → Prop}
  {holds : List Char → β → List Char → Prop}

/--
What a reader returns is an item of its text. If it ends without faults, so it has started, in front of
a token that was cut as it should be it has read an item, and the next token is cut as it should be.
-/
def ReadsSound (setting : Setting source) (item : Reader source α) (reads : α → β → Prop)
    (holds : List Char → β → List Char → Prop) : Prop :=
  ∀ ⦃s a s' b⦄, Runs item setting s a s' → reads a b → s'.Clean →
    s.Clean ∧ s'.IsCut ∧ (s.IsCut → ∃ rest, s'.After rest ∧ holds s.token.text b rest)

theorem keeps_atListEnd (closing : String) : Keeps (atListEnd closing : Reader source Bool) := by
  refine keeps_kind.bind fun k => ?_
  split <;> exact keeps_pure

/-- A round of a list ends in front of what closes it, or takes a comma and an item. -/
theorem listRound_runs {items items' : Array α} {again : Bool}
    (h : Runs (listRound closing item items) setting s (items', again) s') :
    again = false ∧ items' = items ∧
        (s' = s ∨ s.token.kind = .punctuator "," ∧ s' = s.next setting) ∨
      again = true ∧ s.token.kind = .punctuator "," ∧
        ∃ a, Runs item setting (s.next setting) a s' ∧ items' = items.push a := by
  obtain ⟨ended, s₁, hend, hgoes⟩ := runs_bind.1 h
  obtain rfl := keeps_atListEnd closing hend
  split at hgoes
  · obtain ⟨heq, rfl⟩ := runs_pure.1 hgoes
    cases heq
    exact .inl ⟨rfl, rfl, .inl rfl⟩
  · obtain ⟨hcomma, hgoes⟩ := runs_expect.1 hgoes
    rw [runs_isPunctuator] at hgoes
    split at hgoes
    · obtain ⟨heq, rfl⟩ := runs_pure.1 hgoes
      cases heq
      exact .inl ⟨rfl, rfl, .inr ⟨hcomma, rfl⟩⟩
    · obtain ⟨a, s₂, hitem, hgoes⟩ := runs_bind.1 hgoes
      obtain ⟨heq, rfl⟩ := runs_pure.1 hgoes
      cases heq
      exact .inr ⟨rfl, hcomma, a, hitem, rfl⟩

/-- What the rounds behind an item have read: the rest of its list. -/
def ReadsMore (reads : α → β → Prop) (holds : List Char → β → List Char → Prop) (closing : String)
    (s s' : ReaderState source) (more : List α) : Prop :=
  ∀ ⦃bs⦄, List.Forall₂ reads more bs → s.Clean ∧ (s.IsCut → s'.IsCut ∧
    ∀ ⦃cs text behind b⦄, Leads cs text → holds text b behind → Leads behind s.token.text →
      Listed holds closing cs (b :: bs) s'.rest)

theorem readsMore_closed (hclosing : isDataKind (.punctuator closing) = true)
    (hclose : s.token.kind = .punctuator closing) (hclean : s.Clean) :
    ReadsMore reads holds closing s s [] := by
  intro bs hbs
  cases hbs
  refine ⟨hclean, fun hcut => ⟨hcut, fun _ _ _ _ hleads hb hbehind => ?_⟩⟩
  exact .last hleads hb ⟨_, hbehind, hclean.isToken hcut hclose hclosing⟩

/-- A comma in front of what closes a list. -/
theorem readsMore_comma (hclosing : isDataKind (.punctuator closing) = true)
    (hcomma : s.token.kind = .punctuator ",") (hclose : (s.next setting).token.kind = .punctuator closing)
    (hclean : (s.next setting).Clean) : ReadsMore reads holds closing s (s.next setting) [] := by
  intro bs hbs
  cases hbs
  have hnext := next_isCut setting s
  refine ⟨hclean.of_next, fun hcut => ⟨hnext, fun _ _ _ _ hleads hb hbehind => ?_⟩⟩
  exact .cons hleads hb ⟨_, hbehind, hclean.of_next.isToken hcut hcomma rfl⟩
    (.nil ⟨_, next_leads hclean, hclean.isToken hnext hclose hclosing⟩)

/-- A comma and an item in front of more of a list. -/
theorem ReadsMore.cons (hitem : ReadsSound setting item reads holds) {s₁ : ReaderState source} {a : α}
    {more : List α} (hcomma : s.token.kind = .punctuator ",") (ha : Runs item setting (s.next setting) a s₁)
    (hmore : ReadsMore reads holds closing s₁ s' more) : ReadsMore reads holds closing s s' (a :: more) := by
  intro bs hbs
  cases hbs with
  | cons hab hbs =>
    obtain ⟨hclean₁, hrest⟩ := hmore hbs
    obtain ⟨hclean, hcut₁, hread⟩ := hitem ha hab hclean₁
    obtain ⟨hcut', hlisted⟩ := hrest hcut₁
    obtain ⟨rest, hafter, hholds⟩ := hread (next_isCut setting s)
    refine ⟨hclean.of_next, fun hcut => ⟨hcut', fun _ _ _ _ hleads hb hbehind => ?_⟩⟩
    exact .cons hleads hb ⟨_, hbehind, hclean.of_next.isToken hcut hcomma rfl⟩
      (hlisted (next_leads hclean) hholds hafter.leads)

/-- The rounds behind an item read the rest of its list. -/
theorem repeatWhile_sound (hclosing : isDataKind (.punctuator closing) = true)
    (hitem : ReadsSound setting item reads holds) {n : Nat} {items items' : Array α}
    (h : Runs (repeatWhile (listRound closing item) n items) setting s items' s')
    (hclose : s'.token.kind = .punctuator closing) (hclean : s'.Clean) :
    ∃ more, items'.toList = items.toList ++ more ∧ ReadsMore reads holds closing s s' more := by
  induction n generalizing items s with
  | zero =>
    obtain ⟨rfl, rfl⟩ := runs_pure.1 h
    exact ⟨[], (List.append_nil _).symm, readsMore_closed hclosing hclose hclean⟩
  | succ n ih =>
    obtain ⟨⟨items₁, again⟩, s₁, hround, hrest⟩ := runs_bind.1 h
    rcases listRound_runs hround with ⟨rfl, rfl, hs⟩ | ⟨rfl, hcomma, a, ha, rfl⟩
    · obtain ⟨rfl, rfl⟩ := runs_pure.1 hrest
      refine ⟨[], (List.append_nil _).symm, ?_⟩
      rcases hs with rfl | ⟨hcomma, rfl⟩
      · exact readsMore_closed hclosing hclose hclean
      · exact readsMore_comma hclosing hcomma hclose hclean
    · obtain ⟨more, hitems, hmore⟩ := ih hrest
      refine ⟨a :: more, ?_, hmore.cons hitem hcomma ha⟩
      rw [hitems, Array.toList_push, List.append_assoc, List.singleton_append]

/-- What is read between commas is a list of its text. -/
theorem commaList_sound (hclosing : isDataKind (.punctuator closing) = true)
    (hitem : ReadsSound setting item reads holds) {as : List α} {bs : List β}
    (h : Runs (commaList closing item) setting s as s') (hreads : List.Forall₂ reads as bs)
    (hclose : s'.token.kind = .punctuator closing) (hclean : s'.Clean) :
    s.Clean ∧ (s.IsCut → s'.IsCut ∧ ∀ ⦃cs⦄, Leads cs s.token.text →
      Listed holds closing cs bs s'.rest) := by
  obtain ⟨ended, s₁, hend, hlist⟩ := runs_bind.1 h
  obtain rfl := keeps_atListEnd closing hend
  split at hlist
  · obtain ⟨rfl, rfl⟩ := runs_pure.1 hlist
    cases hreads
    refine ⟨hclean, fun hcut => ⟨hcut, fun cs hleads => ?_⟩⟩
    exact .nil ⟨_, hleads, hclean.isToken hcut hclose hclosing⟩
  · obtain ⟨first, s₂, hfirst, hlist⟩ := runs_bind.1 hlist
    obtain ⟨items, s₃, hloop, hlist⟩ := runs_bind.1 hlist
    obtain ⟨rfl, rfl⟩ := runs_pure.1 hlist
    rw [loop, runs_rounds] at hloop
    obtain ⟨more, hitems, hmore⟩ := repeatWhile_sound hclosing hitem hloop hclose hclean
    rw [hitems] at hreads
    cases hreads with
    | cons hab hbs =>
      obtain ⟨hclean₂, hrest⟩ := hmore hbs
      obtain ⟨hclean₁, hcut₂, hread⟩ := hitem hfirst hab hclean₂
      obtain ⟨hcut', hlisted⟩ := hrest hcut₂
      refine ⟨hclean₁, fun hcut => ⟨hcut', fun cs hleads => ?_⟩⟩
      obtain ⟨rest, hafter, hholds⟩ := hread hcut
      exact hlisted hleads hholds hafter.leads

end

/-! ## Operands -/

section

variable {l : Lowering} {setting : Setting l.source} {s s' : ReaderState l.source} {go : Readers l.source}
  {e : Expr l.source}

theorem span_eq (hindex : l.index = .ofText l.source) {start stop : Nat} {text rest : List Char}
    (hstart : start = offsetIn (byteLength l.source) text)
    (hstop : stop = offsetIn (byteLength l.source) rest) :
    l.span ⟨start, stop⟩ = spanIn l.source text rest := by
  subst hstart hstop
  rw [Lowering.span, hindex]
  rfl

theorem span_token (hindex : l.index = .ofText l.source) (s : ReaderState l.source) :
    l.span ⟨s.token.start, s.token.stop⟩ = spanIn l.source s.token.text s.rest :=
  span_eq hindex s.stands.start s.stands.stop

/-- An expression that data is made of, as soon as it is lowered to a node. -/
theorem isData_of_node (hl : l.dialect = .data) {node : Node} (h : l.node e = .ok node) :
    e.isData = true := by
  cases e with
  | parenthesized | ascribed =>
    rw [Lowering.node, hl] at h
    cases h
  | template | function =>
    simp only [Lowering.node, Lowering.leaf, hl] at h
    cases h
  | member | assignment | logical | other => cases h
  | _ => rfl

theorem items_eq_ok {x : Extent} {elements : List (Element l.source)} {items : List Node}
    (h : l.items x elements = .ok items) :
    List.Forall₂ (fun element item => ∃ e, element = .item e ∧ l.node e = .ok item) elements items := by
  induction elements generalizing items with
  | nil =>
    cases h
    exact .nil
  | cons element elements ih =>
    cases element with
    | item e =>
      obtain ⟨item, hitem, hrest⟩ := bind_eq_ok.1 h
      obtain ⟨others, hothers, heq⟩ := bind_eq_ok.1 hrest
      cases heq
      exact .cons ⟨e, rfl, hitem⟩ (ih hothers)
    | hole | spread => cases h

theorem node_identifier {name : String} {x : Extent} {node : Node}
    (h : l.node (.identifier name x) = .ok node) :
    ∃ d, l.number? (.identifier name x) = some d ∧ l.bare (.number d) x = node := by
  simp only [Lowering.node, Lowering.leaf] at h
  split at h
  · exact ⟨_, ‹_›, Except.ok.inj h⟩
  · cases h

/-- A key with its value that is lowered to a pair. -/
def LowersPair (l : Lowering) (property : Property l.source) (pair : Key × Node) : Prop :=
  ∃ key keyExtent e x, property = .pair key keyExtent e x ∧ l.keyText? key = some pair.1.text ∧
    pair.1.span = l.span keyExtent ∧ l.node e = .ok pair.2

theorem pairs_eq_ok {properties : List (Property l.source)} {pairs : List (Key × Node)}
    (h : l.pairs properties = .ok pairs) : List.Forall₂ (LowersPair l) properties pairs := by
  induction properties generalizing pairs with
  | nil =>
    cases h
    exact .nil
  | cons property properties ih =>
    cases property with
    | pair key keyExtent value x =>
      obtain ⟨text, node, others, hkey, hnode, hothers, rfl⟩ := pairs_cons_eq_ok h
      exact .cons ⟨key, keyExtent, value, x, rfl, hkey, rfl, hnode⟩ (ih hothers)
    | spread | shorthand | computed | method => cases h

theorem stringLiteral?_eq_some {literal : StringLiteral source} {s : ReaderState source}
    (h : s.stringLiteral? = some literal) :
    s.token.kind = .string literal.value ∧ literal.extent = ⟨s.token.start, s.token.stop⟩ := by
  unfold ReaderState.stringLiteral? at h
  split at h
  · cases h
    exact ⟨‹_›, rfl⟩
  · cases h

/-- Values of data are read as they stand in the text, and lowered to nodes in their places. -/
abbrev ValuesSound (l : Lowering) (setting : Setting l.source) (r : Reader l.source (Expr l.source)) : Prop :=
  ReadsSound setting r (fun e node => l.node e = .ok node) (IsValue l.source)

/-- A token that is or names a number is lowered to it. -/
theorem OperandRun.of_number? {d : Double} (h : OperandRun go setting s e s')
    (hd : l.number? e = some d) : numberOf? s.token.kind = some d ∧ s' = s.next setting := by
  cases h with
  | number kind =>
    cases hd
    rw [kind]
    exact ⟨rfl, rfl⟩
  | identifier kind =>
    refine ⟨?_, rfl⟩
    rw [kind]
    unfold Lowering.number? at hd
    split at hd
    · rename_i heq
      cases heq
    · rename_i heq
      cases heq
      exact hd
    · rename_i heq
      cases heq
      exact hd
    · rename_i heq
      cases heq
    · cases hd
  | _ => cases hd

/-- An operand of one token is read as what the token stands for. -/
theorem next_sound {node : Node} (hclean : (s.next setting).Clean) (hdata : isDataKind s.token.kind = true)
    (hvalue : IsToken s.token.text s.token.kind s.rest → IsValue l.source s.token.text node s.rest) :
    s.Clean ∧ (s.next setting).IsCut ∧
      (s.IsCut → ∃ rest, (s.next setting).After rest ∧ IsValue l.source s.token.text node rest) :=
  ⟨hclean.of_next, next_isCut setting s, fun hcut =>
    ⟨s.rest, next_after hclean, hvalue (hclean.of_next.isToken hcut rfl hdata)⟩⟩

theorem element_sound (hgo : ∀ setting : Setting l.source, ValuesSound l setting go.assignment) :
    ReadsSound setting (element go) (fun element item => ∃ e, element = .item e ∧ l.node e = .ok item)
      (IsValue l.source) := by
  rintro s _ s' node hrun ⟨e, rfl, hnode⟩ hclean
  exact hgo _ (runs_withIn.1 (element_of_item hrun)) hnode hclean

variable (hindex : l.index = .ofText l.source)
include hindex

theorem bare_sound {node : Node} {value : ScalarValue} (hclean : (s.next setting).Clean)
    (hbare : bareOf? s.token.kind = some value)
    (hnode : l.bare value ⟨s.token.start, s.token.stop⟩ = node) :
    s.Clean ∧ (s.next setting).IsCut ∧
      (s.IsCut → ∃ rest, (s.next setting).After rest ∧ IsValue l.source s.token.text node rest) := by
  subst hnode
  refine next_sound hclean (isDataKind_of_bareOf? hbare) fun htoken => ?_
  rw [Lowering.bare, span_token hindex]
  exact .bare htoken hbare

theorem string_sound {literal : StringLiteral l.source} (hclean : (s.next setting).Clean)
    (hliteral : s.stringLiteral? = some literal) :
    s.Clean ∧ (s.next setting).IsCut ∧ (s.IsCut → ∃ rest, (s.next setting).After rest ∧
      IsValue l.source s.token.text (l.string literal.value literal.extent) rest) := by
  obtain ⟨hkind, hextent⟩ := stringLiteral?_eq_some hliteral
  refine next_sound hclean (by rw [hkind]; rfl) fun htoken => ?_
  rw [hkind] at htoken
  have hstart : l.index.position (s.token.start + 1) = placeIn l.source s.token.text.tail := by
    rw [s.stands.start, hindex, placeIn, htoken.offset_tail s.stands.inSource]
    rfl
  rw [Lowering.string, hextent, span_token hindex, hstart]
  exact .string htoken

variable (hl : l.dialect = .data) (hgo : ∀ setting : Setting l.source, ValuesSound l setting go.assignment)
include hl hgo

theorem property_sound : ReadsSound setting (property go) (LowersPair l) (IsEntry l.source) := by
  rintro s _ s' ⟨⟨text, span⟩, node⟩ hrun ⟨key, keyExtent, e, x, rfl, hkey, rfl, hnode⟩ hclean
  obtain ⟨s₁, hreads, hcolon, hvalue⟩ := property_of_pair hrun
  obtain ⟨hclean₁, hcut', hsound⟩ := hgo _ (runs_withIn.1 hvalue) hnode hclean
  rcases propertyKey_runs hreads with ⟨word, hword, rfl, rfl⟩ | ⟨d, rfl⟩ | rfl
  · have hnames : keyTextOf? s.token.kind = some text := by
      rcases hword with ⟨hkind, rfl⟩ | ⟨hkind, rfl⟩
      · rw [hkind]
        exact hkey
      · rw [hkind]
        exact hkey
    refine ⟨hclean₁.of_next.of_next, hcut', fun hcut => ?_⟩
    obtain ⟨rest, hafter, hholds⟩ := hsound (next_isCut _ _)
    have htoken := hclean₁.of_next.of_next.isToken hcut rfl (isDataKind_of_keyTextOf? hnames)
    have hcolon' := hclean₁.of_next.isToken (next_isCut _ _) hcolon rfl
    refine ⟨rest, hafter, ?_⟩
    rw [span_token hindex]
    exact .intro htoken hnames ⟨_, next_leads hclean₁.of_next, hcolon'⟩ (next_leads hclean₁) hholds
  · simp only [Lowering.keyText?, hl] at hkey
    cases hkey
  · cases hkey

theorem operand_sound {node : Node} (h : OperandRun go setting s e s') (hnode : l.node e = .ok node)
    (hclean : s'.Clean) :
    s.Clean ∧ s'.IsCut ∧ (s.IsCut → ∃ rest, s'.After rest ∧ IsValue l.source s.token.text node rest) := by
  cases h with
  | string reads =>
    cases hnode
    exact string_sound hindex hclean reads
  | number kind =>
    cases hnode
    exact bare_sound hindex hclean (by rw [kind]; rfl) rfl
  | bool b kind =>
    cases hnode
    exact bare_sound hindex hclean (by rw [kind]; cases b <;> rfl) rfl
  | null kind =>
    cases hnode
    exact bare_sound hindex hclean (by rw [kind]; rfl) rfl
  | identifier kind =>
    obtain ⟨d, hd, rfl⟩ := node_identifier hnode
    have hrun : OperandRun go setting s _ (s.next setting) := .identifier kind
    have hnumber := hrun.of_number? hd
    exact bare_sound hindex hclean (bareOf?_of_numberOf? hnumber.1) rfl
  | array opening inner close =>
    obtain ⟨items, hitems, heq⟩ := bind_eq_ok.1 hnode
    cases heq
    obtain ⟨hclean₁, hlisted⟩ :=
      commaList_sound rfl (element_sound hgo) inner (items_eq_ok hitems) close hclean.of_next
    refine ⟨hclean₁.of_next, next_isCut _ _, fun hcut => ⟨_, next_after hclean, ?_⟩⟩
    rw [span_eq hindex s.stands.start (ReaderState.stands _).stop]
    exact .sequence (hclean₁.of_next.isToken hcut opening rfl)
      ((hlisted (next_isCut _ _)).2 (next_leads hclean₁))
  | object opening inner close =>
    obtain ⟨pairs, hpairs, heq⟩ := bind_eq_ok.1 hnode
    cases heq
    obtain ⟨hclean₁, hlisted⟩ :=
      commaList_sound rfl (property_sound hindex hl hgo) inner (pairs_eq_ok hpairs) close hclean.of_next
    refine ⟨hclean₁.of_next, next_isCut _ _, fun hcut => ⟨_, next_after hclean, ?_⟩⟩
    rw [span_eq hindex s.stands.start (ReaderState.stands _).stop]
    exact .mapping (hclean₁.of_next.isToken hcut opening rfl)
      ((hlisted (next_isCut _ _)).2 (next_leads hclean₁))

end

/-! ## Whole texts -/

section

variable {l : Lowering} {e : Expr l.source}

theorem isData_of_number? {d : Double} (hl : l.dialect = .data) (h : l.number? e = some d) :
    e.isData = true ∧ ∀ negative argument x, e ≠ .signed negative argument x := by
  cases e with
  | number | identifier => exact ⟨rfl, nofun⟩
  | parenthesized inner x =>
    rw [Lowering.number?, if_neg (by rw [hl]; nofun)] at h
    cases h
  | _ => cases h

theorem node_signed {negative : Bool} {x : Extent} {node : Node}
    (h : l.node (.signed negative e x) = .ok node) :
    ∃ d, l.number? e = some d ∧ l.bare (.number (if negative then d.neg else d)) x = node := by
  simp only [Lowering.node, Lowering.leaf] at h
  split at h
  · exact ⟨_, ‹_›, Except.ok.inj h⟩
  · cases h

/-- Whatever is read as data is a value of its text, with its parts in their places. -/
theorem assignment_sound (hindex : l.index = .ofText l.source) (hl : l.dialect = .data) (depth : Nat)
    (setting : Setting l.source) : ValuesSound l setting (readers depth).assignment := by
  induction depth using Nat.strongRecOn generalizing setting with
  | ind depth ih =>
    intro s e s' node hrun hnode hclean
    have he := isData_of_node hl hnode
    obtain ⟨d₁, hd₁, hunary⟩ := readers_assignment_of_data hrun he
    obtain ⟨d₂, hd₂, hprimary | ⟨negative, argument, hsign, hargument, rfl⟩⟩ :=
      readers_unary_of_data hunary he hclean.faults
    · exact operand_sound hindex hl (ih d₂ (Nat.lt_trans hd₂ hd₁)) (primary_of_data hprimary he) hnode hclean
    · obtain ⟨d, hd, rfl⟩ := node_signed hnode
      obtain ⟨hdata, hunsigned⟩ := isData_of_number? hl hd
      obtain ⟨d₃, -, hprimary | ⟨_, _, _, _, hsigned⟩⟩ :=
        readers_unary_of_data hargument hdata hclean.faults
      · obtain ⟨hnumber, rfl⟩ := (primary_of_data hprimary hdata).of_number? hd
        have hnext := next_isCut setting s
        refine ⟨hclean.of_next.of_next, next_isCut _ _, fun hcut => ⟨_, next_after hclean, ?_⟩⟩
        rw [Lowering.bare, next_previousStop, span_eq hindex s.stands.start (s.next setting).stands.stop]
        exact .signed negative (hclean.of_next.of_next.isToken hcut hsign (isDataKind_sign negative))
          (next_leads hclean.of_next)
            (hclean.of_next.isToken hnext rfl (isDataKind_of_numberOf? hnumber)) hnumber
      · exact absurd hsigned (hunsigned _ _ _)

theorem expression_sound (hindex : l.index = .ofText l.source) (hl : l.dialect = .data) (depth : Nat)
    (setting : Setting l.source) : ValuesSound l setting (readers depth).expression := by
  intro s e s' node hrun hnode hclean
  cases depth with
  | zero => exact absurd hrun runs_unexpected
  | succ d =>
    have hassignment := expression_of_data hrun (isData_of_node hl hnode)
    exact assignment_sound hindex hl d setting hassignment hnode hclean

theorem clean_of_allFaults {source : List Char} {s : ReaderState source} (h : s.allFaults = []) :
    s.Clean := by
  simp only [ReaderState.allFaults, List.append_eq_nil_iff, Array.toList_eq_nil_iff] at h
  exact ⟨h.1.1, h.1.2⟩

theorem readExpression_sound (hindex : l.index = .ofText l.source) (hl : l.dialect = .data) {node : Node}
    (h : readExpression l.source = .ok e) (hnode : l.node e = .ok node) :
    byteLength l.source ≤ sizeLimit ∧
      ∃ text rest, Leads l.source text ∧ IsValue l.source text node rest := by
  unfold readExpression at h
  split at h
  · cases h
  · rename_i e' s hrun
    split at h
    · cases h
    · rename_i hfaults
      cases h
      unfold run at hrun
      dsimp only at hrun
      split at hrun
      · rename_i hsize
        obtain ⟨hclean, -, hsound⟩ :=
          expression_sound hindex hl _ _ hrun hnode (clean_of_allFaults hfaults)
        obtain ⟨rest, -, hvalue⟩ := hsound (ofText_isCut _)
        exact ⟨hsize, _, rest, ofText_leads hclean, hvalue⟩
      · cases hrun

/-- A data text that is read is a value behind blanks and comments, with its parts in their places. -/
theorem readData_sound {source filename : String} {document : Document}
    (h : readData source filename = .ok document) :
    byteLength source.toList ≤ sizeLimit ∧
      ∃ text rest, Leads source.toList text ∧ IsValue source.toList text document.root rest := by
  simp only [readData] at h
  split at h
  · cases h
  · rename_i e hread
    split at h
    · cases h
    · obtain ⟨root, hnode, heq⟩ := bind_eq_ok.1 h
      cases heq
      exact readExpression_sound (l := .new source filename .data) rfl rfl hread hnode

end

end MessageCatalog.Script
