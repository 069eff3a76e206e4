/-
Values are read from the pieces they are written in. Data is written in the tokens of its literals;
the code of a function stands for itself.
-/
import MessageCatalog.Proofs.Resource.Content
import MessageCatalog.Proofs.Script.Operand
import MessageCatalog.Script.Resource
import Mathlib.Data.List.Forall2

namespace MessageCatalog.Script

open MessageCatalog.Text Reader Expression

/-! ## Lists between commas -/

section

variable {source : List Char} {setting : Setting source} {α β : Type} {pieces : β → List Piece}
  {item : Reader source α} {closing : String} {reads : β → α → Prop}

/-- The items behind the first one, each behind a comma. -/
def tailPieces (pieces : β → List Piece) (xs : List β) : List Piece :=
  xs.flatMap fun x => Piece.punctuator "," :: pieces x

def listPieces (pieces : β → List Piece) : List β → List Piece
  | [] => []
  | x :: xs => pieces x ++ tailPieces pieces xs

/-- Kinds of token that start a value or a key. -/
def startsItem (k : TokenKind) : Bool := startsData k || startsFunction k

/-- An item is read in front of what can close it. -/
def ReadsItem (setting : Setting source) (pieces : β → List Piece) (item : Reader source α)
    (reads : β → α → Prop) (x : β) : Prop :=
  ∀ {s : ReaderState source} {ps : List Piece}, s.At setting.size (pieces x ++ ps) → Closes ps →
    startsItem s.token.kind = true ∧
      ∃ a s', item setting s = .ok (a, s') ∧ s'.Behind setting.size ps ∧ reads x a

theorem tailPieces_cons (x : β) (xs : List β) : tailPieces pieces (x :: xs) =
    Piece.punctuator "," :: (pieces x ++ tailPieces pieces xs) := rfl

theorem length_le_tailPieces (pieces : β → List Piece) (xs : List β) :
    xs.length ≤ (tailPieces pieces xs).length := by
  induction xs with
  | nil => exact Nat.zero_le _
  | cons x xs ih =>
    rw [tailPieces_cons, List.length_cons, List.length_cons, List.length_append]
    omega

theorem sublist_listPieces {x : β} : ∀ {xs : List β}, x ∈ xs → (pieces x).Sublist (listPieces pieces xs)
  | y :: ys, h => by
    rw [listPieces]
    rcases List.mem_cons.1 h with rfl | h
    · exact List.sublist_append_left _ _
    · have htail : (pieces x).Sublist (tailPieces pieces ys) :=
        (List.sublist_cons_self _ _).trans (List.sublist_flatten_of_mem (List.mem_map_of_mem h))
      exact htail.trans (List.sublist_append_right _ _)

theorem depthOf_le_listPieces (pieces : β → List Piece) {x : β} {xs : List β} (h : x ∈ xs) :
    depthOf (pieces x) ≤ depthOf (listPieces pieces xs) :=
  depthOf_le_of_sublist (sublist_listPieces h)

theorem closes_tailPieces (xs : List β) (hclosing : closing = "]" ∨ closing = "\x7d") (ps : List Piece) :
    Closes (tailPieces pieces xs ++ Piece.punctuator closing :: ps) := by
  cases xs with
  | nil => rcases hclosing with rfl | rfl <;> simp [tailPieces, Closes]
  | cons x xs => simp [tailPieces, Closes]

theorem not_closing_of_startsItem {k : TokenKind} (h : startsItem k = true)
    (hclosing : closing = "]" ∨ closing = "\x7d") : k ≠ .punctuator closing := by
  rintro rfl
  rcases hclosing with rfl | rfl <;> cases h

theorem atListEnd_inside {s : ReaderState source} (hclosing : s.token.kind ≠ .punctuator closing)
    (hgoes : s.token.kind ≠ .endOfText ∧ s.token.kind ≠ .unknown) :
    atListEnd closing setting s = .ok (false, s) := by
  cases hkind : s.token.kind with
  | punctuator p =>
    rw [hkind] at hclosing
    have hp : p ≠ closing := fun h => hclosing (congrArg _ h)
    simp [atListEnd, hkind, hp]
  | endOfText => exact absurd hkind hgoes.1
  | unknown => exact absurd hkind hgoes.2
  | _ => simp [atListEnd, hkind]

theorem atListEnd_item {s : ReaderState source} (hs : startsItem s.token.kind = true)
    (hclosing : closing = "]" ∨ closing = "\x7d") : atListEnd closing setting s = .ok (false, s) := by
  refine atListEnd_inside (not_closing_of_startsItem hs hclosing) ?_
  constructor
  all_goals
    intro hkind
    rw [hkind] at hs
    cases hs

theorem repeatWhile_items (hclosing : closing = "]" ∨ closing = "\x7d") :
    ∀ {xs : List β} {n : Nat} (items : Array α) {s : ReaderState source} {ps : List Piece},
      xs.length < n → (∀ x ∈ xs, ReadsItem setting pieces item reads x) →
      s.At setting.size (tailPieces pieces xs ++ Piece.punctuator closing :: ps) →
      ∃ as s', repeatWhile (listRound closing item) n items setting s =
          .ok ((items.toList ++ as).toArray, s') ∧
        s'.At setting.size (Piece.punctuator closing :: ps) ∧ List.Forall₂ reads xs as
  | _, 0, _, _, _, hn, _, _ => absurd hn (Nat.not_lt_zero _)
  | [], n + 1, items, s, ps, _, _, hs => by
    have hkind : s.token.kind = .punctuator closing := hs.kind_eq
    refine ⟨[], s, ?_, hs, .nil⟩
    simp [repeatWhile, listRound, atListEnd, hkind]
  -- a round takes a comma and an item, and what closes the list stops the rounds behind the last one
  | x :: xs, n + 1, items, s, ps, hn, hitems, hs => by
    obtain ⟨hx, hxs⟩ := List.forall_mem_cons.1 hitems
    rw [tailPieces_cons, List.cons_append, List.append_assoc] at hs
    have hcomma := hs.kind_eq
    have hne : "," ≠ closing := by rcases hclosing with rfl | rfl <;> decide
    obtain ⟨hstart, a, s₁, hitem, hbehind, hreads⟩ := hx hs.next.at (closes_tailPieces xs hclosing ps)
    obtain ⟨as, s', hrest, hs', hall⟩ := repeatWhile_items hclosing (items.push a)
      (Nat.lt_of_succ_lt_succ hn) hxs hbehind.at
    refine ⟨a :: as, s', ?_, hs', .cons hreads hall⟩
    have hround : listRound closing item items setting s = .ok ((items.push a, true), s₁) := by
      have hgoes := not_closing_of_startsItem hstart hclosing
      simp [listRound, atListEnd, hcomma, hne, expect, hgoes, hitem]
    simp [repeatWhile, hround, hrest]

/-- A list between commas is read up to what closes it. -/
theorem commaList_items (hclosing : closing = "]" ∨ closing = "\x7d") {xs : List β}
    {s : ReaderState source} {ps : List Piece}
    (hitems : ∀ x ∈ xs, ReadsItem setting pieces item reads x)
    (hs : s.At setting.size (listPieces pieces xs ++ Piece.punctuator closing :: ps)) :
    ∃ as s', commaList closing item setting s = .ok (as, s') ∧
      s'.At setting.size (Piece.punctuator closing :: ps) ∧ List.Forall₂ reads xs as := by
  cases xs with
  | nil =>
    have hkind : s.token.kind = .punctuator closing := hs.kind_eq
    refine ⟨[], s, ?_, hs, .nil⟩
    simp [commaList, atListEnd, hkind]
  | cons x xs =>
    obtain ⟨hx, hxs⟩ := List.forall_mem_cons.1 hitems
    -- each of these items has a comma in front, so the text has bytes for all the rounds
    have hrounds : xs.length < setting.size + 2 := by
      have htail := length_le_tailPieces pieces xs
      have hsize := hs.length_le
      rw [listPieces, List.length_append, List.length_append] at hsize
      omega
    rw [listPieces, List.append_assoc] at hs
    obtain ⟨hstart, a, s₁, hitem, hbehind, hreads⟩ := hx hs (closes_tailPieces xs hclosing ps)
    obtain ⟨as, s', hrest, hs', hall⟩ := repeatWhile_items hclosing #[a] hrounds hxs hbehind.at
    refine ⟨a :: as, s', ?_, hs', .cons hreads hall⟩
    simp [commaList, atListEnd_item hstart hclosing, hitem, loop, hrest]

end

/-! ## Pieces of a value -/

/-- A negative number is written behind its sign. -/
def numberPieces : Double → List Piece
  | .nan => [.token (.name "NaN")]
  | .infinite false => [.token (.name "Infinity")]
  | .infinite true => [.punctuator "-", .token (.name "Infinity")]
  | .finite false x => [.token (.number (.finite false x))]
  | .finite true x => [.punctuator "-", .token (.number (.finite false x))]

def scalarPieces : ScalarValue → List Piece
  | .string s => [.token (.string s)]
  | .number d => numberPieces d
  | .bool b => [.token (.name (if b then "true" else "false"))]
  | .null => [.token (.name "null")]

mutual

/-- The pieces that a value is written in. -/
def contentPieces : Content → List Piece
  | .mapping pairs => .punctuator "\x7b" :: (pairPieces pairs ++ [.punctuator "\x7d"])
  | .sequence items => .punctuator "[" :: (itemPieces items ++ [.punctuator "]"])
  | .scalar value _ => scalarPieces value
  | .verbatim code => [.code code.toList]

def pairPieces : List (String × Content) → List Piece
  | [] => []
  | (key, value) :: rest =>
    .token (.string key) :: .punctuator ":" :: (contentPieces value ++ morePairPieces rest)

/-- The pairs behind the first one, each behind a comma. -/
def morePairPieces : List (String × Content) → List Piece
  | [] => []
  | (key, value) :: rest =>
    .punctuator "," :: .token (.string key) :: .punctuator ":" ::
      (contentPieces value ++ morePairPieces rest)

def itemPieces : List Content → List Piece
  | [] => []
  | item :: rest => contentPieces item ++ moreItemPieces rest

def moreItemPieces : List Content → List Piece
  | [] => []
  | item :: rest => .punctuator "," :: (contentPieces item ++ moreItemPieces rest)

end

def entryPieces (pair : String × Content) : List Piece :=
  .token (.string pair.1) :: .punctuator ":" :: contentPieces pair.2

theorem entryPieces_sublist (pair : String × Content) :
    (contentPieces pair.2).Sublist (entryPieces pair) :=
  (List.sublist_cons_self _ _).trans (List.sublist_cons_self _ _)

theorem four_le_depthOf_scalarPieces (value : ScalarValue) : 4 ≤ depthOf (scalarPieces value) := by
  cases value with
  | number d =>
    rw [scalarPieces]
    match d with
    | .nan | .infinite true | .infinite false | .finite true _ | .finite false _ =>
      simp [numberPieces, Piece.depth]
  | _ => simp [scalarPieces, Piece.depth]

theorem moreItemPieces_eq (items : List Content) :
    moreItemPieces items = tailPieces contentPieces items := by
  induction items with
  | nil => rfl
  | cons item rest ih => rw [moreItemPieces, ih, tailPieces_cons]

theorem itemPieces_eq (items : List Content) : itemPieces items = listPieces contentPieces items := by
  cases items with
  | nil => rfl
  | cons item rest => rw [itemPieces, listPieces, moreItemPieces_eq]

theorem morePairPieces_eq (pairs : List (String × Content)) :
    morePairPieces pairs = tailPieces entryPieces pairs := by
  induction pairs with
  | nil => rfl
  | cons pair rest ih =>
    rw [morePairPieces, ih, tailPieces_cons]
    rfl

theorem pairPieces_eq (pairs : List (String × Content)) :
    pairPieces pairs = listPieces entryPieces pairs := by
  cases pairs with
  | nil => rfl
  | cons pair rest =>
    rw [pairPieces, listPieces, morePairPieces_eq]
    rfl

/-! ## Operands -/

section

variable {source : List Char} {setting : Setting source} {s s' : ReaderState source}
  {go : Readers source} {e : Expr source}

theorem stringLiteral?_eq {value : String} (h : s.token.kind = .string value) :
    ∃ literal, s.stringLiteral? = some literal ∧ literal.value = value ∧
      literal.extent = ⟨s.token.start, s.token.stop⟩ := by
  unfold ReaderState.stringLiteral?
  split
  · rename_i value' h'
    refine ⟨_, rfl, ?_, rfl⟩
    rw [h] at h'
    cases h'
    rfl
  · rename_i hnone
    exact absurd h (hnone value)

theorem primary_number {d : Double} (h : s.token.kind = .number d) :
    primary go setting s = .ok (.number d ⟨s.token.start, s.token.stop⟩, s.next setting) := by
  simp [primary, h]

theorem primary_bool {b : Bool} (h : s.token.kind = .name (if b then "true" else "false")) :
    primary go setting s = .ok (.bool b ⟨s.token.start, s.token.stop⟩, s.next setting) := by
  cases b <;> simp [primary, h]

theorem primary_null (h : s.token.kind = .name "null") :
    primary go setting s = .ok (.null ⟨s.token.start, s.token.stop⟩, s.next setting) := by
  simp [primary, h]

/-- The global names of numbers are read as identifiers. -/
theorem primary_identifier {name : String} (h : s.token.kind = .name name)
    (hname : name = "NaN" ∨ name = "Infinity") :
    primary go setting s = .ok (.identifier name ⟨s.token.start, s.token.stop⟩, s.next setting) := by
  rcases hname with rfl | rfl <;>
    simp [primary, h, isAsyncFunction, isIdentifierWord, reservedWords, isOperatorWord]

theorem primary_bracket (h : s.token.kind = .punctuator "[") :
    primary go setting s = arrayLiteral go setting s := by
  simp [primary, h]

theorem primary_brace (h : s.token.kind = .punctuator "\x7b") :
    primary go setting s = objectLiteral go setting s := by
  simp [primary, h]

/-- What is read as an operand is read as an expression. -/
theorem readers_operand {depth : Nat} (hs : startsOperand s.token.kind = true)
    (hprimary : primary (readers depth) setting s = .ok (e, s')) (hk : s'.token.kind ∈ closingKinds) :
    (readers (depth + 3)).assignment setting s = .ok (e, s') := by
  have hdata : startsData s.token.kind = true := Bool.or_eq_true_iff.2 (.inl hs)
  have hprivate : s.token.kind ≠ .privateName := ne_of_startsOperand hs _ rfl
  have hunary : (readers (depth + 1)).unary setting s = .ok (e, s') := unary_operand hs hprimary hk
  have hbinary : readers (depth + 2) (.binary 0) setting s = .ok (e, s') :=
    binary_closing hprivate hunary hk 0
  exact assignment_data hdata hbinary hk true

/-- An operand behind its sign. -/
theorem readers_sign {depth : Nat} {negative : Bool}
    (hs : s.token.kind = .punctuator (if negative then "-" else "+"))
    (hs' : startsOperand (s.next setting).token.kind = true)
    (hprimary : primary (readers depth) setting (s.next setting) = .ok (e, s'))
    (hk : s'.token.kind ∈ closingKinds) :
    (readers (depth + 4)).assignment setting s =
      .ok (.signed negative e ⟨s.token.start, s'.previousStop⟩, s') := by
  have hname : ∀ w, s.token.kind ≠ .name w := by simp [hs]
  have hprivate : s.token.kind ≠ .privateName := by simp [hs]
  have harrow : likelyArrow setting s = .ok (.no, s) := by
    refine likelyArrow_of_ne ?_ ?_ (hname _) <;> cases negative <;> simp [hs]
  have hargument : (readers (depth + 1)).unary setting (s.next setting) = .ok (e, s') :=
    unary_operand hs' hprimary hk
  have hunary : (readers (depth + 2)).unary setting s =
      .ok (.signed negative e ⟨s.token.start, s'.previousStop⟩, s') := unary_sign hs hargument hk
  have hbinary : readers (depth + 3) (.binary 0) setting s =
      .ok (.signed negative e ⟨s.token.start, s'.previousStop⟩, s') :=
    binary_closing hprivate hunary hk 0
  exact assignment_closing (hname _) (hname _) harrow hbinary hk true

theorem run_withIn {α : Type} {r : Reader source α} (h : setting.around.allowIn = true) :
    withIn r setting s = r setting s := by
  obtain ⟨size, hsize, around⟩ := setting
  cases around
  cases h
  rfl

theorem ne_of_startsItem {k k' : TokenKind} (h : startsItem k = true) (h' : startsItem k' = false) :
    k ≠ k' := by
  rintro rfl
  rw [h'] at h
  cases h

theorem element_item (hallow : setting.around.allowIn = true) (hs : startsItem s.token.kind = true)
    (hvalue : go.assignment setting s = .ok (e, s')) : element go setting s = .ok (.item e, s') := by
  have hcomma : s.token.kind ≠ .punctuator "," := ne_of_startsItem hs rfl
  have hend : s.token.kind ≠ .punctuator "]" := ne_of_startsItem hs rfl
  have hrest : s.token.kind ≠ .punctuator "..." := ne_of_startsItem hs rfl
  simp [element, hcomma, hend, run_eat_of_ne hrest, run_withIn hallow, hvalue]

theorem isPropertyModifier_of_ne {word : String} (h : s.token.kind ≠ .name word) :
    isPropertyModifier word setting s = .ok (false, s) := by
  simp [isPropertyModifier, h]

theorem propertyKey_string {key : String} (h : s.token.kind = .string key) :
    propertyKey go setting s =
      .ok ((.string key, ⟨s.token.start, s.token.stop⟩, false), s.next setting) := by
  simp [propertyKey, h]

/-- A property with a string as its key. -/
theorem property_string {key : String} {ps : List Piece} {s' : ReaderState source}
    (hallow : setting.around.allowIn = true)
    (hs : s.At setting.size (.token (.string key) :: .punctuator ":" :: ps))
    (hvalue : go.assignment setting ((s.next setting).next setting) = .ok (e, s')) :
    property go setting s =
      .ok (.pair (.string key) ⟨s.token.start, s.token.stop⟩ e ⟨s.token.start, s'.previousStop⟩, s') := by
  have hkey : s.token.kind = .string key := hs.kind_eq
  have hcolon : (s.next setting).token.kind = .punctuator ":" := hs.next.at.kind_eq
  have hword : ∀ word, s.token.kind ≠ .name word := by simp [hkey]
  have hmark : ∀ text, s.token.kind ≠ .punctuator text := by simp [hkey]
  -- with a colon behind the key it is neither a method nor a shorthand
  have hbehind : ∀ text, text ≠ ":" → (s.next setting).token.kind ≠ .punctuator text := by
    rintro text hne h
    exact hne (TokenKind.punctuator.inj (h.symm.trans hcolon))
  have hcall := hbehind "(" (by decide)
  have htyped := hbehind "<" (by decide)
  unfold property
  simp [run_eat_of_ne (hmark _), isPropertyModifier_of_ne (hword _), hkey, propertyKey_string hkey,
    hcall, htyped, run_expect hcolon, run_withIn hallow, hvalue]

end

/-! ## Lowering -/

/-- An expression is lowered to a node of a content. -/
def Lowers (l : Lowering) (c : Content) (e : Expr l.source) : Prop :=
  ∃ n, l.node e = .ok n ∧ n.content = c

section

variable {l : Lowering}

theorem lowers_items {cs : List Content} {elements : List (Element l.source)}
    (h : List.Forall₂ (fun c element => ∃ e, element = .item e ∧ Lowers l c e) cs elements) (x : Extent) :
    ∃ items, l.items x elements = .ok items ∧ itemContents items = cs := by
  induction h with
  | nil => exact ⟨[], rfl, rfl⟩
  | cons hitem _ ih =>
    obtain ⟨e, rfl, n, hnode, rfl⟩ := hitem
    obtain ⟨items, hitems, rfl⟩ := ih
    refine ⟨n :: items, ?_, rfl⟩
    rw [Lowering.items, hnode, hitems]
    rfl

theorem lowers_pairs {cs : List (String × Content)} {properties : List (Property l.source)}
    (h : List.Forall₂ (fun pair property => ∃ keyExtent e x,
      property = .pair (.string pair.1) keyExtent e x ∧ Lowers l pair.2 e) cs properties) :
    ∃ pairs, l.pairs properties = .ok pairs ∧ pairContents pairs = cs := by
  induction h with
  | nil => exact ⟨[], rfl, rfl⟩
  | @cons pair _ _ _ hpair _ ih =>
    obtain ⟨keyExtent, e, x, rfl, n, hnode, hcontent⟩ := hpair
    obtain ⟨pairs, hpairs, rfl⟩ := ih
    refine ⟨(⟨pair.1, l.span keyExtent⟩, n) :: pairs, ?_, ?_⟩
    · simp only [Lowering.pairs, Lowering.keyText?, hnode, hpairs]
      rfl
    · rw [pairContents, hcontent]

end

/-! ## Values -/

/-- In front of a comma or a closing bracket a code is read as one function, from its start to its end. -/
def ReadsAsFunction (typed : Bool) (code : List Char) : Prop :=
  ∀ {source : List Char} {setting : Setting source} {s : ReaderState source} {cs rest : List Char}
    {ps : List Piece} {depth : Nat}, setting.around = { typed } → s.Faces setting.size cs →
    Leads cs (code ++ rest) → Cuts (offsetIn setting.size) rest ps → Closes ps →
    4 * code.length ≤ depth →
    ∃ s', (readers depth).assignment setting s =
        .ok (.function ⟨s.token.start, offsetIn setting.size rest⟩, s') ∧
      s'.Faces setting.size rest ∧ s'.previousStop = offsetIn setting.size rest

/-- A code that is read as a function; data holds none. -/
def ReadableCode (l : Lowering) (typed : Bool) (code : String) : Prop :=
  l.dialect = .module ∧ ReadsAsFunction typed code.toList

/-- What can follow a value: also the end of the text, but not behind the code of a function. -/
def Follows (ps : List Piece) : Content → Prop
  | .verbatim _ => Closes ps
  | _ => ps = [] ∨ Closes ps

theorem follows_of_closes {ps : List Piece} (h : Closes ps) (c : Content) : Follows ps c := by
  cases c with
  | verbatim code => exact h
  | _ => exact .inr h

theorem Follows.ends {ps : List Piece} {c : Content} (h : Follows ps c) : ps = [] ∨ Closes ps := by
  cases c with
  | verbatim code => exact .inr h
  | _ => exact h

/-- A reader reads a value of a content in front of what can follow it. -/
def ReadsContent (l : Lowering) (setting : Setting l.source)
    (r : Reader l.source (Expr l.source)) (c : Content) : Prop :=
  ∀ ⦃s : ReaderState l.source⦄ ⦃ps : List Piece⦄, s.At setting.size (contentPieces c ++ ps) →
    Follows ps c →
    startsItem s.token.kind = true ∧
      ∃ e s', r setting s = .ok (e, s') ∧ s'.Behind setting.size ps ∧ Lowers l c e ∧
        e.extent.stop = s'.previousStop

section

variable {l : Lowering} {setting : Setting l.source}

theorem startsItem_of_operand {k : TokenKind} (h : startsOperand k = true) : startsItem k = true := by
  simp [startsItem, startsData, h]

theorem lowers_scalar {value : ScalarValue} {e : Expr l.source} {s : Scalar}
    (hunsigned : value.unsignedZero = value) (hnode : l.node e = .ok (.scalar s))
    (hvalue : s.value = value) : Lowers l (.scalar value hunsigned) e := by
  subst hvalue
  refine ⟨_, hnode, ?_⟩
  rw [Node.content]
  congr

/-- A token is read as an operand that fills it. -/
def ReadsToken (setting : Setting l.source) (k : TokenKind) (reads : Expr l.source → Prop) : Prop :=
  startsOperand k = true ∧ ∀ {s : ReaderState l.source}, s.token.kind = k →
    ∃ e, (∀ go, primary go setting s = .ok (e, s.next setting)) ∧ e.extent.stop = s.token.stop ∧ reads e

theorem readsToken_string (value : String) : ReadsToken (l := l) setting (.string value)
    fun e => ∃ literal, e = .string literal ∧ literal.value = value := by
  refine ⟨rfl, fun h => ?_⟩
  obtain ⟨literal, hliteral, hvalue, hextent⟩ := stringLiteral?_eq h
  refine ⟨.string literal, fun go => ?_, congrArg Extent.stop hextent, literal, rfl, hvalue⟩
  simp [primary, h, hliteral]

theorem readsToken_bool (b : Bool) : ReadsToken (l := l) setting (.name (if b then "true" else "false"))
    fun e => ∃ x, e = .bool b x :=
  ⟨by cases b <;> rfl, fun h => ⟨_, fun _ => primary_bool h, rfl, _, rfl⟩⟩

theorem readsToken_null : ReadsToken (l := l) setting (.name "null") fun e => ∃ x, e = .null x :=
  ⟨rfl, fun h => ⟨_, fun _ => primary_null h, rfl, _, rfl⟩⟩

/-- An expression names a number, also behind a sign. -/
def IsNumber (l : Lowering) (d : Double) (e : Expr l.source) : Prop :=
  l.number? e = some d ∧ ∃ x, l.node e = .ok (l.bare (.number d) x)

theorem readsToken_number (d : Double) : ReadsToken (l := l) setting (.number d) (IsNumber l d) :=
  ⟨rfl, fun h => ⟨_, fun _ => primary_number h, rfl, rfl, _, rfl⟩⟩

theorem readsToken_nan : ReadsToken (l := l) setting (.name "NaN") (IsNumber l .nan) :=
  ⟨rfl, fun h => ⟨_, fun _ => primary_identifier h (.inl rfl), rfl, rfl, _, rfl⟩⟩

theorem readsToken_infinity :
    ReadsToken (l := l) setting (.name "Infinity") (IsNumber l (.infinite false)) :=
  ⟨rfl, fun h => ⟨_, fun _ => primary_identifier h (.inr rfl), rfl, rfl, _, rfl⟩⟩

theorem token_reads {k : TokenKind} {reads : Expr l.source → Prop} {c : Content} {depth : Nat}
    (hpieces : contentPieces c = [.token k]) (hdepth : 4 ≤ depth) (hreads : ReadsToken setting k reads)
    (hlowers : ∀ {e}, reads e → Lowers l c e) :
    ReadsContent l setting (readers depth).assignment c := by
  intro s ps hs hps
  obtain ⟨d, rfl⟩ := Nat.exists_eq_add_of_le' hdepth
  rw [hpieces] at hs
  have hkind := hs.kind_eq
  have hnext : (s.next setting).Behind setting.size ps := hs.next
  obtain ⟨hstarts, hprimary⟩ := hreads
  obtain ⟨e, hprimary, hstop, he⟩ := hprimary hkind
  rw [← hkind] at hstarts
  exact ⟨startsItem_of_operand hstarts, e, _,
    readers_operand hstarts (hprimary _) (hnext.at.closes hps.ends), hnext, hlowers he, hstop⟩

/-- A number behind a minus sign. -/
theorem minus_reads {k : TokenKind} {d : Double} {c : Content} {depth : Nat}
    (hpieces : contentPieces c = [.punctuator "-", .token k]) (hdepth : 4 ≤ depth)
    (hreads : ReadsToken setting k (IsNumber l d))
    (hlowers : ∀ {e} x, l.node e = .ok (l.bare (.number d.neg) x) → Lowers l c e) :
    ReadsContent l setting (readers depth).assignment c := by
  intro s ps hs hps
  obtain ⟨n, rfl⟩ := Nat.exists_eq_add_of_le' hdepth
  rw [hpieces] at hs
  have hminus : s.token.kind = .punctuator (if true then "-" else "+") := hs.kind_eq
  have hs' : (s.next setting).At setting.size (.token k :: ps) := hs.next.at
  have hkind := hs'.kind_eq
  have hnext : ((s.next setting).next setting).Behind setting.size ps := hs'.next
  obtain ⟨hstarts, hprimary⟩ := hreads
  obtain ⟨e, hprimary, hstop, hnumber, -⟩ := hprimary hkind
  rw [← hkind] at hstarts
  refine ⟨by rw [hminus]; rfl, _, _,
    readers_sign hminus hstarts (hprimary _) (hnext.at.closes hps.ends), hnext, ?_, rfl⟩
  exact hlowers _ (by simp only [Lowering.node, Lowering.leaf, hnumber]; rfl)

theorem number_reads {d : Double} (hunsigned : (ScalarValue.number d).unsignedZero = .number d)
    {depth : Nat} (hdepth : 4 ≤ depth) :
    ReadsContent l setting (readers depth).assignment (.scalar (.number d) hunsigned) := by
  -- the token names the number itself, or behind a sign the number that it negates
  have hplain : ∀ {d' : Double}, d' = d → ∀ {e}, IsNumber l d' e →
      Lowers l (.scalar (.number d) hunsigned) e := by
    rintro _ rfl e ⟨-, x, hnode⟩
    exact lowers_scalar hunsigned hnode rfl
  have hminus : ∀ {d' : Double}, d'.neg = d → ∀ {e} x, l.node e = .ok (l.bare (.number d'.neg) x) →
      Lowers l (.scalar (.number d) hunsigned) e := by
    rintro _ rfl e x hnode
    exact lowers_scalar hunsigned hnode rfl
  match d with
  | .nan => exact token_reads rfl hdepth readsToken_nan (hplain rfl)
  | .infinite false => exact token_reads rfl hdepth readsToken_infinity (hplain rfl)
  | .infinite true => exact minus_reads rfl hdepth readsToken_infinity (hminus rfl)
  | .finite false x => exact token_reads rfl hdepth (readsToken_number _) (hplain rfl)
  | .finite true x => exact minus_reads rfl hdepth (readsToken_number (.finite false x)) (hminus rfl)

theorem scalar_reads {value : ScalarValue} (hunsigned : value.unsignedZero = value) {depth : Nat}
    (hdepth : 4 ≤ depth) :
    ReadsContent l setting (readers depth).assignment (.scalar value hunsigned) := by
  cases value with
  | string text =>
    refine token_reads rfl hdepth (readsToken_string text) ?_
    rintro _ ⟨literal, rfl, rfl⟩
    exact lowers_scalar hunsigned rfl rfl
  | number d => exact number_reads hunsigned hdepth
  | bool b =>
    refine token_reads rfl hdepth (readsToken_bool b) ?_
    rintro _ ⟨x, rfl⟩
    exact lowers_scalar hunsigned rfl rfl
  | null =>
    refine token_reads rfl hdepth readsToken_null ?_
    rintro _ ⟨x, rfl⟩
    exact lowers_scalar hunsigned rfl rfl

theorem slice?_code (setting : Setting l.source) {code rest : List Char} (h : code ++ rest <:+ l.source) :
    slice? l.source (offsetIn setting.size (code ++ rest)) (offsetIn setting.size rest) = some code := by
  obtain ⟨before, hsource⟩ := h
  have hstart : offsetIn setting.size (code ++ rest) = byteLength before := by
    rw [offsetIn, setting.size_eq, ← hsource, byteLength_append, Nat.add_sub_cancel]
  have hstop : offsetIn setting.size rest = byteLength (before ++ code) := by
    rw [offsetIn, setting.size_eq, ← hsource, ← List.append_assoc, byteLength_append,
      Nat.add_sub_cancel]
  rw [hstart, hstop, ← hsource, slice?_append]

theorem code_reads {typed : Bool} {code : String} {depth : Nat} (hdepth : 4 * code.toList.length ≤ depth)
    (haround : setting.around = { typed }) (h : ReadableCode l typed code) :
    ReadsContent l setting (readers depth).assignment (.verbatim code) := by
  rintro s ps ⟨cs, hfaces, hcuts⟩ hps
  obtain ⟨hmodule, hfunction⟩ := h
  cases hcuts with
  | @code _ _ rest _ _ _ leads cut starts _ behind =>
    obtain ⟨_, _, hnext⟩ := leads.nextToken (offsetIn setting.size)
    rw [hfaces.cut, cut] at hnext
    have htoken := (Prod.mk.inj hnext).1
    obtain ⟨s', hread, hfaces', hstop⟩ := hfunction haround hfaces leads behind hps hdepth
    -- the node of a function is cut out of the source by its extent, which is all of the code
    have hslice := slice?_code setting (leads.suffix.trans hfaces.inSource)
    refine ⟨?_, .function ⟨s.token.start, offsetIn setting.size rest⟩, s', hread,
      ⟨rest, hfaces', behind, hstop⟩, ⟨l.code ⟨s.token.start, offsetIn setting.size rest⟩, ?_, ?_⟩,
      hstop.symm⟩
    · rw [htoken, startsItem, starts, Bool.or_true]
    · simp only [Lowering.node, Lowering.leaf, hmodule]
      rfl
    · rw [htoken, Lowering.code, Node.content, hslice, Option.getD_some, String.ofList_toList]

/-- The items of a list, read between brackets. -/
theorem arrayLiteral_items {go : Readers l.source} {cs : List Content} {s : ReaderState l.source}
    {ps : List Piece} (hallow : setting.around.allowIn = true)
    (hitems : ∀ c ∈ cs, ReadsContent l setting go.assignment c)
    (hs : s.At setting.size (contentPieces (.sequence cs) ++ ps)) :
    ∃ e s', arrayLiteral go setting s = .ok (e, s') ∧ s'.Behind setting.size ps ∧
      Lowers l (.sequence cs) e ∧ e.extent.stop = s'.previousStop := by
  rw [contentPieces, itemPieces_eq, List.cons_append, List.append_assoc] at hs
  have hitem : ∀ c ∈ cs, ReadsItem setting contentPieces (element go)
      (fun c element => ∃ e, element = .item e ∧ Lowers l c e) c := by
    intro c hc s ps hs hps
    obtain ⟨hstarts, e, s', hread, hbehind, hlowers, -⟩ := hitems c hc hs (follows_of_closes hps c)
    exact ⟨hstarts, .item e, s', element_item hallow hstarts hread, hbehind, e, rfl, hlowers⟩
  obtain ⟨elements, s', hread, hs', hall⟩ := commaList_items (.inl rfl) hitem hs.next.at
  obtain ⟨items, hlower, hcontent⟩ := lowers_items hall ⟨s.token.start, s'.token.stop⟩
  refine ⟨.array elements ⟨s.token.start, s'.token.stop⟩, s'.next setting, ?_, hs'.next,
    ⟨.sequence items (l.span ⟨s.token.start, s'.token.stop⟩), ?_, ?_⟩, rfl⟩
  · simp [arrayLiteral, run_expect hs.kind_eq, hread, run_expect hs'.kind_eq]
  · rw [Lowering.node, hlower]
    rfl
  · rw [Node.content, hcontent]

/-- The pairs of an object, read between braces. -/
theorem objectLiteral_pairs {go : Readers l.source} {cs : List (String × Content)}
    {s : ReaderState l.source} {ps : List Piece} (hallow : setting.around.allowIn = true)
    (hvalues : ∀ c ∈ cs, ReadsContent l setting go.assignment c.2)
    (hs : s.At setting.size (contentPieces (.mapping cs) ++ ps)) :
    ∃ e s', objectLiteral go setting s = .ok (e, s') ∧ s'.Behind setting.size ps ∧
      Lowers l (.mapping cs) e ∧ e.extent.stop = s'.previousStop := by
  rw [contentPieces, pairPieces_eq, List.cons_append, List.append_assoc] at hs
  have hpair : ∀ c ∈ cs, ReadsItem setting entryPieces (property go)
      (fun c property => ∃ keyExtent e x,
        property = .pair (.string c.1) keyExtent e x ∧ Lowers l c.2 e) c := by
    intro c hc s ps hs hps
    rw [entryPieces, List.cons_append, List.cons_append] at hs
    obtain ⟨-, e, s', hread, hbehind, hlowers, -⟩ := hvalues c hc hs.next.at.next.at
      (follows_of_closes hps c.2)
    exact ⟨by rw [hs.kind_eq]; rfl, _, s', property_string hallow hs hread, hbehind, _, e, _, rfl, hlowers⟩
  obtain ⟨properties, s', hread, hs', hall⟩ := commaList_items (.inr rfl) hpair hs.next.at
  obtain ⟨pairs, hlower, hcontent⟩ := lowers_pairs hall
  refine ⟨.object properties ⟨s.token.start, s'.token.stop⟩, s'.next setting, ?_, hs'.next,
    ⟨.mapping pairs (l.span ⟨s.token.start, s'.token.stop⟩), ?_, ?_⟩, rfl⟩
  · simp [objectLiteral, run_expect hs.kind_eq, hread, run_expect hs'.kind_eq]
  · rw [Lowering.node, hlower]
    rfl
  · rw [Node.content, hcontent]

theorem operand_reads {c : Content} {depth : Nat} {k : TokenKind} {ps : List Piece}
    (hpieces : contentPieces c = .token k :: ps) (hstarts : startsOperand k = true)
    (hprimary : ∀ {s : ReaderState l.source} {ps : List Piece}, s.At setting.size (contentPieces c ++ ps) →
      ∃ e s', primary (readers depth) setting s = .ok (e, s') ∧ s'.Behind setting.size ps ∧
        Lowers l c e ∧ e.extent.stop = s'.previousStop) :
    ReadsContent l setting (readers (depth + 3)).assignment c := by
  intro s ps' hs hps
  obtain ⟨e, s', hread, hbehind, hlowers, hstop⟩ := hprimary hs
  rw [hpieces] at hs
  have hstarts : startsOperand s.token.kind = true := by rwa [hs.kind_eq]
  exact ⟨startsItem_of_operand hstarts, e, s',
    readers_operand hstarts hread (hbehind.at.closes hps.ends), hbehind, hlowers, hstop⟩

/-- A value is read from its pieces, however deep it is nested. -/
theorem content_reads {typed : Bool} (setting : Setting l.source) (haround : setting.around = { typed }) :
    ∀ (c : Content) {depth : Nat}, depthOf (contentPieces c) ≤ depth →
      c.Every (fun _ => True) (ReadableCode l typed) →
      ReadsContent l setting (readers depth).assignment c
  | .scalar value hunsigned, depth, hdepth, _ =>
    scalar_reads hunsigned (Nat.le_trans (four_le_depthOf_scalarPieces value) hdepth)
  | .verbatim code, depth, hdepth, hreadable => by
    cases hreadable with
    | verbatim hcode => exact code_reads hdepth haround hcode
  | .sequence items, depth, hdepth, hreadable => by
    cases hreadable with
    | sequence hvalues =>
    have hpieces : contentPieces (.sequence items) =
        .punctuator "[" :: (listPieces contentPieces items ++ [.punctuator "]"]) := by
      rw [contentPieces, itemPieces_eq]
    rw [hpieces, depthOf_cons, depthOf_append] at hdepth
    -- the opening bracket pays for the readers between the value and its items
    obtain ⟨d, rfl⟩ := Nat.exists_eq_add_of_le' (show 3 ≤ depth by rw [Piece.depth] at hdepth; omega)
    refine operand_reads hpieces rfl fun hs => ?_
    rw [primary_bracket (by rw [hpieces] at hs; exact hs.kind_eq)]
    refine arrayLiteral_items (by rw [haround]) (fun c hc => ?_) hs
    have hdeep := depthOf_le_listPieces contentPieces hc
    exact content_reads setting haround c (by rw [Piece.depth] at hdepth; omega) (hvalues c hc)
  | .mapping pairs, depth, hdepth, hreadable => by
    cases hreadable with
    | mapping hvalues =>
    have hpieces : contentPieces (.mapping pairs) =
        .punctuator "\x7b" :: (listPieces entryPieces pairs ++ [.punctuator "\x7d"]) := by
      rw [contentPieces, pairPieces_eq]
    rw [hpieces, depthOf_cons, depthOf_append] at hdepth
    obtain ⟨d, rfl⟩ := Nat.exists_eq_add_of_le' (show 3 ≤ depth by rw [Piece.depth] at hdepth; omega)
    refine operand_reads hpieces rfl fun hs => ?_
    rw [primary_brace (by rw [hpieces] at hs; exact hs.kind_eq)]
    refine objectLiteral_pairs (by rw [haround]) (fun c hc => ?_) hs
    have hdeep := depthOf_le_listPieces entryPieces hc
    have hvalue := depthOf_le_of_sublist (entryPieces_sublist c)
    exact content_reads setting haround c.2 (by rw [Piece.depth] at hdepth; omega) (hvalues c hc)

end

end MessageCatalog.Script
