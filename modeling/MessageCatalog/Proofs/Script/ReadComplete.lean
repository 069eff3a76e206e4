/-
Values of data are read back: in front of the text of a value, with a comma, a closing bracket or the
end of the text behind it, the reader returns an expression that is lowered to the value's node.
-/
import MessageCatalog.Proofs.Script.ReadBack
import MessageCatalog.Proofs.Script.ReadSound

namespace MessageCatalog.Script

open MessageCatalog.Text Reader Expression

variable {source : List Char} {setting : Setting source} {s s' : ReaderState source}
  {text rest : List Char} {kind : TokenKind}

/-! ## Standing in front of a token -/

/-- A state in front of a token, in which no fault has been found. -/
structure ReaderState.Meets (s : ReaderState source) (text : List Char) (kind : TokenKind)
    (rest : List Char) : Prop where
  text : s.token.text = text
  kind : s.token.kind = kind
  rest : s.rest = rest
  tokenFaults : s.tokenFaults = #[]
  faults : s.faults = #[]
  openDefaults : s.openDefaults = []

/-- A state in front of the token that a text starts with. -/
def ReaderState.InFront (s : ReaderState source) (text : List Char) : Prop :=
  ∀ ⦃kind rest⦄, IsToken text kind rest → s.Meets text kind rest

/-- A state behind a part of the text, in front of what the rest leads to. -/
def ReaderState.Reaches (s : ReaderState source) (rest : List Char) : Prop :=
  s.previousStop = offsetIn (byteLength source) rest ∧ ∀ ⦃text⦄, Leads rest text → s.InFront text

theorem ReaderState.Meets.reaches (h : s.Meets text kind rest) (setting : Setting source) :
    (s.next setting).Reaches rest := by
  obtain ⟨rfl, rfl, rfl, htokenFaults, hfaults, hopen⟩ := h
  refine ⟨s.stands.stop, fun text' hleads kind' rest' htoken => ?_⟩
  obtain ⟨newLine, atStart, hnext⟩ := hleads.nextToken (offsetIn setting.size)
  rw [htoken] at hnext
  have hstate : s.next setting = _ := rfl
  refine ⟨?_, ?_, ?_, ?_, hfaults, hopen⟩
  · exact congrArg (fun next => next.1.text) hnext
  · exact congrArg (fun next => next.1.kind) hnext
  · exact congrArg (fun next => next.2.1) hnext
  · show s.tokenFaults ++ (nextToken (offsetIn setting.size) s.rest).2.2.toArray = #[]
    rw [htokenFaults, hnext]
    rfl

theorem ofText_inFront (setting : Setting source) (hleads : Leads source text) :
    (ReaderState.ofText setting).InFront text := by
  intro kind rest htoken
  obtain ⟨newLine, atStart, hnext⟩ := hleads.nextToken (offsetIn setting.size)
  rw [htoken] at hnext
  refine ⟨?_, ?_, ?_, ?_, rfl, rfl⟩
  · exact congrArg (fun next => next.1.text) hnext
  · exact congrArg (fun next => next.1.kind) hnext
  · exact congrArg (fun next => next.2.1) hnext
  · exact congrArg (fun next => next.2.2.toArray) hnext

/-- What stands behind a value: a comma, a closing bracket or the end of the text. -/
def Closed (rest : List Char) : Prop := ∃ kind ∈ closingKinds, ∃ behind, Takes rest kind behind

theorem Takes.closed {behind : List Char} (h : Takes rest kind behind) (hkind : kind ∈ closingKinds) :
    Closed rest := ⟨kind, hkind, behind, h⟩

theorem ReaderState.Reaches.meets {behind : List Char} (h : s.Reaches rest)
    (htakes : Takes rest kind behind) :
    ∃ text, s.Meets text kind behind := by
  obtain ⟨text, hleads, htoken⟩ := htakes
  exact ⟨text, h.2 hleads htoken⟩

theorem ReaderState.Reaches.closes (h : s.Reaches rest) (hclosed : Closed rest) :
    s.token.kind ∈ closingKinds := by
  obtain ⟨kind, hkind, behind, htakes⟩ := hclosed
  obtain ⟨text, hmeets⟩ := h.meets htakes
  rwa [hmeets.kind]

/-! ## Lists -/

section

variable {α β : Type} {item : Reader source α} {closing : String} {reads : α → β → Prop}
  {holds : List Char → β → List Char → Prop}

/-- What can start an item: no comma and no closing bracket. -/
def StartsItem (k : TokenKind) : Prop := isDataKind k = true ∧ k ∉ closingKinds

/-- In front of the text of an item it is read, with what can stand behind it. -/
def ReadsBack (setting : Setting source) (item : Reader source α) (reads : α → β → Prop)
    (holds : List Char → β → List Char → Prop) (within : List Char) (b : β) : Prop :=
  ∀ ⦃s text behind⦄, holds text b behind → text <:+ within → s.InFront text → Closed behind →
    StartsItem s.token.kind ∧ ∃ a s', item setting s = .ok (a, s') ∧ s'.Reaches behind ∧ reads a b

theorem StartsItem.ne {k k' : TokenKind} (h : StartsItem k) (hk' : k' ∈ closingKinds) : k ≠ k' := by
  rintro rfl
  exact h.2 hk'

theorem atListEnd_starts (hclosing : .punctuator closing ∈ closingKinds) (hs : StartsItem s.token.kind) :
    atListEnd closing setting s = .ok (false, s) := by
  refine atListEnd_inside (hs.ne hclosing) ?_
  have hdata := hs.1
  constructor
  all_goals
    intro hkind
    rw [hkind] at hdata
    cases hdata

theorem listRound_next (hclosing : .punctuator closing ∈ closingKinds) (hne : "," ≠ closing)
    (hcomma : s.token.kind = .punctuator ",") (hs : StartsItem (s.next setting).token.kind) {a : α}
    (hitem : item setting (s.next setting) = .ok (a, s')) (items : Array α) :
    listRound closing item items setting s = .ok ((items.push a, true), s') := by
  have hgoes := hs.ne hclosing
  simp [listRound, atListEnd, hcomma, hne, expect, hgoes, hitem]

theorem repeatWhile_closed (hk : s.token.kind = .punctuator closing) {n : Nat} (hn : 0 < n)
    (items : Array α) :
    repeatWhile (listRound closing item) n items setting s = .ok (items, s) := by
  obtain ⟨n, rfl⟩ := Nat.exists_eq_add_of_le' hn
  simp [repeatWhile, listRound, atListEnd, hk]

/-- The rounds of a list in front of a comma. -/
theorem repeatWhile_listed (hclosing : .punctuator closing ∈ closingKinds) (hne : "," ≠ closing)
    (hproper : ∀ b text behind, holds text b behind → ProperEnd behind text) {within cs : List Char}
    {bs : List β} (h : Listed holds closing cs bs rest) (hcs : cs <:+ within)
    (hitem : ∀ b ∈ bs, ReadsBack setting item reads holds within b) (items : Array α) {n : Nat}
    (hn : bs.length < n) (hs : s.Meets text (.punctuator ",") cs) :
    ∃ as s', repeatWhile (listRound closing item) n items setting s = .ok ((items.toList ++ as).toArray, s') ∧
      (∃ text, s'.Meets text (.punctuator closing) rest) ∧ List.Forall₂ reads as bs := by
  obtain ⟨n, rfl⟩ := Nat.exists_eq_add_of_le' (Nat.zero_lt_of_lt hn)
  induction h generalizing s n items text with
  | nil close =>
    obtain ⟨next, hmeets⟩ := (hs.reaches setting).meets close
    have hcomma := hs.kind
    have hclose := hmeets.kind
    refine ⟨[], _, ?_, ⟨next, hmeets⟩, .nil⟩
    simp [repeatWhile, listRound, atListEnd, hcomma, hne, expect, hclose]
  | @last _ _ _ _ b leads first close =>
    obtain ⟨hstarts, a, s₁, hread, hreaches, hreads⟩ := hitem b List.mem_cons_self first
      (leads.suffix.trans hcs) ((hs.reaches setting).2 leads) (close.closed hclosing)
    obtain ⟨next, hmeets⟩ := hreaches.meets close
    refine ⟨[a], s₁, ?_, ⟨next, hmeets⟩, .cons hreads .nil⟩
    have hrest : repeatWhile (listRound closing item) n (items.push a) setting s₁ = _ :=
      repeatWhile_closed hmeets.kind (Nat.lt_of_succ_lt_succ hn) (items.push a)
    rw [← Array.toList_push, Array.toArray_toList]
    simp [repeatWhile, listRound_next hclosing hne hs.kind hstarts hread, hrest]
  | @cons _ _ _ _ _ b bs leads first comma more ih =>
    obtain ⟨hstarts, a, s₁, hread, hreaches, hreads⟩ := hitem b List.mem_cons_self first
      (leads.suffix.trans hcs) ((hs.reaches setting).2 leads) (comma.closed (by decide))
    obtain ⟨next, hmeets⟩ := hreaches.meets comma
    have hnext := (comma.proper rfl).suffix.trans
      ((hproper _ _ _ first).suffix.trans (leads.suffix.trans hcs))
    obtain ⟨n, rfl⟩ := Nat.exists_eq_add_of_le' (Nat.zero_lt_of_lt (Nat.lt_of_succ_lt_succ hn))
    obtain ⟨as, s', hrest, hclose, hall⟩ := ih hnext (fun b hb => hitem b (List.mem_cons_of_mem _ hb))
      (items.push a) hmeets n (Nat.lt_of_succ_lt_succ hn)
    refine ⟨a :: as, s', ?_, hclose, .cons hreads hall⟩
    rw [repeatWhile]
    simp [listRound_next hclosing hne hs.kind hstarts hread, hrest]

theorem Listed.length_le (hproper : ∀ b text behind, holds text b behind → ProperEnd behind text)
    {cs : List Char} {bs : List β} (h : Listed holds closing cs bs rest) : bs.length ≤ cs.length := by
  induction h with
  | nil => exact Nat.zero_le _
  | last leads first _ =>
    have hitem := ((hproper _ _ _ first).of_suffix leads.suffix).length_lt
    exact Nat.succ_le_of_lt (Nat.zero_lt_of_lt hitem)
  | cons leads first comma _ ih =>
    have hnext := (comma.proper rfl).trans ((hproper _ _ _ first).of_suffix leads.suffix)
    exact Nat.succ_le_of_lt (Nat.lt_of_le_of_lt ih hnext.length_lt)

/-- A list between commas is read up to what closes it. -/
theorem commaList_listed (setting : Setting source) (hclosing : .punctuator closing ∈ closingKinds)
    (hne : "," ≠ closing)
    (hproper : ∀ b text behind, holds text b behind → ProperEnd behind text) {cs : List Char}
    {bs : List β} (h : Listed holds closing cs bs rest) (hcs : cs <:+ source)
    (hitem : ∀ b ∈ bs, ReadsBack setting item reads holds cs b) (hs : s.Reaches cs) :
    ∃ as s', commaList closing item setting s = .ok (as, s') ∧
      (∃ text, s'.Meets text (.punctuator closing) rest) ∧ List.Forall₂ reads as bs := by
  have hlength := h.length_le hproper
  have hsize := Nat.le_trans hcs.length_le (length_le_byteLength source)
  rw [← setting.size_eq] at hsize
  cases h with
  | nil close =>
    obtain ⟨next, hmeets⟩ := hs.meets close
    have hclose := hmeets.kind
    refine ⟨[], s, ?_, ⟨next, hmeets⟩, .nil⟩
    simp [commaList, atListEnd, hclose]
  | @last _ _ _ _ b leads first close =>
    obtain ⟨hstarts, a, s₁, hread, hreaches, hreads⟩ := hitem b List.mem_cons_self first leads.suffix
      (hs.2 leads) (close.closed hclosing)
    obtain ⟨next, hmeets⟩ := hreaches.meets close
    refine ⟨[a], s₁, ?_, ⟨next, hmeets⟩, .cons hreads .nil⟩
    have hrest : repeatWhile (listRound closing item) (setting.size + 2) #[a] setting s₁ = _ :=
      repeatWhile_closed hmeets.kind (Nat.succ_pos _) #[a]
    simp [commaList, atListEnd_starts hclosing hstarts, hread, loop, hrest]
  | @cons _ _ _ _ _ b bs leads first comma more =>
    obtain ⟨hstarts, a, s₁, hread, hreaches, hreads⟩ := hitem b List.mem_cons_self first leads.suffix
      (hs.2 leads) (comma.closed (by decide))
    obtain ⟨next, hmeets⟩ := hreaches.meets comma
    have hnext := (comma.proper rfl).suffix.trans ((hproper _ _ _ first).suffix.trans leads.suffix)
    rw [List.length_cons] at hlength
    have hrounds : bs.length < setting.size + 2 := by omega
    obtain ⟨as, s', hrest, hclose, hall⟩ := repeatWhile_listed hclosing hne hproper more hnext
      (fun b hb => hitem b (List.mem_cons_of_mem _ hb)) #[a] hrounds hmeets
    refine ⟨a :: as, s', ?_, hclose, .cons hreads hall⟩
    simp [commaList, atListEnd_starts hclosing hstarts, hread, loop, hrest]

end

/-! ## Tokens -/

section

variable {l : Lowering} {setting : Setting l.source} {s s' : ReaderState l.source} {go : Readers l.source}
  {e : Expr l.source}

/-- A token is read as an operand that fills it. -/
def FillsToken (s : ReaderState l.source) (e : Expr l.source) : Prop :=
  startsOperand s.token.kind = true ∧ e.extent = ⟨s.token.start, s.token.stop⟩ ∧
    ∀ go setting, primary go setting s = .ok (e, s.next setting)

theorem number_fills {d : Double} (h : numberOf? s.token.kind = some d) :
    ∃ e, FillsToken s e ∧ l.number? e = some d ∧
      l.node e = .ok (l.bare (.number d) ⟨s.token.start, s.token.stop⟩) := by
  unfold numberOf? at h
  split at h
  · rename_i hkind
    cases h
    exact ⟨_, ⟨by rw [hkind]; rfl, rfl, fun _ _ => primary_number hkind⟩, rfl, rfl⟩
  · rename_i hkind
    cases h
    exact ⟨_, ⟨by rw [hkind]; rfl, rfl, fun _ _ => primary_identifier hkind (.inr rfl)⟩, rfl, rfl⟩
  · rename_i hkind
    cases h
    exact ⟨_, ⟨by rw [hkind]; rfl, rfl, fun _ _ => primary_identifier hkind (.inl rfl)⟩, rfl, rfl⟩
  · cases h

theorem bare_fills {value : ScalarValue} (h : bareOf? s.token.kind = some value) :
    ∃ e, FillsToken s e ∧ l.node e = .ok (l.bare value ⟨s.token.start, s.token.stop⟩) := by
  unfold bareOf? at h
  split at h
  · rename_i hkind
    cases h
    exact ⟨_, ⟨by rw [hkind]; rfl, rfl, fun _ _ => primary_bool (b := true) hkind⟩, rfl⟩
  · rename_i hkind
    cases h
    exact ⟨_, ⟨by rw [hkind]; rfl, rfl, fun _ _ => primary_bool (b := false) hkind⟩, rfl⟩
  · rename_i hkind
    cases h
    exact ⟨_, ⟨by rw [hkind]; rfl, rfl, fun _ _ => primary_null hkind⟩, rfl⟩
  · obtain ⟨d, hd, rfl⟩ := Option.map_eq_some_iff.1 h
    obtain ⟨e, hfills, -, hnode⟩ := number_fills hd
    exact ⟨e, hfills, hnode⟩

theorem string_fills {value : String} (h : s.token.kind = .string value) :
    ∃ e, FillsToken s e ∧ l.node e = .ok (l.string value ⟨s.token.start, s.token.stop⟩) := by
  obtain ⟨literal, hliteral, rfl, hextent⟩ := stringLiteral?_eq h
  refine ⟨.string literal, ⟨by rw [h]; rfl, hextent, fun go setting => ?_⟩, ?_⟩
  · simp [primary, h, hliteral]
  · rw [← hextent]
    rfl

/-! ## Pairs and items -/

theorem isPropertyModifier_colon (h : (s.next setting).token.kind = .punctuator ":") (word : String) :
    isPropertyModifier word setting s = .ok (false, s) := by
  by_cases hword : s.token.kind = .name word
  · simp [isPropertyModifier, hword, h]
  · exact isPropertyModifier_of_ne hword

theorem keyTextOf?_cases {kind : TokenKind} {key : String} (h : keyTextOf? kind = some key) :
    kind = .name key ∨ kind = .string key := by
  unfold keyTextOf? at h
  split at h <;> cases h
  · exact .inl rfl
  · exact .inr rfl

theorem propertyKey_named (setting : Setting l.source) (go : Readers l.source) {key : String}
    (hkey : keyTextOf? s.token.kind = some key) : ∃ k, l.keyText? k = some key ∧
      propertyKey go setting s = .ok ((k, ⟨s.token.start, s.token.stop⟩, false), s.next setting) := by
  rcases keyTextOf?_cases hkey with hkind | hkind
  · exact ⟨.identifier key, rfl, by simp [propertyKey, hkind]⟩
  · exact ⟨.string key, rfl, by simp [propertyKey, hkind]⟩

/-- A property that is a name or a string in front of a colon and a value. -/
theorem property_keyed {key : String} (hkey : keyTextOf? s.token.kind = some key)
    (hcolon : (s.next setting).token.kind = .punctuator ":")
    (hvalue : withIn go.assignment setting ((s.next setting).next setting) = .ok (e, s')) :
    ∃ k x, l.keyText? k = some key ∧
      property go setting s = .ok (.pair k ⟨s.token.start, s.token.stop⟩ e x, s') := by
  obtain ⟨k, hk, hname⟩ := propertyKey_named setting go hkey
  refine ⟨k, ⟨s.token.start, s'.previousStop⟩, hk, ?_⟩
  have hmark : ∀ text, s.token.kind ≠ .punctuator text := by
    rintro text h
    rw [h] at hkey
    cases hkey
  have hcall : (TokenKind.punctuator ":" == .punctuator "(") = false := by decide
  have hgeneric : (TokenKind.punctuator ":" == .punctuator "<") = false := by decide
  rw [property, run_bind, run_start, ok_bind, run_bind, run_eat_of_ne (hmark _), ok_bind]
  simp only [isPropertyModifier_colon hcolon, run_bind, ok_bind, pure_bind, run_eat_of_ne (hmark _), run_kind,
    Bool.false_eq_true, if_false, Bool.not_false, Bool.true_and, Bool.false_or]
  -- A name may stand for its own value, but not in front of a colon.
  rcases keyTextOf?_cases hkey with hkind | hkind <;>
    simp only [hkind, isOperatorWord, hname, run_bind, ok_bind, run_pure, run_around, run_isPunctuator,
      hcolon, hcall, hgeneric, BEq.rfl, Bool.not_true, Bool.and_false, Bool.or_self, Bool.false_eq_true,
      if_false, run_expect hcolon, hvalue, run_extentFrom]

theorem items_of_forall₂ {x : Extent} {elements : List (Element l.source)} {items : List Node}
    (h : List.Forall₂ (fun element item => ∃ e, element = .item e ∧ l.node e = .ok item) elements items) :
    l.items x elements = .ok items := by
  induction h with
  | nil => rfl
  | cons hitem _ ih =>
    obtain ⟨e, rfl, hnode⟩ := hitem
    rw [Lowering.items, hnode, ih]
    rfl

theorem pairs_of_forall₂ {properties : List (Property l.source)} {pairs : List (Key × Node)}
    (h : List.Forall₂ (LowersPair l) properties pairs) : l.pairs properties = .ok pairs := by
  induction h with
  | nil => rfl
  | @cons _ pair _ _ hpair _ ih =>
    obtain ⟨⟨text, span⟩, node⟩ := pair
    obtain ⟨key, keyExtent, e, x, rfl, hkey, rfl, hnode⟩ := hpair
    simp only [Lowering.pairs, hkey, hnode, ih]
    rfl

/-! ## Values -/

/-- A node is read up to a rest, as an expression that is lowered to it. -/
def ReadsNode (l : Lowering) (setting : Setting l.source) (depth : Nat) (s : ReaderState l.source)
    (node : Node) (rest : List Char) : Prop :=
  StartsItem s.token.kind ∧ ∃ e s', (readers depth).assignment setting s = .ok (e, s') ∧ s'.Reaches rest ∧
    l.node e = .ok node ∧ e.extent.stop = s'.previousStop

/-- In front of the text of a value it is read, if its nesting is not too deep. -/
def ValueReads (l : Lowering) (node : Node) : Prop :=
  ∀ (setting : Setting l.source) ⦃depth : Nat⦄ ⦃s : ReaderState l.source⦄ ⦃text rest : List Char⦄,
    IsValue l.source text node rest → 4 * text.length ≤ depth → text <:+ l.source → s.InFront text →
    Closed rest → ReadsNode l setting depth s node rest

theorem startsItem_of_startsOperand {k : TokenKind} (h : startsOperand k = true) : StartsItem k := by
  rcases startsOperand_cases h with ⟨_, rfl⟩ | ⟨_, rfl⟩ | rfl | rfl | rfl | rfl | rfl | rfl | rfl <;>
    exact ⟨rfl, by simp [closingKinds]⟩

theorem readsNode_operand {node : Node} {depth : Nat} {rest : List Char}
    (hstarts : startsOperand s.token.kind = true) (hprimary : primary (readers depth) setting s = .ok (e, s'))
    (hreaches : s'.Reaches rest) (hnode : l.node e = .ok node) (hstop : e.extent.stop = s'.previousStop)
    (hclosed : Closed rest) : ReadsNode l setting (depth + 3) s node rest :=
  ⟨startsItem_of_startsOperand hstarts, e, s', readers_operand hstarts hprimary (hreaches.closes hclosed),
    hreaches, hnode, hstop⟩

/-- A value that is one token. -/
theorem FillsToken.readsNode {node : Node} {depth : Nat} {text rest : List Char} {kind : TokenKind}
    (h : FillsToken s e) (hmeets : s.Meets text kind rest) (hnode : l.node e = .ok node)
    (hdepth : 3 ≤ depth) (hclosed : Closed rest) : ReadsNode l setting depth s node rest := by
  obtain ⟨d, rfl⟩ := Nat.exists_eq_add_of_le' hdepth
  obtain ⟨hstarts, hextent, hprimary⟩ := h
  exact readsNode_operand hstarts (hprimary _ _) (hmeets.reaches setting) hnode (congrArg Extent.stop hextent)
    hclosed

theorem element_reads {depth : Nat} {cs : List Char} (hcs : cs <:+ l.source) (hdepth : 4 * cs.length ≤ depth)
    {item : Node} (hvalue : ValueReads l item) :
    ReadsBack setting (element (readers depth))
      (fun element item => ∃ e, element = .item e ∧ l.node e = .ok item) (IsValue l.source) cs item := by
  intro s text rest hitem htext hs hclosed
  have hlength := Nat.le_trans (Nat.mul_le_mul_left 4 htext.length_le) hdepth
  obtain ⟨hstarts, e, s', hread, hreaches, hnode, -⟩ :=
    hvalue { setting with around := { setting.around with allowIn := true } } hitem hlength
      (htext.trans hcs) hs hclosed
  refine ⟨hstarts, .item e, s', ?_, hreaches, e, rfl, hnode⟩
  have hcomma : s.token.kind ≠ .punctuator "," := hstarts.ne (by decide)
  have hend : s.token.kind ≠ .punctuator "]" := hstarts.ne (by decide)
  have hrest : s.token.kind ≠ .punctuator "..." := by
    intro h
    have hdata := hstarts.1
    rw [h] at hdata
    cases hdata
  simp [element, hcomma, hend, run_eat_of_ne hrest, withIn, hread]

variable (hindex : l.index = .ofText l.source)
include hindex

theorem entry_reads {depth : Nat} {cs : List Char} (hcs : cs <:+ l.source) (hdepth : 4 * cs.length ≤ depth)
    {pair : Key × Node} (hvalue : ValueReads l pair.2) :
    ReadsBack setting (property (readers depth)) (LowersPair l) (IsEntry l.source) cs pair := by
  intro s text rest hentry htext hs hclosed
  cases hentry with
  | intro token names colon leads holds =>
    have hmeets := hs token
    obtain ⟨start, hcolon⟩ := (hmeets.reaches setting).meets colon
    have hproper := (leads.suffix.trans ((colon.proper rfl).suffix.trans token.suffix)).trans htext
    obtain ⟨-, e, s', hread, hreaches, hnode, -⟩ :=
      hvalue { setting with around := { setting.around with allowIn := true } } holds
        (Nat.le_trans (Nat.mul_le_mul_left 4 hproper.length_le) hdepth) (hproper.trans hcs)
        ((hcolon.reaches setting).2 leads) hclosed
    rw [← hmeets.kind] at names
    obtain ⟨k, x, hkey, hproperty⟩ := property_keyed names hcolon.kind hread
    refine ⟨?_, _, s', hproperty, hreaches, k, _, e, x, rfl, hkey, ?_, hnode⟩
    · refine ⟨isDataKind_of_keyTextOf? names, fun hkind => ?_⟩
      rcases closingKinds_cases hkind with h | h | h | h <;> (rw [h] at names; cases names)
    · rw [span_token hindex, hmeets.text, hmeets.rest]

theorem signed_reads {depth : Nat} {text behind number rest : List Char} {kind : TokenKind} {d : Double}
    {negative : Bool} (hs : s.Meets text (.punctuator (if negative then "-" else "+")) behind)
    (hleads : Leads behind number) (htoken : IsToken number kind rest) (hnumber : numberOf? kind = some d)
    (hdepth : 4 ≤ depth) (hclosed : Closed rest) :
    ReadsNode l setting depth s
      (.scalar (.bare (.number (if negative then d.neg else d)) (spanIn l.source text rest))) rest := by
  obtain ⟨n, rfl⟩ := Nat.exists_eq_add_of_le' hdepth
  have hmeets := (hs.reaches setting).2 hleads htoken
  have hreaches := hmeets.reaches setting
  rw [← hmeets.kind] at hnumber
  obtain ⟨e, ⟨hstarts, -, hprimary⟩, hvalue, -⟩ := number_fills hnumber
  refine ⟨?_, _, _, readers_sign hs.kind hstarts (hprimary _ _) (hreaches.closes hclosed), hreaches, ?_, rfl⟩
  · rw [hs.kind]
    cases negative <;> exact ⟨rfl, by simp [closingKinds]⟩
  · have hspan := span_eq hindex s.stands.start (s.next setting).stands.stop
    rw [hs.text, hmeets.rest] at hspan
    simp only [Lowering.node, Lowering.leaf, hvalue, Lowering.bare, next_previousStop, hspan]

theorem sequence_reads {depth : Nat} {text behind rest : List Char} {items : List Node}
    (hs : s.Meets text (.punctuator "[") behind) (hbehind : behind <:+ l.source)
    (inner : Listed (IsValue l.source) "]" behind items rest) (hitems : ∀ item ∈ items, ValueReads l item)
    (hdepth : 4 * behind.length ≤ depth) (hclosed : Closed rest) :
    ReadsNode l setting (depth + 3) s (.sequence items (spanIn l.source text rest)) rest := by
  obtain ⟨elements, s', hread, ⟨close, hclose⟩, hall⟩ := commaList_listed setting (by decide) (by decide)
    (fun _ _ _ h => h.proper) inner hbehind
    (fun item hitem => element_reads hbehind hdepth (hitems item hitem)) (hs.reaches setting)
  have hspan := span_eq hindex s.stands.start s'.stands.stop
  rw [hs.text, hclose.rest] at hspan
  refine readsNode_operand (e := .array elements ⟨s.token.start, s'.token.stop⟩) (by rw [hs.kind]; rfl) ?_
    (hclose.reaches setting) ?_ rfl hclosed
  · rw [primary_bracket hs.kind]
    simp [arrayLiteral, run_expect hs.kind, hread, run_expect hclose.kind]
  · rw [Lowering.node, items_of_forall₂ hall, hspan]
    rfl

theorem mapping_reads {depth : Nat} {text behind rest : List Char} {pairs : List (Key × Node)}
    (hs : s.Meets text (.punctuator "\x7b") behind) (hbehind : behind <:+ l.source)
    (inner : Listed (IsEntry l.source) "\x7d" behind pairs rest)
    (hpairs : ∀ pair ∈ pairs, ValueReads l pair.2) (hdepth : 4 * behind.length ≤ depth)
    (hclosed : Closed rest) :
    ReadsNode l setting (depth + 3) s (.mapping pairs (spanIn l.source text rest)) rest := by
  obtain ⟨properties, s', hread, ⟨close, hclose⟩, hall⟩ := commaList_listed setting (by decide) (by decide)
    (fun _ _ _ h => h.proper) inner hbehind
    (fun pair hpair => entry_reads hindex hbehind hdepth (hpairs pair hpair)) (hs.reaches setting)
  have hspan := span_eq hindex s.stands.start s'.stands.stop
  rw [hs.text, hclose.rest] at hspan
  refine readsNode_operand (e := .object properties ⟨s.token.start, s'.token.stop⟩) (by rw [hs.kind]; rfl) ?_
    (hclose.reaches setting) ?_ rfl hclosed
  · rw [primary_brace hs.kind]
    simp [objectLiteral, run_expect hs.kind, hread, run_expect hclose.kind]
  · rw [Lowering.node, pairs_of_forall₂ hall, hspan]
    rfl

/-- Every value is read back from its text. -/
theorem value_reads (node : Node) : ValueReads l node := by
  induction node using Node.by_parts with
  | scalar s =>
    intro setting depth s text rest h hdepth htext hs hclosed
    have hlength := Nat.zero_lt_of_lt h.proper.length_lt
    cases h with
    | string token =>
      have hmeets := hs token
      obtain ⟨e, hfills, hnode⟩ := string_fills hmeets.kind
      have hstart : l.index.position (s.token.start + 1) = placeIn l.source text.tail := by
        rw [s.stands.start, hmeets.text, hindex, placeIn, token.offset_tail htext]
        rfl
      rw [Lowering.string, span_token hindex, hstart, hmeets.text, hmeets.rest] at hnode
      exact hfills.readsNode hmeets hnode (by omega) hclosed
    | bare token names =>
      have hmeets := hs token
      rw [← hmeets.kind] at names
      obtain ⟨e, hfills, hnode⟩ := bare_fills names
      rw [Lowering.bare, span_token hindex, hmeets.text, hmeets.rest] at hnode
      exact hfills.readsNode hmeets hnode (by omega) hclosed
    | signed negative sign leads token names =>
      exact signed_reads hindex (hs sign) leads token names (by omega) hclosed
  | sequence items span ih =>
    intro setting depth s text rest h hdepth htext hs hclosed
    cases h with
    | sequence opening inner =>
      -- the opening bracket pays for the readers between the value and its items
      have hlength := (opening.proper rfl).length_lt
      obtain ⟨d, rfl⟩ := Nat.exists_eq_add_of_le' (show 3 ≤ depth by omega)
      exact sequence_reads hindex (hs opening) (opening.suffix.trans htext) inner ih (by omega) hclosed
  | mapping pairs span ih =>
    intro setting depth s text rest h hdepth htext hs hclosed
    cases h with
    | mapping opening inner =>
      have hlength := (opening.proper rfl).length_lt
      obtain ⟨d, rfl⟩ := Nat.exists_eq_add_of_le' (show 3 ≤ depth by omega)
      exact mapping_reads hindex (hs opening) (opening.suffix.trans htext) inner ih (by omega) hclosed
  | verbatim v =>
    intro setting depth s text rest h
    cases h

end

/-! ## Whole texts -/

theorem takes_end : Takes [] .endOfText [] := ⟨[], leads_nil, fun _ _ => rfl⟩

theorem readExpression_value {l : Lowering} (hindex : l.index = .ofText l.source) {node : Node}
    (hsize : byteLength l.source ≤ sizeLimit) (hleads : Leads l.source l.source)
    (h : IsValue l.source l.source node []) :
    ∃ e, readExpression l.source = .ok e ∧ l.node e = .ok node ∧
      e.extent.stop = offsetIn (byteLength l.source) [] := by
  let setting : Setting l.source := .ofText l.source { typed := false }
  have hdepth : 4 * l.source.length ≤ 4 * byteLength l.source + 15 := by
    have hlength := length_le_byteLength l.source
    omega
  obtain ⟨-, e, s', hread, hreaches, hnode, hstop⟩ := value_reads hindex node setting h hdepth
    List.suffix_rfl (ofText_inFront setting hleads) (takes_end.closed (by decide))
  obtain ⟨text, hmeets⟩ := hreaches.meets takes_end
  have hfaults : s'.allFaults = [] := by
    simp [ReaderState.allFaults, hmeets.tokenFaults, hmeets.faults, hmeets.openDefaults]
  have hrun : run false l.source (·.expression) = .ok (e, s') :=
    (run_ofText hsize _).trans (expression_ended hread hmeets.kind)
  refine ⟨e, ?_, hnode, hstop.trans hreaches.1⟩
  simp only [readExpression, hrun, hfaults]

/-- A text that is a value and nothing else is read as it. -/
theorem readData_value {source : String} {node : Node} (hsize : byteLength source.toList ≤ sizeLimit)
    (hleads : Leads source.toList source.toList) (h : IsValue source.toList source.toList node [])
    (filename : String) : readData source filename = .ok ⟨node, filename⟩ := by
  obtain ⟨e, hread, hnode, hstop⟩ :=
    readExpression_value (l := .new source filename .data) rfl hsize hleads h
  have hend : ∃ before, cut? (offsetIn (byteLength source.toList) []) source.toList = some (before, []) :=
    cut?_offsetIn rfl List.nil_suffix
  obtain ⟨before, hcut⟩ := hend
  have htrivia : onlyTrivia [] = true := by
    rw [onlyTrivia, readModule_trivia (Nat.zero_le _) leads_nil]
    rfl
  have hcut' : cut? e.extent.stop (Lowering.new source filename .data).source = some (before, []) := by
    rw [hstop]
    exact hcut
  simp only [readData, hread, hcut', Option.getD_some, htrivia, hnode]
  rfl

end MessageCatalog.Script
