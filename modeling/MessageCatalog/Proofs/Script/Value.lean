/-
Values of data as texts: what a value is read from, token by token, and where its parts stand in the
source. A value does not depend on what is behind its text, and its spans are those of its parts.
-/
import MessageCatalog.Proofs.Resource.Tree
import MessageCatalog.Proofs.Script.LocalToken
import MessageCatalog.Script.Token

namespace MessageCatalog.Script

open MessageCatalog.Text

/-! ## Places -/

/-- The position in a source of one of its ends. -/
def placeIn (source cs : List Char) : Position :=
  (LineIndex.ofText source).position (offsetIn (byteLength source) cs)

/-- The span in a source from one of its ends to a shorter one. -/
def spanIn (source text rest : List Char) : Span := ⟨placeIn source text, placeIn source rest⟩

/-! ## Values -/

/-- The number that a token is or names. -/
def numberOf? : TokenKind → Option Double
  | .number d => some d
  | .name "Infinity" => some (.infinite false)
  | .name "NaN" => some .nan
  | _ => none

/-- The value of a token without quotes. -/
def bareOf? : TokenKind → Option ScalarValue
  | .name "true" => some (.bool true)
  | .name "false" => some (.bool false)
  | .name "null" => some .null
  | kind => (numberOf? kind).map .number

/-- The text of a key: a name, which may be any word, or a string. -/
def keyTextOf? : TokenKind → Option String
  | .name text => some text
  | .string value => some value
  | _ => none

/-- Items between commas up to what closes them; a comma may stand behind the last one. -/
inductive Listed {α : Type} (item : List Char → α → List Char → Prop) (closing : String) :
    List Char → List α → List Char → Prop where
  | nil {cs rest : List Char} (close : Takes cs (.punctuator closing) rest) :
    Listed item closing cs [] rest
  | last {cs text behind rest : List Char} {a : α} (leads : Leads cs text) (first : item text a behind)
    (close : Takes behind (.punctuator closing) rest) : Listed item closing cs [a] rest
  | cons {cs text behind next rest : List Char} {a : α} {as : List α} (leads : Leads cs text)
    (first : item text a behind) (comma : Takes behind (.punctuator ",") next)
    (more : Listed item closing next as rest) : Listed item closing cs (a :: as) rest

mutual

/-- A text starts with the value of a node whose spans are those of its parts in the source. -/
inductive IsValue (source : List Char) : List Char → Node → List Char → Prop where
  | string {text rest : List Char} {value : String} (token : IsToken text (.string value) rest) :
    IsValue source text (.scalar ⟨.string value, spanIn source text rest, placeIn source text.tail⟩) rest
  | bare {text rest : List Char} {kind : TokenKind} {value : ScalarValue}
    (token : IsToken text kind rest) (names : bareOf? kind = some value) :
    IsValue source text (.scalar (.bare value (spanIn source text rest))) rest
  | signed {text behind number rest : List Char} {kind : TokenKind} {d : Double} (negative : Bool)
    (sign : IsToken text (.punctuator (if negative then "-" else "+")) behind)
    (leads : Leads behind number) (token : IsToken number kind rest) (names : numberOf? kind = some d) :
    IsValue source text
      (.scalar (.bare (.number (if negative then d.neg else d)) (spanIn source text rest))) rest
  | sequence {text behind rest : List Char} {items : List Node}
    (opening : IsToken text (.punctuator "[") behind)
    (inner : Listed (IsValue source) "]" behind items rest) :
    IsValue source text (.sequence items (spanIn source text rest)) rest
  | mapping {text behind rest : List Char} {pairs : List (Key × Node)}
    (opening : IsToken text (.punctuator "\x7b") behind)
    (inner : Listed (IsEntry source) "\x7d" behind pairs rest) :
    IsValue source text (.mapping pairs (spanIn source text rest)) rest

/-- A text starts with a key, a colon and the value of a node. -/
inductive IsEntry (source : List Char) : List Char → Key × Node → List Char → Prop where
  | intro {text behind next value rest : List Char} {kind : TokenKind} {key : String} {node : Node}
    (token : IsToken text kind behind) (names : keyTextOf? kind = some key)
    (colon : Takes behind (.punctuator ":") next) (leads : Leads next value)
    (holds : IsValue source value node rest) :
    IsEntry source text (⟨key, spanIn source text behind⟩, node) rest

end

/-! ## Proper ends -/

/-- A proper end of a text. -/
structure ProperEnd (rest text : List Char) : Prop where
  suffix : rest <:+ text
  length_lt : rest.length < text.length

theorem ProperEnd.of_suffix {rest text cs : List Char} (h : ProperEnd rest text) (hcs : text <:+ cs) :
    ProperEnd rest cs :=
  ⟨h.suffix.trans hcs, Nat.lt_of_lt_of_le h.length_lt hcs.length_le⟩

theorem ProperEnd.trans {rest behind text : List Char} (h : ProperEnd rest behind)
    (hbehind : ProperEnd behind text) : ProperEnd rest text :=
  h.of_suffix hbehind.suffix

theorem IsToken.proper {text rest : List Char} {kind : TokenKind} (hkind : isDataKind kind = true)
    (h : IsToken text kind rest) : ProperEnd rest text :=
  ⟨h.suffix, h.length_lt (by rintro rfl; cases hkind)⟩

theorem Takes.proper {cs rest : List Char} {kind : TokenKind} (hkind : isDataKind kind = true)
    (h : Takes cs kind rest) : ProperEnd rest cs := by
  obtain ⟨text, hleads, htoken⟩ := h
  exact (htoken.proper hkind).of_suffix hleads.suffix

theorem isDataKind_of_numberOf? {kind : TokenKind} {d : Double} (h : numberOf? kind = some d) :
    isDataKind kind = true := by
  unfold numberOf? at h
  split at h
  · rfl
  · rfl
  · rfl
  · cases h

theorem isDataKind_of_bareOf? {kind : TokenKind} {value : ScalarValue} (h : bareOf? kind = some value) :
    isDataKind kind = true := by
  unfold bareOf? at h
  split at h
  · rfl
  · rfl
  · rfl
  · obtain ⟨d, hd, -⟩ := Option.map_eq_some_iff.1 h
    exact isDataKind_of_numberOf? hd

theorem isDataKind_of_keyTextOf? {kind : TokenKind} {key : String} (h : keyTextOf? kind = some key) :
    isDataKind kind = true := by
  unfold keyTextOf? at h
  split at h
  · rfl
  · rfl
  · cases h

theorem isDataKind_sign (negative : Bool) :
    isDataKind (.punctuator (if negative then "-" else "+")) = true := by
  cases negative <;> rfl

section

variable {α : Type} {item : List Char → α → List Char → Prop} {closing : String} {cs rest : List Char}
  {as : List α}

theorem Listed.proper (hclosing : isDataKind (.punctuator closing) = true)
    (hitem : ∀ a ∈ as, ∀ text behind, item text a behind → ProperEnd behind text)
    (h : Listed item closing cs as rest) : ProperEnd rest cs := by
  induction h with
  | nil close => exact close.proper hclosing
  | last leads first close =>
    exact ((close.proper hclosing).trans (hitem _ List.mem_cons_self _ _ first)).of_suffix leads.suffix
  | cons leads first comma _ ih =>
    have hrest := ih fun a ha => hitem a (List.mem_cons_of_mem _ ha)
    exact ((hrest.trans (comma.proper rfl)).trans (hitem _ List.mem_cons_self _ _ first)).of_suffix
      leads.suffix

/-- Every item of a list stands in its text, with no blank in front of it. -/
theorem Listed.mem (hitem : ∀ a ∈ as, ∀ text behind, item text a behind → ProperEnd behind text)
    (h : Listed item closing cs as rest) {a : α} (ha : a ∈ as) :
    ∃ text behind, item text a behind ∧ Leads text text ∧ text <:+ cs := by
  induction h with
  | nil => cases ha
  | last leads first _ =>
    obtain rfl := List.mem_singleton.1 ha
    exact ⟨_, _, first, leads.self, leads.suffix⟩
  | cons leads first comma _ ih =>
    rcases List.mem_cons.1 ha with rfl | ha
    · exact ⟨_, _, first, leads.self, leads.suffix⟩
    · obtain ⟨text, behind, ha, hself, htext⟩ := ih (fun a ha => hitem a (List.mem_cons_of_mem _ ha)) ha
      have hnext := (comma.proper rfl).trans (hitem _ List.mem_cons_self _ _ first)
      exact ⟨text, behind, ha, hself, htext.trans (hnext.suffix.trans leads.suffix)⟩

end

section

variable {source text rest : List Char}

theorem IsEntry.proper_of {pair : Key × Node}
    (hvalue : ∀ text rest, IsValue source text pair.2 rest → ProperEnd rest text)
    (h : IsEntry source text pair rest) : ProperEnd rest text := by
  cases h with
  | intro token names colon leads holds =>
    have hbehind := token.proper (isDataKind_of_keyTextOf? names)
    exact (((hvalue _ _ holds).of_suffix leads.suffix).trans (colon.proper rfl)).trans hbehind

/-- A value takes a part of its text that is not empty. -/
theorem IsValue.proper {node : Node} (h : IsValue source text node rest) : ProperEnd rest text := by
  induction node using Node.by_parts generalizing text rest with
  | scalar s =>
    cases h with
    | string token => exact token.proper rfl
    | bare token names => exact token.proper (isDataKind_of_bareOf? names)
    | signed negative sign leads token names =>
      have hnumber := token.proper (isDataKind_of_numberOf? names)
      exact (hnumber.of_suffix leads.suffix).trans (sign.proper (isDataKind_sign negative))
  | sequence items span ih =>
    cases h with
    | sequence opening inner =>
      exact (inner.proper rfl fun item hitem _ _ h => ih item hitem h).trans (opening.proper rfl)
  | mapping pairs span ih =>
    cases h with
    | mapping opening inner =>
      refine (inner.proper rfl fun pair hpair _ _ h => ?_).trans (opening.proper rfl)
      exact h.proper_of fun _ _ h => ih pair hpair h
  | verbatim v => cases h

theorem IsEntry.proper {pair : Key × Node} (h : IsEntry source text pair rest) : ProperEnd rest text :=
  h.proper_of fun _ _ h => h.proper

theorem IsValue.span_eq {node : Node} (h : IsValue source text node rest) :
    node.span = spanIn source text rest := by
  cases h <;> rfl

/-- Every node of the tree of a value is the value of a text further on, in front of which is no blank. -/
theorem IsValue.within {root node : Node} (hwithin : node.Within root) (hleads : Leads text text)
    (h : IsValue source text root rest) :
    ∃ text' rest', text' <:+ text ∧ Leads text' text' ∧ IsValue source text' node rest' := by
  induction hwithin generalizing text rest with
  | root => exact ⟨text, rest, List.suffix_rfl, hleads, h⟩
  | item mem _ ih =>
    cases h with
    | sequence opening inner =>
      obtain ⟨start, stop, hitem, hself, hstart⟩ := inner.mem (fun _ _ _ _ h => h.proper) mem
      obtain ⟨text', rest', htext, hnode⟩ := ih hself hitem
      exact ⟨text', rest', htext.trans (hstart.trans opening.suffix), hnode⟩
  | value mem _ ih =>
    cases h with
    | mapping opening inner =>
      obtain ⟨start, stop, hentry, -, hstart⟩ := inner.mem (fun _ _ _ _ h => h.proper) mem
      cases hentry with
      | intro token names colon leads holds =>
        obtain ⟨text', rest', htext, hnode⟩ := ih leads.self holds
        have hvalue := leads.suffix.trans ((colon.proper rfl).suffix.trans token.suffix)
        exact ⟨text', rest', htext.trans (hvalue.trans (hstart.trans opening.suffix)), hnode⟩

end

/-! ## Spans of a value -/

section

variable {source text rest cs : List Char}

@[simp] theorem placeIn_offset (source cs : List Char) :
    (placeIn source cs).offset = offsetIn (byteLength source) cs :=
  Nat.min_eq_left (Nat.sub_le _ _)

/-- A position in a source is that of its own offset. -/
theorem position_placeIn (source cs : List Char) :
    (LineIndex.ofText source).position (placeIn source cs).offset = placeIn source cs := by
  rw [placeIn_offset]
  rfl

theorem offsetIn_le_of_suffix (size : Nat) (h : rest <:+ text) : offsetIn size text ≤ offsetIn size rest :=
  Nat.sub_le_sub_left (byteLength_le_of_suffix h) size

theorem ProperEnd.offset_lt (h : ProperEnd rest text) (htext : text <:+ source) :
    offsetIn (byteLength source) text < offsetIn (byteLength source) rest := by
  obtain ⟨⟨front, rfl⟩, hlength⟩ := h
  have hfront := length_le_byteLength front
  have hsource := byteLength_le_of_suffix htext
  rw [List.length_append] at hlength
  rw [byteLength_append] at hsource
  rw [offsetIn, offsetIn, byteLength_append]
  omega

/-- Spans of a text in a source are spaced in front of any spans behind the text. -/
def Spaces (source text behind : List Char) (spans : List Span) : Prop :=
  text <:+ source → ∀ ⦃start stop : Nat⦄ ⦃xs : List Span⦄, start < offsetIn (byteLength source) text →
    Spaced (offsetIn (byteLength source) behind) stop xs → Spaced start stop (spans ++ xs)

/-- The spans of the items of a list are spaced, if those of each item are. -/
theorem Listed.spaced {α : Type} {item : List Char → α → List Char → Prop} {closing : String}
    {as : List α} {spans : α → List Span} (hclosing : isDataKind (.punctuator closing) = true)
    (hproper : ∀ a text behind, item text a behind → ProperEnd behind text)
    (hitem : ∀ a text behind, item text a behind → Spaces source text behind (spans a))
    (h : Listed item closing cs as rest) (hcs : cs <:+ source) {start : Nat}
    (hstart : start < offsetIn (byteLength source) cs) :
    Spaced start (offsetIn (byteLength source) rest) (as.flatMap spans) := by
  induction h generalizing start with
  | nil close => exact Nat.lt_trans hstart ((close.proper hclosing).offset_lt hcs)
  | last leads first close =>
    have htext := leads.suffix.trans hcs
    have hbehind := (hproper _ _ _ first).suffix.trans htext
    rw [List.flatMap_singleton, ← List.append_nil (spans _)]
    exact hitem _ _ _ first htext (Nat.lt_of_lt_of_le hstart (offsetIn_le_of_suffix _ leads.suffix))
      ((close.proper hclosing).offset_lt hbehind)
  | cons leads first comma _ ih =>
    have htext := leads.suffix.trans hcs
    have hbehind := (hproper _ _ _ first).suffix.trans htext
    have hnext := comma.proper rfl
    rw [List.flatMap_cons]
    exact hitem _ _ _ first htext (Nat.lt_of_lt_of_le hstart (offsetIn_le_of_suffix _ leads.suffix))
      (ih (hnext.suffix.trans hbehind) (hnext.offset_lt hbehind))

theorem ProperEnd.spaces (h : ProperEnd rest text) : Spaces source text rest [spanIn source text rest] := by
  intro htext start stop xs hstart hbehind
  refine ⟨?_, ?_, ?_⟩
  · rwa [spanIn, placeIn_offset]
  · rw [spanIn, placeIn_offset, placeIn_offset]
    exact h.offset_lt htext
  · rwa [spanIn, placeIn_offset]

theorem IsValue.spaces {node : Node} (h : IsValue source text node rest) :
    Spaces source text rest [node.span] := by
  rw [h.span_eq]
  exact h.proper.spaces

theorem IsEntry.spaces {pair : Key × Node} (h : IsEntry source text pair rest) :
    Spaces source text rest (pairSpans pair) := by
  intro htext start stop xs hstart hbehind
  cases h with
  | intro token names colon leads holds =>
    have hkey := token.proper (isDataKind_of_keyTextOf? names)
    have hcolon := (colon.proper rfl).offset_lt (hkey.suffix.trans htext)
    have hvalue := leads.suffix.trans ((colon.proper rfl).suffix.trans (hkey.suffix.trans htext))
    exact hkey.spaces htext hstart (holds.spaces hvalue
      (Nat.lt_of_lt_of_le hcolon (offsetIn_le_of_suffix _ leads.suffix)) hbehind)

/-- The spans of the keys, values and items of a node are spaced within its own. -/
theorem IsValue.spaced {node : Node} (h : IsValue source text node rest) (htext : text <:+ source) :
    Spaced node.span.start.offset node.span.stop.offset node.innerSpans := by
  have hstart : node.span.start.offset = offsetIn (byteLength source) text := by
    rw [h.span_eq, spanIn, placeIn_offset]
  have hstop : node.span.stop.offset = offsetIn (byteLength source) rest := by
    rw [h.span_eq, spanIn, placeIn_offset]
  have hproper := h.proper
  rw [hstart, hstop]
  cases h with
  | string | bare | signed => exact hproper.offset_lt htext
  | sequence opening inner =>
    have hopening := opening.proper rfl
    have hinner := inner.spaced rfl (fun _ _ _ h => h.proper) (fun _ _ _ h => h.spaces)
      (hopening.suffix.trans htext) (hopening.offset_lt htext)
    rwa [← List.map_eq_flatMap] at hinner
  | mapping opening inner =>
    have hopening := opening.proper rfl
    exact inner.spaced rfl (fun _ _ _ h => h.proper) (fun _ _ _ h => h.spaces)
      (hopening.suffix.trans htext) (hopening.offset_lt htext)

/-- A span of a source: its ends have the lines and columns of their offsets. -/
def IsSpanOf (source : List Char) (x : Span) : Prop :=
  (LineIndex.ofText source).position x.start.offset = x.start ∧
    (LineIndex.ofText source).position x.stop.offset = x.stop

theorem isSpanOf_spanIn (source text rest : List Char) : IsSpanOf source (spanIn source text rest) :=
  ⟨position_placeIn source text, position_placeIn source rest⟩

theorem IsValue.isSpanOf {node : Node} (h : IsValue source text node rest) : IsSpanOf source node.span := by
  rw [h.span_eq]
  exact isSpanOf_spanIn source text rest

theorem IsValue.innerSpans_isSpanOf {node : Node} (h : IsValue source text node rest) :
    ∀ x ∈ node.innerSpans, IsSpanOf source x := by
  intro x hx
  cases h with
  | string | bare | signed => cases hx
  | sequence opening inner =>
    obtain ⟨item, hitem, rfl⟩ := List.mem_map.1 hx
    obtain ⟨_, _, hvalue, -, -⟩ := inner.mem (fun _ _ _ _ h => h.proper) hitem
    exact hvalue.isSpanOf
  | mapping opening inner =>
    obtain ⟨pair, hpair, hx⟩ := List.mem_flatMap.1 hx
    obtain ⟨_, _, hentry, -, -⟩ := inner.mem (fun _ _ _ _ h => h.proper) hpair
    cases hentry with
    | intro token names colon leads holds =>
      rcases List.mem_cons.1 hx with rfl | hx
      · exact isSpanOf_spanIn source _ _
      · obtain rfl := List.mem_singleton.1 hx
        exact holds.isSpanOf

theorem bareOf?_of_numberOf? {k : TokenKind} {d : Double} (h : numberOf? k = some d) :
    bareOf? k = some (.number d) := by
  unfold bareOf?
  split
  · cases h
  · cases h
  · cases h
  · rw [h]
    rfl

theorem bareOf?_ne_string {kind : TokenKind} (value : String) : bareOf? kind ≠ some (.string value) := by
  unfold bareOf?
  split
  · nofun
  · nofun
  · nofun
  · intro h
    obtain ⟨_, -, h⟩ := Option.map_eq_some_iff.1 h
    cases h

/-- The token of a string starts with a quote, which is one byte. -/
theorem IsToken.offset_tail {value : String} (h : IsToken text (.string value) rest)
    (htext : text <:+ source) :
    offsetIn (byteLength source) text.tail = offsetIn (byteLength source) text + 1 := by
  have hsource := byteLength_le_of_suffix htext
  have hcut := h (fun _ => 0) false
  have hstarts : StartsWithString text value _ := cutToken_string (congrArg Cut.kind hcut)
  rw [hcut] at hstarts
  cases hstarts with
  | @intro _ quote body read quotes reads =>
    have hquote : quote.utf8Size = 1 := by rcases quotes with rfl | rfl <;> rfl
    rw [byteLength, hquote] at hsource
    rw [offsetIn, offsetIn, List.tail_cons, byteLength, hquote]
    omega

/-- The content of a string begins one byte behind the start of its span. -/
theorem IsValue.contentStart {s : Scalar} {value : String} (h : IsValue source text (.scalar s) rest)
    (hvalue : s.value = .string value) (htext : text <:+ source) :
    s.contentStart.offset = s.span.start.offset + 1 ∧
      (LineIndex.ofText source).position s.contentStart.offset = s.contentStart := by
  cases h with
  | string token =>
    refine ⟨?_, position_placeIn source _⟩
    rw [placeIn_offset, token.offset_tail htext, spanIn, placeIn_offset]
  | bare token names =>
    cases hvalue
    exact absurd names (bareOf?_ne_string value)
  | signed => cases hvalue

end

/-! ## Values in other texts -/

section

variable {w u r : List Char}

theorem Takes.local {kind : TokenKind} (hkind : isDataKind kind = true)
    (h : Takes (w ++ r) kind (u ++ r)) : Takes w kind u := by
  obtain ⟨text, hleads, htoken⟩ := h
  obtain ⟨t, rfl⟩ := (List.suffix_append u r).trans htoken.suffix
  exact ⟨t, hleads.local, htoken.local hkind⟩

variable {α β : Type} {item item' : List Char → α → List Char → Prop} {closing : String} {f : α → β}

/-- A list is one in front of other text too, if its items are, seen through a function, what they were. -/
theorem Listed.local (hclosing : isDataKind (.punctuator closing) = true) {as : List α}
    (hproper : ∀ a ∈ as, ∀ text behind, item text a behind → ProperEnd behind text)
    (hitem : ∀ a ∈ as, ∀ w u, item (w ++ r) a (u ++ r) → ∃ a', item' w a' u ∧ f a' = f a)
    (h : Listed item closing (w ++ r) as (u ++ r)) :
    ∃ as', Listed item' closing w as' u ∧ as'.map f = as.map f := by
  generalize hcs : w ++ r = cs at h
  generalize hrest : u ++ r = rest at h
  induction h generalizing w with
  | nil close =>
    subst hcs hrest
    exact ⟨[], .nil (close.local hclosing), rfl⟩
  | last leads first close =>
    subst hcs hrest
    obtain ⟨b, rfl⟩ := (List.suffix_append u r).trans (close.proper hclosing).suffix
    obtain ⟨t, rfl⟩ := (List.suffix_append b r).trans (hproper _ List.mem_cons_self _ _ first).suffix
    obtain ⟨a', hfirst, ha⟩ := hitem _ List.mem_cons_self _ _ first
    exact ⟨[a'], .last leads.local hfirst (close.local hclosing), by rw [List.map_singleton, ha]; rfl⟩
  | cons leads first comma more ih =>
    subst hcs hrest
    have hproper' := fun a ha => hproper a (List.mem_cons_of_mem _ ha)
    have hitem' := fun a ha => hitem a (List.mem_cons_of_mem _ ha)
    obtain ⟨n, rfl⟩ := (List.suffix_append u r).trans (more.proper hclosing hproper').suffix
    obtain ⟨b, rfl⟩ := (List.suffix_append n r).trans (comma.proper rfl).suffix
    obtain ⟨t, rfl⟩ := (List.suffix_append b r).trans (hproper _ List.mem_cons_self _ _ first).suffix
    obtain ⟨a', hfirst, ha⟩ := hitem _ List.mem_cons_self _ _ first
    obtain ⟨as', hmore, has⟩ := ih hproper' hitem' rfl rfl
    exact ⟨a' :: as', .cons leads.local hfirst (comma.local rfl) hmore,
      by rw [List.map_cons, List.map_cons, ha, has]⟩

variable {source source' : List Char}

/-- An entry is one in front of other text, if its value is. -/
theorem IsEntry.local {pair : Key × Node}
    (hvalue : ∀ {w u}, IsValue source (w ++ r) pair.2 (u ++ r) →
      ∃ node', IsValue source' w node' u ∧ node'.unplaced = pair.2.unplaced)
    (h : IsEntry source (w ++ r) pair (u ++ r)) :
    ∃ pair', IsEntry source' w pair' u ∧ unplacedPair pair' = unplacedPair pair := by
  generalize htext : w ++ r = text at h
  generalize hrest : u ++ r = rest at h
  cases h with
  | intro token names colon leads holds =>
    subst htext hrest
    obtain ⟨v, rfl⟩ := (List.suffix_append u r).trans holds.proper.suffix
    obtain ⟨n, rfl⟩ := (List.suffix_append v r).trans leads.suffix
    obtain ⟨b, rfl⟩ := (List.suffix_append n r).trans (colon.proper rfl).suffix
    obtain ⟨node', hnode, hsame⟩ := hvalue holds
    have htoken := token.local (isDataKind_of_keyTextOf? names)
    refine ⟨_, .intro htoken names (colon.local rfl) leads.local hnode, ?_⟩
    rw [unplacedPair, unplacedPair, hsame]

/-- The text of a value is one wherever it stands: the value is the same but for its positions. -/
theorem IsValue.local {node : Node} (h : IsValue source (w ++ r) node (u ++ r)) :
    ∃ node', IsValue source' w node' u ∧ node'.unplaced = node.unplaced := by
  induction node using Node.by_parts generalizing w u with
  | scalar s =>
    generalize htext : w ++ r = text at h
    generalize hrest : u ++ r = rest at h
    cases h with
    | string token =>
      subst htext hrest
      exact ⟨_, .string (token.local rfl), rfl⟩
    | bare token names =>
      subst htext hrest
      exact ⟨_, .bare (token.local (isDataKind_of_bareOf? names)) names, rfl⟩
    | signed negative sign leads token names =>
      subst htext hrest
      obtain ⟨n, rfl⟩ := (List.suffix_append u r).trans token.suffix
      obtain ⟨b, rfl⟩ := (List.suffix_append n r).trans leads.suffix
      have hsign := sign.local (isDataKind_sign negative)
      have hnumber := token.local (isDataKind_of_numberOf? names)
      exact ⟨_, .signed negative hsign leads.local hnumber names, rfl⟩
  | sequence items span ih =>
    generalize htext : w ++ r = text at h
    generalize hrest : u ++ r = rest at h
    cases h with
    | sequence opening inner =>
      subst htext hrest
      obtain ⟨b, rfl⟩ := (List.suffix_append u r).trans
        (inner.proper rfl fun _ _ _ _ h => h.proper).suffix
      obtain ⟨items', hitems, hsame⟩ := inner.local rfl (fun _ _ _ _ h => h.proper)
        fun item hitem _ _ h => ih item hitem h
      refine ⟨_, .sequence (opening.local rfl) hitems, ?_⟩
      rw [Node.unplaced, Node.unplaced, unplacedItems_eq, unplacedItems_eq, hsame]
  | mapping pairs span ih =>
    generalize htext : w ++ r = text at h
    generalize hrest : u ++ r = rest at h
    cases h with
    | mapping opening inner =>
      subst htext hrest
      obtain ⟨b, rfl⟩ := (List.suffix_append u r).trans
        (inner.proper rfl fun _ _ _ _ h => h.proper).suffix
      obtain ⟨pairs', hpairs, hsame⟩ := inner.local rfl (fun _ _ _ _ h => h.proper)
        fun pair hpair _ _ h => h.local fun h => ih pair hpair h
      refine ⟨_, .mapping (opening.local rfl) hpairs, ?_⟩
      rw [Node.unplaced, Node.unplaced, unplacedPairs_eq, unplacedPairs_eq, hsame]
  | verbatim v => cases h

end

end MessageCatalog.Script
