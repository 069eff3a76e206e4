/-
The places that the compiler reports. They are places of the text that is parsed: the message itself,
or, where markup is to be escaped, the message after that. An error points at the character that opens
what is at fault, and the map of an accepted message leads between two characters.
-/
import MessageCatalog.Proofs.Error
import MessageCatalog.Proofs.Message.FunctionMap

namespace MessageCatalog.Message

open MessageCatalog.Code MessageCatalog.Text

/-! ## Faults -/

/-- The character at which a fault is reported; other compilers report theirs where they like. -/
def Fault.opens : Fault → Option Char
  | .unterminatedLiteral => some '\''
  | .unterminatedLink | .emptyLinkKey => some '@'
  | .unterminatedPlaceholder | .emptyPlaceholder | .listIndexOutOfRange _
  | .invalidPlaceholder _ => some '\x7b'
  | .markup _ => some '<'
  | .custom _ _ => none

/-- The character that opens what is at fault stands where the error is reported. -/
def Error.PointsInto (e : Error) (message : List Char) : Prop :=
  ∃ front c back, message = front ++ c :: back ∧ byteLength front = e.offset ∧ e.fault.opens = some c

theorem placeholderPart_error {content : List Char} {fault : Fault}
    (h : placeholderPart content = .error fault) : fault.opens = some '\x7b' := by
  unfold placeholderPart at h
  split at h
  · cases h
    rfl
  · split at h
    · simp only at h
      split at h
      · cases h
      · cases h
        rfl
    · split at h
      · cases h
      · cases h
        rfl

/-- A faulty placeholder is reported at its brace, or at the quote of its literal. -/
theorem placeholder_error {opening : Nat} {cs : List Char} {e : Error}
    (h : placeholder opening cs = .error e) :
    (e.offset = opening ∧ e.fault.opens = some '\x7b') ∨
      ∃ rest, cs.dropWhile isBlank = '\'' :: rest ∧
        e.offset = opening + 1 + byteLength (cs.takeWhile isBlank) ∧ e.fault.opens = some '\'' := by
  unfold placeholder at h
  split at h
  · rename_i rest hquote
    simp only at h
    split at h
    · cases h
      exact .inr ⟨rest, hquote, rfl, rfl⟩
    · split at h
      · cases h
      · cases h
        exact .inl ⟨rfl, rfl⟩
  · split at h
    · split at h
      · cases h
      · rename_i hpart
        cases h
        exact .inl ⟨rfl, placeholderPart_error hpart⟩
    · cases h
      exact .inl ⟨rfl, rfl⟩

theorem linkKey_error {cs : List Char} {fault : Fault} (h : linkKey cs = .error fault) :
    fault.opens = some '@' := by
  unfold linkKey at h
  split at h
  · split at h
    · cases h
    · cases h
      rfl
  · cases h

theorem linked_error {opening : Nat} {modifier : Option (List Char)} {cs : List Char} {e : Error}
    (h : linked opening modifier cs = .error e) :
    e.offset = opening ∧ e.fault.opens = some '@' := by
  unfold linked at h
  split at h
  · rename_i hkey
    cases h
    exact ⟨rfl, linkKey_error hkey⟩
  · split at h
    · cases h
      exact ⟨rfl, rfl⟩
    · cases h

/-! ## Errors of the parser -/

/-- An error of the rest of a message points into the message. -/
theorem tokens_error {pos : Nat} {cs : List Char} {e : Error} (h : tokens pos cs = .error e) :
    ∀ {before : List Char}, byteLength before = pos → e.PointsInto (before ++ cs) := by
  -- what was taken goes to the text in front
  have hbehind : ∀ {before cs rest : List Char} {pos : Nat}, byteLength before = pos → rest <:+ cs →
      (∀ {before : List Char}, byteLength before = pos + byteLength cs - byteLength rest →
        e.PointsInto (before ++ rest)) → e.PointsInto (before ++ cs) := by
    intro before cs rest pos hpos hrest ih
    obtain ⟨taken, rfl, hoffset⟩ := offset_of_suffix hrest pos
    rw [← List.append_assoc]
    exact ih (by rw [hoffset, byteLength_append, hpos])
  have hchar : ∀ {before rest : List Char} {c : Char} {pos : Nat}, byteLength before = pos →
      (∀ {before : List Char}, byteLength before = pos + c.utf8Size → e.PointsInto (before ++ rest)) →
      e.PointsInto (before ++ c :: rest) := by
    intro before rest c pos hpos ih
    have hpoints := @ih (before ++ [c]) (by rw [byteLength_append, hpos]; rfl)
    rwa [List.append_assoc] at hpoints
  induction pos, cs using tokens.induct with
  | case1 pos =>
    rw [tokens_nil] at h
    cases h
  | case2 pos body e' he =>
    rw [tokens_placeholder_error he] at h
    cases h
    intro before hpos
    rcases placeholder_error he with ⟨hoffset, hopens⟩ | ⟨rest, hquote, hoffset, hopens⟩
    · exact ⟨before, '\x7b', body, rfl, hpos.trans hoffset.symm, hopens⟩
    -- the quote stands behind the brace and the blanks
    · refine ⟨before ++ '\x7b' :: body.takeWhile isBlank, '\'', rest, ?_, ?_, hopens⟩
      · rw [List.append_assoc, List.cons_append, ← hquote, List.takeWhile_append_dropWhile]
      · rw [byteLength_append, byteLength, hpos, hoffset]
        exact (Nat.add_assoc _ _ _).symm
  | case3 pos body part rest hread ih =>
    rw [tokens_placeholder hread] at h
    intro before hpos
    exact hbehind hpos ((placeholder_suffix hread).trans (List.suffix_cons _ _)) (ih (map_eq_error h))
  | case4 pos rest ih =>
    rw [tokens_bar] at h
    intro before hpos
    exact hchar hpos (ih (map_eq_error h))
  | case5 pos body hhead ih =>
    rw [tokens_char (by decide) (by decide) fun _ => hhead] at h
    intro before hpos
    exact hchar hpos (ih (map_eq_error h))
  | case6 pos body modifier key hhead e' he =>
    rw [tokens_link_error hhead he] at h
    cases h
    intro before hpos
    obtain ⟨hoffset, hopens⟩ := linked_error he
    exact ⟨before, '@', body, rfl, hpos.trans hoffset.symm, hopens⟩
  | case7 pos body modifier key hhead part rest hread ih =>
    rw [tokens_link hhead hread] at h
    intro before hpos
    have hrest := (linked_suffix hread).trans (linkHead?_suffix hhead)
    exact hbehind hpos (hrest.trans (List.suffix_cons _ _)) (ih (map_eq_error h))
  | case8 pos c rest hbrace hbar hat ih =>
    rw [tokens_char hbrace hbar fun h => absurd h hat] at h
    intro before hpos
    exact hchar hpos (ih (map_eq_error h))

theorem parse_error {message : List Char} {e : Error} (h : parse message = .error e) :
    e.PointsInto message := by
  unfold parse at h
  rcases bind_eq_error.1 h with htokens | ⟨ts, -, h⟩
  · exact @tokens_error 0 message e htokens [] rfl
  · cases h

/-! ## What is parsed -/

/-- The text that is parsed for a message. -/
def compiledText (message : List Char) (options : Options) : List Char :=
  if options.escapeHtml then escapeMarkup message else message

theorem compiledText_of_plain {options : Options} (h : options.escapeHtml = false)
    (message : List Char) : compiledText message options = message := by
  rw [compiledText, h]
  rfl

theorem prepare_eq_ok {message source : List Char} {options : Options} {warnings : List String}
    (h : prepare message options = .ok (source, warnings)) : source = compiledText message options := by
  unfold prepare at h
  unfold compiledText
  by_cases hescape : options.escapeHtml
  · rw [if_pos hescape] at h ⊢
    cases h
    rfl
  · rw [if_neg hescape] at h ⊢
    split at h
    · cases h
      rfl
    · split at h
      · cases h
      · cases h
        rfl

theorem findTag_points {cs : List Char} {pos offset : Nat} (h : findTag pos cs = some offset) :
    ∃ front back, cs = front ++ '<' :: back ∧ pos + byteLength front = offset := by
  induction cs generalizing pos with
  | nil => cases h
  | cons c cs ih =>
    rw [findTag] at h
    split at h
    · rename_i htag
      cases h
      exact ⟨[], cs, by rw [htag.1]; rfl, rfl⟩
    · obtain ⟨front, back, rfl, hoffset⟩ := ih h
      refine ⟨c :: front, back, rfl, ?_⟩
      rw [byteLength, ← hoffset, Nat.add_assoc]

theorem prepare_error {message : List Char} {options : Options} {e : Error}
    (h : prepare message options = .error e) : e.PointsInto (compiledText message options) := by
  unfold prepare at h
  unfold compiledText
  by_cases hescape : options.escapeHtml
  · rw [if_pos hescape] at h
    cases h
  · rw [if_neg hescape] at h ⊢
    split at h
    · cases h
    · rename_i offset htag
      split at h
      · cases h
        obtain ⟨front, back, hmessage, hoffset⟩ := findTag_points htag
        exact ⟨front, '<', back, hmessage, (Nat.zero_add _).symm.trans hoffset, rfl⟩
      · cases h

/-! ## The compiler -/

theorem compile_eq_ok {message : String} {options : Options} {path : List String}
    {compiled : CompiledMessage} (h : compile message options path = .ok compiled) :
    ∃ cases, parse (compiledText message.toList options) = .ok cases ∧
      represent cases (compiledText message.toList options) options path =
        (compiled.code, compiled.map) := by
  unfold compile at h
  obtain ⟨⟨source, warnings⟩, hprepare, h⟩ := bind_eq_ok.1 h
  obtain ⟨cases, hparse, h⟩ := bind_eq_ok.1 h
  obtain rfl := prepare_eq_ok hprepare
  cases h
  exact ⟨cases, hparse, rfl⟩

/-- An accepted message has code. -/
theorem code_ne_nil {message : String} {options : Options} {path : List String}
    {compiled : CompiledMessage} (h : compile message options path = .ok compiled) :
    compiled.code.toList ≠ [] := by
  obtain ⟨cases, -, hform⟩ := compile_eq_ok h
  unfold represent at hform
  split at hform
  · rw [← (Prod.mk.inj hform).1]
    simp [quotedChars, Json.quoted]
  · obtain ⟨opening, rest, hpieces, -⟩ := functionPieces_split cases
      (compiledText message.toList options) options.environment
    rw [← (Prod.mk.inj hform).1, toList_piecesCode, hpieces, piecesText, List.flatMap_append]
    refine List.append_ne_nil_of_right_ne_nil _ ?_
    rw [List.flatMap_cons]
    exact List.append_ne_nil_of_left_ne_nil (by decide) _

/-- Every error of the compiler points into the text that is parsed. -/
theorem compile_error {message : String} {options : Options} {path : List String} {e : Error}
    (h : compile message options path = .error e) :
    e.PointsInto (compiledText message.toList options) := by
  unfold compile at h
  rcases bind_eq_error.1 h with hprepare | ⟨⟨source, warnings⟩, hprepare, h⟩
  · exact prepare_error hprepare
  · obtain rfl := prepare_eq_ok hprepare
    rcases bind_eq_error.1 h with hparse | ⟨cases, -, h⟩
    · exact parse_error hparse
    · cases h

/-- The map of a compiled message leads to places between the characters of what is parsed. -/
theorem compile_map {message : String} {options : Options} {path : List String}
    {compiled : CompiledMessage} {map : SourceMap}
    (h : compile message options path = .ok compiled) (hmap : compiled.map = some map)
    (hsource : byteLength (compiledText message.toList options) < wordLimit)
    (hcode : units compiled.code.toList < wordLimit) :
    ∃ segments, map.decode = .ok segments ∧ ∀ s ∈ segments, ∃ r, map.reading s = some r ∧
      ∃ front back, compiledText message.toList options = front ++ back ∧
        (LineIndex.ofText (compiledText message.toList options)).position (byteLength front) =
          ⟨r.originLine + 1, r.originColumn, byteLength front⟩ := by
  obtain ⟨cases, hparse, hform⟩ := compile_eq_ok h
  unfold represent at hform
  split at hform
  · -- a deferred message has no map
    cases (Prod.mk.inj hform).2.trans hmap
  · obtain ⟨hcodeEq, hmapEq⟩ := Prod.mk.inj hform
    cases hmapEq.trans hmap
    rw [← hcodeEq, toList_piecesCode] at hcode
    obtain ⟨segments, hdecode, -, heach, -⟩ := compiledMap_tells hparse path hsource hcode
    refine ⟨segments, hdecode, fun s hs => ?_⟩
    obtain ⟨r, hr, code, front, back, -, hsplit, rfl⟩ := heach s hs
    refine ⟨_, hr, front, back, hsplit, ?_⟩
    rw [hsplit, position_append]

end MessageCatalog.Message
