/-
The table of columns of a token, exactly. Its places are those between the characters of the literal,
in order and each once; its columns grow from 0 to that of the closing quote; and where the token
spells the literal, the column of a character is that of its raw text. No cut that the table is made
with goes out of the token or into a character.
-/
import Mathlib.Data.List.Infix
import Mathlib.Data.List.Nodup
import MessageCatalog.Proofs.Emission.LiteralColumns

namespace MessageCatalog.Emission

open MessageCatalog.Code MessageCatalog.Script MessageCatalog.Text

/-! ## One character -/

theorem rawLength?_pos {raw : List Char} {quote c : Char} {length : Nat}
    (h : rawLength? raw quote c = some length) : 0 < length := by
  unfold rawLength? at h
  split at h
  · cases h
  · split at h
    · cases h
    · split at h
      · cases h
        exact Nat.succ_pos _
      · cases h
    · split at h
      · split at h
        · split at h
          · cases h
            decide
          · cases h
            decide
        · cases h
      · cases h
        decide
    · cases h
      decide
    · cases h
      decide
    · cases h
      exact Nat.add_pos_left Nat.one_pos _
  · rename_i first rest _
    split at h
    · cases h
      decide
    · split at h
      · cases h
        exact utf8Size_pos first
      · cases h

/-- The raw text of a character is the start of the raw text, and not empty. -/
theorem splitRaw?_eq_some {raw head tail : List Char} {quote c : Char}
    (h : splitRaw? raw quote c = some (head, tail)) : raw = head ++ tail ∧ head ≠ [] := by
  obtain ⟨length, hlength, hcut⟩ := Option.bind_eq_some_iff.1 h
  obtain ⟨hraw, hhead⟩ := cut?_eq_some hcut
  refine ⟨hraw.symm, ?_⟩
  rintro rfl
  have hpos := rawLength?_pos hlength
  rw [byteLength] at hhead
  omega

/-! ## What a table holds -/

/-- A table that leads from every place of the literal to columns that grow from one to another. -/
structure Climbs (place : Nat × Nat) (literal : List Char) (start stop : Nat) (table : ColumnTable) :
    Prop where
  places : table.map Prod.fst = literal.inits.map (advance place)
  increasing : (table.map Prod.snd).Pairwise (· < ·)
  first : (table.map Prod.snd).head? = some start
  last : (table.map Prod.snd).getLast? = some stop

theorem Climbs.start_le {place : Nat × Nat} {literal : List Char} {start stop : Nat} {table : ColumnTable}
    (h : Climbs place literal start stop table) : ∀ column ∈ table.map Prod.snd, start ≤ column := by
  obtain ⟨columns, hcolumns⟩ := List.head?_eq_some_iff.1 h.first
  have hincreasing := h.increasing
  rw [hcolumns] at hincreasing ⊢
  intro column hmem
  rcases List.mem_cons.1 hmem with rfl | hmem
  · exact Nat.le_refl _
  · exact Nat.le_of_lt (List.rel_of_pairwise_cons hincreasing hmem)

/-- A character in front moves the place, and its raw text the column. -/
theorem Climbs.cons {place : Nat × Nat} {c : Char} {literal : List Char} {start next stop : Nat}
    {table : ColumnTable} (hnext : start < next)
    (h : Climbs (if c = '\n' then (place.1 + 1, 0) else (place.1, place.2 + unitsOf c)) literal next stop
      table) : Climbs place (c :: literal) start stop ((place, start) :: table) where
  places := by
    rw [List.map_cons, h.places, List.inits_cons, List.map_cons, List.map_map]
    rfl
  increasing := by
    rw [List.map_cons]
    refine List.pairwise_cons.2 ⟨fun column hcolumn => ?_, h.increasing⟩
    exact Nat.lt_of_lt_of_le hnext (h.start_le column hcolumn)
  first := rfl
  last := by
    rw [List.map_cons, List.getLast?_cons, h.last]
    rfl

theorem columnsFrom_climbs {quote : Char} : ∀ {literal raw : List Char} {place : Nat × Nat} {column : Nat}
    {table : ColumnTable}, columnsFrom quote place column raw literal = some table →
    Climbs place literal column (column + units raw) table
  | [], raw, place, column, table, h => by
    rw [columnsFrom] at h
    split at h
    · rename_i hraw
      cases h
      subst hraw
      exact ⟨rfl, List.pairwise_singleton _ _, rfl, rfl⟩
    · cases h
  | c :: literal, raw, place, column, table, h => by
    obtain ⟨head, tail, others, hsplit, hothers, rfl⟩ := columnsFrom_cons h
    obtain ⟨rfl, hhead⟩ := splitRaw?_eq_some hsplit
    have hpos := units_pos hhead
    have hclimbs := columnsFrom_climbs hothers
    rw [Nat.add_assoc, ← units_append] at hclimbs
    exact hclimbs.cons (by omega)

/-- No place comes twice: a text that goes on moves the place. -/
theorem nodup_places (place : Nat × Nat) (literal : List Char) :
    (literal.inits.map (advance place)).Nodup := by
  induction literal generalizing place with
  | nil => exact List.nodup_singleton _
  | cons c literal ih =>
    rw [List.inits_cons, List.map_cons, List.map_map, List.nodup_cons]
    constructor
    · intro hmem
      obtain ⟨front, -, hfront⟩ := List.mem_map.1 hmem
      exact advance_ne (List.cons_ne_nil c front) place hfront
    · exact ih _

/-- The raw text of a token between quotes. -/
theorem units_between (quote : Char) (raw : List Char) (hquote : quote = '"' ∨ quote = '\'') :
    units (quote :: (raw ++ [quote])) - 2 = units raw := by
  have hunits : unitsOf quote = 1 := by
    rcases hquote with rfl | rfl <;> rfl
  rw [units, units_append, units, units, hunits]
  omega

/-- A token that has a table stands between quotes. -/
theorem literalColumns?_eq_some {raw literal : List Char} {table : ColumnTable}
    (h : literalColumns? raw literal = some table) :
    ∃ quote body, (quote = '"' ∨ quote = '\'') ∧ raw = quote :: (body ++ [quote]) ∧
      columnsFrom quote (0, 0) 0 body literal = some table := by
  unfold literalColumns? at h
  split at h
  · cases h
  · rename_i quote body
    split at h
    · rename_i hquoted
      obtain ⟨hquote, hlast, -⟩ := hquoted
      refine ⟨quote, body.dropLast, hquote, ?_, h⟩
      rw [List.dropLast_append_getLast? quote hlast]
    · cases h

theorem literalColumns?_climbs {raw literal : List Char} {table : ColumnTable}
    (h : literalColumns? raw literal = some table) :
    Climbs (0, 0) literal 0 (units raw - 2) table := by
  obtain ⟨quote, body, hquote, rfl, hcolumns⟩ := literalColumns?_eq_some h
  rw [units_between quote body hquote]
  have hclimbs := columnsFrom_climbs hcolumns
  rwa [Nat.zero_add] at hclimbs

/-! ## Cuts -/

/-- A cut that does not exist: behind the text, or inside of a character. -/
structure BadCut where
  text : List Char
  byte : Nat

/-- The text up to a byte and the text behind it. -/
def cutAt (byte : Nat) (text : List Char) : Except BadCut (List Char × List Char) :=
  match cut? byte text with
  | some parts => .ok parts
  | none => .error ⟨text, byte⟩

/-- The bytes that decode to `c` by the look of the raw text, where every part that is looked at is cut. -/
def rawLengthCut (raw : List Char) (quote c : Char) : Except BadCut (Option Nat) :=
  match raw with
  | [] => .ok none
  | '\\' :: escaped =>
    match escaped with
    | [] => .ok none
    | 'u' :: _ => do
      let (_, behind) ← cutAt 2 raw
      if behind.head? = some '\x7b' then
        return if raw.contains '\x7d' then some (byteLength (raw.takeWhile (· ≠ '\x7d')) + 1) else none
      else if 0xFFFF < c.toNat then
        match cut? 6 raw with
        | some (_, tail) => return some (if "\\u".toList.isPrefixOf tail then 12 else 6)
        | none => return none
      else return some 6
    | 'x' :: _ => .ok (some 4)
    | 'U' :: _ => .ok (some 10)
    | other :: _ => .ok (some (1 + other.utf8Size))
  | first :: _ =>
    if first = '\'' ∧ quote = '\'' ∧ c = '\'' then do
      let (_, behind) ← cutAt 1 raw
      return some (if behind.head? = some '\'' then 2 else 1)
    else if first = c then .ok (some first.utf8Size)
    else .ok none

/-- The table, with a fault where a cut does not exist. -/
def columnsCutFrom (quote : Char) (place : Nat × Nat) (column : Nat) (raw : List Char) :
    List Char → Except BadCut (Option ColumnTable)
  | [] => .ok (if raw = [] then some [(place, column)] else none)
  | c :: literal => do
    let some length ← rawLengthCut raw quote c | return none
    -- a length that is too great is no fault: the character is not found
    if (cut? length raw).isNone then return none
    let (head, tail) ← cutAt length raw
    let next := if c = '\n' then (place.1 + 1, 0) else (place.1, place.2 + unitsOf c)
    let rest ← columnsCutFrom quote next (column + units head) tail literal
    return rest.map ((place, column) :: ·)

/-- The table of a token, cut out from between its quotes. -/
def literalColumnsCut (raw literal : List Char) : Except BadCut (Option ColumnTable) :=
  match raw with
  | [] => .ok none
  | quote :: _ =>
    if ¬ (quote = '"' ∨ quote = '\'') then .ok none
    else if byteLength raw < 2 ∨ raw.getLast? ≠ some quote ∨ raw.contains '\n' then .ok none
    else do
      let (front, _) ← cutAt (byteLength raw - 1) raw
      let (_, body) ← cutAt 1 front
      columnsCutFrom quote (0, 0) 0 body literal

theorem cutAt_append (a b : List Char) : cutAt (byteLength a) (a ++ b) = .ok (a, b) := by
  rw [cutAt, cut?_append]

/-- What stands behind `\u` can be cut off, since these are one byte each. -/
theorem rawLengthCut_unicode (rest : List Char) (quote c : Char) :
    rawLengthCut ('\\' :: 'u' :: rest) quote c = .ok (rawLength? ('\\' :: 'u' :: rest) quote c) := by
  have hcut : cutAt 2 ('\\' :: 'u' :: rest) = .ok (['\\', 'u'], rest) :=
    cutAt_append ['\\', 'u'] rest
  rw [rawLengthCut, hcut]
  show (if rest.head? = some '\x7b' then _ else _) = _
  by_cases hbrace : rest.head? = some '\x7b'
  · obtain ⟨body, rfl⟩ := List.head?_eq_some_iff.1 hbrace
    have hcontains : ('\\' :: 'u' :: '\x7b' :: body).contains '\x7d' = body.contains '\x7d' := rfl
    have hlength : byteLength (('\\' :: 'u' :: '\x7b' :: body).takeWhile (· ≠ '\x7d')) =
        3 + byteLength (body.takeWhile (· ≠ '\x7d')) :=
      byteLength_append ['\\', 'u', '\x7b'] (body.takeWhile (· ≠ '\x7d'))
    rw [if_pos hbrace, rawLength?, hcontains, hlength]
    rfl
  · rw [if_neg hbrace, rawLength?]
    · by_cases hwide : 0xFFFF < c.toNat
      · rw [if_pos hwide, if_pos hwide]
        cases cut? 6 ('\\' :: 'u' :: rest) with
        | none => rfl
        | some parts => exact congrArg Except.ok (apply_ite some _ _ _)
      · rw [if_neg hwide, if_neg hwide]
        rfl
    · rintro body rfl
      exact hbrace rfl

theorem rawLengthCut_escape (escaped : List Char) (quote c : Char) :
    rawLengthCut ('\\' :: escaped) quote c = .ok (rawLength? ('\\' :: escaped) quote c) := by
  cases escaped with
  | nil => rfl
  | cons other rest =>
    by_cases hu : other = 'u'
    · subst hu
      exact rawLengthCut_unicode rest quote c
    by_cases hx : other = 'x'
    · subst hx
      rfl
    by_cases hU : other = 'U'
    · subst hU
      rfl
    · rw [rawLengthCut, rawLength?]
      all_goals first | exact hu | exact hx | exact hU | exact fun _ h _ => hu h

/-- What stands behind a quote can be cut off. -/
theorem rawLengthCut_quote (rest : List Char) :
    rawLengthCut ('\'' :: rest) '\'' '\'' = .ok (rawLength? ('\'' :: rest) '\'' '\'') := by
  have hcut : cutAt 1 ('\'' :: rest) = .ok (['\''], rest) := cutAt_append ['\''] rest
  have hread : rawLengthCut ('\'' :: rest) '\'' '\'' =
      .ok (some (if rest.head? = some '\'' then 2 else 1)) := by
    rw [rawLengthCut, hcut]
    · rfl
    · decide
  rw [hread, rawLength?]
  · by_cases hdoubled : rest.head? = some '\''
    · rw [if_pos hdoubled, if_pos ⟨rfl, rfl, rfl, hdoubled⟩]
    · rw [if_neg hdoubled, if_neg fun h => hdoubled h.2.2.2]
      rfl
  · decide

theorem rawLengthCut_eq (raw : List Char) (quote c : Char) :
    rawLengthCut raw quote c = .ok (rawLength? raw quote c) := by
  cases raw with
  | nil => rfl
  | cons first rest =>
    by_cases hescape : first = '\\'
    · subst hescape
      exact rawLengthCut_escape rest quote c
    by_cases hquote : first = '\'' ∧ quote = '\'' ∧ c = '\''
    · obtain ⟨rfl, rfl, rfl⟩ := hquote
      exact rawLengthCut_quote rest
    · have hdoubled : ¬ (first = '\'' ∧ quote = '\'' ∧ c = '\'' ∧ rest.head? = some '\'') :=
        fun h => hquote ⟨h.1, h.2.1, h.2.2.1⟩
      rw [rawLengthCut, if_neg hquote, rawLength?, if_neg hdoubled]
      · exact (apply_ite Except.ok _ _ _).symm
      · exact hescape
      · exact hescape

/-- A character is cut off only where the cut exists. -/
theorem columnsCutFrom_eq (quote : Char) (place : Nat × Nat) (column : Nat) (raw literal : List Char) :
    columnsCutFrom quote place column raw literal = .ok (columnsFrom quote place column raw literal) := by
  induction literal generalizing place column raw with
  | nil => rfl
  | cons c literal ih =>
    rw [columnsCutFrom, columnsFrom, rawLengthCut_eq, splitRaw?]
    cases rawLength? raw quote c with
    | none => rfl
    | some length =>
      show (if (cut? length raw).isNone then _ else _) = Except.ok ((cut? length raw).bind _)
      rw [cutAt]
      cases cut? length raw with
      | none => rfl
      | some parts =>
        obtain ⟨head, tail⟩ := parts
        show (columnsCutFrom quote _ _ tail literal).bind _ =
          Except.ok ((columnsFrom quote _ _ tail literal).bind _)
        rw [ih]
        cases columnsFrom quote _ _ tail literal <;> rfl

/-- The body of a token can be cut out from between its quotes, since these are one byte each. -/
theorem cutAt_quotes {quote : Char} (hquote : quote = '"' ∨ quote = '\'') (body : List Char) :
    cutAt (byteLength (quote :: (body ++ [quote])) - 1) (quote :: (body ++ [quote])) =
        .ok (quote :: body, [quote]) ∧
      cutAt 1 (quote :: body) = .ok ([quote], body) := by
  have hsize : byteLength [quote] = 1 := by
    rcases hquote with rfl | rfl <;> rfl
  constructor
  · have hcut := cutAt_append (quote :: body) [quote]
    rwa [← Nat.add_sub_cancel (byteLength (quote :: body)) 1, ← hsize, ← byteLength_append, hsize,
      List.cons_append] at hcut
  · have hcut := cutAt_append [quote] body
    rwa [hsize] at hcut

/-- A text that starts with a quote is a token on one line if its quote is closed. -/
theorem closed_iff {quote : Char} (hquote : quote = '"' ∨ quote = '\'') (body : List Char) :
    ¬ (byteLength (quote :: body) < 2 ∨ (quote :: body).getLast? ≠ some quote ∨
        (quote :: body).contains '\n' = true) ↔
      body.getLast? = some quote ∧ ¬ body.contains '\n' = true := by
  have hline : (quote :: body).contains '\n' = body.contains '\n' := by
    rcases hquote with rfl | rfl <;> rfl
  rw [hline, not_or, not_or, not_not]
  cases body with
  | nil =>
    have hshort : byteLength [quote] < 2 := by
      rcases hquote with rfl | rfl <;> decide
    exact ⟨fun h => absurd hshort h.1, fun h => nomatch h.1⟩
  | cons first body =>
    have hlong : ¬ byteLength (quote :: first :: body) < 2 := by
      have hquote := utf8Size_pos quote
      have hfirst := utf8Size_pos first
      rw [byteLength, byteLength]
      omega
    rw [List.getLast?_cons_cons]
    exact ⟨fun h => h.2, fun h => ⟨hlong, h⟩⟩

theorem literalColumnsCut_eq (raw literal : List Char) :
    literalColumnsCut raw literal = .ok (literalColumns? raw literal) := by
  cases raw with
  | nil => rfl
  | cons quote body =>
    rw [literalColumnsCut, literalColumns?]
    by_cases hquote : quote = '"' ∨ quote = '\''
    · rw [if_neg (not_not_intro hquote)]
      by_cases hclosed : body.getLast? = some quote ∧ ¬ body.contains '\n' = true
      · rw [if_neg ((closed_iff hquote body).2 hclosed), if_pos ⟨hquote, hclosed⟩]
        obtain ⟨inner, rfl⟩ : ∃ inner, body = inner ++ [quote] :=
          ⟨body.dropLast, (List.dropLast_append_getLast? quote hclosed.1).symm⟩
        obtain ⟨hclose, hopen⟩ := cutAt_quotes hquote inner
        rw [List.dropLast_concat, hclose]
        show (cutAt 1 (quote :: inner)).bind _ = _
        rw [hopen]
        exact columnsCutFrom_eq quote (0, 0) 0 inner literal
      · rw [if_pos (not_not.1 (mt (closed_iff hquote body).1 hclosed)), if_neg fun h => hclosed h.2]
    · rw [if_pos hquote, if_neg fun h => hquote h.1]

/-! ## The table of a token -/

/--
The columns of a token follow its escapes. A token in double quotes that spells the literal has a
table, in which every character of the literal has the column of the raw text that spells it, and the
end of the literal that of the closing quote. Any table leads from the places between the characters
of the literal, in order and each once, to columns that grow from 0 to that of the closing quote. And
no cut that a table is made with is behind the text or inside of a character.
-/
theorem literalColumns?_exact (raw literal : List Char) :
    (∀ body, raw = '"' :: (body ++ ['"']) → Spelled '"' body literal →
      ∃ table, literalColumns? raw literal = some table ∧
        (∀ front c back, literal = front ++ c :: back → ∃ rawFront escape rawBack,
          body = rawFront ++ (escape ++ rawBack) ∧ Spelled '"' rawFront front ∧ Spells '"' escape c ∧
            Spelled '"' rawBack back ∧ table.lookup (advance (0, 0) front) = some (units rawFront)) ∧
        table.lookup (advance (0, 0) literal) = some (units body)) ∧
    (∀ table, literalColumns? raw literal = some table →
      table.map Prod.fst = literal.inits.map (advance (0, 0)) ∧ (table.map Prod.fst).Nodup ∧
      (table.map Prod.snd).Pairwise (· < ·) ∧ (table.map Prod.snd).head? = some 0 ∧
      (table.map Prod.snd).getLast? = some (units raw - 2)) ∧
    literalColumnsCut raw literal = .ok (literalColumns? raw literal) := by
  refine ⟨?_, ?_, literalColumnsCut_eq raw literal⟩
  · rintro body rfl hspelled
    obtain ⟨table, htable, hlookup⟩ := literalColumns?_spelled (.inl rfl) hspelled
    refine ⟨table, htable, ?_, ?_⟩
    · rintro front c back rfl
      obtain ⟨rawFront, rawRest, rfl, hfront, hrest⟩ := hspelled.split
      cases hrest with
      | @cons escape rawBack _ _ hescape hback =>
        exact ⟨rawFront, escape, rawBack, rfl, hfront, hescape, hback, hlookup rfl rfl hfront⟩
    · exact hlookup (List.append_nil body).symm (List.append_nil literal).symm hspelled
  · intro table htable
    have hclimbs := literalColumns?_climbs htable
    refine ⟨hclimbs.places, ?_, hclimbs.increasing, hclimbs.first, hclimbs.last⟩
    rw [hclimbs.places]
    exact nodup_places (0, 0) literal

/-- A pair of surrogates, a line break and one more escape. -/
theorem literalColumns?_exact_pair :
    let literal := [Char.ofNat 0x1f600, '\n', '\u00e9']
    let body := "\\ud83d\\ude00\\n\\u00e9".toList
    Spelled '"' body literal ∧
      ∃ table, literalColumns? ('"' :: (body ++ ['"'])) literal = some table ∧
        table.lookup (1, 1) = some 20 ∧ table.map Prod.fst = [(0, 0), (0, 2), (1, 0), (1, 1)] ∧
        (table.map Prod.snd).Pairwise (· < ·) ∧
        literalColumnsCut ('"' :: (body ++ ['"'])) literal = .ok (some table) := by
  intro literal body
  have hspelled : Spelled '"' body literal :=
    .cons (.pair (by decide : "d83d".toList.length = 4) (by decide) (by decide)
        (by decide : "de00".toList.length = 4) (by decide) (by decide))
      (.cons (.simple (by decide)) (.single (.unit (by decide : "00e9".toList.length = 4) (by decide)
        (by decide) (by decide))))
  obtain ⟨hexists, hexact, hcut⟩ := literalColumns?_exact ('"' :: (body ++ ['"'])) literal
  obtain ⟨table, htable, -, hend⟩ := hexists body rfl hspelled
  obtain ⟨hplaces, -, hincreasing, -⟩ := hexact table htable
  rw [htable] at hcut
  exact ⟨hspelled, table, htable, hend, hplaces, hincreasing, hcut⟩

end MessageCatalog.Emission
