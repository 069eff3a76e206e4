/-
Where the scalars of a YAML text stand. Every scalar and every key of a document has the place that its
event gives it. From the first character of a plain token on that is just the token. A quoted token is
found up to the next character that equals its quote, so just where its body holds none: a quote that is
doubled or escaped ends the span before the token does.
-/
import MessageCatalog.Proofs.Text.CharClass
import MessageCatalog.Proofs.Text.Position
import MessageCatalog.Proofs.Yaml.Building

namespace MessageCatalog.Yaml

open MessageCatalog.Text

/-! ## Scalars of a document -/

/-- A scalar of an event. -/
def IsRead (source : Source) (events : List Event) (s : Scalar) : Prop :=
  ∃ e ∈ events, ∃ style text anchor, e.kind = .scalar style text anchor ∧
    .scalar s = source.scalar e.index style text

/-- A node all of whose scalars and keys are those of events. -/
inductive ScalarsRead (source : Source) (events : List Event) : Node → Prop where
  | mapping {pairs : List (Key × Node)} {span : Span}
    (keys : ∀ pair ∈ pairs, ∃ s, IsRead source events s ∧ pair.1 = ⟨s.value.text, s.span⟩)
    (values : ∀ pair ∈ pairs, ScalarsRead source events pair.2) :
    ScalarsRead source events (.mapping pairs span)
  | sequence {items : List Node} {span : Span} (values : ∀ item ∈ items, ScalarsRead source events item) :
    ScalarsRead source events (.sequence items span)
  | scalar {s : Scalar} (read : IsRead source events s) : ScalarsRead source events (.scalar s)

theorem scalarsRead_inherited (source : Source) (events : List Event) :
    Inherited (ScalarsRead source events)
      fun key => ∃ s, IsRead source events s ∧ key = ⟨s.value.text, s.span⟩ where
  mapping _ _ h := .mapping (fun pair hpair => (h pair hpair).1) fun pair hpair => (h pair hpair).2
  sequence _ _ h := .sequence h
  key node key h hkey := by
    cases h with
    | scalar read =>
      cases hkey
      exact ⟨_, read, rfl⟩
    | mapping => cases hkey
    | sequence => cases hkey

/-- Every scalar and every key of a document is that of an event of the text. -/
theorem readResource_scalarsRead {text filename : String} {document : Document}
    (h : readResource text filename = .ok document) :
    ∃ events, readEvents text.toList = .ok events ∧
      ScalarsRead (.ofString text) events document.root := by
  unfold readResource at h
  simp only at h
  split at h
  · cases h
  · rename_i events hevents
    refine ⟨events, hevents, ?_⟩
    split at h
    · cases h
    · rename_i root hroot
      cases h
      cases root with
      | none => exact .mapping (List.forall_mem_nil _) (List.forall_mem_nil _)
      | some root =>
        refine buildTree_forall (scalarsRead_inherited _ _) ?_ hroot
        intro e he style literal anchor hkind
        exact .scalar ⟨e, he, style, literal, anchor, hkind, rfl⟩

/-! ## Offsets of characters -/

theorem offsetsFrom_getElem? (c : Char) (back : List Char) : ∀ (front : List Char) (offset : Nat),
    (offsetsFrom offset (front ++ c :: back))[front.length]? = some (offset + byteLength front)
  | [], _ => rfl
  | d :: front, offset => by
    rw [byteLength, ← Nat.add_assoc]
    exact offsetsFrom_getElem? c back front _

section

variable {text : String} {front token back : List Char}

/-- The offset of a character is the bytes in front of it. -/
theorem offset_ofString {c : Char} (h : text.toList = front ++ c :: back) :
    (Source.ofString text).offset front.length = byteLength front := by
  have hget := offsetsFrom_getElem? c back front 0
  rw [← h, Nat.zero_add] at hget
  unfold Source.offset Source.ofString
  simp only
  rw [Array.getD_eq_getD_getElem?, List.getElem?_toArray, hget]
  rfl

/-- A span between the ends of two characters holds what stands between them. -/
theorem span_holds {cs : List Char} (h : cs = front ++ (token ++ back)) {stop : Nat}
    (hstop : stop = byteLength front + byteLength token) :
    ((LineIndex.ofText cs).span (byteLength front) stop).start.offset = byteLength front ∧
      slice? cs ((LineIndex.ofText cs).span (byteLength front) stop).start.offset
        ((LineIndex.ofText cs).span (byteLength front) stop).stop.offset = some token := by
  have hsize : (LineIndex.ofText cs).size = byteLength front + byteLength token + byteLength back := by
    show byteLength cs = _
    rw [h, byteLength_append, byteLength_append, Nat.add_assoc]
  have hstart : ((LineIndex.ofText cs).span (byteLength front) stop).start.offset = byteLength front := by
    show min (byteLength front) (LineIndex.ofText cs).size = _
    omega
  have hend : ((LineIndex.ofText cs).span (byteLength front) stop).stop.offset =
      byteLength (front ++ token) := by
    show min stop (LineIndex.ofText cs).size = _
    rw [byteLength_append]
    omega
  refine ⟨hstart, ?_⟩
  rw [hstart, hend, h]
  exact slice?_append front token back

/-! ## Places of tokens -/

theorem differs_of_not_mem {a : Char} {cs : List Char} (h : a ∉ cs) :
    ∀ c ∈ cs, decide (c ≠ a) = true := by
  intro c hc
  refine decide_eq_true ?_
  rintro rfl
  exact h hc

/-- A plain scalar that is its token has just the token for its span, and starts with it. -/
theorem scalarPlace_plain {c : Char} (h : text.toList = front ++ (c :: token ++ back)) :
    let place := (Source.ofString text).scalarPlace front.length .plain (String.ofList (c :: token))
    slice? text.toList place.1.start.offset place.1.stop.offset = some (c :: token) ∧
      place.2 = place.1.start := by
  have hstart : (Source.ofString text).offset front.length = byteLength front := offset_ofString h
  have hholds := span_holds h rfl
  unfold Source.scalarPlace
  simp only [hstart, String.toList_ofList]
  exact ⟨hholds.2, rfl⟩

/-- A token in quotes is found up to the next quote character. -/
theorem quotedWidth_eq {quote : Char} (hquote : quote = '"' ∨ quote = '\'') {body : List Char}
    (hline : '\n' ∉ body) (rest : List Char) :
    quotedWidth (quote :: (body ++ quote :: rest)) =
      byteLength (quote :: (body.takeWhile (· ≠ quote) ++ [quote])) := by
  have hsize : quote.utf8Size = 1 := by
    rcases hquote with rfl | rfl <;> rfl
  have hfirst : decide (quote ≠ '\n') = true := by
    rcases hquote with rfl | rfl <;> rfl
  have htake : (quote :: (body ++ quote :: rest)).takeWhile (· ≠ '\n') =
      quote :: (body ++ quote :: rest.takeWhile (· ≠ '\n')) := by
    have hcons := fun cs =>
      List.takeWhile_cons_of_pos (p := fun c => decide (c ≠ '\n')) (l := cs) hfirst
    rw [hcons, List.takeWhile_append_of_pos (differs_of_not_mem hline), hcons]
  have hclosed : (body ++ quote :: rest.takeWhile (· ≠ '\n')).contains quote = true := by
    rw [List.contains_iff_mem]
    exact List.mem_append_right body List.mem_cons_self
  have hstop := takeWhile_stop (p := fun c => decide (c ≠ quote)) (decide_eq_false (not_not_intro rfl))
    body (rest.takeWhile (· ≠ '\n'))
  unfold quotedWidth
  simp only [htake]
  rw [if_pos (by rw [hsize, hclosed]; rfl), hstop, byteLength, byteLength_append, byteLength,
    byteLength, hsize]
  omega

/-- Behind an opening quote there is a first quote character, in the body or at its end. -/
theorem first_quote (quote : Char) (body back : List Char) : ∃ behind,
    body ++ quote :: back = body.takeWhile (· ≠ quote) ++ quote :: behind := by
  have hquote : decide (quote ≠ quote) = false := decide_eq_false (not_not_intro rfl)
  obtain ⟨run, behind, hsplit, hrun⟩ :=
    List.eq_append_cons_of_mem (List.mem_append_right body (List.mem_cons_self (a := quote) (l := back)))
  have hbody := takeWhile_stop (p := fun c => decide (c ≠ quote)) hquote body back
  rw [hsplit, (takeWhile_run_cons (differs_of_not_mem hrun) hquote behind).1] at hbody
  exact ⟨behind, hbody ▸ hsplit⟩

/--
The span of a token in quotes on one line ends behind the first quote character of its body, if there is
one, whether or not that is doubled or escaped; its content starts behind the opening quote.
-/
theorem scalarPlace_quoted {quote : Char} (hquote : quote = '"' ∨ quote = '\'') {body : List Char}
    (hline : '\n' ∉ body) (h : text.toList = front ++ (quote :: (body ++ [quote]) ++ back))
    (value : String) :
    let place := (Source.ofString text).scalarPlace front.length .quoted value
    slice? text.toList place.1.start.offset place.1.stop.offset =
        some (quote :: (body.takeWhile (· ≠ quote) ++ [quote])) ∧
      place.1.start.offset = byteLength front ∧ place.2.offset = byteLength front + 1 := by
  have htoken : text.toList = front ++ quote :: (body ++ quote :: back) := by
    rw [h]
    simp
  have hstart : (Source.ofString text).offset front.length = byteLength front := offset_ofString htoken
  have hwidth : quotedWidth (text.toList.drop front.length) =
      byteLength (quote :: (body.takeWhile (· ≠ quote) ++ [quote])) := by
    rw [htoken, List.drop_left]
    exact quotedWidth_eq hquote hline back
  obtain ⟨behind, hbehind⟩ := first_quote quote body back
  have hfound : text.toList = front ++ (quote :: (body.takeWhile (· ≠ quote) ++ [quote]) ++ behind) := by
    rw [htoken, hbehind]
    simp
  obtain ⟨hfirst, hholds⟩ := span_holds hfound rfl
  have hcontent : byteLength front + 1 ≤ byteLength text.toList := by
    have hpos := utf8Size_pos quote
    rw [htoken, byteLength_append, byteLength]
    omega
  unfold Source.scalarPlace
  simp only [hstart]
  rw [show (Source.ofString text).index = LineIndex.ofText text.toList from rfl,
    show (LineIndex.ofText text.toList).source = text.toList from rfl, hwidth]
  exact ⟨hholds, hfirst, Nat.min_eq_left hcontent⟩

/-- So the span is the token just where its body holds no quote character. -/
theorem scalarPlace_quoted_iff {quote : Char} (hquote : quote = '"' ∨ quote = '\'') {body : List Char}
    (hline : '\n' ∉ body) (h : text.toList = front ++ (quote :: (body ++ [quote]) ++ back))
    (value : String) :
    let place := (Source.ofString text).scalarPlace front.length .quoted value
    slice? text.toList place.1.start.offset place.1.stop.offset = some (quote :: (body ++ [quote])) ↔
      quote ∉ body := by
  intro place
  rw [(scalarPlace_quoted hquote hline h value).1]
  constructor
  · intro htoken hmem
    have hbody : body.takeWhile (· ≠ quote) = body :=
      List.append_cancel_right (List.cons.inj (Option.some.inj htoken)).2
    have hne := List.all_eq_true.1 List.all_takeWhile quote (hbody.symm ▸ hmem)
    exact of_decide_eq_true hne rfl
  · intro hnot
    have hbody : body.takeWhile (· ≠ quote) = body :=
      List.takeWhile_eq_self_iff.2 (differs_of_not_mem hnot)
    rw [hbody]

end

/-- A doubled quote ends the span early. -/
example : let text := "a: 'it''s'"
    let place := (Source.ofString text).scalarPlace 3 .quoted "it's"
    slice? text.toList place.1.start.offset place.1.stop.offset = some "'it'".toList := by decide +kernel

end MessageCatalog.Yaml
