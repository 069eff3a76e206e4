/-
Reading whole texts that are cut into the pieces of a content: a data text, and a module that exports
the content and does nothing else. Both are read as the content, and no statement is left over.
-/
import MessageCatalog.Proofs.Error
import MessageCatalog.Proofs.Script.Layout

namespace MessageCatalog.Script

open MessageCatalog.Text Reader

/-! ## The start of a text -/

section

variable {source : List Char} {ps : List Piece}

theorem ofText_at (setting : Setting source) (h : Cuts (offsetIn setting.size) source ps) :
    (ReaderState.ofText setting).At setting.size ps := by
  refine ⟨source, ⟨List.suffix_rfl, ?_, ?_, rfl, rfl⟩, h⟩
  · rw [← h.faultless]
    rfl
  · show (nextToken _ source).2.2.toArray = #[]
    rw [h.faultless]

theorem Setting.depth_le (setting : Setting source) (h : Cuts (offsetIn setting.size) source ps) :
    depthOf ps ≤ 4 * setting.size := by
  have hlength := length_le_byteLength source
  have hdepth := h.depth_le
  rw [setting.size_eq]
  omega

theorem ReaderState.At.allFaults {size : Nat} {s : ReaderState source} (h : s.At size ps) :
    s.allFaults = [] := by
  obtain ⟨cs, hfaces, -⟩ := h
  simp [ReaderState.allFaults, hfaces.tokenFaults, hfaces.faults, hfaces.openDefaults]

end

theorem run_ofText {α : Type} {typed : Bool} {text : List Char} (hsize : byteLength text ≤ sizeLimit)
    (r : Readers text → Reader text α) :
    run typed text r = r (readers (nestingBound (byteLength text))) (.ofText text { typed })
      (.ofText (.ofText text { typed })) :=
  if_pos hsize

/-! ## Modules -/

section

open StatementSyntax

variable {source : List Char} {setting : Setting source} {s s' : ReaderState source}
  {go : Readers source} {e : Expr source}

theorem moduleContents_ended (h : s.token.kind = .endOfText) :
    moduleContents go setting s = .ok (⟨0, #[], #[]⟩, s) := by
  simp [moduleContents, loop, repeatWhile, h]

theorem readModule_of_run {typed : Bool} {text : List Char} {s : ReaderState text}
    {contents : StatementSyntax.Contents text}
    (hrun : run typed text StatementSyntax.moduleContents = .ok (contents, s))
    (hfaults : s.allFaults = []) (hexports : repeatedExport [] contents.exports.toList = none) :
    readModule typed text = .ok contents := by
  simp only [readModule, hrun, hfaults, hexports]

/-- A text without tokens is a module without statements. -/
theorem readModule_trivia {typed : Bool} {text : List Char} (hsize : byteLength text ≤ sizeLimit)
    (h : Leads text []) : readModule typed text = .ok ⟨0, #[], #[]⟩ := by
  have hat := ofText_at (.ofText text { typed }) (.done h)
  exact readModule_of_run ((run_ofText hsize _).trans (moduleContents_ended hat.ended)) hat.allFaults rfl

theorem semicolon_ended (h : s.token.kind = .endOfText) : semicolon setting s = .ok ((), s) := by
  simp [semicolon, run_eat_of_ne, h, canOmitSemicolon]

/-- The default export of an object. -/
theorem exportStatement_object {ps : List Piece}
    (hs : s.At setting.size (.token (.name "export") :: .token (.name "default") ::
      .punctuator "\x7b" :: ps))
    (hvalue : go.assignment setting ((s.next setting).next setting) = .ok (e, s'))
    (hended : s'.token.kind = .endOfText) :
    exportStatement go setting s =
      .ok ((.exportDefault (some e), [("default", (s.next setting).token.start)]), s') := by
  have hexport := hs.kind_eq
  have hdefault := hs.next.at.kind_eq
  have hbrace := hs.next.at.next.at.kind_eq
  simp [exportStatement, expectWord, hexport, hdefault, hbrace, Expression.isAsyncFunction, hvalue,
    semicolon_ended hended]

theorem moduleContents_object {ps : List Piece}
    (hs : s.At setting.size (.token (.name "export") :: .token (.name "default") ::
      .punctuator "\x7b" :: ps))
    (hvalue : go.assignment setting ((s.next setting).next setting) = .ok (e, s'))
    (hended : s'.token.kind = .endOfText) :
    moduleContents go setting s =
      .ok (⟨0, #[⟨.exportDefault (some e), ⟨s.token.start, s'.previousStop⟩⟩],
        #[("default", (s.next setting).token.start)]⟩, s') := by
  have hexport := hs.kind_eq
  simp [moduleContents, loop, repeatWhile, hexport, exportStatement_object hs hvalue hended, hended]

/-- The pieces of a module that exports a content by default. -/
def modulePieces (c : Content) : List Piece :=
  .token (.name "export") :: .token (.name "default") :: contentPieces c

end

/-! ## Whole texts -/

theorem leaf_ne_mapping {l : Lowering} {pairs : List (Key × Node)} {span : Span} (e : Expr l.source) :
    l.leaf e ≠ .ok (.mapping pairs span) := by
  unfold Lowering.leaf
  repeat' split
  all_goals nofun

/-- An expression that is lowered to a mapping is an object behind its wrappers. -/
theorem unwrapped_of_mapping {l : Lowering} {pairs : List (Key × Node)} {span : Span} :
    ∀ {e : Expr l.source}, l.node e = .ok (.mapping pairs span) →
      ∃ properties x, e.unwrapped = .object properties x
  | .object properties x, _ => ⟨properties, x, rfl⟩
  | .parenthesized inner x, h => by
    unfold Lowering.node at h
    split at h
    · exact unwrapped_of_mapping (e := inner) h
    · cases h
  | .ascribed inner x, h => by
    unfold Lowering.node at h
    split at h
    · exact unwrapped_of_mapping (e := inner) h
    · cases h
  | .array elements x, h => by
    unfold Lowering.node at h
    obtain ⟨items, -, h⟩ := bind_eq_ok.1 h
    cases h
  | .string _, h | .number _ _, h | .bool _ _, h | .null _, h | .identifier _ _, h | .template _ _, h
  | .signed _ _ _, h | .member _, h | .assignment _ _, h | .logical _, h | .function _, h
  | .other _, h => absurd h (leaf_ne_mapping _)

/-- An expression that is an object behind its wrappers is lowered to a mapping. -/
theorem mapping_of_unwrapped {l : Lowering} {root : Node} :
    ∀ {e : Expr l.source} {properties : List (Property l.source)} {x : Extent},
      e.unwrapped = .object properties x → l.node e = .ok root → ∃ pairs span, root = .mapping pairs span
  | .object properties x, _, _, _, hroot => by
    unfold Lowering.node at hroot
    obtain ⟨pairs, -, hroot⟩ := bind_eq_ok.1 hroot
    cases hroot
    exact ⟨pairs, _, rfl⟩
  | .parenthesized inner x, _, _, hobject, hroot => by
    unfold Lowering.node at hroot
    split at hroot
    · exact mapping_of_unwrapped (e := inner) hobject hroot
    · cases hroot
  | .ascribed inner x, _, _, hobject, hroot => by
    unfold Lowering.node at hroot
    split at hroot
    · exact mapping_of_unwrapped (e := inner) hobject hroot
    · cases hroot
  | .string _, _, _, h, _ | .number _ _, _, _, h, _ | .bool _ _, _, _, h, _ | .null _, _, _, h, _
  | .identifier _ _, _, _, h, _ | .template _ _, _, _, h, _ | .array _ _, _, _, h, _
  | .signed _ _ _, _, _, h, _ | .member _, _, _, h, _ | .assignment _ _, _, _, h, _ | .logical _, _, _, h, _
  | .function _, _, _, h, _ | .other _, _, _, h, _ => nomatch h

/-- The root of a module is a mapping. -/
theorem root_of_readResourceModule {source filename : String} {document : Document} {warnings : List String}
    (h : readResourceModule source filename = (.ok document, warnings)) :
    document.filename = filename ∧ ∃ pairs span, document.root = .mapping pairs span := by
  unfold readResourceModule at h
  dsimp only at h
  split at h
  · cases h
  · obtain ⟨h, -⟩ := Prod.mk.inj h
    split at h
    · cases h
    · cases h
    · split at h
      · rename_i hobject
        obtain ⟨root, hroot, rfl⟩ := map_eq_ok h
        exact ⟨rfl, mapping_of_unwrapped hobject hroot⟩
      · cases h

/-- The text behind an offset of a text. -/
theorem cut?_offsetIn {cs text : List Char} {size : Nat} (hsize : size = byteLength text)
    (h : cs <:+ text) : ∃ before, cut? (offsetIn size cs) text = some (before, cs) := by
  obtain ⟨before, rfl⟩ := h
  refine ⟨before, ?_⟩
  rw [offsetIn, hsize, byteLength_append, Nat.add_sub_cancel, cut?_append]

section

variable {text filename : String}

theorem readExpression_content {l : Lowering} {c : Content} (hsize : byteLength l.source ≤ sizeLimit)
    (hcode : c.Every (fun _ => True) fun _ => False)
    (hcuts : ∀ offset, Cuts offset l.source (contentPieces c)) :
    ∃ e cs, readExpression l.source = .ok e ∧ Lowers l c e ∧
      e.extent.stop = offsetIn (byteLength l.source) cs ∧ cs <:+ l.source ∧ Leads cs [] := by
  let setting : Setting l.source := .ofText l.source { typed := false }
  have hat := ofText_at setting (hcuts _)
  have hdepth := setting.depth_le (hcuts _)
  have hreads := content_reads setting rfl c
    (Nat.le_add_right_of_le hdepth : _ ≤ 4 * byteLength l.source + 15)
    (hcode.mono (fun _ h => h) fun _ h => h.elim)
  have hfollows : Follows [] c := by
    cases hcode with
    | verbatim h => exact h.elim
    | _ => exact .inl rfl
  rw [← List.append_nil (contentPieces c)] at hat
  obtain ⟨-, e, s', hread, ⟨cs, hfaces, hend, hstop⟩, hlowers, hextent⟩ := hreads hat hfollows
  have hended : s'.token.kind = .endOfText := ReaderState.At.ended ⟨cs, hfaces, hend⟩
  have hfaults : s'.allFaults = [] := ReaderState.At.allFaults ⟨cs, hfaces, hend⟩
  have hrun : run false l.source (·.expression) = .ok (e, s') :=
    (run_ofText hsize _).trans (expression_ended hread hended)
  refine ⟨e, cs, ?_, hlowers, hextent.trans hstop, hfaces.inSource, ?_⟩
  · simp only [readExpression, hrun, hfaults]
  · cases hend with
    | done leads => exact leads

/-- A data text is read as the content that it is cut into. -/
theorem readData_content {c : Content} (hsize : byteLength text.toList ≤ sizeLimit)
    (hcode : c.Every (fun _ => True) fun _ => False)
    (hcuts : ∀ offset, Cuts offset text.toList (contentPieces c)) :
    ∃ root, readData text filename = .ok ⟨root, filename⟩ ∧ root.content = c := by
  obtain ⟨e, cs, hread, ⟨root, hnode, hcontent⟩, hstop, hsuffix, hleads⟩ :=
    readExpression_content (l := .new text filename .data) hsize hcode hcuts
  -- what stands behind the value is checked to be a module without statements
  obtain ⟨before, hcut⟩ := cut?_offsetIn rfl hsuffix
  have hrest : byteLength cs ≤ sizeLimit := Nat.le_trans (byteLength_le_of_suffix hsuffix) hsize
  have htrivia : onlyTrivia cs = true := by rw [onlyTrivia, readModule_trivia hrest hleads]; rfl
  refine ⟨root, ?_, hcontent⟩
  simp only [readData, hread, hstop, hcut, Option.getD_some, htrivia, hnode]
  rfl

theorem readModule_content {l : Lowering} {typed : Bool} {pairs : List (String × Content)}
    (hsize : byteLength l.source ≤ sizeLimit)
    (hcode : (Content.mapping pairs).Every (fun _ => True) (ReadableCode l typed))
    (hcuts : ∀ offset, Cuts offset l.source (modulePieces (.mapping pairs))) :
    ∃ e x names, readModule typed l.source = .ok ⟨0, #[⟨.exportDefault (some e), x⟩], names⟩ ∧
      Lowers l (.mapping pairs) e := by
  let setting : Setting l.source := .ofText l.source { typed }
  have hat : (ReaderState.ofText setting).At setting.size (modulePieces (.mapping pairs)) :=
    ofText_at setting (hcuts _)
  have hdepth : depthOf (modulePieces (.mapping pairs)) ≤ 4 * setting.size := setting.depth_le (hcuts _)
  have hvalue : depthOf (contentPieces (.mapping pairs)) ≤ nestingBound setting.size := by
    rw [modulePieces, depthOf_cons, depthOf_cons] at hdepth
    rw [nestingBound]
    omega
  have hreads := content_reads setting rfl (.mapping pairs) hvalue hcode
  have hnext := hat.next.at.next.at
  rw [← List.append_nil (contentPieces _)] at hnext
  obtain ⟨-, e, s', hread, hbehind, hlowers, -⟩ := hreads hnext (.inl rfl)
  refine ⟨e, ⟨(ReaderState.ofText setting).token.start, s'.previousStop⟩,
    #[("default", ((ReaderState.ofText setting).next setting).token.start)], ?_, hlowers⟩
  have hrun := (run_ofText hsize _).trans (moduleContents_object hat hread hbehind.at.ended)
  exact readModule_of_run hrun hbehind.at.allFaults rfl

/-- A module that exports an object by default and holds nothing else is read as its content. -/
theorem readResourceModule_content {pairs : List (String × Content)}
    (hsize : byteLength text.toList ≤ sizeLimit)
    (hcode : (Content.mapping pairs).Every (fun _ => True)
      fun code => ReadsAsFunction (isTypedName filename) code.toList)
    (hcuts : ∀ offset, Cuts offset text.toList (modulePieces (.mapping pairs))) :
    ∃ root, readResourceModule text filename = (.ok ⟨root, filename⟩, []) ∧
      root.content = .mapping pairs := by
  obtain ⟨e, x, names, hread, root, hnode, hcontent⟩ :=
    readModule_content (l := .new text filename .module) hsize
      (hcode.mono (fun _ h => h) fun _ h => ⟨rfl, h⟩) hcuts
  cases root with
  | mapping nodes span =>
    obtain ⟨properties, y, hobject⟩ := unwrapped_of_mapping hnode
    refine ⟨.mapping nodes span, ?_, hcontent⟩
    simp only [readResourceModule, hread]
    simp [defaultExport, ignoredStatements, hobject, hnode, Except.map]
  | _ => cases hcontent

end

end MessageCatalog.Script
