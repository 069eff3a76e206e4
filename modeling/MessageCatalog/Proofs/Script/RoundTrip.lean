/-
A module that is read and written is read again as the same resource: keys in their order with all
repeats, nesting, strings, booleans, nulls, numbers and the codes of functions. Functions are taken on
trust: each must be read as itself wherever a value is written, which the codes of some functions are
not, because what stands behind them can be taken for a part of them.
-/
import MessageCatalog.Proofs.Script.WriteBack

namespace MessageCatalog.Script

open MessageCatalog.Text Reader Expression

/-! ## A function that can be told where it stands -/

section

variable {source : List Char} {setting : Setting source} {s s' : ReaderState source}

theorem ReaderState.Faces.onNewLine {size : Nat} {c : Char} {rest : List Char} (h : s.Faces size (c :: rest))
    (hc : startsLexeme c = true) : s.token.onNewLine = false := by
  have hcut := h.cut
  unfold nextToken at hcut
  rw [skipTrivia_lexeme hc] at hcut
  rw [← (Prod.mk.inj hcut).1]

/-- A lexeme in front of the reader is its token, and taking it leads to what is behind it. -/
theorem IsLexeme.advanced {text cs rest : List Char} {kind : TokenKind} {ps : List Piece}
    (h : IsLexeme text kind rest) (hfaces : s.Faces setting.size cs) (hleads : Leads cs (text ++ rest))
    (hcuts : Cuts (offsetIn setting.size) rest ps) :
    s.token.kind = kind ∧ (s.next setting).Faces setting.size rest ∧
      (s.next setting).previousStop = offsetIn setting.size rest := by
  obtain ⟨_, atStart, hnext⟩ := hleads.nextToken (offsetIn setting.size)
  rw [hfaces.cut, h.2] at hnext
  obtain ⟨htoken, hrest⟩ := Prod.mk.inj hnext
  have hkind : s.token.kind = kind := by rw [htoken]
  exact ⟨hkind, hfaces.advanced (Prod.mk.inj hrest).1 hcuts⟩

theorem isLexeme_parameter (rest : List Char) : IsLexeme ['x'] (.name "x") ('=' :: rest) :=
  ⟨⟨_, _, rfl, by decide⟩, fun _ _ => rfl⟩

theorem binary_parameter {depth : Nat} (hname : s.token.kind = .name "x")
    (harrow : (s.next setting).token.kind = .punctuator "=>") :
    readers (depth + 2) (.binary 0) setting s =
      .ok (.identifier "x" ⟨s.token.start, s.token.stop⟩, s.next setting) := by
  have hprimary : primary (readers depth) setting s =
      .ok (.identifier "x" ⟨s.token.start, s.token.stop⟩, s.next setting) := by
    simp [primary, hname, isAsyncFunction, isIdentifierWord, reservedWords, isOperatorWord]
  have hunary : (readers (depth + 1)).unary setting s =
      .ok (.identifier "x" ⟨s.token.start, s.token.stop⟩, s.next setting) := by
    show unary (readers depth) setting s = _
    simp [unary, isAwait, hname, update, leftHandSide, hprimary, accesses, loop, repeatWhile, harrow]
  show binary (readers (depth + 1)) 0 setting s = _
  simp [binary, operand, hname, hunary, loop, repeatWhile, recutAngle, harrow, levelOf]
  rfl

/-- A parameter, an arrow on the same line and an expression behind it. -/
theorem assignment_arrow {depth : Nat} {e : Expr source} (hname : s.token.kind = .name "x")
    (harrow : (s.next setting).token.kind = .punctuator "=>")
    (hline : (s.next setting).token.onNewLine = false)
    (hbrace : ((s.next setting).next setting).token.kind ≠ .punctuator "\x7b")
    (hbody : ∀ around, (readers (depth + 2)).assignment { setting with around }
      ((s.next setting).next setting) = .ok (e, s')) :
    (readers (depth + 3)).assignment setting s = .ok (.function ⟨s.token.start, s'.previousStop⟩, s') := by
  have hbinary : readers (depth + 2) (.binary 0) setting s =
      .ok (.identifier "x" ⟨s.token.start, s.token.stop⟩, s.next setting) := binary_parameter hname harrow
  have harrowBody : arrowBody (readers (depth + 2)) false true setting ((s.next setting).next setting) =
      .ok (⟨⟩, s') := by
    simp only [arrowBody, run_bind, run_isPunctuator, ok_bind, hbrace, beq_eq_false_iff_ne.2, ne_eq,
      not_false_eq_true, Bool.false_eq_true, if_false, run_around, run_within]
    exact (congrArg (fun r => Except.bind r _) (hbody _)).trans rfl
  show Expression.assignment (readers (depth + 2)) true setting s = _
  simp [Expression.assignment, isYield, hname, tryArrow, likelyArrow, isAsyncArrow, hbinary, harrow, hline,
    harrowBody]

end

/-- The code of a function that gives a text. -/
def constantFunction (text : String) : String := "x=>" ++ Json.quoted text

theorem constantFunction_toList (text : String) :
    (constantFunction text).toList = ['x'] ++ (['=', '>'] ++ (Json.quoted text).toList) := by
  simp [constantFunction]

/-- A function that gives a text is read as itself, whatever the text is. -/
theorem isFunctionCode_constant (typed : Bool) (text : String) :
    IsFunctionCode typed (constantFunction text) := by
  constructor
  · intro rest hrest
    rw [constantFunction_toList]
    refine ⟨⟨'x', _, rfl, by decide⟩, fun offset => ?_⟩
    have hcut := (isLexeme_parameter ('>' :: ((Json.quoted text).toList ++ rest))).2 offset
    exact ⟨.name "x", _, rfl, hcut⟩
  · intro source setting s cs rest ps depth haround hfaces hleads hcuts hcloses hdepth
    have hlength : 4 ≤ (constantFunction text).toList.length := by
      rw [constantFunction_toList, Json.toList_quoted]
      simp
    obtain ⟨d, rfl⟩ := Nat.exists_eq_add_of_le' (show 4 ≤ depth by omega)
    have hquoted : IsLexeme (Json.quoted text).toList (.string text) rest := isLexeme_quoted text
    have hstring := hquoted.cuts hcuts
    have harrow := (isLexeme_arrow _).cuts hstring
    -- the parameter, the arrow and the text are the three tokens of the code
    rw [constantFunction_toList, List.append_assoc, List.append_assoc] at hleads
    obtain ⟨hname, hfaces₁, -⟩ := (isLexeme_parameter _).advanced hfaces hleads harrow
    obtain ⟨hkind₁, hfaces₂, -⟩ := (isLexeme_arrow _).advanced hfaces₁ (leads_lexeme (by decide)) hstring
    have hleads₂ : Leads ((Json.quoted text).toList ++ rest) ((Json.quoted text).toList ++ rest) := by
      rw [Json.toList_quoted]
      exact leads_lexeme (by decide)
    obtain ⟨hkind₂, hfaces₃, hstop⟩ := hquoted.advanced hfaces₂ hleads₂ hcuts
    obtain ⟨literal, hliteral, -⟩ := stringLiteral?_eq hkind₂
    have hclosed := ReaderState.At.closes ⟨rest, hfaces₃, hcuts⟩ (.inr hcloses)
    have hbody : ∀ around, (readers (d + 3)).assignment { setting with around }
        ((s.next setting).next setting) =
          .ok (.string literal, ((s.next setting).next setting).next setting) := by
      intro around
      refine readers_operand (by rw [hkind₂]; rfl) ?_ hclosed
      simp [primary, hkind₂, hliteral]
      rfl
    refine ⟨_, ?_, hfaces₃, hstop⟩
    rw [← hstop]
    exact assignment_arrow hname hkind₁ (hfaces₁.onNewLine (by decide)) (by simp [hkind₂]) hbody

/-! ## Modules -/

/--
A module that is read is written as a module that is read as the same resource, without a warning, if
every function in it is read as itself where a value is written. Equal contents have the same keys in
the same order, repeats included, the same nesting, the same leaves and the same codes; only the sign of
a zero is left out of them, which no text shows. So both are written as the same text.
-/
theorem readResourceModule_rewritten {source filename : String} {document : Document} {warnings : List String}
    (hread : readResourceModule source filename = (.ok document, warnings))
    (hcodes : ∀ code ∈ document.root.content.codes, IsFunctionCode (isTypedName filename) code)
    (hsize : byteLength (writeModule document).toList ≤ sizeLimit) :
    ∃ root, readResourceModule (writeModule document) filename = (.ok ⟨root, filename⟩, []) ∧
      root.content = document.root.content ∧ writeModule ⟨root, filename⟩ = writeModule document := by
  obtain ⟨hfilename, pairs, span, hroot⟩ := root_of_readResourceModule hread
  have hmapping : ∃ pairs, document.root.content = .mapping pairs := by
    rw [hroot]
    exact ⟨pairContents pairs, rfl⟩
  have hevery := Content.every_of_codes hcodes
  obtain ⟨root, hreread, hcontent⟩ := readResourceModule_writeModule hmapping hevery hsize
  refine ⟨root, hreread, hcontent, ?_⟩
  rw [← String.toList_inj, writeModule_toList, writeModule_toList]
  exact congrArg (fun c => "export default ".toList ++ (contentText numberChars 0 c ++ ['\n'])) hcontent

/-- Wrappers, a template, a repeated key, signed numbers without digits and a function. -/
theorem readResourceModule_rewritten_wrapped :
    let source := "export default \x7b en: [(x=>\"a'b\"), -Infinity, -0], 'e\\x6e': \x60q\x60 \x7d as const"
    ∃ document root, readResourceModule source "b.ts" = (.ok document, []) ∧
      document.root.content.codes = [constantFunction "a'b"] ∧
      readResourceModule (writeModule document) "b.ts" = (.ok ⟨root, "b.ts"⟩, []) ∧
      root.content = document.root.content ∧ writeModule ⟨root, "b.ts"⟩ = writeModule document := by
  intro source
  have hresult : (readResourceModule source "b.ts").1.toOption.map
      (fun d => (d.root.content.codes, decide (byteLength (writeModule d).toList ≤ sizeLimit))) =
        some ([constantFunction "a'b"], true) := by
    decide +kernel
  have hwarnings : (readResourceModule source "b.ts").2 = [] := by decide +kernel
  obtain ⟨document, hdocument, hfacts⟩ := Option.map_eq_some_iff.1 hresult
  obtain ⟨hcodes, hsize⟩ := Prod.mk.inj hfacts
  have hread : readResourceModule source "b.ts" = (.ok document, []) :=
    Prod.ext (ok_of_toOption hdocument) hwarnings
  have hfunctions : ∀ code ∈ document.root.content.codes, IsFunctionCode (isTypedName "b.ts") code := by
    intro code hcode
    rw [hcodes, List.mem_singleton] at hcode
    rw [hcode]
    exact isFunctionCode_constant _ _
  obtain ⟨root, hreread⟩ := readResourceModule_rewritten hread hfunctions (of_decide_eq_true hsize)
  exact ⟨document, root, hread, hcodes, hreread⟩

end MessageCatalog.Script
