/-
Where a writer stands. Whatever calls it gets, its line and its column are those of the end of its
code, its calls only add code, and its map has one segment for every mapped call: from the end of the
code in front of that call to the place that the call was given.
-/
import MessageCatalog.Proofs.Code.Writer
import MessageCatalog.Proofs.SourceMap.Recording
import MessageCatalog.Proofs.Text.Position
import Mathlib.Data.List.DropRight

namespace MessageCatalog.Code

open MessageCatalog.Text

/-! ## The end of a text -/

theorem advance_line (place : Nat × Nat) (cs : List Char) :
    (advance place cs).1 = place.1 + cs.count '\n' := by
  induction cs generalizing place with
  | nil => rfl
  | cons c cs ih =>
    rw [advance, ih, List.count_cons]
    by_cases hc : c = '\n'
    · simp only [hc, if_true, beq_self_eq_true]
      omega
    · simp [hc]

theorem rtakeWhile_last_line {line : List Char} (h : '\n' ∉ line) (before : List Char) :
    (before ++ '\n' :: line).rtakeWhile (· ≠ '\n') = line := by
  have hline : ∀ c ∈ line.reverse, decide (c ≠ '\n') = true := by
    intro c hc
    refine decide_eq_true ?_
    rintro rfl
    exact h (List.mem_reverse.1 hc)
  rw [List.rtakeWhile, List.reverse_append, List.reverse_cons, List.append_assoc,
    List.takeWhile_append_of_pos hline, List.singleton_append,
    List.takeWhile_cons_of_neg (by simp), List.append_nil, List.reverse_reverse]

theorem advance_column (cs : List Char) :
    (advance (0, 0) cs).2 = units (cs.rtakeWhile (· ≠ '\n')) := by
  rcases last_line cs with h | ⟨before, line, rfl, h⟩
  · have hall : cs.rtakeWhile (· ≠ '\n') = cs := by
      rw [List.rtakeWhile_eq_self_iff]
      intro c hc
      refine decide_eq_true ?_
      rintro rfl
      exact h hc
    rw [hall, advance_of_not_mem h, Nat.zero_add]
  · rw [advance_last_line h, rtakeWhile_last_line h]

/-! ## Calls -/

/-- A call of a writer. -/
inductive WriterCall where
  | push (code : String)
  | pushLine (code : String)
  | pushMapped (code : String) (origin : Position) (name : Option String)
  | newline
  | indent
  | deindent
  deriving DecidableEq, Repr

namespace WriterCall

def apply (w : Writer) : WriterCall → Writer
  | push code => w.push code
  | pushLine code => w.pushLine code
  | pushMapped code origin name => w.pushMapped code origin name
  | newline => w.newline
  | indent => w.indent
  | deindent => w.deindent

/-- The level behind a call; the outermost one is not left. -/
def levelBehind (level : Nat) : WriterCall → Nat
  | indent => level + 1
  | deindent => level - 1
  | _ => level

/-- The code that a call adds at a level. -/
def added (level : Nat) : WriterCall → String
  | push code => code
  | pushLine code => code ++ Writer.lineBreak level
  | pushMapped code _ _ => code
  | newline => Writer.lineBreak level
  | indent => Writer.lineBreak (level + 1)
  | deindent => Writer.lineBreak (level - 1)

/-- The name that a call maps its code under. -/
def name? : WriterCall → Option String
  | pushMapped _ _ name => name
  | _ => none

end WriterCall

namespace Writer

/-- The writer after calls. -/
def after (source filename : String) (sourceMap : Bool) (calls : List WriterCall) : Writer :=
  calls.foldl WriterCall.apply (new source filename sourceMap)

/-- What a mapped call behind some code says: the end of that code comes from the place it was given. -/
def readingBehind (filename code : String) (origin : Position) (name : Option String) : Reading :=
  let stop := (LineIndex.ofString code).position (byteLength code.toList)
  ⟨stop.line - 1, stop.column, filename, origin.line - 1, origin.column, name⟩

/-- What one of the calls maps. -/
def Maps (source filename : String) (calls : List WriterCall) (r : Reading) : Prop :=
  ∃ front code origin name back, calls = front ++ .pushMapped code origin name :: back ∧
    r = readingBehind filename (after source filename true front).code origin name

/-- The line and the column of a writer are those of the end of its code, also by the line index. -/
structure AtEnd (w : Writer) : Prop where
  line : w.line = w.code.toList.count '\n'
  column : w.column = units (w.code.toList.rtakeWhile (· ≠ '\n'))
  position : (LineIndex.ofString w.code).position (byteLength w.code.toList) =
    ⟨w.line + 1, w.column, byteLength w.code.toList⟩

section

variable {source filename : String} {calls : List WriterCall} {w : Writer}

theorem after_snoc (sourceMap : Bool) (calls : List WriterCall) (call : WriterCall) :
    after source filename sourceMap (calls ++ [call]) =
      call.apply (after source filename sourceMap calls) := List.foldl_concat ..

/-! ## One call -/

/-- A call pushes what it adds, on a map that it has added a segment to if it is a mapped one. -/
theorem apply_eq (w : Writer) (call : WriterCall) :
    call.apply w = ({ w with map := (call.apply w).map }.push (call.added w.level)).atLevel
      (call.levelBehind w.level) := by
  cases call with
  | push => rfl
  | pushMapped => rfl
  | newline => exact newline_eq w
  | pushLine code => exact pushLine_eq w code
  | indent => exact indent_eq w
  | deindent => exact deindent_eq w

theorem apply_code (w : Writer) (call : WriterCall) :
    (call.apply w).code = w.code ++ call.added w.level := by
  rw [apply_eq]
  rfl

theorem apply_level (w : Writer) (call : WriterCall) :
    (call.apply w).level = call.levelBehind w.level := by
  rw [apply_eq]
  rfl

/-- The place of a writer is the one that its code leads to. -/
def Tracks (w : Writer) : Prop := (w.line, w.column) = advance (0, 0) w.code.toList

theorem Tracks.apply (h : w.Tracks) (call : WriterCall) : (call.apply w).Tracks := by
  rw [apply_eq]
  show advance (w.line, w.column) _ = advance (0, 0) (w.code ++ call.added w.level).toList
  rw [h, String.toList_append, advance_append]

theorem Tracks.atEnd (h : w.Tracks) : w.AtEnd := by
  obtain ⟨hline, hcolumn⟩ := Prod.mk.inj h
  refine ⟨?_, ?_, ?_⟩
  · rw [hline, advance_line, Nat.zero_add]
  · rw [hcolumn, advance_column]
  · have hposition := position_append w.code.toList []
    rw [List.append_nil] at hposition
    rw [LineIndex.ofString, hposition, hline, hcolumn]

/-! ## Runs -/

theorem after_tracks (sourceMap : Bool) (calls : List WriterCall) :
    (after source filename sourceMap calls).Tracks := by
  induction calls using List.reverseRecOn with
  | nil => rfl
  | append_singleton calls call ih =>
    rw [after_snoc]
    exact ih.apply call

theorem after_level (sourceMap : Bool) (calls : List WriterCall) :
    (after source filename sourceMap calls).level = calls.foldl WriterCall.levelBehind 0 := by
  induction calls using List.reverseRecOn with
  | nil => rfl
  | append_singleton calls call ih => rw [after_snoc, apply_level, ih, List.foldl_concat]

/-- The code does not depend on whether a map is kept. -/
theorem after_code (sourceMap sourceMap' : Bool) (calls : List WriterCall) :
    (after source filename sourceMap calls).code = (after source filename sourceMap' calls).code := by
  induction calls using List.reverseRecOn with
  | nil => rfl
  | append_singleton calls call ih =>
    rw [after_snoc, after_snoc, apply_code, apply_code, ih, after_level, after_level]

theorem after_extends (sourceMap : Bool) (front back : List WriterCall) :
    (after source filename sourceMap front).code.toList <+:
      (after source filename sourceMap (front ++ back)).code.toList := by
  induction back using List.reverseRecOn with
  | nil => simp only [List.append_nil, List.prefix_rfl]
  | append_singleton back call ih =>
    rw [← List.append_assoc, after_snoc, apply_code, String.toList_append]
    exact ih.trans (List.prefix_append _ _)

/-- A place in code that is short enough is made of words. -/
theorem Tracks.words (h : w.Tracks) {code : List Char} (hbegins : w.code.toList <+: code)
    (hcode : units code < wordLimit) : w.line < wordLimit ∧ w.column < wordLimit := by
  have hunits : units w.code.toList ≤ units code := by
    obtain ⟨behind, rfl⟩ := hbegins
    rw [units_append]
    exact Nat.le_add_right _ _
  have hcolumn := advance_column_le (0, 0) w.code.toList
  have hline := advance_line_le_units (0, 0) w.code.toList
  rw [← show (w.line, w.column) = _ from h] at hcolumn hline
  simp only [Nat.zero_add] at hcolumn hline
  exact ⟨by omega, by omega⟩

/-! ## The map -/

theorem maps_snoc {call : WriterCall} {r : Reading} : Maps source filename (calls ++ [call]) r ↔
    Maps source filename calls r ∨ ∃ code origin name, call = .pushMapped code origin name ∧
      r = readingBehind filename (after source filename true calls).code origin name := by
  constructor
  · rintro ⟨front, code, origin, name, back, hcalls, hr⟩
    rcases List.eq_nil_or_concat back with rfl | ⟨back, last, rfl⟩
    · obtain ⟨rfl, hcall⟩ := List.append_inj' hcalls rfl
      cases hcall
      exact .inr ⟨code, origin, name, rfl, hr⟩
    · rw [List.concat_eq_append, ← List.cons_append, ← List.append_assoc] at hcalls
      exact .inl ⟨front, code, origin, name, back, (List.append_inj' hcalls rfl).1, hr⟩
  · rintro (⟨front, code, origin, name, back, rfl, hr⟩ | ⟨code, origin, name, rfl, hr⟩)
    · exact ⟨front, code, origin, name, back ++ [call], by simp, hr⟩
    · exact ⟨calls, code, origin, name, [], rfl, hr⟩

/-- A writer keeps a builder with its one source that has recorded some readings. -/
def Keeps (source filename : String) (w : Writer) (readings : List Reading) : Prop :=
  ∃ b, w.map = some (b, 0) ∧ b.sources.toList = [filename] ∧ b.contents.toList = [some source] ∧
    b.Records readings

theorem new_keeps (source filename : String) : (new source filename true).Keeps source filename [] := by
  have hnew := SourceMapBuilder.addSource_new none filename
  have hrecords := (SourceMapBuilder.new_records none).addSource filename
  rw [hnew] at hrecords
  refine ⟨_, ?_, rfl, rfl, hrecords.setContent 0 source⟩
  rw [new, if_pos rfl, hnew]

/-- A mapped call records the end of the code in front of it. -/
theorem Keeps.pushMapped {readings : List Reading} (h : w.Keeps source filename readings)
    (htracks : w.Tracks) (code : String) (origin : Position) (name : Option String) :
    (w.pushMapped code origin name).Keeps source filename
      (readings ++ [readingBehind filename w.code origin name]) := by
  obtain ⟨b, hmap, hsources, hcontents, hrecords⟩ := h
  have hknown : b.sources.toList[0]? = some filename := by
    rw [hsources]
    rfl
  have hreading : readingBehind filename w.code origin name =
      ⟨w.line, w.column, filename, origin.line - 1, origin.column, name⟩ := by
    rw [readingBehind, htracks.atEnd.position]
    rfl
  refine ⟨b.addMapping w.line w.column 0 (origin.line - 1) origin.column name, ?_, ?_, ?_, ?_⟩
  · show w.map.map _ = _
    rw [hmap]
    rfl
  · rw [SourceMapBuilder.addMapping_sources, hsources]
  · rw [SourceMapBuilder.addMapping_contents, hcontents]
  · rw [hreading]
    exact hrecords.addMapping hknown _ _ _ _ _

theorem apply_map_of_unmapped {call : WriterCall}
    (h : ∀ code origin name, call ≠ .pushMapped code origin name) (w : Writer) :
    (call.apply w).map = w.map := by
  cases call with
  | pushMapped code origin name => exact absurd rfl (h code origin name)
  | push | newline | pushLine | indent | deindent => rfl

theorem after_keeps (source filename : String) (calls : List WriterCall) :
    ∃ readings, (after source filename true calls).Keeps source filename readings ∧
      ∀ r, r ∈ readings ↔ Maps source filename calls r := by
  induction calls using List.reverseRecOn with
  | nil =>
    refine ⟨[], new_keeps source filename, fun r => ⟨nofun, ?_⟩⟩
    rintro ⟨front, _, _, _, back, h, -⟩
    exact absurd h (by simp)
  | append_singleton calls call ih =>
    obtain ⟨readings, hkeeps, hmem⟩ := ih
    rw [after_snoc]
    by_cases hcall : ∃ code origin name, call = .pushMapped code origin name
    · obtain ⟨code, origin, name, rfl⟩ := hcall
      refine ⟨_, hkeeps.pushMapped (after_tracks true calls) code origin name, fun r => ?_⟩
      rw [List.mem_append, hmem, List.mem_singleton, maps_snoc]
      refine or_congr_right ⟨fun hr => ⟨code, origin, name, rfl, hr⟩, ?_⟩
      rintro ⟨_, _, _, ⟨⟩, hr⟩
      exact hr
    · push Not at hcall
      have hmap := apply_map_of_unmapped hcall (after source filename true calls)
      refine ⟨readings, by rwa [Keeps, hmap], fun r => ?_⟩
      rw [hmem, maps_snoc]
      refine ⟨.inl, ?_⟩
      rintro (hr | ⟨code, origin, name, heq, -⟩)
      · exact hr
      · exact absurd heq (hcall code origin name)

theorem after_unmapped (calls : List WriterCall) : (after source filename false calls).map = none := by
  induction calls using List.reverseRecOn with
  | nil => rfl
  | append_singleton calls call ih =>
    rw [after_snoc]
    cases call with
    | pushMapped code origin name =>
      show (after source filename false calls).map.map _ = none
      rw [ih]
      rfl
    | push | newline | pushLine | indent | deindent => exact ih

/-- The places that mapped calls are given are words, and so are the numbers of their names. -/
structure CallsFit (calls : List WriterCall) : Prop where
  origins : ∀ code origin name, .pushMapped code origin name ∈ calls →
    origin.line - 1 < wordLimit ∧ origin.column < wordLimit
  names : (calls.filterMap (·.name?)).eraseDups.length ≤ wordLimit

/-- What is mapped in code that is short enough is made of words. -/
theorem Maps.fits {r : Reading} (h : Maps source filename calls r) (hfit : CallsFit calls)
    (hcode : units (after source filename true calls).code.toList < wordLimit) : r.Fits := by
  obtain ⟨front, code, origin, name, back, rfl, rfl⟩ := h
  have htracks : (after source filename true front).Tracks := after_tracks true front
  obtain ⟨-, hcolumn⟩ := htracks.words (after_extends true front _) hcode
  obtain ⟨hline, horigin⟩ := hfit.origins code origin name (by simp)
  refine ⟨?_, hline, horigin⟩
  rw [readingBehind, htracks.atEnd.position]
  exact hcolumn

theorem Maps.name_mem {r : Reading} (h : Maps source filename calls r) {name : String}
    (hname : name ∈ r.name) : name ∈ (calls.filterMap (·.name?)).eraseDups := by
  obtain ⟨front, code, origin, found, back, rfl, rfl⟩ := h
  rw [List.mem_eraseDups, List.mem_filterMap]
  exact ⟨.pushMapped code origin found, by simp, hname⟩

/-- The map that is kept decodes to what was mapped, in order and once each. -/
theorem after_decodes (hfit : CallsFit calls)
    (hcode : units (after source filename true calls).code.toList < wordLimit) :
    ∃ (map : SourceMap) (segments : List Segment) (readings : List Reading),
      (after source filename true calls).finish.2 = some map ∧
      map.sources = [filename] ∧ map.sourcesContent = some [some source] ∧
      map.decode = .ok segments ∧ segments.Pairwise (·.key < ·.key) ∧
      segments.map map.reading = readings.map some ∧
      ∀ r, r ∈ readings ↔ Maps source filename calls r := by
  obtain ⟨recorded, ⟨b, hmap, hsources, hcontents, hrecords⟩, hmem⟩ :=
    after_keeps source filename calls
  have hfits : ∀ r ∈ recorded, r.Fits := fun r hr => ((hmem r).1 hr).fits hfit hcode
  have honeSource : b.sources.size ≤ wordLimit := by
    rw [← Array.length_toList, hsources]
    exact Nat.le_of_ble_eq_true rfl
  have hnames := hrecords.names_le (calls.filterMap (·.name?)).eraseDups
    fun r hr name hname => ((hmem r).1 hr).name_mem hname
  have hdecode := hrecords.decodes hfits honeSource (Nat.le_trans hnames hfit.names)
  obtain ⟨segments, readings, hsegments, hreadings, htold⟩ :=
    (hrecords.tells hfits honeSource (Nat.le_trans hnames hfit.names)).readings
  cases hdecode.symm.trans hsegments
  refine ⟨b.build, _, readings, ?_, hsources, ?_, hdecode,
    SourceMapBuilder.sortSegments_increasing _, hreadings,
    fun r => (htold r).trans (hmem r)⟩
  · rw [finish, hmap]
    rfl
  · exact SourceMapBuilder.build_sourcesContent hcontents

/--
A writer knows where it is after each of its calls: its line and its column are those of the end of
the code so far, as the line index finds it, and they are words. A call only adds code, every line
break with two blanks for each open level, and the outermost level is not left. At the end the map
decodes, in increasing order and each once, to what the mapped calls say: the end of the code in front
of each comes from the place and under the name it was given. Without a map the code is the same.
-/
theorem writer_tracks (hfit : CallsFit calls)
    (hcode : units (after source filename true calls).code.toList < wordLimit) :
    (∀ sourceMap front back, calls = front ++ back →
      let w := after source filename sourceMap front
      w.AtEnd ∧ w.line < wordLimit ∧ w.column < wordLimit ∧
        w.level = front.foldl WriterCall.levelBehind 0 ∧
        ∀ call ∈ back.head?, (call.apply w).code = w.code ++ call.added w.level) ∧
    (∃ (map : SourceMap) (segments : List Segment) (readings : List Reading),
      (after source filename true calls).finish =
        ((after source filename true calls).code, some map) ∧
      map.sources = [filename] ∧ map.sourcesContent = some [some source] ∧
      map.decode = .ok segments ∧ segments.Pairwise (·.key < ·.key) ∧
      segments.map map.reading = readings.map some ∧
      ∀ r, r ∈ readings ↔ Maps source filename calls r) ∧
    (after source filename false calls).finish = ((after source filename true calls).code, none) := by
  refine ⟨?_, ?_, ?_⟩
  · rintro sourceMap front back rfl
    intro w
    have htracks : w.Tracks := after_tracks sourceMap front
    have hbegins : w.code.toList <+: (after source filename true (front ++ back)).code.toList := by
      rw [show w.code = _ from after_code sourceMap true front]
      exact after_extends true front back
    obtain ⟨hline, hcolumn⟩ := htracks.words hbegins hcode
    exact ⟨htracks.atEnd, hline, hcolumn, after_level sourceMap front,
      fun call _ => apply_code w call⟩
  · obtain ⟨map, segments, readings, hmap, htold⟩ := after_decodes hfit hcode
    exact ⟨map, segments, readings, Prod.ext rfl hmap, htold⟩
  · rw [finish, after_unmapped, after_code false true]
    rfl

end

/--
Line breaks in pushed code, a character of two units, a level below the outermost one, and two equal
calls that say one thing.
-/
theorem writer_tracks_breaks :
    let origin : Position := ⟨0, 7, 7⟩
    let calls : List WriterCall := [.deindent, .push "𝕏\n𝕏", .pushMapped "" origin (some "n"),
      .pushMapped "" origin (some "n"), .indent, .pushMapped "x" ⟨3, 1, 9⟩ none, .pushLine ";"]
    CallsFit calls ∧ units (after "s" "a.json" true calls).code.toList < wordLimit ∧
      (after "s" "a.json" true calls).code = "\n𝕏\n𝕏\n  x;\n  " ∧
      (after "s" "a.json" true calls).line = 4 ∧ (after "s" "a.json" true calls).column = 2 ∧
      ∃ map segments, (after "s" "a.json" true calls).finish.2 = some map ∧
        map.decode = .ok segments ∧
        (∃ s ∈ segments, map.reading s = some ⟨2, 2, "a.json", 0, 7, some "n"⟩) ∧
        ∃ s ∈ segments, map.reading s = some ⟨3, 2, "a.json", 2, 1, none⟩ := by
  intro origin calls
  have hcode : (after "s" "a.json" true calls).code = "\n𝕏\n𝕏\n  x;\n  " := by decide +kernel
  have hshort : units (after "s" "a.json" true calls).code.toList < wordLimit := by
    rw [hcode]
    decide +kernel
  have hfit : CallsFit calls := by
    refine ⟨?_, by decide⟩
    intro code origin name hcall
    simp only [calls, List.mem_cons, List.not_mem_nil, or_false, reduceCtorEq, false_or,
      WriterCall.pushMapped.injEq] at hcall
    rcases hcall with ⟨-, rfl, -⟩ | ⟨-, rfl, -⟩ | ⟨-, rfl, -⟩ <;> decide
  obtain ⟨hall, ⟨map, segments, readings, hfinish, -, -, hdecode, -, hreadings, hmem⟩, -⟩ :=
    writer_tracks hfit hshort
  obtain ⟨hend, -⟩ := hall true calls [] (List.append_nil _).symm
  have hfound : ∀ r ∈ readings, ∃ s ∈ segments, map.reading s = some r := by
    intro r hr
    have hread : some r ∈ segments.map map.reading := by
      rw [hreadings]
      exact List.mem_map_of_mem hr
    exact List.mem_map.1 hread
  refine ⟨hfit, hshort, hcode, ?_, ?_, map, segments, congrArg Prod.snd hfinish, hdecode,
    hfound _ ((hmem _).2 ?_), hfound _ ((hmem _).2 ?_)⟩
  · rw [hend.line, hcode]
    decide +kernel
  · rw [hend.column, hcode]
    decide +kernel
  · exact ⟨[.deindent, .push "𝕏\n𝕏"], "", origin, some "n", _, rfl, by decide +kernel⟩
  · exact ⟨[.deindent, .push "𝕏\n𝕏", .pushMapped "" origin (some "n"),
      .pushMapped "" origin (some "n"), .indent], "x", ⟨3, 1, 9⟩, none, _, rfl, by decide +kernel⟩

end Writer

end MessageCatalog.Code
