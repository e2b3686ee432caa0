import TemplateReader.Proofs.Bytes.Place
import TemplateReader.Proofs.Script.Statement
import TemplateReader.Script.Imports

/-!
# Scripts made of segments

A script may be written as a sequence of segments: whitespace, comments, string
statements and import statements. Behind every segment a statement may start
again, so the scan finds exactly the imports that are written out as such, and
none inside a comment or a string, whatever these hold.
-/

namespace TemplateReader

/-- What ends a comment between statements. -/
def blockClosing : List Char := ['*', '/']

/-- A part of a script behind which a statement may start. -/
inductive Segment where
  /-- Some whitespace. -/
  | space (gap : Gap)
  /-- A comment between its marks. -/
  | block (body : { text : List Char // ¬blockClosing <:+: text })
  /-- A comment up to the end of a line. -/
  | line (body : { text : List Char // '\n' ∉ text })
  /-- A string as a statement, which a semicolon or the end of a line ends behind a gap. -/
  | string (quote : { c : Char // isScriptQuote c = true })
    (inner : { text : List Char // FillsQuote quote.1 text }) (gap : Gap)
    (ending : { c : Char // c = ';' ∨ c = '\n' })
  /-- An import statement. -/
  | statement (form : ImportForm)

namespace Segment

/-- The keyword of an import statement. -/
def importWord : Word := ⟨"import".toList, by decide⟩

/-- A segment in print. -/
def print : Segment → List Char
  | .space gap => gap.1
  | .block body => '/' :: '*' :: (body.1 ++ blockClosing)
  | .line body => '/' :: '/' :: (body.1 ++ ['\n'])
  | .string quote inner gap ending => quote.1 :: (inner.1 ++ quote.1 :: (gap.1 ++ [ending.1]))
  | .statement form => importWord.1 ++ form.print

/-- The import that a segment is, at the offset at which it begins. -/
def found (start : Nat) : Segment → List Import
  | .statement form =>
    [form.statement.located ⟨start, start + byteSize (importWord.1 ++ form.print)⟩]
  | _ => []

/-- A segment that is an import statement is a clear one. -/
def IsClear : Segment → Prop
  | .statement form => form.IsClear
  | _ => True

end Segment

/-- A script in print. -/
def printSegments (segments : List Segment) : List Char := segments.flatMap Segment.print

/-- The imports among the segments of a script that begins at an offset. -/
def segmentImports (start : Nat) : List Segment → List Import
  | [] => []
  | segment :: segments =>
    segment.found start ++ segmentImports (start + byteSize segment.print) segments

instance : (segment : Segment) → Decidable segment.IsClear
  | .statement form => inferInstanceAs (Decidable form.IsClear)
  | .space _ => inferInstanceAs (Decidable True)
  | .block _ => inferInstanceAs (Decidable True)
  | .line _ => inferInstanceAs (Decidable True)
  | .string _ _ _ _ => inferInstanceAs (Decidable True)

section

variable {text rest : List Char} {c : Char} {s : ScriptState} {k : Nat}

/-- A step that finds nothing leads on to where it ends. -/
theorem importsFrom_step {after : Cursor} {s' : ScriptState}
    (h : scriptStep s ⟨k, c :: text⟩ c text = ⟨none, s', after⟩) :
    importsFrom s ⟨k, c :: text⟩ = importsFrom s' after := by
  rw [importsFrom_eq]
  dsimp only
  rw [h]
  rfl

/-- Whitespace changes nothing where a statement may start. -/
theorem importsFrom_space (hc : isSpace c = true) (text : List Char) :
    importsFrom .fresh ⟨k, c :: text⟩ = importsFrom .fresh ⟨k + byteSize [c], text⟩ := by
  apply importsFrom_step
  rcases isSpace_iff.mp hc with rfl | rfl | rfl | rfl | rfl <;> rfl

/-- Blanks at the start of a statement are passed over. -/
theorem importsFrom_gap (gap : Gap) (text : List Char) :
    importsFrom .fresh ⟨k, gap.1 ++ text⟩ = importsFrom .fresh ⟨k + byteSize gap.1, text⟩ := by
  obtain ⟨gap, hgap⟩ := gap
  induction gap generalizing k with
  | nil => rfl
  | cons c gap ih =>
    rw [List.cons_append, importsFrom_space (hgap c List.mem_cons_self),
      ih fun d hd => hgap d (List.mem_cons_of_mem _ hd)]
    simp only [byteSize_cons, byteSize_nil, Nat.add_assoc, Nat.add_zero]

/-- A semicolon or the end of a line behind whitespace lets a statement start. -/
theorem importsFrom_ending (gap : Gap) (ending : { c : Char // c = ';' ∨ c = '\n' })
    (text : List Char) :
    importsFrom s ⟨k, gap.1 ++ ending.1 :: text⟩ =
      importsFrom .fresh ⟨k + byteSize (gap.1 ++ [ending.1]), text⟩ := by
  obtain ⟨gap, hgap⟩ := gap
  induction gap generalizing s k with
  | nil =>
    apply importsFrom_step
    obtain ⟨c, rfl | rfl⟩ := ending <;> rfl
  | cons c gap ih =>
    have hstep : ∃ s', importsFrom s ⟨k, c :: (gap ++ ending.1 :: text)⟩ =
        importsFrom s' ⟨k + byteSize [c], gap ++ ending.1 :: text⟩ := by
      rcases isSpace_iff.mp (hgap c List.mem_cons_self) with rfl | rfl | rfl | rfl | rfl
      · exact ⟨s, importsFrom_step rfl⟩
      · exact ⟨s, importsFrom_step rfl⟩
      · exact ⟨.fresh, importsFrom_step rfl⟩
      · exact ⟨s, importsFrom_step rfl⟩
      · exact ⟨s, importsFrom_step rfl⟩
    obtain ⟨s', hstep⟩ := hstep
    have hrest := ih (s := s') (k := k + byteSize [c]) fun d hd =>
      hgap d (List.mem_cons_of_mem _ hd)
    dsimp only at hrest ⊢
    rw [List.cons_append, hstep, hrest]
    simp only [List.cons_append, byteSize_cons, byteSize_nil, Nat.add_assoc, Nat.add_zero]

/-- A line feed leaves the scan at the start of a statement. -/
theorem importsFrom_newline (text : List Char) :
    importsFrom s ⟨k, '\n' :: text⟩ = importsFrom .fresh ⟨k + byteSize ['\n'], text⟩ :=
  importsFrom_step rfl

/-- The end of a block comment is a delimiter. -/
theorem isDelimiter_blockClosing : IsDelimiter blockClosing := by
  refine ⟨by decide, fun later rest hne h => ?_⟩
  match later with
  | [] => exact absurd rfl hne
  | [a] => simp [blockClosing] at h
  | a :: b :: later =>
    simp only [blockClosing, List.cons_append, List.cons_prefix_cons, List.nil_prefix,
      and_true] at h ⊢
    exact h

/-- A comment between its marks is passed over, whatever it holds. -/
theorem importsFrom_block {body : List Char} (hbody : ¬blockClosing <:+: body)
    (text : List Char) :
    importsFrom s ⟨k, '/' :: '*' :: (body ++ (blockClosing ++ text))⟩ =
      importsFrom s ⟨k + byteSize ('/' :: '*' :: (body ++ blockClosing)), text⟩ := by
  have hsplit : splitPattern ['*', '/'] (body ++ (blockClosing ++ text)) = some (body, text) :=
    (splitPattern_eq_some_iff isDelimiter_blockClosing).mpr ⟨rfl, hbody⟩
  have hrest : (⟨k, '/' :: '*' :: (body ++ (blockClosing ++ text))⟩ : Cursor).rest =
      ('/' :: '*' :: (body ++ blockClosing)) ++ text := by
    simp only [List.cons_append, List.append_assoc]
  apply importsFrom_step
  have hstep : scriptStep s ⟨k, '/' :: '*' :: (body ++ (blockClosing ++ text))⟩ '/'
      ('*' :: (body ++ (blockClosing ++ text))) =
        ⟨none, s, (⟨k, '/' :: '*' :: (body ++ (blockClosing ++ text))⟩ : Cursor).seek
          (((splitPattern ['*', '/'] (body ++ (blockClosing ++ text))).map Prod.snd).getD [])⟩ :=
    rfl
  rw [hstep, hsplit, Option.map_some, Option.getD_some, Bytes.seek_eq_advance hrest]
  rfl

/-- A comment up to the end of a line lets a statement start behind it, whatever it holds. -/
theorem importsFrom_line {body : List Char} (hbody : '\n' ∉ body) (text : List Char) :
    importsFrom s ⟨k, '/' :: '/' :: (body ++ '\n' :: text)⟩ =
      importsFrom .fresh ⟨k + byteSize ('/' :: '/' :: (body ++ ['\n'])), text⟩ := by
  have hrun : ∀ c ∈ '/' :: '/' :: body, (c != '\n') = true := by
    intro c hc
    rw [bne_iff_ne]
    rintro rfl
    simp only [List.mem_cons, Char.reduceEq, false_or] at hc
    exact hbody hc
  have hends : ∀ c ∈ ('\n' :: text).head?, (c != '\n') = false := by
    rintro c ⟨⟩
    rfl
  have hskip : (⟨k, '/' :: '/' :: (body ++ '\n' :: text)⟩ : Cursor).skipWhile (· != '\n') =
      ⟨k + byteSize ('/' :: '/' :: body), '\n' :: text⟩ :=
    skipWhile_append_of_ends hrun hends k
  have hstep : scriptStep s ⟨k, '/' :: '/' :: (body ++ '\n' :: text)⟩ '/'
      ('/' :: (body ++ '\n' :: text)) =
        ⟨none, s, (⟨k, '/' :: '/' :: (body ++ '\n' :: text)⟩ : Cursor).skipWhile (· != '\n')⟩ :=
    rfl
  rw [hskip] at hstep
  rw [importsFrom_step hstep, importsFrom_newline]
  simp only [byteSize_cons, byteSize_append, byteSize_nil, Nat.add_assoc]

/-- A string is passed over, whatever it holds. -/
theorem importsFrom_string {quote : Char} (hquote : isScriptQuote quote = true)
    {inner : List Char} (hinner : FillsQuote quote inner) (text : List Char) :
    importsFrom s ⟨k, quote :: (inner ++ quote :: text)⟩ =
      importsFrom .operand ⟨k + byteSize (quote :: (inner ++ [quote])), text⟩ := by
  have hrest : ((⟨k, quote :: (inner ++ quote :: text)⟩ : Cursor).advance [quote]
      (inner ++ quote :: text)).rest = (inner ++ [quote]) ++ text := by
    rw [List.append_assoc]
    rfl
  apply importsFrom_step
  rw [scriptStep, if_pos hquote, splitQuote_eq_some_iff.mpr ⟨rfl, hinner⟩, Option.map_some,
    Option.getD_some, Bytes.seek_eq_advance hrest]
  simp only [Cursor.advance, byteSize_cons, byteSize_nil, Nat.add_assoc, Nat.add_zero]

/-- Where a statement may start, a clear import statement is found. -/
theorem wordStep_import {form : ImportForm} (hclear : form.IsClear)
    (hrest : form.semicolon = none → eat? ';' rest = none) :
    wordStep .fresh ⟨k, Segment.importWord.1 ++ (form.print ++ rest)⟩ =
      ⟨some (form.statement.located
        ⟨k, k + byteSize (Segment.importWord.1 ++ form.print)⟩), .fresh,
        ⟨k + byteSize (Segment.importWord.1 ++ form.print), rest⟩⟩ := by
  have hread : importStatement? (form.print ++ rest) = some (form.statement, rest) :=
    importStatement?_eq_some_iff.mpr ⟨form, hclear, rfl, rfl, hrest⟩
  have hends : EndsWord (form.print ++ rest) := by
    rw [ImportForm.print, List.append_assoc]
    exact endsWord_of_opensImport (form.body.opensImport_print _)
  have htake := (takeWhile_append_of_ends Segment.importWord.2.2 hends).1
  have hskip := skipWhile_append_of_ends Segment.importWord.2.2 hends k
  have hseek : (⟨k + byteSize Segment.importWord.1, form.print ++ rest⟩ : Cursor).seek rest =
      ⟨k + byteSize (Segment.importWord.1 ++ form.print), rest⟩ := by
    rw [Bytes.seek_eq_advance rfl, Cursor.advance, byteSize_append, ← Nat.add_assoc]
  rw [wordStep, hskip]
  simp only [htake, hread, hseek]
  rfl

/-- An import statement at the start of one is found, with its span, and the scan goes on behind it.
-/
theorem importsFrom_import {form : ImportForm} (hclear : form.IsClear)
    (hrest : form.semicolon = none → eat? ';' rest = none) :
    importsFrom .fresh ⟨k, Segment.importWord.1 ++ (form.print ++ rest)⟩ =
      form.statement.located ⟨k, k + byteSize (Segment.importWord.1 ++ form.print)⟩ ::
        importsFrom .fresh ⟨k + byteSize (Segment.importWord.1 ++ form.print), rest⟩ := by
  have hcons : Segment.importWord.1 ++ (form.print ++ rest) =
      'i' :: (['m', 'p', 'o', 'r', 't'] ++ (form.print ++ rest)) := rfl
  have hstep : scriptStep .fresh ⟨k, Segment.importWord.1 ++ (form.print ++ rest)⟩ 'i'
      (['m', 'p', 'o', 'r', 't'] ++ (form.print ++ rest)) =
        wordStep .fresh ⟨k, Segment.importWord.1 ++ (form.print ++ rest)⟩ := rfl
  rw [wordStep_import hclear hrest] at hstep
  rw [importsFrom_eq]
  dsimp only
  rw [hcons] at hstep ⊢
  dsimp only
  rw [hstep]
  rfl

/-- The quotes of a script are the double quote, the single quote and the grave accent. -/
theorem isScriptQuote_iff : isScriptQuote c = true ↔ c = '"' ∨ c = '\'' ∨ c = '\x60' := by
  simp only [isScriptQuote, Bool.or_eq_true, decide_eq_true_eq, or_assoc]

/-- Segments are written one behind the other. -/
theorem printSegments_cons (segment : Segment) (segments : List Segment) :
    printSegments (segment :: segments) = segment.print ++ printSegments segments :=
  List.flatMap_cons

/-- No segment begins with a semicolon. -/
theorem eat?_printSegments (segments : List Segment) :
    eat? ';' (printSegments segments) = none := by
  induction segments with
  | nil => rfl
  | cons segment segments ih =>
    rw [printSegments_cons]
    cases segment with
    | space gap =>
      rw [Segment.print, eat?_gap gap.2]
      exact ih
    | block body => exact eat?_cons_ne rfl (by decide) _
    | line body => exact eat?_cons_ne rfl (by decide) _
    | string quote inner gap ending =>
      have hquote : isSpace quote.1 = false ∧ quote.1 ≠ ';' := by
        rcases isScriptQuote_iff.mp quote.2 with h | h | h <;> rw [h] <;> decide
      exact eat?_cons_ne hquote.1 hquote.2 _
    | statement form => exact Segment.importWord.2.eat?_eq_none rfl _

/-- The scan gets from the beginning of a segment to its end, and finds what the segment is. -/
theorem importsFrom_segment {segment : Segment} (hclear : segment.IsClear)
    (hrest : eat? ';' rest = none) :
    importsFrom .fresh ⟨k, segment.print ++ rest⟩ =
      segment.found k ++ importsFrom .fresh ⟨k + byteSize segment.print, rest⟩ := by
  cases segment with
  | space gap => exact importsFrom_gap gap rest
  | block body =>
    have hprint : (Segment.block body).print ++ rest =
        '/' :: '*' :: (body.1 ++ (blockClosing ++ rest)) := by
      simp only [Segment.print, List.cons_append, List.append_assoc]
    rw [hprint, importsFrom_block body.2]
    rfl
  | line body =>
    have hprint : (Segment.line body).print ++ rest = '/' :: '/' :: (body.1 ++ '\n' :: rest) := by
      simp only [Segment.print, List.cons_append, List.append_assoc, List.nil_append]
    rw [hprint, importsFrom_line body.2]
    rfl
  | string quote inner gap ending =>
    have hprint : (Segment.string quote inner gap ending).print ++ rest =
        quote.1 :: (inner.1 ++ quote.1 :: (gap.1 ++ ending.1 :: rest)) := by
      simp only [Segment.print, List.cons_append, List.append_assoc, List.nil_append]
    rw [hprint, importsFrom_string quote.2 inner.2, importsFrom_ending gap ending]
    simp only [Segment.found, List.nil_append, Segment.print, byteSize_cons, byteSize_append,
      byteSize_nil, Nat.add_assoc, Nat.add_zero]
  | statement form =>
    rw [Segment.print, List.append_assoc, importsFrom_import hclear fun _ => hrest]
    rfl

/-- A script made of clear segments has exactly the imports among them, in their order, each at the
place where it is written. -/
theorem scriptImports_printSegments (base : Nat) {segments : List Segment}
    (hclear : ∀ segment ∈ segments, segment.IsClear) :
    scriptImports base (printSegments segments) = segmentImports base segments := by
  rw [scriptImports]
  induction segments generalizing base with
  | nil =>
    rw [importsFrom_eq]
    rfl
  | cons segment segments ih =>
    obtain ⟨hsegment, hsegments⟩ := List.forall_mem_cons.mp hclear
    rw [printSegments_cons, importsFrom_segment hsegment (eat?_printSegments segments),
      ih _ hsegments]
    rfl

end

/-- One space. -/
def blank : Break := ⟨[' '], by decide, by decide⟩

/-- A module of one letter. -/
def letterModule : ModuleForm := ⟨⟨'\'', by decide⟩, ⟨['x'], rfl⟩⟩

/-- The statement `import type from from 'x'`: a default import of types under the name `from`. -/
def markedFrom : Segment :=
  .statement ⟨.binding (some blank) (.default blank Word.from blank) blank.gap letterModule, none⟩

/-- The statement `import { type as } from 'x'`: an import of the type `as`. -/
def markedAs : Segment :=
  .statement ⟨.binding none
    (.others (.list blank.gap (.last ⟨blank.gap, some blank, Word.as, none⟩ blank.gap) blank.gap))
    blank.gap letterModule, none⟩

/-- The two kinds of statements that one word of lookahead does not tell are not found. -/
theorem scriptImports_marked :
    (printSegments [markedFrom] = "import type from from 'x'".toList ∧
      scriptImports 0 (printSegments [markedFrom]) = [] ∧
      segmentImports 0 [markedFrom] = [⟨true, some "from", none, [], "x", ⟨0, 25⟩⟩]) ∧
    (printSegments [markedAs] = "import { type as } from 'x'".toList ∧
      scriptImports 0 (printSegments [markedAs]) = [] ∧
      segmentImports 0 [markedAs] = [⟨false, none, none, [⟨"as", "as", true⟩], "x", ⟨0, 27⟩⟩]) := by
  decide +kernel

/-- A script with imports in comments and strings, and with names that are words of the grammar. -/
def mixedSegments : List Segment :=
  [.block ⟨" import a from 'b' ".toList, by decide +kernel⟩,
    .string ⟨'"', rfl⟩ ⟨"import c from 'd'".toList, rfl⟩ Gap.none ⟨';', by decide⟩,
    .space ⟨"\n".toList, by decide⟩,
    .statement ⟨.binding none
      (.both blank Word.type Gap.none
        (.list blank.gap
          (.more ⟨Gap.none, none, Word.type, some ⟨blank, blank, Word.from⟩⟩ Gap.none
            (.last ⟨blank.gap, some blank, Word.from, none⟩ Gap.none))
          blank.gap))
      blank.gap letterModule, none⟩,
    .line ⟨" import e from 'f'".toList, by decide +kernel⟩,
    .statement ⟨.binding (some blank) (.default blank Word.as blank) Gap.none letterModule,
      some Gap.none⟩]

/-- Among comments and strings that hold statements, just the imports are found. -/
theorem scriptImports_mixedSegments :
    printSegments mixedSegments =
        ("/* import a from 'b' */\"import c from 'd'\";\n" ++
          "import type, {type as from, type from} from 'x'// import e from 'f'\n" ++
          "import type as from'x';").toList ∧
      scriptImports 5 (printSegments mixedSegments) =
        [⟨false, some "type", none, [⟨"type", "from", false⟩, ⟨"from", "from", true⟩], "x",
            ⟨49, 96⟩⟩,
          ⟨true, some "as", none, [], "x", ⟨117, 140⟩⟩] := by
  have hclear : ∀ segment ∈ mixedSegments, segment.IsClear := by decide +kernel
  refine ⟨by decide +kernel, ?_⟩
  rw [scriptImports_printSegments 5 hclear]
  decide +kernel

end TemplateReader
