import TemplateReader.Proofs.Bytes.Scan
import TemplateReader.Proofs.Script.Segment

/-!
# Places of imports

Whatever a script holds, the scan passes over it step by step, and a step that
finds an import passes over the printed form of a clear statement. So the
imports of a script stand one behind the other in its text, and each is found
again when the stretch that it spans is scanned alone.
-/

namespace TemplateReader

section

variable {c d : Cursor} {x text rest : List Char} {ch : Char} {s : ScriptState}

/-- A step from a cursor passes over some text and finds nothing, or it passes over a clear import
statement and finds that. -/
inductive ScriptStep.From (c : Cursor) : ScriptStep → Prop
  | none {x : List Char} {s : ScriptState} {d : Cursor} (h : c.Passes x d) : From c ⟨none, s, d⟩
  | some {form : ImportForm} {s : ScriptState} {d : Cursor} (hclear : form.IsClear)
    (h : c.Passes (Segment.importWord.1 ++ form.print) d) :
    From c ⟨some (form.statement.located (c.spanTo d)), s, d⟩

private theorem slashStep_from (hc : c.rest = '/' :: text) : (slashStep s c text).From c := by
  have hnext := Cursor.passes_advance hc
  unfold slashStep
  split
  · exact .none (c.passes_skipWhile _)
  · next comment =>
    have hstop : ((splitPattern ['*', '/'] comment).map Prod.snd).getD [] <:+ c.rest := by
      rw [hc]
      exact (Bytes.suffix_behindBlock comment).trans (List.suffix_append ['/', '*'] comment)
    obtain ⟨x, hx⟩ := Cursor.exists_passes_seek hstop
    exact .none hx
  · dsimp only
    split
    · have hstop := Bytes.suffix_behindRegex text
      obtain ⟨x, hx⟩ := Cursor.exists_passes_seek (c := c.advance ['/'] text) hstop
      exact .none (hnext.trans hx)
    · exact .none hnext

private theorem wordStep_from : (wordStep s c).From c := by
  have hnext := c.passes_skipWhile isWordChar
  unfold wordStep
  dsimp only
  split
  · next hkeyword =>
    have hword : c.rest.takeWhile isWordChar = Segment.importWord.1 :=
      of_decide_eq_true (Bool.and_eq_true_iff.mp hkeyword).2
    split
    · next statement rest hs =>
      obtain ⟨form, hclear, hrest, rfl, -⟩ := importStatement?_eq_some_iff.mp hs
      have hform : (c.skipWhile isWordChar).Passes form.print
          ((c.skipWhile isWordChar).seek rest) := by
        rw [Bytes.seek_eq_advance hrest]
        exact ⟨hrest, rfl⟩
      rw [hword] at hnext
      exact .some hclear (hnext.trans hform)
    · exact .none hnext
  · exact .none hnext

/-- Every step of the scan passes over what it is about. -/
theorem scriptStep_from (hc : c.rest = ch :: text) : (scriptStep s c ch text).From c := by
  have hnext := Cursor.passes_advance hc
  unfold scriptStep
  dsimp only
  by_cases hquote : isScriptQuote ch = true
  · rw [if_pos hquote]
    have hstop := Bytes.suffix_behindQuote ch text
    obtain ⟨x, hx⟩ := Cursor.exists_passes_seek (c := c.advance [ch] text) hstop
    exact .none (hnext.trans hx)
  · rw [if_neg hquote]
    by_cases hslash : ch = '/'
    · subst hslash
      rw [if_pos rfl]
      exact slashStep_from hc
    · rw [if_neg hslash]
      split_ifs
      · exact .none hnext
      · exact .none hnext
      · exact wordStep_from
      · exact .none (c.passes_skipWhile _)
      · exact .none hnext

end

/-- At an offset, the whole text is a clear import statement, and it is the import. -/
def IsImport (k : Nat) (x : List Char) (i : Import) : Prop :=
  ∃ form : ImportForm, form.IsClear ∧ x = Segment.importWord.1 ++ form.print ∧
    i = form.statement.located ⟨k, k + byteSize x⟩

/-- The imports stand one behind the other in a text at an offset. -/
inductive Imported : Nat → List Char → List Import → Prop
  | nil {k : Nat} {text : List Char} : Imported k text []
  | cons {k : Nat} {between x rest : List Char} {i : Import} {imports : List Import}
    (hx : IsImport (k + byteSize between) x i)
    (hrest : Imported (k + byteSize between + byteSize x) rest imports) :
    Imported k (between ++ (x ++ rest)) (i :: imports)

section

variable {k : Nat} {x y text : List Char} {imports : List Import} {i : Import}

/-- The span of an import is that of its text. -/
theorem IsImport.span_eq (h : IsImport k x i) : i.span = ⟨k, k + byteSize x⟩ := by
  obtain ⟨form, -, -, rfl⟩ := h
  rfl

/-- The text of an import is not empty. -/
theorem IsImport.ne_nil (h : IsImport k x i) : x ≠ [] := by
  obtain ⟨form, -, rfl, -⟩ := h
  exact List.append_ne_nil_of_left_ne_nil Segment.importWord.2.ne_nil _

/-- A statement alone is found, and nothing besides. -/
theorem IsImport.scriptImports_eq (h : IsImport k x i) : scriptImports k x = [i] := by
  obtain ⟨form, hclear, rfl, rfl⟩ := h
  have hfound : importsFrom .fresh ⟨k, Segment.importWord.1 ++ (form.print ++ [])⟩ = _ :=
    importsFrom_import hclear fun _ => rfl
  rw [List.append_nil, importsFrom_eq .fresh ⟨_, []⟩] at hfound
  exact hfound

/-- The first import may stand at the front of the text. -/
theorem Imported.here (hx : IsImport k x i) (hrest : Imported (k + byteSize x) text imports) :
    Imported k (x ++ text) (i :: imports) := by
  have hx : IsImport (k + byteSize []) x i := hx
  exact .cons hx hrest

/-- More text may stand in front of the imports. -/
theorem Imported.prepend (h : Imported (k + byteSize x) text imports) :
    Imported k (x ++ text) imports := by
  cases h with
  | nil => exact .nil
  | @cons _ between y rest i imports hy hrest =>
    rw [Nat.add_assoc k, ← byteSize_append] at hy hrest
    rw [← List.append_assoc]
    exact .cons hy hrest

/-- Texts one behind the other bring the imports of both. -/
theorem Imported.append {behind : List Import} (h : Imported k x imports)
    (hbehind : Imported (k + byteSize x) text behind) :
    Imported k (x ++ text) (imports ++ behind) := by
  induction h with
  | nil => exact hbehind.prepend
  | @cons k between y rest i imports hy hrest ih =>
    rw [byteSize_append, byteSize_append, ← Nat.add_assoc, ← Nat.add_assoc] at hbehind
    rw [List.append_assoc, List.append_assoc]
    exact .cons hy (ih hbehind)

/-- Each import stands at a stretch of the text. -/
theorem Imported.exists_of_mem (h : Imported k text imports) (hi : i ∈ imports) :
    ∃ before y after, text = before ++ (y ++ after) ∧ IsImport (k + byteSize before) y i := by
  induction h with
  | nil => cases hi
  | @cons k between y rest j imports hy hrest ih =>
    rcases List.mem_cons.mp hi with rfl | hi
    · exact ⟨between, y, rest, rfl, hy⟩
    · obtain ⟨before, z, after, rfl, hz⟩ := ih hi
      refine ⟨between ++ (y ++ before), z, after, by simp only [List.append_assoc], ?_⟩
      simpa only [byteSize_append, Nat.add_assoc] using hz

/-- An import spans some of the text. -/
theorem Imported.span_of_mem (h : Imported k text imports) (hi : i ∈ imports) :
    k ≤ i.span.start ∧ i.span.start < i.span.stop ∧ i.span.stop ≤ k + byteSize text := by
  obtain ⟨before, y, after, rfl, hy⟩ := h.exists_of_mem hi
  have hpos := byteSize_pos hy.ne_nil
  simp only [hy.span_eq, byteSize_append]
  omega

/-- Each import ends before the next begins. -/
theorem Imported.pairwise (h : Imported k text imports) :
    imports.Pairwise fun i j => i.span.stop ≤ j.span.start := by
  induction h with
  | nil => exact List.Pairwise.nil
  | @cons k between y rest i imports hy hrest ih =>
    refine List.Pairwise.cons (fun j hj => ?_) ih
    rw [hy.span_eq]
    exact (hrest.span_of_mem hj).1

end

/-- The scan finds imports one behind the other in what remains. -/
theorem imported_importsFrom (s : ScriptState) (c : Cursor) :
    Imported c.offset c.rest (importsFrom s c) := by
  induction hn : c.rest.length using Nat.strongRecOn generalizing s c with
  | ind n ih =>
    rw [importsFrom_eq]
    cases hc : c.rest with
    | nil => exact .nil
    | cons ch text =>
      have hlt := length_scriptStep_lt (s := s) hc
      have hfrom := scriptStep_from (s := s) hc
      have hbehind := ih _ (hn ▸ hlt) (scriptStep s c ch text).state _ rfl
      dsimp only
      rw [← hc]
      generalize scriptStep s c ch text = step at hbehind hfrom
      cases hfrom with
      | @none x s' d hd =>
        rw [hd.offset] at hbehind
        rw [hd.rest]
        exact hbehind.prepend
      | @some form s' d hclear hd =>
        rw [hd.offset] at hbehind
        rw [hd.rest, hd.spanTo_eq]
        exact Imported.here ⟨form, hclear, rfl, rfl⟩ hbehind

/-- The imports of a script stand one behind the other in its text. -/
theorem imported_scriptImports (start : Nat) (script : List Char) :
    Imported start script (scriptImports start script) :=
  imported_importsFrom .fresh ⟨start, script⟩

end TemplateReader
