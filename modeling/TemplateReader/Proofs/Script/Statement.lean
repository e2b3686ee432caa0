import TemplateReader.Proofs.Script.Clause

/-!
# Import statements are read from their printed forms

Every clear form of an import statement is read back as what it says, whatever
follows it, and every statement that is read is the printed form of a clear one.
So the text of a statement tells what the statement says, and nothing behind it
has a part in that.
-/

namespace TemplateReader

section

variable {text rest : List Char}

/-- A module is read back behind a gap. -/
theorem ModuleForm.module?_print (source : ModuleForm) (gap : Gap) (rest : List Char) :
    TemplateReader.module? (gap.1 ++ (source.print ++ rest)) = some (source.source, rest) := by
  rw [module?_gap gap.2, ModuleForm.print, List.cons_append, List.append_assoc,
    List.singleton_append, module?_quoted source.quote.2 source.inner.2]
  rfl

/-- A module that is read is written as one, behind blanks. -/
theorem exists_of_module?_form {source : String} (h : module? text = some (source, rest)) :
    ∃ (gap : Gap) (form : ModuleForm), text = gap.1 ++ (form.print ++ rest) ∧
      source = form.source := by
  obtain ⟨gap, quote, inner, hgap, hquote, hinner, rfl, rfl⟩ := exists_of_module? h
  refine ⟨⟨gap, hgap⟩, ⟨⟨quote, hquote⟩, ⟨inner, hinner⟩⟩, ?_, rfl⟩
  rw [ModuleForm.print, List.cons_append, List.append_assoc, List.singleton_append]

/-- A module does not go on with a word. -/
theorem ModuleForm.endsWord_print (source : ModuleForm) (gap : Gap) (rest : List Char) :
    EndsWord (gap.1 ++ (source.print ++ rest)) := by
  have hquote : isWordChar source.quote.1 = false := by
    rcases isTagQuote_iff.mp source.quote.2 with h | h <;> rw [h] <;> rfl
  exact gap.2.endsWord_append (.cons hquote _)

/-- A statement from its names to its module is read back. -/
theorem fromStatement?_print {mark : Option Break} {clause : ClauseForm} {gap : Gap}
    {source : ModuleForm} (hclear : (BodyForm.binding mark clause gap source).IsClear)
    (rest : List Char) :
    fromStatement? ((BodyForm.binding mark clause gap source).print ++ rest) =
      some ((BodyForm.binding mark clause gap source).statement, rest) := by
  have htail := source.endsWord_print gap rest
  have hfrom : keyword? "from"
      (clause.after.1 ++ (Word.from.1 ++ (gap.1 ++ (source.print ++ rest)))) =
        some (gap.1 ++ (source.print ++ rest)) := by
    rw [keyword?_gap clause.after.2]
    exact Word.from.2.keyword? htail
  have hprint : (BodyForm.binding mark clause gap source).print ++ rest =
      printMark mark ++ (clause.print ++
        (clause.after.1 ++ (Word.from.1 ++ (gap.1 ++ (source.print ++ rest))))) := by
    simp only [BodyForm.print, List.append_assoc]
  rw [hprint, fromStatement?, takeTypeMark_print hclear.2 htail]
  simp only [Option.bind_eq_bind, ClauseForm.clause?_print hclear.1, Option.bind_some, hfrom,
    source.module?_print]
  rfl

/-- What is read as a statement from its names to its module is a clear form in print. -/
theorem exists_of_fromStatement? (htext : EndsWord text) {statement : ImportStatement}
    (h : fromStatement? text = some (statement, rest)) :
    ∃ mark clause gap source, (BodyForm.binding mark clause gap source).IsClear ∧
      text = (BodyForm.binding mark clause gap source).print ++ rest ∧
      statement = (BodyForm.binding mark clause gap source).statement := by
  simp only [fromStatement?, Option.bind_eq_bind, Option.bind_eq_some_iff, Prod.exists,
    Option.some.injEq, Prod.mk.injEq] at h
  obtain ⟨names, behind, hclause, tail, hkeyword, module, last, hmodule, rfl, rfl⟩ := h
  obtain ⟨mark, hmark, hisSome, hends, hfollows⟩ := exists_of_takeTypeMark htext
  obtain ⟨after, hafter, hbehind, -, -⟩ := exists_of_word? (word?_of_keyword? hkeyword)
  obtain ⟨gap, source, rfl, rfl⟩ := exists_of_module?_form hmodule
  obtain ⟨clause, hclear, hprint, hgap, rfl⟩ :=
    exists_of_clause? hends hclause ⟨after, hafter⟩ Word.from hbehind
  obtain rfl : clause.after.1 = after := congrArg Subtype.val hgap
  refine ⟨mark, clause, gap, source, ⟨hclear, ?_⟩, ?_, ?_⟩
  · intro hsome hname
    obtain ⟨other, hword⟩ := ClauseForm.word?_print hname
      ("from".toList ++ (gap.1 ++ (source.print ++ last)))
    have hfollows := hfollows hsome
    rw [hprint, hbehind, clauseFollows_of_word? hword] at hfollows
    cases hfollows
  · rw [hmark, hprint, hbehind]
    simp only [BodyForm.print, List.append_assoc]
    rfl
  · rw [hisSome]
    rfl

/-- A break may follow the word `import`. -/
theorem Break.opensImport_append (space : Break) (rest : List Char) :
    (space.1 ++ rest).head?.any opensImport = true := by
  obtain ⟨text, hgap, hne⟩ := space
  cases text with
  | nil => exact absurd rfl hne
  | cons c text =>
    have hspace := hgap c List.mem_cons_self
    rw [List.cons_append, List.head?_cons, Option.any_some, opensImport, hspace]
    rfl

/-- Blanks and a character that may follow the word `import` may follow it. -/
theorem Gap.opensImport_append (gap : Gap) {c : Char} (hc : opensImport c = true)
    (rest : List Char) : (gap.1 ++ c :: rest).head?.any opensImport = true := by
  by_cases hne : gap.1 = []
  · rw [hne, List.nil_append]
    exact hc
  · exact Break.opensImport_append ⟨gap.1, gap.2, hne⟩ _

/-- The names of a statement may follow the word `import`. -/
theorem ClauseForm.opensImport_print (clause : ClauseForm) (rest : List Char) :
    (clause.print ++ rest).head?.any opensImport = true := by
  cases clause with
  | default start name after =>
    rw [ClauseForm.print, List.append_assoc]
    exact start.opensImport_append _
  | both start name gap names =>
    rw [ClauseForm.print, List.append_assoc]
    exact start.opensImport_append _
  | others names =>
    obtain ⟨start, c, tail, hc, hprint⟩ := names.exists_print rest
    rw [ClauseForm.print, hprint]
    rcases hc with rfl | rfl
    · exact Gap.opensImport_append start rfl tail
    · exact Gap.opensImport_append start rfl tail

/-- A statement begins with what tells its keyword from other uses of the word. -/
theorem BodyForm.opensImport_print (body : BodyForm) (rest : List Char) :
    (body.print ++ rest).head?.any opensImport = true := by
  cases body with
  | alone start source =>
    have hquote : opensImport source.quote.1 = true := by
      rw [opensImport, source.quote.2, Bool.or_true]
    rw [BodyForm.print, ModuleForm.print, List.append_assoc, List.cons_append]
    exact Gap.opensImport_append start hquote _
  | binding mark clause gap source =>
    cases mark with
    | some space =>
      simp only [BodyForm.print, printMark, Option.elim_some, List.append_assoc]
      exact space.opensImport_append _
    | none =>
      simp only [BodyForm.print, printMark, Option.elim_none, List.nil_append, List.append_assoc]
      exact clause.opensImport_print _

/-- In front of what may follow the word `import` that word ends. -/
theorem endsWord_of_opensImport (h : text.head?.any opensImport = true) : EndsWord text := by
  intro c hc
  rw [Option.mem_def.mp hc, Option.any_some] at h
  simp only [opensImport, Bool.or_eq_true, decide_eq_true_eq] at h
  rcases h with ((hspace | rfl) | rfl) | hquote
  · exact isWordChar_of_isSpace hspace
  · rfl
  · rfl
  · rcases isTagQuote_iff.mp hquote with rfl | rfl <;> rfl

/-- What stands in front of names is no module. -/
theorem module?_binding (mark : Option Break) (clause : ClauseForm) (gap : Gap)
    (source : ModuleForm) (rest : List Char) :
    module? ((BodyForm.binding mark clause gap source).print ++ rest) = none := by
  cases mark with
  | some space =>
    simp only [BodyForm.print, printMark, Option.elim_some, List.append_assoc]
    rw [module?_gap space.2.1, Word.type.2.module?_eq_none]
  | none =>
    simp only [BodyForm.print, printMark, Option.elim_none, List.nil_append, List.append_assoc]
    exact clause.module?_print _

/-- Reads an import statement behind its keyword, up to its module. -/
def body? (text : List Char) : Option (ImportStatement × List Char) :=
  match module? text with
  | some (source, rest) => some (⟨false, ⟨none, none, []⟩, source⟩, rest)
  | none => fromStatement? text

/-- What is behind the word `import` is read as it is written. -/
theorem body?_print {body : BodyForm} (hclear : body.IsClear) (rest : List Char) :
    body? (body.print ++ rest) = some (body.statement, rest) := by
  cases body with
  | alone start source =>
    rw [BodyForm.print, List.append_assoc, body?, source.module?_print]
    rfl
  | binding mark clause gap source =>
    rw [body?, module?_binding]
    exact fromStatement?_print hclear rest

/-- What is read behind the word `import` is written that way. -/
theorem exists_of_body? (htext : EndsWord text) {statement : ImportStatement}
    (h : body? text = some (statement, rest)) :
    ∃ body : BodyForm, body.IsClear ∧ text = body.print ++ rest ∧ statement = body.statement := by
  rw [body?] at h
  split at h
  · next source rest' hmodule =>
    obtain ⟨rfl, rfl⟩ := Prod.mk.inj (Option.some.inj h)
    obtain ⟨gap, form, rfl, rfl⟩ := exists_of_module?_form hmodule
    refine ⟨.alone gap form, trivial, ?_, rfl⟩
    rw [BodyForm.print, List.append_assoc]
  · obtain ⟨mark, clause, gap, source, hclear, hprint, hstatement⟩ :=
      exists_of_fromStatement? htext h
    exact ⟨_, hclear, hprint, hstatement⟩

/-- A statement is read where one may follow, with its semicolon if there is one. -/
theorem importStatement?_eq (text : List Char) :
    importStatement? text =
      if text.head?.any opensImport then
        (body? text).map fun (statement, rest) => (statement, (eat? ';' rest).getD rest)
      else none := rfl

/-- A semicolon in print is taken off. -/
theorem eat?_printSemicolon {semicolon : Option Gap}
    (hrest : semicolon = none → eat? ';' rest = none) :
    (eat? ';' (printSemicolon semicolon ++ rest)).getD (printSemicolon semicolon ++ rest) =
      rest := by
  cases semicolon with
  | none =>
    rw [printSemicolon, Option.elim_none, List.nil_append, hrest rfl]
    rfl
  | some gap =>
    have hclose : eat? ';' (gap.1 ++ ';' :: rest) = some rest := by
      rw [eat?_gap gap.2, eat?_cons_self rfl]
    rw [printSemicolon, Option.elim_some, List.append_assoc, List.singleton_append, hclose]
    rfl

/-- What is taken off is a semicolon in print, if there is one. -/
theorem exists_printSemicolon (text : List Char) :
    ∃ semicolon : Option Gap, text = printSemicolon semicolon ++ (eat? ';' text).getD text ∧
      (semicolon = none → eat? ';' ((eat? ';' text).getD text) = none) := by
  cases heat : eat? ';' text with
  | none => exact ⟨none, rfl, fun _ => heat⟩
  | some tail =>
    obtain ⟨gap, hgap, rfl⟩ := exists_of_eat? heat
    refine ⟨some ⟨gap, hgap⟩, ?_, nofun⟩
    rw [printSemicolon, Option.elim_some, List.append_assoc]
    rfl

/-- Import statements are read exactly from the printed forms of clear ones, each up to its
semicolon if it has one: nothing behind a statement has a part in what it says. -/
theorem importStatement?_eq_some_iff {statement : ImportStatement} :
    importStatement? text = some (statement, rest) ↔
      ∃ form : ImportForm, form.IsClear ∧ text = form.print ++ rest ∧ statement = form.statement ∧
        (form.semicolon = none → eat? ';' rest = none) := by
  rw [importStatement?_eq]
  constructor
  · intro h
    split at h
    · next hopens =>
      obtain ⟨⟨statement', behind⟩, hbody, heq⟩ := Option.map_eq_some_iff.mp h
      obtain ⟨rfl, rfl⟩ := Prod.mk.inj heq
      obtain ⟨body, hclear, rfl, rfl⟩ := exists_of_body? (endsWord_of_opensImport hopens) hbody
      obtain ⟨semicolon, hbehind, hrest⟩ := exists_printSemicolon behind
      refine ⟨⟨body, semicolon⟩, hclear, ?_, rfl, hrest⟩
      rw [ImportForm.print, List.append_assoc, ← hbehind]
    · cases h
  · rintro ⟨⟨body, semicolon⟩, hclear, rfl, rfl, hrest⟩
    rw [ImportForm.print, List.append_assoc, if_pos (body.opensImport_print _),
      body?_print hclear, Option.map_some]
    dsimp only
    rw [eat?_printSemicolon hrest]
    rfl

end

end TemplateReader
