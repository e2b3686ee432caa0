import TemplateReader.Proofs.Script.Entries

/-!
# Clauses are read from their printed forms

The names of a statement stand between its keyword and the word `from`. They
begin with a default name behind a break or with a mark of their own, which is
what tells whether the word `type` in front of them marks the statement.
-/

namespace TemplateReader

section

variable {text rest : List Char}

/-- Names begin with a mark behind their gap. -/
theorem NamesForm.exists_print (names : NamesForm) (rest : List Char) :
    ∃ (start : Gap) (c : Char) (tail : List Char), (c = '{' ∨ c = '*') ∧
      names.print ++ rest = start.1 ++ c :: tail := by
  cases names with
  | list start entries after =>
    refine ⟨start, '{', entries.print ++ rest, Or.inl rfl, ?_⟩
    rw [NamesForm.print, List.append_assoc, List.cons_append]
  | whole start star space name after =>
    refine ⟨start, '*', star.1 ++ (Word.as.1 ++ (space.1 ++ name.1)) ++ rest, Or.inr rfl, ?_⟩
    rw [NamesForm.print, List.append_assoc, List.cons_append]

/-- A list of names, or a star, is no word. -/
theorem NamesForm.word?_print (names : NamesForm) (rest : List Char) :
    word? (names.print ++ rest) = none := by
  obtain ⟨start, c, tail, hc, hprint⟩ := names.exists_print rest
  rw [hprint, word?_gap start.2]
  rcases hc with rfl | rfl <;> exact word?_cons_eq_none rfl rfl tail

/-- A list of names, or a star, is no module. -/
theorem NamesForm.module?_print (names : NamesForm) (rest : List Char) :
    module? (names.print ++ rest) = none := by
  obtain ⟨start, c, tail, hc, hprint⟩ := names.exists_print rest
  rw [hprint, module?_gap start.2]
  rcases hc with rfl | rfl <;> exact module?_cons_eq_none rfl rfl tail

/-- In front of a list of names, or a star, a word ends. -/
theorem NamesForm.endsWord_print (names : NamesForm) (rest : List Char) :
    EndsWord (names.print ++ rest) := by
  obtain ⟨start, c, tail, hc, hprint⟩ := names.exists_print rest
  rw [hprint]
  apply start.2.endsWord_append
  rcases hc with rfl | rfl <;> exact .cons rfl tail

/-- A list of names, or a star, shows that names follow. -/
theorem NamesForm.clauseFollows_print (names : NamesForm) (rest : List Char) :
    clauseFollows (names.print ++ rest) = true := by
  obtain ⟨start, c, tail, hc, hprint⟩ := names.exists_print rest
  rw [hprint, clauseFollows, skipSpace_gap start.2]
  rcases hc with rfl | rfl
  · rw [skipSpace_cons rfl]
    rfl
  · rw [skipSpace_cons rfl]
    rfl

/-- Clear names are read back. -/
theorem NamesForm.namedClause?_print {names : NamesForm} (hclear : names.IsClear)
    (defaultName : Option String) (rest : List Char) :
    TemplateReader.namedClause? defaultName (names.print ++ (names.after.1 ++ rest)) =
      some (names.clause defaultName, names.after.1 ++ rest) := by
  cases names with
  | list start entries after =>
    have hstar (x : List Char) : eat? '*' (start.1 ++ '{' :: x) = none := by
      rw [eat?_gap start.2, eat?_cons_ne rfl (by decide)]
    have hbrace (x : List Char) : eat? '{' (start.1 ++ '{' :: x) = some x := by
      rw [eat?_gap start.2, eat?_cons_self rfl]
    rw [NamesForm.print, List.append_assoc, List.cons_append, TemplateReader.namedClause?, hstar]
    simp only [Option.bind_eq_bind, hbrace, Option.bind_some,
      EntriesForm.specifiers?_print hclear]
    rfl
  | whole start star space name after =>
    have hstar (x : List Char) : eat? '*' (start.1 ++ '*' :: x) = some x := by
      rw [eat?_gap start.2, eat?_cons_self rfl]
    have has (x : List Char) :
        keyword? "as" (star.1 ++ (Word.as.1 ++ (space.1 ++ x))) = some (space.1 ++ x) := by
      rw [keyword?_gap star.2]
      exact Word.as.2.keyword? (space.endsWord_append x)
    have hname (x : List Char) (hx : EndsWord x) :
        word? (space.1 ++ (name.1 ++ x)) = some (name.1, x) := by
      rw [word?_gap space.2.1, name.2.word? hx]
    rw [NamesForm.print, List.append_assoc, List.cons_append, TemplateReader.namedClause?, hstar]
    simp only [List.append_assoc, Option.bind_eq_bind, has, Option.bind_some, NamesForm.after,
      Break.gap, hname _ (after.endsWord_append rest)]
    rfl

/-- What is read as names in front of a word is a clear form in print. -/
theorem exists_of_namedClause? {defaultName : Option String} {clause : ImportClause}
    (h : namedClause? defaultName text = some (clause, rest)) {gap : Gap} {word : Word}
    {tail : List Char} (hword : rest = gap.1 ++ (word.1 ++ tail)) :
    ∃ names : NamesForm, names.IsClear ∧ text = names.print ++ rest ∧ names.after = gap ∧
      clause = names.clause defaultName := by
  rw [namedClause?] at h
  split at h
  · next behind hstar =>
    simp only [Option.bind_eq_bind, Option.bind_eq_some_iff, Prod.exists, Option.some.injEq,
      Prod.mk.injEq] at h
    obtain ⟨behind', hkeyword, name, rest', hname, rfl, rfl⟩ := h
    obtain ⟨start, hstart, rfl⟩ := exists_of_eat? hstar
    obtain ⟨star, hgap, rfl, -, hends⟩ := exists_of_word? (word?_of_keyword? hkeyword)
    obtain ⟨space, hspace, rfl, hbound, hrest⟩ := exists_of_word? hname
    rw [hword] at hrest
    refine ⟨.whole ⟨start, hstart⟩ ⟨star, hgap⟩ ⟨space, hspace, hbound.ne_nil_of_endsWord hends⟩
      ⟨name, hbound⟩ ⟨gap.1, gap.2, word.2.ne_nil_of_endsWord hrest⟩, trivial, ?_, rfl, rfl⟩
    simp only [NamesForm.print, List.append_assoc, List.cons_append]
    rfl
  · simp only [Option.bind_eq_bind, Option.bind_eq_some_iff, Prod.exists, Option.some.injEq,
      Prod.mk.injEq] at h
    obtain ⟨behind, hbrace, ss, rest', hspecifiers, rfl, rfl⟩ := h
    obtain ⟨start, hstart, rfl⟩ := exists_of_eat? hbrace
    obtain ⟨entries, hentries, rfl, rfl⟩ := exists_of_specifiers? hspecifiers
    refine ⟨.list ⟨start, hstart⟩ entries gap, hentries, ?_, rfl, rfl⟩
    simp only [NamesForm.print, List.append_assoc, List.cons_append]

/-- What follows the names of a clause: whitespace and a word. -/
theorem ClauseForm.word?_print {clause : ClauseForm} {name : Word}
    (h : clause.defaultName? = some name) (rest : List Char) :
    ∃ behind, word? (clause.print ++ (clause.after.1 ++ rest)) = some (name.1, behind) := by
  cases clause with
  | default start name' after =>
    obtain rfl := Option.some.inj h
    refine ⟨after.1 ++ rest, ?_⟩
    rw [ClauseForm.print, List.append_assoc, word?_gap start.2.1]
    exact name'.2.word? (after.endsWord_append rest)
  | both start name' gap names =>
    obtain rfl := Option.some.inj h
    refine ⟨gap.1 ++ ',' :: (names.print ++ (names.after.1 ++ rest)), ?_⟩
    simp only [ClauseForm.print, List.append_assoc, List.cons_append]
    rw [word?_gap start.2.1]
    exact name'.2.word? (gap.2.endsWord_append (.cons rfl _))
  | others names => cases h

/-- Names without a default name are a list or a star. -/
theorem ClauseForm.eq_others {clause : ClauseForm} (h : clause.defaultName? = none) :
    ∃ names, clause = .others names := by
  cases clause with
  | others names => exact ⟨names, rfl⟩
  | default | both => cases h

/-- In front of the names of a statement a word ends. -/
theorem ClauseForm.endsWord_print (clause : ClauseForm) (rest : List Char) :
    EndsWord (clause.print ++ rest) := by
  cases clause with
  | default start name after =>
    rw [ClauseForm.print, List.append_assoc]
    exact start.endsWord_append _
  | both start name gap names =>
    rw [ClauseForm.print, List.append_assoc]
    exact start.endsWord_append _
  | others names => exact names.endsWord_print rest

/-- The names of a statement are no module. -/
theorem ClauseForm.module?_print (clause : ClauseForm) (rest : List Char) :
    module? (clause.print ++ rest) = none := by
  cases clause with
  | default start name after =>
    rw [ClauseForm.print, List.append_assoc, module?_gap start.2.1, name.2.module?_eq_none]
  | both start name gap names =>
    rw [ClauseForm.print, List.append_assoc, module?_gap start.2.1, List.append_assoc,
      name.2.module?_eq_none]
  | others names => exact names.module?_print rest

/-- Clear clauses are read back in front of a word. -/
theorem ClauseForm.clause?_print {clause : ClauseForm} (hclear : clause.IsClear) (word : Word)
    (tail : List Char) :
    TemplateReader.clause? (clause.print ++ (clause.after.1 ++ (word.1 ++ tail))) =
      some (clause.clause, clause.after.1 ++ (word.1 ++ tail)) := by
  cases clause with
  | default start name after =>
    have hname : word? (start.1 ++ (name.1 ++ (after.1 ++ (word.1 ++ tail)))) =
        some (name.1, after.1 ++ (word.1 ++ tail)) := by
      rw [word?_gap start.2.1, name.2.word? (after.endsWord_append _)]
    have hcomma : eat? ',' (after.1 ++ (word.1 ++ tail)) = none := by
      rw [eat?_gap after.2.1, word.2.eat?_eq_none rfl]
    simp only [ClauseForm.print, ClauseForm.after, Break.gap, List.append_assoc,
      TemplateReader.clause?, hname, hcomma]
    rfl
  | both start name gap names =>
    have hname (x : List Char) :
        word? (start.1 ++ (name.1 ++ (gap.1 ++ ',' :: x))) = some (name.1, gap.1 ++ ',' :: x) := by
      rw [word?_gap start.2.1, name.2.word? (gap.2.endsWord_append (.cons rfl x))]
    have hcomma (x : List Char) : eat? ',' (gap.1 ++ ',' :: x) = some x := by
      rw [eat?_gap gap.2, eat?_cons_self rfl]
    simp only [ClauseForm.print, ClauseForm.after, List.append_assoc, List.cons_append,
      TemplateReader.clause?, hname, hcomma, NamesForm.namedClause?_print hclear]
    rfl
  | others names =>
    rw [ClauseForm.print, TemplateReader.clause?, names.word?_print]
    exact NamesForm.namedClause?_print hclear none _

/-- What is read as a clause in front of a word is a clear form in print. -/
theorem exists_of_clause? {clause : ImportClause} (htext : EndsWord text)
    (h : clause? text = some (clause, rest)) (gap : Gap) (word : Word) {tail : List Char}
    (hword : rest = gap.1 ++ (word.1 ++ tail)) :
    ∃ form : ClauseForm, form.IsClear ∧ text = form.print ++ rest ∧ form.after = gap ∧
      clause = form.clause := by
  rw [clause?] at h
  split at h
  · next name behind hname =>
    obtain ⟨start, hstart, rfl, hbound, hbehind⟩ := exists_of_word? hname
    have hbreak : IsGap start ∧ start ≠ [] := ⟨hstart, hbound.ne_nil_of_endsWord htext⟩
    dsimp only at h
    split at h
    · next behind' hcomma =>
      obtain ⟨gap', hgap', rfl⟩ := exists_of_eat? hcomma
      obtain ⟨names, hnames, rfl, hafter, rfl⟩ := exists_of_namedClause? h hword
      refine ⟨.both ⟨start, hbreak⟩ ⟨name, hbound⟩ ⟨gap', hgap'⟩ names, hnames, ?_, hafter, rfl⟩
      simp only [ClauseForm.print, List.append_assoc, List.cons_append]
    · obtain ⟨rfl, rfl⟩ := Prod.mk.inj (Option.some.inj h)
      rw [hword] at hbehind
      refine ⟨.default ⟨start, hbreak⟩ ⟨name, hbound⟩
        ⟨gap.1, gap.2, word.2.ne_nil_of_endsWord hbehind⟩, trivial, ?_, rfl, rfl⟩
      rw [ClauseForm.print, List.append_assoc]
  · obtain ⟨names, hnames, htext, hafter, hclause⟩ := exists_of_namedClause? h hword
    exact ⟨.others names, hnames, htext, hafter, hclause⟩

/-- Where a word follows, a clause follows unless the word is `from`. -/
theorem clauseFollows_of_word? {word : List Char} (h : word? text = some (word, rest)) :
    clauseFollows text = (word != "from".toList) := by
  obtain ⟨gap, hgap, rfl, hword, hrest⟩ := exists_of_word? h
  obtain ⟨first, hfirst, hstart⟩ := hword.1
  obtain ⟨others, rfl⟩ := List.head?_eq_some_iff.mp hfirst
  have hspace := isSpace_of_isWordChar (isWordChar_of_isWordStart hstart)
  rw [clauseFollows, skipSpace_gap hgap, List.cons_append, skipSpace_cons hspace]
  split
  · next heq =>
    obtain ⟨rfl, -⟩ := List.cons.inj heq
    cases hstart
  · next heq =>
    obtain ⟨rfl, -⟩ := List.cons.inj heq
    cases hstart
  · rw [← List.cons_append, h]

/-- A comma shows that no names follow. -/
theorem clauseFollows_comma (gap : Gap) (text : List Char) :
    clauseFollows (gap.1 ++ ',' :: text) = false := by
  have hword : word? (gap.1 ++ ',' :: text) = none := by
    rw [word?_gap gap.2, word?_cons_eq_none rfl rfl]
  rw [clauseFollows, hword, skipSpace_gap gap.2, skipSpace_cons rfl]
  rfl

/-- The word `from` shows that no names follow. -/
theorem clauseFollows_from (gap : Gap) {tail : List Char} (htail : EndsWord tail) :
    clauseFollows (gap.1 ++ (Word.from.1 ++ tail)) = false := by
  have hword : word? (gap.1 ++ (Word.from.1 ++ tail)) = some (Word.from.1, tail) := by
    rw [word?_gap gap.2, Word.from.2.word? htail]
  rw [clauseFollows_of_word? hword]
  rfl

/-- A clause follows where one is in print, unless its default name is `from`. -/
theorem ClauseForm.clauseFollows_print {clause : ClauseForm}
    (hclear : clause.defaultName? ≠ some Word.from) (tail : List Char) :
    clauseFollows (clause.print ++ (clause.after.1 ++ tail)) = true := by
  cases hname : clause.defaultName? with
  | some name =>
    obtain ⟨behind, hword⟩ := ClauseForm.word?_print hname tail
    rw [clauseFollows_of_word? hword, bne_iff_ne]
    intro hfrom
    exact hclear (hname.trans (congrArg some (Subtype.ext hfrom)))
  | none =>
    obtain ⟨names, rfl⟩ := ClauseForm.eq_others hname
    exact names.clauseFollows_print _

/-- A name is no mark where no clause follows it, even if it is the word `type`. -/
theorem takeTypeMark_name (start : Break) (name : Word) (hrest : EndsWord rest)
    (hfollows : clauseFollows rest = false) :
    takeTypeMark (start.1 ++ (name.1 ++ rest)) = (false, start.1 ++ (name.1 ++ rest)) := by
  rw [takeTypeMark, keyword?_gap start.2.1]
  by_cases hname : name.1 = Word.type.1
  · have htype : keyword? "type" (name.1 ++ rest) = some rest := by
      rw [hname]
      exact Word.type.2.keyword? hrest
    rw [htype]
    exact if_neg (ne_true_of_eq_false hfollows)
  · rw [name.2.keyword?_eq_none hname hrest]

/-- The mark is taken off a clear statement. -/
theorem takeTypeMark_print {mark : Option Break} {clause : ClauseForm}
    (hclear : mark.isSome = true → clause.defaultName? ≠ some Word.from) {tail : List Char}
    (htail : EndsWord tail) :
    takeTypeMark (printMark mark ++ (clause.print ++ (clause.after.1 ++ (Word.from.1 ++ tail)))) =
      (mark.isSome, clause.print ++ (clause.after.1 ++ (Word.from.1 ++ tail))) := by
  cases mark with
  | some space =>
    have htype : keyword? "type" (printMark (some space) ++
        (clause.print ++ (clause.after.1 ++ (Word.from.1 ++ tail)))) =
          some (clause.print ++ (clause.after.1 ++ (Word.from.1 ++ tail))) := by
      rw [printMark, Option.elim_some, List.append_assoc, keyword?_gap space.2.1]
      exact Word.type.2.keyword? (clause.endsWord_print _)
    rw [takeTypeMark, htype]
    exact if_pos (ClauseForm.clauseFollows_print (hclear rfl) _)
  | none =>
    rw [printMark, Option.elim_none, List.nil_append]
    cases clause with
    | default start name after =>
      rw [ClauseForm.print, List.append_assoc]
      exact takeTypeMark_name start name (after.endsWord_append _)
        (clauseFollows_from after.gap htail)
    | both start name gap names =>
      simp only [ClauseForm.print, List.append_assoc, List.cons_append]
      exact takeTypeMark_name start name (gap.2.endsWord_append (.cons rfl _))
        (clauseFollows_comma gap _)
    | others names =>
      rw [takeTypeMark, ClauseForm.print, keyword?_eq_none (names.word?_print _)]
      rfl

/-- The mark is taken off where a clause follows it that does not begin with the name `from`. -/
theorem exists_of_takeTypeMark {text : List Char} (htext : EndsWord text) :
    ∃ mark : Option Break, text = printMark mark ++ (takeTypeMark text).2 ∧
      (takeTypeMark text).1 = mark.isSome ∧ EndsWord (takeTypeMark text).2 ∧
      (mark.isSome = true → clauseFollows (takeTypeMark text).2 = true) := by
  rw [takeTypeMark]
  split
  · exact ⟨none, rfl, rfl, htext, nofun⟩
  · next behind hkeyword =>
    split
    · next hfollows =>
      obtain ⟨start, hstart, rfl, htype, hbehind⟩ := exists_of_word? (word?_of_keyword? hkeyword)
      refine ⟨some ⟨start, hstart, htype.ne_nil_of_endsWord htext⟩, ?_, rfl, hbehind,
        fun _ => hfollows⟩
      rw [printMark, Option.elim_some, List.append_assoc]
      rfl
    · exact ⟨none, rfl, rfl, htext, nofun⟩

end

end TemplateReader
