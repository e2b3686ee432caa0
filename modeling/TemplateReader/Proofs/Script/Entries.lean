import TemplateReader.Proofs.Script.Printing

/-!
# Entries of braced lists are read from their printed forms

An entry is read word by word: the word `type` marks it if another word than `as`
follows, and the word `as` gives it another name. Behind an entry stands a comma
or a brace, so no word goes on or follows there. A list is read up to its brace,
and what is read as one is the printed form of a clear one.
-/

namespace TemplateReader

section

variable {text rest : List Char}

/-- What may follow an entry: neither the rest of a word nor another word. -/
structure EndsEntry (rest : List Char) : Prop where
  /-- No word goes on. -/
  endsWord : EndsWord rest
  /-- No word follows. -/
  word? : word? rest = none

/-- An entry ends in front of a mark that is neither blank nor of a word. -/
theorem endsEntry_of_mark (gap : Gap) {c : Char} (hspace : isSpace c = false)
    (hc : isWordChar c = false) (text : List Char) : EndsEntry (gap.1 ++ c :: text) where
  endsWord := gap.2.endsWord_append (.cons hc text)
  word? := by
    rw [word?_gap gap.2]
    apply word?_cons_eq_none hspace
    rw [Bool.eq_false_iff]
    intro hstart
    rw [isWordChar_of_isWordStart hstart] at hc
    cases hc

/-- Behind a word, either another name follows or the end of the entry. -/
theorem endsWord_binding (binding : Option BindingForm) (hrest : EndsWord rest) :
    EndsWord (binding.elim [] BindingForm.print ++ rest) := by
  cases binding with
  | none => exact hrest
  | some b =>
    rw [Option.elim_some, BindingForm.print, List.append_assoc]
    exact b.before.endsWord_append _

/-- Behind an imported name, the name that it is bound to is read. -/
theorem binding?_print (imported : Word) (binding : Option BindingForm) (hrest : EndsEntry rest) :
    binding? imported.1 (binding.elim [] BindingForm.print ++ rest) =
      some ((binding.elim imported BindingForm.name).1, rest) := by
  cases binding with
  | none =>
    rw [Option.elim_none, List.nil_append, binding?, keyword?_eq_none hrest.word?]
    rfl
  | some b =>
    have hprint : BindingForm.print b ++ rest =
        b.before.1 ++ (Word.as.1 ++ (b.after.1 ++ (b.name.1 ++ rest))) := by
      simp only [BindingForm.print, List.append_assoc]
    have has : keyword? "as" (Word.as.1 ++ (b.after.1 ++ (b.name.1 ++ rest))) =
        some (b.after.1 ++ (b.name.1 ++ rest)) :=
      Word.as.2.keyword? (b.after.endsWord_append _)
    rw [Option.elim_some, hprint, binding?, keyword?_gap b.before.2.1, has]
    dsimp only
    rw [word?_gap b.after.2.1, b.name.2.word? hrest.endsWord]
    rfl

/-- What is read as the name that an import binds is written as such. -/
theorem exists_of_binding? (imported : Word) {name : List Char} (htext : EndsWord text)
    (h : binding? imported.1 text = some (name, rest)) :
    ∃ binding : Option BindingForm, text = binding.elim [] BindingForm.print ++ rest ∧
      name = (binding.elim imported BindingForm.name).1 ∧ EndsWord rest := by
  rw [binding?] at h
  split at h
  · next tail hkeyword =>
    obtain ⟨gap, hgap, rfl, has, htail⟩ := exists_of_word? (word?_of_keyword? hkeyword)
    obtain ⟨gap', hgap', rfl, hname, hrest⟩ := exists_of_word? h
    refine ⟨some ⟨⟨gap, hgap, has.ne_nil_of_endsWord htext⟩,
      ⟨gap', hgap', hname.ne_nil_of_endsWord htail⟩, ⟨name, hname⟩⟩, ?_, rfl, hrest⟩
    simp only [Option.elim_some, BindingForm.print, List.append_assoc]
    rfl
  · obtain ⟨rfl, rfl⟩ := Prod.mk.inj (Option.some.inj h)
    exact ⟨none, rfl, rfl, htext⟩

private theorem specifier?_word (first : Word) {tail : List Char} (htail : EndsWord tail) :
    specifier? (first.1 ++ tail) =
      match word? tail with
      | some (second, after) =>
        if first = Word.type ∧ second ≠ Word.as.1 then
          (binding? second after).map fun (name, rest) =>
            (⟨String.ofList second, String.ofList name, true⟩, rest)
        else
          (binding? first.1 tail).map fun (name, rest) =>
            (⟨String.ofList first.1, String.ofList name, false⟩, rest)
      | none =>
        (binding? first.1 tail).map fun (name, rest) =>
          (⟨String.ofList first.1, String.ofList name, false⟩, rest) := by
  rw [specifier?, first.2.word? htail]
  simp only [Option.bind_eq_bind, Option.bind_some]
  cases word? tail with
  | none =>
    cases binding? first.1 tail <;> rfl
  | some pair =>
    obtain ⟨second, after⟩ := pair
    have hguard : (first.1 = "type".toList && second != "as".toList) = true ↔
        first = Word.type ∧ second ≠ Word.as.1 := by
      rw [Bool.and_eq_true, decide_eq_true_eq, bne_iff_ne]
      exact and_congr ⟨fun h => Subtype.ext h, congrArg Subtype.val⟩ Iff.rfl
    by_cases hmark : first = Word.type ∧ second ≠ Word.as.1
    · simp only [if_pos hmark, if_pos (hguard.mpr hmark)]
      cases binding? second after <;> rfl
    · simp only [if_neg hmark, if_neg (mt hguard.mp hmark)]
      cases binding? first.1 tail <;> rfl

/-- A clear entry is read back. -/
theorem EntryForm.specifier?_print {entry : EntryForm} (hclear : entry.IsClear)
    (hrest : EndsEntry rest) :
    TemplateReader.specifier? (entry.print ++ rest) = some (entry.specifier, rest) := by
  obtain ⟨start, mark, imported, binding⟩ := entry
  have hends := endsWord_binding binding hrest.endsWord
  have hgap (x : List Char) :
      TemplateReader.specifier? (start.1 ++ x) = TemplateReader.specifier? x := by
    rw [TemplateReader.specifier?, TemplateReader.specifier?, word?_gap start.2]
  cases mark with
  | some space =>
    have hprint : EntryForm.print ⟨start, some space, imported, binding⟩ ++ rest =
        start.1 ++ (Word.type.1 ++ (space.1 ++
          (imported.1 ++ (binding.elim [] BindingForm.print ++ rest)))) := by
      simp only [EntryForm.print, EntryForm.printMark, Option.elim_some, List.append_assoc]
    have has : imported.1 ≠ Word.as.1 := fun h => hclear rfl (Subtype.ext h)
    rw [hprint, hgap, specifier?_word _ (space.endsWord_append _), word?_gap space.2.1,
      imported.2.word? hends]
    dsimp only
    rw [if_pos ⟨rfl, has⟩, binding?_print imported binding hrest]
    rfl
  | none =>
    have hprint : EntryForm.print ⟨start, none, imported, binding⟩ ++ rest =
        start.1 ++ (imported.1 ++ (binding.elim [] BindingForm.print ++ rest)) := by
      simp only [EntryForm.print, EntryForm.printMark, Option.elim_none, List.nil_append,
        List.append_assoc]
    rw [hprint, hgap, specifier?_word _ hends, binding?_print imported binding hrest]
    cases binding with
    | none =>
      rw [Option.elim_none, List.nil_append, hrest.word?]
      rfl
    | some b =>
      have has : word? (Option.elim (some b) [] BindingForm.print ++ rest) =
          some (Word.as.1, b.after.1 ++ (b.name.1 ++ rest)) := by
        rw [Option.elim_some, BindingForm.print, List.append_assoc, List.append_assoc,
          List.append_assoc, word?_gap b.before.2.1, Word.as.2.word? (b.after.endsWord_append _)]
      rw [has]
      dsimp only
      rw [if_neg fun h => h.2 rfl]
      rfl

/-- What is read as an entry is a clear one in print. -/
theorem exists_of_specifier? {s : Specifier} (h : specifier? text = some (s, rest)) :
    ∃ entry : EntryForm, entry.IsClear ∧ text = entry.print ++ rest ∧ s = entry.specifier ∧
      EndsWord rest := by
  have hword : ∃ first tail, word? text = some (first, tail) := by
    simp only [specifier?, Option.bind_eq_bind, Option.bind_eq_some_iff, Prod.exists] at h
    obtain ⟨first, tail, hword, -⟩ := h
    exact ⟨first, tail, hword⟩
  obtain ⟨first, tail, hword⟩ := hword
  obtain ⟨gap, hgap, rfl, hfirst, htail⟩ := exists_of_word? hword
  have hskip : specifier? (gap ++ (first ++ tail)) = specifier? (first ++ tail) := by
    rw [specifier?, specifier?, word?_gap hgap]
  have hplain (hbinding : (binding? first tail).map (fun (name, rest) =>
      ((⟨String.ofList first, String.ofList name, false⟩ : Specifier), rest)) = some (s, rest)) :
      ∃ entry : EntryForm, entry.IsClear ∧ gap ++ (first ++ tail) = entry.print ++ rest ∧
        s = entry.specifier ∧ EndsWord rest := by
    obtain ⟨⟨name, rest'⟩, hname, heq⟩ := Option.map_eq_some_iff.mp hbinding
    obtain ⟨rfl, rfl⟩ := Prod.mk.inj heq
    obtain ⟨binding, rfl, rfl, hrest⟩ := exists_of_binding? ⟨first, hfirst⟩ htail hname
    refine ⟨⟨⟨gap, hgap⟩, none, ⟨first, hfirst⟩, binding⟩,
      fun hmark => absurd hmark Bool.false_ne_true, ?_, rfl, hrest⟩
    simp only [EntryForm.print, EntryForm.printMark, Option.elim_none, List.nil_append,
      List.append_assoc]
  rw [hskip, specifier?_word ⟨first, hfirst⟩ htail] at h
  split at h
  · next second after hsecond =>
    split at h
    · next hmark =>
      obtain ⟨htype, has⟩ := hmark
      obtain rfl : first = Word.type.1 := congrArg Subtype.val htype
      obtain ⟨space, hspace, rfl, himported, hafter⟩ := exists_of_word? hsecond
      obtain ⟨⟨name, rest'⟩, hname, heq⟩ := Option.map_eq_some_iff.mp h
      obtain ⟨rfl, rfl⟩ := Prod.mk.inj heq
      obtain ⟨binding, rfl, rfl, hrest⟩ :=
        exists_of_binding? ⟨second, himported⟩ hafter hname
      refine ⟨⟨⟨gap, hgap⟩, some ⟨space, hspace, himported.ne_nil_of_endsWord htail⟩,
        ⟨second, himported⟩, binding⟩, fun _ heq => has (congrArg Subtype.val heq), ?_, rfl, hrest⟩
      simp only [EntryForm.print, EntryForm.printMark, Option.elim_some, List.append_assoc]
    · exact hplain h
  · exact hplain h

/-- An entry begins with a word behind its gap. -/
theorem EntryForm.exists_print (entry : EntryForm) (rest : List Char) :
    ∃ (word : Word) (tail : List Char),
      entry.print ++ rest = entry.start.1 ++ (word.1 ++ tail) := by
  obtain ⟨start, mark, imported, binding⟩ := entry
  cases mark with
  | none =>
    refine ⟨imported, binding.elim [] BindingForm.print ++ rest, ?_⟩
    simp only [EntryForm.print, EntryForm.printMark, Option.elim_none, List.nil_append,
      List.append_assoc]
  | some space =>
    refine ⟨Word.type, space.1 ++ (imported.1 ++ (binding.elim [] BindingForm.print ++ rest)), ?_⟩
    simp only [EntryForm.print, EntryForm.printMark, Option.elim_some, List.append_assoc]

/-- An entry does not begin with a mark. -/
theorem EntryForm.eat?_print (entry : EntryForm) (wanted : Char)
    (hwanted : isWordStart wanted = false) (rest : List Char) :
    eat? wanted (entry.print ++ rest) = none := by
  obtain ⟨word, tail, hprint⟩ := entry.exists_print rest
  rw [hprint, eat?_gap entry.start.2, word.2.eat?_eq_none hwanted]

private theorem specifiers?_entry {s : Specifier} (hbrace : eat? '}' text = none)
    (hentry : specifier? text = some (s, rest)) :
    specifiers? text =
      match eat? ',' rest with
      | some tail => (specifiers? tail).map fun (others, rest) => (s :: others, rest)
      | none => (eat? '}' rest).map fun rest => ([s], rest) := by
  rw [specifiers?.eq_def]
  simp only [hbrace]
  split
  · next hnone =>
    rw [hentry] at hnone
    cases hnone
  · next s' rest' hsome =>
    obtain ⟨rfl, rfl⟩ := Prod.mk.inj (Option.some.inj (hentry.symm.trans hsome))
    split
    · next tail hcomma => rw [hcomma]
    · next hcomma =>
      rw [hcomma]
      cases eat? '}' rest <;> rfl

/-- A clear list of entries is read back. -/
theorem EntriesForm.specifiers?_print {entries : EntriesForm} (hclear : entries.IsClear) :
    TemplateReader.specifiers? (entries.print ++ rest) = some (entries.specifiers, rest) := by
  induction entries with
  | close gap =>
    have heat : eat? '}' (gap.1 ++ '}' :: rest) = some rest := by
      rw [eat?_gap gap.2, eat?_cons_self rfl]
    rw [EntriesForm.print, List.append_assoc, List.singleton_append,
      TemplateReader.specifiers?.eq_def, heat]
    rfl
  | last entry gap =>
    have hentry := EntryForm.specifier?_print hclear
      (endsEntry_of_mark gap (c := '}') rfl rfl rest)
    have hcomma : eat? ',' (gap.1 ++ '}' :: rest) = none := by
      rw [eat?_gap gap.2, eat?_cons_ne rfl (by decide)]
    have hclose : eat? '}' (gap.1 ++ '}' :: rest) = some rest := by
      rw [eat?_gap gap.2, eat?_cons_self rfl]
    rw [EntriesForm.print, List.append_assoc, List.append_assoc, List.singleton_append,
      specifiers?_entry (entry.eat?_print '}' rfl _) hentry, hcomma, hclose]
    rfl
  | more entry gap others ih =>
    have hentry := EntryForm.specifier?_print hclear.1
      (endsEntry_of_mark gap (c := ',') rfl rfl (others.print ++ rest))
    have hcomma :
        eat? ',' (gap.1 ++ ',' :: (others.print ++ rest)) = some (others.print ++ rest) := by
      rw [eat?_gap gap.2, eat?_cons_self rfl]
    rw [EntriesForm.print, List.append_assoc, List.append_assoc, List.cons_append,
      specifiers?_entry (entry.eat?_print '}' rfl _) hentry, hcomma]
    dsimp only
    rw [ih hclear.2]
    rfl

/-- What is read as a list of entries is a clear one in print. -/
theorem exists_of_specifiers? {ss : List Specifier} (h : specifiers? text = some (ss, rest)) :
    ∃ entries : EntriesForm, entries.IsClear ∧ text = entries.print ++ rest ∧
      ss = entries.specifiers := by
  fun_induction specifiers? text generalizing ss rest with
  | case1 text tail hclose =>
    obtain ⟨rfl, rfl⟩ := Prod.mk.inj (Option.some.inj h)
    obtain ⟨gap, hgap, rfl⟩ := exists_of_eat? hclose
    refine ⟨.close ⟨gap, hgap⟩, trivial, ?_, rfl⟩
    rw [EntriesForm.print, List.append_assoc, List.singleton_append]
  | case2 => cases h
  | case3 text _ s after hs tail hcomma _ _ ih =>
    obtain ⟨⟨others, last⟩, hothers, heq⟩ := Option.map_eq_some_iff.mp h
    obtain ⟨rfl, rfl⟩ := Prod.mk.inj heq
    obtain ⟨entry, hentry, rfl, rfl, -⟩ := exists_of_specifier? hs
    obtain ⟨gap, hgap, rfl⟩ := exists_of_eat? hcomma
    obtain ⟨entries, hentries, rfl, rfl⟩ := ih hothers
    refine ⟨.more entry ⟨gap, hgap⟩ entries, ⟨hentry, hentries⟩, ?_, rfl⟩
    simp only [EntriesForm.print, List.append_assoc, List.cons_append]
  | case4 text _ s after hs _ tail hclose =>
    obtain ⟨rfl, rfl⟩ := Prod.mk.inj (Option.some.inj h)
    obtain ⟨entry, hentry, rfl, rfl, -⟩ := exists_of_specifier? hs
    obtain ⟨gap, hgap, rfl⟩ := exists_of_eat? hclose
    refine ⟨.last entry ⟨gap, hgap⟩, hentry, ?_, rfl⟩
    simp only [EntriesForm.print, List.append_assoc, List.singleton_append]
  | case5 => cases h

end

end TemplateReader
