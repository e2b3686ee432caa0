import TemplateReader.Proofs.Script.Reader

/-!
# Import statements and their printed forms

A form of an import statement is its names and its module together with the
layout in which they are written: the whitespace between the parts, the quotes of
the module, the commas of a list and the semicolon. Where two words meet, the
whitespace is not empty. For every form there is the statement that it should be
read to.

The words `type`, `as` and `from` are names like any other, with two exceptions
that one word of lookahead cannot tell: behind the mark of a statement the
default name is not `from`, and behind the mark of an entry the name is not `as`.
-/

namespace TemplateReader

/-- A word, which may be any name of a script. -/
abbrev Word := { text : List Char // IsWord text }

/-- The word that marks what imports only types. -/
def Word.type : Word := ⟨"type".toList, by decide⟩

/-- The word in front of another name. -/
def Word.as : Word := ⟨"as".toList, by decide⟩

/-- The word in front of the module. -/
def Word.from : Word := ⟨"from".toList, by decide⟩

/-- A module between two quotes of one kind. -/
structure ModuleForm where
  /-- The quote. -/
  quote : { c : Char // isTagQuote c = true }
  /-- The text between the quotes. -/
  inner : { text : List Char // FillsQuote quote.1 text }

/-- Another name for what is imported, with the breaks before and behind the word `as`. -/
structure BindingForm where
  /-- The break before the word `as`. -/
  before : Break
  /-- The break behind the word `as`. -/
  after : Break
  /-- The name. -/
  name : Word

/-- One entry of a braced list, behind a gap. -/
structure EntryForm where
  /-- The gap before the entry. -/
  start : Gap
  /-- The break behind the word `type`, if the entry is marked by it. -/
  mark : Option Break
  /-- The name exported by the module. -/
  imported : Word
  /-- The name it is bound to, unless it is bound to itself. -/
  binding : Option BindingForm

/-- The entries of a braced list behind its opening brace. -/
inductive EntriesForm where
  /-- No entries are left, behind the opening brace or behind a comma. -/
  | close (gap : Gap)
  /-- A last entry without a comma. -/
  | last (entry : EntryForm) (gap : Gap)
  /-- An entry with a comma. -/
  | more (entry : EntryForm) (gap : Gap) (others : EntriesForm)

/-- What may stand alone or behind a default name, with the whitespace behind it. -/
inductive NamesForm where
  /-- A braced list. -/
  | list (start : Gap) (entries : EntriesForm) (after : Gap)
  /-- The whole module. -/
  | whole (start star : Gap) (space : Break) (name : Word) (after : Break)

/-- The names of a statement, with the whitespace behind them. -/
inductive ClauseForm where
  /-- A default name. -/
  | default (start : Break) (name : Word) (after : Break)
  /-- A default name, a comma and more names. -/
  | both (start : Break) (name : Word) (gap : Gap) (names : NamesForm)
  /-- Names without a default one. -/
  | others (names : NamesForm)

/-- An import statement behind its keyword, up to its module. -/
inductive BodyForm where
  /-- A module alone. -/
  | alone (start : Gap) (source : ModuleForm)
  /-- Names from a module, with the break before the word `type` if the statement is marked by
  it. -/
  | binding (mark : Option Break) (clause : ClauseForm) (gap : Gap) (source : ModuleForm)

/-- An import statement behind its keyword. -/
structure ImportForm where
  /-- The statement up to its module. -/
  body : BodyForm
  /-- The gap before the semicolon, if there is one. -/
  semicolon : Option Gap

/-- A module in print. -/
def ModuleForm.print (m : ModuleForm) : List Char :=
  m.quote.1 :: (m.inner.1 ++ [m.quote.1])

/-- Another name in print. -/
def BindingForm.print (b : BindingForm) : List Char :=
  b.before.1 ++ (Word.as.1 ++ (b.after.1 ++ b.name.1))

/-- The mark of an entry in print. -/
def EntryForm.printMark (e : EntryForm) : List Char :=
  e.mark.elim [] fun space => Word.type.1 ++ space.1

/-- An entry in print. -/
def EntryForm.print (e : EntryForm) : List Char :=
  e.start.1 ++ (e.printMark ++ (e.imported.1 ++ e.binding.elim [] BindingForm.print))

/-- Entries in print, with the brace behind them. -/
def EntriesForm.print : EntriesForm → List Char
  | .close gap => gap.1 ++ ['}']
  | .last entry gap => entry.print ++ (gap.1 ++ ['}'])
  | .more entry gap others => entry.print ++ (gap.1 ++ ',' :: others.print)

/-- Names in print, without the whitespace behind them. -/
def NamesForm.print : NamesForm → List Char
  | .list start entries _ => start.1 ++ '{' :: entries.print
  | .whole start star space name _ =>
    start.1 ++ '*' :: (star.1 ++ (Word.as.1 ++ (space.1 ++ name.1)))

/-- The whitespace behind names. -/
def NamesForm.after : NamesForm → Gap
  | .list _ _ after => after
  | .whole _ _ _ _ after => after.gap

/-- A clause in print, without the whitespace behind it. -/
def ClauseForm.print : ClauseForm → List Char
  | .default start name _ => start.1 ++ name.1
  | .both start name gap names => start.1 ++ (name.1 ++ (gap.1 ++ ',' :: names.print))
  | .others names => names.print

/-- The whitespace behind a clause. -/
def ClauseForm.after : ClauseForm → Gap
  | .default _ _ after => after.gap
  | .both _ _ _ names => names.after
  | .others names => names.after

/-- The mark of a statement in print. -/
def printMark (mark : Option Break) : List Char :=
  mark.elim [] fun space => space.1 ++ Word.type.1

/-- A statement in print, up to its module. -/
def BodyForm.print : BodyForm → List Char
  | .alone start source => start.1 ++ source.print
  | .binding mark clause gap source =>
    printMark mark ++ (clause.print ++ (clause.after.1 ++ (Word.from.1 ++ (gap.1 ++ source.print))))

/-- A semicolon in print, if there is one. -/
def printSemicolon (semicolon : Option Gap) : List Char :=
  semicolon.elim [] fun gap => gap.1 ++ [';']

/-- A statement in print, without its keyword. -/
def ImportForm.print (f : ImportForm) : List Char :=
  f.body.print ++ printSemicolon f.semicolon

/-- The module that a form names. -/
def ModuleForm.source (m : ModuleForm) : String := String.ofList m.inner.1

/-- What an entry says. -/
def EntryForm.specifier (e : EntryForm) : Specifier where
  imported := String.ofList e.imported.1
  binding := String.ofList (e.binding.elim e.imported BindingForm.name).1
  typeOnly := e.mark.isSome

/-- What entries say. -/
def EntriesForm.specifiers : EntriesForm → List Specifier
  | .close _ => []
  | .last entry _ => [entry.specifier]
  | .more entry _ others => entry.specifier :: others.specifiers

/-- What names say behind a default name or alone. -/
def NamesForm.clause (defaultName : Option String) : NamesForm → ImportClause
  | .list _ entries _ => ⟨defaultName, none, entries.specifiers⟩
  | .whole _ _ _ name _ => ⟨defaultName, some (String.ofList name.1), []⟩

/-- What the names of a statement say. -/
def ClauseForm.clause : ClauseForm → ImportClause
  | .default _ name _ => ⟨some (String.ofList name.1), none, []⟩
  | .both _ name _ names => names.clause (some (String.ofList name.1))
  | .others names => names.clause none

/-- What a statement says. -/
def BodyForm.statement : BodyForm → ImportStatement
  | .alone _ source => ⟨false, ⟨none, none, []⟩, source.source⟩
  | .binding mark clause _ source => ⟨mark.isSome, clause.clause, source.source⟩

/-- What a statement says. -/
def ImportForm.statement (f : ImportForm) : ImportStatement := f.body.statement

/-- A marked entry does not import the name `as`. -/
def EntryForm.IsClear (e : EntryForm) : Prop := e.mark.isSome = true → e.imported ≠ Word.as

/-- Every entry is clear. -/
def EntriesForm.IsClear : EntriesForm → Prop
  | .close _ => True
  | .last entry _ => entry.IsClear
  | .more entry _ others => entry.IsClear ∧ others.IsClear

/-- Every entry of the names is clear. -/
def NamesForm.IsClear : NamesForm → Prop
  | .list _ entries _ => entries.IsClear
  | .whole _ _ _ _ _ => True

/-- Every entry of the clause is clear. -/
def ClauseForm.IsClear : ClauseForm → Prop
  | .default _ _ _ => True
  | .both _ _ _ names => names.IsClear
  | .others names => names.IsClear

/-- The default name of a clause, if there is one. -/
def ClauseForm.defaultName? : ClauseForm → Option Word
  | .default _ name _ => some name
  | .both _ name _ _ => some name
  | .others _ => none

/-- Every entry of the statement is clear, and a marked statement has no default name `from`. -/
def BodyForm.IsClear : BodyForm → Prop
  | .alone _ _ => True
  | .binding mark clause _ _ =>
    clause.IsClear ∧ (mark.isSome = true → clause.defaultName? ≠ some Word.from)

/-- The statement is one that can be told from every other. -/
def ImportForm.IsClear (f : ImportForm) : Prop := f.body.IsClear

instance (e : EntryForm) : Decidable e.IsClear :=
  inferInstanceAs (Decidable (_ → _))

instance EntriesForm.decidableIsClear : (es : EntriesForm) → Decidable es.IsClear
  | .close _ => inferInstanceAs (Decidable True)
  | .last entry _ => inferInstanceAs (Decidable entry.IsClear)
  | .more entry _ others =>
    have := others.decidableIsClear
    inferInstanceAs (Decidable (entry.IsClear ∧ others.IsClear))

instance : (names : NamesForm) → Decidable names.IsClear
  | .list _ entries _ => inferInstanceAs (Decidable entries.IsClear)
  | .whole _ _ _ _ _ => inferInstanceAs (Decidable True)

instance : (clause : ClauseForm) → Decidable clause.IsClear
  | .default _ _ _ => inferInstanceAs (Decidable True)
  | .both _ _ _ names => inferInstanceAs (Decidable names.IsClear)
  | .others names => inferInstanceAs (Decidable names.IsClear)

instance : (body : BodyForm) → Decidable body.IsClear
  | .alone _ _ => inferInstanceAs (Decidable True)
  | .binding mark clause _ _ =>
    inferInstanceAs
      (Decidable (clause.IsClear ∧ (mark.isSome = true → clause.defaultName? ≠ some Word.from)))

instance (f : ImportForm) : Decidable f.IsClear := inferInstanceAs (Decidable f.body.IsClear)

end TemplateReader
