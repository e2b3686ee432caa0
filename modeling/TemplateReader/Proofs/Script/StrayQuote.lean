import TemplateReader.Proofs.Literal.Balance
import TemplateReader.Proofs.Script.Places

/-!
# Stray quotes

A quote that nothing closes is passed over alone, and the scan goes on behind it.
Whether something closes it is told by all that is left of the script and not by its
line. So an import statement behind the line of a stray quote is found only if it
does not close that quote. It does whenever its module is written in quotes of the
same kind, and whenever its module holds one of them without a backslash.
-/

namespace TemplateReader

/-- There are neither quotes nor backslashes in a text. -/
def IsUnquoted (text : List Char) : Prop :=
  ∀ c ∈ text, isScriptQuote c = false ∧ c ≠ '\\'

section

variable {x y : List Char} {c : Char}

@[simp] theorem isUnquoted_nil : IsUnquoted [] := List.forall_mem_nil _

@[simp] theorem isUnquoted_cons :
    IsUnquoted (c :: x) ↔ (isScriptQuote c = false ∧ c ≠ '\\') ∧ IsUnquoted x :=
  List.forall_mem_cons

@[simp] theorem isUnquoted_append : IsUnquoted (x ++ y) ↔ IsUnquoted x ∧ IsUnquoted y :=
  List.forall_mem_append

@[simp] theorem isUnquoted_gap (gap : Gap) : IsUnquoted gap.1 := by
  intro c hc
  rcases isSpace_iff.mp (gap.2 c hc) with rfl | rfl | rfl | rfl | rfl <;> decide

@[simp] theorem isUnquoted_break (space : Break) : IsUnquoted space.1 :=
  isUnquoted_gap space.gap

@[simp] theorem isUnquoted_word (word : Word) : IsUnquoted word.1 := by
  intro c hc
  have hword := word.2.2 c hc
  refine ⟨(isInert_of_isWordChar hword).1, ?_⟩
  rintro rfl
  cases hword

/-- A quote does not end in a text without quotes. -/
theorem IsUnquoted.splitQuote_append (hx : IsUnquoted x) {quote : Char}
    (hquote : isScriptQuote quote = true) (rest : List Char) :
    splitQuote quote (x ++ rest) =
      (splitQuote quote rest).map fun (inner, after) => (x ++ inner, after) := by
  refine TemplateReader.splitQuote_append (fun c hc => ?_) rest
  obtain ⟨hunquoted, hbackslash⟩ := hx c hc
  refine ⟨hbackslash, ?_⟩
  rintro rfl
  rw [hunquoted] at hquote
  cases hquote

/-- In a text without quotes none is closed. -/
theorem IsUnquoted.splitQuote_eq_none (hx : IsUnquoted x) {quote : Char}
    (hquote : isScriptQuote quote = true) : splitQuote quote x = none := by
  have h := hx.splitQuote_append hquote []
  rwa [List.append_nil] at h

/-- An entry has no quotes. -/
theorem EntryForm.isUnquoted_print (entry : EntryForm) : IsUnquoted entry.print := by
  obtain ⟨start, mark, imported, binding⟩ := entry
  cases mark <;> cases binding <;> simp [EntryForm.print, EntryForm.printMark, BindingForm.print]

/-- A list of entries has no quotes. -/
theorem EntriesForm.isUnquoted_print (entries : EntriesForm) : IsUnquoted entries.print := by
  induction entries with
  | close gap => simp [EntriesForm.print, isScriptQuote]
  | last entry gap => simp [EntriesForm.print, isScriptQuote, entry.isUnquoted_print]
  | more entry gap others ih =>
    simp [EntriesForm.print, isScriptQuote, entry.isUnquoted_print, ih]

/-- A list of names, or a star, has no quotes. -/
theorem NamesForm.isUnquoted_print (names : NamesForm) : IsUnquoted names.print := by
  cases names with
  | list start entries after =>
    simp [NamesForm.print, isScriptQuote, entries.isUnquoted_print]
  | whole start star space name after => simp [NamesForm.print, isScriptQuote]

/-- The names of a statement have no quotes. -/
theorem ClauseForm.isUnquoted_print (clause : ClauseForm) : IsUnquoted clause.print := by
  cases clause with
  | default start name after => simp [ClauseForm.print]
  | both start name gap names =>
    simp [ClauseForm.print, isScriptQuote, names.isUnquoted_print]
  | others names => exact names.isUnquoted_print

/-- The module of a statement. -/
def BodyForm.source : BodyForm → ModuleForm
  | .alone _ source => source
  | .binding _ _ _ source => source

/-- Nothing in front of the module of a statement is quoted. -/
theorem BodyForm.exists_print (body : BodyForm) :
    ∃ front, body.print = front ++ body.source.print ∧ IsUnquoted front := by
  cases body with
  | alone start source => exact ⟨start.1, rfl, isUnquoted_gap start⟩
  | binding mark clause gap source =>
    refine ⟨printMark mark ++ (clause.print ++ (clause.after.1 ++ (Word.from.1 ++ gap.1))), ?_, ?_⟩
    · simp only [BodyForm.print, BodyForm.source, List.append_assoc]
    · cases mark <;> simp [printMark, clause.isUnquoted_print]

/-- A semicolon has no quotes. -/
theorem isUnquoted_printSemicolon (semicolon : Option Gap) :
    IsUnquoted (printSemicolon semicolon) := by
  cases semicolon <;> simp [printSemicolon, isScriptQuote]

variable {quote other : Char} {rest : List Char}

/-- A character that is no backslash may stand between quotes if it is not the quote. -/
theorem fillsQuote_cons (hc : c ≠ '\\') :
    FillsQuote quote (c :: x) ↔ c ≠ quote ∧ FillsQuote quote x := by
  rw [FillsQuote, FillsQuote, List.cons_append, splitQuote_cons hc]
  split_ifs with h <;> simp [h]

/-- An escaped character may stand between quotes. -/
theorem fillsQuote_escape : FillsQuote quote ('\\' :: c :: x) ↔ FillsQuote quote x := by
  simp [FillsQuote, splitQuote]

/-- What stands between quotes of one kind leaves another kind open exactly when it may stand
between two of that kind as well. -/
theorem FillsQuote.splitQuote_eq_none_iff (hx : FillsQuote other x)
    (hquote : isScriptQuote quote = true) (hy : splitQuote quote y = none) :
    splitQuote quote (x ++ y) = none ↔ FillsQuote quote x := by
  fun_induction splitQuote quote x with
  | case1 =>
    have hfills : FillsQuote quote [] := by
      rcases isScriptQuote_iff.mp hquote with rfl | rfl | rfl <;> rfl
    exact iff_of_true hy hfills
  | case2 =>
    have hopen : splitQuote other ['\\', other] = none := rfl
    rw [FillsQuote, List.singleton_append, hopen] at hx
    cases hx
  | case3 c x ih =>
    rw [fillsQuote_escape] at hx ⊢
    rw [List.cons_append, List.cons_append, splitQuote, Option.map_eq_none_iff, ih hx]
  | case4 x hnil hcons =>
    have hbackslash := ne_backslash_of_cases hnil hcons
    rw [fillsQuote_cons hbackslash, List.cons_append, splitQuote_cons hbackslash, if_pos rfl]
    exact iff_of_false (Option.some_ne_none _) fun h => h.1 rfl
  | case5 c x hnil hcons hc ih =>
    have hbackslash := ne_backslash_of_cases hnil hcons
    rw [fillsQuote_cons hbackslash] at hx ⊢
    rw [List.cons_append, splitQuote_cons hbackslash, if_neg hc, Option.map_eq_none_iff, ih hx.2]
    exact (and_iff_right hc).symm

/-- A statement leaves a quote in front of it open exactly when its module is in other quotes and
could stand between two of that kind as well. -/
theorem ImportForm.splitQuote_print_eq_none_iff (form : ImportForm)
    (hquote : isScriptQuote quote = true) :
    splitQuote quote ('\n' :: (Segment.statement form).print) = none ↔
      quote ≠ form.body.source.quote.1 ∧ FillsQuote quote form.body.source.inner.1 := by
  obtain ⟨front, hprint, hfront⟩ := form.body.exists_print
  generalize form.body.source = source at hprint ⊢
  obtain ⟨⟨other, hother⟩, ⟨inner, hinner⟩⟩ := source
  have hbefore : IsUnquoted ('\n' :: (Segment.importWord.1 ++ front)) :=
    isUnquoted_cons.mpr ⟨by decide, isUnquoted_append.mpr ⟨isUnquoted_word _, hfront⟩⟩
  have htext : '\n' :: (Segment.statement form).print =
      '\n' :: (Segment.importWord.1 ++ front) ++
        other :: (inner ++ other :: printSemicolon form.semicolon) := by
    simp only [Segment.print, ImportForm.print, hprint, ModuleForm.print, List.append_assoc,
      List.cons_append, List.nil_append]
  have hbackslash : other ≠ '\\' := by
    rintro rfl
    cases hother
  rw [htext, hbefore.splitQuote_append hquote, Option.map_eq_none_iff, splitQuote_cons hbackslash]
  by_cases hsame : quote = other
  · rw [if_pos hsame.symm]
    exact iff_of_false (Option.some_ne_none _) fun h => h.1 hsame
  · have hbehind : splitQuote quote (other :: printSemicolon form.semicolon) = none := by
      have hsemicolon := isUnquoted_printSemicolon form.semicolon
      rw [splitQuote_cons hbackslash, if_neg (Ne.symm hsame), hsemicolon.splitQuote_eq_none hquote]
      rfl
    rw [if_neg (Ne.symm hsame), Option.map_eq_none_iff,
      hinner.splitQuote_eq_none_iff hquote hbehind]
    exact (and_iff_right hsame).symm

/-- No run of letters and digits in a text is the word `import`. -/
def HasNoKeyword (text : List Char) : Prop :=
  Segment.importWord.1 ∉ text.splitOnP fun c => !isWordChar c

instance (text : List Char) : Decidable (HasNoKeyword text) :=
  inferInstanceAs (Decidable (_ ∉ _))

/-- The empty text has no keyword. -/
theorem hasNoKeyword_nil : HasNoKeyword [] := by decide

/-- Behind a character of no word there is no keyword if there is none in the whole text. -/
theorem HasNoKeyword.behind (hc : isWordChar c = false) (h : HasNoKeyword (x ++ c :: y)) :
    HasNoKeyword y := by
  have hbreak : (!isWordChar c) = true := by rw [hc]; rfl
  intro hy
  apply h
  rw [List.splitOnP_append_cons x y hbreak]
  exact List.mem_append_right _ hy

/-- A run at the front of a text is no keyword, and neither is one in the text behind it. -/
theorem HasNoKeyword.run (hrun : ∀ c ∈ x, isWordChar c = true) (hy : EndsWord y)
    (h : HasNoKeyword (x ++ y)) : x ≠ Segment.importWord.1 ∧ HasNoKeyword y := by
  have hneg : ∀ c ∈ x, (!isWordChar c) = false := fun c hc => by rw [hrun c hc]; rfl
  unfold HasNoKeyword at h ⊢
  cases y with
  | nil =>
    rw [List.append_nil, List.splitOnP_eq_singleton hneg, List.mem_singleton] at h
    exact ⟨Ne.symm h, hasNoKeyword_nil⟩
  | cons d y =>
    have hd := hy d rfl
    have hbreak : (!isWordChar d) = true := by rw [hd]; rfl
    rw [List.splitOnP_append_cons_of_forall_mem hneg d hbreak, List.mem_cons, not_or] at h
    rw [List.splitOnP_cons_eq_if_modifyHead, if_pos hbreak, List.mem_cons, not_or]
    exact ⟨Ne.symm h.1, by decide, h.2⟩

/-- A stretch of a script without quotes, slashes and the word `import`. -/
structure IsImportless (line : List Char) : Prop where
  /-- There is no quote. -/
  quote : ∀ c ∈ line, isScriptQuote c = false
  /-- There is no slash. -/
  slash : '/' ∉ line
  /-- No run of letters and digits is the word `import`. -/
  word : Segment.importWord.1 ∉ line.splitOnP fun c => !isWordChar c

instance (line : List Char) : Decidable (IsImportless line) :=
  decidable_of_iff
    ((line.all fun c => !isScriptQuote c) = true ∧ '/' ∉ line ∧
      Segment.importWord.1 ∉ line.splitOnP fun c => !isWordChar c)
    ⟨fun h => ⟨by simpa using h.1, h.2.1, h.2.2⟩,
      fun h => ⟨by simpa using h.quote, h.slash, h.word⟩⟩

/-- In whatever state the scan is, it gets from a text to what follows it and finds nothing. -/
def PassedOver (text rest : List Char) : Prop :=
  ∀ s k, ∃ s', importsFrom s ⟨k, text ++ rest⟩ = importsFrom s' ⟨k + byteSize text, rest⟩

/-- Nothing is passed over where nothing stands. -/
theorem PassedOver.nil : PassedOver [] rest := fun s _ => ⟨s, rfl⟩

/-- Two texts that are passed over are passed over one behind the other. -/
theorem PassedOver.append (hx : PassedOver x (y ++ rest)) (hy : PassedOver y rest) :
    PassedOver (x ++ y) rest := by
  intro s k
  obtain ⟨s₁, hfirst⟩ := hx s k
  obtain ⟨s₂, hlast⟩ := hy s₁ (k + byteSize x)
  refine ⟨s₂, ?_⟩
  rw [List.append_assoc, hfirst, hlast, byteSize_append, Nat.add_assoc]

/-- A character that is no quote, no slash and of no word is passed over. -/
theorem passedOver_mark (hword : isWordChar c = false) (hquote : isScriptQuote c = false)
    (hslash : c ≠ '/') : PassedOver [c] rest := by
  have hnone {b : Bool} (hb : b = true → isWordChar c = true) : b = false := by
    rw [Bool.eq_false_iff]
    intro h
    rw [hb h] at hword
    cases hword
  have hstart := hnone isWordChar_of_isWordStart
  have hdigit := hnone isWordChar_of_isDigit
  intro s k
  have hstep : ∃ s', scriptStep s ⟨k, c :: rest⟩ c rest = ⟨none, s', ⟨k + byteSize [c], rest⟩⟩ := by
    simp only [scriptStep, hquote, Bool.false_eq_true, if_false, if_neg hslash, hstart, hdigit]
    split_ifs <;> exact ⟨_, rfl⟩
  obtain ⟨s', hstep⟩ := hstep
  exact ⟨s', importsFrom_step hstep⟩

/-- A word that is not the keyword of an import is passed over. -/
theorem passedOver_run (hne : x ≠ []) (hrun : ∀ c ∈ x, isWordChar c = true)
    (hkeyword : x ≠ Segment.importWord.1) (hrest : EndsWord rest) : PassedOver x rest := by
  intro s k
  have htake := (takeWhile_append_of_ends hrun hrest).1
  have hskip := skipWhile_append_of_ends hrun hrest k
  have hnot : decide (x = "import".toList) = false := decide_eq_false hkeyword
  have hword : wordStep s ⟨k, x ++ rest⟩ = ⟨none, .afterWord x, ⟨k + byteSize x, rest⟩⟩ := by
    rw [wordStep, hskip, htake, hnot, Bool.and_false, if_neg Bool.false_ne_true]
  obtain ⟨c, x, rfl⟩ := List.exists_cons_of_ne_nil hne
  have hc := hrun c List.mem_cons_self
  have hquote := (isInert_of_isWordChar hc).1
  have hmark : ∀ d, isWordChar d = false → c ≠ d := by
    rintro d hd rfl
    rw [hc] at hd
    cases hd
  have hends : (c = '\n' || c = ';' || c = '{' || c = '}') = false := by
    simp [hmark '\n' rfl, hmark ';' rfl, hmark '{' rfl, hmark '}' rfl]
  have hdigit : isWordStart c = false → c.isDigit = true := by
    intro hstart
    simp only [isWordChar, isWordStart, Char.isAlphanum] at hc hstart
    grind
  have hstep : ∃ s', scriptStep s ⟨k, c :: (x ++ rest)⟩ c (x ++ rest) =
      ⟨none, s', ⟨k + byteSize (c :: x), rest⟩⟩ := by
    simp only [scriptStep, hquote, Bool.false_eq_true, if_false, if_neg (hmark '/' rfl), hends,
      isSpace_of_isWordChar hc]
    cases hstart : isWordStart c with
    | true => exact ⟨_, hword⟩
    | false =>
      refine ⟨.operand, ?_⟩
      rw [List.cons_append] at hskip
      rw [hdigit hstart, hskip]
      rfl
  obtain ⟨s', hstep⟩ := hstep
  exact ⟨s', importsFrom_step hstep⟩

/-- Up to a slash or a quote, a text without the keyword is passed over piece by piece. -/
theorem HasNoKeyword.exists_passedOver (h : HasNoKeyword (c :: x))
    (hquote : isScriptQuote c = false) (hslash : c ≠ '/') :
    ∃ front y, c :: x = front ++ y ∧ front ≠ [] ∧ (∀ d ∈ front, isScriptQuote d = false) ∧
      HasNoKeyword y ∧ ∀ rest, EndsWord rest → PassedOver front (y ++ rest) := by
  cases hc : isWordChar c with
  | false =>
    refine ⟨[c], x, rfl, List.cons_ne_nil _ _, List.forall_mem_singleton.mpr hquote,
      h.behind (x := []) hc, fun rest _ => ?_⟩
    exact passedOver_mark hc hquote hslash
  | true =>
    have hsplit : c :: x = c :: x.takeWhile isWordChar ++ x.dropWhile isWordChar := by
      rw [List.cons_append, List.takeWhile_append_dropWhile]
    have hrun : ∀ d ∈ c :: x.takeWhile isWordChar, isWordChar d = true :=
      List.forall_mem_cons.mpr ⟨hc, fun d hd => List.mem_takeWhile_imp hd⟩
    have hbehind : EndsWord (x.dropWhile isWordChar) := head?_dropWhile_eq_false isWordChar x
    rw [hsplit] at h
    obtain ⟨hkeyword, hword⟩ := h.run hrun hbehind
    refine ⟨_, _, hsplit, List.cons_ne_nil _ _,
      fun d hd => (isInert_of_isWordChar (hrun d hd)).1, hword, fun rest hrest => ?_⟩
    exact passedOver_run (List.cons_ne_nil _ _) hrun hkeyword (hbehind.append hrest)

/-- A line without quotes and imports is passed over. -/
theorem IsImportless.passedOver (hline : IsImportless x) (hrest : EndsWord rest) :
    PassedOver x rest := by
  induction hn : x.length using Nat.strongRecOn generalizing x with
  | ind n ih =>
    cases x with
    | nil => exact .nil
    | cons c x =>
      have hslash : c ≠ '/' := by
        rintro rfl
        exact hline.slash List.mem_cons_self
      have hkeyword : HasNoKeyword (c :: x) := hline.word
      obtain ⟨front, y, hsplit, hne, -, hword, hfirst⟩ :=
        hkeyword.exists_passedOver (hline.quote c List.mem_cons_self) hslash
      have hshort := List.length_pos_iff.mpr hne
      rw [hsplit] at hline hn ⊢
      rw [List.length_append] at hn
      have hy : IsImportless y := by
        refine ⟨fun d hd => hline.quote d (List.mem_append_right _ hd), fun hmem => ?_, hword⟩
        exact hline.slash (List.mem_append_right _ hmem)
      exact (hfirst rest hrest).append (ih y.length (by omega) hy rfl)

/-- A quote that nothing closes is passed over alone. -/
theorem passedOver_stray (hquote : isScriptQuote quote = true)
    (hopen : splitQuote quote rest = none) : PassedOver [quote] rest := by
  intro s k
  have hstep : scriptStep s ⟨k, quote :: rest⟩ quote rest =
      ⟨none, .operand, ⟨k + byteSize [quote], rest⟩⟩ := by
    rw [scriptStep, if_pos hquote, hopen, Option.map_none, Option.getD_none,
      Bytes.seek_eq_advance (List.nil_append rest).symm]
    rfl
  exact ⟨.operand, importsFrom_step hstep⟩

/-- No import begins inside a quoted run: the scan goes on behind the closing quote. -/
theorem le_start_of_mem_importsFrom (hquote : isScriptQuote quote = true)
    (hx : FillsQuote quote x) (rest : List Char) (s : ScriptState) (k : Nat) :
    ∀ i ∈ importsFrom s ⟨k, quote :: (x ++ quote :: rest)⟩,
      k + byteSize (quote :: (x ++ [quote])) ≤ i.span.start := by
  intro i hi
  rw [importsFrom_string hquote hx] at hi
  exact ((imported_importsFrom _ _).span_of_mem hi).1

/-- Behind a line with a stray quote, an import statement is found where it is written, and nothing
besides, exactly when its module is in other quotes and could stand between two of the stray kind
as well. -/
theorem scriptImports_behindStrayQuote (base : Nat) {line : List Char} (hline : IsImportless line)
    (hquote : isScriptQuote quote = true) {form : ImportForm} (hclear : form.IsClear) :
    scriptImports base (line ++ quote :: '\n' :: (Segment.statement form).print) =
        (Segment.statement form).found (base + byteSize line + 2) ↔
      quote ≠ form.body.source.quote.1 ∧ FillsQuote quote form.body.source.inner.1 := by
  rw [← form.splitQuote_print_eq_none_iff hquote]
  have hsize : byteSize [quote] = 1 := by
    rcases isScriptQuote_iff.mp hquote with rfl | rfl | rfl <;> rfl
  have hends : EndsWord (quote :: '\n' :: (Segment.statement form).print) := by
    refine .cons ?_ _
    rcases isScriptQuote_iff.mp hquote with rfl | rfl | rfl <;> rfl
  obtain ⟨s, hscan⟩ := hline.passedOver hends .fresh base
  have hstatement : scriptImports (base + byteSize line + 2) (Segment.statement form).print =
      (Segment.statement form).found (base + byteSize line + 2) :=
    IsImport.scriptImports_eq ⟨form, hclear, rfl, rfl⟩
  rw [scriptImports, hscan]
  cases hsplit : splitQuote quote ('\n' :: (Segment.statement form).print) with
  | none =>
    obtain ⟨s', hstray⟩ := passedOver_stray hquote hsplit s (base + byteSize line)
    rw [List.singleton_append, hsize] at hstray
    rw [hstray, importsFrom_newline]
    exact iff_of_true hstatement rfl
  | some split =>
    obtain ⟨inner, rest⟩ := split
    obtain ⟨htext, hinner⟩ := splitQuote_eq_some_iff.mp hsplit
    have hne : inner ≠ [] := by
      rintro rfl
      rw [List.nil_append, List.cons.injEq] at htext
      obtain ⟨rfl, -⟩ := htext
      cases hquote
    refine iff_of_false (fun hfound => ?_) (Option.some_ne_none _)
    -- The quoted run takes in the end of the line, behind which the statement begins.
    have hbehind := le_start_of_mem_importsFrom hquote hinner rest s (base + byteSize line)
    rw [← htext, hfound] at hbehind
    have hstart := hbehind _ List.mem_cons_self
    have hspan : ∀ span, (form.statement.located span).span = span := fun _ => rfl
    have hpos := byteSize_pos hne
    simp only [hspan, byteSize_cons, byteSize_append, byteSize_nil] at hstart hsize
    omega

/-- The statement `import Y from 'x'`. -/
def defaultForm : ImportForm :=
  ⟨.binding none (.default blank ⟨['Y'], by decide⟩ blank) blank.gap letterModule, none⟩

/-- Behind a stray quote of the other kind the statement is found. -/
theorem scriptImports_behindDoubleQuote :
    IsImportless "const apostrophe = x + ".toList ∧ defaultForm.IsClear ∧
      scriptImports 0 "const apostrophe = x + \"\nimport Y from 'x'".toList =
        [⟨false, some "Y", none, [], "x", ⟨25, 42⟩⟩] := by
  have hline : IsImportless "const apostrophe = x + ".toList := by decide
  have hquote : isScriptQuote '"' = true := rfl
  have hclear : defaultForm.IsClear := by decide
  refine ⟨hline, hclear, ?_⟩
  exact (scriptImports_behindStrayQuote 0 hline hquote hclear).mpr (by decide)

/-- Behind a stray quote of its own kind the same statement is lost. -/
theorem scriptImports_behindSingleQuote :
    IsImportless "x = ".toList ∧ defaultForm.IsClear ∧
      "x = '\nimport Y from 'x'".toList =
        "x = ".toList ++ '\'' :: '\n' :: (Segment.statement defaultForm).print ∧
      (Segment.statement defaultForm).found 6 = [⟨false, some "Y", none, [], "x", ⟨6, 23⟩⟩] ∧
      scriptImports 0 "x = '\nimport Y from 'x'".toList = [] := by
  decide +kernel

end

end TemplateReader
