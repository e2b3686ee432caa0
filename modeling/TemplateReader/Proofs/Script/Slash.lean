import Mathlib.Data.List.Infix
import TemplateReader.Proofs.Bytes.Regex
import TemplateReader.Proofs.Script.StrayQuote

/-!
# Slashes in a line

Whether a slash divides or opens a regular expression is only guessed, so a slash that
divides may be read as the opening one. The regular expression that is then looked for
ends with its line, unless a backslash stands at the end of the line and escapes the line
feed. But for that, the scan gets from every slash that opens no block comment to a place
in the same line, and what it knows when it comes to the next line does not depend on the
guess.
-/

namespace TemplateReader

/-- Whether a backslash at the end of a text escapes what follows the text. -/
def escapesNext (text : List Char) : Bool :=
  text.foldl (fun escaped c => !escaped && c = '\\') false

/-- Whether every quote in a text is closed in it, also the one that is already open if there is
one. -/
def closesQuotes : (opened : Option Char) → List Char → Bool
  | none, [] => true
  | some _, [] => false
  | none, c :: text => closesQuotes (if isScriptQuote c then some c else none) text
  | some quote, '\\' :: _ :: text => closesQuotes (some quote) text
  | some quote, c :: text => closesQuotes (if c = quote then none else some quote) text

/-- A line in which the scan finds nothing and remembers nothing for the next one. -/
structure IsQuietLine (line : List Char) : Prop where
  /-- It is one line. -/
  lineFeed : '\n' ∉ line
  /-- A quote is closed in it. -/
  quote : closesQuotes none line = true
  /-- So is one that is met behind any slash, which may have been taken for the end of a regular
  expression. -/
  behindSlash : ∀ rest, '/' :: rest <:+ line → closesQuotes none rest = true
  /-- No block comment begins in it. -/
  comment : ¬['/', '*'] <:+: line
  /-- No run of letters and digits is the word `import`. -/
  word : HasNoKeyword line
  /-- Behind a slash no backslash at its end escapes its line feed. -/
  ending : '/' ∈ line → escapesNext line = false

instance (line : List Char) : Decidable (IsQuietLine line) :=
  decidable_of_iff
    ('\n' ∉ line ∧ closesQuotes none line = true ∧
      (∀ tail ∈ line.tails, tail.head? = some '/' → closesQuotes none tail.tail = true) ∧
      ¬['/', '*'] <:+: line ∧ HasNoKeyword line ∧ ('/' ∈ line → escapesNext line = false))
    ⟨fun ⟨hfeed, hquote, hbehind, hcomment, hword, hending⟩ =>
        ⟨hfeed, hquote, fun _ h => hbehind _ ((List.mem_tails _ _).mpr h) rfl, hcomment, hword,
          hending⟩,
      fun h => ⟨h.lineFeed, h.quote, fun tail htail hhead => by
        obtain ⟨rest, rfl⟩ := List.head?_eq_some_iff.mp hhead
        exact h.behindSlash rest ((List.mem_tails _ _).mp htail), h.comment, h.word, h.ending⟩⟩

section

variable {line front rest : List Char} {c : Char} {inClass : Bool} {s : ScriptState} {k : Nat}

/-- An escaped character does not matter to what is behind it. -/
theorem escapesNext_escape : escapesNext ('\\' :: c :: rest) = escapesNext rest := rfl

/-- What stands before any other character than a backslash does not matter. -/
theorem escapesNext_append (hc : c ≠ '\\') (front rest : List Char) :
    escapesNext (front ++ c :: rest) = escapesNext rest := by
  simp [escapesNext, List.foldl_append, hc]

/-- Any other character than a backslash counts by itself: a line feed, a bracket, a closing slash,
or one of the expression. -/
theorem afterRegex?_cons (hc : c ≠ '\\') (text : List Char) :
    afterRegex? inClass (c :: text) =
      if c = '\n' then none
      else if c = '[' then afterRegex? true text
      else if c = ']' then afterRegex? false text
      else if c = '/' && !inClass then some text
      else afterRegex? inClass text := by
  rw [afterRegex?]
  · rintro rfl
    exact absurd rfl hc
  · rintro d tail rfl
    exact absurd rfl hc

/-- In front of the end of a line, a regular expression has no end or ends at a slash of the
line. -/
def EndsInLine (inClass : Bool) (line : List Char) : Prop :=
  ∀ later, afterRegex? inClass (line ++ '\n' :: later) = none ∨
    ∃ front rest, line = front ++ '/' :: rest ∧
      afterRegex? inClass (line ++ '\n' :: later) = some (rest ++ '\n' :: later)

/-- A regular expression ends in its line behind anything that does not change how it goes on. -/
theorem EndsInLine.prepend {inClass' : Bool} (h : EndsInLine inClass' line) (front : List Char)
    (hfront : ∀ text, afterRegex? inClass (front ++ text) = afterRegex? inClass' text) :
    EndsInLine inClass (front ++ line) := by
  intro later
  rw [List.append_assoc, hfront]
  rcases h later with hnone | ⟨before, rest, rfl, hrest⟩
  · exact .inl hnone
  · exact .inr ⟨front ++ before, rest, (List.append_assoc ..).symm, hrest⟩

/-- If the line feed is not escaped, that is where it ends. -/
theorem endsInLine (hline : '\n' ∉ line) (hending : escapesNext line = false) :
    EndsInLine inClass line := by
  fun_induction afterRegex? inClass line with
  | case1 => exact fun later => .inl rfl
  | case2 => cases hending
  | case3 inClass c line ih =>
    rw [escapesNext_escape] at hending
    simp only [List.mem_cons, not_or] at hline
    exact (ih hline.2.2 hending).prepend ['\\', c] fun _ => rfl
  | case4 => exact absurd List.mem_cons_self hline
  | case5 inClass line _ _ _ ih =>
    have hrest := ih (List.not_mem_of_not_mem_cons hline) hending
    exact hrest.prepend ['['] (afterRegex?_cons (by decide))
  | case6 inClass line _ _ _ _ ih =>
    have hrest := ih (List.not_mem_of_not_mem_cons hline) hending
    exact hrest.prepend [']'] (afterRegex?_cons (by decide))
  | case7 inClass c line hnil hcons hfeed hopen hclose hend =>
    have hbackslash := ne_backslash_of_cases hnil hcons
    obtain rfl := of_decide_eq_true (Bool.and_eq_true_iff.mp hend).1
    intro later
    refine .inr ⟨[], line, rfl, ?_⟩
    rw [List.cons_append, afterRegex?_cons hbackslash, if_neg hfeed, if_neg hopen, if_neg hclose,
      if_pos hend]
  | case8 inClass c line hnil hcons hfeed hopen hclose hend ih =>
    have hbackslash := ne_backslash_of_cases hnil hcons
    have hrest : escapesNext line = false :=
      (escapesNext_append hbackslash [] line).symm.trans hending
    refine (ih (List.not_mem_of_not_mem_cons hline) hrest).prepend [c] fun text => ?_
    rw [List.singleton_append, afterRegex?_cons hbackslash, if_neg hfeed, if_neg hopen,
      if_neg hclose, if_neg hend]

/-- If the line feed is not escaped, a slash that opens no block comment leads the scan on to a
place in its line, behind a slash or at the end of the line. -/
theorem exists_scriptStep_slash (s : ScriptState) (k : Nat) (hline : '\n' ∉ line)
    (hcomment : line.head? ≠ some '*') (hending : escapesNext line = false) (later : List Char) :
    ∃ front rest s', '/' :: line = front ++ rest ∧
      (rest = [] ∨ ∃ before, front = before ++ ['/']) ∧
      scriptStep s ⟨k, '/' :: (line ++ '\n' :: later)⟩ '/' (line ++ '\n' :: later) =
        ⟨none, s', ⟨k + byteSize front, rest ++ '\n' :: later⟩⟩ := by
  have hslash : scriptStep s ⟨k, '/' :: (line ++ '\n' :: later)⟩ '/' (line ++ '\n' :: later) =
      slashStep s ⟨k, '/' :: (line ++ '\n' :: later)⟩ (line ++ '\n' :: later) := rfl
  have hhead : ∀ c ≠ '\n', line.head? ≠ some c → (line ++ '\n' :: later).head? ≠ some c := by
    intro c hc hfirst
    cases line with
    | nil => simpa using Ne.symm hc
    | cons d line => exact hfirst
  rw [hslash]
  by_cases hfirst : line.head? = some '/'
  · obtain ⟨comment, rfl⟩ := List.head?_eq_some_iff.mp hfirst
    have hrun : ∀ c ∈ '/' :: '/' :: comment, (c != '\n') = true := by
      intro c hc
      rcases List.mem_cons.mp hc with rfl | hc
      · rfl
      · exact bne_iff_ne.mpr (ne_of_mem_of_not_mem hc hline)
    have hskip : (⟨k, '/' :: '/' :: comment ++ '\n' :: later⟩ : Cursor).skipWhile (· != '\n') =
        ⟨k + byteSize ('/' :: '/' :: comment), '\n' :: later⟩ :=
      skipWhile_append_of_ends hrun (by simp) k
    exact ⟨_, [], s, (List.append_nil _).symm, .inl rfl, congrArg (ScriptStep.mk none s) hskip⟩
  · rw [Bytes.slashStep_of_head? (hhead '/' (by decide) hfirst) (hhead '*' (by decide) hcomment)]
    have halone : ∃ before, ['/'] = before ++ ['/'] := ⟨[], rfl⟩
    by_cases hregex : s.regexAllowed = true
    · rw [if_pos hregex, Cursor.advance]
      have hends : EndsInLine false line := endsInLine hline hending
      rcases hends later with hnone | ⟨front, rest, rfl, hrest⟩
      · refine ⟨['/'], line, .operand, rfl, .inr halone, ?_⟩
        rw [hnone, Option.getD_none, Bytes.seek_eq_advance (List.nil_append _).symm]
        rfl
      · refine ⟨'/' :: front ++ ['/'], rest, .operand, by simp, .inr ⟨'/' :: front, rfl⟩, ?_⟩
        have hsplit : front ++ '/' :: rest ++ '\n' :: later =
            front ++ ['/'] ++ (rest ++ '\n' :: later) := by simp
        have hsize : byteSize ('/' :: front ++ ['/']) =
            byteSize ['/'] + byteSize (front ++ ['/']) := byteSize_append ['/'] (front ++ ['/'])
        rw [hrest, Option.getD_some, Bytes.seek_eq_advance hsplit, Cursor.advance, hsize,
          ← Nat.add_assoc]
    · rw [if_neg hregex]
      exact ⟨['/'], line, _, rfl, .inr halone, rfl⟩

/-- An empty line is quiet. -/
theorem isQuietLine_nil : IsQuietLine [] := by decide

/-- What no quote is does not matter to the quotes behind it. -/
theorem closesQuotes_append (hfront : ∀ c ∈ front, isScriptQuote c = false) :
    closesQuotes none (front ++ rest) = closesQuotes none rest := by
  induction front with
  | nil => rfl
  | cons c front ih =>
    rw [List.forall_mem_cons] at hfront
    rw [List.cons_append, closesQuotes, if_neg (ne_true_of_eq_false hfront.1), ih hfront.2]

/-- An open quote that is closed ends where it is looked for, and the others are closed behind. -/
theorem exists_of_closesQuotes {quote : Char} (hquote : isScriptQuote quote = true)
    (h : closesQuotes (some quote) line = true) :
    ∃ inner rest, splitQuote quote line = some (inner, rest) ∧ closesQuotes none rest = true := by
  fun_induction splitQuote quote line with
  | case1 => cases h
  | case2 =>
    have hbackslash : '\\' ≠ quote := by
      rintro rfl
      cases hquote
    rw [closesQuotes, if_neg hbackslash] at h
    · cases h
    · exact fun _ _ _ => (List.cons_ne_nil _ _).symm
  | case3 c line ih =>
    obtain ⟨inner, rest, hsplit, hrest⟩ := ih h
    rw [hsplit]
    exact ⟨_, rest, rfl, hrest⟩
  | case4 line hnil hcons =>
    have hbackslash := ne_backslash_of_cases hnil hcons
    rw [closesQuotes, if_pos rfl] at h
    · exact ⟨[], line, rfl, h⟩
    · exact fun _ _ hc _ => hbackslash hc
  | case5 c line hnil hcons hc ih =>
    have hbackslash := ne_backslash_of_cases hnil hcons
    rw [closesQuotes, if_neg hc] at h
    · obtain ⟨inner, rest, hsplit, hrest⟩ := ih h
      rw [hsplit]
      exact ⟨_, rest, rfl, hrest⟩
    · exact fun _ _ hslash _ => hbackslash hslash

/-- The end of a quiet line is one as well, unless it begins inside a word or between quotes. -/
theorem IsQuietLine.of_append (h : IsQuietLine (front ++ rest))
    (hquote : closesQuotes none rest = true) (hword : HasNoKeyword rest) : IsQuietLine rest where
  lineFeed hmem := h.lineFeed (List.mem_append_right _ hmem)
  quote := hquote
  behindSlash later hlater := h.behindSlash later (hlater.trans (List.suffix_append front rest))
  comment hpart := h.comment (hpart.trans (List.suffix_append front rest).isInfix)
  word := hword
  ending hslash := by
    have hending := h.ending (List.mem_append_right _ hslash)
    obtain ⟨before, behind, rfl⟩ := List.append_of_mem hslash
    rw [escapesNext_append (by decide)]
    rwa [← List.append_assoc, escapesNext_append (by decide)] at hending

/-- From a slash in a quiet line the scan gets to a later place in the line, behind which the line
is quiet as well. -/
theorem IsQuietLine.exists_behind_slash (h : IsQuietLine ('/' :: line)) (s : ScriptState) (k : Nat)
    (later : List Char) :
    ∃ front rest s', '/' :: line = front ++ rest ∧ rest.length < ('/' :: line).length ∧
      IsQuietLine rest ∧
      importsFrom s ⟨k, '/' :: (line ++ '\n' :: later)⟩ =
        importsFrom s' ⟨k + byteSize front, rest ++ '\n' :: later⟩ := by
  have hline : '\n' ∉ line := List.not_mem_of_not_mem_cons h.lineFeed
  have hcomment : line.head? ≠ some '*' := by
    intro hstar
    obtain ⟨comment, rfl⟩ := List.head?_eq_some_iff.mp hstar
    exact h.comment (List.prefix_append ['/', '*'] comment).isInfix
  have hending : escapesNext line = false := h.ending List.mem_cons_self
  obtain ⟨front, rest, s', hsplit, hfront, hstep⟩ :=
    exists_scriptStep_slash s k hline hcomment hending later
  refine ⟨front, rest, s', hsplit, ?_, ?_, importsFrom_step hstep⟩
  · rcases hfront with rfl | ⟨before, rfl⟩
    · exact Nat.succ_pos _
    · rw [hsplit, List.length_append, List.length_append, List.length_singleton]
      omega
  · rcases hfront with rfl | ⟨before, rfl⟩
    · exact isQuietLine_nil
    · have hword := h.word
      rw [hsplit, List.append_assoc] at hword
      have hbehind : '/' :: rest <:+ '/' :: line := by
        rw [hsplit, List.append_assoc]
        exact List.suffix_append before ('/' :: rest)
      exact (hsplit ▸ h).of_append (h.behindSlash rest hbehind) (hword.behind rfl)

/-- A quote in a quiet line leads the scan on to a later place in the line, behind which the line is
quiet as well. -/
theorem IsQuietLine.exists_behind_quote {quote : Char} (h : IsQuietLine (quote :: line))
    (hquote : isScriptQuote quote = true) (later : List Char) :
    ∃ front rest, quote :: line = front ++ rest ∧ rest.length < (quote :: line).length ∧
      IsQuietLine rest ∧ PassedOver front (rest ++ later) := by
  have hclosed := h.quote
  rw [closesQuotes, if_pos hquote] at hclosed
  obtain ⟨inner, rest, hsplit, hrest⟩ := exists_of_closesQuotes hquote hclosed
  obtain ⟨rfl, hinner⟩ := splitQuote_eq_some_iff.mp hsplit
  have hfront : quote :: (inner ++ quote :: rest) = quote :: (inner ++ [quote]) ++ rest := by simp
  have hmark : isWordChar quote = false := by
    rcases isScriptQuote_iff.mp hquote with rfl | rfl | rfl <;> rfl
  have hword : HasNoKeyword (quote :: inner ++ quote :: rest) := h.word
  refine ⟨_, _, hfront, ?_, (hfront ▸ h).of_append hrest (hword.behind hmark), fun s k => ?_⟩
  · rw [hfront, List.length_append]
    exact Nat.lt_add_of_pos_left (Nat.succ_pos _)
  · have hstring := importsFrom_string (s := s) (k := k) hquote hinner (rest ++ later)
    exact ⟨.operand, by simpa using hstring⟩

/-- In front of the end of a line a quiet line is passed over. -/
theorem IsQuietLine.passedOver (h : IsQuietLine line) (later : List Char) :
    PassedOver line ('\n' :: later) := by
  induction hn : line.length using Nat.strongRecOn generalizing line with
  | ind n ih =>
    cases line with
    | nil => exact .nil
    | cons c line =>
      by_cases hslash : c = '/'
      · subst hslash
        intro s k
        obtain ⟨front, rest, s', hsplit, hshort, hrest, hbehind⟩ := h.exists_behind_slash s k later
        obtain ⟨s'', hscan⟩ := ih rest.length (hn ▸ hshort) hrest rfl s' (k + byteSize front)
        refine ⟨s'', ?_⟩
        rw [List.cons_append, hbehind, hscan, hsplit, byteSize_append, Nat.add_assoc]
      · cases hquote : isScriptQuote c with
        | true =>
          obtain ⟨front, rest, hsplit, hshort, hrest, hfirst⟩ :=
            h.exists_behind_quote hquote ('\n' :: later)
          rw [hsplit]
          exact hfirst.append (ih rest.length (hn ▸ hshort) hrest rfl)
        | false =>
          obtain ⟨front, rest, hsplit, hne, hunquoted, hword, hfirst⟩ :=
            h.word.exists_passedOver hquote hslash
          have hshort := List.length_pos_iff.mpr hne
          rw [hsplit] at h hn ⊢
          rw [List.length_append] at hn
          have hends : EndsWord ('\n' :: later) := .cons rfl _
          have hclosed := (closesQuotes_append hunquoted).symm.trans h.quote
          exact (hfirst _ hends).append (ih rest.length (by omega) (h.of_append hclosed hword) rfl)

/-- Behind any opening slash the search among the bytes finds the end of the regular expression,
the first slash that is neither escaped nor in a class, or nothing exactly if the line ends before
it; and no line feed is passed over unless one is escaped in the regular expression. The scan goes
to that end, which is in the line of the slash if no backslash at the end of that line escapes its
line feed, and what it finds in the next lines is then what they hold, whatever it took the slash
for, if the rest of the line is quiet. -/
theorem regex_staysInLine (bytes : List UInt8) (start : Nat) (script text : List Char)
    (s : ScriptState) (k : Nat) (line later : List Char) :
    (∃ found, Bytes.regexEnd bytes start = .ok found ∧
      (∀ stop, found = some stop ↔ Bytes.IsRegexEnd bytes start stop) ∧
      (found = none ↔ Bytes.LineEndsFirst bytes start) ∧
      (Bytes.IsFoundInLine bytes start found ↔
        ∀ stop i, Bytes.IsRegexEnd bytes start stop → i < stop →
          Bytes.byteIn? bytes i = some '\n' → ¬Bytes.IsEscaped bytes start i)) ∧
    ('/' :: text <:+ script →
      Bytes.regexEnd (Bytes.utf8 script) (Bytes.place script ('/' :: text)) =
        .ok ((afterRegex? false text).map (Bytes.place script))) ∧
    ('\n' ∉ line → line.head? ≠ some '*' → escapesNext line = false →
      ∃ front rest s', '/' :: line = front ++ rest ∧
        scriptStep s ⟨k, '/' :: (line ++ '\n' :: later)⟩ '/' (line ++ '\n' :: later) =
          ⟨none, s', ⟨k + byteSize front, rest ++ '\n' :: later⟩⟩ ∧
        (IsQuietLine rest →
          importsFrom s ⟨k, '/' :: (line ++ '\n' :: later)⟩ =
            scriptImports (k + byteSize ('/' :: line) + 1) later)) := by
  refine ⟨?_, Bytes.regexEnd_place, fun hline hcomment hending => ?_⟩
  · obtain ⟨found, hrun, hend, hnone⟩ := Bytes.exists_regexEnd bytes start
    exact ⟨found, hrun, hend, hnone, Bytes.isFoundInLine_iff hend hnone⟩
  · obtain ⟨front, rest, s', hsplit, -, hstep⟩ :=
      exists_scriptStep_slash s k hline hcomment hending later
    refine ⟨front, rest, s', hsplit, hstep, fun hrest => ?_⟩
    obtain ⟨s'', hscan⟩ := hrest.passedOver later s' (k + byteSize front)
    rw [importsFrom_step hstep, hscan, importsFrom_newline, hsplit, byteSize_append,
      ← Nat.add_assoc]
    rfl

end

/-- What stands behind a slash in its line, with a quote and three slashes, of which only the last
closes the regular expression. -/
private def classLine : List Char := "[/']+\\//g".toList

/-- Behind a class with a quote and a slash in it the regular expression ends in its line, and what
the next line imports is found. -/
theorem regex_staysInLine_class :
    Bytes.IsRegexEnd (Bytes.utf8 ('/' :: classLine)) 0 9 ∧
      importsFrom .fresh ⟨0, '/' :: (classLine ++ '\n' :: "import Z from 'z'".toList)⟩ =
        [⟨false, some "Z", none, [], "z", ⟨11, 28⟩⟩] := by
  obtain ⟨⟨found, hfound, hstop, -⟩, hplace, hline⟩ :=
    regex_staysInLine (Bytes.utf8 ('/' :: classLine)) 0 ('/' :: classLine) classLine .fresh 0
      classLine "import Z from 'z'".toList
  constructor
  · have hrun : Bytes.regexEnd (Bytes.utf8 ('/' :: classLine)) 0 =
        .ok ((afterRegex? false classLine).map (Bytes.place ('/' :: classLine))) :=
      hplace (List.suffix_refl _)
    have hend : (afterRegex? false classLine).map (Bytes.place ('/' :: classLine)) = some 9 := by
      decide +kernel
    rw [hend] at hrun
    exact (hstop 9).mp (Except.ok.inj (hfound.symm.trans hrun))
  · obtain ⟨front, rest, s', -, hstep, hquiet⟩ := hline (by decide) (by decide) (by decide)
    have hrest := congrArg (fun step => step.after.rest) hstep
    have hfrom : ['g'] ++ '\n' :: "import Z from 'z'".toList =
      rest ++ '\n' :: "import Z from 'z'".toList := hrest
    obtain rfl := List.append_cancel_right hfrom
    rw [hquiet (by decide)]
    decide +kernel

/-- Quotes that are closed do no harm, but a slash between quotes does: read as the end of a regular
expression, it leaves the closing quote open. -/
example : IsQuietLine "g.exec(a + 'b/\\'c') / d".toList ∧ ¬IsQuietLine " '/'.length".toList ∧
    scriptImports 0 "n = i++ / '/'.length\nimport Y from 'y'".toList = [] := by decide +kernel

/-- A slash, a backslash at the end of the line, and an import in the next line. -/
private def backslashScript : List Char := "/\\\nimport X from './y'".toList

/-- The search takes the slash in the module of the import for the end, and the import is lost. -/
theorem regexEnd_overLineFeed :
    Bytes.regexEnd (Bytes.utf8 backslashScript) 0 = .ok (some 20) ∧
      ¬Bytes.IsFoundInLine (Bytes.utf8 backslashScript) 0 (some 20) ∧
      scriptImports 0 backslashScript = [] ∧
      scriptImports 3 (backslashScript.drop 3) =
        [⟨false, some "X", none, [], "./y", ⟨3, 22⟩⟩] := by
  have hfeed : Bytes.byteIn? (Bytes.utf8 backslashScript) 2 = some '\n' := by decide +kernel
  refine ⟨by decide +kernel, ?_, by decide +kernel, by decide +kernel⟩
  rintro ⟨-, hline⟩
  exact hline 2 (by decide) (by decide) hfeed

end TemplateReader
