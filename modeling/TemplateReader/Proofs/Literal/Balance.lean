import TemplateReader.Proofs.Literal.Whole

/-!
# Braces around literals

The search for a closing brace passes over a data literal as a whole: its own braces
are balanced, its strings are quoted runs of the same extent, and nothing else in it
is a brace or a quote. So braces around a literal, and any blanks beside it, enclose
exactly that text.
-/

namespace TemplateReader

/-- The search for a closing brace passes over a text and goes on behind it as it was. -/
def IsBalanced (text : List Char) : Prop :=
  ∀ depth rest, splitBraces depth (text ++ rest) =
    (splitBraces depth rest).map fun (inner, after) => (text ++ inner, after)

/-- A character that neither quotes nor is a brace. -/
def IsInert (c : Char) : Prop := isScriptQuote c = false ∧ c ≠ '{' ∧ c ≠ '}'

section

variable {x y : List Char} {c : Char}

/-- The empty text is balanced. -/
theorem IsBalanced.nil : IsBalanced [] := by
  intro depth rest
  rw [List.nil_append]
  cases splitBraces depth rest <;> rfl

/-- Balanced texts side by side are balanced. -/
theorem IsBalanced.append (hx : IsBalanced x) (hy : IsBalanced y) : IsBalanced (x ++ y) := by
  intro depth rest
  rw [List.append_assoc, hx, hy]
  cases splitBraces depth rest with
  | none => rfl
  | some split => simp only [Option.map_some, List.append_assoc]

/-- A character that opens, closes and quotes nothing is balanced. -/
theorem isBalanced_singleton (h : IsInert c) : IsBalanced [c] := by
  obtain ⟨hquote, hopening, hclosing⟩ := h
  intro depth rest
  rw [List.singleton_append, splitBraces_cons, hquote, if_neg Bool.false_ne_true, if_neg hopening,
    if_neg hclosing]
  rfl

/-- A text of such characters is balanced. -/
theorem isBalanced_of_forall (h : ∀ c ∈ x, IsInert c) : IsBalanced x := by
  induction x with
  | nil => exact .nil
  | cons c x ih =>
    rw [List.forall_mem_cons] at h
    exact (isBalanced_singleton h.1).append (ih h.2)

/-- A quoted run is balanced, whatever braces are in it. -/
theorem FillsQuote.isBalanced {quote : Char} (hquote : isScriptQuote quote = true)
    (h : FillsQuote quote x) : IsBalanced (quote :: (x ++ [quote])) := by
  intro depth rest
  have hsplit : splitQuote quote (x ++ [quote] ++ rest) = some (x, rest) :=
    splitQuote_eq_some_iff.mpr ⟨by simp, h⟩
  rw [List.cons_append, splitBraces_cons, if_pos hquote, hsplit]
  dsimp only [Option.bind_eq_bind, Option.bind_some]
  cases splitBraces depth rest with
  | none => rfl
  | some split => simp

/-- Braces around a balanced text are balanced. -/
theorem IsBalanced.braces (h : IsBalanced x) : IsBalanced ('{' :: (x ++ ['}'])) := by
  intro depth rest
  have hopening : isScriptQuote '{' = false := rfl
  have hclosing : isScriptQuote '}' = false := rfl
  rw [List.cons_append, splitBraces_cons, hopening, if_neg Bool.false_ne_true, if_pos rfl,
    List.append_assoc, h, List.singleton_append, splitBraces_cons, hclosing,
    if_neg Bool.false_ne_true, if_neg (by decide), if_pos rfl]
  dsimp only
  cases splitBraces depth rest with
  | none => rfl
  | some split => simp

/-- Braces around a balanced text enclose it as one braced run. -/
theorem IsBalanced.fillsBraces (h : IsBalanced x) : FillsBraces x := by
  have hclosing : isScriptQuote '}' = false := rfl
  rw [FillsBraces, h, splitBraces_cons, hclosing, if_neg Bool.false_ne_true, if_neg (by decide),
    if_pos rfl]
  simp

private theorem isInert_of_class {p : Char → Bool}
    (hp : ['"', '\'', '\x60', '{', '}'].any p = false) (h : p c = true) : IsInert c := by
  have hne {d : Char} (hd : d ∈ ['"', '\'', '\x60', '{', '}']) : c ≠ d := by
    rintro rfl
    exact List.any_eq_false.mp hp c hd h
  refine ⟨?_, hne (by decide), hne (by decide)⟩
  rw [Bool.eq_false_iff]
  intro hquote
  simp only [isScriptQuote, Bool.or_eq_true, decide_eq_true_eq] at hquote
  rcases hquote with (rfl | rfl) | rfl
  all_goals exact hne (by decide) rfl

/-- A character of a word opens, closes and quotes nothing. -/
theorem isInert_of_isWordChar (h : isWordChar c = true) : IsInert c :=
  isInert_of_class rfl h

/-- A blank opens, closes and quotes nothing. -/
theorem isInert_of_isBlankChar (h : isBlankChar c = true) : IsInert c :=
  isInert_of_class rfl h

/-- Blanks are balanced. -/
theorem IsGap.isBalanced (h : IsGap x) : IsBalanced x :=
  isBalanced_of_forall fun c hc => isInert_of_isBlankChar (isBlankChar_of_isSpace (h c hc))

/-- A text of word characters is balanced. -/
theorem isBalanced_of_all (h : x.all isWordChar = true) : IsBalanced x :=
  isBalanced_of_forall fun c hc => isInert_of_isWordChar (List.all_eq_true.mp h c hc)

/-- A word is balanced. -/
theorem IsWord.isBalanced (h : IsWord x) : IsBalanced x :=
  isBalanced_of_all (List.all_eq_true.mpr h.2)

/-- The digits of a whole number are balanced. -/
theorem IsWhole.isBalanced (h : IsWhole x) : IsBalanced x := by
  obtain ⟨sign, digits, rfl, hsign, -, hdigits⟩ := h
  refine IsBalanced.append ?_ (isBalanced_of_forall fun c hc => ?_)
  · rcases hsign with rfl | rfl
    · exact .nil
    · exact isBalanced_singleton ⟨rfl, by decide, by decide⟩
  · exact isInert_of_isWordChar (isWordChar_of_isDigit (hdigits c hc))

/-- A string is balanced, whatever it holds. -/
theorem SpellsString.isBalanced {quote : Char} {value : List Char} {escape : Bool}
    (hquote : isTagQuote quote = true) (h : SpellsString quote x value escape) :
    IsBalanced (quote :: (x ++ [quote])) :=
  (h.fillsQuote hquote).isBalanced (isScriptQuote_of_isTagQuote hquote)

/-- The text of a value without parts is balanced. -/
theorem LeafText.isBalanced {k : Nat} {t : Token} (h : LeafText k x t) : IsBalanced x := by
  cases h with
  | scalar h =>
    cases h with
    | null | true | false => exact isBalanced_of_all rfl
    | string hquote h => exact h.isBalanced hquote
    | float hwhole _ hfraction =>
      have hpoint : IsBalanced ['.'] := isBalanced_singleton ⟨rfl, by decide, by decide⟩
      have hdigits := isBalanced_of_forall fun c hc =>
        isInert_of_isWordChar (isWordChar_of_isDigit (hfraction c hc))
      exact hwhole.isBalanced.append (hpoint.append hdigits)
    | integer hdigits => exact hdigits.isBalanced
  | name hword => exact hword.isBalanced

/-- The text of a key is balanced. -/
theorem KeyText.isBalanced {name : String} (h : KeyText x name) : IsBalanced x := by
  cases h with
  | word hword => exact hword.isBalanced
  | string hquote h => exact h.isBalanced hquote

variable {R : Nat → List Char → Token → Prop}

/-- The text of a property is balanced if that of its value is. -/
theorem PropertyText.isBalanced (hR : ∀ k x t, R k x t → IsBalanced x) {k : Nat} {p : Property}
    (h : PropertyText R k x p) : IsBalanced x := by
  cases h with
  | mk hkey hgap hgap' hvalue =>
    have hcolon : IsBalanced [':'] := isBalanced_singleton ⟨rfl, by decide, by decide⟩
    exact ((hkey.isBalanced.append hgap.isBalanced).append (hcolon.append hgap'.isBalanced)).append
      (hR _ _ _ hvalue)

/-- The members of a container are balanced but for the closing bracket. -/
theorem MembersText.exists_isBalanced {α : Type} {closing : Char} {Q : Nat → List Char → α → Prop}
    {k : Nat} {as : List α} (h : MembersText closing Q k x as)
    (hQ : ∀ k x a, Q k x a → IsBalanced x) : ∃ front, x = front ++ [closing] ∧ IsBalanced front := by
  induction h with
  | close => exact ⟨[], rfl, .nil⟩
  | last hx hgap => exact ⟨_, rfl, (hQ _ _ _ hx).append hgap.isBalanced⟩
  | more hx hgap hgap' _ ih =>
    obtain ⟨front, rfl, hfront⟩ := ih
    have hcomma : IsBalanced [','] := isBalanced_singleton ⟨rfl, by decide, by decide⟩
    refine ⟨_, (List.append_assoc ..).symm, ?_⟩
    exact (((hQ _ _ _ hx).append hgap.isBalanced).append
      (hcomma.append hgap'.isBalanced)).append hfront

/-- The text of an array or an object is balanced if those of its members are. -/
theorem ContainerText.isBalanced (hR : ∀ k x t, R k x t → IsBalanced x) {k : Nat} {t : Token}
    (h : ContainerText R k x t) : IsBalanced x := by
  cases h with
  | array hgap h =>
    obtain ⟨front, rfl, hfront⟩ := h.exists_isBalanced hR
    have hopening : IsBalanced ['['] := isBalanced_singleton ⟨rfl, by decide, by decide⟩
    have hclosing : IsBalanced [']'] := isBalanced_singleton ⟨rfl, by decide, by decide⟩
    exact (hopening.append hgap.isBalanced).append (hfront.append hclosing)
  | object hgap h =>
    obtain ⟨front, rfl, hfront⟩ := h.exists_isBalanced fun k x p => PropertyText.isBalanced hR
    have hbraces := (hgap.isBalanced.append hfront).braces
    rwa [List.append_assoc] at hbraces

/-- A data literal is balanced. -/
theorem DatumText.isBalanced {depth k : Nat} {t : Token} (h : DatumText depth k x t) :
    IsBalanced x := by
  induction depth generalizing k x t with
  | zero => exact LeafText.isBalanced h
  | succ depth ih =>
    rcases h with h | h
    · exact h.isBalanced
    · exact h.isBalanced fun k x t => ih

/-- Braces enclose a text that is one literal, with the blanks around the literal. -/
theorem fillsBraces_of_literalToken {source : List Char} {t : Token}
    (h : literalToken source = .ok t) : FillsBraces source := by
  obtain ⟨before, x, after, rfl, hbefore, hafter, hx⟩ := literalToken_eq_ok_iff.mp h
  have hblank {text : List Char} (htext : isBlank text = true) : IsBalanced text :=
    isBalanced_of_forall fun c hc => isInert_of_isBlankChar (List.all_eq_true.mp htext c hc)
  exact ((hblank hbefore).append (hx.isBalanced.append (hblank hafter))).fillsBraces

end

end TemplateReader
