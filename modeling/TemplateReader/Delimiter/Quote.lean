import TemplateReader.Text.Cursor

/-!
# Quoted runs

A quoted run ends at the next unescaped occurrence of the quote that opened
it. A backslash escapes whatever character follows it, a line feed included.
-/

namespace TemplateReader

/-- Splits the text after an opening quote into what is quoted and what follows the closing one. -/
def splitQuote (quote : Char) : (text : List Char) → Option (List Char × List Char)
  | [] => none
  | ['\\'] => none
  | '\\' :: c :: text =>
    (splitQuote quote text).map fun (inner, rest) => ('\\' :: c :: inner, rest)
  | c :: text =>
    if c = quote then some ([], text)
    else (splitQuote quote text).map fun (inner, rest) => (c :: inner, rest)

/-- A character that is no escape either closes the run or belongs to it. -/
theorem splitQuote_cons {quote c : Char} {text : List Char} (hc : c ≠ '\\') :
    splitQuote quote (c :: text) =
      if c = quote then some ([], text)
      else (splitQuote quote text).map fun (inner, rest) => (c :: inner, rest) := by
  rw [splitQuote]
  · intro h
    exact absurd h hc
  · intro d tail h
    exact absurd h hc

/-- The quoted text, the closing quote and the rest make up the text that was split. -/
theorem eq_append_of_splitQuote {quote : Char} {text inner rest : List Char}
    (h : splitQuote quote text = some (inner, rest)) : text = inner ++ quote :: rest := by
  fun_induction splitQuote quote text generalizing inner rest with
  | case1 => simp at h
  | case2 => simp at h
  | case3 c text ih =>
    simp only [Option.map_eq_some_iff, Prod.exists, Prod.mk.injEq] at h
    obtain ⟨i, r, hs, rfl, rfl⟩ := h
    simp [ih hs]
  | case4 => simp_all
  | case5 c text _ _ _ ih =>
    simp only [Option.map_eq_some_iff, Prod.exists, Prod.mk.injEq] at h
    obtain ⟨i, r, hs, rfl, rfl⟩ := h
    simp [ih hs]

/-- Something is left out of the rest, namely the closing quote. -/
theorem length_lt_of_splitQuote {quote : Char} {text inner rest : List Char}
    (h : splitQuote quote text = some (inner, rest)) : rest.length < text.length := by
  rw [eq_append_of_splitQuote h]
  simp
  omega

end TemplateReader
