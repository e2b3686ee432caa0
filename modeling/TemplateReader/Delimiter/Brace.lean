import TemplateReader.Delimiter.Quote

/-!
# Braced runs

A braced run ends at the brace that balances the one that opened it. Quoted
runs inside are passed over whole, whichever of the three quotes opens them,
so a brace in a string does not count.
-/

namespace TemplateReader

/-- The quotes of a script: double, single and backtick. -/
def isScriptQuote (c : Char) : Bool :=
  c = '"' || c = '\'' || c = '\x60'

/-- Splits the text inside an opening brace, with `depth` further braces open, at the brace that
closes the outermost. -/
def splitBraces (depth : Nat) (text : List Char) : Option (List Char × List Char) :=
  match text with
  | [] => none
  | c :: text =>
    if isScriptQuote c then
      match h : splitQuote c text with
      | none => none
      | some (quoted, rest) =>
        have := length_lt_of_splitQuote h
        (splitBraces depth rest).map fun (inner, rest) => (c :: quoted ++ c :: inner, rest)
    else if c = '{' then
      (splitBraces (depth + 1) text).map fun (inner, rest) => (c :: inner, rest)
    else if c = '}' then
      match depth with
      | 0 => some ([], text)
      | depth + 1 => (splitBraces depth text).map fun (inner, rest) => (c :: inner, rest)
    else (splitBraces depth text).map fun (inner, rest) => (c :: inner, rest)
termination_by text.length

/-- One step of the search for the closing brace. -/
theorem splitBraces_cons (depth : Nat) (c : Char) (text : List Char) :
    splitBraces depth (c :: text) =
      if isScriptQuote c then do
        let (quoted, rest) ← splitQuote c text
        let (inner, rest) ← splitBraces depth rest
        return (c :: quoted ++ c :: inner, rest)
      else if c = '{' then
        (splitBraces (depth + 1) text).map fun (inner, rest) => (c :: inner, rest)
      else if c = '}' then
        match depth with
        | 0 => some ([], text)
        | depth + 1 => (splitBraces depth text).map fun (inner, rest) => (c :: inner, rest)
      else (splitBraces depth text).map fun (inner, rest) => (c :: inner, rest) := by
  rw [splitBraces.eq_def]
  dsimp only
  split
  · split
    · next h => rw [h]; rfl
    · next h =>
      rw [h]
      dsimp only [bind, Option.bind]
      cases splitBraces depth _ <;> rfl
  · rfl

/-- The text inside the braces, the closing brace and the rest make up the text that was split. -/
theorem eq_append_of_splitBraces {depth : Nat} {text inner rest : List Char}
    (h : splitBraces depth text = some (inner, rest)) : text = inner ++ '}' :: rest := by
  fun_induction splitBraces depth text generalizing inner rest with
  | case1 => simp at h
  | case2 => simp at h
  | case3 depth c text hc quoted r hq hlt ih =>
    simp only [Option.map_eq_some_iff, Prod.exists, Prod.mk.injEq] at h
    obtain ⟨i, r', hs, rfl, rfl⟩ := h
    simp [eq_append_of_splitQuote hq, ih hs]
  | case5 => simp_all
  | _ =>
    simp only [Option.map_eq_some_iff, Prod.exists, Prod.mk.injEq] at h
    obtain ⟨i, r, hs, rfl, rfl⟩ := h
    simp_all

/-- Something is left out of the rest, namely the closing brace. -/
theorem length_lt_of_splitBraces {depth : Nat} {text inner rest : List Char}
    (h : splitBraces depth text = some (inner, rest)) : rest.length < text.length := by
  rw [eq_append_of_splitBraces h]
  simp
  omega

end TemplateReader
