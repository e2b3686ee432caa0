import TemplateReader.Delimiter.Brace

/-!
# Tags

A tag ends at the first `>` outside its quoted and braced attribute values.
When there is none the search says where it got stuck: at a quote or a brace
that never closes, or at the end of the text.
-/

namespace TemplateReader

/-- The quotes of a tag: double and single. -/
def isTagQuote (c : Char) : Bool :=
  c = '"' || c = '\''

/-- Why a tag has no end. -/
inductive TagFault where
  /-- The quote after `before` never closes. -/
  | openQuote (before : List Char)
  /-- The brace after `before` never closes. -/
  | openBrace (before : List Char)
  /-- Every quote and brace closes, but no `>` follows. -/
  | noEnd
deriving DecidableEq, Repr

namespace TagFault

/-- The same fault with more text passed before it. -/
def after (passed : List Char) : TagFault → TagFault
  | openQuote before => openQuote (passed ++ before)
  | openBrace before => openBrace (passed ++ before)
  | noEnd => noEnd

end TagFault

/-- Puts what was passed in front of the outcome of the remaining search. -/
def passing (passed : List Char) :
    Except TagFault (List Char × List Char) → Except TagFault (List Char × List Char)
  | .ok (inner, rest) => .ok (passed ++ inner, rest)
  | .error fault => .error (fault.after passed)

/-- Splits the text inside a tag at the `>` that ends it. -/
def splitTag (text : List Char) : Except TagFault (List Char × List Char) :=
  match text with
  | [] => .error .noEnd
  | c :: text =>
    if isTagQuote c then
      match h : splitQuote c text with
      | none => .error (.openQuote [])
      | some (quoted, rest) =>
        have := length_lt_of_splitQuote h
        passing (c :: quoted ++ [c]) (splitTag rest)
    else if c = '{' then
      match h : splitBraces 0 text with
      | none => .error (.openBrace [])
      | some (braced, rest) =>
        have := length_lt_of_splitBraces h
        passing (c :: braced ++ ['}']) (splitTag rest)
    else if c = '>' then .ok ([], text)
    else passing [c] (splitTag text)
termination_by text.length

/-- One step of the search for the end of a tag. -/
theorem splitTag_cons (c : Char) (text : List Char) :
    splitTag (c :: text) =
      if isTagQuote c then
        match splitQuote c text with
        | none => .error (.openQuote [])
        | some (quoted, rest) => passing (c :: quoted ++ [c]) (splitTag rest)
      else if c = '{' then
        match splitBraces 0 text with
        | none => .error (.openBrace [])
        | some (braced, rest) => passing (c :: braced ++ ['}']) (splitTag rest)
      else if c = '>' then .ok ([], text)
      else passing [c] (splitTag text) := by
  rw [splitTag.eq_def]
  dsimp only
  split
  · split
    · next h => rw [h]
    · next h => rw [h]
  · split
    · split
      · next h => rw [h]
      · next h => rw [h]
    · rfl

/-- A search that passes over some text succeeds with that text in front. -/
theorem passing_eq_ok {passed inner rest : List Char} {e : Except TagFault (List Char × List Char)}
    (h : passing passed e = .ok (inner, rest)) :
    ∃ tail, e = .ok (tail, rest) ∧ inner = passed ++ tail := by
  cases e with
  | error f => simp [passing] at h
  | ok p => simp only [passing, Except.ok.injEq, Prod.mk.injEq] at h; grind

/-- The text inside the tag, its `>` and the rest make up the text that was split. -/
theorem eq_append_of_splitTag {text inner rest : List Char}
    (h : splitTag text = .ok (inner, rest)) : text = inner ++ '>' :: rest := by
  fun_induction splitTag text generalizing inner rest with
  | case1 => simp at h
  | case2 => simp at h
  | case3 c text hc quoted r hq hlt ih =>
    obtain ⟨tail, hs, rfl⟩ := passing_eq_ok h
    simp [eq_append_of_splitQuote hq, ih hs]
  | case4 => simp at h
  | case5 text braced r hb _ _ ih =>
    obtain ⟨tail, hs, rfl⟩ := passing_eq_ok h
    simp [eq_append_of_splitBraces hb, ih hs]
  | case6 => simp_all
  | case7 c text hc hb hg ih =>
    obtain ⟨tail, hs, rfl⟩ := passing_eq_ok h
    simp [ih hs]

/-- Something is left out of the rest, namely the `>`. -/
theorem length_lt_of_splitTag {text inner rest : List Char}
    (h : splitTag text = .ok (inner, rest)) : rest.length < text.length := by
  rw [eq_append_of_splitTag h]
  simp
  omega

end TemplateReader
