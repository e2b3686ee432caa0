import TemplateReader.Delimiter.Pattern
import TemplateReader.Delimiter.Tag

/-!
# Extents of delimited runs

A quoted run, a braced run, a tag, a comment and a raw text each end at a place
that what follows them cannot move. For each kind a predicate on the text inside
says that its delimiters enclose exactly that text, and an equivalence says that
a text is split there and nowhere else. For raw text this rests on the name,
which has no `<` in it and so cannot reach from an earlier place into the close
tag.
-/

namespace TemplateReader

/-- The quotes of a tag are the double and the single one. -/
theorem isTagQuote_iff {quote : Char} : isTagQuote quote = true ↔ quote = '"' ∨ quote = '\'' := by
  rw [isTagQuote, Bool.or_eq_true, decide_eq_true_eq, decide_eq_true_eq]

/-- Every quote of an attribute is a quote of a script as well. -/
theorem isScriptQuote_of_isTagQuote {quote : Char} (h : isTagQuote quote = true) :
    isScriptQuote quote = true := by
  rcases isTagQuote_iff.mp h with rfl | rfl <;> rfl

/-- A character that opens neither case of an escape is no backslash. -/
theorem ne_backslash_of_cases {c : Char} {text : List Char}
    (h₁ : c = '\\' → text = [] → False)
    (h₂ : ∀ d tail, c = '\\' → text = d :: tail → False) : c ≠ '\\' := by
  intro hc
  cases text with
  | nil => exact h₁ hc rfl
  | cons d tail => exact h₂ d tail hc rfl

/-- A quote at either end encloses the text as one quoted run. -/
def FillsQuote (quote : Char) (inner : List Char) : Prop :=
  splitQuote quote (inner ++ [quote]) = some (inner, [])

/-- Braces around the text enclose it as one braced run. -/
def FillsBraces (inner : List Char) : Prop :=
  splitBraces 0 (inner ++ ['}']) = some (inner, [])

/-- Angle brackets around the text enclose it as one tag. -/
def FillsTag (inner : List Char) : Prop :=
  splitTag (inner ++ ['>']) = .ok (inner, [])

instance (quote : Char) (inner : List Char) : Decidable (FillsQuote quote inner) :=
  inferInstanceAs (Decidable (_ = _))

instance (inner : List Char) : Decidable (FillsBraces inner) :=
  inferInstanceAs (Decidable (_ = _))

private theorem splitQuote_extent {quote : Char} {text inner rest : List Char}
    (h : splitQuote quote text = some (inner, rest)) (rest' : List Char) :
    splitQuote quote (inner ++ quote :: rest') = some (inner, rest') := by
  fun_induction splitQuote quote text generalizing inner rest with
  | case1 => simp at h
  | case2 => simp at h
  | case3 c text ih =>
    simp only [Option.map_eq_some_iff, Prod.exists, Prod.mk.injEq] at h
    obtain ⟨i, r, hs, rfl, rfl⟩ := h
    simp only [List.cons_append, splitQuote, ih hs, Option.map_some]
  | case4 text h₁ h₂ =>
    simp only [Option.some.injEq, Prod.mk.injEq] at h
    obtain ⟨rfl, rfl⟩ := h
    rw [List.nil_append, splitQuote_cons (ne_backslash_of_cases h₁ h₂), if_pos rfl]
  | case5 c text h₁ h₂ hq ih =>
    simp only [Option.map_eq_some_iff, Prod.exists, Prod.mk.injEq] at h
    obtain ⟨i, r, hs, rfl, rfl⟩ := h
    rw [List.cons_append, splitQuote_cons (ne_backslash_of_cases h₁ h₂), if_neg hq, ih hs,
      Option.map_some]

/-- A quoted run is split off where its text fills it, whatever follows. -/
theorem splitQuote_eq_some_iff {quote : Char} {text inner rest : List Char} :
    splitQuote quote text = some (inner, rest) ↔
      text = inner ++ quote :: rest ∧ FillsQuote quote inner := by
  constructor
  · intro h
    exact ⟨eq_append_of_splitQuote h, splitQuote_extent h []⟩
  · rintro ⟨rfl, h⟩
    exact splitQuote_extent h rest

/-- A run without quotes and backslashes is passed over by the search for the closing quote. -/
theorem splitQuote_append {quote : Char} {run : List Char}
    (hrun : ∀ c ∈ run, c ≠ '\\' ∧ c ≠ quote) (rest : List Char) :
    splitQuote quote (run ++ rest) =
      (splitQuote quote rest).map fun (inner, after) => (run ++ inner, after) := by
  induction run with
  | nil =>
    rw [List.nil_append]
    cases splitQuote quote rest <;> rfl
  | cons c run ih =>
    obtain ⟨hbackslash, hc⟩ := hrun c List.mem_cons_self
    have hrest := ih fun d hd => hrun d (List.mem_cons_of_mem c hd)
    rw [List.cons_append, splitQuote_cons hbackslash, if_neg hc, hrest]
    cases splitQuote quote rest <;> rfl

private theorem splitBraces_extent {depth : Nat} {text inner rest : List Char}
    (h : splitBraces depth text = some (inner, rest)) (rest' : List Char) :
    splitBraces depth (inner ++ '}' :: rest') = some (inner, rest') := by
  fun_induction splitBraces depth text generalizing inner rest with
  | case1 => simp at h
  | case2 => simp at h
  | case3 depth c text hc quoted r hq hlt ih =>
    simp only [Option.map_eq_some_iff, Prod.exists, Prod.mk.injEq] at h
    obtain ⟨i, r', hs, rfl, rfl⟩ := h
    have hq' := splitQuote_extent hq (i ++ '}' :: rest')
    rw [List.cons_append, List.cons_append, List.append_assoc, List.cons_append,
      splitBraces_cons, if_pos hc, hq']
    simp only [Option.bind_eq_bind, Option.bind_some, ih hs, Option.pure_def, List.cons_append]
  | case5 text hc hb =>
    simp only [Option.some.injEq, Prod.mk.injEq] at h
    obtain ⟨rfl, rfl⟩ := h
    rw [List.nil_append, splitBraces_cons, if_neg hc, if_neg hb, if_pos rfl]
  | _ =>
    simp only [Option.map_eq_some_iff, Prod.exists, Prod.mk.injEq] at h
    obtain ⟨i, r, hs, rfl, rfl⟩ := h
    simp_all [splitBraces_cons]

/-- A braced run is split off where its text fills it, whatever follows. -/
theorem splitBraces_eq_some_iff {text inner rest : List Char} :
    splitBraces 0 text = some (inner, rest) ↔ text = inner ++ '}' :: rest ∧ FillsBraces inner := by
  constructor
  · intro h
    exact ⟨eq_append_of_splitBraces h, splitBraces_extent h []⟩
  · rintro ⟨rfl, h⟩
    exact splitBraces_extent h rest

/-- A run in braces is split off at its closing brace, whatever is behind. -/
theorem FillsBraces.splitBraces_append {inner : List Char} (h : FillsBraces inner)
    (rest : List Char) : splitBraces 0 (inner ++ '}' :: rest) = some (inner, rest) :=
  splitBraces_eq_some_iff.mpr ⟨rfl, h⟩

/-- A run in braces takes up two bytes more than its content. -/
theorem byteSize_braced (expression : List Char) :
    byteSize ('{' :: expression ++ ['}']) = byteSize expression + 2 := by
  have hopening : '{'.utf8Size = 1 := rfl
  have hclosing : '}'.utf8Size = 1 := rfl
  simp only [List.cons_append, byteSize_cons, byteSize_append, byteSize_nil, hopening, hclosing]
  omega

/-- What is passed over in a tag stands in front of the rest of the tag. -/
theorem passing_ok {passed inner rest : List Char} :
    passing passed (.ok (inner, rest)) = .ok (passed ++ inner, rest) := rfl

private theorem splitTag_extent {text inner rest : List Char}
    (h : splitTag text = .ok (inner, rest)) (rest' : List Char) :
    splitTag (inner ++ '>' :: rest') = .ok (inner, rest') := by
  fun_induction splitTag text generalizing inner rest with
  | case1 => simp at h
  | case2 => simp at h
  | case3 c text hc quoted r hq hlt ih =>
    obtain ⟨tail, hs, rfl⟩ := passing_eq_ok h
    have hq' := splitQuote_extent hq (tail ++ '>' :: rest')
    simp only [List.cons_append, List.append_assoc, List.nil_append]
    rw [splitTag_cons, if_pos hc, hq']
    dsimp only
    rw [ih hs, passing_ok]
    simp only [List.cons_append, List.append_assoc, List.nil_append]
  | case4 => simp at h
  | case5 text braced r hb hlt hc ih =>
    obtain ⟨tail, hs, rfl⟩ := passing_eq_ok h
    have hb' := splitBraces_extent hb (tail ++ '>' :: rest')
    simp only [List.cons_append, List.append_assoc, List.nil_append]
    rw [splitTag_cons, if_neg hc, if_pos rfl, hb']
    dsimp only
    rw [ih hs, passing_ok]
    simp only [List.cons_append, List.append_assoc, List.nil_append]
  | case6 text hc hb =>
    simp only [Except.ok.injEq, Prod.mk.injEq] at h
    obtain ⟨rfl, rfl⟩ := h
    rw [List.nil_append, splitTag_cons, if_neg hc, if_neg hb, if_pos rfl]
  | case7 c text hc hb hg ih =>
    obtain ⟨tail, hs, rfl⟩ := passing_eq_ok h
    rw [List.append_assoc, List.singleton_append, splitTag_cons, if_neg hc, if_neg hb, if_neg hg,
      ih hs, passing_ok]

/-- A tag is split off where its text fills it, whatever follows. -/
theorem splitTag_eq_ok_iff {text inner rest : List Char} :
    splitTag text = .ok (inner, rest) ↔ text = inner ++ '>' :: rest ∧ FillsTag inner := by
  constructor
  · intro h
    exact ⟨eq_append_of_splitTag h, splitTag_extent h []⟩
  · rintro ⟨rfl, h⟩
    exact splitTag_extent h rest

/-- A search that passes over some text fails with that text in front. -/
theorem passing_eq_error {passed : List Char} {fault : TagFault}
    {e : Except TagFault (List Char × List Char)} (h : passing passed e = .error fault) :
    ∃ f, e = .error f ∧ fault = f.after passed := by
  cases e with
  | ok p => cases h
  | error f => exact ⟨f, rfl, (Except.error.inj h).symm⟩

/-- The quote or brace that keeps a tag from ending stands in a text. -/
def TagFault.StandsIn : TagFault → List Char → Prop
  | openQuote before, text =>
    ∃ quote tail, text = before ++ quote :: tail ∧ isTagQuote quote = true
  | openBrace before, text => ∃ tail, text = before ++ '{' :: tail
  | noEnd, _ => True

/-- A fault that stands in a text stands in it behind another text as well. -/
theorem TagFault.StandsIn.after {fault : TagFault} {text : List Char} (h : fault.StandsIn text)
    (passed : List Char) : (fault.after passed).StandsIn (passed ++ text) := by
  cases fault with
  | openQuote before =>
    obtain ⟨quote, tail, rfl, hquote⟩ := h
    exact ⟨quote, tail, (List.append_assoc _ _ _).symm, hquote⟩
  | openBrace before =>
    obtain ⟨tail, rfl⟩ := h
    exact ⟨tail, (List.append_assoc _ _ _).symm⟩
  | noEnd => exact trivial

/-- A tag without an end got stuck at a place of its own text. -/
theorem standsIn_of_splitTag {text : List Char} {fault : TagFault}
    (h : splitTag text = .error fault) : fault.StandsIn text := by
  fun_induction splitTag text generalizing fault with
  | case1 =>
    obtain rfl := Except.error.inj h
    exact trivial
  | case2 c text hc hq =>
    obtain rfl := Except.error.inj h
    exact ⟨c, text, rfl, hc⟩
  | case3 c text hc quoted r hq hlt ih =>
    obtain ⟨f, hf, rfl⟩ := passing_eq_error h
    have hstands := (ih hf).after (c :: quoted ++ [c])
    rw [eq_append_of_splitQuote hq]
    simpa only [List.cons_append, List.append_assoc, List.nil_append] using hstands
  | case4 text =>
    obtain rfl := Except.error.inj h
    exact ⟨text, rfl⟩
  | case5 text braced r hb hlt hc ih =>
    obtain ⟨f, hf, rfl⟩ := passing_eq_error h
    have hstands := (ih hf).after ('{' :: braced ++ ['}'])
    rw [eq_append_of_splitBraces hb]
    simpa only [List.cons_append, List.append_assoc, List.nil_append] using hstands
  | case6 => cases h
  | case7 c text hc hb hg ih =>
    obtain ⟨f, hf, rfl⟩ := passing_eq_error h
    exact (ih hf).after [c]

/-- A text is split where something is recognised for the first time. -/
theorem splitFirst_eq_some_iff {α : Type} {find? : List Char → Option α} {text before : List Char}
    {found : α} :
    splitFirst find? text = some (before, found) ↔
      ∃ tail, text = before ++ tail ∧ find? tail = some found ∧
        ∀ skipped later, before = skipped ++ later → later ≠ [] → find? (later ++ tail) = none := by
  induction text generalizing before with
  | nil =>
    simp only [splitFirst, Option.map_eq_some_iff, Prod.mk.injEq, List.nil_eq, List.append_eq_nil_iff]
    constructor
    · rintro ⟨f, hf, rfl, rfl⟩
      refine ⟨[], ⟨rfl, rfl⟩, hf, ?_⟩
      intro skipped later he hne
      exact absurd (List.append_eq_nil_iff.mp he.symm).2 hne
    · rintro ⟨tail, ⟨rfl, rfl⟩, hf, -⟩
      exact ⟨found, hf, rfl, rfl⟩
  | cons c text ih =>
    rw [splitFirst]
    cases hc : find? (c :: text) with
    | some f =>
      simp only [Option.some.injEq, Prod.mk.injEq]
      constructor
      · rintro ⟨rfl, rfl⟩
        refine ⟨c :: text, rfl, hc, ?_⟩
        intro skipped later he hne
        exact absurd (List.append_eq_nil_iff.mp he.symm).2 hne
      · rintro ⟨tail, ht, hf, hnone⟩
        cases before with
        | nil =>
          rw [List.nil_append] at ht
          rw [← ht, hc] at hf
          exact ⟨rfl, Option.some.inj hf⟩
        | cons b before =>
          have hb := hnone [] (b :: before) rfl (List.cons_ne_nil _ _)
          rw [← ht, hc] at hb
          cases hb
    | none =>
      simp only [Option.map_eq_some_iff, Prod.exists, Prod.mk.injEq]
      constructor
      · rintro ⟨b, f, hs, rfl, rfl⟩
        obtain ⟨tail, rfl, hf, hnone⟩ := ih.mp hs
        refine ⟨tail, rfl, hf, ?_⟩
        intro skipped later he hne
        cases skipped with
        | nil =>
          rw [List.nil_append] at he
          rw [← he]
          exact hc
        | cons s skipped =>
          exact hnone skipped later (List.cons.inj he).2 hne
      · rintro ⟨tail, ht, hf, hnone⟩
        cases before with
        | nil =>
          rw [List.nil_append] at ht
          rw [← ht, hc] at hf
          cases hf
        | cons b before =>
          obtain ⟨rfl, rfl⟩ := List.cons.inj ht
          refine ⟨before, found, ih.mpr ⟨tail, rfl, hf, ?_⟩, rfl, rfl⟩
          intro skipped later he hne
          exact hnone (c :: skipped) later (congrArg (c :: ·) he) hne

/-- A text is not split exactly when nothing is recognised anywhere in it. -/
theorem splitFirst_eq_none_iff {α : Type} {find? : List Char → Option α} {text : List Char} :
    splitFirst find? text = none ↔ ∀ tail, tail <:+ text → find? tail = none := by
  induction text with
  | nil => simp only [splitFirst, Option.map_eq_none_iff, List.suffix_nil, forall_eq]
  | cons c text ih =>
    simp only [splitFirst, List.suffix_cons_iff, or_imp, forall_and, forall_eq]
    cases hc : find? (c :: text) with
    | some f => simp only [reduceCtorEq, false_and]
    | none => simp only [Option.map_eq_none_iff, ih, true_and]

/-- A word is removed exactly where it stands. -/
theorem dropWord?_eq_some_iff {pattern text rest : List Char} :
    dropWord? pattern text = some rest ↔ text = pattern ++ rest := by
  refine ⟨eq_append_of_dropWord?, ?_⟩
  rintro rfl
  induction pattern with
  | nil => rfl
  | cons p pattern ih => simpa only [List.cons_append, dropWord?, if_true] using ih

/-- No occurrence of a pattern reaches from before another occurrence into it. -/
def IsDelimiter (pattern : List Char) : Prop :=
  pattern ≠ [] ∧ ∀ later rest : List Char, later ≠ [] → pattern <+: later ++ (pattern ++ rest) →
    pattern <+: later

/-- A text ends at the first occurrence of a delimiter: what is before it holds none. -/
theorem splitPattern_eq_some_iff {pattern text inner rest : List Char}
    (hpattern : IsDelimiter pattern) :
    splitPattern pattern text = some (inner, rest) ↔
      text = inner ++ (pattern ++ rest) ∧ ¬pattern <:+: inner := by
  rw [splitPattern, splitFirst_eq_some_iff]
  constructor
  · rintro ⟨tail, rfl, ht, hnone⟩
    rw [dropWord?_eq_some_iff] at ht
    subst ht
    refine ⟨rfl, ?_⟩
    rintro ⟨skipped, later, rfl⟩
    have hlater := hnone skipped (pattern ++ later) (List.append_assoc _ _ _)
      (List.append_ne_nil_of_left_ne_nil hpattern.1 _)
    rw [List.append_assoc, dropWord?_eq_some_iff.mpr rfl] at hlater
    cases hlater
  · rintro ⟨rfl, hinner⟩
    refine ⟨_, rfl, dropWord?_eq_some_iff.mpr rfl, ?_⟩
    rintro skipped later rfl hne
    rw [Option.eq_none_iff_forall_ne_some]
    intro found hf
    have hp := hpattern.2 later rest hne ⟨found, (dropWord?_eq_some_iff.mp hf).symm⟩
    exact hinner (hp.isInfix.trans (List.suffix_append skipped later).isInfix)

/-- The end of a comment is a delimiter. -/
theorem isDelimiter_commentClosing : IsDelimiter commentClosing := by
  refine ⟨by decide, fun later rest hne h => ?_⟩
  match later with
  | [] => exact absurd rfl hne
  | [a] => simp [commentClosing] at h
  | [a, b] => simp [commentClosing] at h
  | a :: b :: c :: later =>
    simp only [commentClosing, List.cons_append, List.cons_prefix_cons, List.nil_prefix,
      and_true] at h ⊢
    exact h

/-- A comment ends at the first closing: what is inside it holds none. -/
theorem splitComment_eq_some_iff {text inner rest : List Char} :
    splitPattern commentClosing text = some (inner, rest) ↔
      text = inner ++ (commentClosing ++ rest) ∧ ¬commentClosing <:+: inner :=
  splitPattern_eq_some_iff isDelimiter_commentClosing

/-- A text is not split around a pattern exactly when the pattern does not occur in it. -/
theorem splitPattern_eq_none_iff {pattern text : List Char} :
    splitPattern pattern text = none ↔ ¬pattern <:+: text := by
  rw [splitPattern, splitFirst_eq_none_iff]
  constructor
  · rintro h ⟨before, after, rfl⟩
    have hnone := h (pattern ++ after) ⟨before, (List.append_assoc _ _ _).symm⟩
    rw [dropWord?_eq_some_iff.mpr rfl] at hnone
    cases hnone
  · intro h tail htail
    rw [Option.eq_none_iff_forall_ne_some]
    intro rest hrest
    rw [dropWord?_eq_some_iff] at hrest
    exact h (List.IsInfix.trans ⟨[], rest, hrest.symm⟩ htail.isInfix)

/-- A close tag of a name: the name up to ASCII case behind `</`, then any ASCII whitespace and
`>`. -/
def IsCloseTag (name tag : List Char) : Prop :=
  ∃ found spaces, tag = '<' :: '/' :: found ++ (spaces ++ ['>']) ∧
    eqIgnoreCase name found = true ∧ ∀ c ∈ spaces, isSpace c = true

/-- What equals the word up to ASCII case is removed, whatever follows it. -/
theorem dropWordIgnoreCase?_append {name found : List Char}
    (h : eqIgnoreCase name found = true) (rest : List Char) :
    dropWordIgnoreCase? name (found ++ rest) = some rest := by
  induction name generalizing found with
  | nil =>
    have hf : found = [] := by simpa [eqIgnoreCase] using h
    rw [hf]
    rfl
  | cons n name ih =>
    cases found with
    | nil => simp [eqIgnoreCase] at h
    | cons f found =>
      simp only [eqIgnoreCase, List.map_cons, beq_iff_eq, List.cons.injEq] at h
      rw [List.cons_append, dropWordIgnoreCase?, if_pos h.1]
      exact ih (by simpa [eqIgnoreCase] using h.2)

/-- Exactly the close tags of the name are recognised. -/
theorem closeTag?_eq_some_iff {name text rest : List Char} :
    closeTag? name text = some rest ↔ ∃ tag, text = tag ++ rest ∧ IsCloseTag name tag := by
  constructor
  · intro h
    simp only [closeTag?, Option.bind_eq_bind, Option.bind_eq_some_iff] at h
    obtain ⟨afterOpening, ho, afterName, hn, hr⟩ := h
    obtain ⟨found, hfound, rfl⟩ := eq_append_of_dropWordIgnoreCase? hn
    rw [dropWord?_eq_some_iff] at ho
    subst ho
    split at hr
    · next r hw =>
      obtain rfl := Option.some.inj hr
      refine ⟨'<' :: '/' :: found ++ (afterName.takeWhile isSpace ++ ['>']), ?_, found,
        afterName.takeWhile isSpace, rfl, hfound,
        fun c hc => List.all_eq_true.mp List.all_takeWhile c hc⟩
      have hsplit := List.takeWhile_append_dropWhile (p := isSpace) (l := afterName)
      rw [hw] at hsplit
      simp only [List.cons_append, List.append_assoc, List.nil_append, hsplit]
    · cases hr
  · rintro ⟨tag, rfl, found, spaces, rfl, hfound, hspaces⟩
    have hdrop : (spaces ++ ('>' :: rest)).dropWhile isSpace = '>' :: rest := by
      rw [List.dropWhile_append_of_pos hspaces]
      rfl
    have hname := dropWordIgnoreCase?_append hfound (spaces ++ ('>' :: rest))
    simp only [closeTag?, Option.bind_eq_bind, List.cons_append, List.append_assoc,
      List.nil_append, dropWord?, if_true, Option.bind_some, hname, hdrop]

private theorem eq_lt_of_toLower {c : Char} (h : c.toLower = '<') : c = '<' := by
  unfold Char.toLower at h
  split at h
  · next hc =>
    have hv := congrArg (fun c => c.val.toNat) h
    simp only [ge_iff_le, UInt32.le_iff_toNat_le, UInt32.toNat_add] at hc hv
    simp at hc hv
    omega
  · exact h

private theorem lt_notMem_of_eqIgnoreCase {name found : List Char} (hname : '<' ∉ name)
    (h : eqIgnoreCase name found = true) : '<' ∉ found := by
  intro hf
  have hmap : '<' ∈ found.map Char.toLower := List.mem_map.mpr ⟨'<', hf, rfl⟩
  rw [eqIgnoreCase, beq_iff_eq] at h
  rw [← h] at hmap
  obtain ⟨n, hn, hlower⟩ := List.mem_map.mp hmap
  exact hname (eq_lt_of_toLower hlower ▸ hn)

private theorem IsCloseTag.eq_cons {name tag : List Char} (hname : '<' ∉ name)
    (h : IsCloseTag name tag) : ∃ tail, tag = '<' :: tail ∧ '<' ∉ tail := by
  obtain ⟨found, spaces, rfl, hfound, hspaces⟩ := h
  refine ⟨_, rfl, ?_⟩
  have hf := lt_notMem_of_eqIgnoreCase hname hfound
  have hs : '<' ∉ spaces := fun hm => absurd (hspaces _ hm) (by decide)
  simp [hf, hs]

private theorem IsCloseTag.prefix_left {name tag tag' later rest : List Char} (hname : '<' ∉ name)
    (ht : IsCloseTag name tag) (ht' : IsCloseTag name tag') (hne : later ≠ [])
    (h : tag <+: later ++ (tag' ++ rest)) : tag <+: later := by
  obtain ⟨tail, rfl, htail⟩ := ht.eq_cons hname
  obtain ⟨tail', rfl, -⟩ := ht'.eq_cons hname
  rcases List.prefix_or_prefix_of_prefix h (List.prefix_append later _) with hp | ⟨more, hm⟩
  · exact hp
  · cases more with
    | nil => exact ⟨[], by rw [List.append_nil] at hm ⊢; exact hm.symm⟩
    | cons m more =>
      exfalso
      rw [← hm, List.prefix_append_right_inj, List.cons_append, List.cons_prefix_cons] at h
      obtain ⟨rfl, -⟩ := h
      cases later with
      | nil => exact hne rfl
      | cons l later =>
        have htl := (List.cons.inj hm).2
        exact htail (htl ▸ List.mem_append_right later List.mem_cons_self)

/-- Raw text ends at the first close tag of its name: what is before that tag holds none. -/
theorem splitRawText_eq_some_iff {name text content rest : List Char} (hname : '<' ∉ name) :
    splitRawText name text = some (content, rest) ↔
      ∃ tag, text = content ++ (tag ++ rest) ∧ IsCloseTag name tag ∧
        ∀ earlier, IsCloseTag name earlier → ¬earlier <:+: content := by
  rw [splitRawText, splitFirst_eq_some_iff]
  constructor
  · rintro ⟨tail, rfl, ht, hnone⟩
    obtain ⟨tag, rfl, htag⟩ := closeTag?_eq_some_iff.mp ht
    refine ⟨tag, rfl, htag, ?_⟩
    rintro earlier he ⟨skipped, later, rfl⟩
    have hne : earlier ++ later ≠ [] := by
      obtain ⟨tail, rfl, -⟩ := he.eq_cons hname
      simp
    have hlater := hnone skipped (earlier ++ later) (List.append_assoc _ _ _) hne
    rw [List.append_assoc, closeTag?_eq_some_iff.mpr ⟨earlier, rfl, he⟩] at hlater
    cases hlater
  · rintro ⟨tag, rfl, htag, hcontent⟩
    refine ⟨_, rfl, closeTag?_eq_some_iff.mpr ⟨tag, rfl, htag⟩, ?_⟩
    rintro skipped later rfl hne
    rw [Option.eq_none_iff_forall_ne_some]
    intro found hf
    obtain ⟨earlier, he, hearlier⟩ := closeTag?_eq_some_iff.mp hf
    have hp := hearlier.prefix_left hname htag hne ⟨found, he.symm⟩
    exact hcontent earlier hearlier
      (hp.isInfix.trans (List.suffix_append skipped later).isInfix)

/-- Raw text has no end exactly when no close tag of its name occurs in it. -/
theorem splitRawText_eq_none_iff {name text : List Char} :
    splitRawText name text = none ↔ ∀ tag, IsCloseTag name tag → ¬tag <:+: text := by
  rw [splitRawText, splitFirst_eq_none_iff]
  constructor
  · rintro h tag htag ⟨before, after, rfl⟩
    have hnone := h (tag ++ after) ⟨before, (List.append_assoc _ _ _).symm⟩
    rw [closeTag?_eq_some_iff.mpr ⟨tag, rfl, htag⟩] at hnone
    cases hnone
  · intro h tail htail
    rw [Option.eq_none_iff_forall_ne_some]
    intro rest hrest
    obtain ⟨tag, rfl, htag⟩ := closeTag?_eq_some_iff.mp hrest
    exact h tag htag (List.IsInfix.trans ⟨[], rest, rfl⟩ htail.isInfix)

end TemplateReader
