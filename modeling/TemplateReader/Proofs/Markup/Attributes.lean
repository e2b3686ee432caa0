import Mathlib.Data.List.TakeWhile
import TemplateReader.Proofs.Markup.Tags

/-!
# Reading printed attributes

Each way of writing an attribute has its way of being read. What they have in
common is where they end: at the end of the tag or at a blank, behind which no
`=` follows. Behind the blank the reader finds the next attribute, or the slash
that closes the tag.
-/

namespace TemplateReader

/-- A run of characters of one kind is skipped up to a character of another. -/
theorem Cursor.skipWhile_append (p : Char → Bool) (k : Nat) (run rest : List Char)
    (hrun : ∀ c ∈ run, p c = true) (hrest : ∀ c ∈ rest.head?, p c = false) :
    (⟨k, run ++ rest⟩ : Cursor).skipWhile p = ⟨k + byteSize run, rest⟩ ∧
      (run ++ rest).takeWhile p = run := by
  have htake : rest.takeWhile p = [] := by
    cases rest with
    | nil => rfl
    | cons c rest => rw [List.takeWhile_cons, hrest c rfl]; rfl
  have hdrop : rest.dropWhile p = rest := by
    cases rest with
    | nil => rfl
    | cons c rest => rw [List.dropWhile_cons, hrest c rfl]; rfl
  have htaken : (run ++ rest).takeWhile p = run := by
    rw [List.takeWhile_append_of_pos hrun, htake, List.append_nil]
  refine ⟨?_, htaken⟩
  simp only [Cursor.skipWhile, Cursor.advance, htaken, List.dropWhile_append_of_pos hrun, hdrop]

/-- Where nothing is to be skipped the cursor stays. -/
theorem Cursor.skipWhile_eq_self (p : Char → Bool) (c : Cursor)
    (h : ∀ ch ∈ c.rest.head?, p ch = false) : c.skipWhile p = c :=
  (Cursor.skipWhile_append p c.offset [] c.rest nofun h).1

/-- What follows a character that is not blank is trimmed at its end alone. -/
theorem trimEnd_cons {c : Char} (hc : isBlankChar c = false) (text : List Char) :
    trimEnd (c :: text) = c :: trimEnd text := by
  rw [trimEnd, trimEnd, List.reverse_cons, List.dropWhile_append]
  by_cases hnil : text.reverse.dropWhile isBlankChar = []
  · rw [hnil, List.isEmpty_nil, if_pos rfl, List.dropWhile_cons, hc]
    rfl
  · rw [List.isEmpty_eq_false_iff.mpr hnil, if_neg Bool.false_ne_true, List.reverse_append]
    rfl

/-- To trim a text that begins with no blank is to trim its end. -/
theorem trim_cons {c : Char} (hc : isBlankChar c = false) (text : List Char) :
    trim (c :: text) = c :: trimEnd text := by
  rw [trim, trimStart, List.dropWhile_cons, hc]
  exact trimEnd_cons hc text

private theorem trimEnd_append_blank {text blank : List Char}
    (hblank : ∀ c ∈ blank, isBlankChar c = true) : trimEnd (text ++ blank) = trimEnd text := by
  rw [trimEnd, List.reverse_append, List.dropWhile_append_of_pos]
  · rfl
  · intro c hc
    exact hblank c (List.mem_reverse.mp hc)

private theorem trim_append_blank {text blank : List Char}
    (hblank : ∀ c ∈ blank, isBlankChar c = true) : trim (text ++ blank) = trim text := by
  rw [trim, trim, trimStart, trimStart, List.dropWhile_append]
  by_cases hnil : text.dropWhile isBlankChar = []
  · have hall : blank.dropWhile isBlankChar = [] := by
      rw [List.dropWhile_eq_nil_iff]
      exact hblank
    rw [hnil, List.isEmpty_nil, if_pos rfl, hall]
  · rw [List.isEmpty_eq_false_iff.mpr hnil, if_neg Bool.false_ne_true]
    exact trimEnd_append_blank hblank

/-- Trimming the end first leaves nothing else to trim there. -/
theorem trim_trimEnd (text : List Char) : trim (trimEnd text) = trim text := by
  have hsplit : text = trimEnd text ++ (text.reverse.takeWhile isBlankChar).reverse := by
    rw [trimEnd, ← List.reverse_append, List.takeWhile_append_dropWhile, List.reverse_reverse]
  have hblank : ∀ c ∈ (text.reverse.takeWhile isBlankChar).reverse, isBlankChar c = true := by
    intro c hc
    exact List.all_eq_true.mp List.all_takeWhile c (List.mem_reverse.mp hc)
  exact (trim_append_blank hblank).symm.trans (congrArg trim hsplit.symm)

namespace Markup

/-- An attribute ends here: at a blank or at the end, and no value follows. -/
structure EndsAttribute (rest : List Char) : Prop where
  blank : ∀ c ∈ rest.head?, c = ' '
  noValue : ∀ c ∈ (rest.dropWhile isSpace).head?, c ≠ '='

/-- What ends an attribute begins with a blank, if with anything. -/
theorem EndsAttribute.head_isSpace {rest : List Char} (h : EndsAttribute rest) :
    ∀ c ∈ rest.head?, isSpace c = true := by
  intro c hc
  rw [h.blank c hc]
  rfl

/-- The quotes of a tag have one byte. -/
theorem utf8Size_of_isTagQuote {quote : Char} (h : isTagQuote quote = true) :
    quote.utf8Size = 1 := by
  simp only [isTagQuote, Bool.or_eq_true, decide_eq_true_eq] at h
  rcases h with rfl | rfl <;> rfl

/-- A quoted value takes up two bytes more than it has. -/
theorem byteSize_quoted {quote : Char} (h : isTagQuote quote = true) (value : List Char) :
    byteSize (quote :: value ++ [quote]) = byteSize value + 2 := by
  simp only [List.cons_append, byteSize_cons, byteSize_append, byteSize_nil,
    utf8Size_of_isTagQuote h]
  omega

/-- Seeking what is behind a text moves over the text. -/
theorem Cursor.seek_append (k : Nat) (text rest : List Char) :
    (⟨k, text ++ rest⟩ : Cursor).seek rest = ⟨k + byteSize text, rest⟩ := by
  simp only [Cursor.seek, byteSize_append, Nat.add_sub_cancel]

/-- A value in quotes is read up to the quote that closes it. -/
theorem readAttributeValue_quoted {quote : Char} {value : List Char} (k : Nat)
    (hquote : isTagQuote quote = true) (hvalue : FillsQuote quote value) (rest : List Char) :
    readAttributeValue ⟨k, quote :: value ++ [quote] ++ rest⟩ =
      .ok (.literal ⟨.string (String.ofList value), String.ofList (quote :: value ++ [quote]), false,
        ⟨k, k + (byteSize value + 2)⟩⟩, ⟨k + (byteSize value + 2), rest⟩) := by
  have hs : splitQuote quote (value ++ quote :: rest) = some (value, rest) :=
    splitQuote_eq_some_iff.mpr ⟨rfl, hvalue⟩
  have hseek := Cursor.seek_append k (quote :: value ++ [quote]) rest
  rw [byteSize_quoted hquote] at hseek
  rw [List.cons_append, List.cons_append, List.append_assoc, List.singleton_append] at hseek ⊢
  rw [readAttributeValue]
  simp only [hquote, if_true, hs, hseek, Cursor.spanTo]
  rfl

/-- A value in braces is read up to the brace that closes it. -/
theorem readAttributeValue_braced {expression : List Char} (k : Nat)
    (hexpression : FillsBraces expression) (rest : List Char) :
    readAttributeValue ⟨k, '{' :: expression ++ ['}'] ++ rest⟩ =
      .ok (.program ⟨String.ofList (trim expression), ⟨k, k + (byteSize expression + 2)⟩⟩,
        ⟨k + (byteSize expression + 2), rest⟩) := by
  have hs := hexpression.splitBraces_append rest
  have hseek := Cursor.seek_append k ('{' :: expression ++ ['}']) rest
  have hquote : ¬isTagQuote '{' = true := by decide
  rw [byteSize_braced] at hseek
  rw [List.cons_append, List.cons_append, List.append_assoc, List.singleton_append] at hseek ⊢
  rw [readAttributeValue]
  simp only [if_neg hquote, if_true, hs, hseek, Cursor.spanTo]

/-- A bare value is read up to the blank behind it, with a slash at its end if it has one. -/
theorem readAttributeValue_bare {c : Char} {value rest : List Char} (k : Nat)
    (hquote : isTagQuote c = false) (hbrace : c ≠ '{')
    (hvalue : ∀ d ∈ c :: value, isSpace d = false) (hrest : EndsAttribute rest) :
    readAttributeValue ⟨k, c :: value ++ rest⟩ =
      .ok (.literal (.ofText k (c :: value)), ⟨k + byteSize (c :: value), rest⟩) := by
  have hrun : ∀ d ∈ c :: value, (!isSpace d) = true := by
    intro d hd
    rw [hvalue d hd]
    rfl
  have hstop : ∀ d ∈ rest.head?, (!isSpace d) = false := by
    intro d hd
    rw [hrest.head_isSpace d hd]
    rfl
  obtain ⟨hskip, htake⟩ := Cursor.skipWhile_append _ k _ _ hrun hstop
  have hquote' : ¬isTagQuote c = true := by rw [hquote]; exact Bool.false_ne_true
  rw [List.cons_append] at hskip htake ⊢
  rw [readAttributeValue]
  simp only [if_neg hquote', if_neg hbrace, hskip, htake]

private theorem readNamed_value {name value rest : List Char} {c : Char} {token : Token} (k : Nat)
    (hname : IsAttributeName name) (hhead : value.head? = some c) (hspace : isSpace c = false)
    (hvalue : readAttributeValue ⟨k + byteSize name + 1, value ++ rest⟩ =
      .ok (token, ⟨k + byteSize name + 1 + byteSize value, rest⟩)) :
    readNamed ⟨k, name ++ '=' :: value ++ rest⟩ =
      .ok (.plain ⟨String.ofList name, ⟨k, k + byteSize name⟩⟩ token,
        ⟨k + byteSize (name ++ '=' :: value), rest⟩) := by
  have hend : ∀ d ∈ ('=' :: (value ++ rest)).head?, isAttributeNameChar d = false := by
    rintro d ⟨⟩
    rfl
  have htext : ∀ d ∈ (value ++ rest).head?, isSpace d = false := by
    intro d hd
    rw [List.head?_append, hhead, Option.some_or] at hd
    obtain rfl := Option.some.inj hd
    exact hspace
  obtain ⟨hskip, htake⟩ := Cursor.skipWhile_append _ k name _ hname.2 hend
  have hequals := Cursor.skipWhile_eq_self isSpace ⟨k + byteSize name, '=' :: (value ++ rest)⟩ (by
    rintro d ⟨⟩
    rfl)
  have hspaces := Cursor.skipWhile_eq_self isSpace ⟨k + byteSize name + 1, value ++ rest⟩ htext
  have hsize : byteSize ['='] = 1 := rfl
  have hoffset : k + byteSize (name ++ '=' :: value) = k + byteSize name + 1 + byteSize value := by
    rw [← List.singleton_append, byteSize_append, byteSize_append, hsize]
    omega
  rw [List.append_assoc, List.cons_append, hoffset, readNamed]
  simp only [hskip, htake, hequals, Cursor.advance, hsize, hspaces, hvalue, Cursor.spanTo]

private theorem readNamed_flag {name rest : List Char} (k : Nat) (hname : IsAttributeName name)
    (hrest : EndsAttribute rest) :
    readNamed ⟨k, name ++ rest⟩ =
      .ok ((Attribute.flag name).property k, ⟨k + byteSize name, rest⟩) := by
  have hend : ∀ c ∈ rest.head?, isAttributeNameChar c = false := by
    intro c hc
    rw [hrest.blank c hc]
    rfl
  obtain ⟨hskip, htake⟩ := Cursor.skipWhile_append _ k name rest hname.2 hend
  rw [readNamed]
  simp only [hskip, htake, Cursor.spanTo]
  split
  · next text htext =>
    exact absurd rfl (hrest.noValue '=' (by
      change rest.dropWhile isSpace = _ at htext
      rw [htext]
      rfl))
  · rfl

private theorem readBraced_expression {expression : List Char} (k : Nat)
    (hexpression : FillsBraces expression) (rest : List Char) :
    readBraced ⟨k, '{' :: expression ++ ['}'] ++ rest⟩ (expression ++ '}' :: rest) =
      .ok (bracedAttribute ⟨k, k + (byteSize expression + 2)⟩ expression,
        ⟨k + (byteSize expression + 2), rest⟩) := by
  have hs := hexpression.splitBraces_append rest
  have hseek := Cursor.seek_append k ('{' :: expression ++ ['}']) rest
  rw [byteSize_braced] at hseek
  rw [readBraced]
  simp only [hs, hseek, Cursor.spanTo]

private theorem bracedAttribute_computed {expression : List Char} (k : Nat)
    (hdots : ¬['.', '.', '.'] <+: trim expression) :
    bracedAttribute ⟨k, k + (byteSize expression + 2)⟩ expression =
      (Attribute.computed expression).property k := by
  unfold bracedAttribute
  dsimp only
  split
  · next spread htrim => exact absurd ⟨spread, htrim.symm⟩ hdots
  · rfl

private theorem bracedAttribute_spread (k : Nat) (expression : List Char) :
    bracedAttribute ⟨k, k + (byteSize ('.' :: '.' :: '.' :: expression) + 2)⟩
        ('.' :: '.' :: '.' :: expression) =
      (Attribute.spread expression).property k := by
  have hdot : isBlankChar '.' = false := rfl
  have htrim : trim ('.' :: '.' :: '.' :: expression) = '.' :: '.' :: '.' :: trimEnd expression := by
    rw [trim_cons hdot, trimEnd_cons hdot, trimEnd_cons hdot]
  have hsize : byteSize ('.' :: '.' :: '.' :: expression) + 2 = byteSize expression + 5 := by
    have hone : ('.' : Char).utf8Size = 1 := rfl
    simp only [byteSize_cons, hone]
    omega
  rw [bracedAttribute, htrim, hsize]
  change (⟨none, .program ⟨String.ofList (trim (trimEnd expression)), _⟩, .spread, _⟩ : Property) = _
  rw [trim_trimEnd]
  rfl

private theorem readAttributes_of_named {k : Nat} {text : List Char} {property : Property}
    {after : Cursor} (hhead : ∃ c tail, text = c :: tail ∧ isAttributeNameChar c = true)
    (hread : readNamed ⟨k + 1, text⟩ = .ok (property, after)) :
    readAttributes ⟨k, ' ' :: text⟩ = do
      let (properties, closing) ← readAttributes after
      return (property :: properties, closing) := by
  obtain ⟨c, tail, rfl, hc⟩ := hhead
  obtain ⟨hspace, -, -, hbrace, -⟩ := isAttributeNameChar_iff.mp hc
  have hblank : ∀ d ∈ [' '], isSpace d = true := List.forall_mem_singleton.mpr rfl
  have hskip := (Cursor.skipWhile_append isSpace k [' '] (c :: tail) hblank (by
    rintro d ⟨⟩
    exact hspace)).1
  change (⟨k, ' ' :: c :: tail⟩ : Cursor).skipWhile isSpace = ⟨k + 1, c :: tail⟩ at hskip
  rw [readAttributes_eq, hskip]
  dsimp only
  rw [if_neg hbrace, if_pos hc, hread]
  rfl

private theorem readAttributes_of_braced {k : Nat} {text : List Char} {property : Property}
    {after : Cursor} (hread : readBraced ⟨k + 1, '{' :: text⟩ text = .ok (property, after)) :
    readAttributes ⟨k, ' ' :: '{' :: text⟩ = do
      let (properties, closing) ← readAttributes after
      return (property :: properties, closing) := by
  have hblank : ∀ d ∈ [' '], isSpace d = true := List.forall_mem_singleton.mpr rfl
  have hskip := (Cursor.skipWhile_append isSpace k [' '] ('{' :: text) hblank (by
    rintro d ⟨⟩
    rfl)).1
  change (⟨k, ' ' :: '{' :: text⟩ : Cursor).skipWhile isSpace = ⟨k + 1, '{' :: text⟩ at hskip
  rw [readAttributes_eq, hskip]
  dsimp only
  rw [if_pos rfl, hread]
  rfl

/-- The first of several printed attributes is read to its property, and the others follow. -/
theorem Attribute.WellFormed.readAttributes {a : Attribute} (h : a.WellFormed) (k : Nat)
    {rest : List Char} (hrest : EndsAttribute rest) :
    TemplateReader.readAttributes ⟨k, ' ' :: a.print ++ rest⟩ = do
      let (properties, closing) ←
        TemplateReader.readAttributes ⟨k + 1 + byteSize a.print, rest⟩
      return (a.property (k + 1) :: properties, closing) := by
  have head {name : List Char} (hname : IsAttributeName name) (text text' : List Char) :
      ∃ c tail, name ++ text ++ text' = c :: tail ∧ isAttributeNameChar c = true := by
    obtain ⟨c, tail, rfl⟩ := List.exists_cons_of_ne_nil hname.1
    exact ⟨c, tail ++ text ++ text', rfl, hname.2 c List.mem_cons_self⟩
  rw [List.cons_append]
  cases a with
  | flag name =>
    have hhead := head h [] rest
    rw [List.append_nil] at hhead
    exact readAttributes_of_named hhead (readNamed_flag _ h hrest)
  | quoted name quote value =>
    obtain ⟨hname, hquote, hvalue⟩ := h
    have hspace : isSpace quote = false := by
      simp only [isTagQuote, Bool.or_eq_true, decide_eq_true_eq] at hquote
      rcases hquote with rfl | rfl <;> rfl
    have hread := readAttributeValue_quoted (k + 1 + byteSize name + 1) hquote hvalue rest
    rw [← byteSize_quoted hquote] at hread
    refine readAttributes_of_named (head hname _ rest) ?_
    refine (readNamed_value (k + 1) hname rfl hspace hread).trans ?_
    rw [Attribute.property, byteSize_quoted hquote]
    rfl
  | bare name value =>
    obtain ⟨hname, hspaces, -, c, rest', rfl, hquote, hbrace⟩ := h
    have hread := readAttributeValue_bare (k + 1 + byteSize name + 1) hquote hbrace hspaces hrest
    refine readAttributes_of_named (head hname _ rest) ?_
    exact readNamed_value (k + 1) hname rfl (hspaces c List.mem_cons_self) hread
  | braced name expression =>
    obtain ⟨hname, hexpression⟩ := h
    have hread := readAttributeValue_braced (k + 1 + byteSize name + 1) hexpression rest
    rw [← byteSize_braced] at hread
    refine readAttributes_of_named (head hname _ rest) ?_
    refine (readNamed_value (k + 1) hname rfl rfl hread).trans ?_
    rw [Attribute.property, byteSize_braced]
    rfl
  | computed expression =>
    obtain ⟨hexpression, hdots⟩ := h
    have hread := readBraced_expression (k + 1) hexpression rest
    rw [bracedAttribute_computed _ hdots, ← byteSize_braced] at hread
    rw [List.cons_append, List.cons_append, List.append_assoc, List.singleton_append] at hread
    rw [Attribute.print, List.cons_append, List.cons_append, List.append_assoc,
      List.singleton_append]
    exact readAttributes_of_braced hread
  | spread expression =>
    have hread := readBraced_expression (k + 1) h.dot.dot.dot rest
    rw [bracedAttribute_spread, ← byteSize_braced] at hread
    rw [List.cons_append, List.cons_append, List.append_assoc, List.singleton_append] at hread
    rw [Attribute.print, List.cons_append, List.cons_append, List.append_assoc,
      List.singleton_append]
    exact readAttributes_of_braced hread

/-- What an attribute begins with is no blank and no `=`. -/
theorem Attribute.WellFormed.exists_head {a : Attribute} (h : a.WellFormed) :
    ∃ c tail, a.print = c :: tail ∧ isSpace c = false ∧ c ≠ '=' := by
  have named {name : List Char} (hname : IsAttributeName name) (text : List Char) :
      ∃ c tail, name ++ text = c :: tail ∧ isSpace c = false ∧ c ≠ '=' := by
    obtain ⟨c, tail, rfl⟩ := List.exists_cons_of_ne_nil hname.1
    obtain ⟨hspace, hequals, -⟩ := isAttributeNameChar_iff.mp (hname.2 c List.mem_cons_self)
    exact ⟨c, tail ++ text, rfl, hspace, hequals⟩
  cases a with
  | flag name =>
    have hname := named h []
    rwa [List.append_nil] at hname
  | quoted name quote value => exact named h.1 _
  | bare name value => exact named h.1 _
  | braced name expression => exact named h.1 _
  | computed expression => exact ⟨_, _, rfl, rfl, by decide⟩
  | spread expression => exact ⟨_, _, rfl, rfl, by decide⟩

/-- An attribute ends at the end of the tag. -/
theorem endsAttribute_nil : EndsAttribute [] := ⟨nofun, nofun⟩

/-- An attribute ends in front of the slash of a tag that closes itself. -/
theorem endsAttribute_slash : EndsAttribute [' ', '/'] := by
  refine ⟨?_, ?_⟩
  · rintro c ⟨⟩
    rfl
  · rintro c ⟨⟩
    decide

/-- Before printed attributes, and before what ends them, an attribute ends. -/
theorem endsAttribute_printAttributes {attributes : List Attribute} {tail : List Char}
    (h : ∀ a ∈ attributes, a.WellFormed) (htail : EndsAttribute tail) :
    EndsAttribute (printAttributes attributes ++ tail) := by
  cases attributes with
  | nil => exact htail
  | cons a attributes =>
    obtain ⟨c, text, hprint, hspace, hequals⟩ := (h a List.mem_cons_self).exists_head
    rw [printAttributes, hprint]
    refine ⟨?_, ?_⟩
    · rintro d ⟨⟩
      rfl
    · intro d hd
      have hblank : isSpace ' ' = true := rfl
      simp only [List.cons_append, List.dropWhile_cons, hblank, hspace, if_true,
        Bool.false_eq_true, if_false] at hd
      obtain rfl := Option.some.inj hd
      exact hequals

/-- Printed attributes are read to their properties. -/
theorem readAttributes_printAttributes {attributes : List Attribute} {tail : List Char}
    {closing : Bool} (h : ∀ a ∈ attributes, a.WellFormed) (htail : EndsAttribute tail)
    (hend : ∀ k, readAttributes ⟨k, tail⟩ = .ok ([], closing)) (k : Nat) :
    readAttributes ⟨k, printAttributes attributes ++ tail⟩ =
      .ok (propertiesAt k attributes, closing) := by
  induction attributes generalizing k with
  | nil => exact hend k
  | cons a attributes ih =>
    have hrest : ∀ b ∈ attributes, b.WellFormed := fun b hb => h b (List.mem_cons_of_mem a hb)
    have hfirst := (h a List.mem_cons_self).readAttributes k
      (endsAttribute_printAttributes hrest htail)
    rw [printAttributes, List.append_assoc, hfirst, ih hrest]
    rfl

/-- Behind the last attribute none is read. -/
theorem readAttributes_nil (k : Nat) : readAttributes ⟨k, []⟩ = .ok ([], false) := by
  rw [readAttributes_eq]
  rfl

/-- A slash at the end of a tag is no attribute, and closes the element. -/
theorem readAttributes_slash (k : Nat) : readAttributes ⟨k, [' ', '/']⟩ = .ok ([], true) := by
  rw [readAttributes_eq]
  rfl

/-- An attribute spans its printed form. -/
theorem Attribute.WellFormed.span_property {a : Attribute} (h : a.WellFormed) (k : Nat) :
    (a.property k).span = ⟨k, k + byteSize a.print⟩ := by
  have hequals : ('=' : Char).utf8Size = 1 := rfl
  cases a with
  | flag name => rfl
  | quoted name quote value =>
    rw [Attribute.print, byteSize_append, byteSize_cons, byteSize_quoted h.2.1, hequals]
    simp only [Attribute.property, Nat.add_assoc]
  | bare name value =>
    rw [Attribute.print, byteSize_append, byteSize_cons, hequals]
    simp only [Attribute.property, Nat.add_assoc]
  | braced name expression =>
    rw [Attribute.print, byteSize_append, byteSize_cons, byteSize_braced, hequals]
    simp only [Attribute.property, Nat.add_assoc]
  | computed expression =>
    rw [Attribute.print, byteSize_braced]
    rfl
  | spread expression =>
    have hdot : ('.' : Char).utf8Size = 1 := rfl
    rw [Attribute.print, byteSize_braced]
    simp only [Attribute.property, byteSize_cons, hdot, Span.mk.injEq, true_and]
    omega

private theorem stop_of_getLast?_propertiesAt {attributes : List Attribute} {p : Property}
    (h : ∀ a ∈ attributes, a.WellFormed) (k : Nat)
    (hp : (propertiesAt k attributes).getLast? = some p) :
    p.span.stop = k + byteSize (printAttributes attributes) := by
  have hblank : (' ' : Char).utf8Size = 1 := rfl
  induction attributes generalizing k with
  | nil => cases hp
  | cons a attributes ih =>
    have hrest : ∀ b ∈ attributes, b.WellFormed := fun b hb => h b (List.mem_cons_of_mem a hb)
    rw [printAttributes, byteSize_append, byteSize_cons, hblank]
    cases attributes with
    | nil =>
      have hp : a.property (k + 1) = p := Option.some.inj hp
      rw [← hp, (h a List.mem_cons_self).span_property, printAttributes, byteSize_nil]
      dsimp only
      omega
    | cons b attributes =>
      rw [propertiesAt, propertiesAt, List.getLast?_cons_cons] at hp
      rw [ih hrest _ hp]
      omega

/-- The object of printed attributes spans them from the first name on. -/
theorem attributeObject_propertiesAt {attributes : List Attribute}
    (h : ∀ a ∈ attributes, a.WellFormed) (k : Nat) :
    attributeObject k (propertiesAt k attributes) = objectAt k attributes := by
  cases attributes with
  | nil => rfl
  | cons a attributes =>
    have hne : (propertiesAt k (a :: attributes)) ≠ [] := List.cons_ne_nil _ _
    have hlast := List.getLast?_eq_some_getLast hne
    have hstop := stop_of_getLast?_propertiesAt h k hlast
    have hstart := (h a List.mem_cons_self).span_property (k + 1)
    rw [attributeObject, hlast]
    simp only [propertiesAt, List.head?_cons, hstart, objectAt, List.isEmpty_cons,
      Bool.false_eq_true, if_false, Object.mk.injEq, true_and, Span.mk.injEq]
    exact hstop

end Markup

end TemplateReader
