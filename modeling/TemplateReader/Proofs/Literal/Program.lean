import TemplateReader.Proofs.Bytes.Delimiter
import TemplateReader.Proofs.Grammar.Matching
import TemplateReader.Proofs.Literal.Balance
import TemplateReader.Proofs.Literal.Exactness

/-!
# Objects as programs

An object is read by a grammar of keys, values and separators, a program by a search
that counts braces and passes over quoted runs. Between its braces an object holds
only what that search passes over, whatever its strings contain, so the brace that
ends the object is the one that the search finds, over characters and over bytes.
-/

namespace TemplateReader

section

variable {s : Scope} {c d : Cursor} {k : Nat} {x inner : List Char} {t : Token}
  {R : Nat → List Char → Token → Prop}

/-- Between its braces an object is balanced. -/
theorem ContainerText.exists_braces (hR : ∀ k x t, R k x t → IsBalanced x) {o : Object}
    (h : ContainerText R k x (.object o)) : ∃ inner, x = '{' :: inner ++ ['}'] ∧ IsBalanced inner := by
  cases h with
  | @object gap members properties hgap hmembers =>
    obtain ⟨front, rfl, hfront⟩ :=
      hmembers.exists_isBalanced fun k x p => PropertyText.isBalanced hR
    refine ⟨gap ++ front, ?_, hgap.isBalanced.append hfront⟩
    simp only [List.cons_append, List.append_assoc]

/-- With fuel for every level of nesting, what the rule of objects finds is written in braces, with a
balanced text between them. -/
theorem exists_of_object {text : List Char} {index fuel level : Nat}
    (hfuel : Lexer.nestingLimit ≤ fuel)
    (h : Rule.object (Registry.standard.scope Lexer.nestingLimit text index fuel level) c = some t) :
    ∃ o inner d, t = .object o ∧ c.Passes ('{' :: inner ++ ['}']) d ∧
      o.span = ⟨c.offset, c.offset + byteSize ('{' :: inner ++ ['}'])⟩ ∧ IsBalanced inner := by
  have hlevel : level < Lexer.nestingLimit := level_lt_of_containerRule (Or.inl rfl) h
  have hlevels : Lexer.nestingLimit - (level + 1) < fuel := by omega
  obtain ⟨o, x, d, rfl, hpasses, hx⟩ := (object_eq_some_iff
    (s := Registry.standard.scope Lexer.nestingLimit text index fuel level) hlevel
    (readsValue_dataWithin Lexer.nestingLimit text index hlevels)).mp h
  obtain ⟨inner, rfl, hinner⟩ := hx.exists_braces fun k x t => DatumText.isBalanced
  exact ⟨o, inner, d, rfl, hpasses, hx.span_eq, hinner⟩

private theorem braces_append (inner rest : List Char) :
    '{' :: inner ++ ['}'] ++ rest = '{' :: (inner ++ '}' :: rest) := by
  rw [List.append_assoc, List.cons_append, List.singleton_append]

/-- The rule of programs finds braces around a text that they enclose. -/
theorem FillsBraces.program (h : FillsBraces inner) (hpasses : c.Passes ('{' :: inner ++ ['}']) d) :
    Rule.program s c = some (.program ⟨String.ofList (trim inner),
      ⟨c.offset, c.offset + byteSize ('{' :: inner ++ ['}'])⟩⟩) := by
  have hc := hpasses.rest
  rw [braces_append] at hc
  rw [byteSize_braced, ← Nat.add_assoc]
  simp only [Rule.program, hc, h.splitBraces_append, Option.map_some]

/-- The search over bytes ends behind braces around a text that they enclose. -/
theorem FillsBraces.findProgram (h : FillsBraces inner) {text : List Char} {offset : Nat}
    (hpasses : (Cursor.atOffset text offset).Passes ('{' :: inner ++ ['}']) d) :
    Bytes.findProgram text offset = .ok (some (offset + byteSize ('{' :: inner ++ ['}']))) := by
  obtain ⟨before, htext, rfl⟩ := Cursor.exists_of_passes hpasses (List.cons_ne_nil _ _)
  have hparts := braces_append inner d.rest
  have hsuffix : '{' :: (inner ++ '}' :: d.rest) <:+ text := ⟨before, by rw [htext, hparts]⟩
  have hstart : Bytes.place text ('{' :: (inner ++ '}' :: d.rest)) = byteSize before := by
    rw [htext, hparts, Bytes.place_append_self]
  have hstop : Bytes.place text d.rest = byteSize before + byteSize ('{' :: inner ++ ['}']) := by
    rw [← hparts] at hsuffix hstart
    rw [Bytes.place_append hsuffix, hstart]
  rw [← hstart, Bytes.findProgram_place hsuffix, h.splitBraces_append, Option.map_some, hstop, hstart]

end

/-- Where one rule is asked for and what it finds is not empty, that is the match. -/
theorem Registry.matchWith_singleton {r : Registry} {name : String} {rule : Rule}
    (hrule : r.get? name = some rule) {limit index fuel level : Nat} {text : List Char} {c : Cursor}
    {t : Token} (h : rule (r.scope limit text index fuel level) c = some t)
    (hne : t.isEmpty = false) :
    r.matchWith limit text index (fuel + 1) level c [name] = .ok (some t) := by
  have hresolve : r.resolve [name] = .ok [rule] := by
    rw [resolve, hrule]
    rfl
  rw [matchWith_succ, hresolve]
  simp only [Except.map, firstMatch, List.findSome?_cons, h, Option.filter_some, hne, Bool.not_false,
    if_true]

/-- Every object that a lexer for data literals matches is a program expression of the same extent:
the search for the end of a program ends behind the object, and the text between the two braces,
trimmed, is the program matched there. -/
theorem Lexer.program_of_object {l : Lexer} (hl : l.registry = .standard) {offset : Nat} {t : Token}
    (h : l.matchAt offset (some ["ObjectExpression"]) = .ok (some t)) :
    ∃ o inner, t = .object o ∧ o.span.start = offset ∧
      o.span.slice? l.text = some ('{' :: inner ++ ['}']) ∧
      Bytes.findProgram l.text offset = .ok (some o.span.stop) ∧
      l.matchAt offset (some ["ProgramExpression"]) =
        .ok (some (.program ⟨String.ofList (trim inner), o.span⟩)) := by
  obtain ⟨registry, text, index, level⟩ := l
  obtain rfl := hl
  obtain ⟨fuel, hfuel, name, hname, rule, hmem, hfound, hne⟩ := Registry.exists_of_matchWith h
  obtain rfl := List.mem_singleton.mp hname
  have hrule : rule = Rule.object := by
    simpa [Registry.standard, Rule.builtIn] using hmem
  subst hrule
  have hlimit : Lexer.nestingLimit < fuel + 1 := hfuel ▸ lt_fuel text.length
  obtain ⟨o, inner, d, rfl, hpasses, hspan, hinner⟩ :=
    exists_of_object (Nat.le_of_lt_succ hlimit) hfound
  have hfills := hinner.fillsBraces
  refine ⟨o, inner, rfl, ?_, ?_, ?_, ?_⟩
  · rw [hspan]
    rfl
  · rw [hspan]
    exact hpasses.slice?_eq (List.cons_ne_nil _ _)
  · rw [hspan]
    exact hfills.findProgram hpasses
  · have hprogram := hfills.program
      (s := Registry.standard.scope Lexer.nestingLimit text index fuel level) hpasses
    rw [← hspan] at hprogram
    rw [Lexer.matchAt, Lexer.matchCursor]
    dsimp only
    rw [hfuel]
    exact Registry.matchWith_singleton rfl hprogram hne

private def quotedBraces : Lexer :=
  Lexer.standard.load "[\x7b 'a\x7d': [\x7b\"\\\"\x7b\": 'ü'\x7d] \x7d, x]".toList

/-- An object with braces in quotes is a program over the same bytes. -/
theorem Lexer.program_of_object_quotedBraces :
    ∃ o, quotedBraces.matchAt 1 (some ["ObjectExpression"]) = .ok (some (.object o)) ∧
      o.span = ⟨1, 26⟩ ∧ Bytes.findProgram quotedBraces.text 1 = .ok (some 26) ∧
      quotedBraces.matchAt 1 (some ["ProgramExpression"]) =
        .ok (some (.program ⟨"'a\x7d': [\x7b\"\\\"\x7b\": 'ü'\x7d]", ⟨1, 26⟩⟩)) := by
  have hread : ((quotedBraces.matchAt 1 (some ["ObjectExpression"])).toOption.any fun matched =>
      matched.any fun t => decide (t.span = ⟨1, 26⟩)) = true := by
    decide +kernel
  obtain ⟨t, hmatch, ht⟩ := Lexer.exists_of_any hread
  obtain ⟨o, inner, rfl, -, hslice, hfind, hprogram⟩ := Lexer.program_of_object rfl hmatch
  have hspan : o.span = ⟨1, 26⟩ := of_decide_eq_true ht
  rw [hspan] at hslice hfind hprogram
  have hbraces : '\x7b' :: inner ++ ['\x7d'] =
      '\x7b' :: " 'a\x7d': [\x7b\"\\\"\x7b\": 'ü'\x7d] ".toList ++ ['\x7d'] :=
    Option.some.inj (hslice.symm.trans (by decide +kernel))
  obtain rfl := List.append_cancel_right (List.cons.inj hbraces).2
  have htrim : String.ofList (trim " 'a\x7d': [\x7b\"\\\"\x7b\": 'ü'\x7d] ".toList) =
      "'a\x7d': [\x7b\"\\\"\x7b\": 'ü'\x7d]" := by
    decide +kernel
  rw [htrim] at hprogram
  exact ⟨o, hmatch, hspan, hfind, hprogram⟩

end TemplateReader
