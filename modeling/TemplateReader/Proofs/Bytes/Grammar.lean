import Mathlib.Data.List.Forall2
import TemplateReader.Proofs.Bytes.Scalar
import TemplateReader.Proofs.Literal.Datum

/-!
# Data literals by bytes and by characters

By bytes, the grammar of data literals is tried at any offset and reads members
in a loop; by characters, it is tried at a cursor and reads members by recursion.
Both match the same: rule by rule where the values one level deeper are matched
alike, and so by the number of levels that are left. No run over bytes goes wrong.
-/

namespace TemplateReader.Bytes

/-- At the places of a text, a run reads what is read by characters. -/
def Follows {α : Type} (s : List Char) (f : Nat → Run (Option α)) (g : Cursor → Option α) : Prop :=
  ∀ c, Stands s [] c → f c.offset = .ok (g c)

/-- At the places of a text, a run reads the member that is read by characters, with the offset
behind it. -/
def FollowsMember {α : Type} (s : List Char) (f : Nat → Run (Option (α × Nat)))
    (g : (c : Cursor) → Option (α × LaterCursor c)) : Prop :=
  ∀ c, Stands s [] c → f c.offset = .ok ((g c).map fun r => (r.1, r.2.1.offset))

section

variable {s text rest x : List Char} {c d : Cursor} {value : Nat → Run (Option Token)}
  {token : Cursor → Option Token} {scope : Scope} {R : Nat → List Char → Token → Prop}

/-- At a place of a text, blanks are skipped by bytes as by characters. -/
theorem Stands.skipSpaceAt_eq (h : Stands s [] c) :
    skipSpaceAt s c.offset = .ok (c.skipWhile isSpace).offset := by
  have hrun := h.runEnd_eq isNarrow_isSpace.isEven
  rwa [place_nil] at hrun

/-- Where values are followed by bytes, so are the elements of an array. -/
theorem followsMember_elementAt (hvalue : Follows s value token) (h : ReadsValue token R) :
    FollowsMember s (elementAt value) (element? token) := by
  intro c hc
  rw [elementAt, hvalue c hc, ok_bind]
  cases ht : token c with
  | none =>
    rw [element?, ht]
    rfl
  | some t =>
    obtain ⟨x, d, hpasses, hx⟩ := h.sound ht
    have hstop : t.span.stop = c.offset + byteSize x := by rw [h.span hx]
    obtain ⟨hlt, helement⟩ := element?_eq_some ht (hstop ▸ hpasses.jump? (h.head hx).ne_nil)
    rw [helement, Option.map_some, Option.map_some, hstop, hpasses.offset]
    rfl

/-- At a place of a text, the key of a property is the same by bytes and by characters. -/
theorem Stands.keyAt_eq (h : Stands s [] c) : keyAt s c.offset = .ok (key? scope c) := by
  rw [keyAt, key?, h.identifierAt_eq, ok_bind]
  cases identifier? c with
  | some key => rfl
  | none =>
    have hstring : ByteRule.string s none c.offset = .ok (Rule.string scope c) := h.string_eq
    dsimp only
    rw [hstring, ok_bind]
    cases Rule.string scope c with
    | none => rfl
    | some t =>
      cases t with
      | literal l =>
        obtain ⟨value, raw, escape, span⟩ := l
        cases value <;> rfl
      | _ => rfl

private theorem map_member? {key : Identifier} (hkey : key? scope c = some key)
    (hjump : c.jump? key.span.stop = some d) (hcolon : (d.skipWhile isSpace).rest = ':' :: text) :
    (member? scope token c).map (fun r => (r.1, r.2.1.offset)) =
      (element? token (((d.skipWhile isSpace).advance [':'] text).skipWhile isSpace)).map
        fun r => (.plain key r.1, r.2.1.offset) := by
  rw [member?, hkey]
  simp only [Option.bind_eq_bind, Option.bind_some]
  split
  · next hnone => cases hnone.symm.trans hjump
  next afterKey hafterKey =>
  obtain rfl := Option.some.inj (hafterKey.symm.trans hjump)
  split
  · next hnil => cases hnil.symm.trans hcolon
  next ch tail hcons =>
  obtain ⟨rfl, rfl⟩ := List.cons.inj (hcons.symm.trans hcolon)
  rw [if_pos rfl]
  cases element? token _ <;> rfl

private theorem member?_eq_none {key : Identifier} (hkey : key? scope c = some key)
    (hjump : c.jump? key.span.stop = some d)
    (hcolon : ¬(d.skipWhile isSpace).rest.head? = some ':') : member? scope token c = none := by
  rw [member?, hkey]
  simp only [Option.bind_eq_bind, Option.bind_some]
  split
  · rfl
  next afterKey hafterKey =>
  obtain rfl := Option.some.inj (hafterKey.symm.trans hjump)
  split
  · rfl
  next ch tail hcons =>
  rw [hcons] at hcolon
  apply if_neg
  rintro rfl
  exact hcolon rfl

/-- Where values are followed by bytes, so are the properties of an object. -/
theorem followsMember_propertyAt (hvalue : Follows s value token) (h : ReadsValue token R) :
    FollowsMember s (propertyAt s value) (member? scope token) := by
  intro c hc
  have hkeyAt : keyAt s c.offset = .ok (key? scope c) := hc.keyAt_eq
  rw [propertyAt, hkeyAt, ok_bind]
  cases hkey : key? scope c with
  | none =>
    rw [member?, hkey]
    rfl
  | some key =>
    obtain ⟨x, d, hpasses, hx, hspan⟩ := exists_of_key? hkey
    have hjump : c.jump? key.span.stop = some d := by
      rw [hspan]
      exact hpasses.jump? hx.head.ne_nil
    have hd := hc.passes hpasses
    have hcolon := hd.skipWhile isSpace
    have hbyte := @byte?_eq_some_place_iff s _ ':' (by decide) hcolon.whole.1
    rw [← hcolon.whole.2] at hbyte
    dsimp only
    rw [hspan, ← hpasses.offset, hd.skipSpaceAt_eq, ok_bind]
    by_cases hhead : (d.skipWhile isSpace).rest.head? = some ':'
    · obtain ⟨text, htext⟩ := List.head?_eq_some_iff.mp hhead
      obtain ⟨hnext, hoffset⟩ := hcolon.advance_one htext (by decide)
      have hstart := hnext.skipWhile isSpace
      rw [if_pos (hbyte.mpr hhead), map_member? hkey hjump htext, ← hoffset, hnext.skipSpaceAt_eq,
        ok_bind, followsMember_elementAt hvalue h _ hstart, ok_bind, Option.map_map]
      rfl
    · rw [member?_eq_none hkey hjump hhead]
      exact if_neg (mt hbyte.mp hhead)

variable {α : Type} {closing : Char} {f : Nat → Run (Option (α × Nat))}
  {member : (c : Cursor) → Option (α × LaterCursor c)} {Q : Nat → List Char → α → Prop}

/-- The brackets that close an array or an object are characters of ASCII. -/
theorem not_isWide_of_isClosing (h : IsClosing closing) : ¬IsWide closing := by
  rcases h with rfl | rfl <;> decide

private theorem stands_after (h : Stands s [] c) (hreads : ReadsMember member Q) {first : α}
    {after : LaterCursor c} (hfirst : member c = some (first, after)) : Stands s [] after.1 := by
  obtain ⟨x, hpasses, -⟩ := hreads.sound hfirst
  exact h.passes hpasses

private theorem membersTurn_eq (h : Stands s [] c) (hmember : FollowsMember s f member)
    (hreads : ReadsMember member Q) (hclosing : ¬IsWide closing)
    (hc : ¬c.rest.head? = some closing) (before : List α) :
    membersTurn s closing f c.offset before =
      match member c with
      | none => .ok (.done none)
      | some (first, after) =>
        if (after.1.skipWhile isSpace).rest.head? = some ',' then do
          let start ← skipSpaceAt s ((after.1.skipWhile isSpace).offset + 1)
          return .next start (before ++ [first])
        else if (after.1.skipWhile isSpace).rest.head? = some closing then
          .ok (.next (after.1.skipWhile isSpace).offset (before ++ [first]))
        else .ok (.done none) := by
  have hbyte {d : Cursor} {b : Char} (hb : ¬IsWide b) (hd : Stands s [] d) :
      byte? s d.offset = some b ↔ d.rest.head? = some b := by
    rw [hd.whole.2]
    exact byte?_eq_some_place_iff hb hd.whole.1
  rw [membersTurn, if_neg (mt (hbyte hclosing h).mp hc), hmember c h, ok_bind]
  cases hfirst : member c with
  | none => rfl
  | some r =>
    obtain ⟨first, after⟩ := r
    have hafter := stands_after h hreads hfirst
    have hnext := hafter.skipWhile isSpace
    dsimp only [Option.map_some]
    rw [hafter.skipSpaceAt_eq, ok_bind]
    simp only [hbyte (b := ',') (by decide) hnext, hbyte hclosing hnext]
    rfl

private theorem membersTurn_comma (h : Stands s [] c) (hmember : FollowsMember s f member)
    (hreads : ReadsMember member Q) (hclosing : ¬IsWide closing)
    (hc : ¬c.rest.head? = some closing) {first : α} {after : LaterCursor c}
    (hfirst : member c = some (first, after))
    (htail : (after.1.skipWhile isSpace).rest = ',' :: text) (before : List α) :
    membersTurn s closing f c.offset before =
      .ok (.next (((after.1.skipWhile isSpace).advance [','] text).skipWhile isSpace).offset
        (before ++ [first])) := by
  have hafter := (stands_after h hreads hfirst).skipWhile isSpace
  obtain ⟨hbehind, hoffset⟩ := hafter.advance_one htail (by decide)
  rw [membersTurn_eq h hmember hreads hclosing hc, hfirst]
  dsimp only
  rw [htail, List.head?_cons, if_pos rfl, ← hoffset, hbehind.skipSpaceAt_eq]
  rfl

private theorem membersTurn_other (h : Stands s [] c) (hmember : FollowsMember s f member)
    (hreads : ReadsMember member Q) (hclosing : ¬IsWide closing)
    (hc : ¬c.rest.head? = some closing) {first : α} {after : LaterCursor c}
    (hfirst : member c = some (first, after))
    (hcomma : (after.1.skipWhile isSpace).rest.head? ≠ some ',') (before : List α) :
    membersTurn s closing f c.offset before =
      if (after.1.skipWhile isSpace).rest.head? = some closing then
        .ok (.next (after.1.skipWhile isSpace).offset (before ++ [first]))
      else .ok (.done none) := by
  rw [membersTurn_eq h hmember hreads hclosing hc, hfirst]
  exact if_neg hcomma

private theorem loop_membersTurn_closing (h : Stands s [] c) (hclosing : ¬IsWide closing)
    (hc : c.rest = closing :: text) (before : List α) :
    loop (byteSize s) (membersTurn s closing f) c.offset before =
      .ok (some (before, (c.advance [closing] text).offset)) := by
  obtain ⟨-, hoffset⟩ := h.advance_one hc hclosing
  apply loop_done
  rw [membersTurn, if_pos ((h.byte?_eq_some_iff hclosing hc).mpr rfl), hoffset]
  rfl

private theorem member_eq_none (hreads : ReadsMember member Q) (hc : c.rest = []) :
    member c = none := by
  rw [Option.eq_none_iff_forall_ne_some]
  rintro ⟨first, after⟩ hfirst
  obtain ⟨x, hpasses, hx⟩ := hreads.sound hfirst
  exact (hreads.head hx).ne_nil (List.append_eq_nil_iff.mp (hpasses.rest.symm.trans hc)).1

private theorem head?_ne_some_of_cons {b ch : Char} (hx : x = ch :: text) (hch : ch ≠ b) :
    x.head? ≠ some b := by
  rw [hx]
  exact fun heq => hch (Option.some.inj heq)

/-- The loop over members reads them from any member on. -/
theorem loop_membersTurn (hclosing : IsClosing closing) (hmember : FollowsMember s f member)
    (hreads : ReadsMember member Q) (h : Stands s [] c) (before : List α) :
    loop (byteSize s) (membersTurn s closing f) c.offset before =
      .ok ((readMembers closing member c).map fun r => (before ++ r.1, r.2.offset)) := by
  have hascii := not_isWide_of_isClosing hclosing
  fun_induction readMembers closing member c generalizing before with
  | case1 c hc =>
    apply loop_done
    have hnone : c.rest.head? ≠ some closing := by
      rw [hc]
      exact (Option.some_ne_none closing).symm
    rw [membersTurn_eq h hmember hreads hascii hnone, member_eq_none hreads hc]
    rfl
  | case2 c text hc =>
    rw [loop_membersTurn_closing h hascii hc, Option.map_some, List.append_nil]
  | case3 c ch text hc hch hnone =>
    apply loop_done
    rw [membersTurn_eq h hmember hreads hascii (head?_ne_some_of_cons hc hch), hnone]
    rfl
  | case4 c ch text hc hch first after hlt hfirst next hnext =>
    have hnil : (after.skipWhile isSpace).rest = [] := hnext
    apply loop_done
    rw [membersTurn_eq h hmember hreads hascii (head?_ne_some_of_cons hc hch), hfirst]
    dsimp only
    rw [hnil]
    rfl
  | case5 c ch text hc hch first after hlt hfirst next tail hcomma =>
    rename_i ih
    have hopen := head?_ne_some_of_cons hc hch
    have hturn := membersTurn_comma h hmember hreads hascii hopen hfirst hcomma before
    have hafter := (stands_after h hreads hfirst).skipWhile isSpace
    have hstart := (hafter.advance_one hcomma (by decide)).1.skipWhile isSpace
    have hforward := h.offset_lt_of_length hstart (by assumption)
    have hinside := h.offset_lt hc
    rw [place_nil] at hinside
    rw [loop_next hturn hforward hinside, ih hstart, Option.map_map]
    simp only [Function.comp_def, List.append_assoc, List.singleton_append]
  | case6 c ch text hc hch first after hlt hfirst next tail hclose =>
    have hopen := head?_ne_some_of_cons hc hch
    have hcomma := head?_ne_some_of_cons hclose hclosing.ne_comma
    have hturn := membersTurn_other h hmember hreads hascii hopen hfirst hcomma before
    rw [if_pos (List.head?_eq_some_iff.mpr ⟨tail, hclose⟩)] at hturn
    have hnext := (stands_after h hreads hfirst).skipWhile isSpace
    have hforward := h.offset_lt_of_length hnext
      (Nat.lt_of_le_of_lt (after.length_skipWhile_le isSpace) hlt)
    have hinside := h.offset_lt hc
    rw [place_nil] at hinside
    rw [loop_next hturn hforward hinside, loop_membersTurn_closing hnext hascii hclose]
    rfl
  | case7 c ch text hc hch first after hlt hfirst next other tail hnext hcomma hclose =>
    apply loop_done
    rw [membersTurn_other h hmember hreads hascii (head?_ne_some_of_cons hc hch) hfirst
      (head?_ne_some_of_cons hnext hcomma)]
    exact if_neg (head?_ne_some_of_cons hnext hclose)

/-- At an opening bracket, the members up to the closing one are the same by bytes and by
characters. -/
theorem Stands.membersAt_eq {opening : Char} (hclosing : IsClosing closing)
    (hmember : FollowsMember s f member) (hreads : ReadsMember member Q) (h : Stands s [] c)
    (hc : c.rest = opening :: text) (hopening : ¬IsWide opening) :
    membersAt s closing f c.offset =
      .ok ((readMembers closing member ((c.advance [opening] text).skipWhile isSpace)).map
        fun r => (r.1, r.2.offset)) := by
  obtain ⟨hnext, hoffset⟩ := h.advance_one hc hopening
  rw [membersAt, ← hoffset, hnext.skipSpaceAt_eq, ok_bind,
    loop_membersTurn hclosing hmember hreads (hnext.skipWhile isSpace)]
  rfl

end

/-- What a scope matches as a value one level deeper. -/
def valueBelow (scope : Scope) (c : Cursor) : Option Token :=
  Scope.matchAt { scope with level := scope.level + 1 } c dataNames

/-- The values that a rule is given over the bytes of a text are those one level deeper, as long as
a level is left. -/
inductive Deepens (s : List Char) (scope : Scope) : Option (Nat → Run (Option Token)) → Prop
  | atLimit (hlevel : ¬scope.level < scope.limit) : Deepens s scope none
  | below {value : Nat → Run (Option Token)} {R : Nat → List Char → Token → Prop}
    (hlevel : scope.level < scope.limit) (hvalue : Follows s value (valueBelow scope))
    (hreads : ReadsValue (valueBelow scope) R) : Deepens s scope (some value)

/-- At every offset of a text, a rule matches by bytes what another matches by characters. -/
def ByteRule.Agrees (byBytes : ByteRule) (rule : Rule) : Prop :=
  ∀ (s : List Char) (value : Option (Nat → Run (Option Token))) (scope : Scope),
    Deepens s scope value → ∀ i, byBytes s value i = .ok (rule scope (.atOffset s i))

section

variable {s text : List Char} {c : Cursor} {i : Nat}
  {value : Option (Nat → Run (Option Token))} {scope : Scope} {byBytes : ByteRule} {rule : Rule}

/-- Below the limit, a nested match is made one level deeper. -/
theorem nested_of_lt {α : Type} (h : scope.level < scope.limit) (f : Scope → Option α) :
    scope.nested f = f { scope with level := scope.level + 1 } := if_pos h

/-- At the limit, a nested match finds nothing. -/
theorem nested_of_not_lt {α : Type} (h : ¬scope.level < scope.limit) (f : Scope → Option α) :
    scope.nested f = none := if_neg h

/-- At a place of a text, an object is the same by bytes and by characters, if its values are. -/
theorem Stands.object_eq (h : Stands s [] c) (hvalue : Deepens s scope value) :
    ByteRule.object s value c.offset = .ok (Rule.object scope c) := by
  have hbyte := @byte?_eq_some_place_iff s c.rest '{' (by decide) h.whole.1
  rw [← h.whole.2] at hbyte
  unfold Rule.object
  split
  · next text hc =>
    unfold ByteRule.object
    rw [if_pos (hbyte.mpr (by rw [hc]; rfl))]
    cases hvalue with
    | atLimit hlevel =>
      rw [nested_of_not_lt hlevel]
      rfl
    | @below value R hlevel hvalue hreads =>
      have hmembers := h.membersAt_eq (Or.inr rfl)
        (@followsMember_propertyAt _ _ _ { scope with level := scope.level + 1 } _ hvalue hreads)
        hreads.readsMember_property hc (by decide)
      rw [nested_of_lt hlevel]
      dsimp only
      rw [hmembers, ok_bind]
      let below : Scope := { scope with level := scope.level + 1 }
      change _ = Except.ok ((readMembers '}' (member? below (valueBelow scope)) _).bind _)
      cases readMembers '}' (member? below (valueBelow scope)) _ <;> rfl
  · next hne =>
    apply if_neg
    intro hopening
    obtain ⟨text, hc⟩ := List.head?_eq_some_iff.mp (hbyte.mp hopening)
    exact hne text hc

/-- At a place of a text, an array is the same by bytes and by characters, if its values are. -/
theorem Stands.array_eq (h : Stands s [] c) (hvalue : Deepens s scope value) :
    ByteRule.array s value c.offset = .ok (Rule.array scope c) := by
  have hbyte := @byte?_eq_some_place_iff s c.rest '[' (by decide) h.whole.1
  rw [← h.whole.2] at hbyte
  unfold Rule.array
  split
  · next text hc =>
    unfold ByteRule.array
    rw [if_pos (hbyte.mpr (by rw [hc]; rfl))]
    cases hvalue with
    | atLimit hlevel =>
      rw [nested_of_not_lt hlevel]
      rfl
    | @below value R hlevel hvalue hreads =>
      have hmembers := h.membersAt_eq (Or.inl rfl) (followsMember_elementAt hvalue hreads)
        hreads.readsMember hc (by decide)
      rw [nested_of_lt hlevel]
      dsimp only
      rw [hmembers, ok_bind]
      change _ = Except.ok ((readMembers ']' (element? (valueBelow scope)) _).bind _)
      cases readMembers ']' (element? (valueBelow scope)) _ <;> rfl
  · next hne =>
    apply if_neg
    intro hopening
    obtain ⟨text, hc⟩ := List.head?_eq_some_iff.mp (hbyte.mp hopening)
    exact hne text hc

end

namespace ByteRule

variable {byBytes : ByteRule} {rule : Rule}

/-- A rule by bytes agrees with one by characters if it does so at every place, and if both match
nothing where no character begins. -/
theorem agrees_of
    (hplace : ∀ {s : List Char} {value : Option (Nat → Run (Option Token))} {scope : Scope}
      {c : Cursor}, Deepens s scope value → Stands s [] c →
        byBytes s value c.offset = .ok (rule scope c))
    (hastray : ∀ {s : List Char} {value : Option (Nat → Run (Option Token))} {i : Nat},
      IsAstray s i → byBytes s value i = .ok none)
    (hend : ∀ (scope : Scope) (i : Nat), rule scope ⟨i, []⟩ = none) : Agrees byBytes rule := by
  intro s value scope hvalue i
  rcases exists_stands_or_isAstray s i with ⟨c, hc, rfl, hoffset⟩ | ⟨hi, hoffset⟩
  · rw [hoffset]
    exact hplace hvalue hc
  · rw [hoffset, hend]
    exact hastray hi

/-- The rule for null is the same by bytes and by characters. -/
theorem agrees_null : Agrees null Rule.null := by
  apply agrees_of
  · intro s value scope c _ hc
    exact hc.null_eq
  · intro s value i hi
    rw [null, hi.wordStandsAt_eq_false]
    rfl
  · intro scope i
    rfl

/-- The rule for booleans is the same by bytes and by characters. -/
theorem agrees_boolean : Agrees boolean Rule.boolean := by
  apply agrees_of
  · intro s value scope c _ hc
    exact hc.boolean_eq
  · intro s value i hi
    rw [boolean, hi.wordStandsAt_eq_false, hi.wordStandsAt_eq_false]
    rfl
  · intro scope i
    rfl

/-- The rule for strings is the same by bytes and by characters. -/
theorem agrees_string : Agrees string Rule.string := by
  apply agrees_of
  · intro s value scope c _ hc
    exact hc.string_eq
  · intro s value i hi
    exact hi.string_eq
  · intro scope i
    rfl

/-- The rule for floats is the same by bytes and by characters. -/
theorem agrees_float : Agrees float Rule.float := by
  apply agrees_of
  · intro s value scope c _ hc
    exact hc.float_eq
  · intro s value i hi
    rw [float, hi.digitsSize_eq, ok_bind]
    exact if_pos (Or.inl rfl)
  · intro scope i
    rfl

/-- The rule for integers is the same by bytes and by characters. -/
theorem agrees_integer : Agrees integer Rule.integer := by
  apply agrees_of
  · intro s value scope c _ hc
    exact hc.integer_eq
  · intro s value i hi
    rw [integer, hi.digitsSize_eq, ok_bind]
    exact if_pos rfl
  · intro scope i
    rfl

/-- The rule for identifiers is the same by bytes and by characters. -/
theorem agrees_identifier : Agrees identifier Rule.identifier := by
  apply agrees_of
  · intro s value scope c _ hc
    rw [identifier, hc.identifierAt_eq]
    rfl
  · intro s value i hi
    rw [identifier, hi.identifierAt_eq]
    rfl
  · intro scope i
    rfl

/-- The rule for objects is the same by bytes and by characters. -/
theorem agrees_object : Agrees object Rule.object := by
  apply agrees_of
  · intro s value scope c hvalue hc
    exact hc.object_eq hvalue
  · intro s value i hi
    exact if_neg (hi.byte?_ne (by decide))
  · intro scope i
    rfl

/-- The rule for arrays is the same by bytes and by characters. -/
theorem agrees_array : Agrees array Rule.array := by
  apply agrees_of
  · intro s value scope c hvalue hc
    exact hc.array_eq hvalue
  · intro s value i hi
    exact if_neg (hi.byte?_ne (by decide))
  · intro scope i
    rfl

/-- The rule for programs is the same by bytes and by characters. -/
theorem agrees_program : Agrees program Rule.program := by
  apply agrees_of
  · intro s value scope c _ hc
    exact hc.program_eq
  · intro s value i hi
    rw [program, findProgram, if_neg (hi.byte?_ne (by decide))]
    rfl
  · intro scope i
    rfl

/-- By bytes, the built-in rules have their names and their order, and each agrees with its own. -/
theorem forall₂_builtIn :
    List.Forall₂ (fun entry entry' => entry.1 = entry'.1 ∧ Agrees entry.2 entry'.2) builtIn
      Rule.builtIn :=
  .cons ⟨rfl, agrees_null⟩ <| .cons ⟨rfl, agrees_boolean⟩ <| .cons ⟨rfl, agrees_string⟩ <|
    .cons ⟨rfl, agrees_float⟩ <| .cons ⟨rfl, agrees_integer⟩ <|
    .cons ⟨rfl, agrees_identifier⟩ <| .cons ⟨rfl, agrees_object⟩ <|
    .cons ⟨rfl, agrees_array⟩ <| .cons ⟨rfl, agrees_program⟩ .nil

end ByteRule

private theorem find?_agrees {entries : List (String × ByteRule)} {rules : List (String × Rule)}
    (h : List.Forall₂ (fun a b => a.1 = b.1 ∧ ByteRule.Agrees a.2 b.2) entries rules)
    (name : String) :
    entries.find? (fun entry => entry.1 = name) = none ∧
        rules.find? (fun entry => entry.1 = name) = none ∨
      ∃ entry rule, entries.find? (fun entry => entry.1 = name) = some entry ∧
        rules.find? (fun entry => entry.1 = name) = some rule ∧
        ByteRule.Agrees entry.2 rule.2 := by
  induction h with
  | nil => exact Or.inl ⟨rfl, rfl⟩
  | @cons a b entries rules hab _ ih =>
    obtain ⟨hname, hagrees⟩ := hab
    rw [List.find?_cons, List.find?_cons, hname]
    by_cases hb : b.1 = name
    · rw [decide_eq_true hb]
      exact Or.inr ⟨a, b, rfl, rfl, hagrees⟩
    · rw [decide_eq_false hb]
      exact ih

/-- By bytes, the same names are known, and the rules of known names agree. -/
theorem resolve_agrees (names : List String) :
    (∃ e, resolve names = .error e ∧ Registry.standard.resolve names = .error e) ∨
      ∃ byBytes rules, resolve names = .ok byBytes ∧ Registry.standard.resolve names = .ok rules ∧
        List.Forall₂ ByteRule.Agrees byBytes rules := by
  induction names with
  | nil => exact Or.inr ⟨[], [], rfl, rfl, .nil⟩
  | cons name names ih =>
    have hget : Registry.standard.get? name =
        (Rule.builtIn.find? fun entry => entry.1 = name).map Prod.snd := rfl
    rw [resolve, Registry.resolve, hget]
    rcases find?_agrees ByteRule.forall₂_builtIn name with ⟨hnone, hnone'⟩ |
        ⟨entry, rule, hentry, hrule, hagrees⟩
    · rw [hnone, hnone']
      exact Or.inl ⟨_, rfl, rfl⟩
    · rw [hentry, hrule]
      rcases ih with ⟨e, he, he'⟩ | ⟨byBytes, rules, hbytes, hrules, hnames⟩
      · rw [he, he']
        exact Or.inl ⟨e, rfl, rfl⟩
      · rw [hbytes, hrules]
        exact Or.inr ⟨_, _, rfl, rfl, .cons hagrees hnames⟩

/-- Rules that agree come to the same first match. -/
theorem firstMatch_eq {s : List Char} {value : Option (Nat → Run (Option Token))} {scope : Scope}
    (hvalue : Deepens s scope value) {byBytes : List ByteRule} {rules : List Rule}
    (h : List.Forall₂ ByteRule.Agrees byBytes rules) (i : Nat) :
    firstMatch s value i byBytes = .ok (Registry.firstMatch rules scope (.atOffset s i)) := by
  induction h with
  | nil => rfl
  | cons hagrees _ ih =>
    rw [firstMatch, hagrees s value scope hvalue i, ok_bind, Registry.firstMatch,
      List.findSome?_cons]
    split
    · next hfound =>
      rw [hfound]
      rfl
    · next hfound =>
      rw [hfound]
      exact ih

private theorem matchWith_eq {s : List Char} {value : Option (Nat → Run (Option Token))}
    {index fuel level : Nat}
    (hvalue : Deepens s (Registry.standard.scope Lexer.nestingLimit s index fuel level) value)
    (offset : Nat) (names : List String) :
    (match resolve names with
      | .error e => return .error e
      | .ok rules => do return .ok (← firstMatch s value offset rules)) =
      (.ok (Registry.standard.matchWith Lexer.nestingLimit s index (fuel + 1) level
        (.atOffset s offset) names) : Run (Except LexError (Option Token))) := by
  rw [Registry.matchWith_succ]
  rcases resolve_agrees names with ⟨e, he, he'⟩ | ⟨byBytes, rules, hbytes, hrules, hagrees⟩
  · rw [he, he']
    rfl
  · rw [hbytes, hrules]
    dsimp only
    rw [firstMatch_eq hvalue hagrees]
    rfl

/-- With as many levels left as there are for the scope, and fuel for each of them, matching by
names comes to the same. -/
theorem matchNames_eq (s : List Char) (index : Nat) {fuel level levels : Nat}
    (hfuel : levels < fuel) (hlevel : levels = Lexer.nestingLimit - level) (offset : Nat)
    (names : List String) :
    matchNames s levels offset names =
      .ok (Registry.standard.matchWith Lexer.nestingLimit s index fuel level (.atOffset s offset)
        names) := by
  induction levels generalizing fuel level offset names with
  | zero =>
    obtain ⟨fuel, rfl⟩ := Nat.exists_eq_succ_of_ne_zero (Nat.ne_of_gt hfuel)
    have hvalue : Deepens s (Registry.standard.scope Lexer.nestingLimit s index fuel level) none :=
      .atLimit (Nat.not_lt.mpr (Nat.le_of_sub_eq_zero hlevel.symm))
    rw [matchNames]
    exact matchWith_eq hvalue offset names
  | succ levels ih =>
    obtain ⟨fuel, rfl⟩ := Nat.exists_eq_succ_of_ne_zero (Nat.ne_of_gt (Nat.zero_lt_of_lt hfuel))
    have hbelow : levels < fuel := Nat.lt_of_succ_lt_succ hfuel
    have hvalue : Deepens s (Registry.standard.scope Lexer.nestingLimit s index fuel level)
        (some fun i => do return (← matchNames s levels i dataNames).toOption.join) := by
      refine .below ?_ ?_ (readsValue_dataAt s index hbelow ?_)
      · change level < Lexer.nestingLimit
        omega
      · intro c hc
        obtain ⟨hsuffix, hoffset⟩ := hc.whole
        dsimp only
        rw [@ih fuel (level + 1) hbelow (by omega), ok_bind, hoffset, atOffset_place hsuffix,
          ← hoffset]
        rfl
      · change level + 1 + levels = Lexer.nestingLimit
        omega
    rw [matchNames]
    exact matchWith_eq hvalue offset names

/-- On the grammar of data literals, matching over the bytes of a text goes wrong nowhere, and comes
to what a lexer of the text matches. -/
theorem matchAt_eq (l : Lexer) (hl : l.registry = .standard) (offset : Nat)
    (names : Option (List String)) :
    matchAt l.text l.level offset names = .ok (l.matchAt offset names) := by
  obtain ⟨registry, text, index, level⟩ := l
  obtain rfl := hl
  have hfuel : Lexer.nestingLimit - level <
      Registry.standard.fuel Lexer.nestingLimit text.length :=
    Nat.lt_of_le_of_lt (Nat.sub_le _ _) (lt_fuel _)
  exact matchNames_eq text index hfuel rfl offset _

end TemplateReader.Bytes
