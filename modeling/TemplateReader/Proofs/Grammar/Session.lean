import TemplateReader.Proofs.Bytes.Lexer

/-!
# Sessions with lexers

Whatever is done with lexers for a registry that fits, each of them stays on a
boundary of its text. From that everything else about them follows: no step goes
wrong, a question or a failure leaves a lexer as it was, and what is read begins
where the lexer was and ends where it is then.
-/

namespace TemplateReader

/-- A lexer reads a token and stands behind it: the token is not empty and begins where the lexer
was, and nothing but the place of the lexer changes. -/
structure Lexer.Reads (l : Lexer) (t : Token) (after : Lexer) : Prop where
  /-- The token begins where the lexer was. -/
  start : t.span.start = l.index
  /-- The token is not empty. -/
  nonempty : t.isEmpty = false
  /-- The lexer stands at the end of the token. -/
  after_eq : after = { l with index := t.span.stop }

/-- The ways of matching some names at the place of a lexer agree. -/
structure Lexer.Agrees (l : Lexer) (names : List String) : Prop where
  /-- Something matches next exactly if it would be read. -/
  next_iff : l.next names = .ok true ↔ ∃ t after, l.optional names = some (t, after)
  /-- What would be read if it matches would be read if it had to match. -/
  expect_iff : ∀ t after, l.expect names = .ok (t, after) ↔ l.optional names = some (t, after)
  /-- It is what matches at the place of the lexer. -/
  matchAt_iff : ∀ t, l.matchAt l.index (some names) = .ok (some t) ↔
    ∃ after, l.optional names = some (t, after)
  /-- Otherwise it is reported that nothing matches. -/
  next_false_iff : l.next names = .ok false ↔
    l.expect names = .error (.unexpectedToken (LexError.preview l.rest) names l.index)

/-- A name without a rule is reported unless it need not match. -/
structure Lexer.Reports (l : Lexer) (names : List String) (name : String) : Prop where
  /-- Looking ahead reports it. -/
  next : l.next names = .error (.unknownDefinition name)
  /-- Reading reports it. -/
  expect : l.expect names = .error (.unknownDefinition name)
  /-- Reading what need not match reads nothing. -/
  optional : l.optional names = none

/-- What holds of every lexer of a session. -/
structure Lexer.Disciplined (l : Lexer) : Prop where
  /-- The lexer stands in its text or at the end of it. -/
  index_le : l.index ≤ byteSize l.text
  /-- It does not stand inside a character. -/
  boundary : IsBoundary l.text l.index
  /-- No step goes wrong over the bytes of the text. -/
  runs : ∀ step, Bytes.perform step l = .ok (l.perform step)
  /-- A question changes nothing. -/
  ask : ∀ query, Bytes.perform (.ask query) l = .ok (l.answer query, l)
  /-- What matches and is read begins where the lexer was and ends where it is then. -/
  optional : ∀ names t after,
    Bytes.perform (.optional names) l = .ok (.optional (some t), after) → l.Reads t after
  /-- What had to match and is read begins where the lexer was and ends where it is then. -/
  expect : ∀ names t after,
    Bytes.perform (.expect names) l = .ok (.expected (.ok t), after) → l.Reads t after
  /-- A reading that fails changes nothing. -/
  failure : ∀ step answer after, Bytes.perform step l = .ok (answer, after) → answer.IsFailure →
    after = l
  /-- All ways of matching names with rules agree. -/
  agrees : ∀ names, names ≠ [] → (∀ n ∈ names, l.registry.has n = true) → l.Agrees names
  /-- The first name without a rule is reported. -/
  reports : ∀ before name after, (∀ n ∈ before, l.registry.has n = true) →
    l.registry.has name = false → l.Reports (before ++ name :: after) name

namespace Lexer

variable {l after : Lexer} {names : List String} {name : String} {t : Token}

/-- A lexer that takes up a text stands on a boundary of it. -/
theorem isBoundary_load (l : Lexer) (text : List Char) (index : Nat) :
    IsBoundary (l.loadAt text index).text (l.loadAt text index).index :=
  (Bytes.isGreatest_floorBoundary text index).1.1

/-- A search finds a match at a final part of what it searches, with which every other final part at
which there is a match ends. -/
theorem exists_of_firstFrom {s rest : List Char} {rule : Cursor → Option Token} (h : rest <:+ s)
    (hfound : firstFrom rule (Bytes.place s rest) rest = some t) :
    ∃ tail, tail ≠ [] ∧ tail <:+ rest ∧ rule ⟨Bytes.place s tail, tail⟩ = some t ∧
      ∀ other, other ≠ [] → other <:+ rest → rule ⟨Bytes.place s other, other⟩ ≠ none →
        other <:+ tail := by
  induction rest with
  | nil => cases hfound
  | cons c rest ih =>
    rw [firstFrom] at hfound
    split at hfound
    · next t' hmatch =>
      obtain rfl := Option.some.inj hfound
      exact ⟨c :: rest, List.cons_ne_nil _ _, List.suffix_rfl, hmatch, fun _ _ hother _ => hother⟩
    · next hmiss =>
      rw [← Bytes.place_cons h] at hfound
      obtain ⟨tail, hne, htail, hmatch, hfirst⟩ := ih (Bytes.suffix_of_cons h) hfound
      refine ⟨tail, hne, htail.trans (List.suffix_cons c rest), hmatch, ?_⟩
      intro other hother hsuffix hsome
      rcases List.suffix_cons_iff.mp hsuffix with rfl | hsuffix
      · exact absurd hmiss hsome
      · exact hfirst other hother hsuffix hsome

/-- What a search reads is a match at some offset, and the lexer then stands behind it. -/
theorem exists_of_find (h : IsBoundary l.text l.index)
    (hfind : l.find name = .ok (some (t, after))) :
    ∃ offset, l.matchAt offset (some [name]) = .ok (some t) ∧ after = l.past t := by
  rw [find] at hfind
  split at hfind
  · obtain ⟨t', hfound, heq⟩ := Option.map_eq_some_iff.mp (Except.ok.inj hfind)
    obtain ⟨rfl, rfl⟩ := Prod.mk.inj heq
    have hstands := ((Bytes.stands_cursor h).skipWhile isBlankChar).whole
    rw [hstands.2] at hfound
    obtain ⟨tail, -, htail, hmatch, -⟩ := exists_of_firstFrom hstands.1 hfound
    refine ⟨Bytes.place l.text tail, ?_, rfl⟩
    rw [matchAt, Bytes.atOffset_place (htail.trans hstands.1), Option.getD_some]
    cases hcursor : l.matchCursor ⟨Bytes.place l.text tail, tail⟩ [name] with
    | error e =>
      rw [hcursor] at hmatch
      cases hmatch
    | ok found =>
      rw [hcursor] at hmatch
      exact congrArg Except.ok hmatch
  · cases hfind

/-- Behind a match of a registry that fits, a lexer stands on a boundary. -/
theorem isBoundary_past (hr : l.registry.Fits) {offset : Nat} {names : Option (List String)}
    (h : l.matchAt offset names = .ok (some t)) : IsBoundary (l.past t).text (l.past t).index :=
  (fitsAt_of_matchAt hr h).1.stop

/-- A lexer for a registry that stands on a boundary of its text. -/
def StandsFor (r : Registry) (l : Lexer) : Prop := l.registry = r ∧ IsBoundary l.text l.index

/-- What is cloned on the way to an answer is like the lexer that answers. -/
theorem standsFor_of_mem_clones {r : Registry} {query : Query} (h : l.StandsFor r)
    (hk : after ∈ (l.answer query).clones) : after.StandsFor r := by
  induction query generalizing l with
  | clone =>
    obtain rfl := List.mem_singleton.mp hk
    exact h
  | both first second ihfirst ihsecond =>
    rcases List.mem_append.mp hk with hk | hk
    · exact ihfirst h hk
    · exact ihsecond h hk
  | nested inner ih =>
    rw [answer, nested] at hk
    split at hk
    · have hdeeper : StandsFor r { l with level := l.level + 1 } := h
      exact ih hdeeper hk
    · cases hk
  | matchAt | next | expectEnd | substring | nextSpace => cases hk

/-- Every step leaves a lexer on a boundary. -/
theorem standsFor_perform {r : Registry} (hr : r.Fits) (h : l.StandsFor r) (step : Step) :
    (l.perform step).2.StandsFor r := by
  obtain ⟨rfl, hboundary⟩ := h
  cases step with
  | ask query => exact ⟨rfl, hboundary⟩
  | load text => exact ⟨rfl, isBoundary_load l text 0⟩
  | loadAt text index => exact ⟨rfl, isBoundary_load l text index⟩
  | optional names =>
    rw [perform]
    split
    · next t after hread =>
      obtain ⟨hmatch, rfl⟩ := matchAt_of_optional hread
      exact ⟨rfl, isBoundary_past hr hmatch⟩
    · exact ⟨rfl, hboundary⟩
  | expect names =>
    rw [perform]
    split
    · next t after hread =>
      obtain ⟨hmatch, rfl⟩ := matchAt_of_expect hread
      exact ⟨rfl, isBoundary_past hr hmatch⟩
    · exact ⟨rfl, hboundary⟩
  | find name =>
    rw [perform]
    split
    · next t after hread =>
      obtain ⟨offset, hmatch, rfl⟩ := exists_of_find hboundary hread
      exact ⟨rfl, isBoundary_past hr hmatch⟩
    · exact ⟨rfl, hboundary⟩
    · exact ⟨rfl, hboundary⟩

/-- The clones that a step makes stand on boundaries of their texts. -/
theorem standsFor_of_mem_perform {r : Registry} {step : Step} (h : l.StandsFor r)
    (hk : after ∈ (l.perform step).1.clones) : after.StandsFor r := by
  cases step with
  | ask query => exact standsFor_of_mem_clones h hk
  | load | loadAt => cases hk
  | optional | expect | find =>
    rw [perform] at hk
    split at hk <;> cases hk

end Lexer

/-- One step keeps all lexers of a session on boundaries. -/
theorem standsFor_takeStep {r : Registry} (hr : r.Fits) {lexers : List Lexer}
    (h : ∀ l ∈ lexers, l.StandsFor r) (entry : Nat × Step) :
    ∀ l ∈ takeStep lexers entry, l.StandsFor r := by
  intro l hl
  rw [takeStep] at hl
  split at hl
  · exact h l hl
  · next taken htaken =>
    have hstands := h taken (List.mem_of_getElem? htaken)
    rcases List.mem_append.mp hl with hl | hl
    · rcases List.mem_or_eq_of_mem_set hl with hl | rfl
      · exact h l hl
      · exact Lexer.standsFor_perform hr hstands entry.2
    · exact Lexer.standsFor_of_mem_perform hstands hl

/-- Any number of steps keep all lexers of a session on boundaries. -/
theorem standsFor_foldl {r : Registry} (hr : r.Fits) (steps : List (Nat × Step))
    {lexers : List Lexer} (h : ∀ l ∈ lexers, l.StandsFor r) :
    ∀ l ∈ steps.foldl takeStep lexers, l.StandsFor r := by
  induction steps generalizing lexers with
  | nil => exact h
  | cons entry steps ih => exact ih (standsFor_takeStep hr h entry)

/-- Every lexer of a session stands on a boundary of its text. -/
theorem Registry.Fits.standsFor {r : Registry} (hr : r.Fits) {steps : List (Nat × Step)}
    {l : Lexer} (hl : l ∈ r.session steps) : l.StandsFor r := by
  refine standsFor_foldl hr steps ?_ l hl
  intro l hl
  obtain rfl := List.mem_singleton.mp hl
  exact ⟨rfl, isBoundary_zero []⟩

namespace Lexer

variable {l after : Lexer} {names : List String} {t : Token}

/-- An optional match is read. -/
theorem reads_of_optional (hr : l.registry.Fits) (h : l.optional names = some (t, after)) :
    l.Reads t after := by
  obtain ⟨hmatch, rfl⟩ := matchAt_of_optional h
  obtain ⟨hfits, hne⟩ := fitsAt_of_matchAt hr hmatch
  exact ⟨hfits.start, hne, rfl⟩

/-- An expected match is read. -/
theorem reads_of_expect (hr : l.registry.Fits) (h : l.expect names = .ok (t, after)) :
    l.Reads t after := by
  obtain ⟨hmatch, rfl⟩ := matchAt_of_expect h
  obtain ⟨hfits, hne⟩ := fitsAt_of_matchAt hr hmatch
  exact ⟨hfits.start, hne, rfl⟩

/-- A reading that fails leaves the lexer as it was. -/
theorem perform_eq_of_isFailure {step : Step} (h : (l.perform step).1.IsFailure) :
    (l.perform step).2 = l := by
  cases step with
  | ask query => rfl
  | load | loadAt => cases h
  | optional names =>
    rw [perform] at h ⊢
    split at h
    · cases h
    · rfl
  | expect names =>
    rw [perform] at h ⊢
    split at h
    · obtain ⟨e, he⟩ := h
      cases he
    · rfl
  | find name =>
    rw [perform] at h ⊢
    split at h
    · exact absurd rfl (h _)
    · rfl
    · rfl

/-- The ways of matching names that all have rules come to one match. -/
theorem agrees (hne : names ≠ []) (h : ∀ n ∈ names, l.registry.has n = true) : l.Agrees names := by
  obtain ⟨found, hmatch⟩ : ∃ found, l.matchAt l.index (some names) = .ok found :=
    exists_matchCursor h _
  constructor
  · rw [next_eq hmatch, optional_eq hmatch]
    cases found <;> simp
  · intro t after
    rw [expect_eq hne hmatch, optional_eq hmatch]
    cases found <;> simp
  · intro t
    rw [hmatch, optional_eq hmatch]
    cases found <;> simp
  · rw [next_eq hmatch, expect_eq hne hmatch]
    cases found <;> simp

/-- A name without a rule is reported by looking ahead and by expecting, and matches nothing where
it is optional. -/
theorem reports {before after : List String} {name : String}
    (h : ∀ n ∈ before, l.registry.has n = true) (hname : l.registry.has name = false) :
    l.Reports (before ++ name :: after) name := by
  have hmatch : l.matchAt l.index (some (before ++ name :: after)) =
      .error (.unknownDefinition name) := matchCursor_unknown h hname _
  have hempty : ¬(before ++ name :: after).isEmpty = true := by simp
  refine ⟨?_, ?_, ?_⟩
  · rw [next, hmatch]
    rfl
  · rw [expect, if_neg hempty, hmatch]
  · rw [optional, hmatch]

/-- A lexer on a boundary of its text is disciplined if its registry fits. -/
theorem StandsFor.disciplined {r : Registry} (h : l.StandsFor r) (hr : r.Fits) :
    l.Disciplined := by
  obtain ⟨rfl, hboundary⟩ := h
  have hruns := Bytes.perform_eq hboundary
  refine ⟨hboundary.le, hboundary, hruns, fun query => hruns (.ask query), ?_, ?_, ?_,
    fun names => agrees, fun before name after => reports⟩
  · intro names t after hread
    rw [hruns, Except.ok.injEq, perform] at hread
    split at hread
    · next t' after' hoptional =>
      simp only [Prod.mk.injEq, Answer.optional.injEq, Option.some.injEq] at hread
      obtain ⟨rfl, rfl⟩ := hread
      exact reads_of_optional hr hoptional
    · simp at hread
  · intro names t after hread
    rw [hruns, Except.ok.injEq, perform] at hread
    split at hread
    · next t' after' hexpect =>
      simp only [Prod.mk.injEq, Answer.expected.injEq, Except.ok.injEq] at hread
      obtain ⟨rfl, rfl⟩ := hread
      exact reads_of_expect hr hexpect
    · simp at hread
  · intro step answer after hread hfailure
    rw [hruns, Except.ok.injEq] at hread
    have hanswer : (l.perform step).1 = answer := congrArg Prod.fst hread
    have hafter : (l.perform step).2 = after := congrArg Prod.snd hread
    rw [← hafter]
    apply perform_eq_of_isFailure
    rw [hanswer]
    exact hfailure

end Lexer

/-- Every built-in rule fits, and whatever is done with lexers for a registry that fits, each of
them is disciplined. -/
theorem Registry.session_disciplined :
    (∀ entry ∈ Rule.builtIn, entry.2.Fits) ∧
      ∀ r : Registry, r.Fits → ∀ steps : List (Nat × Step), ∀ l ∈ r.session steps,
        l.Disciplined :=
  ⟨fun _ => Rule.fits_of_mem_builtIn, fun _ hr _ _ hl => (hr.standsFor hl).disciplined hr⟩

/-- The built-in rules, with one for a letter of two bytes and one for the empty text. -/
def accentRegistry : Registry :=
  (Registry.standard.define "Accent" (Rule.fixedText ['é'])).define "Nothing" Rule.emptyText

/-- A lexer takes up a text inside a letter and is cloned one level deeper; then both read on. -/
def accentSteps : List (Nat × Step) :=
  [(0, .loadAt ['a', 'é', 'é', ' ', 'b'] 2), (0, .ask (.nested (.both (.matchAt 2 none) .clone))),
    (0, .expect ["Nothing", "Accent"]), (0, .optional ["Unknown"]), (1, .find "Identifier")]

/-- The two lexers of a session with a clone end behind different letters and are disciplined. -/
theorem session_disciplined_accent :
    accentRegistry.Fits ∧ (accentRegistry.session accentSteps).map Lexer.index = [3, 7] ∧
      ∀ l ∈ accentRegistry.session accentSteps, l.Disciplined := by
  have hstandard : ∀ entry ∈ Registry.standard.rules, entry.2.IsProvided := fun _ => .builtIn
  have haccent := Registry.isProvided_of_mem_define hstandard (.fixedText ['é']) "Accent"
  have hfits : accentRegistry.Fits :=
    Registry.fits_of_isProvided (Registry.isProvided_of_mem_define haccent .emptyText "Nothing")
  exact ⟨hfits, by decide +kernel, Registry.session_disciplined.2 accentRegistry hfits accentSteps⟩

end TemplateReader
