import Mathlib.Data.List.Forall2
import Mathlib.Logic.Function.Iterate
import TemplateReader.Grammar.Counter
import TemplateReader.Grammar.Session
import TemplateReader.Proofs.Literal.Limit
import TemplateReader.Proofs.Literal.Whole

/-!
# The counter of nested matches

Every computation that reads values puts the counter of nested matches back where it
was, whatever it reads and wherever the limit refuses it. What it gives is what the
grammar of data literals gives at the level that the counter stands at. Without a limit
it is what the grammar gives under any limit out of reach.
-/

namespace TemplateReader

namespace Counting

/-- A computation that gives a result and hands the counter back as it was. -/
def Restores {α : Type} (n : Nat) (f : Counting α) (a : α) : Prop := f.run n = (a, n)

section

variable {α β : Type} {n : Nat} {c : Cursor}

/-- A computation that only gives a result leaves the counter as it is. -/
theorem Restores.pure (a : α) : Restores n (pure a) a := rfl

/-- Two computations one after the other put the counter back if each of them does. -/
theorem Restores.bind {f : Counting α} {g : α → Counting β} {a : α} {b : β}
    (hf : Restores n f a) (hg : Restores n (g a) b) : Restores n (f >>= g) b := by
  change (g (f.run n).1).run (f.run n).2 = (b, n)
  rw [hf]
  exact hg

/-- Below a limit the inner computation runs one level deeper. -/
theorem Restores.nested {limit : Option Nat} {f : Counting (Option α)} {a : Option α}
    (hlevel : ∀ most ∈ limit, n < most) (hf : Restores (n + 1) f a) :
    Restores n (Counting.nested limit f) a := by
  have hbelow : ¬(limit.any fun most => most ≤ n) = true := by
    rw [Option.any_eq_true]
    rintro ⟨most, hmost, hle⟩
    exact Nat.not_le.mpr (hlevel most hmost) (of_decide_eq_true hle)
  refine Restores.bind (f := get) (a := n) rfl ?_
  rw [if_neg hbelow]
  change ((f.run (n + 1)).1, n) = (a, n)
  rw [hf]

/-- At a limit nothing runs. -/
theorem restores_nested_none {most : Nat} {f : Counting (Option α)} (hlevel : most ≤ n) :
    Restores n (Counting.nested (some most) f) none := by
  refine Restores.bind (f := get) (a := n) rfl ?_
  rw [if_pos (show (some most).any (fun most => most ≤ n) = true from decide_eq_true hlevel)]
  exact .pure none

/-- Members are read with the counter put back if each member is. -/
theorem Restores.readMembers {closing : Char}
    {member : (c : Cursor) → Counting (Option (α × LaterCursor c))}
    {member' : (c : Cursor) → Option (α × LaterCursor c)}
    (hmember : ∀ d : Cursor, d.rest.length ≤ c.rest.length → Restores n (member d) (member' d)) :
    Restores n (Counting.readMembers closing member c)
      (TemplateReader.readMembers closing member' c) := by
  -- Both readers go on behind a comma, so the induction is on how much is left.
  induction hlen : c.rest.length using Nat.strong_induction_on generalizing c with
  | _ length ih =>
    rw [Counting.readMembers.eq_def, TemplateReader.readMembers.eq_def]
    obtain ⟨offset, _ | ⟨ch, text⟩⟩ := c
    · exact .pure none
    dsimp only
    by_cases hch : ch = closing
    · rw [if_pos hch, if_pos hch]
      exact .pure _
    rw [if_neg hch, if_neg hch]
    refine (hmember _ (Nat.le_refl _)).bind ?_
    cases member' ⟨offset, ch :: text⟩ with
    | none => exact .pure none
    | some first =>
      obtain ⟨first, after, hlt⟩ := first
      dsimp only
      generalize hnext : after.skipWhile isSpace = next
      have hle := after.length_skipWhile_le isSpace
      rw [hnext] at hle
      obtain ⟨offset', _ | ⟨ch', text'⟩⟩ := next
      · exact .pure none
      dsimp only at hle ⊢
      by_cases hcomma : ch' = ','
      · rw [if_pos hcomma, if_pos hcomma]
        have hskip := (Cursor.advance ⟨offset', ch' :: text'⟩ [ch'] text').length_skipWhile_le isSpace
        have hlater : ((Cursor.advance ⟨offset', ch' :: text'⟩ [ch'] text').skipWhile
            isSpace).rest.length < length :=
          (hskip.trans_lt (Nat.lt_of_succ_le hle)).trans (hlt.trans_eq hlen)
        refine (ih _ hlater (fun d hd => hmember d ?_) rfl).bind (.pure _)
        exact (hd.trans_lt hlater).le.trans_eq hlen.symm
      · rw [if_neg hcomma, if_neg hcomma]
        by_cases hclose : ch' = closing
        · rw [if_pos hclose, if_pos hclose]
          exact .pure _
        · rw [if_neg hclose, if_neg hclose]
          exact .pure none

/-- A value is read with the cursor behind it. -/
theorem Restores.element? {value : Cursor → Counting (Option Token)}
    {value' : Cursor → Option Token} (hvalue : Restores n (value c) (value' c)) :
    Restores n (Counting.element? value c) (TemplateReader.element? value' c) := by
  refine hvalue.bind ?_
  exact .pure _

/-- Keys do not depend on what else is matched. -/
theorem key?_eq (s : Scope) (c : Cursor) : key? s c = key? .bare c := rfl

/-- What follows a colon is further on. -/
theorem length_lt_of_valueCursor? {start : Cursor} (h : valueCursor? c = some start) :
    start.rest.length < c.rest.length := by
  simp only [valueCursor?, Option.bind_eq_bind, Option.bind_eq_some_iff] at h
  obtain ⟨key, -, afterKey, hjump, h⟩ := h
  split at h
  · next text hcolon =>
    obtain rfl := Option.some.inj h
    exact length_lt_behind_colon hjump hcolon
  · cases h

/-- Behind a key and a colon a value may begin. -/
theorem valueCursor?_eq_some {s : Scope} {key : Identifier} {afterKey : Cursor} {text : List Char}
    (hkey : key? s c = some key) (hjump : c.jump? key.span.stop = some afterKey)
    (hcolon : (afterKey.skipWhile isSpace).rest = ':' :: text) :
    valueCursor? c = some (((afterKey.skipWhile isSpace).advance [':'] text).skipWhile isSpace) := by
  rw [key?_eq] at hkey
  simp only [valueCursor?, hkey, hjump, hcolon, Option.bind_eq_bind, Option.bind_some]

/-- Without a key and a colon there is no property. -/
theorem member?_eq_none {s : Scope} {value : Cursor → Option Token} (h : valueCursor? c = none) :
    TemplateReader.member? s value c = none := by
  rw [Option.eq_none_iff_forall_ne_some]
  rintro ⟨p, after⟩ hp
  obtain ⟨key, afterKey, text, v, last, hkey, hjump, hcolon, -⟩ := exists_of_member? hp
  rw [valueCursor?_eq_some hkey hjump hcolon] at h
  cases h

/-- A property asks for a value behind its colon and nowhere else. -/
theorem member?_eq_some_of_value {s s' : Scope} {value value' : Cursor → Option Token}
    {start : Cursor} {found : Property × LaterCursor c} (hstart : valueCursor? c = some start)
    (hvalue : value start = value' start) (h : TemplateReader.member? s value c = some found) :
    TemplateReader.member? s' value' c = some found := by
  obtain ⟨p, after, _⟩ := found
  obtain ⟨key, afterKey, text, v, ⟨last, _⟩, hkey, hjump, hcolon, hv, rfl, hlast⟩ :=
    exists_of_member? h
  obtain rfl : after = last := hlast
  rw [valueCursor?_eq_some hkey hjump hcolon] at hstart
  obtain rfl := Option.some.inj hstart
  rw [TemplateReader.element?, hvalue] at hv
  rw [key?_eq, ← key?_eq s'] at hkey
  have hmember : ∃ hlt, TemplateReader.member? s' value' c = some (.plain key v, ⟨after, hlt⟩) :=
    member?_eq_some hkey hjump hcolon rfl hv
  exact hmember.2

/-- A member is the same in two scopes whose values are the same there. -/
theorem member?_congr {s s' : Scope} {value value' : Cursor → Option Token} {start : Cursor}
    (hstart : valueCursor? c = some start) (hvalue : value start = value' start) :
    TemplateReader.member? s value c = TemplateReader.member? s' value' c :=
  Option.ext fun _ => ⟨member?_eq_some_of_value hstart hvalue,
    member?_eq_some_of_value hstart hvalue.symm⟩

/-- A property is read with the cursor behind it. -/
theorem Restores.member? {s : Scope} {value : Cursor → Counting (Option Token)}
    {value' : Cursor → Option Token}
    (hvalue : ∀ d : Cursor, d.rest.length < c.rest.length → Restores n (value d) (value' d)) :
    Restores n (Counting.member? value c) (TemplateReader.member? s value' c) := by
  rw [Counting.member?]
  cases hstart : valueCursor? c with
  | none =>
    rw [member?_eq_none hstart]
    exact .pure none
  | some start =>
    have hmember : TemplateReader.member? s value' c =
        TemplateReader.member? .bare (fun _ => value' start) c := member?_congr hstart rfl
    rw [hmember]
    exact (hvalue start (length_lt_of_valueCursor? hstart)).bind (.pure _)

section

variable {limit : Option Nat} {s : Scope} {value : Cursor → Counting (Option Token)}

/-- The counter stands where the level of a scope does, for whatever opens at a cursor: both let it
through and read the same values in it one level deeper, or both refuse it. -/
structure InStep (limit : Option Nat) (n : Nat) (value : Cursor → Counting (Option Token))
    (s : Scope) (c : Cursor) : Prop where
  /-- What the scope lets through, the limit of the counter does. -/
  below : s.level < s.limit → ∀ most ∈ limit, n < most
  /-- What the scope refuses, the limit of the counter does. -/
  refused : ¬s.level < s.limit → c.rest ≠ [] → ∃ most ∈ limit, most ≤ n
  /-- The values further on are the same. -/
  value (hlevel : s.level < s.limit) (d : Cursor) (hd : d.rest.length < c.rest.length) :
    Restores (n + 1) (value d) (Scope.matchAt { s with level := s.level + 1 } d dataNames)

/-- In step, what opens at a cursor is let through one level deeper by both, or refused by both. -/
theorem InStep.nested (h : InStep limit n value s c) (hc : c.rest ≠ [])
    {f : Counting (Option α)} {f' : Scope → Option α}
    (hf : s.level < s.limit → Restores (n + 1) f (f' { s with level := s.level + 1 })) :
    Restores n (Counting.nested limit f) (s.nested f') := by
  unfold Scope.nested
  split
  · next hlevel => exact .nested (h.below hlevel) (hf hlevel)
  · next hlevel =>
    obtain ⟨most, rfl, hmost⟩ := h.refused hlevel hc
    exact restores_nested_none hmost

private theorem length_lt_of_opening {opening : Char} {text : List Char}
    (hc : c.rest = opening :: text) {d : Cursor}
    (hd : d.rest.length ≤ ((c.advance [opening] text).skipWhile isSpace).rest.length) :
    d.rest.length < c.rest.length := by
  have hskip := (c.advance [opening] text).length_skipWhile_le isSpace
  rw [hc, List.length_cons]
  exact Nat.lt_succ_of_le (hd.trans hskip)

/-- What is made of members is made of the same ones. -/
theorem Restores.makeMembers {closing : Char}
    {member : (c : Cursor) → Counting (Option (α × LaterCursor c))}
    {member' : (c : Cursor) → Option (α × LaterCursor c)} {make : List α × Cursor → β}
    (hmember : ∀ d : Cursor, d.rest.length ≤ c.rest.length → Restores n (member d) (member' d)) :
    Restores n (do return (← Counting.readMembers closing member c).map make)
      ((TemplateReader.readMembers closing member' c).bind fun read => some (make read)) := by
  refine (Restores.readMembers hmember).bind ?_
  cases TemplateReader.readMembers closing member' c with
  | none => exact .pure none
  | some read => exact .pure _

/-- In step, an object is what the grammar reads, and the counter is put back. -/
theorem InStep.object (h : InStep limit n value s c) :
    Restores n (Counting.object limit value c) (Rule.object s c) := by
  by_cases hc : ∃ text, c.rest = '{' :: text
  · obtain ⟨text, hc⟩ := hc
    simp only [Counting.object, Rule.object, hc]
    refine h.nested (List.ne_nil_of_mem (hc ▸ List.mem_cons_self)) fun hlevel => ?_
    refine Restores.makeMembers fun d hd => ?_
    exact .member? fun e he => h.value hlevel e (he.trans (length_lt_of_opening hc hd))
  · have hnone : Rule.object s c = none := by
      unfold Rule.object
      split
      · next text htext => exact absurd ⟨text, htext⟩ hc
      · rfl
    rw [hnone]
    unfold Counting.object
    split
    · next text htext => exact absurd ⟨text, htext⟩ hc
    · exact .pure none

/-- In step, an array is what the grammar reads, and the counter is put back. -/
theorem InStep.array (h : InStep limit n value s c) :
    Restores n (Counting.array limit value c) (Rule.array s c) := by
  by_cases hc : ∃ text, c.rest = '[' :: text
  · obtain ⟨text, hc⟩ := hc
    simp only [Counting.array, Rule.array, hc]
    refine h.nested (List.ne_nil_of_mem (hc ▸ List.mem_cons_self)) fun hlevel => ?_
    refine Restores.makeMembers fun d hd => ?_
    exact .element? (h.value hlevel d (length_lt_of_opening hc hd))
  · have hnone : Rule.array s c = none := by
      unfold Rule.array
      split
      · next text htext => exact absurd ⟨text, htext⟩ hc
      · rfl
    rw [hnone]
    unfold Counting.array
    split
    · next text htext => exact absurd ⟨text, htext⟩ hc
    · exact .pure none

/-- The first match among rules in step is the first match of the grammar, and the counter is put
back. -/
theorem Restores.firstMatch {rules : List (Cursor → Counting (Option Token))} {rules' : List Rule}
    (h : List.Forall₂ (fun rule rule' => Restores n (rule c) (rule' s c)) rules rules') :
    Restores n (Counting.firstMatch c rules) (Registry.firstMatch rules' s c) := by
  induction h with
  | nil => exact .pure none
  | @cons rule rule' rules rules' hrule _ ih =>
    rw [Registry.firstMatch, List.findSome?_cons]
    refine hrule.bind ?_
    cases (rule' s c).filter fun t => !t.isEmpty with
    | none => exact ih
    | some t => exact .pure (some t)

/-- In step, a value is what the grammar reads, and the counter is put back. -/
theorem InStep.valueAt (h : InStep limit n value s c) :
    Restores n (Counting.firstMatch c (Counting.valueRules limit value))
      (TemplateReader.valueAt s c) := by
  apply Restores.firstMatch
  exact .cons (.pure _) <| .cons (.pure _) <| .cons (.pure _) <| .cons (.pure _) <|
    .cons (.pure _) <| .cons h.object <| .cons h.array <| .cons (.pure _) .nil

end

/-- How many levels a limit leaves for what stands at a cursor; without one, enough for every
character. -/
def Leaves (limit : Option Nat) (n depth : Nat) (c : Cursor) : Prop :=
  match limit with
  | none => c.rest.length ≤ depth
  | some most => most - n = depth

section

variable {limit : Option Nat} {depth : Nat} {d : Cursor}

/-- While a level is left, the counter is below its limit. -/
theorem Leaves.below (h : Leaves limit n depth c) (hdepth : 0 < depth) :
    ∀ most ∈ limit, n < most := by
  rintro most ⟨⟩
  exact Nat.lt_of_sub_pos (hdepth.trans_eq h.symm)

/-- When no level is left, the counter has reached its limit, unless nothing is left to be read. -/
theorem Leaves.refused (h : Leaves limit n 0 c) (hne : c.rest ≠ []) : ∃ most ∈ limit, most ≤ n := by
  cases limit with
  | none => exact absurd (List.length_eq_zero_iff.mp (Nat.le_zero.mp h)) hne
  | some most => exact ⟨most, rfl, Nat.sub_eq_zero_iff_le.mp h⟩

/-- Each level that is left costs at least a bracket. -/
theorem Leaves.deeper (h : Leaves limit n (depth + 1) c) (hd : d.rest.length < c.rest.length) :
    Leaves limit (n + 1) depth d := by
  cases limit with
  | none => exact Nat.le_of_lt_succ (hd.trans_le h)
  | some most =>
    change most - (n + 1) = depth
    rw [← Nat.sub_sub, show most - n = depth + 1 from h, Nat.add_sub_cancel]

end

/-- Values are read as at a level of the grammar that leaves as much. -/
theorem restores_valueWith {limit : Option Nat} {most level fuel fuel' index : Nat}
    {text : List Char} (hleaves : Leaves limit n (most - level) c) (hfuel : c.rest.length < fuel)
    (hfuel' : most - level < fuel') :
    Restores n (valueWith limit fuel c) (dataWithin most text index fuel' level c) := by
  -- One fuel lasts for the characters, the other for the levels; each nesting takes one of both.
  induction fuel generalizing c n level fuel' with
  | zero => exact absurd hfuel (Nat.not_lt_zero _)
  | succ fuel ih =>
    obtain ⟨fuel', rfl⟩ := Nat.exists_eq_add_one.mpr (Nat.zero_lt_of_lt hfuel')
    refine InStep.valueAt (s := Registry.standard.scope most text index fuel' level) ⟨?_, ?_, ?_⟩
    · exact fun hlevel => hleaves.below (Nat.sub_pos_of_lt hlevel)
    · intro hlevel hne
      replace hlevel : ¬level < most := hlevel
      rw [Nat.sub_eq_zero_of_le (Nat.not_lt.mp hlevel)] at hleaves
      exact hleaves.refused hne
    · intro hlevel d hd
      replace hlevel : level < most := hlevel
      have hdepth : most - level = most - (level + 1) + 1 := by omega
      rw [hdepth] at hleaves hfuel'
      have hinner : Restores (n + 1) (valueWith limit fuel d)
          (dataWithin most text index fuel' (level + 1) d) :=
        ih (hleaves.deeper hd) (hd.trans_le (Nat.le_of_lt_succ hfuel)) (Nat.lt_of_succ_lt_succ hfuel')
      exact hinner

/-- Levels around a computation come back to where the counter was. -/
theorem Restores.nested_iterate {most k : Nat} {f : Counting (Option α)} {a : Option α}
    (hk : n + k ≤ most) (hf : Restores (n + k) f a) :
    Restores n ((Counting.nested (some most))^[k] f) a := by
  induction k generalizing n with
  | zero => exact hf
  | succ k ih =>
    rw [Function.iterate_succ_apply']
    rw [← Nat.add_assoc, Nat.add_right_comm] at hk hf
    refine .nested ?_ (ih hk hf)
    rintro m ⟨⟩
    omega

end

end Counting

namespace Lexer

/-- Questions below the limit are answered from their levels. -/
theorem answer_nested_iterate {l : Lexer} {k : Nat} (hk : l.level + k ≤ nestingLimit)
    (query : Query) :
    l.answer (Query.nested^[k] query) =
      Answer.nested^[k] ({ l with level := l.level + k }.answer query) := by
  induction k generalizing l with
  | zero => rfl
  | succ k ih =>
    rw [Function.iterate_succ_apply', Function.iterate_succ_apply', answer, nested,
      if_pos (by omega), Option.elim_some, ih (by dsimp only; omega)]
    dsimp only
    rw [Nat.add_right_comm, Nat.add_assoc]

/-- The nesting limit of data literals is exact and leaves no trace. Inside a number of levels a lexer
reads the values that the grammar without a limit reads and whose height still fits below the limit,
and finds nothing else. Behind the match the counter of levels stands at that number again. -/
theorem nestingLimit_exact {l : Lexer} (hl : l.registry = .standard) (hlevel : l.level = 0)
    (offset : Nat) {k : Nat} (hk : k ≤ nestingLimit) :
    ∃ found unlimited : Option Token,
      l.answer (Query.nested^[k] (.matchAt offset (some dataNames))) =
          Answer.nested^[k] (.matched (.ok found)) ∧
        ((Counting.nested (some nestingLimit))^[k] do
          let matched ← Counting.value (some nestingLimit) (.atOffset l.text offset)
          let depth ← get
          return some (matched, depth)).run 0 = (some (found, k), 0) ∧
        (∀ n fuel, (Cursor.atOffset l.text offset).rest.length < fuel →
          (Counting.valueWith none fuel (.atOffset l.text offset)).run n = (unlimited, n)) ∧
        ∀ t, found = some t ↔ unlimited = some t ∧ t.height + k ≤ nestingLimit := by
  generalize hc : Cursor.atOffset l.text offset = c
  -- A limit that no text of this length reaches stands in for none.
  let most := nestingLimit + c.rest.length
  let found := dataAt l.text l.index (Registry.standard.fuel nestingLimit l.text.length) k c
  let unlimited := dataWithin most l.text l.index (most + 1) 0 c
  have hfuel := lt_fuel l.text.length
  refine ⟨found, unlimited, ?_, ?_, fun n fuel hlength => ?_, fun t => ?_⟩
  · have hmatch := matchAt_dataNames (l := { l with level := k }) hl offset
    rw [hc] at hmatch
    rw [answer_nested_iterate (by rwa [hlevel, Nat.zero_add]), hlevel, Nat.zero_add, answer, hmatch]
  · refine Counting.Restores.nested_iterate (by rwa [Nat.zero_add]) ?_
    rw [Nat.zero_add]
    have hvalue : Counting.Restores k (Counting.value (some nestingLimit) c) found :=
      Counting.restores_valueWith rfl (Nat.lt_succ_self _) ((Nat.sub_le _ _).trans_lt hfuel)
    exact hvalue.bind (.bind (f := get) (a := k) rfl (.pure _))
  · have hleaves : Counting.Leaves none n (most - 0) c := Nat.le_add_left c.rest.length nestingLimit
    exact Counting.restores_valueWith hleaves hlength (Nat.lt_succ_self most)
  · have hexact : found = some t ↔ unlimited = some t ∧ t.height ≤ nestingLimit - k :=
      dataWithin_eq_some_iff (by omega) ((Nat.sub_le _ _).trans_lt hfuel) (Nat.lt_succ_self most)
    rw [hexact, Nat.le_sub_iff_add_le hk]

private def doubleArray : Lexer := Lexer.standard.load "[[1]]".toList

/-- One level below the limit an array of arrays is refused as a whole, and the inner array is read. -/
theorem nestingLimit_exact_doubleArray :
    255 ≤ nestingLimit ∧
      doubleArray.answer (Query.nested^[255] (.matchAt 0 (some dataNames))) =
        Answer.nested^[255] (.matched (.ok none)) ∧
      ∃ t, t.height = 1 ∧
        doubleArray.answer (Query.nested^[255] (.matchAt 1 (some dataNames))) =
          Answer.nested^[255] (.matched (.ok (some t))) := by
  have hk : 255 ≤ nestingLimit := by decide
  have hlimit : nestingLimit = 256 := rfl
  refine ⟨hk, ?_, ?_⟩
  · obtain ⟨found, unlimited, hanswer, -, hvalue, hfound⟩ :=
      nestingLimit_exact (l := doubleArray) rfl rfl 0 hk
    have hread : (((Counting.valueWith none 6 (.atOffset doubleArray.text 0)).run 0).1.any
        fun t => decide (t.height = 2)) = true := by
      decide +kernel
    rw [hvalue 0 6 (by decide)] at hread
    obtain ⟨t, rfl, ht⟩ := (Option.any_eq_true _ _).mp hread
    have hnone : found = none := by
      rw [Option.eq_none_iff_forall_ne_some]
      intro t' ht'
      obtain ⟨hsame, hheight⟩ := (hfound t').mp ht'
      obtain rfl := Option.some.inj hsame
      rw [of_decide_eq_true ht] at hheight
      omega
    rw [hanswer, hnone]
  · obtain ⟨found, unlimited, hanswer, -, hvalue, hfound⟩ :=
      nestingLimit_exact (l := doubleArray) rfl rfl 1 hk
    have hread : (((Counting.valueWith none 6 (.atOffset doubleArray.text 1)).run 0).1.any
        fun t => decide (t.height = 1)) = true := by
      decide +kernel
    rw [hvalue 0 6 (by decide)] at hread
    obtain ⟨t, rfl, ht⟩ := (Option.any_eq_true _ _).mp hread
    have hheight : t.height = 1 := of_decide_eq_true ht
    refine ⟨t, hheight, ?_⟩
    rw [hanswer, (hfound t).mpr ⟨rfl, by omega⟩]

end Lexer

end TemplateReader
