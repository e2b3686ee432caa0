import Mathlib.Order.Bounds.Basic
import TemplateReader.Delimiter.Boundary
import TemplateReader.Proofs.Bytes.Delimiter
import TemplateReader.Proofs.Bytes.Lexer

/-!
# One automaton for quotes, braces and tags

The three searches for the end of a construct call one another and jump: over a
quoted run, over a braced run, over the byte behind a backslash. An automaton
that reads one byte at a time, from left to right, finds the same ends. Its
state is the quote that stands open, whether the byte before escapes the next
one, and how many braces stand open.
-/

namespace TemplateReader.Bytes

/-- The bytes of a text, each as the character of its number. -/
def bytes (s : List Char) : List Char := (utf8 s).map fun b => Char.ofNat b.toNat

/-- What the automaton knows of the bytes it has read. -/
structure OpenState where
  /-- The quote that stands open. -/
  quote : Option Char
  /-- Whether the last byte is a backslash in the quoted run that escapes the next one. -/
  escaped : Bool
  /-- How many braces stand open. -/
  depth : Nat
deriving DecidableEq, Repr

namespace OpenState

/-- The quotes that open a quoted run: inside braces the backtick is one of them. -/
def opens (depth : Nat) (b : Char) : Bool :=
  if depth = 0 then isTagQuote b else isScriptQuote b

/-- Reads one byte. -/
def step : OpenState → Char → OpenState
  | ⟨some quote, true, depth⟩, _ => ⟨some quote, false, depth⟩
  | ⟨some quote, false, depth⟩, b =>
    if b = '\\' then ⟨some quote, true, depth⟩
    else if b = quote then ⟨none, false, depth⟩
    else ⟨some quote, false, depth⟩
  | ⟨none, _, depth⟩, b =>
    if opens depth b then ⟨some b, false, depth⟩
    else if b = '{' then ⟨none, false, depth + 1⟩
    else if b = '}' then ⟨none, false, depth - 1⟩
    else ⟨none, false, depth⟩

end OpenState

/-- The constructs whose ends the automaton finds. -/
inductive Search where
  /-- A quoted run. -/
  | quote
  /-- A program in braces. -/
  | program
  /-- A tag. -/
  | tag
deriving DecidableEq, Repr

namespace Search

/-- The state behind the first byte of the construct, if that byte begins one. -/
def start? : Search → Char → Option OpenState
  | quote, b => if isScriptQuote b then some ⟨some b, false, 0⟩ else none
  | program, b => if b = '{' then some ⟨none, false, 1⟩ else none
  | tag, b => if b = '<' then some ⟨none, false, 0⟩ else none

/-- The byte that ends the construct: the quote that stands open, unescaped; the brace that leaves
none open, outside quotes; and `>` outside quotes and braces. -/
def isLast : Search → OpenState → Char → Bool
  | quote, σ, b => !σ.escaped && σ.quote = some b
  | program, σ, b => σ.quote = none && σ.depth = 1 && b = '}'
  | tag, σ, b => σ.quote = none && σ.depth = 0 && b = '>'

/-- How many bytes the automaton reads until it has read the last one of the construct. -/
def length? (k : Search) : OpenState → List Char → Option Nat
  | _, [] => none
  | σ, b :: bytes => if k.isLast σ b then some 1 else (k.length? (σ.step b) bytes).map (· + 1)

/-- The offset just past the construct, from a state in which the automaton is at an offset. -/
def scan (k : Search) (s : List Char) (σ : OpenState) (i : Nat) : Option Nat :=
  (k.length? σ ((bytes s).drop i)).map (i + ·)

/-- The offset just past the construct that begins at an offset. -/
def stop? (k : Search) (s : List Char) (start : Nat) : Option Nat :=
  ((byte? s start).bind k.start?).bind fun σ => k.scan s σ (start + 1)

/-- Whether the byte at `i` ends the construct, when the automaton is in a state at `start`. -/
def LastAt (k : Search) (s : List Char) (σ : OpenState) (start i : Nat) : Prop :=
  ∃ b, byte? s i = some b ∧
    k.isLast ((((bytes s).drop start).take (i - start)).foldl OpenState.step σ) b

/-- The search over the bytes for the end of the construct. -/
def find : Search → List Char → Nat → Run (Option Nat)
  | quote => findQuote
  | program => findProgram
  | tag => findMarkup

/-- The construct as the search by characters names it. -/
def boundary : Search → Boundary
  | quote => .quote
  | program => .program
  | tag => .tag

end Search

section

variable {s text rest : List Char} {b quote : Char} {i j n depth depth' : Nat} {escaped : Bool}
  {k : Search} {σ : OpenState}

/-- The byte at an offset is the element of the list of bytes with that index. -/
theorem byte?_eq_getElem? : byte? s i = (bytes s)[i]? := by
  rw [bytes, List.getElem?_map, byte?, byteIn?]

private theorem byte?_of_byteAt (h : byteAt s i = .ok b) : byte? s i = some b := by
  unfold byteAt at h
  split at h
  · next hb => rw [hb, Except.ok.inj h]
  · cases h

private theorem byteInduction {P : Nat → Prop} (hend : ∀ i, byteSize s ≤ i → P i)
    (hbyte : ∀ i b, byteAt s i = .ok b → (∀ j, i < j → P j) → P i) (i : Nat) : P i := by
  induction hn : byteSize s - i using Nat.strongRecOn generalizing i with
  | ind n ih =>
    cases hb : byte? s i with
    | none => exact hend i (byte?_eq_none_iff.mp hb)
    | some b =>
      have hbyteAt : byteAt s i = .ok b := by rw [byteAt, hb]
      have hlt := lt_of_byteAt hbyteAt
      exact hbyte i b hbyteAt fun j hj => ih (byteSize s - j) (by omega) j rfl

private theorem drop_bytes_end (h : byteSize s ≤ i) : (bytes s).drop i = [] := by
  rw [List.drop_eq_nil_iff, bytes, List.length_map, length_utf8]
  exact h

private theorem drop_bytes_of_byteAt (h : byteAt s i = .ok b) :
    (bytes s).drop i = b :: (bytes s).drop (i + 1) := by
  have hb := byte?_of_byteAt h
  rw [byte?_eq_getElem?, List.getElem?_eq_some_iff] at hb
  obtain ⟨hi, hb⟩ := hb
  rw [List.drop_eq_getElem_cons hi, hb]

namespace Search

/-- Behind the end of the text the automaton finds nothing. -/
theorem scan_end (h : byteSize s ≤ i) : k.scan s σ i = none := by
  rw [scan, drop_bytes_end h]
  rfl

/-- With the byte at an offset the automaton ends, or it is one step on at the next offset. -/
theorem scan_of_byteAt (h : byteAt s i = .ok b) :
    k.scan s σ i = if k.isLast σ b then some (i + 1) else k.scan s (σ.step b) (i + 1) := by
  rw [scan, drop_bytes_of_byteAt h, length?]
  split
  · rfl
  · rw [scan, Option.map_map]
    congr 1
    funext n
    exact Nat.add_right_comm i n 1

/-- The automaton ends behind the offset at which it is started. -/
theorem lt_of_scan (h : k.scan s σ i = some j) : i < j := by
  induction i using byteInduction (s := s) generalizing σ with
  | hend i hi => rw [scan_end hi] at h; cases h
  | hbyte i b hb ih =>
    rw [scan_of_byteAt hb] at h
    split at h
    · exact Option.some.inj h ▸ Nat.lt_succ_self i
    · exact Nat.lt_of_succ_lt (ih _ (Nat.lt_succ_self i) h)

private theorem isLast_quoted (hk : k ≠ .quote) :
    k.isLast ⟨some quote, escaped, depth⟩ b = false := by
  cases k with
  | quote => exact absurd rfl hk
  | program => rfl
  | tag => rfl

/-- Inside a quoted run, a program or a tag first comes to where the quoted run ends. -/
theorem scan_quoted (hk : k ≠ .quote) (hquote : quote ≠ '\\') :
    k.scan s ⟨some quote, escaped, depth⟩ i =
      (Search.quote.scan s ⟨some quote, escaped, depth'⟩ i).bind fun j =>
        k.scan s ⟨none, false, depth⟩ j := by
  induction i using byteInduction (s := s) generalizing escaped with
  | hend i hi => rw [scan_end hi, scan_end hi, Option.bind_none]
  | hbyte i b hb ih =>
    have hnext (escaped : Bool) := @ih (i + 1) (Nat.lt_succ_self i) escaped
    rw [scan_of_byteAt hb, scan_of_byteAt hb, isLast_quoted hk, if_neg Bool.false_ne_true]
    cases escaped with
    | true => exact hnext false
    | false =>
      by_cases hlast : b = quote
      · subst hlast
        simp [isLast, OpenState.step, hquote]
      · have hmore : Search.quote.isLast ⟨some quote, false, depth'⟩ b = false := by
          simp [isLast, Ne.symm hlast]
        rw [hmore, if_neg Bool.false_ne_true]
        by_cases hslash : b = '\\'
        · simp only [OpenState.step, hslash, if_true]
          exact hnext true
        · simp only [OpenState.step, hslash, hlast, if_false]
          exact hnext false

private theorem step_of_isLast_program (h : Search.program.isLast σ b = true) :
    σ.step b = ⟨none, false, 0⟩ := by
  obtain ⟨quote, escaped, depth⟩ := σ
  simp only [isLast, Bool.and_eq_true, decide_eq_true_eq] at h
  obtain ⟨⟨rfl, rfl⟩, rfl⟩ := h
  rfl

private theorem depth_step_pos (hσ : 0 < σ.depth) (hlast : Search.program.isLast σ b = false) :
    0 < (σ.step b).depth := by
  obtain ⟨quote, escaped, depth⟩ := σ
  cases quote with
  | some quote =>
    cases escaped with
    | true => exact hσ
    | false =>
      rw [OpenState.step]
      split_ifs <;> exact hσ
  | none =>
    simp only [isLast, decide_true, Bool.true_and, Bool.and_eq_false_iff,
      decide_eq_false_iff_not] at hlast
    dsimp only at hσ
    rw [OpenState.step]
    split_ifs with _ _ hbrace
    · exact hσ
    · exact Nat.succ_pos depth
    · have hdepth := hlast.resolve_right (not_not_intro hbrace)
      exact Nat.sub_pos_of_lt (by omega)
    · exact hσ

/-- Inside braces, a tag first comes to where the outermost of them closes. -/
theorem scan_braced (hσ : 0 < σ.depth) :
    Search.tag.scan s σ i =
      (Search.program.scan s σ i).bind fun j => Search.tag.scan s ⟨none, false, 0⟩ j := by
  induction i using byteInduction (s := s) generalizing σ with
  | hend i hi => rw [scan_end hi, scan_end hi, Option.bind_none]
  | hbyte i b hb ih =>
    have hmore : Search.tag.isLast σ b = false := by
      simp [isLast, Nat.ne_of_gt hσ]
    rw [scan_of_byteAt hb, scan_of_byteAt hb, hmore, if_neg Bool.false_ne_true]
    cases hlast : Search.program.isLast σ b with
    | true => rw [step_of_isLast_program hlast, if_pos rfl, Option.bind_some]
    | false =>
      rw [if_neg Bool.false_ne_true]
      exact ih (i + 1) (Nat.lt_succ_self i) (depth_step_pos hσ hlast)

private theorem ne_backslash_of_isScriptQuote (h : isScriptQuote b = true) : b ≠ '\\' := by
  rintro rfl
  exact absurd h (by decide)

private theorem scan_escaped (hquote : quote ≠ '\\') (hb : byteAt s i = .ok '\\') :
    Search.quote.scan s ⟨some quote, false, depth⟩ i =
      Search.quote.scan s ⟨some quote, false, depth⟩ (i + 2) := by
  have hmore : Search.quote.isLast ⟨some quote, false, depth⟩ '\\' = false := by
    simp [isLast, hquote]
  have hstep : OpenState.step ⟨some quote, false, depth⟩ '\\' = ⟨some quote, true, depth⟩ := rfl
  rw [scan_of_byteAt hb, hmore, if_neg Bool.false_ne_true, hstep]
  cases hnext : byte? s (i + 1) with
  | none =>
    have hend := byte?_eq_none_iff.mp hnext
    rw [scan_end hend, scan_end (Nat.le_succ_of_le hend)]
  | some b =>
    have hnext : byteAt s (i + 1) = .ok b := by rw [byteAt, hnext]
    rw [scan_of_byteAt hnext]
    rfl

private theorem quoteLoop_eq (hquote : isScriptQuote quote = true) :
    loop (byteSize s) (quoteTurn s quote) i () =
      .ok (Search.quote.scan s ⟨some quote, false, 0⟩ i) := by
  have hne := ne_backslash_of_isScriptQuote hquote
  induction i using byteInduction (s := s) with
  | hend i hi =>
    rw [scan_end hi]
    exact loop_done (quoteTurn_end hi)
  | hbyte i b hb ih =>
    have hturn := @quoteTurn_of_byteAt s quote i b hb
    have hlt := lt_of_byteAt hb
    by_cases hslash : b = '\\'
    · subst hslash
      rw [if_pos rfl] at hturn
      rw [loop_next hturn (by omega) hlt, scan_escaped hne hb]
      exact ih (i + 2) (by omega)
    · rw [if_neg hslash] at hturn
      rw [scan_of_byteAt hb]
      by_cases hlast : b = quote
      · subst hlast
        rw [if_pos rfl] at hturn
        rw [loop_done hturn, if_pos (by simp [isLast])]
      · rw [if_neg hlast] at hturn
        have hstep : OpenState.step ⟨some quote, false, 0⟩ b = ⟨some quote, false, 0⟩ := by
          simp only [OpenState.step, hslash, hlast, if_false]
        rw [loop_next hturn (Nat.lt_succ_self i) hlt, if_neg (by simp [isLast, Ne.symm hlast]),
          hstep]
        exact ih (i + 1) (Nat.lt_succ_self i)

/-- The search for the end of a quoted run finds what the automaton for quotes finds. -/
theorem findQuote_eq : findQuote s i = .ok (Search.quote.stop? s i) := by
  rw [findQuote, stop?]
  cases byte? s i with
  | none => rfl
  | some b =>
    dsimp only [Option.bind_some, start?]
    split
    · next hb => exact quoteLoop_eq hb
    · rfl

private theorem stop?_of_isScriptQuote (hquote : isScriptQuote b = true)
    (hb : byteAt s i = .ok b) :
    Search.quote.stop? s i = Search.quote.scan s ⟨some b, false, 0⟩ (i + 1) := by
  rw [stop?, byte?_of_byteAt hb, Option.bind_some, start?, if_pos hquote, Option.bind_some]

private theorem scan_opens (hk : k ≠ .quote) (hopens : OpenState.opens depth b = true)
    (hquote : isScriptQuote b = true) (hb : byteAt s i = .ok b) :
    k.scan s ⟨none, false, depth⟩ i =
      (Search.quote.stop? s i).bind fun j => k.scan s ⟨none, false, depth⟩ j := by
  have hmore : k.isLast ⟨none, false, depth⟩ b = false := by
    cases k with
    | quote => exact absurd rfl hk
    | program =>
      have hne : b ≠ '}' := by
        rintro rfl
        exact absurd hquote (by decide)
      simp [isLast, hne]
    | tag =>
      have hne : b ≠ '>' := by
        rintro rfl
        exact absurd hquote (by decide)
      simp [isLast, hne]
  have hstep : OpenState.step ⟨none, false, depth⟩ b = ⟨some b, false, depth⟩ := if_pos hopens
  rw [scan_of_byteAt hb, hmore, if_neg Bool.false_ne_true, hstep,
    scan_quoted hk (ne_backslash_of_isScriptQuote hquote), stop?_of_isScriptQuote hquote hb]

private theorem lt_of_stop? (h : k.stop? s i = some j) : i < j := by
  simp only [stop?, Option.bind_eq_some_iff] at h
  obtain ⟨σ, -, hscan⟩ := h
  exact Nat.lt_of_succ_lt (lt_of_scan hscan)

private theorem loop_over {α : Type} {turn : Nat → α → Run (Turn α (Option Nat))} {state : α}
    {found : Nat → Option Nat} (hi : i < byteSize s)
    (hturn : turn i state = (match k.stop? s i with
      | none => .ok (.done none)
      | some j => .ok (.next j state)))
    (hrest : ∀ j, i < j → loop (byteSize s) turn j state = .ok (found j)) :
    loop (byteSize s) turn i state = .ok ((k.stop? s i).bind found) := by
  cases hstop : k.stop? s i with
  | none =>
    rw [hstop] at hturn
    exact loop_done hturn
  | some j =>
    rw [hstop] at hturn
    rw [loop_next hturn (lt_of_stop? hstop) hi]
    exact hrest j (lt_of_stop? hstop)

private theorem programLoop_eq :
    loop (byteSize s) (programTurn s) i (depth + 1) =
      .ok (Search.program.scan s ⟨none, false, depth + 1⟩ i) := by
  induction i using byteInduction (s := s) generalizing depth with
  | hend i hi =>
    rw [scan_end hi]
    apply loop_done
    rw [programTurn, if_neg (Nat.not_lt.mpr hi)]
    rfl
  | hbyte i b hb ih =>
    have hturn := @programTurn_of_byteAt s i (depth + 1) b hb
    have hlt := lt_of_byteAt hb
    by_cases hquote : isScriptQuote b = true
    · have hopens : OpenState.opens (depth + 1) b = true := hquote
      rw [if_pos hquote, findQuote_eq, ok_bind] at hturn
      rw [scan_opens (by decide) hopens hquote hb]
      exact loop_over hlt hturn fun j hj => ih j hj
    · have hopens : ¬OpenState.opens (depth + 1) b = true := hquote
      have hnext (depth : Nat) := @ih (i + 1) (Nat.lt_succ_self i) depth
      rw [if_neg hquote] at hturn
      rw [scan_of_byteAt hb, OpenState.step, if_neg hopens]
      by_cases hopen : b = '{'
      · subst hopen
        rw [loop_next hturn (Nat.lt_succ_self i) hlt, if_neg (by simp [isLast]), if_pos rfl]
        exact hnext (depth + 1)
      · by_cases hclose : b = '}'
        · subst hclose
          rw [if_neg hopen, if_pos rfl, minus_eq (Nat.succ_pos depth), ok_bind] at hturn
          cases depth with
          | zero => exact loop_done hturn
          | succ depth =>
            rw [loop_next hturn (Nat.lt_succ_self i) hlt]
            exact hnext depth
        · rw [if_neg hopen, if_neg hclose] at hturn
          rw [loop_next hturn (Nat.lt_succ_self i) hlt, if_neg (by simp [isLast, hclose]),
            if_neg hopen, if_neg hclose]
          exact hnext depth

/-- The search for the end of a program finds what the automaton for braces finds. -/
theorem findProgram_eq : findProgram s i = .ok (Search.program.stop? s i) := by
  rw [findProgram, stop?]
  cases hb : byte? s i with
  | none => rfl
  | some b =>
    by_cases hopen : b = '{'
    · subst hopen
      have hbyte : byteAt s i = .ok '{' := by rw [byteAt, hb]
      have hturn : programTurn s i 0 = .ok (.next (i + 1) (0 + 1)) := programTurn_of_byteAt hbyte
      rw [if_pos rfl, loop_next hturn (Nat.lt_succ_self i) (lt_of_byteAt hbyte)]
      exact programLoop_eq
    · rw [if_neg (fun h => hopen (Option.some.inj h)), Option.bind_some, start?, if_neg hopen]
      rfl

private theorem markupLoop_eq :
    loop (byteSize s) (markupTurn s) i () = .ok (Search.tag.scan s ⟨none, false, 0⟩ i) := by
  induction i using byteInduction (s := s) with
  | hend i hi =>
    rw [scan_end hi]
    apply loop_done
    rw [markupTurn, if_neg (Nat.not_lt.mpr hi)]
    rfl
  | hbyte i b hb ih =>
    have hturn := markupTurn_of_byteAt hb
    have hlt := lt_of_byteAt hb
    by_cases hquote : isTagQuote b = true
    · have hopens : OpenState.opens 0 b = true := hquote
      rw [if_pos hquote, findQuote_eq, ok_bind] at hturn
      rw [scan_opens (by decide) hopens (isScriptQuote_of_isTagQuote hquote) hb]
      exact loop_over hlt hturn fun j hj => ih j hj
    · have hopens : ¬OpenState.opens 0 b = true := hquote
      rw [if_neg hquote] at hturn
      by_cases hopen : b = '{'
      · subst hopen
        have hstep : Search.tag.scan s ⟨none, false, 0⟩ i =
            (Search.program.stop? s i).bind fun j => Search.tag.scan s ⟨none, false, 0⟩ j := by
          rw [scan_of_byteAt hb, stop?, byte?_of_byteAt hb]
          exact scan_braced Nat.one_pos
        rw [if_pos rfl, findProgram_eq, ok_bind] at hturn
        rw [hstep]
        exact loop_over hlt hturn fun j hj => ih j hj
      · rw [if_neg hopen] at hturn
        rw [scan_of_byteAt hb]
        by_cases hend : b = '>'
        · subst hend
          exact loop_done hturn
        · have hstep : OpenState.step ⟨none, false, 0⟩ b = ⟨none, false, 0⟩ := by
            simp [OpenState.step, hopens, hopen]
          rw [if_neg hend] at hturn
          rw [loop_next hturn (Nat.lt_succ_self i) hlt, if_neg (by simp [isLast, hend]), hstep]
          exact ih (i + 1) (Nat.lt_succ_self i)

/-- The search for the end of a tag finds what the automaton for tags finds. -/
theorem findMarkup_eq : findMarkup s i = .ok (Search.tag.stop? s i) := by
  rw [findMarkup, stop?]
  cases hb : byte? s i with
  | none => rfl
  | some b =>
    by_cases hopen : b = '<'
    · subst hopen
      rw [if_pos rfl]
      exact markupLoop_eq
    · rw [if_neg (fun h => hopen (Option.some.inj h)), Option.bind_some, start?, if_neg hopen]
      rfl

/-- Each search over the bytes finds what the automaton finds, and never goes wrong. -/
theorem search_eq : k.find s i = .ok (k.stop? s i) := by
  cases k with
  | quote => exact findQuote_eq
  | program => exact findProgram_eq
  | tag => exact findMarkup_eq

private theorem start?_of_isWide (hb : IsWide b) : k.start? b = none := by
  cases k with
  | quote => exact if_neg (Bool.eq_false_iff.mp (isNarrow_isScriptQuote b hb))
  | program => exact if_neg (hb.ne (by decide))
  | tag => exact if_neg (hb.ne (by decide))

private theorem stop?_of_start?_eq_none (h : b :: text <:+ s) (hb : k.start? b = none) :
    k.stop? s (place s (b :: text)) = none := by
  obtain ⟨c, hc, hlike⟩ := exists_byteAt_place h
  have hstart : k.start? c = none := by
    rcases hlike with rfl | ⟨hwide, -⟩
    · exact hb
    · exact start?_of_isWide hwide
  rw [stop?, byte?_of_byteAt hc, Option.bind_some, hstart, Option.bind_none]

private theorem rest?_of_start?_eq_none (hb : k.start? b = none) :
    k.boundary.rest? (b :: text) = none := by
  cases k with
  | quote =>
    have hquote : ¬isScriptQuote b = true := by
      intro hquote
      rw [start?, if_pos hquote] at hb
      cases hb
    exact if_neg hquote
  | program =>
    have hne : b ≠ '{' := by
      rintro rfl
      cases hb
    simp [boundary, Boundary.rest?, hne]
  | tag =>
    have hne : b ≠ '<' := by
      rintro rfl
      cases hb
    simp [boundary, Boundary.rest?, hne]

private theorem of_start?_eq_some (hb : k.start? b = some σ) :
    k = .quote ∧ isScriptQuote b = true ∨ k = .program ∧ b = '{' ∨ k = .tag ∧ b = '<' := by
  cases k with
  | quote =>
    rw [start?, Option.ite_none_right_eq_some] at hb
    exact Or.inl ⟨rfl, hb.1⟩
  | program =>
    rw [start?, Option.ite_none_right_eq_some] at hb
    exact Or.inr (Or.inl ⟨rfl, hb.1⟩)
  | tag =>
    rw [start?, Option.ite_none_right_eq_some] at hb
    exact Or.inr (Or.inr ⟨rfl, hb.1⟩)

private theorem find_place (h : b :: text <:+ s) (hb : k.start? b = some σ) :
    k.find s (place s (b :: text)) =
      .ok ((k.boundary.rest? (b :: text)).map fun rest => place s rest) := by
  rcases of_start?_eq_some hb with ⟨rfl, hquote⟩ | ⟨rfl, rfl⟩ | ⟨rfl, rfl⟩
  · rw [find, findQuote_place hquote h, boundary, Boundary.rest?, if_pos hquote, Option.map_map]
    rfl
  · rw [find, findProgram_place h, boundary, Boundary.rest?, Option.map_map]
    rfl
  · rw [find, findMarkup_place h, boundary, Boundary.rest?, Option.map_map]
    rfl

private theorem suffix_of_rest? (hb : k.start? b = some σ)
    (h : k.boundary.rest? (b :: text) = some rest) : rest <:+ b :: text := by
  rcases of_start?_eq_some hb with ⟨rfl, hquote⟩ | ⟨rfl, rfl⟩ | ⟨rfl, rfl⟩
  · rw [boundary, Boundary.rest?, if_pos hquote, Option.map_eq_some_iff] at h
    obtain ⟨⟨inner, rest⟩, hs, rfl⟩ := h
    exact ⟨_, (quoted_append hs).symm⟩
  · rw [boundary, Boundary.rest?, Option.map_eq_some_iff] at h
    obtain ⟨⟨inner, rest⟩, hs, rfl⟩ := h
    exact ⟨_, (braced_append hs).symm⟩
  · rw [boundary, Boundary.rest?] at h
    cases hs : splitTag text with
    | error fault =>
      rw [hs] at h
      cases h
    | ok p =>
      rw [hs] at h
      obtain rfl := Option.some.inj h
      rw [eq_append_of_splitTag hs]
      exact ⟨'<' :: p.1 ++ ['>'], by simp⟩

/-- The searches by characters find, at every offset, what the automaton finds. -/
theorem boundary_stop?_eq : k.boundary.stop? (.atOffset s i) = k.stop? s i := by
  rcases exists_place_or_isWide s i with ⟨text, htext, rfl⟩ | ⟨hsplit, hwide⟩
  · rw [atOffset_place htext, Boundary.stop?]
    cases text with
    | nil =>
      have hbyte : byte? s (byteSize s) = none := byte?_eq_none_iff.mpr (Nat.le_refl _)
      have hrest : k.boundary.rest? [] = none := by cases k <;> rfl
      rw [hrest, stop?, place_nil, hbyte]
      rfl
    | cons b text =>
      cases hb : k.start? b with
      | none =>
        rw [rest?_of_start?_eq_none hb, stop?_of_start?_eq_none htext hb]
        rfl
      | some σ =>
        have hfind := find_place htext hb
        rw [search_eq] at hfind
        rw [Except.ok.inj hfind]
        apply Option.map_congr
        intro rest hrest
        obtain ⟨front, hfront⟩ := suffix_of_rest? hb hrest
        rw [seek_eq_advance hfront.symm, Cursor.advance, ← hfront]
        rw [← hfront] at htext
        exact (place_append htext).symm
  · have hcursor : Cursor.atOffset s i = ⟨i, []⟩ := by rw [Cursor.atOffset, hsplit]; rfl
    have hrest : k.boundary.rest? [] = none := by cases k <;> rfl
    rw [hcursor, Boundary.stop?, hrest, stop?]
    cases hb : byte? s i with
    | none => rfl
    | some b =>
      rw [Option.bind_some, start?_of_isWide (hwide b hb)]
      rfl

private theorem take_bytes_of_byteAt (hb : byteAt s i = .ok b) (hij : i < j) :
    ((bytes s).drop i).take (j - i) = b :: ((bytes s).drop (i + 1)).take (j - (i + 1)) := by
  have hsub : j - i = j - (i + 1) + 1 := by omega
  rw [drop_bytes_of_byteAt hb, hsub, List.take_succ_cons]

private theorem lastAt_step_iff (hb : byteAt s i = .ok b) (hij : i < j) :
    k.LastAt s σ i j ↔ k.LastAt s (σ.step b) (i + 1) j := by
  rw [LastAt, LastAt, take_bytes_of_byteAt hb hij, List.foldl_cons]

private theorem lastAt_self_iff (hb : byteAt s i = .ok b) :
    k.LastAt s σ i i ↔ k.isLast σ b = true := by
  simp [LastAt, byte?_of_byteAt hb]

/-- The byte that ends a construct is one of the text. -/
theorem LastAt.lt (h : k.LastAt s σ i j) : j < byteSize s := by
  obtain ⟨b, hb, -⟩ := h
  rw [← Nat.not_le, ← byte?_eq_none_iff, hb]
  exact Option.some_ne_none b

/-- The automaton stops behind the first byte that ends the construct. -/
theorem scan_eq_some_iff {stop : Nat} :
    k.scan s σ i = some stop ↔
      ∃ last, stop = last + 1 ∧ IsLeast {j | i ≤ j ∧ k.LastAt s σ i j} last := by
  induction i using byteInduction (s := s) generalizing σ with
  | hend i hi =>
    rw [scan_end hi]
    constructor
    · intro h
      cases h
    · rintro ⟨last, -, ⟨hle, hlast⟩, -⟩
      exact absurd hlast.lt (Nat.not_lt.mpr (Nat.le_trans hi hle))
  | hbyte i b hb ih =>
    rw [scan_of_byteAt hb]
    by_cases hlast : k.isLast σ b = true
    · have hleast : IsLeast {j | i ≤ j ∧ k.LastAt s σ i j} i :=
        ⟨⟨Nat.le_refl i, (lastAt_self_iff hb).mpr hlast⟩, fun j hj => hj.1⟩
      rw [if_pos hlast]
      constructor
      · intro h
        exact ⟨i, (Option.some.inj h).symm, hleast⟩
      · rintro ⟨last, rfl, hother⟩
        rw [hleast.unique hother]
    · have hset : {j | i ≤ j ∧ k.LastAt s σ i j} =
          {j | i + 1 ≤ j ∧ k.LastAt s (σ.step b) (i + 1) j} := by
        ext j
        constructor
        · rintro ⟨hij, hj⟩
          rcases Nat.eq_or_lt_of_le hij with rfl | hlt
          · exact absurd ((lastAt_self_iff hb).mp hj) hlast
          · exact ⟨hlt, (lastAt_step_iff hb hlt).mp hj⟩
        · rintro ⟨hij, hj⟩
          exact ⟨Nat.le_of_lt hij, (lastAt_step_iff hb hij).mpr hj⟩
      rw [if_neg hlast, ih (i + 1) (Nat.lt_succ_self i), hset]

/-- The automaton does not stop exactly if no byte ends the construct. -/
theorem scan_eq_none_iff : k.scan s σ i = none ↔ ∀ j, i ≤ j → ¬k.LastAt s σ i j := by
  constructor
  · intro hnone
    induction i using byteInduction (s := s) generalizing σ with
    | hend i hi =>
      intro j hij hj
      exact absurd hj.lt (Nat.not_lt.mpr (Nat.le_trans hi hij))
    | hbyte i b hb ih =>
      rw [scan_of_byteAt hb] at hnone
      split at hnone
      · cases hnone
      · next hlast =>
        intro j hij hj
        rcases Nat.eq_or_lt_of_le hij with rfl | hlt
        · exact hlast ((lastAt_self_iff hb).mp hj)
        · exact ih (i + 1) (Nat.lt_succ_self i) hnone j hlt ((lastAt_step_iff hb hlt).mp hj)
  · intro hnone
    rw [Option.eq_none_iff_forall_ne_some]
    intro stop hstop
    obtain ⟨last, -, ⟨hle, hlast⟩, -⟩ := scan_eq_some_iff.mp hstop
    exact hnone last hle hlast

/-- The searches for the end of a quoted run, a program and a tag are one automaton: over the bytes
and by characters, each finds at every offset what the automaton finds. That is the offset just
past the first byte that ends the construct, and nothing if no construct begins at the offset or
the text ends before. -/
theorem find_eq_automaton (k : Search) (s : List Char) (start : Nat) :
    k.find s start = .ok (k.stop? s start) ∧
      k.boundary.stop? (.atOffset s start) = k.stop? s start ∧
      (∀ stop, k.stop? s start = some stop ↔
        ∃ σ last, (byte? s start).bind k.start? = some σ ∧ stop = last + 1 ∧
          IsLeast {i | start < i ∧ k.LastAt s σ (start + 1) i} last) ∧
      (k.stop? s start = none ↔
        (byte? s start).bind k.start? = none ∨
          ∃ σ, (byte? s start).bind k.start? = some σ ∧
            ∀ i, start < i → ¬k.LastAt s σ (start + 1) i) := by
  refine ⟨search_eq, boundary_stop?_eq, ?_, ?_⟩
  · intro stop
    rw [stop?, Option.bind_eq_some_iff]
    constructor
    · rintro ⟨σ, hstart, hscan⟩
      obtain ⟨last, hstop, hleast⟩ := scan_eq_some_iff.mp hscan
      exact ⟨σ, last, hstart, hstop, hleast⟩
    · rintro ⟨σ, last, hstart, hstop, hleast⟩
      exact ⟨σ, hstart, scan_eq_some_iff.mpr ⟨last, hstop, hleast⟩⟩
  · rw [stop?]
    cases hstart : (byte? s start).bind k.start? with
    | none => exact iff_of_true rfl (Or.inl rfl)
    | some σ =>
      rw [Option.bind_some, scan_eq_none_iff]
      constructor
      · intro hnone
        exact Or.inr ⟨σ, rfl, hnone⟩
      · rintro (hnone | ⟨σ, hσ, hnone⟩)
        · cases hnone
        · obtain rfl := Option.some.inj hσ
          exact hnone

/-- An escaped quote does not close its run, and a `>` in the run does not end the tag. -/
example : Search.tag.stop? "<p t='\\'>' >x".toList 0 = some 12 := by decide

end Search

end

end TemplateReader.Bytes
