import Mathlib.Order.Bounds.Basic
import TemplateReader.Bytes.Script
import TemplateReader.Proofs.Bytes.Loop

/-!
# Ends of regular expressions

Behind its opening slash a regular expression ends with the first slash that is
neither escaped nor in a class, unless a line feed comes before it that is not
escaped. The search for the end never faults, on any bytes and from any offset,
and finds this end or none. An escaped line feed ends nothing, so a regular
expression with a backslash at the end of its line goes on in the next one.
-/

namespace TemplateReader.Bytes

/-- The byte at an index is escaped: before it stands a backslash behind the opening slash that is
not itself escaped. -/
def IsEscaped (bytes : List UInt8) (start : Nat) : Nat → Prop
  | 0 => False
  | i + 1 => start < i ∧ byteIn? bytes i = some '\\' ∧ ¬IsEscaped bytes start i

/-- Behind the opening slash a byte stands at an index, and nothing escapes it. -/
structure UnescapedAt (bytes : List UInt8) (start : Nat) (b : Char) (i : Nat) : Prop where
  behind : start < i
  byte : byteIn? bytes i = some b
  unescaped : ¬IsEscaped bytes start i

/-- An index is in a class: before it stands an opening bracket, and no closing one between. -/
def InClass (bytes : List UInt8) (start i : Nat) : Prop :=
  ∃ k < i, UnescapedAt bytes start '[' k ∧ ∀ j, k < j → j < i → ¬UnescapedAt bytes start ']' j

/-- At an index stands a slash that is neither escaped nor in a class. -/
structure ClosesRegex (bytes : List UInt8) (start i : Nat) : Prop where
  slash : UnescapedAt bytes start '/' i
  notInClass : ¬InClass bytes start i

/-- The regular expression that opens at `start` ends before `stop`: with its first closing slash,
and with every line feed in it escaped. -/
structure IsRegexEnd (bytes : List UInt8) (start stop : Nat) : Prop where
  last : ∃ last, stop = last + 1 ∧ IsLeast {i | ClosesRegex bytes start i} last
  behind : start + 2 ≤ stop
  inside : stop ≤ bytes.length
  line : ∀ i, start < i → i < stop → byteIn? bytes i = some '\n' → IsEscaped bytes start i

/-- Before every closing slash, if there is one, the line ends. -/
def LineEndsFirst (bytes : List UInt8) (start : Nat) : Prop :=
  ∀ last, ClosesRegex bytes start last → ∃ i < last, UnescapedAt bytes start '\n' i

/-- What would be found if no line feed could be escaped: an end with no line feed before it, or
nothing if before every closing slash stands a line feed. -/
def IsFoundInLine (bytes : List UInt8) (start : Nat) : Option Nat → Prop
  | some stop =>
    IsRegexEnd bytes start stop ∧ ∀ i, start < i → i < stop → byteIn? bytes i ≠ some '\n'
  | none => ∀ last, ClosesRegex bytes start last → ∃ i, start < i ∧ i < last ∧
    byteIn? bytes i = some '\n'

section

variable {bytes : List UInt8} {start stop i : Nat} {b c : Char} {inClass : Bool}

/-- An index with a byte is inside the bytes. -/
theorem lt_of_byteIn? (h : byteIn? bytes i = some b) : i < bytes.length := by
  rw [byteIn?, Option.map_eq_some_iff] at h
  obtain ⟨byte, hbyte, -⟩ := h
  exact (List.getElem?_eq_some_iff.mp hbyte).1

/-- The byte at an index where one stands unescaped is that one. -/
theorem UnescapedAt.eq (h : UnescapedAt bytes start b i) (hc : byteIn? bytes i = some c) : c = b :=
  Option.some.inj (hc.symm.trans h.byte)

/-- An index is in a class behind an opening bracket, and behind every other byte than a closing
bracket if that is in one. -/
theorem inClass_succ_iff :
    InClass bytes start (i + 1) ↔ UnescapedAt bytes start '[' i ∨
      InClass bytes start i ∧ ¬UnescapedAt bytes start ']' i := by
  constructor
  · rintro ⟨k, hk, hopen, hclosed⟩
    rcases Nat.lt_succ_iff_lt_or_eq.mp hk with hlt | rfl
    · have hbefore : ∀ j, k < j → j < i → ¬UnescapedAt bytes start ']' j :=
        fun j hkj hji => hclosed j hkj (Nat.lt_succ_of_lt hji)
      exact .inr ⟨⟨k, hlt, hopen, hbefore⟩, hclosed i hlt (Nat.lt_succ_self i)⟩
    · exact .inl hopen
  · rintro (hopen | ⟨⟨k, hk, hopen, hclosed⟩, hi⟩)
    · exact ⟨i, Nat.lt_succ_self i, hopen, fun j hij hj => absurd hj (by omega)⟩
    · refine ⟨k, Nat.lt_succ_of_lt hk, hopen, fun j hkj hj => ?_⟩
      rcases Nat.lt_succ_iff_lt_or_eq.mp hj with hlt | rfl
      · exact hclosed j hkj hlt
      · exact hi

/-- There is one end at most, and none where the line ends first. -/
theorem IsRegexEnd.unique {stop' : Nat} (h : IsRegexEnd bytes start stop)
    (h' : IsRegexEnd bytes start stop') : stop = stop' := by
  obtain ⟨last, rfl, hlast⟩ := h.last
  obtain ⟨last', rfl, hlast'⟩ := h'.last
  rw [hlast.unique hlast']

/-- A regular expression does not end where the line ends first. -/
theorem IsRegexEnd.not_lineEndsFirst (h : IsRegexEnd bytes start stop) :
    ¬LineEndsFirst bytes start := by
  intro hline
  obtain ⟨last, rfl, hlast, -⟩ := h.last
  obtain ⟨i, hi, hfeed⟩ := hline last hlast
  exact hfeed.unescaped (h.line i hfeed.behind (Nat.lt_succ_of_lt hi) hfeed.byte)

/-- What is escaped stands behind the opening slash. -/
theorem IsEscaped.start_lt (h : IsEscaped bytes start i) : start < i := by
  cases i with
  | zero => exact h.elim
  | succ i => exact Nat.lt_succ_of_lt h.1

/-- A turn of the search for the end of a regular expression goes by the byte at its index, and
skips the one behind a backslash. -/
theorem regexTurn_of_byteIn (hb : byteIn bytes i = .ok b) :
    regexTurn bytes i inClass =
      .ok (if b = '\\' then .next (i + 2) inClass
        else if b = '\n' then .done none
        else if b = '[' then .next (i + 1) true
        else if b = ']' then .next (i + 1) false
        else if b = '/' && !inClass then .done (some (i + 1))
        else .next (i + 1) inClass) := by
  have hi : i < bytes.length := by
    cases hbyte : byteIn? bytes i with
    | none =>
      rw [byteIn, hbyte] at hb
      cases hb
    | some b => exact lt_of_byteIn? hbyte
  simp only [regexTurn, hi, if_true, hb, ok_bind, pure_eq_ok]

/-- At the end of the bytes the search finds no end. -/
theorem regexTurn_end (hi : bytes.length ≤ i) : regexTurn bytes i inClass = .ok (.done none) := by
  rw [regexTurn, if_neg (Nat.not_lt.mpr hi)]
  rfl

/-- What the search knows at an offset: the byte there is not escaped, whether it is in a class, and
that neither a closing slash nor the end of the line stands before it. -/
structure RegexScan (bytes : List UInt8) (start i : Nat) (inClass : Bool) : Prop where
  behind : start < i
  unescaped : ¬IsEscaped bytes start i
  inClass : inClass = true ↔ InClass bytes start i
  slash : ∀ j < i, ¬ClosesRegex bytes start j
  line : ∀ j < i, ¬UnescapedAt bytes start '\n' j

/-- The search starts behind the opening slash, outside every class. -/
theorem regexScan_start (bytes : List UInt8) (start : Nat) :
    RegexScan bytes start (start + 1) false where
  behind := Nat.lt_succ_self start
  unescaped h := absurd h.1 (Nat.lt_irrefl start)
  inClass := by
    refine iff_of_false Bool.false_ne_true ?_
    rintro ⟨k, hk, hopen, -⟩
    exact absurd hopen.behind (Nat.not_lt.mpr (Nat.le_of_lt_succ hk))
  slash _ hj h := absurd h.slash.behind (Nat.not_lt.mpr (Nat.le_of_lt_succ hj))
  line _ hj h := absurd h.behind (Nat.not_lt.mpr (Nat.le_of_lt_succ hj))

namespace RegexScan

/-- The search gets over a byte that is neither a closing slash nor the end of the line. -/
theorem succ (h : RegexScan bytes start i inClass) (hb : byteIn? bytes i = some b)
    (hbackslash : b ≠ '\\') (hline : b ≠ '\n') (hslash : b ≠ '/' ∨ inClass = true)
    (inClass' : Bool) (hclass : inClass' = true ↔ b = '[' ∨ inClass = true ∧ b ≠ ']') :
    RegexScan bytes start (i + 1) inClass' := by
  have hat : ∀ c, UnescapedAt bytes start c i ↔ b = c := fun c =>
    ⟨fun hc => hc.eq hb, fun hc => ⟨h.behind, hc ▸ hb, h.unescaped⟩⟩
  refine ⟨Nat.lt_succ_of_lt h.behind, ?_, ?_, fun j hj hclose => ?_, fun j hj hfeed => ?_⟩
  · rintro ⟨-, hbyte, -⟩
    exact hbackslash (Option.some.inj (hb.symm.trans hbyte))
  · rw [hclass, inClass_succ_iff, hat, hat, h.inClass]
  · rcases Nat.lt_succ_iff_lt_or_eq.mp hj with hlt | rfl
    · exact h.slash j hlt hclose
    · rcases hslash with hne | hin
      · exact hne ((hat _).mp hclose.slash)
      · exact hclose.notInClass (h.inClass.mp hin)
  · rcases Nat.lt_succ_iff_lt_or_eq.mp hj with hlt | rfl
    · exact h.line j hlt hfeed
    · exact hline ((hat _).mp hfeed)

/-- It gets over a backslash together with the byte behind it, whatever that is. -/
theorem escape (h : RegexScan bytes start i inClass) (hb : byteIn? bytes i = some '\\') :
    RegexScan bytes start (i + 2) inClass := by
  have hescaped : IsEscaped bytes start (i + 1) := ⟨h.behind, hb, h.unescaped⟩
  have hat : ∀ j, i ≤ j → j < i + 2 → ∀ c, c ≠ '\\' → ¬UnescapedAt bytes start c j := by
    intro j hij hj c hc hunescaped
    obtain rfl | rfl : j = i ∨ j = i + 1 := by omega
    · exact hc (hunescaped.eq hb).symm
    · exact hunescaped.unescaped hescaped
  have hnot : ∀ j, i ≤ j → j < i + 2 → (InClass bytes start (j + 1) ↔ InClass bytes start j) := by
    intro j hij hj
    have hopen := hat j hij hj '[' (by decide)
    have hclose := hat j hij hj ']' (by decide)
    rw [inClass_succ_iff, or_iff_right hopen, and_iff_left hclose]
  refine ⟨Nat.lt_add_right 2 h.behind, fun htwo => htwo.2.2 hescaped, ?_, fun j hj hclose => ?_,
    fun j hj hfeed => ?_⟩
  · rw [hnot (i + 1) (by omega) (by omega), hnot i (by omega) (by omega), h.inClass]
  · rcases Nat.lt_or_ge j i with hlt | hle
    · exact h.slash j hlt hclose
    · exact hat j hle hj '/' (by decide) hclose.slash
  · rcases Nat.lt_or_ge j i with hlt | hle
    · exact h.line j hlt hfeed
    · exact hat j hle hj '\n' (by decide) hfeed

/-- Where the text ends, there is no closing slash. -/
theorem lineEndsFirst_of_length_le (h : RegexScan bytes start i inClass)
    (hi : bytes.length ≤ i) : LineEndsFirst bytes start := by
  intro last hlast
  have hlt : last < i := Nat.lt_of_lt_of_le (lt_of_byteIn? hlast.slash.byte) hi
  exact absurd hlast (h.slash last hlt)

/-- Where the line ends, every closing slash is behind it. -/
theorem lineEndsFirst_of_newline (h : RegexScan bytes start i inClass)
    (hb : byteIn? bytes i = some '\n') : LineEndsFirst bytes start := by
  intro last hlast
  refine ⟨i, ?_, h.behind, hb, h.unescaped⟩
  rcases Nat.lt_trichotomy last i with hlt | rfl | hlt
  · exact absurd hlast (h.slash last hlt)
  · cases hlast.slash.eq hb
  · exact hlt

/-- At a slash outside classes the regular expression ends. -/
theorem isRegexEnd (h : RegexScan bytes start i false) (hb : byteIn? bytes i = some '/') :
    IsRegexEnd bytes start (i + 1) where
  last := by
    refine ⟨i, rfl, ⟨⟨h.behind, hb, h.unescaped⟩, fun hclass => ?_⟩, fun j hj => ?_⟩
    · cases h.inClass.mpr hclass
    · exact Nat.not_lt.mp fun hlt => h.slash j hlt hj
  behind := Nat.succ_le_succ h.behind
  inside := lt_of_byteIn? hb
  line j hstart hj hbyte := by
    by_contra hescaped
    rcases Nat.lt_succ_iff_lt_or_eq.mp hj with hlt | rfl
    · exact h.line j hlt ⟨hstart, hbyte, hescaped⟩
    · cases hb.symm.trans hbyte

/-- One turn of the search ends it where the line ends or at the end of the regular expression, or
goes on forward. -/
theorem turn (h : RegexScan bytes start i inClass) :
    regexTurn bytes i inClass = .ok (.done none) ∧ LineEndsFirst bytes start ∨
      regexTurn bytes i inClass = .ok (.done (some (i + 1))) ∧ IsRegexEnd bytes start (i + 1) ∨
      ∃ j inClass', regexTurn bytes i inClass = .ok (.next j inClass') ∧ i < j ∧
        i < bytes.length ∧ RegexScan bytes start j inClass' := by
  cases hb : byteIn? bytes i with
  | none =>
    have hi : bytes.length ≤ i := by
      rwa [byteIn?, Option.map_eq_none_iff, List.getElem?_eq_none_iff] at hb
    exact .inl ⟨regexTurn_end hi, h.lineEndsFirst_of_length_le hi⟩
  | some b =>
    have hi := lt_of_byteIn? hb
    have hbyte : byteIn bytes i = .ok b := by rw [byteIn, hb]
    rw [regexTurn_of_byteIn hbyte]
    by_cases hbackslash : b = '\\'
    · subst hbackslash
      exact .inr (.inr ⟨i + 2, inClass, by rw [if_pos rfl], by omega, hi, h.escape hb⟩)
    by_cases hline : b = '\n'
    · subst hline
      exact .inl ⟨rfl, h.lineEndsFirst_of_newline hb⟩
    rw [if_neg hbackslash, if_neg hline]
    by_cases hopen : b = '['
    · subst hopen
      have hnext := h.succ hb (by decide) (by decide) (.inl (by decide)) true (by simp)
      exact .inr (.inr ⟨i + 1, true, rfl, Nat.lt_succ_self i, hi, hnext⟩)
    by_cases hclose : b = ']'
    · subst hclose
      have hnext := h.succ hb (by decide) (by decide) (.inl (by decide)) false (by simp)
      exact .inr (.inr ⟨i + 1, false, rfl, Nat.lt_succ_self i, hi, hnext⟩)
    rw [if_neg hopen, if_neg hclose]
    by_cases hend : (b = '/' && !inClass) = true
    · obtain ⟨hslash, hclass⟩ := Bool.and_eq_true_iff.mp hend
      obtain rfl := of_decide_eq_true hslash
      obtain rfl : inClass = false := by simpa using hclass
      exact .inr (.inl ⟨rfl, h.isRegexEnd hb⟩)
    · have hclass : b ≠ '/' ∨ inClass = true := by simpa [or_iff_not_imp_left] using hend
      have hnext := h.succ hb hbackslash hline hclass inClass (by simp [hopen, hclose])
      exact .inr (.inr ⟨i + 1, inClass, by rw [if_neg hend], Nat.lt_succ_self i, hi, hnext⟩)

end RegexScan

/-- From wherever the search has come, it gets to the end of the regular expression, or to nothing
if the line ends first. -/
theorem RegexScan.exists_loop (h : RegexScan bytes start i inClass) :
    ∃ found, loop bytes.length (regexTurn bytes) i inClass = .ok found ∧
      (∀ stop, found = some stop → IsRegexEnd bytes start stop) ∧
      (found = none → LineEndsFirst bytes start) := by
  induction hn : bytes.length - i using Nat.strongRecOn generalizing i inClass with
  | ind n ih =>
    rcases h.turn with ⟨hturn, hnone⟩ | ⟨hturn, hend⟩ | ⟨j, inClass', hturn, hij, hi, hnext⟩
    · exact ⟨none, loop_done hturn, nofun, fun _ => hnone⟩
    · refine ⟨some (i + 1), loop_done hturn, ?_, nofun⟩
      rintro stop ⟨⟩
      exact hend
    · rw [loop_next hturn hij hi]
      exact ih (bytes.length - j) (by omega) hnext rfl

/-- The search for the end of a regular expression comes to it, or to nothing exactly if the line
ends first. -/
theorem exists_regexEnd (bytes : List UInt8) (start : Nat) :
    ∃ found, regexEnd bytes start = .ok found ∧
      (∀ stop, found = some stop ↔ IsRegexEnd bytes start stop) ∧
      (found = none ↔ LineEndsFirst bytes start) := by
  obtain ⟨found, hrun, hend, hnone⟩ := (regexScan_start bytes start).exists_loop
  refine ⟨found, hrun, fun stop => ⟨hend stop, fun hstop => ?_⟩, hnone, fun hline => ?_⟩
  · cases found with
    | none => exact absurd (hnone rfl) hstop.not_lineEndsFirst
    | some stop' => rw [hstop.unique (hend stop' rfl)]
  · cases found with
    | none => rfl
    | some stop => exact absurd hline (hend stop rfl).not_lineEndsFirst

/-- What is found is what would be found if no line feed could be escaped, exactly if there is no
escaped line feed in the regular expression. -/
theorem isFoundInLine_iff {found : Option Nat}
    (hend : ∀ stop, found = some stop ↔ IsRegexEnd bytes start stop)
    (hnone : found = none ↔ LineEndsFirst bytes start) :
    IsFoundInLine bytes start found ↔
      ∀ stop i, IsRegexEnd bytes start stop → i < stop → byteIn? bytes i = some '\n' →
        ¬IsEscaped bytes start i := by
  cases found with
  | none =>
    refine iff_of_true (fun last hlast => ?_) fun stop i hstop => ?_
    · obtain ⟨i, hi, hfeed⟩ := hnone.mp rfl last hlast
      exact ⟨i, hfeed.behind, hi, hfeed.byte⟩
    · cases (hend stop).mpr hstop
  | some found =>
    have hfound := (hend found).mp rfl
    constructor
    · rintro ⟨-, hline⟩ stop i hstop hi hbyte hescaped
      rw [hstop.unique hfound] at hi
      exact hline i hescaped.start_lt hi hbyte
    · intro hline
      refine ⟨hfound, fun i hstart hi hbyte => ?_⟩
      exact hline found i hfound hi hbyte (hfound.line i hstart hi hbyte)

end

end TemplateReader.Bytes
