import Mathlib.Data.List.Pairwise
import TemplateReader.Proofs.Template.Stretch

/-!
# Tilings

The nodes of a sequence lie one behind the other in its text. When some blank
texts among them are left out, those that remain still do, and what they leave
uncovered is blank. For the root of a template this is seen through the sorted
entries of its document: put back in order, their spans tile the source.
-/

namespace TemplateReader

/-- The spans lie one behind the other in a text at an offset. None is empty, and the stretches
before, between and behind them are gaps. -/
inductive Tiled (gap : List Char → Prop) : Nat → List Span → List Char → Prop
  | nil {k : Nat} {text : List Char} (hgap : gap text) : Tiled gap k [] text
  | cons {k : Nat} {between covered rest : List Char} {spans : List Span} (hgap : gap between)
    (hcovered : covered ≠ []) (hrest : Tiled gap (k + byteSize (between ++ covered)) spans rest) :
    Tiled gap k (⟨k + byteSize between, k + byteSize (between ++ covered)⟩ :: spans)
      (between ++ (covered ++ rest))

section

variable {gap : List Char → Prop} {k : Nat} {spans : List Span} {text x : List Char}

/-- A gap in front of a tiled text leaves it tiled. -/
theorem Tiled.append_gap (happend : ∀ a b, gap a → gap b → gap (a ++ b)) (hx : gap x)
    (h : Tiled gap (k + byteSize x) spans text) : Tiled gap k spans (x ++ text) := by
  cases h with
  | nil hgap => exact .nil (happend _ _ hx hgap)
  | cons hgap hcovered hrest =>
    have hfront := Tiled.cons (happend _ _ hx hgap) hcovered
      (by simpa only [byteSize_append, Nat.add_assoc] using hrest)
    simpa only [byteSize_append, Nat.add_assoc, List.append_assoc] using hfront

/-- No tile begins before the text does. -/
theorem Tiled.le_start (h : Tiled gap k spans text) {s : Span} (hs : s ∈ spans) : k ≤ s.start := by
  induction h with
  | nil => cases hs
  | cons hgap hcovered hrest ih =>
    rcases List.mem_cons.mp hs with rfl | hs
    · exact Nat.le_add_right _ _
    · exact Nat.le_trans (Nat.le_add_right _ _) (ih hs)

/-- Each tile begins behind the start of the one before. -/
theorem Tiled.pairwise_start (h : Tiled gap k spans text) :
    spans.Pairwise fun s s' => s.start < s'.start := by
  induction h with
  | nil => exact List.Pairwise.nil
  | cons hgap hcovered hrest ih =>
    refine List.Pairwise.cons ?_ ih
    intro s hs
    have hle := hrest.le_start hs
    have hpos := byteSize_pos hcovered
    rw [byteSize_append] at hle
    dsimp only
    omega

end

/-- The nodes of a sequence tile its text, also when some of its texts are taken as gaps. -/
theorem Reads.tiled {limit depth k : Nat} {text : List Char} {nodes : List Token}
    (h : Reads limit depth k text nodes) (gap : List Char → Prop) (keep : Token → Bool)
    (hnil : gap []) (happend : ∀ a b, gap a → gap b → gap (a ++ b))
    (hkeep : ∀ t, keep t = false → ∃ l, t = .literal l ∧ gap l.raw.toList) :
    Tiled gap k ((nodes.filter keep).map Token.span) text := by
  induction nodes generalizing k text with
  | nil =>
    rw [h.text_eq_nil]
    exact .nil hnil
  | cons t nodes ih =>
    obtain ⟨x, rest, rfl, ht, hrest⟩ := h.uncons
    cases hk : keep t with
    | true =>
      rw [List.filter_cons, if_pos hk, List.map_cons, ht.span_eq]
      exact @Tiled.cons gap k [] x rest _ hnil ht.ne_nil (ih hrest)
    | false =>
      obtain ⟨l, rfl, hgap⟩ := hkeep t hk
      have hx : gap x := by
        rw [ht.literal_eq] at hgap
        simpa only [Literal.ofText, String.toList_ofList] using hgap
      rw [List.filter_cons, if_neg (by rw [hk]; exact Bool.false_ne_true)]
      exact (ih hrest).append_gap happend hx

/-- Where an entry stands. -/
def RootEntry.span : RootEntry → Span
  | .component e => e.span
  | .script block _ => block.span
  | .style block => block.span
  | .markup t => t.span

/-- An entry stands where its node stands. -/
theorem Token.span_rootEntry (t : Token) : t.rootEntry.span = t.span := by
  have hof := t.rootEntry_isOf
  cases he : t.rootEntry with
  | component e =>
    rw [he] at hof
    rw [show t = .element e from hof]
    rfl
  | script block imports =>
    rw [he] at hof
    obtain ⟨e, rfl, rfl, -⟩ := hof
    rfl
  | style block =>
    rw [he] at hof
    obtain ⟨e, rfl, rfl⟩ := hof
    rfl
  | markup t' =>
    rw [he] at hof
    rw [show t' = t from hof]
    rfl

namespace Document

/-- The spans of the root entries, one collection after the other. -/
def entrySpans (d : Document) : List Span :=
  d.components.map Element.span ++ (d.scripts.map RawBlock.span ++
    (d.styles.map RawBlock.span ++ d.markup.map Token.span))

/-- The spans of the root entries in the order in which they begin. -/
def sortedSpans (d : Document) : List Span :=
  d.entrySpans.mergeSort fun s s' => s.start ≤ s'.start

/-- The document of one entry spans what the entry spans. -/
theorem entrySpans_document (entry : RootEntry) : entry.document.entrySpans = [entry.span] := by
  cases entry <;> rfl

/-- The entries span what the root nodes span. -/
theorem entrySpans_perm (roots : List Token) :
    (ofNodes roots).entrySpans.Perm (roots.map Token.span) := by
  induction roots with
  | nil => exact List.Perm.refl _
  | cons t roots ih =>
    have happend : (ofNodes (t :: roots)).entrySpans.Perm
        (t.rootEntry.document.entrySpans ++ (ofNodes roots).entrySpans) := by
      rw [ofNodes_cons, List.perm_iff_count]
      intro s
      simp only [entrySpans, append, List.map_append, List.count_append]
      omega
    rw [entrySpans_document, Token.span_rootEntry] at happend
    exact happend.trans (ih.cons t.span)

/-- Put in order, the entries span what the root nodes span one after the other. -/
theorem sortedSpans_eq {roots : List Token}
    (h : (roots.map Token.span).Pairwise fun s s' => s.start < s'.start) :
    (ofNodes roots).sortedSpans = roots.map Token.span := by
  have hperm : (ofNodes roots).sortedSpans.Perm (roots.map Token.span) :=
    (List.mergeSort_perm _ _).trans (entrySpans_perm roots)
  have hsorted : (ofNodes roots).sortedSpans.Pairwise
      fun s s' => decide (s.start ≤ s'.start) = true := by
    refine List.pairwise_mergeSort ?_ ?_ _
    · intro a b c hab hbc
      exact decide_eq_true (Nat.le_trans (of_decide_eq_true hab) (of_decide_eq_true hbc))
    · intro a b
      simpa only [Bool.or_eq_true, decide_eq_true_eq] using Nat.le_total a.start b.start
  have hdistinct : (roots.map Token.span).Pairwise fun s s' => s.start ≠ s'.start :=
    h.imp Nat.ne_of_lt
  refine List.Perm.eq_of_pairwise ?_ hsorted (h.imp fun hlt => decide_eq_true (Nat.le_of_lt hlt))
    hperm
  intro s s' hs hs' hle hge
  by_contra hne
  have : Std.Symm fun s s' : Span => s.start ≠ s'.start := ⟨fun _ _ => Ne.symm⟩
  refine hdistinct.forall (hperm.subset hs) hs' hne ?_
  exact Nat.le_antisymm (of_decide_eq_true hle) (of_decide_eq_true hge)

/-- Whatever is collected from the entries of nodes in order is in order. -/
theorem pairwise_filterMap {α : Type} {roots : List Token} (collect? : RootEntry → Option α)
    (span : α → Span) (hspan : ∀ entry a, collect? entry = some a → span a = entry.span)
    (h : (roots.map Token.span).Pairwise fun s s' => s.start < s'.start) :
    ((roots.map Token.rootEntry).filterMap collect?).Pairwise
      fun a a' => (span a).start < (span a').start := by
  have hentries : (roots.map Token.rootEntry).Pairwise
      fun entry entry' => entry.span.start < entry'.span.start := by
    rw [List.pairwise_map] at h ⊢
    simpa only [Token.span_rootEntry] using h
  refine hentries.filterMap collect? ?_
  intro entry entry' hlt a ha a' ha'
  rwa [hspan entry a ha, hspan entry' a' ha']

end Document

end TemplateReader
