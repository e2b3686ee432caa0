import TemplateReader.Bytes.Document
import TemplateReader.Proofs.Bytes.Scan
import TemplateReader.Proofs.Bytes.Tree
import TemplateReader.Proofs.Template.Entries

/-!
# Documents by bytes and by characters

The run over the bytes of a whole text, from its first byte to the sorted
document with the imports of its scripts, never faults: it takes no byte out of
range, cuts no character in two, closes no brace that is not open and always
goes on further ahead. It ends with the document, or with the error, that the
reading by characters comes to.
-/

namespace TemplateReader.Bytes

private theorem elementImports_eq (e : Element) : elementImports e = .ok e.scriptImports := by
  rw [elementImports, Element.scriptImports]
  cases e.children with
  | nil => rfl
  | cons content _ => exact scan_eq _ _

private theorem classifyRoot_eq (d : Document) (t : Token) :
    classifyRoot d t = .ok (d.append t.rootEntry.document) := by
  cases t with
  | element e =>
    rw [classifyRoot, Token.rootEntry, Element.rootEntry]
    by_cases hlink : e.isComponentLink = true
    · rw [if_pos hlink, if_pos hlink]
      simp only [Document.append, RootEntry.document, List.append_nil, pure_eq_ok]
    rw [if_neg hlink, if_neg hlink]
    by_cases hscript : e.isInlineScript = true
    · rw [if_pos hscript, if_pos hscript, elementImports_eq]
      simp only [Document.append, RootEntry.document, List.append_nil, ok_bind, pure_eq_ok]
    rw [if_neg hscript, if_neg hscript]
    by_cases hstyle : e.isNamed "style" = true
    · rw [if_pos hstyle, if_pos hstyle]
      simp only [Document.append, RootEntry.document, List.append_nil, pure_eq_ok]
    · rw [if_neg hstyle, if_neg hstyle]
      simp only [Document.append, RootEntry.document, List.append_nil, pure_eq_ok]
  | literal | identifier | object | property | array | program | importDeclaration =>
    simp only [classifyRoot, Token.rootEntry, Document.append, RootEntry.document,
      List.append_nil, pure_eq_ok]

private theorem foldlM_classifyRoot (d : Document) (roots : List Token) :
    roots.foldlM classifyRoot d = .ok (d.append (Document.ofNodes roots)) := by
  induction roots generalizing d with
  | nil =>
    rw [List.foldlM_nil, pure_eq_ok]
    simp only [Document.append, Document.ofNodes, List.map_nil, List.filterMap_nil,
      List.flatMap_nil, List.append_nil]
  | cons t roots ih =>
    rw [List.foldlM_cons, classifyRoot_eq, ok_bind, ih, Document.ofNodes_cons]
    simp only [Document.append, List.append_assoc]

private theorem EndsAs.atRoot {s : List Char} {limit : Nat} {before : List Token} {c : Cursor}
    {run : Run (List Token × Nat)} (h : EndsAs s limit [] before c run) :
    (∃ roots stop, run = .ok (roots, stop) ∧ readOn limit [] before c = .ok roots) ∨
      ∃ e, run = .error (.refused e) ∧ readOn limit [] before c = .error e := by
  match run, h with
  | .error (.fault _), h => exact h.elim
  | .error (.refused e), h => exact Or.inr ⟨e, rfl, h⟩
  | .ok (roots, stop), h => exact Or.inl ⟨roots, stop, rfl, h⟩

/-- Over the bytes of every text, at every limit, the run ends without a fault: no index is out of
range, every slice lies between two boundaries of characters in order, the count of open braces
never falls below zero, and every loop and every recursion goes on further ahead. Its end is the
document or the error of the reading by characters. -/
theorem readDocument_ends (source : List Char) (limit : Nat) :
    (∃ d, readDocument source limit = .ok d ∧ Document.ofText source limit = .ok d) ∨
      ∃ e, readDocument source limit = .error (.refused e) ∧
        Document.ofText source limit = .error e := by
  have hends := (stands_atStart source).endsAs_nodes limit [] []
  rcases hends.atRoot with ⟨roots, stop, hrun, hroots⟩ | ⟨e, hrun, hroots⟩
  · change nodes source limit none 0 [] 0 0 = _ at hrun
    change templateNodes limit source = _ at hroots
    refine Or.inl ⟨Document.ofNodes roots, ?_, ?_⟩
    · rw [readDocument, hrun]
      exact foldlM_classifyRoot _ roots
    · rw [Document.ofText, hroots]
      rfl
  · change nodes source limit none 0 [] 0 0 = _ at hrun
    change templateNodes limit source = _ at hroots
    refine Or.inr ⟨e, ?_, ?_⟩
    · rw [readDocument, hrun]
      rfl
    · rw [Document.ofText, hroots]
      rfl

end TemplateReader.Bytes
