import Mathlib.Logic.Basic
import Mathlib.Tactic.SplitIfs
import TemplateReader.Proofs.Offset.Move
import TemplateReader.Proofs.Template.Entries

/-!
# Reading at other offsets

A reader looks only at the characters that remain, and counts its offsets from
the one of its cursor. Started `k` bytes later on the same characters, each
reader of a template comes to the same outcome, `k` bytes later. The lemmas
follow the readers from the attributes up to the pieces of a text, the tree
that is grown from them and the imports of a script.
-/

namespace TemplateReader

variable (k : Nat)

/-- The cursor with `k` more bytes before it. -/
def Cursor.shift (c : Cursor) : Cursor := ⟨c.offset + k, c.rest⟩

@[simp] theorem Cursor.rest_shift (c : Cursor) : (c.shift k).rest = c.rest := rfl

@[simp] theorem Cursor.offset_shift (c : Cursor) : (c.shift k).offset = c.offset + k := rfl

/-- Shifting a cursor and advancing it may be done in either order. -/
theorem Cursor.advance_shift (c : Cursor) (taken rest : List Char) :
    (c.shift k).advance taken rest = (c.advance taken rest).shift k := by
  simp only [Cursor.advance, Cursor.shift, Cursor.mk.injEq, and_true]
  omega

/-- Shifting a cursor and seeking a part may be done in either order. -/
theorem Cursor.seek_shift (c : Cursor) (rest : List Char) :
    (c.shift k).seek rest = (c.seek rest).shift k := by
  simp only [Cursor.seek, Cursor.shift, Cursor.mk.injEq, and_true]
  omega

/-- Shifting a cursor and skipping characters may be done in either order. -/
theorem Cursor.skipWhile_shift (p : Char → Bool) (c : Cursor) :
    (c.shift k).skipWhile p = (c.skipWhile p).shift k :=
  c.advance_shift k _ _

/-- The span between shifted cursors is the span between the cursors, moved. -/
theorem Cursor.spanTo_shift (c d : Cursor) :
    (c.shift k).spanTo (d.shift k) = (c.spanTo d).move (· + k) := rfl

/-- An outcome `k` bytes later, given how its value moves. -/
def shifted {α : Type} (move : α → α) : Except TemplateError α → Except TemplateError α
  | .ok a => .ok (move a)
  | .error e => .error (e.move (· + k))

/-- Outcomes one after the other move together. -/
theorem shifted_bind {α β : Type} {g : α → α} {h : β → β}
    {next next' : α → Except TemplateError β}
    (hnext : ∀ a, next' (g a) = shifted k h (next a)) (r : Except TemplateError α) :
    (shifted k g r >>= next') = shifted k h (r >>= next) := by
  cases r with
  | error e => rfl
  | ok a => exact hnext a

/-- A literal at a shifted offset is the literal, moved. -/
theorem Literal.ofText_shift (start : Nat) (text : List Char) :
    Literal.ofText (start + k) text = (Literal.ofText start text).move (· + k) := by
  simp only [Literal.ofText, Literal.move, Span.move, Literal.mk.injEq, Span.mk.injEq, true_and]
  omega

/-- A span with a shifted start is the span, moved. -/
theorem shiftedSpan_eq (start n : Nat) :
    (⟨start + k, start + k + n⟩ : Span) = Span.move (· + k) ⟨start, start + n⟩ := by
  simp only [Span.move, Span.mk.injEq, true_and]
  omega

private theorem openProgramError_shift (offset : Nat) :
    openProgramError (offset + k) = (openProgramError offset).move (· + k) := by
  simp only [openProgramError, shiftedSpan_eq]
  rfl

private theorem bracedAttribute_shift (span : Span) (inner : List Char) :
    bracedAttribute (span.move (· + k)) inner = (bracedAttribute span inner).move (· + k) := by
  have hstart : (span.move (· + k)).start + 1 + (byteSize inner - byteSize (trimStart inner)) =
      span.start + 1 + (byteSize inner - byteSize (trimStart inner)) + k := by
    simp only [Span.move]
    omega
  unfold bracedAttribute
  dsimp only
  split
  · rfl
  · rw [hstart, shiftedSpan_eq]
    rfl

/-- Further on in a text, an attribute in braces is the same, moved. -/
theorem readBraced_shift (c : Cursor) (text : List Char) :
    readBraced (c.shift k) text =
      shifted k (Prod.map (Property.move (· + k)) (Cursor.shift k)) (readBraced c text) := by
  unfold readBraced
  split
  · exact congrArg _ (openProgramError_shift k _)
  · simp only [Cursor.seek_shift, Cursor.spanTo_shift, bracedAttribute_shift]
    rfl

/-- Further on in a text, the value of an attribute is the same, moved. -/
theorem readAttributeValue_shift (c : Cursor) :
    readAttributeValue (c.shift k) =
      shifted k (Prod.map (Token.move (· + k)) (Cursor.shift k)) (readAttributeValue c) := by
  unfold readAttributeValue
  rw [Cursor.rest_shift]
  split
  · rw [Cursor.offset_shift, Literal.ofText_shift]
    rfl
  · split
    · split
      · rw [Cursor.offset_shift, shiftedSpan_eq]
        rfl
      · simp only [Cursor.seek_shift, Cursor.spanTo_shift]
        rfl
    · split
      · split
        · exact congrArg _ (openProgramError_shift k _)
        · simp only [Cursor.seek_shift, Cursor.spanTo_shift]
          rfl
      · rw [Cursor.skipWhile_shift, Cursor.offset_shift, Literal.ofText_shift]
        rfl

/-- A property with a moved key and a moved value is the property, moved. -/
theorem Property.plain_shift (name : String) (span : Span) (value : Token) :
    Property.plain ⟨name, span.move (· + k)⟩ (value.move (· + k)) =
      (Property.plain ⟨name, span⟩ value).move (· + k) := by
  simp only [Property.plain, Property.move, Token.span_move, Identifier.move, Option.map_some,
    Span.move]

/-- Further on in a text, an attribute with a name is the same, moved. -/
theorem readNamed_shift (c : Cursor) :
    readNamed (c.shift k) =
      shifted k (Prod.map (Property.move (· + k)) (Cursor.shift k)) (readNamed c) := by
  unfold readNamed
  simp only [Cursor.skipWhile_shift, Cursor.rest_shift, Cursor.spanTo_shift, Cursor.advance_shift,
    readAttributeValue_shift]
  split
  · cases readAttributeValue _ with
    | error e => rfl
    | ok r => exact congrArg (fun p => Except.ok (p, r.2.shift k)) (Property.plain_shift k _ _ r.1)
  · have hvalue := Property.plain_shift k (String.ofList (c.rest.takeWhile isAttributeNameChar))
      (c.spanTo (c.skipWhile isAttributeNameChar))
      (.literal ⟨.boolean true, String.ofList (c.rest.takeWhile isAttributeNameChar), false,
        c.spanTo (c.skipWhile isAttributeNameChar)⟩)
    exact congrArg (fun p => Except.ok (p, (c.skipWhile isAttributeNameChar).shift k)) hvalue

/-- Further on in a text, the attributes are the same, moved. -/
theorem readAttributes_shift (c : Cursor) :
    readAttributes (c.shift k) =
      shifted k (Prod.map (List.map (Property.move (· + k))) id) (readAttributes c) := by
  induction h : c.rest.length using Nat.strongRecOn generalizing c with
  | ind n ih =>
    have hle := c.length_skipWhile_le isSpace
    have hnext (r : Property × Cursor) (hlt : r.2.rest.length < n) :
        (do
          let s ← readAttributes (r.2.shift k)
          return (r.1.move (· + k) :: s.1, s.2)) =
        shifted k (Prod.map (List.map (Property.move (· + k))) id) (do
          let s ← readAttributes r.2
          return (r.1 :: s.1, s.2)) := by
      rw [ih _ hlt r.2 rfl]
      refine shifted_bind k (fun s => ?_) _
      rfl
    rw [readAttributes_eq, readAttributes_eq c]
    simp only [Cursor.skipWhile_shift, Cursor.rest_shift]
    split
    · rfl
    · next ch text hs =>
      split
      · next hb =>
        rw [readBraced_shift]
        cases hr : readBraced (c.skipWhile isSpace) text with
        | error e => rfl
        | ok r =>
          have hlt := length_lt_of_readBraced (hb ▸ hs) hr
          exact hnext r (by omega)
      · split
        · next hn =>
          rw [readNamed_shift]
          cases hr : readNamed (c.skipWhile isSpace) with
          | error e => rfl
          | ok r =>
            have hlt := length_lt_of_readNamed hs hn hr
            exact hnext r (by omega)
        · split
          · rfl
          · rw [Cursor.advance_shift]
            refine ih _ ?_ _ rfl
            have hlen := congrArg List.length hs
            rw [List.length_cons] at hlen
            change text.length < n
            omega

private theorem attributeObject_shift (nameEnd : Nat) (properties : List Property) :
    attributeObject (nameEnd + k) (properties.map (Property.move (· + k))) =
      (attributeObject nameEnd properties).move (· + k) := by
  unfold attributeObject
  rw [List.head?_map, List.getLast?_map]
  cases properties.head? with
  | none => simp only [Option.map_none, Object.move, moveProperties_eq_map, Span.move]
  | some first =>
    cases properties.getLast? with
    | none =>
      simp only [Option.map_some, Option.map_none, Object.move, moveProperties_eq_map, Span.move]
    | some last =>
      simp only [Option.map_some, Object.move, moveProperties_eq_map, Span.move,
        Property.span_move]

private theorem openTagError_shift (start : Nat) (text : List Char) (fault : TagFault) :
    openTagError (start + k) text fault = (openTagError start text fault).move (· + k) := by
  cases fault with
  | openQuote before =>
    have hoffset : start + k + 1 + byteSize before = start + 1 + byteSize before + k := by omega
    simp only [openTagError, hoffset, shiftedSpan_eq]
    rfl
  | openBrace before =>
    have hoffset : start + k + 1 + byteSize before = start + 1 + byteSize before + k := by omega
    simp only [openTagError, hoffset, openProgramError_shift]
  | noEnd =>
    simp only [openTagError, Nat.add_assoc (start + k), shiftedSpan_eq]
    simp only [Nat.add_assoc]
    rfl

/-- Further on in a text, a tag is the same. -/
theorem readTag_shift (c : Cursor) (text : List Char) :
    readTag (c.shift k) text = shifted k (Prod.map id (Cursor.shift k)) (readTag c text) := by
  unfold readTag
  split
  · rw [Cursor.advance_shift]
    rfl
  · exact congrArg _ (openTagError_shift k _ _ _)

private theorem verbatim_shift (c : Cursor) (text : List Char) :
    verbatim (c.shift k) text = (verbatim c text).move (· + k) :=
  congrArg (fun l => Piece.node (.literal l)) (Literal.ofText_shift k _ _)

/-- Further on in a text, what a tag comes to is the same, moved. -/
theorem finishTag_shift (c after : Cursor) (name : List Char) (attributes : Object)
    (closesItself : Bool) :
    finishTag (c.shift k) (after.shift k) name (attributes.move (· + k)) closesItself =
      shifted k (Prod.map (Piece.move (· + k)) (Cursor.shift k))
        (finishTag c after name attributes closesItself) := by
  unfold finishTag
  split
  · rfl
  · split
    · rw [Cursor.rest_shift]
      split
      · rfl
      · next content rest _ =>
        simp only [Cursor.seek_shift, Cursor.spanTo_shift, Cursor.offset_shift,
          Literal.ofText_shift, shifted, Prod.map, Piece.move, Token.move, Element.move,
          moveTokens_eq_map]
        split <;> rfl
    · rfl

/-- A piece is read at other offsets as it is read where it stands. -/
theorem readPiece_shift (c : Cursor) :
    readPiece (c.shift k) =
      shifted k (Prod.map (Piece.move (· + k)) (Cursor.shift k)) (readPiece c) := by
  unfold readPiece
  rw [Cursor.rest_shift]
  split
  · unfold readComment
    split
    · rw [Cursor.offset_shift, shiftedSpan_eq]
      rfl
    · simp only [verbatim_shift, Cursor.advance_shift]
      rfl
  · rw [readCloseTag, readTag_shift]
    refine shifted_bind k (fun r => ?_) _
    rfl
  · rw [readDeclaration, readTag_shift]
    refine shifted_bind k (fun r => ?_) _
    simp only [Prod.map, verbatim_shift]
    rfl
  · rw [readElement, readTag_shift]
    refine shifted_bind k (fun r => ?_) _
    simp only [Prod.map, id_eq, Cursor.advance_shift, readAttributes_shift]
    refine shifted_bind k (fun s => ?_) _
    simp only [Cursor.offset_shift, Prod.map, attributeObject_shift, finishTag_shift, id_eq]
  · unfold readProgram
    split
    · exact congrArg _ (openProgramError_shift k _)
    · simp only [Cursor.advance_shift, Cursor.spanTo_shift]
      rfl
  · simp only [verbatim_shift, Cursor.advance_shift]
    rfl

/-- The pieces of a text, and the error that ends them, move with the text. -/
theorem piecesFrom_shift (c : Cursor) :
    piecesFrom (c.shift k) =
      ((piecesFrom c).1.map (Piece.move (· + k)),
        (piecesFrom c).2.map (TemplateError.move (· + k))) := by
  induction h : c.rest.length using Nat.strongRecOn generalizing c with
  | ind n ih =>
    rw [piecesFrom_eq, piecesFrom_eq c, Cursor.rest_shift]
    split
    · rfl
    · next hc =>
      rw [readPiece_shift]
      cases hr : readPiece c with
      | error e => rfl
      | ok r =>
        have hlt := length_lt_of_readPiece hc hr
        simp only [shifted, Prod.map]
        rw [ih _ (h ▸ hlt) r.2 rfl]
        rfl

private theorem OpenElement.unclosedError_shift (o : OpenElement) :
    (o.move (· + k)).unclosedError = o.unclosedError.move (· + k) := by
  simp only [OpenElement.unclosedError, OpenElement.move, OpenTag.move, Span.move, Nat.add_assoc,
    Nat.add_comm k]
  simp only [TemplateError.move, TemplateFault.move, Span.move, Nat.add_assoc]

/-- The tree of pieces moves with them. -/
theorem growTree_shift (limit : Nat) (fault : Option TemplateError) (stack : List OpenElement)
    (nodes : List Token) (pieces : List Piece) :
    growTree limit (fault.map (TemplateError.move (· + k))) (stack.map (OpenElement.move (· + k)))
        (nodes.map (Token.move (· + k))) (pieces.map (Piece.move (· + k))) =
      shifted k (List.map (Token.move (· + k))) (growTree limit fault stack nodes pieces) := by
  induction pieces generalizing stack nodes with
  | nil =>
    cases fault with
    | some e => cases stack <;> rfl
    | none =>
      cases stack with
      | nil =>
        simp only [List.map_nil, Option.map_none, growTree, shifted, ← List.map_reverse,
          dropRootBlanks_move]
      | cons o stack => exact congrArg _ (OpenElement.unclosedError_shift k o)
  | cons piece pieces ih =>
    cases piece with
    | node t => exact ih stack (t :: nodes)
    | openTag tag =>
      simp only [List.map_cons, Piece.move, growTree, List.length_map]
      split
      · rfl
      · exact ih (⟨tag, nodes⟩ :: stack) []
    | closeTag name span =>
      cases stack with
      | nil => rfl
      | cons o stack =>
        have hclose : (o.move (· + k)).close (nodes.map (Token.move (· + k))).reverse
              (span.move (· + k)).stop :: (o.move (· + k)).before =
            (o.close nodes.reverse span.stop :: o.before).map (Token.move (· + k)) := by
          rw [← List.map_reverse, List.map_cons, ← OpenElement.close_move]
          rfl
        simp only [List.map_cons, Piece.move, growTree, hclose]
        change (if eqIgnoreCase o.tag.name name = true then _ else _) = _
        split
        · exact ih stack (o.close nodes.reverse span.stop :: o.before)
        · rfl

/-- The same step at other offsets. -/
def ScriptStep.shift (s : ScriptStep) : ScriptStep :=
  ⟨s.found.map (Import.move (· + k)), s.state, s.after.shift k⟩

private theorem slashStep_shift (s : ScriptState) (c : Cursor) (text : List Char) :
    slashStep s (c.shift k) text = (slashStep s c text).shift k := by
  unfold slashStep
  split
  · rw [Cursor.skipWhile_shift]
    rfl
  · rw [Cursor.seek_shift]
    rfl
  · simp only [Cursor.advance_shift, Cursor.seek_shift]
    split <;> rfl

private theorem wordStep_shift (s : ScriptState) (c : Cursor) :
    wordStep s (c.shift k) = (wordStep s c).shift k := by
  unfold wordStep
  simp only [Cursor.skipWhile_shift, Cursor.seek_shift, Cursor.spanTo_shift]
  change (if (s.statementStart && decide (c.rest.takeWhile isWordChar = "import".toList)) = true
    then _ else _) = _
  by_cases h : (s.statementStart && c.rest.takeWhile isWordChar = "import".toList) = true
  · rw [if_pos h, if_pos h, Cursor.rest_shift]
    split <;> rfl
  · rw [if_neg h, if_neg h]
    rfl

private theorem scriptStep_shift (s : ScriptState) (c : Cursor) (ch : Char) (text : List Char) :
    scriptStep s (c.shift k) ch text = (scriptStep s c ch text).shift k := by
  unfold scriptStep
  simp only [Cursor.advance_shift, Cursor.seek_shift, Cursor.skipWhile_shift, slashStep_shift,
    wordStep_shift]
  split_ifs <;> rfl

private theorem importsFrom_shift (s : ScriptState) (c : Cursor) :
    importsFrom s (c.shift k) = (importsFrom s c).map (Import.move (· + k)) := by
  induction h : c.rest.length using Nat.strongRecOn generalizing s c with
  | ind n ih =>
    rw [importsFrom_eq, importsFrom_eq s c, Cursor.rest_shift]
    split
    · rfl
    · next ch text hc =>
      have hlt := length_scriptStep_lt (s := s) hc
      rw [scriptStep_shift, List.map_append]
      have hrest := ih _ (h ▸ hlt) (scriptStep s c ch text).state _ rfl
      have hfound : ((scriptStep s c ch text).shift k).found.toList =
          (scriptStep s c ch text).found.toList.map (Import.move (· + k)) := by
        unfold ScriptStep.shift
        cases (scriptStep s c ch text).found <;> rfl
      rw [hfound, ← hrest]
      rfl

/-- A script that begins `k` bytes later has the same imports, `k` bytes later. -/
theorem scriptImports_shift (start : Nat) (script : List Char) :
    scriptImports (start + k) script =
      (scriptImports start script).map (Import.move (· + k)) :=
  importsFrom_shift k .fresh ⟨start, script⟩

/-- The same entry at other offsets. -/
def RootEntry.move (f : Nat → Nat) : RootEntry → RootEntry
  | .component e => .component (e.move f)
  | .script block imports => .script (block.move f) (imports.map (Import.move f))
  | .style block => .style (block.move f)
  | .markup t => .markup (t.move f)

private theorem Element.scriptImports_shift (e : Element) :
    (e.move (· + k)).scriptImports = e.scriptImports.map (Import.move (· + k)) := by
  unfold Element.scriptImports
  rw [Element.rawContent_move, Element.children_move]
  cases e.children with
  | nil => rfl
  | cons t ts =>
    rw [List.map_cons]
    dsimp only
    rw [Token.span_move]
    exact TemplateReader.scriptImports_shift k _ _

/-- A root node is for the same wherever it stands. -/
theorem Token.rootEntry_shift (t : Token) :
    (t.move (· + k)).rootEntry = t.rootEntry.move (· + k) := by
  cases t with
  | element e =>
    simp only [Token.move, Token.rootEntry, Element.rootEntry, Element.isComponentLink_move,
      Element.isInlineScript_move, Element.isNamed_move, Element.rawBlock_move,
      Element.scriptImports_shift]
    split_ifs <;> rfl
  | literal | identifier | object | property | array | program | importDeclaration => rfl

/-- The document of nodes at other offsets is their document, moved. -/
theorem Document.ofNodes_shift (nodes : List Token) :
    Document.ofNodes (nodes.map (Token.move (· + k))) = (Document.ofNodes nodes).move (· + k) := by
  induction nodes with
  | nil => rfl
  | cons t ts ih =>
    rw [List.map_cons, Document.ofNodes_cons, Document.ofNodes_cons, Token.rootEntry_shift, ih]
    cases t.rootEntry <;> simp [RootEntry.document, RootEntry.move, Document.append, Document.move]

end TemplateReader
