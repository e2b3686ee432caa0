import TemplateReader.Proofs.Template.Stretch

/-!
# Nodes at other offsets

What is read from a text at an offset is what is read from it at any other,
with its own offsets as far from the one as from the other. So nodes that
stand behind a stretch of a template can be taken as nodes at the start of
their own text, moved to where the stretch ends.
-/

namespace TemplateReader

variable {limit depth k j : Nat} {x text name : List Char} {p : Piece} {t : Token} {tag : OpenTag}
  {span : Span} {nodes : List Token}

/-- A construct is the same construct `j` bytes later. -/
theorem Construct.shift (h : Construct k x p) (j : Nat) :
    Construct (k + j) x (p.move (· + j)) := by
  obtain ⟨hopens, hread⟩ := h.read []
  rw [List.append_nil] at hopens hread
  have hshift := readPiece_shift j ⟨k, x⟩
  rw [hread] at hshift
  obtain ⟨y, hy, -, hconstruct⟩ := construct_of_readPiece (c := Cursor.shift j ⟨k, x⟩) hopens hshift
  obtain rfl : x = y := hy.trans (List.append_nil y)
  exact hconstruct

/-- A construct `j` bytes later is one where it would stand without them. -/
theorem Construct.exists_base (h : Construct (k + j) x p) :
    ∃ base, Construct k x base ∧ p = base.move (· + j) := by
  obtain ⟨hopens, hread⟩ := h.read []
  rw [List.append_nil] at hopens hread
  have hshift := readPiece_shift j ⟨k, x⟩
  rw [Cursor.shift, hread] at hshift
  cases hr : readPiece ⟨k, x⟩ with
  | error e =>
    rw [hr] at hshift
    cases hshift
  | ok r =>
    rw [hr] at hshift
    obtain ⟨hpiece, hafter⟩ := Prod.mk.inj (Except.ok.inj hshift)
    obtain ⟨y, hy, -, hconstruct⟩ := construct_of_readPiece (c := ⟨k, x⟩) hopens hr
    have hrest : r.2.rest = [] := (congrArg Cursor.rest hafter).symm
    obtain rfl : x = y := by
      rw [hrest, List.append_nil] at hy
      exact hy
    exact ⟨r.1, hconstruct, hpiece⟩

/-- A construct that is read as a node further on is read as that node earlier on, moved. -/
theorem Construct.exists_base_node (h : Construct (k + j) x (.node t)) :
    ∃ base, Construct k x (.node base) ∧ t = base.move (· + j) := by
  obtain ⟨p, hp, hmove⟩ := h.exists_base
  cases p with
  | node base => exact ⟨base, hp, Piece.node.inj hmove⟩
  | openTag | closeTag => cases hmove

/-- A construct that is read as an opening tag further on is read as that tag earlier on, moved. -/
theorem Construct.exists_base_openTag (h : Construct (k + j) x (.openTag tag)) :
    ∃ base, Construct k x (.openTag base) ∧ tag = base.move (· + j) := by
  obtain ⟨p, hp, hmove⟩ := h.exists_base
  cases p with
  | openTag base => exact ⟨base, hp, Piece.openTag.inj hmove⟩
  | node | closeTag => cases hmove

/-- A construct that is read as a close tag further on is read as that tag earlier on, moved. -/
theorem Construct.exists_base_closeTag (h : Construct (k + j) x (.closeTag name span)) :
    ∃ base, Construct k x (.closeTag name base) ∧ span = base.move (· + j) := by
  obtain ⟨p, hp, hmove⟩ := h.exists_base
  cases p with
  | closeTag name' base =>
    obtain ⟨rfl, hspan⟩ := Piece.closeTag.inj hmove
    exact ⟨base, hp, hspan⟩
  | node | openTag => cases hmove

/-- A sequence of nodes is the same sequence `j` bytes later. -/
theorem Reads.shift (h : Reads limit depth k text nodes) (j : Nat) :
    Reads limit depth (k + j) text (nodes.map (Token.move (· + j))) := by
  induction h with
  | nil => exact .nil
  | @text depth k x rest nodes hx hstops hrest ih =>
    rw [Nat.add_right_comm] at ih
    rw [List.map_cons, Token.move, ← Literal.ofText_shift]
    exact .text hx hstops ih
  | @node depth k x rest t nodes hx hrest ih =>
    rw [Nat.add_right_comm] at ih
    exact .node (hx.shift j) ih
  | @element depth k opening content closing rest name tag span children nodes hdepth hopening
      hcontent hclosing hname hrest ihcontent ihrest =>
    have hclosing' := hclosing.shift j
    rw [Nat.add_right_comm] at ihcontent ihrest hclosing'
    rw [List.map_cons, ← OpenElement.close_move]
    exact .element hdepth (hopening.shift j) ihcontent hclosing' hname ihrest

/-- A sequence of nodes `j` bytes later is one where it would stand without them. -/
theorem Reads.exists_base (h : Reads limit depth (k + j) text nodes) :
    ∃ base, Reads limit depth k text base ∧ nodes = base.map (Token.move (· + j)) := by
  generalize hm : k + j = m at h
  induction h generalizing k with
  | nil => exact ⟨[], .nil, rfl⟩
  | @text depth m x rest nodes hx hstops hrest ih =>
    subst hm
    obtain ⟨base, hbase, rfl⟩ := ih (Nat.add_right_comm k (byteSize x) j)
    refine ⟨_, .text hx hstops hbase, ?_⟩
    rw [List.map_cons, Token.move, ← Literal.ofText_shift]
  | @node depth m x rest t nodes hx hrest ih =>
    subst hm
    obtain ⟨base, hbase, rfl⟩ := ih (Nat.add_right_comm k (byteSize x) j)
    obtain ⟨t, ht, rfl⟩ := hx.exists_base_node
    exact ⟨t :: base, .node ht hbase, rfl⟩
  | @element depth m opening content closing rest name tag span children nodes hdepth hopening
      hcontent hclosing hname hrest ihcontent ihrest =>
    subst hm
    obtain ⟨inside, hinside, rfl⟩ := ihcontent (Nat.add_right_comm k _ j)
    obtain ⟨behind, hbehind, rfl⟩ := ihrest (Nat.add_right_comm k _ j)
    rw [Nat.add_right_comm] at hclosing
    obtain ⟨tag, htag, rfl⟩ := hopening.exists_base_openTag
    obtain ⟨span, hspan, rfl⟩ := hclosing.exists_base_closeTag
    refine ⟨_, .element hdepth htag hinside hspan hname hbehind, ?_⟩
    rw [List.map_cons, ← OpenElement.close_move]
    rfl

end TemplateReader
