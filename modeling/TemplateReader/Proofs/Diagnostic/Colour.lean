import TemplateReader.Data.Literal
import TemplateReader.Proofs.Text.Lines

/-!
# Colours change nothing but colour

A colour sequence is an escape character, an opening bracket, numbers with
semicolons between them, and the letter `m`. A rendered report in the colours of
a terminal is the plain one with such sequences put between its parts, so without
them it is the plain report again. What is put together of parts that are coloured
texts is a coloured text as a whole: the parts are taken apart by the functions
that render, each in its colours and plain side by side.
-/

namespace TemplateReader

/-- The character that begins a colour sequence. -/
def colourStart : Char := '\x1b'

/-- Whether a character stands between the bracket and the `m` of a colour sequence. -/
def isColourParameter (c : Char) : Bool := c.isDigit || c = ';'

/-- The text behind the colour sequence that a text begins with, if it begins with one. -/
def dropColour? (text : List Char) : Option (List Char) :=
  match text with
  | '\x1b' :: '[' :: text =>
    match text.dropWhile isColourParameter with
    | 'm' :: rest => some rest
    | _ => none
  | _ => none

/-- Behind a change of colour less is left than in front of it. -/
theorem length_lt_of_dropColour? {text rest : List Char} (h : dropColour? text = some rest) :
    rest.length < text.length := by
  unfold dropColour? at h
  split at h
  · next text =>
    have hle := (List.dropWhile_suffix (l := text) isColourParameter).length_le
    split at h
    · next after hafter =>
      obtain rfl := Option.some.inj h
      rw [hafter] at hle
      simp only [List.length_cons] at hle ⊢
      omega
    · cases h
  · cases h

/-- A text without its colour sequences. -/
def withoutColours (text : List Char) : List Char :=
  match h : dropColour? text with
  | some rest =>
    have : rest.length < text.length := length_lt_of_dropColour? h
    withoutColours rest
  | none =>
    match text with
    | [] => []
    | c :: text => c :: withoutColours text
termination_by text.length

/-- A text is another one in colours when it is that text without them, whatever follows. -/
def Colours (coloured plain : List Char) : Prop :=
  ∀ rest, withoutColours (coloured ++ rest) = plain ++ withoutColours rest

/-- The empty text has no colours to leave out. -/
theorem withoutColours_nil : withoutColours [] = [] := by
  rw [withoutColours]
  rfl

/-- A character that starts no change of colour is left as it is. -/
theorem withoutColours_cons {c : Char} (hc : c ≠ colourStart) (text : List Char) :
    withoutColours (c :: text) = c :: withoutColours text := by
  have hnone : dropColour? (c :: text) = none := by
    unfold dropColour?
    split
    · next h =>
      obtain ⟨rfl, -⟩ := List.cons.inj h
      exact absurd rfl hc
    · rfl
  rw [withoutColours]
  split
  · next hsome =>
    rw [hnone] at hsome
    cases hsome
  · rfl

namespace Colours

variable {x y a b : List Char} {c : Char}

/-- A coloured text without its colours is the plain one. -/
theorem eq (h : Colours x y) : withoutColours x = y := by
  have hwhole := h []
  rwa [List.append_nil, withoutColours_nil, List.append_nil] at hwhole

/-- The empty text is its own coloured form. -/
theorem nil : Colours [] [] := fun _ => rfl

/-- Coloured texts one behind the other are the plain ones one behind the other. -/
theorem append (h : Colours x y) (h' : Colours a b) : Colours (x ++ a) (y ++ b) := by
  intro rest
  rw [List.append_assoc, h, h', List.append_assoc]

/-- A character that starts no change of colour may stand in front of a coloured text. -/
theorem cons (hc : c ≠ colourStart) (h : Colours x y) : Colours (c :: x) (c :: y) := by
  intro rest
  rw [List.cons_append, withoutColours_cons hc, h, List.cons_append]

/-- A text without the escape character is itself, in no colours. -/
theorem self (h : colourStart ∉ x) : Colours x x := by
  induction x with
  | nil => exact nil
  | cons c x ih =>
    rw [List.mem_cons, not_or] at h
    exact (ih h.2).cons (Ne.symm h.1)

/-- Coloured pieces of a list make up the coloured form of its plain pieces. -/
theorem flatMap {α : Type} {f g : α → List Char} {as : List α}
    (h : ∀ a ∈ as, Colours (f a) (g a)) : Colours (as.flatMap f) (as.flatMap g) := by
  induction as with
  | nil => exact nil
  | cons a as ih =>
    rw [List.forall_mem_cons] at h
    rw [List.flatMap_cons, List.flatMap_cons]
    exact h.1.append (ih h.2)

/-- A colour sequence is nothing, in colours. -/
theorem sequence (parameters : List Char) (h : parameters.all isColourParameter = true) :
    Colours (colourStart :: '[' :: (parameters ++ ['m'])) [] := by
  intro rest
  have hafter : (parameters ++ 'm' :: rest).dropWhile isColourParameter = 'm' :: rest := by
    rw [List.dropWhile_append_of_pos (List.all_eq_true.mp h)]
    rfl
  have hdrop : dropColour? (colourStart :: '[' :: (parameters ++ ['m']) ++ rest) = some rest := by
    rw [List.cons_append, List.cons_append, List.append_assoc, List.singleton_append]
    simp only [colourStart, dropColour?, hafter]
  rw [withoutColours]
  split
  · next after hsome =>
    obtain rfl := Option.some.inj (hdrop.symm.trans hsome)
    rfl
  · next hnone =>
    rw [hdrop] at hnone
    cases hnone

end Colours

/-- A palette whose every colour is nothing but colour. -/
structure Palette.IsColour (p : Palette) : Prop where
  /-- So is what begins a fault. -/
  fault : Colours p.fault []
  /-- So is what begins a frame. -/
  dim : Colours p.dim []
  /-- So is what begins advice. -/
  advice : Colours p.advice []
  /-- So is what begins a mention. -/
  mention : Colours p.mention []
  /-- So is what ends any of these. -/
  reset : Colours p.reset []

/-- The colours of a terminal are changes of colour. -/
theorem Palette.isColour_terminal : Palette.terminal.IsColour where
  fault := Colours.sequence "1;31".toList rfl
  dim := Colours.sequence "2".toList rfl
  advice := Colours.sequence "1;38;5;73".toList rfl
  mention := Colours.sequence "38;5;180".toList rfl
  reset := Colours.sequence "0".toList rfl

section

variable {p : Palette} {text line number body before after : List Char} {width : Nat}

/-- Tags stand out by what is put around them, and nothing else changes. -/
theorem colours_highlightTags (hbefore : Colours before []) (hafter : Colours after [])
    (h : colourStart ∉ text) : Colours (highlightTags before after text) text := by
  fun_induction highlightTags before after text with
  | case1 => exact .nil
  | case2 text hsplit ih =>
    rw [List.mem_cons, not_or] at h
    exact (ih h.2).cons (Ne.symm h.1)
  | case3 text inner rest hsplit hlt hmention ih =>
    obtain ⟨rfl, -⟩ := splitPattern_singleton_eq_some_iff.mp hsplit
    simp only [List.mem_cons, List.mem_append, not_or] at h
    obtain ⟨hopen, hinner, hclose, hrest⟩ := h
    have htag : colourStart ∉ '<' :: inner ++ ['>'] := by
      simp [hopen, hinner, hclose]
    have hall := ((hbefore.append (.self htag)).append hafter).append (ih hrest)
    simpa using hall
  | case4 text inner rest hsplit hlt hmention ih =>
    rw [List.mem_cons, not_or] at h
    exact (ih h.2).cons (Ne.symm h.1)
  | case5 c text hc ih =>
    rw [List.mem_cons, not_or] at h
    exact (ih h.2).cons (Ne.symm h.1)

/-- Without colours, tags do not stand out. -/
theorem highlightTags_nil (text : List Char) : highlightTags [] [] text = text := by
  fun_induction highlightTags [] [] text with
  | case1 => rfl
  | case2 text hsplit ih => rw [ih]
  | case3 text inner rest hsplit hlt hmention ih =>
    obtain ⟨rfl, -⟩ := splitPattern_singleton_eq_some_iff.mp hsplit
    rw [ih]
    simp
  | case4 text inner rest hsplit hlt hmention ih => rw [ih]
  | case5 c text hc ih => rw [ih]

/-- The plain palette leaves a text as it is. -/
theorem Palette.plain_prose (text : List Char) : Palette.plain.prose text = text :=
  highlightTags_nil text

/-- A text in the colour of prose is the coloured form of the plain one. -/
theorem Palette.IsColour.prose (hp : p.IsColour) (h : colourStart ∉ text) :
    Colours (p.prose text) (Palette.plain.prose text) := by
  rw [Palette.plain_prose]
  exact colours_highlightTags hp.mention hp.reset h

/-- Decimal digits change no colour. -/
theorem colourStart_not_mem_digitsOf (n : Nat) : colourStart ∉ digitsOf n :=
  fun h => Bool.false_ne_true (isDigit_of_mem_digitsOf h)

/-- A repeated character changes no colour if it starts none. -/
theorem colourStart_not_mem_replicate {c : Char} (hc : c ≠ colourStart) (n : Nat) :
    colourStart ∉ List.replicate n c :=
  fun h => hc (List.eq_of_mem_replicate h).symm

/-- A row of an extract is the coloured form of the plain row. -/
theorem Palette.IsColour.extractLine {shown : List Char} (hp : p.IsColour)
    (hnumber : colourStart ∉ number) (hbody : Colours body shown) :
    Colours (extractLine p width number body) (extractLine .plain width number shown) := by
  have hcell : colourStart ∉ gutterCell width number := by
    rw [gutterCell, List.mem_append, not_or]
    exact ⟨colourStart_not_mem_replicate (by decide) _, hnumber⟩
  exact ((((hp.dim.append (.self hcell)).append (.self (by decide))).append hp.reset).append
    hbody).append (.self (by decide))

end

namespace Diagnostic

/-- A report none of whose texts holds an escape character. -/
structure IsUncoloured (d : Diagnostic) : Prop where
  /-- The message holds none. -/
  message : colourStart ∉ d.message.toList
  /-- The label of the second place holds none. -/
  label : ∀ r ∈ d.related, ∀ label ∈ r.label, colourStart ∉ label.toList
  /-- The advice holds none. -/
  help : ∀ help ∈ d.help, colourStart ∉ help.toList

variable {p : Palette} {d : Diagnostic} {file : String} {source line label : List Char}
  {place stop : Position} {width : Nat}

/-- The header of a report is the coloured form of the plain one. -/
theorem colours_renderHeader (place : Position) (hp : p.IsColour)
    (hfile : colourStart ∉ file.toList) :
    Colours (renderHeader p file place) (renderHeader .plain file place) := by
  have hnumber (n : Nat) : Colours (':' :: digitsOf n) (':' :: digitsOf n) :=
    (Colours.self (colourStart_not_mem_digitsOf n)).cons (by decide)
  have hname : Colours ([' '] ++ p.dim ++ "file:".toList ++ p.reset ++ [' '] ++ file.toList) _ :=
    (((((Colours.self (by decide)).append hp.dim).append (.self (by decide))).append
      hp.reset).append (.self (by decide))).append (.self hfile)
  exact ((hname.append (hnumber _)).append (hnumber _)).append (.self (by decide))

/-- The message of a report is the coloured form of the plain one. -/
theorem colours_renderMessage {message : String} (hp : p.IsColour)
    (hmessage : colourStart ∉ message.toList) :
    Colours (renderMessage p message) (renderMessage .plain message) :=
  ((((hp.fault.append (.self (by decide))).append hp.reset).append (.self (by decide))).append
    (hp.prose hmessage)).append (.self (by decide))

/-- The marked line of a report is the coloured form of the plain one. -/
theorem colours_renderExtract (hp : p.IsColour) (hline : colourStart ∉ line) :
    Colours (renderExtract p width place stop line)
      (renderExtract .plain width place stop line) := by
  have hnumber := colourStart_not_mem_digitsOf (place.line + 1)
  have hnone : colourStart ∉ [] := List.not_mem_nil
  have hspaces := colourStart_not_mem_replicate (c := ' ') (by decide) place.column
  have hcarets := colourStart_not_mem_replicate (c := '^') (by decide) (caretCount place stop line)
  have hmarks := ((((Colours.self hspaces).cons (c := ' ') (by decide)).append hp.fault).append
    (.self hcarets)).append hp.reset
  exact ((hp.extractLine hnone .nil).append
    (hp.extractLine hnumber ((Colours.self hline).cons (by decide)))).append
      (hp.extractLine hnone hmarks)

/-- The related line of a report is the coloured form of the plain one. -/
theorem colours_renderRelated (hp : p.IsColour) (hlabel : colourStart ∉ label)
    (hline : colourStart ∉ line) :
    Colours (renderRelated p width place label line)
      (renderRelated .plain width place label line) := by
  have hnumber := colourStart_not_mem_digitsOf (place.line + 1)
  have hspaces := colourStart_not_mem_replicate (c := ' ') (by decide) place.column
  have hmark := (((((Colours.self hspaces).cons (c := ' ') (by decide)).append hp.dim).append
    (.self (x := ['^', ' ']) (by decide))).append (.self hlabel)).append hp.reset
  exact (hp.extractLine hnumber ((Colours.self hline).cons (by decide))).append
    (hp.extractLine List.not_mem_nil hmark)

/-- The help of a report is the coloured form of the plain one. -/
theorem colours_renderHelp {help : String} (hp : p.IsColour) (hhelp : colourStart ∉ help.toList) :
    Colours (renderHelp p help) (renderHelp .plain help) := by
  have hlines : ∀ line ∈ linesOf help.toList, colourStart ∉ line :=
    fun line hline hc => hhelp (mem_of_mem_linesOf hline hc)
  rw [renderHelp, renderHelp]
  cases hall : linesOf help.toList with
  | nil => exact .nil
  | cons first others =>
    rw [hall, List.forall_mem_cons] at hlines
    have hfirst := (((((Colours.self (x := [' ']) (by decide)).append hp.advice).append
      (.self (x := "help:".toList) (by decide))).append hp.reset).append
        (.self (x := [' ']) (by decide))).append (hp.prose hlines.1)
    refine (hfirst.append (.self (by decide))).append (.flatMap fun line hline => ?_)
    exact ((Colours.self (by decide)).append (hp.prose (hlines.2 line hline))).append
      (.self (by decide))

/-- A report in colours is the plain report, in colours. -/
theorem colours_renderWith (hp : p.IsColour) (hd : d.IsUncoloured) (hsource : colourStart ∉ source)
    (hfile : colourStart ∉ file.toList) :
    Colours (d.renderWith p source file) (d.renderWith .plain source file) := by
  have hline {n : Nat} {line : List Char} (h : (linesOf source)[n]? = some line) :
      colourStart ∉ line :=
    fun hc => hsource (mem_of_mem_linesOf (List.mem_of_getElem? h) hc)
  have hlabel {r : RelatedPlace} (hr : d.related = some r) :
      colourStart ∉ (r.label.getD "opened here").toList := by
    cases hsome : r.label with
    | none => exact by decide
    | some label => exact hd.label r hr label hsome
  rw [renderWith, renderWith]
  have hhead := ((Colours.nil.cons (c := '\n') (by decide)).append
    (colours_renderHeader (Position.ofOffset source d.span.start) hp hfile)).append
      (colours_renderMessage hp hd.message)
  refine (((hhead.append ?_).append ?_).append ?_).append (.self (by decide))
  · split
    · next line hfound => exact colours_renderExtract hp (hline hfound)
    · exact .nil
  · split
    · next offset label hrelated =>
      dsimp only
      split
      · next line hfound =>
        exact colours_renderRelated hp (hlabel hrelated) (hline hfound)
      · exact .nil
    · exact .nil
  · split
    · next help hhelp =>
      exact (colours_renderHelp hp (hd.help help hhelp)).cons (by decide)
    · exact .nil

/-- A coloured report without its colours is the plain report. -/
theorem withoutColours_renderWith {source file : String} (hd : d.IsUncoloured)
    (hsource : colourStart ∉ source.toList) (hfile : colourStart ∉ file.toList) :
    withoutColours (d.renderColour source file).toList = (d.render source file).toList := by
  rw [renderColour, render, String.toList_ofList, String.toList_ofList]
  exact (colours_renderWith Palette.isColour_terminal hd hsource hfile).eq

end Diagnostic

/-- A failure none of whose texts holds an escape character. -/
def Failure.IsUncoloured : Failure → Prop
  | .template e => e.diagnostic.IsUncoloured
  | f => colourStart ∉ f.message.toList

/-- A failure that shows no source is a red word, a colon and a bold message, or the same plain. -/
theorem withoutColours_message {message : String} (h : colourStart ∉ message.toList) :
    withoutColours ("\x1b[1;31merror\x1b[0m: \x1b[1m" ++ message ++ "\x1b[0m\n").toList =
      ("error: " ++ message ++ "\n").toList := by
  have hbold : Colours "\x1b[1m".toList [] :=
    Colours.sequence "1".toList rfl
  have hfront : Colours "\x1b[1;31merror\x1b[0m: \x1b[1m".toList "error: ".toList :=
    (((Palette.isColour_terminal.fault.append (.self (x := "error".toList) (by decide))).append
      Palette.isColour_terminal.reset).append (.self (x := ": ".toList) (by decide))).append hbold
  have hback : Colours "\x1b[0m\n".toList "\n".toList :=
    Palette.isColour_terminal.reset.append (.self (x := ['\n']) (by decide))
  rw [String.toList_append, String.toList_append, String.toList_append, String.toList_append]
  exact ((hfront.append (.self h)).append hback).eq

/-- A report in the colours of a terminal is the plain report when its colour sequences are taken
out, whatever the report says and whatever places it points at; so is every failure. -/
theorem withoutColours_renderColour (source file : String)
    (hsource : colourStart ∉ source.toList) (hfile : colourStart ∉ file.toList) :
    (∀ d : Diagnostic, d.IsUncoloured →
      withoutColours (d.renderColour source file).toList = (d.render source file).toList) ∧
    ∀ f : Failure, f.IsUncoloured →
      withoutColours (f.renderColour source file).toList = (f.render source file).toList := by
  refine ⟨fun d hd => Diagnostic.withoutColours_renderWith hd hsource hfile, fun f hf => ?_⟩
  cases f with
  | grammar e => exact withoutColours_message hf
  | data e => exact withoutColours_message hf
  | template e => exact Diagnostic.withoutColours_renderWith hf hsource hfile

/-- A report whose message has brackets that make a tag and brackets that make none, with a label
and two lines of advice, and a failure that shows no source. -/
theorem withoutColours_renderColour_brackets :
    let source := "<p>\nè</q>"
    let d : Diagnostic :=
      ⟨.mismatchedCloseTag, "Expected </p>> or <<p>, found < /q> </>.", ⟨6, 9⟩,
        some ⟨0, some "<p> opened here"⟩, some "Close <p>\nbefore </q>."⟩
    (colourStart ∉ source.toList ∧ colourStart ∉ "a.tml".toList ∧ d.IsUncoloured ∧
      Failure.IsUncoloured (.grammar .unknownDefinitions)) ∧
    withoutColours (d.renderColour source "a.tml").toList = (d.render source "a.tml").toList ∧
    withoutColours (Failure.renderColour (.grammar .unknownDefinitions) source "a.tml").toList =
      (Failure.render (.grammar .unknownDefinitions) source "a.tml").toList := by
  intro source d
  have hsource : colourStart ∉ source.toList := by decide
  have hfile : colourStart ∉ "a.tml".toList := by decide
  have hd : d.IsUncoloured := by
    refine ⟨by decide, ?_, ?_⟩
    · intro r hr label hlabel
      obtain rfl := Option.some.inj hr
      obtain rfl := Option.some.inj hlabel
      decide
    · intro help hhelp
      obtain rfl := Option.some.inj hhelp
      decide
  have hf : Failure.IsUncoloured (.grammar .unknownDefinitions) := by
    show colourStart ∉ "Unknown definitions".toList
    decide
  obtain ⟨hreport, hfailure⟩ := withoutColours_renderColour source "a.tml" hsource hfile
  exact ⟨⟨hsource, hfile, hd, hf⟩, hreport d hd, hfailure _ hf⟩

end TemplateReader
