/-!
# Classes of elements

Some elements never have content, and the content of some is kept as text.
Names are compared without regard to the case of ASCII letters.
-/

namespace TemplateReader

/-- The elements that have neither children nor a close tag. -/
def voidElements : List String :=
  ["area", "base", "br", "col", "embed", "hr", "img", "input", "link", "meta", "param", "source",
    "track", "wbr"]

/-- The elements whose content is text up to their close tag. -/
def rawTextElements : List String :=
  ["script", "style"]

/-- Whether a name is that of an element without content. -/
def isVoidElement (name : List Char) : Bool :=
  voidElements.contains (String.ofList (name.map Char.toLower))

/-- Whether a name is that of an element with raw text. -/
def isRawTextElement (name : List Char) : Bool :=
  rawTextElements.contains (String.ofList (name.map Char.toLower))

end TemplateReader
