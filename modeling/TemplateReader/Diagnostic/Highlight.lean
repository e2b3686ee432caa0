import TemplateReader.Delimiter.Pattern

/-!
# Highlighted tags

In coloured output the tags that a sentence mentions, such as `<p>` or `</p>`,
stand out. A mention is a run between angle brackets that holds, after any
slashes, at least one letter, digit, hyphen or underscore and nothing else.
-/

namespace TemplateReader

/-- Whether the text between two angle brackets reads as a tag. -/
def isTagMention (inner : List Char) : Bool :=
  let name := inner.dropWhile (· = '/')
  !name.isEmpty && name.all fun c => c.isAlphanum || c = '-' || c = '_'

/-- Puts `before` and `after` around every mention of a tag. -/
def highlightTags (before after : List Char) (text : List Char) : List Char :=
  match text with
  | [] => []
  | '<' :: text =>
    match h : splitPattern ['>'] text with
    | none => '<' :: highlightTags before after text
    | some (inner, rest) =>
      have : rest.length < text.length := length_lt_of_splitPattern (List.cons_ne_nil _ _) h
      if isTagMention inner then
        before ++ ('<' :: inner ++ ['>']) ++ after ++ highlightTags before after rest
      else '<' :: highlightTags before after text
  | c :: text => c :: highlightTags before after text
termination_by text.length

end TemplateReader
