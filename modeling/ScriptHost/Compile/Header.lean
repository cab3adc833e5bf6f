import ScriptHost.Language

/-! Source headers: a first line `//lua` or `//slang` names the language of the lines after it. -/

namespace ScriptHost.Compile

/-- The source before its first line break, and the rest from that break on. -/
def cutFirstLine (source : String) : String × String :=
  let cs := source.toList
  (String.ofList (cs.takeWhile (· != '\n')), String.ofList (cs.dropWhile (· != '\n')))

/-- The characters of a tag. -/
def isTagChar (c : Char) : Bool := c.isAlphanum || c == '-' || c == '_' || c == '#'

/-- The language that a tag right after the slashes names. -/
def tagLanguage? (tag : String) : Option Language :=
  if !tag.isEmpty && tag.utf8ByteSize ≤ 16 && tag.toList.all isTagChar then
    (Language.parse tag).toOption
  else none

/-- The language that a first line names. -/
def headerLanguage? (line : String) : Option Language :=
  match (Text.trim line).toList with
  | '/' :: '/' :: tag => tagLanguage? (String.ofList tag)
  | _ => none

/-- The language that the header names, if there is a header, and the source to compile: without the
text of the header but with its line, so that the lines after it keep their numbers. -/
def splitHeader (source : String) : Option Language × String :=
  let (first, rest) := cutFirstLine source
  match headerLanguage? first with
  | some l => (some l, rest)
  | none => (none, source)

end ScriptHost.Compile
