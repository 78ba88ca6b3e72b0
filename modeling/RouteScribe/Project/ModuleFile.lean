import RouteScribe.Unicode.Space

/-!
# RouteScribe.Project.ModuleFile

The name of a module in its `go.mod` file: the word behind the first `module` that begins a line,
with or without a quote in front. White space may hold line ends.
-/

namespace RouteScribe
namespace Project

/-- The character is a quote around the name of a module. -/
def isQuote (c : Char) : Bool := c = '"' || c = '\x60'

/-- The name of the module, if the directive is at the beginning of the text. -/
def directive? (cs : List Char) : Option String :=
  let word := "module".toList
  let cs := Unicode.trimStartChars cs
  if word.isPrefixOf cs then
    let rest := cs.drop word.length
    if rest.head?.any Unicode.isSpace then
      let rest := Unicode.trimStartChars rest
      let rest := if rest.head?.any isQuote then rest.tail else rest
      let name := rest.takeWhile fun c => !Unicode.isSpace c && !isQuote c
      if name = [] then none else some (String.ofList name)
    else none
  else none

/-- The name of the module, if the directive begins one of the lines that follow; `atStart` if the
text begins a line. -/
def findDirective? : Bool → List Char → Option String
  | _, [] => none
  | atStart, c :: cs =>
    match if atStart then directive? (c :: cs) else none with
    | some name => some name
    | none => findDirective? (c = '\n') cs

/-- The name of a module in the text of its file. -/
def moduleName? (content : String) : Option String := findDirective? true content.toList

end Project
end RouteScribe
