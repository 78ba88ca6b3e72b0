/-!
# RouteScribe.Document.Node

Documents made of texts, lists and tables, and the formats in which they are written.
-/

namespace RouteScribe
namespace Document

/-- A document, or a part of one. The rows of a table are in the order in which they are written. -/
inductive Node where
  | text (s : String)
  | list (ns : List Node)
  | table (rows : List (String × Node))
  deriving Inhabited

def Node.texts (ss : List String) : Node := .list (ss.map .text)

inductive Format where
  | yaml
  | json
  deriving DecidableEq, Repr

namespace Format

def name : Format → String
  | yaml => "yaml"
  | json => "json"

/-- Reads the name of a format in any case. The names are ASCII, and no character beyond ASCII has
one of their letters as its lower case. -/
def ofString? (s : String) : Option Format :=
  let word := String.ofList (s.toList.map Char.toLower)
  if word = "yaml" || word = "yml" then some yaml
  else if word = "json" then some json
  else none

/-- What is said of a text that names no format. -/
def unknownMessage (s : String) : String :=
  "Invalid format '" ++ s ++ "'. Supported formats: yaml, json"

theorem ofString?_name (f : Format) : ofString? f.name = some f := by
  cases f <;> decide

end Format

end Document
end RouteScribe
