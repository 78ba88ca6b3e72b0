import RouteScribe.Json.Value

/-!
# RouteScribe.Project.Settings

The settings file of a project: an object with a name for the project and a default command, or an
array of the two. Both may be left out; other fields do not count, but the two may not be given
twice.
-/

namespace RouteScribe
namespace Project

/-- What a settings file sets; empty texts set nothing. -/
structure Settings where
  projectName : String
  defaultCommand : String
  deriving DecidableEq, Repr

namespace Settings

/-- The text of a value that has to be one; empty if there is no value. -/
def text? : Option Json.Value → Option String
  | none => some ""
  | some (.string s) => s
  | some _ => none

/-- The values of a field. -/
def fields (key : String) (rows : List (Option String × Json.Value)) : List Json.Value :=
  (rows.filter (·.1 = some key)).map (·.2)

/-- The text of a field, which is given once at most. -/
def field? (key : String) (rows : List (Option String × Json.Value)) : Option String :=
  match fields key rows with
  | [] => some ""
  | [v] => text? (some v)
  | _ => none

def ofValue? : Json.Value → Option Settings
  | .object rows =>
    if rows.any fun r => r.1 = none then none
    else
      match field? "project_name" rows, field? "default_cmd" rows with
      | some name, some command => some ⟨name, command⟩
      | _, _ => none
  | .array vs =>
    match text? vs[0]?, text? vs[1]?, vs.drop 2 with
    | some name, some command, [] => some ⟨name, command⟩
    | _, _, _ => none
  | _ => none

def read? (content : String) : Option Settings := (Json.read? content).bind ofValue?

end Settings

end Project
end RouteScribe
