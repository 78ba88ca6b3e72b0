import RouteScribe.Unicode.Space
import RouteScribe.Unicode.Uppercase

/-!
# RouteScribe.Routing.Verb

The verbs of HTTP requests. Seven are standard; any other word is kept as it is.
-/

namespace RouteScribe
namespace Routing

inductive Verb where
  | get
  | post
  | put
  | delete
  | patch
  | options
  | head
  | other (word : String)
  deriving DecidableEq, Repr

namespace Verb

/-- A route without a directive answers `POST`. -/
instance : Inhabited Verb := ⟨post⟩

def text : Verb → String
  | get => "GET"
  | post => "POST"
  | put => "PUT"
  | delete => "DELETE"
  | patch => "PATCH"
  | options => "OPTIONS"
  | head => "HEAD"
  | other w => w

/-- The verb is one of the seven. -/
def isStandard : Verb → Bool
  | other _ => false
  | _ => true

/-- The verb that is written `s`. -/
def ofText (s : String) : Verb :=
  if s = "GET" then get
  else if s = "POST" then post
  else if s = "PUT" then put
  else if s = "DELETE" then delete
  else if s = "PATCH" then patch
  else if s = "OPTIONS" then options
  else if s = "HEAD" then head
  else other s

/-- Reads a verb in any case and with white space around it; none if there is nothing else. -/
def ofString? (s : String) : Option Verb :=
  let word := Unicode.uppercase (Unicode.trim s)
  if word = "" then none else some (ofText word)

def emptyMessage : String := "empty HTTP method"

@[simp] theorem text_ofText (s : String) : (ofText s).text = s := by
  simp only [ofText]
  split
  · simp [text, *]
  split
  · simp [text, *]
  split
  · simp [text, *]
  split
  · simp [text, *]
  split
  · simp [text, *]
  split
  · simp [text, *]
  split
  · simp [text, *]
  · rfl

theorem ofText_text_of_isStandard {v : Verb} (h : v.isStandard = true) : ofText v.text = v := by
  cases v with
  | other w => simp [isStandard] at h
  | _ => decide

theorem ofString?_eq_none_iff {s : String} :
    ofString? s = none ↔ Unicode.uppercase (Unicode.trim s) = "" := by
  simp [ofString?]

end Verb

end Routing
end RouteScribe
