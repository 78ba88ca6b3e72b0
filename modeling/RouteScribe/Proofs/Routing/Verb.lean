import RouteScribe.Proofs.Routing.CommentStyle
import RouteScribe.Proofs.Unicode.Case
import RouteScribe.Routing.Route

/-!
# RouteScribe.Proofs.Routing.Verb

Verbs and how they are written. Reading makes a verb of every text that is not blank, and its own
text is read as that verb again. A directive raises its argument to upper case before it is read,
and still names the verb that the argument itself is read as.

* `Verb.isNormal_of_ofString?`: the verbs that reading gives.
* `Annotations.bind_ofString?`: what a comment says of the verb, read.
-/

namespace RouteScribe
namespace Routing

open Unicode

namespace Verb

/-- The words of the verbs that have a name. -/
def standardTexts : List String := ["GET", "POST", "PUT", "DELETE", "PATCH", "OPTIONS", "HEAD"]

theorem ofText_eq_other_iff (s : String) : (∃ w, ofText s = .other w) ↔ s ∉ standardTexts := by
  simp only [standardTexts, List.mem_cons, List.not_mem_nil, or_false]
  constructor
  · rintro ⟨w, hw⟩ (rfl | rfl | rfl | rfl | rfl | rfl | rfl) <;> simp [ofText] at hw
  · intro h
    simp only [not_or] at h
    exact ⟨s, by simp [ofText, h]⟩

variable {s : String} {v : Verb}

theorem ofString?_eq_none_iff_isBlank : ofString? s = none ↔ isBlank s = true := by
  rw [ofString?_eq_none_iff, uppercase_eq_empty_iff, trim_eq_empty_iff]

theorem eq_ofText_of_ofString? (h : ofString? s = some v) : v = ofText (uppercase (trim s)) := by
  rw [ofString?] at h
  split at h
  · cases h
  · exact (Option.some.inj h).symm

theorem ofString?_uppercase (s : String) : ofString? (uppercase s) = ofString? s := by
  rw [ofString?, ofString?, ← uppercase_trim, uppercase_uppercase]

theorem ofString?_trim (s : String) : ofString? (trim s) = ofString? s := by
  rw [ofString?, ofString?, trim_trim]

/-- The text of the verb is a word in upper case that is read as this verb, and the verb is one of
the seven if that word is. -/
structure IsNormal (v : Verb) : Prop where
  ne_empty : v.text ≠ ""
  trim_text : trim v.text = v.text
  uppercase_text : uppercase v.text = v.text
  ofString?_text : ofString? v.text = some v
  other_iff : (∃ w, v = .other w) ↔ v.text ∉ standardTexts

theorem isNormal_of_ofString? (h : ofString? s = some v) : v.IsNormal := by
  have htext : v.text = uppercase (trim s) := by rw [eq_ofText_of_ofString? h, text_ofText]
  have hread : ofString? v.text = some v := by
    rw [htext, ofString?_uppercase, ofString?_trim, h]
  refine ⟨fun hempty => ?_, ?_, ?_, hread, ?_⟩
  · rw [hempty] at hread
    cases hread
  · rw [htext, ← uppercase_trim, trim_trim]
  · rw [htext, uppercase_uppercase]
  · rw [htext, ← ofText_eq_other_iff, ← eq_ofText_of_ofString? h]

end Verb

namespace Annotations

variable {lines : List String} {a : String}

/-- The argument of a directive has no white space around it: if it is blank, it is empty. -/
theorem isBlank_iff_of_lastGives {d : Directive} (h : d.LastGives lines a) :
    isBlank a = true ↔ a = "" := by
  obtain ⟨-, -, -, -, ⟨-, rfl⟩ | ⟨-, -, -, -, htrim, -, -⟩, -⟩ := h
  · exact ⟨fun _ => rfl, fun _ => rfl⟩
  · rw [← trim_eq_empty_iff, htrim]

/-- The verb that lines set is read as the argument of the last directive is. -/
theorem bind_ofString? (h : Directive.verb.LastGives lines a) (hblank : isBlank a = false) :
    (ofLines lines).verb.bind Verb.ofString? = Verb.ofString? a := by
  have hne : a ≠ "" := fun heq => by
    rw [(isBlank_iff_of_lastGives h).2 heq] at hblank
    cases hblank
  have hverb := ((setBy_ofLines lines).verb (uppercase a)).2 ⟨a, h, hne, rfl⟩
  rw [hverb, Option.bind_some, Verb.ofString?_uppercase]

/-- The verb is left open just by lines whose last directive, if there is one, is blank. -/
theorem bind_ofString?_eq_none_iff : (ofLines lines).verb.bind Verb.ofString? = none ↔
    ∀ a, Directive.verb.LastGives lines a → isBlank a = true := by
  constructor
  · intro hnone a h
    by_contra hblank
    rw [bind_ofString? h (Bool.not_eq_true _ ▸ hblank), Verb.ofString?_eq_none_iff_isBlank] at hnone
    exact hblank hnone
  · intro h
    cases hverb : (ofLines lines).verb with
    | none => rfl
    | some w =>
      obtain ⟨a, hlast, hne, -⟩ := ((setBy_ofLines lines).verb w).1 hverb
      exact absurd ((isBlank_iff_of_lastGives hlast).1 (h a hlast)) hne

end Annotations

/-- A text that is not blank is read as a verb whose own text is read as this verb again. A method
whose last directive names a verb has the verb that the argument of the directive is read as, and
the usual verb stands in just where no directive is there or the last one is blank. -/
theorem verb_read (s : String) (c : Controller) (m : Go.FuncDecl) :
    (∀ v, Verb.ofString? s = some v → v.IsNormal) ∧
    (Verb.ofString? s = none ↔ isBlank s = true) ∧
    (∀ a, Directive.verb.LastGives (docLines m.doc) a → isBlank a = false →
      Verb.ofString? a = some (Route.ofMethod c m).verb) ∧
    ((Annotations.ofDoc m.doc).verb.bind Verb.ofString? = none ↔
      ∀ a, Directive.verb.LastGives (docLines m.doc) a → isBlank a = true) := by
  refine ⟨fun v => Verb.isNormal_of_ofString?, Verb.ofString?_eq_none_iff_isBlank,
    fun a hlast hblank => ?_, ?_⟩
  · have hread := Annotations.bind_ofString? hlast hblank
    rw [Route.ofMethod, ofDoc_eq, hread]
    cases hverb : Verb.ofString? a with
    | none =>
      rw [Verb.ofString?_eq_none_iff_isBlank.1 hverb] at hblank
      cases hblank
    | some v => rfl
  · rw [ofDoc_eq, Annotations.bind_ofString?_eq_none_iff]

/-- A verb that is longer in upper case. -/
theorem verb_read_longer :
    let m : Go.FuncDecl := ⟨"M", some "A", some ⟨["Gets it.", " @http_method  straße "]⟩⟩
    Verb.ofString? " straße" = some (.other "STRASSE") ∧ (Verb.other "STRASSE").IsNormal ∧
    Directive.verb.LastGives (docLines m.doc) "straße" ∧
    Verb.ofString? "straße" = some (Route.ofMethod ⟨"A", "p", "controller0"⟩ m).verb := by
  intro m
  have hlast : Directive.verb.LastGives (docLines m.doc) "straße" :=
    ⟨["Gets it."], _, [], rfl, Directive.read_eq_some_iff.1 (by decide), nofun⟩
  obtain ⟨hnormal, -, hmethod, -⟩ := verb_read " straße" ⟨"A", "p", "controller0"⟩ m
  have hread : Verb.ofString? " straße" = some (.other "STRASSE") := by decide
  exact ⟨hread, hnormal _ hread, hlast, hmethod "straße" hlast (by decide)⟩

end Routing
end RouteScribe
