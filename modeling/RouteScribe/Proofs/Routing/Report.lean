import Mathlib.Data.Prod.Basic
import RouteScribe.Proofs.Document.Json
import RouteScribe.Routing.Report

/-!
# RouteScribe.Proofs.Routing.Report

What a printed router tells of the router: all of it, but for the way in which a verb is stored.

* `Router.document_eq_iff`: the routers of one document.
* `Router.printBy_eq_iff`: the routers of one text, in a format that tells documents apart.
-/

namespace RouteScribe
namespace Document

/-- Documents are told apart by a format if they are by its printer; JSON always does. -/
theorem Node.printBy_injective {yaml : Node → String} {f : Format}
    (hyaml : f = .yaml → Function.Injective yaml) : Function.Injective (Node.printBy yaml f) := by
  cases f with
  | yaml => exact hyaml rfl
  | json => exact Json.print_injective

theorem Node.texts_injective : Function.Injective Node.texts := fun _ _ h =>
  List.map_injective_iff.2 (fun _ _ => Node.text.inj) (Node.list.inj h)

end Document

namespace Routing

open Document

theorem Import.document_injective : Function.Injective Import.document := by
  rintro ⟨path, localName⟩ ⟨path', localName'⟩ h
  simp only [Import.document, Node.table.injEq, List.cons.injEq, Prod.mk.injEq, Node.text.injEq,
    true_and, and_true] at h
  obtain ⟨rfl, rfl⟩ := h
  rfl

theorem Registration.document_injective : Function.Injective Registration.document := by
  rintro ⟨localName, typeName⟩ ⟨localName', typeName'⟩ h
  simp only [Registration.document, Node.table.injEq, List.cons.injEq, Prod.mk.injEq,
    Node.text.injEq, true_and, and_true] at h
  obtain ⟨rfl, rfl⟩ := h
  rfl

namespace Router

variable {r r' : Router}

/-- The routers are the same, where verbs with one text count as one. -/
structure SameAs (r r' : Router) : Prop where
  imports : r.imports = r'.imports
  registrations : r.registrations = r'.registrations
  verbs : r.verbs.map (fun v => (v.1, v.2.text)) = r'.verbs.map (fun v => (v.1, v.2.text))
  middlewares : r.middlewares = r'.middlewares
  middlewareImport : r.middlewareImport = r'.middlewareImport

theorem verbs_document_eq_iff {verbs verbs' : Table Verb} :
    verbs.map (fun v => (v.1, Node.text v.2.text))
        = verbs'.map (fun v => (v.1, Node.text v.2.text)) ↔
      verbs.map (fun v => (v.1, v.2.text)) = verbs'.map (fun v => (v.1, v.2.text)) := by
  have hmap (t : Table Verb) : t.map (fun v => (v.1, Node.text v.2.text))
      = (t.map fun v => (v.1, v.2.text)).map (Prod.map id Node.text) := by
    rw [List.map_map]
    rfl
  rw [hmap, hmap]
  exact (List.map_injective_iff.2 (Function.injective_id.prodMap fun _ _ => Node.text.inj)).eq_iff

theorem document_eq_iff : r.document = r'.document ↔ r.SameAs r' := by
  constructor
  · intro h
    simp only [document, Node.table.injEq, List.cons_append, List.nil_append, List.cons.injEq,
      Prod.mk.injEq, Node.list.injEq, true_and] at h
    obtain ⟨himports, hregistrations, hverbs, hmiddlewares, himport⟩ := h
    have hrows : Function.Injective fun m : String × List String => (m.1, Node.texts m.2) :=
      Function.injective_id.prodMap Node.texts_injective
    refine ⟨List.map_injective_iff.2 Import.document_injective himports,
      List.map_injective_iff.2 Registration.document_injective hregistrations,
      verbs_document_eq_iff.1 hverbs, List.map_injective_iff.2 hrows hmiddlewares, ?_⟩
    cases hr : r.middlewareImport <;> cases hr' : r'.middlewareImport <;> simp_all
  · intro h
    rw [document, document, h.imports, h.registrations, h.middlewares, h.middlewareImport,
      verbs_document_eq_iff.2 h.verbs]

/-- Routers have one text just if they are the same. -/
theorem printBy_eq_iff {yaml : Node → String} {f : Format}
    (hyaml : f = .yaml → Function.Injective yaml) (r r' : Router) :
    r.printBy yaml f = r'.printBy yaml f ↔ r.SameAs r' := by
  rw [← document_eq_iff]
  exact (Node.printBy_injective hyaml).eq_iff

/-- A printer of documents that writes `d` as YAML, and tells all documents apart. -/
def likeYaml (d n : Node) : String :=
  if Json.print n = Json.print d then Yaml.print d else Json.print n

theorem likeYaml_self (d : Node) : likeYaml d d = Yaml.print d := if_pos rfl

theorem likeYaml_injective {d : Node} {c : Char} (hc : (Yaml.print d).toList.head? = some c)
    (h : c ≠ '"' ∧ c ≠ '[' ∧ c ≠ '\x7b') : Function.Injective (likeYaml d) := by
  have hne (n : Node) : Yaml.print d ≠ Json.print n := fun heq => by
    have hhead := Json.head?_print n
    rw [← heq, hc] at hhead
    simp [h] at hhead
  intro n n' heq
  unfold likeYaml at heq
  split_ifs at heq with hn hn' hn'
  · exact Json.print_injective (hn.trans hn'.symm)
  · exact absurd heq (hne n')
  · exact absurd heq.symm (hne n)
  · exact Json.print_injective heq

/-- Routers that store one verb in two ways. -/
theorem printBy_storedVerb :
    let r : Router := ⟨[⟨"p", "controller0"⟩], [⟨"controller0", "A"⟩], [("p.A.M", .get)], [], none⟩
    let r' : Router := { r with verbs := [("p.A.M", .other "GET")] }
    Function.Injective (likeYaml r.document) ∧
    r.printBy (likeYaml r.document) .yaml = r.print .yaml ∧ r ≠ r' ∧ r.SameAs r' := by
  intro r r'
  have hinjective : Function.Injective (likeYaml r.document) :=
    likeYaml_injective (c := 'i') (by decide +kernel) (by decide)
  have hprint : r.printBy (likeYaml r.document) .yaml = r.print .yaml :=
    likeYaml_self r.document
  have hdocument : r.document = r'.document := rfl
  have htext : r.printBy (likeYaml r.document) .yaml = r'.printBy (likeYaml r.document) .yaml := by
    rw [printBy, printBy, hdocument]
  exact ⟨hinjective, hprint, by decide, (printBy_eq_iff (fun _ => hinjective) r r').1 htext⟩

end Router
end Routing
end RouteScribe
