import RouteScribe.Project.Layout
import RouteScribe.Proofs.Text.Path

/-!
# RouteScribe.Proofs.Project.Layout

The directories of a command, as names below the root of the project.
-/

namespace RouteScribe

namespace Path

/-- A relative path joined at once is joined in two parts, if a single slash is between them. -/
theorem join_append_slash_append {r q : String} (p : String) (hr : r ≠ "")
    (habs : isAbsolute r = false) (hlast : r.toList.getLast? ≠ some '/')
    (hq : isAbsolute q = false) : join p (r ++ "/" ++ q) = join (join p r) q := by
  have hchars : r.toList ≠ [] := fun h => hr (String.toList_eq_nil_iff.1 h)
  have hside : ∀ s : String, join (s ++ r) q = s ++ r ++ "/" ++ q := by
    intro s
    have hne : s ++ r ≠ "" := by simp [hr]
    have hlast' : (s ++ r).toList.getLast? ≠ some '/' := by
      rwa [String.toList_append, List.getLast?_append_of_ne_nil _ hchars]
    generalize s ++ r = dir at hne hlast'
    simp [join, hq, hne, hlast']
  have hinner : join p r = p ++ r ∧ join p (r ++ "/" ++ q) = p ++ (r ++ "/" ++ q) ∨
      join p r = p ++ "/" ++ r ∧ join p (r ++ "/" ++ q) = p ++ "/" ++ (r ++ "/" ++ q) := by
    have habs' : isAbsolute (r ++ "/" ++ q) = false := by
      rw [String.append_assoc, isAbsolute_append hr, habs]
    unfold join
    simp only [habs, habs', Bool.false_eq_true, if_false]
    split
    · exact .inl ⟨rfl, rfl⟩
    · exact .inr ⟨rfl, rfl⟩
  rcases hinner with ⟨hone, hall⟩ | ⟨hone, hall⟩
  · rw [hone, hall, hside]
    simp only [String.append_assoc]
  · rw [hone, hall, hside]
    simp only [String.append_assoc]

theorem join_append_slash {m q : String} (p : String) (hm : IsName m)
    (hq : isAbsolute q = false) : join p (m ++ "/" ++ q) = join (join p m) q :=
  join_append_slash_append p hm.ne_empty hm.isAbsolute_eq
    (fun h => hm.slash_notMem (List.mem_of_getLast? h)) hq

theorem ofSegments_append {ss ss' : List String} (h : ss ≠ []) (h' : ss' ≠ []) :
    ofSegments (ss ++ ss') = ofSegments ss ++ "/" ++ ofSegments ss' := by
  obtain ⟨s', ss', rfl⟩ := List.exists_cons_of_ne_nil h'
  induction ss with
  | nil => contradiction
  | cons s ss ih =>
    cases ss with
    | nil => simp [ofSegments, String.append_assoc]
    | cons m ms =>
      simp only [ofSegments, List.cons_append, String.intercalate_cons_cons] at ih ⊢
      simp only [ih (by simp), String.append_assoc]

theorem isAbsolute_ofSegments {ss : List String} (hne : ss ≠ [])
    (h : ∀ s ∈ ss, s ≠ "" ∧ '/' ∉ s.toList) : isAbsolute (ofSegments ss) = false := by
  obtain ⟨s, ss, rfl⟩ := List.exists_cons_of_ne_nil hne
  obtain ⟨hs, hslash⟩ := h s (by simp)
  cases ss with
  | nil => simpa [ofSegments] using isAbsolute_eq_false hslash
  | cons m ms =>
    rw [ofSegments, String.intercalate_cons_cons, String.append_assoc, isAbsolute_append hs,
      isAbsolute_eq_false hslash]

theorem isAbsolute_ofSegments_names {ns : List String} (hne : ns ≠ []) (h : ∀ n ∈ ns, IsName n) :
    isAbsolute (ofSegments ns) = false :=
  isAbsolute_ofSegments hne fun n hn => ⟨(h n hn).ne_empty, (h n hn).slash_notMem⟩

theorem join_ofSegments {ns : List String} (hne : ns ≠ []) (h : ∀ n ∈ ns, IsName n) (p : String) :
    join p (ofSegments ns) = ns.foldl join p := by
  induction ns generalizing p with
  | nil => contradiction
  | cons n ns ih =>
    obtain ⟨hn, hns⟩ := List.forall_mem_cons.1 h
    cases ns with
    | nil => simp [ofSegments]
    | cons m ms =>
      have htext : ofSegments (n :: m :: ms) = n ++ "/" ++ ofSegments (m :: ms) :=
        String.intercalate_cons_cons ..
      rw [htext, join_append_slash p hn (isAbsolute_ofSegments_names (by simp) hns)]
      exact ih (by simp) hns (join p n)

end Path

namespace Project

variable {command : String}

theorem resolve_internal (p : Project) (hcommand : Path.IsName command) {last : String}
    (hlast : Path.IsName last) :
    p.resolve ("internal/" ++ command ++ "/transport/http/" ++ last)
      = ["internal", command, "transport", "http", last].foldl Path.join p.root := by
  have hnames : ∀ n ∈ ["internal", command, "transport", "http", last], Path.IsName n := by
    have hfixed : ∀ n ∈ ["internal", "transport", "http"], Path.IsName n := by decide
    simp_all
  have htext : "internal/" ++ command ++ "/transport/http/" ++ last
      = Path.ofSegments ["internal", command, "transport", "http", last] := by
    simp only [Path.ofSegments, String.intercalate_cons_cons, String.intercalate_singleton,
      String.append_assoc]
    rfl
  rw [htext, resolve, Path.isAbsolute_ofSegments_names (by simp) hnames]
  exact Path.join_ofSegments (by simp) hnames p.root

/-- The names that lead to what a command has for its transport. -/
def transportNames (command : String) : List String := ["internal", command, "transport", "http"]

theorem isName_of_mem_transportNames (hcommand : Path.IsName command) :
    ∀ n ∈ transportNames command, Path.IsName n := by
  have hnames : ∀ n ∈ ["internal", "transport", "http"], Path.IsName n := by decide
  intro n hn
  simp only [transportNames, List.mem_cons, List.not_mem_nil, or_false] at hn
  rcases hn with rfl | rfl | rfl | rfl
  · exact hnames _ (by decide)
  · exact hcommand
  · exact hnames _ (by decide)
  · exact hnames _ (by decide)

/-- The directory of what a command has for its transport. -/
def transportDir (p : Project) (command : String) : String :=
  (transportNames command).foldl Path.join p.root

theorem apiDir_eq (p : Project) (hcommand : Path.IsName command) :
    p.apiDir command = Path.join (p.transportDir command) "api" := by
  have htext : "/transport/http/api" = "/transport/http/" ++ "api" := by decide
  rw [apiDir, htext, ← String.append_assoc]
  exact p.resolve_internal hcommand (by decide)

theorem routerDir_eq (p : Project) (hcommand : Path.IsName command) :
    p.routerDir command = Path.join (p.transportDir command) "router" := by
  have htext : "/transport/http/router" = "/transport/http/" ++ "router" := by decide
  rw [routerDir, htext, ← String.append_assoc]
  exact p.resolve_internal hcommand (by decide)

theorem isName_common : Path.IsName "common" := by decide

theorem middlewareDir_eq (p : Project) :
    p.middlewareDir = Path.join (p.transportDir "common") "middleware" := by
  have htext : "internal/common/transport/http/middleware"
      = "internal/" ++ "common" ++ "/transport/http/" ++ "middleware" := by decide
  rw [middlewareDir, htext]
  exact p.resolve_internal isName_common (by decide)

theorem moves_transportDir (p : Project) (hcommand : Path.IsName command) :
    Path.moves (p.transportDir command) = Path.moves p.root ++ transportNames command :=
  Path.moves_foldl_join (isName_of_mem_transportNames hcommand) p.root

/-- The names that lead to the controllers of a command, whose name can have several segments. -/
def apiNames (segments : List String) : List String :=
  "internal" :: segments ++ ["transport", "http", "api"]

theorem apiNames_ne_nil (segments : List String) : apiNames segments ≠ [] := by simp [apiNames]

theorem getLast?_apiNames (segments : List String) :
    (apiNames segments).getLast? = some "api" := by
  rw [apiNames, List.getLast?_append_of_ne_nil _ (by simp)]
  rfl

theorem isName_of_mem_apiNames {segments : List String} (h : ∀ s ∈ segments, Path.IsName s) :
    ∀ n ∈ apiNames segments, Path.IsName n := by
  have hnames : ∀ n ∈ ["internal", "transport", "http", "api"], Path.IsName n := by decide
  intro n hn
  rcases List.mem_append.1 hn with hn | hn
  · rcases List.mem_cons.1 hn with rfl | hn
    · exact hnames _ (by simp)
    · exact h n hn
  · exact hnames n (List.mem_cons_of_mem _ hn)

theorem ofSegments_apiNames {segments : List String} (hne : segments ≠ []) :
    Path.ofSegments (apiNames segments)
      = "internal/" ++ Path.ofSegments segments ++ "/transport/http/api" := by
  have hfirst : Path.ofSegments ("internal" :: segments)
      = "internal" ++ "/" ++ Path.ofSegments segments :=
    Path.ofSegments_append (List.cons_ne_nil "internal" []) hne
  rw [apiNames, Path.ofSegments_append (by simp) (by simp), hfirst]
  simp only [Path.ofSegments, String.append_assoc]
  rfl

theorem apiDir_eq_foldl (p : Project) {segments : List String} (hne : segments ≠ [])
    (h : ∀ s ∈ segments, Path.IsName s) :
    p.apiDir (Path.ofSegments segments) = (apiNames segments).foldl Path.join p.root := by
  have hnames := isName_of_mem_apiNames h
  rw [apiDir, ← ofSegments_apiNames hne, resolve,
    Path.isAbsolute_ofSegments_names (apiNames_ne_nil segments) hnames]
  exact Path.join_ofSegments (apiNames_ne_nil segments) hnames p.root

/-- The controllers of a command are reached by way of the segments of the command, whatever they
are. -/
theorem moves_apiDir (p : Project) (command : String) : Path.moves (p.apiDir command)
    = Path.moves p.root ++ apiNames (Path.moves command) := by
  have htext : "internal/" ++ command ++ "/transport/http/api"
      = "internal" ++ "/" ++ (command ++ "/" ++ "transport/http/api") := by
    simp only [String.append_assoc]
    rfl
  have hfirst : Path.moves "internal" = ["internal"] := by decide
  have hlast : Path.moves "transport/http/api" = ["transport", "http", "api"] := by decide
  have habs : Path.isAbsolute ("internal/" ++ command ++ "/transport/http/api") = false := by
    rw [htext, String.append_assoc, Path.isAbsolute_append (by decide)]
    decide
  rw [apiDir, resolve, habs, if_neg (by decide), Path.moves_join _ habs, htext,
    Path.moves_append_slash_append, Path.moves_append_slash_append, hfirst, hlast]
  rfl

theorem apiDir_eq_join (p : Project) (command : String) : p.apiDir command
    = Path.join (Path.join p.root ("internal/" ++ command ++ "/transport/http")) "api" := by
  have hlast : ("internal/" ++ command ++ "/transport/http").toList.getLast? ≠ some '/' := by
    rw [String.toList_append, List.getLast?_append_of_ne_nil _ (by decide)]
    decide
  have habs : Path.isAbsolute ("internal/" ++ command ++ "/transport/http") = false := by
    rw [String.append_assoc, Path.isAbsolute_append (by decide)]
    decide
  have htext : "/transport/http/api" = "/transport/http" ++ ("/" ++ "api") := by decide
  have hall : Path.isAbsolute ("internal/" ++ command ++ "/transport/http/api") = false := by
    rw [String.append_assoc, Path.isAbsolute_append (by decide)]
    decide
  rw [← Path.join_append_slash_append p.root (by simp) habs hlast (by decide), apiDir, resolve, hall,
    if_neg (by decide), htext]
  simp only [String.append_assoc]

theorem moves_commandDir (p : Project) (h : Path.isAbsolute command = false) :
    Path.moves (p.commandDir command) = Path.moves p.root ++ "cmd" :: Path.moves command := by
  have hcmd : Path.moves "cmd" = ["cmd"] := by decide
  have habs : Path.isAbsolute (Path.join "cmd" command) = false := by
    rw [Path.isAbsolute_join (by decide) h]
    decide
  rw [commandDir, resolve, habs, if_neg (by decide), Path.moves_join _ habs, Path.moves_join _ h,
    hcmd]
  rfl

theorem apiDir_eq_pathOf (p : Project) (hcommand : Path.IsName command) :
    p.apiDir command = (apiNames [command]).foldl Path.join p.root := by
  have hdir := p.apiDir_eq_foldl (List.cons_ne_nil command []) (List.forall_mem_singleton.2 hcommand)
  simpa [Path.ofSegments] using hdir

end Project
end RouteScribe
