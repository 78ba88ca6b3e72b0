import Mathlib.Data.List.Forall2
import RouteScribe.Template.Render

/-!
# RouteScribe.Proofs.Template.Render

The text of statements is made of the texts of each, and that of a loop over a list of those of its
rounds.
-/

namespace RouteScribe
namespace Template

variable {scope : Scope}

theorem join_nil : String.join [] = String.ofList [] := rfl

theorem join_cons {s : String} {cs ds : List Char} {ss : List String}
    (h : s = String.ofList cs) (hs : String.join ss = String.ofList ds) :
    String.join (s :: ss) = String.ofList (cs ++ ds) := by
  rw [String.join_cons, hs, h, String.ofList_append]

theorem parse_of_run {template : String} {ls : List Lexeme} {fuel : Nat} {ss : List Stmt}
    {last : Stream} (hls : tokens template = ls) (hfuel : 16 * ls.length + 16 = fuel)
    (hrun : (Reading.stmts [] fuel).run ⟨ls, 0⟩ = .ok (ss, last)) : parse template = .ok ss := by
  simp only [parse, hls, hfuel, hrun]

theorem render_map {template : String} {ss : List Stmt} (h : parse template = .ok ss)
    (rows : List (String × Value)) : render template (.map rows) = renderAll ss rows := by
  simp only [render, h]

theorem renderAll_eq {ss : List Stmt} {texts : List String}
    (h : List.Forall₂ (fun s text => Stmt.render s scope = .ok text) ss texts) :
    renderAll ss scope = .ok (String.join texts) := by
  induction h with
  | nil => rfl
  | cons hfirst _ ih => simp only [renderAll, hfirst, ih, String.join_cons]

theorem rounds_name (scope : Scope) (line : Nat) (name : String) (vs : List Value) :
    rounds scope line (.name name) none vs = .ok (vs.map fun v => [(name, v)]) := by
  induction vs with
  | nil => rfl
  | cons v vs ih =>
    simp only [rounds, Target.bind, Option.map_none, Option.getD_none, ih, Value.holds, if_true,
      List.map_cons]

theorem renderEach_eq {α : Type} {total : Nat} {body : Scope → Except Fault String}
    (bound : α → Scope) {text : α → String} {xs : List α}
    (h : ∀ x ∈ xs, ∀ n, body (bound x ++ ("loop", loopValue n total) :: scope) = .ok (text x))
    (n : Nat) : renderEach scope total body n (xs.map bound) = .ok (String.join (xs.map text)) := by
  induction xs generalizing n with
  | nil => rfl
  | cons x xs ih =>
    obtain ⟨hx, hxs⟩ := List.forall_mem_cons.1 h
    simp only [List.map_cons, renderEach, hx n, ih hxs (n + 1), String.join_cons]

theorem render_loop {α : Type} {line : Nat} {name : String} {sequence : Expr} {body : List Stmt}
    {value : α → Value} {texts : α → List String} {xs : List α}
    (hlist : sequence.eval scope = .ok (.list (xs.map value)))
    (hbody : ∀ x ∈ xs, ∀ bound, List.Forall₂
      (fun s text => Stmt.render s ((name, value x) :: bound) = .ok text) body (texts x)) :
    (Stmt.loop line (.name name) sequence none body []).render scope
      = .ok (String.join (xs.map fun x => String.join (texts x))) := by
  simp only [Stmt.render, hlist, Value.items?, rounds_name, List.map_map]
  cases xs with
  | nil => rfl
  | cons x xs =>
    have hround : ∀ y ∈ x :: xs, ∀ n, renderAll body
        ([(name, value y)] ++ ("loop", loopValue n (xs.length + 1)) :: scope)
          = .ok (String.join (texts y)) := fun y hy n => renderAll_eq (hbody y hy _)
    have heach := renderEach_eq (fun y => [(name, value y)]) hround 0
    simp only [List.map_cons, Function.comp_apply, List.length_map] at heach ⊢
    exact heach

end Template
end RouteScribe
