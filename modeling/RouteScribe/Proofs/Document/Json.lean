import Mathlib.Data.List.Basic
import RouteScribe.Document.Json

/-!
# RouteScribe.Proofs.Document.Json

Documents as JSON can be told apart. Every part of a text says where it ends, so that what is
written behind it can be told apart from it too.

* `unescape`: reads back one character inside of quotes.
* `Known`: a document is known from a text that begins with it.
* `print_injective`: different documents have different texts.
-/

namespace RouteScribe
namespace Document
namespace Json

variable {c d : Char} {cs ds r r' : List Char} {level : Nat}

/-! ## Quotes -/

/-- The value of a digit of the hexadecimal system. -/
def hexValue (c : Char) : Nat := if c.isDigit then c.toNat - 48 else c.toNat - 87

/-- The character that is written behind a backslash, and what is behind it. -/
def unescapeMarked : List Char → Option (Char × List Char)
  | 'n' :: cs => some ('\n', cs)
  | 'r' :: cs => some ('\r', cs)
  | 't' :: cs => some ('\t', cs)
  | 'b' :: cs => some ('\x08', cs)
  | 'f' :: cs => some ('\x0c', cs)
  | 'u' :: _ :: _ :: high :: low :: cs =>
    some (Char.ofNat (hexValue high * 16 + hexValue low), cs)
  | c :: cs => some (c, cs)
  | [] => none

/-- The first character of a text inside of quotes, and what is behind it. -/
def unescape : List Char → Option (Char × List Char)
  | [] => none
  | c :: cs => if c = '\\' then unescapeMarked cs else some (c, cs)

theorem unescapeMarked_digits {n : Nat} (h : n < 0x20) (cs : List Char) :
    unescapeMarked ('u' :: '0' :: '0' :: hexDigit (n / 16) :: hexDigit (n % 16) :: cs)
      = some (Char.ofNat n, cs) := by
  have hall : ∀ n < 0x20,
      Char.ofNat (hexValue (hexDigit (n / 16)) * 16 + hexValue (hexDigit (n % 16)))
        = Char.ofNat n := by decide
  rw [unescapeMarked, hall n h]

theorem unescape_escape_append (c : Char) (cs : List Char) :
    unescape (escape c ++ cs) = some (c, cs) := by
  unfold escape
  split_ifs with hquote hback hfeed hreturn htab hbell hform hcontrol
  case pos => rw [hquote]; rfl
  case pos => rw [hback]; rfl
  case pos => rw [hfeed]; rfl
  case pos => rw [hreturn]; rfl
  case pos => rw [htab]; rfl
  case pos => rw [hbell]; rfl
  case pos => rw [hform]; rfl
  case pos =>
    have hdigits := unescapeMarked_digits hcontrol cs
    rwa [Char.ofNat_toNat] at hdigits
  case neg => rw [List.singleton_append, unescape, if_neg hback]

theorem head?_escape_ne (c : Char) (cs : List Char) : (escape c ++ cs).head? ≠ some '"' := by
  unfold escape
  split_ifs with hquote
  case neg => simpa using hquote
  all_goals simp

theorem of_flatMap_escape_append
    (h : cs.flatMap escape ++ '"' :: r = ds.flatMap escape ++ '"' :: r') : cs = ds ∧ r = r' := by
  induction cs generalizing ds with
  | nil =>
    cases ds with
    | nil => exact ⟨rfl, (List.cons.inj h).2⟩
    | cons d ds =>
      rw [List.flatMap_cons, List.append_assoc] at h
      exact absurd (congrArg List.head? h).symm (head?_escape_ne d _)
  | cons c cs ih =>
    cases ds with
    | nil =>
      rw [List.flatMap_cons, List.append_assoc] at h
      exact absurd (congrArg List.head? h) (head?_escape_ne c _)
    | cons d ds =>
      rw [List.flatMap_cons, List.append_assoc, List.flatMap_cons, List.append_assoc] at h
      have hread := congrArg unescape h
      rw [unescape_escape_append, unescape_escape_append] at hread
      obtain ⟨rfl, hrest⟩ := Prod.mk.inj (Option.some.inj hread)
      obtain ⟨rfl, hr⟩ := ih hrest
      exact ⟨rfl, hr⟩

theorem toList_quoted (s : String) :
    (quoted s).toList = '"' :: (s.toList.flatMap escape ++ ['"']) := by
  simp [quoted]

theorem of_quoted_append {s s' : String} (h : (quoted s).toList ++ r = (quoted s').toList ++ r') :
    s = s' ∧ r = r' := by
  rw [toList_quoted, toList_quoted, List.cons_append, List.cons_append, List.append_assoc,
    List.append_assoc] at h
  obtain ⟨hs, hr⟩ := of_flatMap_escape_append (List.cons.inj h).2
  exact ⟨String.toList_inj.1 hs, hr⟩

/-! ## Lists and tables -/

/-- The characters at the beginning of a line. -/
def indent (level : Nat) : List Char := '\n' :: List.replicate (2 * level) ' '

@[simp] theorem toList_newline (level : Nat) : (newline level).toList = indent level := by
  simp [newline, indent]

@[simp] theorem toList_render_text (s : String) :
    (render level (.text s)).toList = (quoted s).toList := by
  rw [render]

@[simp] theorem toList_render_list_nil : (render level (.list [])).toList = ['[', ']'] := by
  simp [render]

@[simp] theorem toList_render_list_cons (n : Node) (ns : List Node) :
    (render level (.list (n :: ns))).toList = '[' :: (indent (level + 1) ++
      ((render (level + 1) n).toList ++ ((renderItems (level + 1) ns).toList ++
        (indent level ++ [']'])))) := by
  simp [render]

@[simp] theorem toList_render_table_nil : (render level (.table [])).toList = ['\x7b', '\x7d'] := by
  simp [render]

@[simp] theorem toList_render_table_cons (k : String) (n : Node) (rows : List (String × Node)) :
    (render level (.table ((k, n) :: rows))).toList = '\x7b' :: (indent (level + 1) ++
      ((quoted k).toList ++ (':' :: ' ' :: ((render (level + 1) n).toList ++
        ((renderRows (level + 1) rows).toList ++ (indent level ++ ['\x7d'])))))) := by
  simp [render]

@[simp] theorem toList_renderItems_nil : (renderItems level []).toList = [] := by
  simp [renderItems]

@[simp] theorem toList_renderItems_cons (n : Node) (ns : List Node) :
    (renderItems level (n :: ns)).toList = ',' :: (indent level ++
      ((render level n).toList ++ (renderItems level ns).toList)) := by
  simp [renderItems]

@[simp] theorem toList_renderRows_nil : (renderRows level []).toList = [] := by
  simp [renderRows]

@[simp] theorem toList_renderRows_cons (k : String) (n : Node) (rows : List (String × Node)) :
    (renderRows level ((k, n) :: rows)).toList = ',' :: (indent level ++
      ((quoted k).toList ++ (':' :: ' ' :: ((render level n).toList ++
        (renderRows level rows).toList)))) := by
  simp [renderRows]

/-- The document is known from a text that begins with it. -/
def Known (n : Node) : Prop :=
  ∀ {n' : Node} {level : Nat} {r r' : List Char},
    (render level n).toList ++ r = (render level n').toList ++ r' → n = n' ∧ r = r'

/-- The items are known from a text that begins with them and goes on in the next line. -/
def KnownItems (ns : List Node) : Prop :=
  ∀ {ns' : List Node} {level : Nat} {r r' : List Char},
    (renderItems level ns).toList ++ '\n' :: r = (renderItems level ns').toList ++ '\n' :: r' →
      ns = ns' ∧ r = r'

/-- The rows are known from a text that begins with them and goes on in the next line. -/
def KnownRows (rows : List (String × Node)) : Prop :=
  ∀ {rows' : List (String × Node)} {level : Nat} {r r' : List Char},
    (renderRows level rows).toList ++ '\n' :: r = (renderRows level rows').toList ++ '\n' :: r' →
      rows = rows' ∧ r = r'

theorem known_text (s : String) : Known (.text s) := by
  rintro (s' | ns' | rows') level r r' h
  · rw [toList_render_text, toList_render_text] at h
    obtain ⟨rfl, hr⟩ := of_quoted_append h
    exact ⟨rfl, hr⟩
  · cases ns' <;> simp [toList_quoted] at h
  · rcases rows' with _ | ⟨⟨k, n⟩, rows'⟩ <;> simp [toList_quoted] at h

theorem known_list_nil : Known (.list []) := by
  rintro (s' | ns' | rows') level r r' h
  · simp [toList_quoted] at h
  · cases ns' with
    | nil => exact ⟨rfl, by simpa using h⟩
    | cons n' ns' => simp [indent] at h
  · rcases rows' with _ | ⟨⟨k, n⟩, rows'⟩ <;> simp at h

theorem known_list_cons {n : Node} {ns : List Node} (hn : Known n) (hns : KnownItems ns) :
    Known (.list (n :: ns)) := by
  rintro (s' | ns' | rows') level r r' h
  · simp [toList_quoted] at h
  · cases ns' with
    | nil => simp [indent] at h
    | cons n' ns' =>
      simp only [toList_render_list_cons, List.cons_append, List.append_assoc, List.cons.injEq,
        true_and, List.append_cancel_left_eq] at h
      obtain ⟨rfl, hrest⟩ := hn h
      obtain ⟨rfl, hend⟩ := hns hrest
      exact ⟨rfl, by simpa using hend⟩
  · rcases rows' with _ | ⟨⟨k, n⟩, rows'⟩ <;> simp at h

theorem known_table_nil : Known (.table []) := by
  rintro (s' | ns' | rows') level r r' h
  · simp [toList_quoted] at h
  · cases ns' <;> simp at h
  · rcases rows' with _ | ⟨⟨k', n'⟩, rows'⟩
    · exact ⟨rfl, by simpa using h⟩
    · simp [indent] at h

theorem known_table_cons (k : String) {n : Node} {rows : List (String × Node)} (hn : Known n)
    (hrows : KnownRows rows) : Known (.table ((k, n) :: rows)) := by
  rintro (s' | ns' | rows') level r r' h
  · simp [toList_quoted] at h
  · cases ns' <;> simp at h
  · rcases rows' with _ | ⟨⟨k', n'⟩, rows'⟩
    · simp [indent] at h
    · simp only [toList_render_table_cons, List.cons_append, List.append_assoc, List.cons.injEq,
        true_and, List.append_cancel_left_eq] at h
      obtain ⟨rfl, hvalue⟩ := of_quoted_append h
      obtain ⟨rfl, hrest⟩ := hn (List.cons.inj (List.cons.inj hvalue).2).2
      obtain ⟨rfl, hend⟩ := hrows hrest
      exact ⟨rfl, by simpa using hend⟩

theorem knownItems_nil : KnownItems [] := by
  intro ns' level r r' h
  cases ns' with
  | nil => exact ⟨rfl, by simpa using h⟩
  | cons n' ns' => simp at h

theorem knownItems_cons {n : Node} {ns : List Node} (hn : Known n) (hns : KnownItems ns) :
    KnownItems (n :: ns) := by
  intro ns' level r r' h
  cases ns' with
  | nil => simp at h
  | cons n' ns' =>
    simp only [toList_renderItems_cons, List.cons_append, List.append_assoc, List.cons.injEq,
      true_and, List.append_cancel_left_eq] at h
    obtain ⟨rfl, hrest⟩ := hn h
    obtain ⟨rfl, hend⟩ := hns hrest
    exact ⟨rfl, hend⟩

theorem knownRows_nil : KnownRows [] := by
  intro rows' level r r' h
  rcases rows' with _ | ⟨⟨k', n'⟩, rows'⟩
  · exact ⟨rfl, by simpa using h⟩
  · simp at h

theorem knownRows_cons (k : String) {n : Node} {rows : List (String × Node)} (hn : Known n)
    (hrows : KnownRows rows) : KnownRows ((k, n) :: rows) := by
  intro rows' level r r' h
  rcases rows' with _ | ⟨⟨k', n'⟩, rows'⟩
  · simp at h
  · simp only [toList_renderRows_cons, List.cons_append, List.append_assoc, List.cons.injEq,
      true_and, List.append_cancel_left_eq] at h
    obtain ⟨rfl, hvalue⟩ := of_quoted_append h
    obtain ⟨rfl, hrest⟩ := hn (List.cons.inj (List.cons.inj hvalue).2).2
    obtain ⟨rfl, hend⟩ := hrows hrest
    exact ⟨rfl, hend⟩

mutual

theorem known : ∀ n : Node, Known n
  | .text s => known_text s
  | .list [] => known_list_nil
  | .list (n :: ns) => known_list_cons (known n) (knownItems ns)
  | .table [] => known_table_nil
  | .table ((k, n) :: rows) => known_table_cons k (known n) (knownRows rows)

theorem knownItems : ∀ ns : List Node, KnownItems ns
  | [] => knownItems_nil
  | n :: ns => knownItems_cons (known n) (knownItems ns)

theorem knownRows : ∀ rows : List (String × Node), KnownRows rows
  | [] => knownRows_nil
  | (k, n) :: rows => knownRows_cons k (known n) (knownRows rows)

end

/-- Different documents have different texts. -/
theorem print_injective : Function.Injective print := fun n n' h => by
  have hchars : (render 0 n).toList ++ [] = (render 0 n').toList ++ [] :=
    congrArg (fun s => s.toList ++ []) h
  exact (known n hchars).1

theorem head?_print (n : Node) :
    (print n).toList.head? = some '"' ∨ (print n).toList.head? = some '[' ∨
      (print n).toList.head? = some '\x7b' := by
  unfold print
  rcases n with s | ns | rows
  · simp [toList_quoted]
  · cases ns <;> simp
  · rcases rows with _ | ⟨⟨k, n⟩, rows⟩ <;> simp

end Json
end Document
end RouteScribe
