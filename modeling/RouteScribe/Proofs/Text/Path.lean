import Mathlib.Data.String.Basic
import RouteScribe.Text.Path

/-!
# RouteScribe.Proofs.Text.Path

How the parts of a path are read. A path that is joined from two has the segments of both, apart
from empty ones, and so has its components one after the other.

* `segments_append_slash`: a slash separates segments.
* `segments_join`: the segments of a joined path.
* `components_join_name`: a name joined to a path is one more component.
* `moves`: the segments that lead to another directory.
* `moves_parent?_eq`, `parent?_join_name`: the parent of a path.
-/

namespace RouteScribe

namespace Text

variable {f : Char → Bool} {a b : List Char} {c : Char}

theorem splitChars_ne_nil (f : Char → Bool) (a : List Char) : splitChars f a ≠ [] := by
  cases a with
  | nil => exact nofun
  | cons c cs =>
    rw [splitChars]
    split
    · exact nofun
    · split <;> exact nofun

theorem splitChars_append (a b : List Char) (hc : f c = true) :
    splitChars f (a ++ c :: b) = splitChars f a ++ splitChars f b := by
  induction a with
  | nil => simp [splitChars, hc]
  | cons d ds ih =>
    rw [List.cons_append, splitChars, splitChars, ih]
    split
    · rfl
    · obtain ⟨l, ls, hl⟩ := List.exists_cons_of_ne_nil (splitChars_ne_nil f ds)
      rw [hl]
      rfl

theorem splitChars_eq_singleton (h : ∀ c ∈ a, f c = false) : splitChars f a = [a] := by
  induction a with
  | nil => rfl
  | cons d ds ih =>
    obtain ⟨hd, hds⟩ := List.forall_mem_cons.1 h
    rw [splitChars, hd, ih hds]
    rfl

theorem mem_of_mem_splitChars {l : List Char} (hl : l ∈ splitChars f a) (hc : c ∈ l) : c ∈ a := by
  induction a generalizing l with
  | nil =>
    rw [List.mem_singleton.1 hl] at hc
    cases hc
  | cons d ds ih =>
    rw [splitChars] at hl
    split at hl
    · rcases List.mem_cons.1 hl with rfl | hl
      · cases hc
      · exact List.mem_cons_of_mem _ (ih hl hc)
    · obtain ⟨l', ls, hsplit⟩ := List.exists_cons_of_ne_nil (splitChars_ne_nil f ds)
      rw [hsplit] at hl ih
      rcases List.mem_cons.1 hl with rfl | hl
      · rcases List.mem_cons.1 hc with rfl | hc
        · exact List.mem_cons_self
        · exact List.mem_cons_of_mem _ (ih List.mem_cons_self hc)
      · exact List.mem_cons_of_mem _ (ih (List.mem_cons_of_mem _ hl) hc)

theorem eq_false_of_mem_splitChars {l : List Char} (hl : l ∈ splitChars f a) (hc : c ∈ l) :
    f c = false := by
  induction a generalizing l with
  | nil =>
    rw [List.mem_singleton.1 hl] at hc
    cases hc
  | cons d ds ih =>
    rw [splitChars] at hl
    split at hl
    · rcases List.mem_cons.1 hl with rfl | hl
      · cases hc
      · exact ih hl hc
    next hd =>
      obtain ⟨l', ls, hsplit⟩ := List.exists_cons_of_ne_nil (splitChars_ne_nil f ds)
      rw [hsplit] at hl ih
      rcases List.mem_cons.1 hl with rfl | hl
      · rcases List.mem_cons.1 hc with rfl | hc
        · exact Bool.eq_false_iff.2 hd
        · exact ih List.mem_cons_self hc
      · exact ih (List.mem_cons_of_mem _ hl) hc

theorem intercalate_splitChars (c : Char) (a : List Char) :
    [c].intercalate (splitChars (fun d => d == c) a) = a := by
  induction a with
  | nil => rfl
  | cons d ds ih =>
    obtain ⟨l, ls, hsplit⟩ := List.exists_cons_of_ne_nil (splitChars_ne_nil (fun d => d == c) ds)
    rw [splitChars]
    split
    next hd =>
      rw [hsplit] at ih ⊢
      rw [List.intercalate_cons_cons, ih, eq_of_beq hd]
      rfl
    next =>
      rw [hsplit] at ih ⊢
      cases ls with
      | nil =>
        rw [List.intercalate_singleton] at ih ⊢
        rw [ih]
      | cons l' ls =>
        rw [List.intercalate_cons_cons] at ih ⊢
        exact congrArg (d :: ·) ih

theorem splitChars_intercalate {ls : List (List Char)} (hne : ls ≠ []) (h : ∀ l ∈ ls, c ∉ l) :
    splitChars (· == c) ([c].intercalate ls) = ls := by
  induction ls with
  | nil => exact absurd rfl hne
  | cons l ls ih =>
    obtain ⟨hl, hls⟩ := List.forall_mem_cons.1 h
    have hsingle : splitChars (· == c) l = [l] :=
      splitChars_eq_singleton fun d hd => beq_false_of_ne fun heq => hl (heq ▸ hd)
    cases ls with
    | nil => rw [List.intercalate_singleton, hsingle]
    | cons l' ls' =>
      rw [List.intercalate_cons_cons, List.append_assoc, List.singleton_append,
        splitChars_append (f := (· == c)) _ _ (beq_self_eq_true c), hsingle, ih (List.cons_ne_nil _ _) hls]
      rfl

end Text

namespace Path

variable {p q n : String}

/-- A text that can name an entry of a directory. -/
structure IsName (n : String) : Prop where
  ne_empty : n ≠ ""
  ne_dot : n ≠ "."
  ne_dots : n ≠ ".."
  slash_notMem : '/' ∉ n.toList
  nul_notMem : '\x00' ∉ n.toList

instance : DecidablePred IsName := fun n =>
  decidable_of_iff (n ≠ "" ∧ n ≠ "." ∧ n ≠ ".." ∧ '/' ∉ n.toList ∧ '\x00' ∉ n.toList)
    ⟨fun ⟨h₁, h₂, h₃, h₄, h₅⟩ => ⟨h₁, h₂, h₃, h₄, h₅⟩,
      fun ⟨h₁, h₂, h₃, h₄, h₅⟩ => ⟨h₁, h₂, h₃, h₄, h₅⟩⟩

theorem segments_append_slash (p q : String) :
    segments (p ++ "/" ++ q) = segments p ++ segments q := by
  have h : (p ++ "/" ++ q).toList = p.toList ++ '/' :: q.toList := by
    simp only [String.toList_append, List.append_assoc]
    rfl
  have hsplit := Text.splitChars_append p.toList q.toList (f := fun c => c == '/')
    (beq_self_eq_true '/')
  rw [segments, Text.split, h, hsplit, List.map_append]
  rfl

theorem segments_eq_singleton (h : '/' ∉ n.toList) : segments n = [n] := by
  have hsplit : Text.splitChars (· == '/') n.toList = [n.toList] := by
    refine Text.splitChars_eq_singleton fun c hc => ?_
    rw [beq_eq_false_iff_ne]
    rintro rfl
    exact h hc
  rw [segments, Text.split, hsplit, List.map_singleton, String.ofList_toList]

theorem segments_ne_nil (p : String) : segments p ≠ [] := by
  rw [segments, Text.split, Ne, List.map_eq_nil_iff]
  exact Text.splitChars_ne_nil _ _

theorem exists_append_slash (h : p.toList.getLast? = some '/') : ∃ p', p = p' ++ "/" := by
  obtain ⟨cs, hcs⟩ := List.getLast?_eq_some_iff.1 h
  refine ⟨String.ofList cs, ?_⟩
  rw [← String.toList_inj, hcs, String.toList_append, String.toList_ofList]
  rfl

/-- A joined path has the segments of both parts; an empty one at the end of the first goes. -/
theorem segments_join (hp : p ≠ "") (hq : isAbsolute q = false) :
    ∃ ss, segments (join p q) = ss ++ segments q ∧
      (segments p = ss ∨ ss ≠ [] ∧ segments p = ss ++ [""]) := by
  by_cases hlast : p.toList.getLast? = some '/'
  · obtain ⟨p', rfl⟩ := exists_append_slash hlast
    refine ⟨segments p', ?_, .inr ⟨segments_ne_nil p', ?_⟩⟩
    · simp only [join, hq, hp, hlast]
      exact segments_append_slash p' q
    · have h := segments_append_slash p' ""
      rw [String.append_empty] at h
      exact h
  · refine ⟨segments p, ?_, .inl rfl⟩
    simp only [join, hq, hp, hlast]
    exact segments_append_slash p q

theorem exists_join_eq_append (p : String) (hq : isAbsolute q = false) :
    ∃ rest, join p q = p ++ rest := by
  rw [join, hq, if_neg (by decide)]
  split
  · exact ⟨q, rfl⟩
  · exact ⟨"/" ++ q, String.append_assoc ..⟩

theorem isAbsolute_append (hp : p ≠ "") (q : String) : isAbsolute (p ++ q) = isAbsolute p := by
  have h : p.toList ≠ [] := fun h => hp (String.toList_eq_nil_iff.1 h)
  simp only [isAbsolute, String.toList_append, List.head?_append_of_ne_nil _ h]

theorem isAbsolute_join (hp : p ≠ "") (hq : isAbsolute q = false) :
    isAbsolute (join p q) = isAbsolute p := by
  unfold join
  rw [hq]
  split
  · contradiction
  · split
    · exact isAbsolute_append hp q
    · rw [String.append_assoc]
      exact isAbsolute_append hp _

theorem names_ne_dots {names : List String} (h : ∀ n ∈ names, IsName n) :
    ∀ n ∈ names, n ≠ "." ∧ n ≠ ".." := fun n hn => ⟨(h n hn).ne_dot, (h n hn).ne_dots⟩

theorem isAbsolute_eq_false (h : '/' ∉ n.toList) : isAbsolute n = false := by
  simp only [isAbsolute, decide_eq_false_iff_not]
  exact fun hn => h (List.mem_of_mem_head? hn)

theorem IsName.isAbsolute_eq (h : IsName n) : isAbsolute n = false :=
  isAbsolute_eq_false h.slash_notMem

theorem inner_append (ss ss' : List String) : inner (ss ++ ss') = inner ss ++ inner ss' :=
  List.filterMap_append

theorem IsName.inner_eq (h : IsName n) : inner [n] = [.name n] := by
  simp [inner, component?, h.ne_empty, h.ne_dot, h.ne_dots]

theorem IsName.components_eq (h : IsName n) : components n = [.name n] := by
  simp [components, segments_eq_singleton h.slash_notMem, h.isAbsolute_eq, inner, component?,
    h.ne_empty, h.ne_dot, h.ne_dots]

theorem components_empty : components "" = [] := by decide

theorem components_join_name (p : String) (hn : IsName n) :
    components (join p n) = components p ++ [.name n] := by
  by_cases hp : p = ""
  · subst hp
    have hjoin : join "" n = n := by simp [join, hn.isAbsolute_eq]
    rw [hjoin, hn.components_eq, components_empty]
    rfl
  · obtain ⟨ss, hss, hsame⟩ := segments_join hp hn.isAbsolute_eq
    rw [segments_eq_singleton hn.slash_notMem] at hss
    have hinner : ∃ s ss' ss'', ss = s :: ss' ∧ segments p = s :: ss'' ∧
        inner ss'' = inner ss' := by
      rcases hsame with hsame | ⟨hne, hsame⟩
      · obtain ⟨s, ss', hs⟩ := List.exists_cons_of_ne_nil (segments_ne_nil p)
        exact ⟨s, ss', ss', hsame ▸ hs, hs, rfl⟩
      · obtain ⟨s, ss', rfl⟩ := List.exists_cons_of_ne_nil hne
        refine ⟨s, ss', ss' ++ [""], rfl, hsame, ?_⟩
        rw [inner_append]
        exact List.append_nil _
    obtain ⟨s, ss', ss'', rfl, hp', hinner⟩ := hinner
    simp only [components, hss, hp', List.cons_append, isAbsolute_join hp hn.isAbsolute_eq,
      inner_append, hinner, hn.inner_eq]
    split
    · rfl
    · exact (List.append_assoc _ _ _).symm

theorem components_foldl_join {names : List String} (h : ∀ n ∈ names, IsName n) (p : String) :
    components (names.foldl join p) = components p ++ names.map .name := by
  induction names generalizing p with
  | nil => exact (List.append_nil _).symm
  | cons n ns ih =>
    obtain ⟨hn, hns⟩ := List.forall_mem_cons.1 h
    rw [List.foldl_cons, ih hns, components_join_name p hn, List.append_assoc]
    rfl

/-! ## The segments that lead on -/

/-- The segments that lead to another directory, be it one below or the one above. -/
def moving (ss : List String) : List String := ss.filter fun s => s ≠ "" && s ≠ "."

/-- The segments of a path that lead to another directory. -/
def moves (p : String) : List String := moving (segments p)

theorem moving_append (ss ss' : List String) : moving (ss ++ ss') = moving ss ++ moving ss' :=
  List.filter_append ..

theorem IsName.moving_eq (h : IsName n) : moving [n] = [n] := by
  simp [moving, h.ne_empty, h.ne_dot]

theorem moves_empty : moves "" = [] := by decide

theorem segments_join_name (p : String) (hn : IsName n) :
    ∃ ss, segments (join p n) = ss ++ [n] ∧ moving ss = moves p := by
  by_cases hp : p = ""
  · subst hp
    have hjoin : join "" n = n := by simp [join, hn.isAbsolute_eq]
    exact ⟨[], by rw [hjoin]; exact segments_eq_singleton hn.slash_notMem, rfl⟩
  · obtain ⟨ss, hss, hsame⟩ := segments_join hp hn.isAbsolute_eq
    rw [segments_eq_singleton hn.slash_notMem] at hss
    refine ⟨ss, hss, ?_⟩
    rcases hsame with hsame | ⟨-, hsame⟩
    · rw [moves, hsame]
    · rw [moves, hsame, moving_append]
      exact (List.append_nil _).symm

theorem moves_join_name (p : String) (hn : IsName n) : moves (join p n) = moves p ++ [n] := by
  obtain ⟨ss, hss, hmoving⟩ := segments_join_name p hn
  rw [moves, hss, moving_append, hmoving, hn.moving_eq]

theorem moves_foldl_join {names : List String} (h : ∀ n ∈ names, IsName n) (p : String) :
    moves (names.foldl join p) = moves p ++ names := by
  induction names generalizing p with
  | nil => exact (List.append_nil _).symm
  | cons n ns ih =>
    obtain ⟨hn, hns⟩ := List.forall_mem_cons.1 h
    rw [List.foldl_cons, ih hns, moves_join_name p hn, List.append_assoc]
    rfl

theorem moves_join (p : String) (hq : isAbsolute q = false) :
    moves (join p q) = moves p ++ moves q := by
  by_cases hp : p = ""
  · subst hp
    simp [join, hq, moves_empty]
  · obtain ⟨ss, hss, hsame⟩ := segments_join hp hq
    rw [moves, hss, moving_append]
    rcases hsame with hsame | ⟨-, hsame⟩
    · rw [moves, hsame, moves]
    · rw [moves, moves, hsame, moving_append ss [""]]
      exact congrArg (· ++ _) (List.append_nil _).symm

theorem moves_append_slash_append (p q : String) : moves (p ++ "/" ++ q) = moves p ++ moves q := by
  rw [moves, segments_append_slash, moving_append]
  rfl

/-! ## Parents -/

theorem slash_notMem_of_mem_segments {s : String} (h : s ∈ segments p) : '/' ∉ s.toList := by
  obtain ⟨l, hl, rfl⟩ := List.mem_map.1 h
  rw [String.toList_ofList]
  intro hslash
  have := Text.eq_false_of_mem_splitChars hl hslash
  simp at this

theorem mem_toList_of_mem_segments {s : String} {c : Char} (hs : s ∈ segments p)
    (hc : c ∈ s.toList) : c ∈ p.toList := by
  obtain ⟨l, hl, rfl⟩ := List.mem_map.1 hs
  rw [String.toList_ofList] at hc
  exact Text.mem_of_mem_splitChars hl hc

theorem mem_segments_join {s : String} (hq : isAbsolute q = false) (hne : s ≠ "")
    (hs : s ∈ segments p ∨ s ∈ segments q) : s ∈ segments (join p q) := by
  by_cases hp : p = ""
  · have hjoin : join "" q = q := by simp [join, hq]
    rw [hp, hjoin]
    refine hs.resolve_left fun h => hne ?_
    rw [hp] at h
    exact List.mem_singleton.1 h
  · obtain ⟨ss, hss, hsame⟩ := segments_join hp hq
    rw [hss, List.mem_append]
    refine hs.imp_left fun h => ?_
    rcases hsame with hsame | ⟨-, hsame⟩
    · exact hsame ▸ h
    · rw [hsame] at h
      exact (List.mem_append.1 h).resolve_right fun h => hne (List.mem_singleton.1 h)

theorem segments_ofSegments {ss : List String} (hne : ss ≠ []) (h : ∀ s ∈ ss, '/' ∉ s.toList) :
    segments (ofSegments ss) = ss := by
  induction ss with
  | nil => exact absurd rfl hne
  | cons s ss ih =>
    obtain ⟨hs, hss⟩ := List.forall_mem_cons.1 h
    cases ss with
    | nil => exact segments_eq_singleton hs
    | cons s' ss' =>
      have hrest := ih (List.cons_ne_nil _ _) hss
      rw [ofSegments, String.intercalate_cons_cons, segments_append_slash,
        segments_eq_singleton hs]
      exact congrArg (s :: ·) hrest

theorem moving_segments_ofSegments {ss : List String} (h : ∀ s ∈ ss, '/' ∉ s.toList) :
    moving (segments (ofSegments ss)) = moving ss := by
  cases ss with
  | nil => rfl
  | cons s ss => rw [segments_ofSegments (List.cons_ne_nil _ _) h]

theorem mem_trimSegments {first : Bool} {ss : List String} {s : String}
    (h : s ∈ trimSegments first ss) : s ∈ ss := by
  induction ss generalizing first with
  | nil => exact h
  | cons s' ss ih =>
    rw [trimSegments] at h
    split at h
    · split at h
      · exact List.mem_cons.2 (.inl (List.mem_singleton.1 h))
      · cases h
    · rcases List.mem_cons.1 h with rfl | h
      · exact List.mem_cons_self
      · exact List.mem_cons_of_mem _ (ih h)

theorem moving_singleton_eq_nil {first : Bool} {s : String}
    (h : ¬ (component? first s).isSome = true) : moving [s] = [] := by
  have hs : s = "" ∨ s = "." := by
    by_contra hs
    rw [not_or] at hs
    revert h
    simp only [component?, hs.1, hs.2, if_false]
    split <;> simp
  rcases hs with rfl | rfl <;> rfl

theorem moving_trimSegments (first : Bool) (ss : List String) :
    moving (trimSegments first ss) = moving ss := by
  induction ss generalizing first with
  | nil => rfl
  | cons s ss ih =>
    rw [trimSegments]
    have hss := ih false
    have hsplit : moving (s :: ss) = moving [s] ++ moving ss := moving_append [s] ss
    split
    next hnil =>
      rw [hnil] at hss
      rw [hsplit, ← hss]
      split
      next => exact (List.append_nil _).symm
      next hcomponent =>
        rw [moving_singleton_eq_nil hcomponent]
        rfl
    next =>
      rw [hsplit, ← hss]
      exact moving_append [s] _

theorem of_dropComponent? {first : Bool} {ss rest : List String}
    (h : dropComponent? first ss = some rest) : rest <+: ss := by
  induction ss generalizing first rest with
  | nil => cases h
  | cons s ss ih =>
    rw [dropComponent?] at h
    split at h
    next rest' hrest =>
      cases h
      exact List.cons_prefix_cons.2 ⟨rfl, ih hrest⟩
    next =>
      split at h
      · cases h
        exact List.nil_prefix
      · cases h

theorem segments_of_isAbsolute (h : isAbsolute p = true) :
    segments p = "" :: (segments p).tail := by
  simp only [isAbsolute, decide_eq_true_eq, List.head?_eq_some_iff] at h
  obtain ⟨cs, hcs⟩ := h
  rw [segments, Text.split, hcs, Text.splitChars]
  rfl

theorem moves_of_isAbsolute (h : isAbsolute p = true) : moves p = moving (segments p).tail := by
  rw [moves, segments_of_isAbsolute h, List.tail_cons]
  exact List.filter_cons_of_neg (by simp)

theorem components_ofSegments {ns : List String} (h : ∀ n ∈ ns, IsName n) :
    components ("/" ++ ofSegments ns) = .root :: ns.map .name := by
  have hsegments : segments ("/" ++ ofSegments ns) = "" :: segments (ofSegments ns) := by
    have happend := segments_append_slash "" (ofSegments ns)
    rwa [String.empty_append] at happend
  have hinner : inner (segments (ofSegments ns)) = ns.map .name := by
    rcases ns with - | ⟨n, ns⟩
    · decide
    · rw [segments_ofSegments (List.cons_ne_nil _ _) fun m hm => (h m hm).slash_notMem]
      generalize n :: ns = ns at h
      induction ns with
      | nil => rfl
      | cons m ms ih =>
        obtain ⟨hm, hms⟩ := List.forall_mem_cons.1 h
        rw [← List.singleton_append, inner_append, hm.inner_eq, ih hms]
        rfl
  have habs : isAbsolute ("/" ++ ofSegments ns) = true := by
    simp [isAbsolute, String.toList_append]
  simp [components, hsegments, habs, hinner]

theorem moves_slash_append (p : String) : moves ("/" ++ p) = moves p := by
  have h := segments_append_slash "" p
  rw [String.empty_append] at h
  rw [moves, h, moving_append]
  rfl

theorem moves_append_slash (p : String) : moves (p ++ "/") = moves p := by
  have h := segments_append_slash p ""
  rw [String.append_empty] at h
  rw [moves, h, moving_append]
  exact List.append_nil _

theorem moving_eq_nil_iff (ss : List String) : moving ss = [] ↔ dropComponent? false ss = none := by
  induction ss with
  | nil => exact iff_of_true rfl rfl
  | cons s ss ih =>
    rw [← List.singleton_append, moving_append, List.append_eq_nil_iff, ih, List.singleton_append,
      dropComponent?]
    cases hss : dropComponent? false ss with
    | some rest => exact iff_of_false (fun h => nomatch h.2) nofun
    | none =>
      cases hs : component? false s with
      | none => exact iff_of_true ⟨moving_singleton_eq_nil (by rw [hs]; exact nofun), rfl⟩ rfl
      | some c =>
        refine iff_of_false (fun h => ?_) nofun
        rw [component?] at hs
        by_cases hempty : s = ""
        · simp [hempty] at hs
        · by_cases hdot : s = "."
          · simp [hdot] at hs
          · simp [moving, hempty, hdot] at h

theorem moving_dropComponent? {first : Bool} {ss rest : List String}
    (h : dropComponent? first ss = some rest) : moving rest = (moving ss).dropLast := by
  induction ss generalizing first rest with
  | nil => cases h
  | cons s ss ih =>
    have hsplit : ∀ ss', moving (s :: ss') = moving [s] ++ moving ss' := moving_append [s]
    rw [dropComponent?] at h
    split at h
    next rest' hrest =>
      cases h
      have hne : moving ss ≠ [] := by
        rw [Ne, moving_eq_nil_iff, hrest]
        exact nofun
      rw [hsplit rest', hsplit ss, ih hrest, List.dropLast_append_of_ne_nil hne]
    next hnone =>
      split at h
      · cases h
        rw [hsplit, (moving_eq_nil_iff ss).2 hnone, List.append_nil]
        unfold moving
        rw [List.filter_nil, List.filter_cons]
        split <;> rfl
      · cases h

theorem moves_parent?_eq {p' : String} (h : parent? p = some p') :
    moves p' = (moves p).dropLast := by
  have hpart : ∀ first {ss rest}, (∀ s ∈ ss, '/' ∉ s.toList) → dropComponent? first ss = some rest →
      ∀ first', moves (ofSegments (trimSegments first' rest)) = (moving ss).dropLast := by
    intro first ss rest hss hrest first'
    have hrest' := of_dropComponent? hrest
    rw [moves, moving_segments_ofSegments fun s hs => hss s (hrest'.subset (mem_trimSegments hs)),
      moving_trimSegments, moving_dropComponent? hrest]
  unfold parent? at h
  split at h
  next habs =>
    obtain ⟨rest, hrest, rfl⟩ := Option.map_eq_some_iff.1 h
    rw [moves_slash_append, moves_of_isAbsolute habs]
    exact hpart false (fun s hs => slash_notMem_of_mem_segments (List.mem_of_mem_tail hs)) hrest _
  next =>
    obtain ⟨rest, hrest, rfl⟩ := Option.map_eq_some_iff.1 h
    exact hpart true (fun s hs => slash_notMem_of_mem_segments hs) hrest _

theorem moves_parent? {p' : String} (h : parent? p = some p') : moves p' <+: moves p :=
  moves_parent?_eq h ▸ List.dropLast_prefix _

theorem moves_of_parent?_eq_none (h : parent? p = none) : moves p = [] := by
  unfold parent? at h
  split at h
  next habs =>
    rw [moves_of_isAbsolute habs]
    exact (moving_eq_nil_iff _).2 (Option.map_eq_none_iff.1 h)
  next =>
    have hdrop := Option.map_eq_none_iff.1 h
    rw [moves]
    cases hss : segments p with
    | nil => rfl
    | cons s ss =>
      rw [hss, dropComponent?] at hdrop
      split at hdrop
      · cases hdrop
      next hnone =>
        split at hdrop
        · cases hdrop
        next hs =>
          rw [← List.singleton_append, moving_append, (moving_eq_nil_iff ss).2 hnone,
            moving_singleton_eq_nil hs]
          rfl

theorem moves_of_mem_ancestors (h : q ∈ ancestors p) : moves q <+: moves p := by
  have hall : ∀ fuel (p : String), q ∈ upwards fuel p → moves q <+: moves p := by
    intro fuel
    induction fuel with
    | zero => exact fun p h => absurd h List.not_mem_nil
    | succ fuel ih =>
      intro p h
      rw [upwards] at h
      rcases List.mem_cons.1 h with rfl | h
      · exact List.prefix_rfl
      · split at h
        next p' hp' => exact (ih p' h).trans (moves_parent? hp')
        next => exact absurd h List.not_mem_nil
  exact hall _ p h

theorem ofSegments_segments (p : String) : ofSegments (segments p) = p := by
  rw [← String.toList_inj, ofSegments, String.toList_intercalate, segments, Text.split,
    List.map_map]
  have hid : (String.toList ∘ String.ofList) = id := by
    funext l
    exact String.toList_ofList
  rw [hid, List.map_id]
  exact Text.intercalate_splitChars '/' p.toList

theorem dropComponent?_append_name (first : Bool) (ss : List String) (hn : IsName n) :
    dropComponent? first (ss ++ [n]) = some ss := by
  induction ss generalizing first with
  | nil => simp [dropComponent?, component?, hn.ne_empty, hn.ne_dot, hn.ne_dots]
  | cons s ss ih => rw [List.cons_append, dropComponent?, ih false]

theorem trimSegments_append_name (first : Bool) (ss : List String) (hn : IsName n) :
    trimSegments first (ss ++ [n]) = ss ++ [n] := by
  induction ss generalizing first with
  | nil => simp [trimSegments, component?, hn.ne_empty, hn.ne_dot, hn.ne_dots]
  | cons s ss ih =>
    rw [List.cons_append, trimSegments, ih false]
    cases ss with
    | nil => rfl
    | cons s' ss' => rfl

theorem join_name_ne_empty (p : String) (hn : IsName n) : join p n ≠ "" := by
  intro h
  have hmoves := moves_join_name p hn
  rw [h, moves_empty] at hmoves
  simp at hmoves

theorem getLast?_join_name (p : String) (hn : IsName n) :
    (join p n).toList.getLast? ≠ some '/' := by
  have hne : n.toList ≠ [] := fun h => hn.ne_empty (String.toList_eq_nil_iff.1 h)
  have hlast : ∀ q, (q ++ n).toList.getLast? = n.toList.getLast? := by
    intro q
    rw [String.toList_append, List.getLast?_append_of_ne_nil _ hne]
  have hjoin : (join p n).toList.getLast? = n.toList.getLast? := by
    unfold join
    split
    · rfl
    · split
      · exact hlast p
      · exact hlast (p ++ "/")
  rw [hjoin]
  exact fun h => hn.slash_notMem (List.mem_of_getLast? h)

/-- The parent of a path with a name at its end is the path before, as it was written. -/
theorem parent?_join_name {m : String} (p : String) (hm : IsName m) (hn : IsName n) :
    parent? (join (join p m) n) = some (join p m) := by
  obtain ⟨ss, hss, -⟩ := segments_join_name p hm
  generalize hq : join p m = q at hss
  have hne : q ≠ "" := hq ▸ join_name_ne_empty p hm
  have hlast : q.toList.getLast? ≠ some '/' := hq ▸ getLast?_join_name p hm
  have hjoin : join q n = q ++ "/" ++ n := by simp [join, hn.isAbsolute_eq, hne, hlast]
  have hsegments : segments (join q n) = ss ++ [m] ++ [n] := by
    rw [hjoin, segments_append_slash, hss, segments_eq_singleton hn.slash_notMem]
  have habs : isAbsolute (join q n) = isAbsolute q := isAbsolute_join hne hn.isAbsolute_eq
  have htext := ofSegments_segments q
  rw [hss] at htext
  unfold parent?
  rw [habs, hsegments]
  split
  next h =>
    -- The slash in front is the empty segment that comes first.
    have hroot := segments_of_isAbsolute h
    rw [hss] at hroot
    cases ss with
    | nil => exact absurd (List.cons.inj hroot).1 hm.ne_empty
    | cons s ss =>
      obtain rfl : s = "" := (List.cons.inj hroot).1
      have htail : (("" :: ss) ++ [m] ++ [n]).tail = (ss ++ [m]) ++ [n] := rfl
      rw [htail, dropComponent?_append_name _ _ hn, Option.map_some,
        trimSegments_append_name _ _ hm]
      obtain ⟨s', ss', hs'⟩ : ∃ s' ss', ss ++ [m] = s' :: ss' :=
        List.exists_cons_of_ne_nil (by simp)
      rw [List.cons_append, hs', ofSegments, String.intercalate_cons_cons, String.empty_append]
        at htext
      rw [hs', ← htext]
      rfl
  next =>
    rw [dropComponent?_append_name _ _ hn, Option.map_some, trimSegments_append_name _ _ hm, htext]

end Path
end RouteScribe
