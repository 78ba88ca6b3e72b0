import RouteScribe.Proofs.Unicode.Space
import RouteScribe.Proofs.Unicode.Uppercase

/-!
# RouteScribe.Proofs.Unicode.Case

Upper case of whole texts. No character that the tables lead to is led on by them, and they keep
white space apart from other characters.

* `uppercase_uppercase`: a text in upper case stays as it is.
* `uppercase_trim`: a text can be trimmed before or after.
-/

namespace RouteScribe
namespace Unicode

variable {c u : Char} {n m : Nat}

/-- The character is its own upper case. -/
def IsUpper (c : Char) : Prop := uppercaseChar c = [c]

instance (c : Char) : Decidable (IsUpper c) := inferInstanceAs (Decidable (_ = _))

/-! ## Targets of the tables -/

namespace CaseRun

/-- No target of the run `r` is mapped by the run `s`: it is outside of `s`, or between the steps
of two. -/
def isApart (r s : CaseRun) : Bool :=
  Nat.blt (r.target + (r.last - r.first)) s.first || Nat.blt s.last r.target
    || s.stride == 2 && (r.stride == 2 || r.first == r.last) && (r.target + s.first) % 2 == 1

/-- No target of the run is mapped any further. -/
def isSettled (r : CaseRun) : Bool :=
  uppercaseRuns.all r.isApart && uppercaseExpansions.all fun x =>
    Nat.blt x.1 r.target || Nat.blt (r.target + (r.last - r.first)) x.1

theorem isSettled_of_mem : ∀ r ∈ uppercaseRuns, r.isSettled = true :=
  List.all_eq_true.1 (by decide +kernel)

variable {r s : CaseRun}

theorem map?_eq_none_of_isApart (h : r.isApart s = true) (hmap : r.map? n = some m) :
    s.map? m = none := by
  obtain ⟨hfirst, hlast, hstride, rfl⟩ := map?_eq_some_iff.1 hmap
  rw [Option.eq_none_iff_forall_ne_some]
  intro k hk
  obtain ⟨hfirst', hlast', hstride', -⟩ := map?_eq_some_iff.1 hk
  simp only [isApart, Bool.or_eq_true, Bool.and_eq_true, Nat.blt_eq, beq_iff_eq] at h
  rcases h with (h | h) | ⟨⟨htwo, hsteps⟩, hodd⟩
  · omega
  · omega
  · rw [htwo] at hstride'
    rcases hsteps with hsteps | hsteps
    · rw [hsteps] at hstride
      omega
    · omega

theorem toUpper_ofNat (hlow : n < 0x80) (h : n < 0x61 ∨ 0x7A < n) :
    (Char.ofNat n).toUpper = Char.ofNat n := by
  have hall : ∀ n < 0x80, (n < 0x61 ∨ 0x7A < n) → (Char.ofNat n).toUpper = Char.ofNat n := by
    decide
  exact hall n hlow h

/-- The targets of the runs are their own upper case. -/
theorem isUpper_of_map? (hr : r ∈ uppercaseRuns) (hmap : r.map? n = some m) :
    IsUpper (Char.ofNat m) := by
  have hvalue := toNat_ofNat_of_map? hr hmap
  obtain ⟨hfirst, hlast, -, hm⟩ := map?_eq_some_iff.1 hmap
  rw [IsUpper, uppercaseChar, hvalue]
  split
  next hlow =>
    have havoids := avoidsLower_of_mem r hr
    simp only [avoidsLower, Bool.or_eq_true, decide_eq_true_eq] at havoids
    rw [toUpper_ofNat hlow (by omega)]
  next =>
    obtain ⟨hruns, hexpansions⟩ := Bool.and_eq_true_iff.1 (isSettled_of_mem r hr)
    have hlookup : uppercaseExpansions.lookup m = none := by
      refine List.lookup_eq_none_iff.2 fun x hx => ?_
      have hout := List.all_eq_true.1 hexpansions x hx
      rw [Bool.or_eq_true, Nat.blt_eq, Nat.blt_eq] at hout
      have hne : m ≠ x.1 := by omega
      exact bne_iff_ne.2 hne
    have hfind : uppercaseRuns.findSome? (·.map? m) = none :=
      List.findSome?_eq_none_iff.2 fun s hs =>
        map?_eq_none_of_isApart (List.all_eq_true.1 hruns s hs) hmap
    rw [hlookup, hfind]

end CaseRun

theorem isUpper_of_mem_expansions :
    ∀ x ∈ uppercaseExpansions, ∀ u ∈ x.2.map Char.ofNat, IsUpper u := by
  have hall : uppercaseExpansions.all
      (fun x => (x.2.map Char.ofNat).all fun u => decide (IsUpper u)) = true := by decide +kernel
  intro x hx u hu
  exact of_decide_eq_true (List.all_eq_true.1 (List.all_eq_true.1 hall x hx) u hu)

theorem isUpper_toUpper (hlow : c.toNat < 0x80) : IsUpper c.toUpper := by
  have hall : ∀ n < 0x80, IsUpper (Char.ofNat n).toUpper := by decide
  have hc := hall c.toNat hlow
  rwa [Char.ofNat_toNat] at hc

theorem isUpper_of_mem_uppercaseChar (h : u ∈ uppercaseChar c) : IsUpper u := by
  rw [uppercaseChar] at h
  split at h
  next hlow =>
    rw [List.mem_singleton.1 h]
    exact isUpper_toUpper hlow
  next hhigh =>
    split at h
    next ns hns =>
      obtain ⟨front, back, heq, -⟩ := List.lookup_eq_some_iff.1 hns
      exact isUpper_of_mem_expansions (c.toNat, ns) (by simp [heq]) u h
    next hlookup =>
      split at h
      next m hm =>
        obtain ⟨r, hr, hmap⟩ := List.exists_of_findSome?_eq_some hm
        rw [List.mem_singleton.1 h]
        exact CaseRun.isUpper_of_map? hr hmap
      next hfind =>
        rw [List.mem_singleton.1 h, IsUpper, uppercaseChar, if_neg hhigh, hlookup, hfind]

/-- A text in upper case stays as it is. -/
theorem uppercase_uppercase (s : String) : uppercase (uppercase s) = uppercase s := by
  rw [uppercase, uppercase, String.toList_ofList]
  refine congrArg String.ofList ?_
  rw [List.flatMap_assoc]
  refine List.flatMap_congr fun c _ => ?_
  refine (List.flatMap_congr fun u hu => isUpper_of_mem_uppercaseChar hu).trans ?_
  exact List.flatMap_singleton' _

/-! ## White space -/

/-- The code points of white space. -/
def spaces : List Nat :=
  [0x9, 0xA, 0xB, 0xC, 0xD, 0x20, 0x85, 0xA0, 0x1680, 0x2000, 0x2001, 0x2002, 0x2003, 0x2004,
    0x2005, 0x2006, 0x2007, 0x2008, 0x2009, 0x200A, 0x2028, 0x2029, 0x202F, 0x205F, 0x3000]

theorem isSpace_iff_mem : isSpace c = true ↔ c.toNat ∈ spaces := by
  simp only [isSpace, spaces, Bool.or_eq_true, Bool.and_eq_true, decide_eq_true_eq, beq_iff_eq,
    List.mem_cons, List.not_mem_nil, or_false]
  omega

theorem isUpper_of_isSpace (h : isSpace c = true) : IsUpper c := by
  have hall : ∀ n ∈ spaces, IsUpper (Char.ofNat n) := by decide +kernel
  have hc := hall c.toNat (isSpace_iff_mem.1 h)
  rwa [Char.ofNat_toNat] at hc

/-- No target of the run is white space. -/
def CaseRun.avoidsSpace (r : CaseRun) : Bool :=
  spaces.all fun n => Nat.blt n r.target || Nat.blt (r.target + (r.last - r.first)) n

theorem CaseRun.avoidsSpace_of_mem : ∀ r ∈ uppercaseRuns, r.avoidsSpace = true :=
  List.all_eq_true.1 (by decide +kernel)

theorem isSpace_of_mem_expansions :
    ∀ x ∈ uppercaseExpansions, ∀ u ∈ x.2.map Char.ofNat, isSpace u = false := by
  have hall : uppercaseExpansions.all
      (fun x => (x.2.map Char.ofNat).all fun u => !isSpace u) = true := by decide +kernel
  intro x hx u hu
  have hu' := List.all_eq_true.1 (List.all_eq_true.1 hall x hx) u hu
  rwa [Bool.not_eq_true'] at hu'

theorem isSpace_toUpper (hlow : c.toNat < 0x80) : isSpace c.toUpper = isSpace c := by
  have hall : ∀ n < 0x80, isSpace (Char.ofNat n).toUpper = isSpace (Char.ofNat n) := by decide
  have hc := hall c.toNat hlow
  rwa [Char.ofNat_toNat] at hc

/-- The upper case of other characters holds no white space. -/
theorem isSpace_of_mem_uppercaseChar (hc : isSpace c = false) (h : u ∈ uppercaseChar c) :
    isSpace u = false := by
  rw [uppercaseChar] at h
  split at h
  next hlow => rw [List.mem_singleton.1 h, isSpace_toUpper hlow, hc]
  next =>
    split at h
    next ns hns =>
      obtain ⟨front, back, heq, -⟩ := List.lookup_eq_some_iff.1 hns
      exact isSpace_of_mem_expansions (c.toNat, ns) (by simp [heq]) u h
    next =>
      split at h
      next m hm =>
        obtain ⟨r, hr, hmap⟩ := List.exists_of_findSome?_eq_some hm
        rw [List.mem_singleton.1 h, ← Bool.not_eq_true, isSpace_iff_mem,
          CaseRun.toNat_ofNat_of_map? hr hmap]
        intro hmem
        obtain ⟨hfirst, hlast, -, rfl⟩ := CaseRun.map?_eq_some_iff.1 hmap
        have hout := List.all_eq_true.1 (CaseRun.avoidsSpace_of_mem r hr) _ hmem
        rw [Bool.or_eq_true, Nat.blt_eq, Nat.blt_eq] at hout
        omega
      next => rwa [List.mem_singleton.1 h]

theorem trimStartChars_flatMap (cs : List Char) :
    trimStartChars (cs.flatMap uppercaseChar) = (trimStartChars cs).flatMap uppercaseChar := by
  induction cs with
  | nil => rfl
  | cons c cs ih =>
    rw [List.flatMap_cons]
    cases hc : isSpace c with
    | true =>
      have hspace : Blank [c] := List.forall_mem_singleton.2 hc
      have hcons : c :: cs = [c] ++ cs := rfl
      rw [show uppercaseChar c = [c] from isUpper_of_isSpace hc,
        trimStartChars_append_blank hspace, hcons, trimStartChars_append_blank hspace, ih]
    | false =>
      obtain ⟨u, us, hu⟩ := List.exists_cons_of_ne_nil (uppercaseChar_ne_nil c)
      have hmem : u ∈ uppercaseChar c := hu ▸ List.mem_cons_self
      rw [trimStartChars_cons_of_not hc, List.flatMap_cons, hu, List.cons_append,
        trimStartChars_cons_of_not (isSpace_of_mem_uppercaseChar hc hmem)]

theorem trimEndChars_flatMap (cs : List Char) :
    trimEndChars (cs.flatMap uppercaseChar) = (trimEndChars cs).flatMap uppercaseChar := by
  induction cs using List.reverseRecOn with
  | nil => rfl
  | append_singleton cs c ih =>
    rw [trimEndChars_concat, List.flatMap_append, List.flatMap_singleton]
    cases hc : isSpace c with
    | true =>
      rw [show uppercaseChar c = [c] from isUpper_of_isSpace hc,
        trimEndChars_append_blank (List.forall_mem_singleton.2 hc), ih, if_pos rfl]
    | false =>
      obtain ⟨us, u, hu⟩ := (List.eq_nil_or_concat (uppercaseChar c)).resolve_left
        (uppercaseChar_ne_nil c)
      have hmem : u ∈ uppercaseChar c := by simp [hu]
      rw [if_neg (by decide), List.flatMap_append, List.flatMap_singleton, hu,
        List.concat_eq_append, ← List.append_assoc, trimEndChars_concat,
        isSpace_of_mem_uppercaseChar hc hmem, if_neg (by decide)]

/-- A text can be trimmed before or after. -/
theorem uppercase_trim (s : String) : uppercase (trim s) = trim (uppercase s) := by
  rw [uppercase, trim, trim, uppercase, String.toList_ofList, String.toList_ofList, trimChars,
    trimChars, trimStartChars_flatMap, trimEndChars_flatMap]

theorem trim_eq_empty_iff (s : String) : trim s = "" ↔ isBlank s = true := by
  rw [trim, String.ofList_eq_empty_iff, trimChars_eq_nil_iff, isBlank, List.all_eq_true]
  rfl

end Unicode
end RouteScribe
