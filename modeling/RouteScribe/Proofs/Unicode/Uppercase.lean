import RouteScribe.Unicode.Identifier
import RouteScribe.Unicode.Uppercase

/-!
# RouteScribe.Proofs.Unicode.Uppercase

Upper case at the front of identifiers. The tables are compared code point by code point, or where
a whole run of them has its upper case in one range, by the ends of the run.

* `exists_uppercaseChar_eq`: the upper case of what may begin an identifier is one, and does not
  begin with one of the letters a to z.
* `le_toNat_of_mem_uppercaseChar`: what comes behind the slash in ASCII stays behind it.
-/

namespace RouteScribe
namespace Unicode

variable {c : Char} {n m : Nat}

/-- The code point may begin an identifier. -/
def startsAt (n : Nat) : Bool :=
  if n < 0x80 then (Char.ofNat n).isAlpha else identifierStartRanges.covers n

/-- The range has characters beyond ASCII only, and all its code points are characters. -/
def isProper (r : Nat × Nat) : Bool := 0x80 ≤ r.1 && (r.2 < 0xD800 || 0xDFFF < r.1 && r.2 < 0x110000)

theorem isProper_of_mem : ∀ r ∈ identifierStartRanges, isProper r = true :=
  List.all_eq_true.1 (by decide +kernel)

theorem startsAt_toNat (c : Char) : startsAt c.toNat = isIdentifierStart c := by
  rw [startsAt, isIdentifierStart, Char.ofNat_toNat]

theorem covers_iff_exists_isProper : identifierStartRanges.covers n = true ↔
    ∃ r ∈ identifierStartRanges, isProper r = true ∧ r.1 ≤ n ∧ n ≤ r.2 := by
  rw [Ranges.covers_iff]
  exact exists_congr fun r => ⟨fun h => ⟨h.1, isProper_of_mem r h.1, h.2⟩, fun h => ⟨h.1, h.2.2⟩⟩

theorem toNat_ofNat_of_startsAt (h : startsAt n = true) : (Char.ofNat n).toNat = n := by
  have hvalid : n.isValidChar := by
    rw [startsAt] at h
    split at h
    · exact .inl (by omega)
    · obtain ⟨r, -, hproper, hlow, hhigh⟩ := covers_iff_exists_isProper.1 h
      simp only [isProper, Bool.and_eq_true, Bool.or_eq_true, decide_eq_true_eq] at hproper
      rw [Nat.isValidChar]
      omega
  rw [Char.ofNat, dif_pos hvalid]
  rfl

/-- A code point between two that are in one range may begin an identifier as they do. -/
theorem startsAt_of_range {r : Nat × Nat} (hr : r ∈ identifierStartRanges) (hlow : r.1 ≤ n)
    (hhigh : n ≤ r.2) : startsAt n = true := by
  have hproper := isProper_of_mem r hr
  simp only [isProper, Bool.and_eq_true, decide_eq_true_eq] at hproper
  rw [startsAt, if_neg (by omega)]
  exact (Ranges.covers_iff _ _).2 ⟨r, hr, hlow, hhigh⟩

/-! ## Runs -/

namespace CaseRun

/-- All targets of the run are in one range. -/
def isWithin (r : CaseRun) : Bool :=
  identifierStartRanges.any fun x =>
    Nat.ble x.1 r.target && Nat.ble (r.target + (r.last - r.first)) x.2

/-- What may begin an identifier has an upper case in the run that may. -/
def keepsStarts (r : CaseRun) : Bool :=
  r.isWithin || (List.range' 0 ((r.last - r.first) / r.stride + 1)).all fun i =>
    !startsAt (r.first + i * r.stride) || startsAt (r.target + i * r.stride)

/-- The run does not lead to the letters a to z. -/
def avoidsLower (r : CaseRun) : Bool := 0x7A < r.target || r.target + (r.last - r.first) < 0x61

theorem keepsStarts_of_mem : ∀ r ∈ uppercaseRuns, r.keepsStarts = true :=
  List.all_eq_true.1 (by decide +kernel)

theorem avoidsLower_of_mem : ∀ r ∈ uppercaseRuns, r.avoidsLower = true :=
  List.all_eq_true.1 (by decide +kernel)

variable {r : CaseRun}

theorem map?_eq_some_iff : r.map? n = some m ↔ r.first ≤ n ∧ n ≤ r.last ∧
    (n - r.first) % r.stride = 0 ∧ m = r.target + (n - r.first) := by
  unfold map?
  constructor
  · intro h
    split at h
    next hn =>
      simp only [Bool.and_eq_true, decide_eq_true_eq, beq_iff_eq] at hn
      exact ⟨hn.1.1, hn.1.2, hn.2, (Option.some.inj h).symm⟩
    · cases h
  · rintro ⟨hfirst, hlast, hstride, rfl⟩
    simp [hfirst, hlast, hstride]

theorem startsAt_of_map? (hr : r ∈ uppercaseRuns) (h : r.map? n = some m)
    (hn : startsAt n = true) : startsAt m = true := by
  obtain ⟨hfirst, hlast, hstride, rfl⟩ := map?_eq_some_iff.1 h
  rcases Bool.or_eq_true_iff.1 (keepsStarts_of_mem r hr) with hwithin | hall
  · obtain ⟨x, hx, hends⟩ := List.any_eq_true.1 hwithin
    rw [Bool.and_eq_true, Nat.ble_eq, Nat.ble_eq] at hends
    exact startsAt_of_range hx (by omega) (by omega)
  · have hdvd := Nat.dvd_of_mod_eq_zero hstride
    have hi := List.all_eq_true.1 hall ((n - r.first) / r.stride) <| List.mem_range'_1.2
      ⟨Nat.zero_le _, by
        have hle := Nat.div_le_div_right (c := r.stride) (Nat.sub_le_sub_right hlast r.first)
        omega⟩
    rw [Nat.div_mul_cancel hdvd, Nat.add_sub_cancel' hfirst, hn] at hi
    exact hi

end CaseRun

/-! ## Characters -/

theorem isLower_eq_false (h : c.toNat < 0x61 ∨ 0x7A < c.toNat) : c.isLower = false := by
  refine (Bool.not_eq_true _).mp fun hlower => ?_
  obtain ⟨hlow, hhigh⟩ := Bool.and_eq_true_iff.1 hlower
  have hlow : 0x61 ≤ c.toNat := of_decide_eq_true hlow
  have hhigh : c.toNat ≤ 0x7A := of_decide_eq_true hhigh
  omega

/-- The characters are an identifier, and do not begin with one of the letters a to z. -/
def isRaised : List Char → Bool
  | [] => false
  | u :: us => isIdentifierStart u && !u.isLower && us.all isIdentifierContinue

theorem isRaised_of_mem : ∀ x ∈ uppercaseExpansions, isRaised (x.2.map Char.ofNat) = true :=
  List.all_eq_true.1 (by decide +kernel)

theorem isRaised_singleton_toUpper (hlow : c.toNat < 0x80) (h : c.isAlpha = true) :
    isRaised [c.toUpper] = true := by
  have hall : ∀ n < 0x80, (Char.ofNat n).isAlpha = true →
      isRaised [(Char.ofNat n).toUpper] = true := by
    decide
  have hc := hall c.toNat hlow
  rw [Char.ofNat_toNat] at hc
  exact hc h

theorem isRaised_uppercaseChar (h : isIdentifierStart c = true) :
    isRaised (uppercaseChar c) = true := by
  have hstart : startsAt c.toNat = true := (startsAt_toNat c).trans h
  unfold uppercaseChar
  split
  next hlow =>
    rw [isIdentifierStart, if_pos hlow] at h
    exact isRaised_singleton_toUpper hlow h
  next hhigh =>
    split
    next ns hns =>
      obtain ⟨front, back, heq, -⟩ := List.lookup_eq_some_iff.1 hns
      exact isRaised_of_mem (c.toNat, ns) (by simp [heq])
    · split
      next m hm =>
        obtain ⟨r, hr, hmap⟩ := List.exists_of_findSome?_eq_some hm
        have hm := CaseRun.startsAt_of_map? hr hmap hstart
        obtain ⟨hfirst, hlast, -, rfl⟩ := CaseRun.map?_eq_some_iff.1 hmap
        have hvalue := toNat_ofNat_of_startsAt hm
        have havoids := CaseRun.avoidsLower_of_mem r hr
        simp only [CaseRun.avoidsLower, Bool.or_eq_true, decide_eq_true_eq] at havoids
        have hlower := isLower_eq_false (c := Char.ofNat (r.target + (c.toNat - r.first))) <| by
          rw [hvalue]
          omega
        rw [isRaised, ← startsAt_toNat, hvalue, hm, hlower]
        rfl
      · rw [isRaised, h, isLower_eq_false (by omega)]
        rfl

theorem exists_uppercaseChar_eq (h : isIdentifierStart c = true) : ∃ u us,
    uppercaseChar c = u :: us ∧ isIdentifierStart u = true ∧ u.isLower = false ∧
      ∀ v ∈ us, isIdentifierContinue v = true := by
  have hraised := isRaised_uppercaseChar h
  cases hc : uppercaseChar c with
  | nil =>
    rw [hc] at hraised
    cases hraised
  | cons u us =>
    rw [hc, isRaised, Bool.and_eq_true, Bool.and_eq_true, Bool.not_eq_true',
      List.all_eq_true] at hraised
    exact ⟨u, us, rfl, hraised.1.1, hraised.1.2, hraised.2⟩

/-! ## Behind the slash -/

theorem le_toNat_of_mem_expansions :
    ∀ x ∈ uppercaseExpansions, ∀ u ∈ x.2.map Char.ofNat, 0x30 ≤ u.toNat := by
  have hall : uppercaseExpansions.all
      (fun x => (x.2.map Char.ofNat).all fun u => 0x30 ≤ u.toNat) = true := by decide +kernel
  intro x hx u hu
  exact of_decide_eq_true (List.all_eq_true.1 (List.all_eq_true.1 hall x hx) u hu)

/-- All targets of the run are characters behind the slash. -/
def CaseRun.isBehindSlash (r : CaseRun) : Bool :=
  0x30 ≤ r.target && (r.target + (r.last - r.first) < 0xD800
    || 0xDFFF < r.target && r.target + (r.last - r.first) < 0x110000)

theorem CaseRun.isBehindSlash_of_mem : ∀ r ∈ uppercaseRuns, r.isBehindSlash = true :=
  List.all_eq_true.1 (by decide +kernel)

theorem CaseRun.toNat_ofNat_of_map? {r : CaseRun} (hr : r ∈ uppercaseRuns)
    (hmap : r.map? n = some m) : (Char.ofNat m).toNat = m := by
  obtain ⟨hfirst, hlast, -, rfl⟩ := map?_eq_some_iff.1 hmap
  have hbehind := isBehindSlash_of_mem r hr
  simp only [isBehindSlash, Bool.and_eq_true, Bool.or_eq_true, decide_eq_true_eq] at hbehind
  have hvalid : (r.target + (n - r.first)).isValidChar := by
    rw [Nat.isValidChar]
    omega
  rw [Char.ofNat, dif_pos hvalid]
  rfl

theorem le_toNat_toUpper (hlow : c.toNat < 0x80) (h : 0x30 ≤ c.toNat) :
    0x30 ≤ c.toUpper.toNat := by
  have hall : ∀ n < 0x80, 0x30 ≤ n → 0x30 ≤ (Char.ofNat n).toUpper.toNat := by decide
  have hc := hall c.toNat hlow h
  rwa [Char.ofNat_toNat] at hc

/-- The upper case of what comes behind the slash in ASCII comes behind it too. -/
theorem le_toNat_of_mem_uppercaseChar {u : Char} (h : 0x30 ≤ c.toNat)
    (hu : u ∈ uppercaseChar c) : 0x30 ≤ u.toNat := by
  unfold uppercaseChar at hu
  split at hu
  next hlow =>
    rw [List.mem_singleton.1 hu]
    exact le_toNat_toUpper hlow h
  next =>
    split at hu
    next ns hns =>
      obtain ⟨front, back, heq, -⟩ := List.lookup_eq_some_iff.1 hns
      exact le_toNat_of_mem_expansions (c.toNat, ns) (by simp [heq]) u hu
    · split at hu
      next m hm =>
        obtain ⟨r, hr, hmap⟩ := List.exists_of_findSome?_eq_some hm
        rw [List.mem_singleton.1 hu, CaseRun.toNat_ofNat_of_map? hr hmap]
        obtain ⟨-, -, -, rfl⟩ := CaseRun.map?_eq_some_iff.1 hmap
        have hbehind := CaseRun.isBehindSlash_of_mem r hr
        rw [CaseRun.isBehindSlash, Bool.and_eq_true, decide_eq_true_eq] at hbehind
        exact Nat.le_trans hbehind.1 (Nat.le_add_right _ _)
      next => rwa [List.mem_singleton.1 hu]

end Unicode
end RouteScribe
