import Mathlib.Data.List.Basic
import Schemata.Inflection

/-!
# Characters of derived names

What upper case and studly case cannot bring into a name, and that lower case forgets the case of ASCII letters.
-/

namespace Schemata

open Schemata.Text Schemata.Inflection

/-- The ASCII characters can be gone through. -/
theorem forall_ascii {p : Char → Prop} (h : ∀ n < 128, p (Char.ofNat n)) (c : Char) (hc : c.toNat < 128) : p c :=
  Char.ofNat_toNat c ▸ h c.toNat hc

/-! ## Upper case -/

theorem upperChar_eq (c : Char) : upperChar c =
    if c.toNat < 128 then [c.toUpper]
    else match Letters.toUpperExpanded.lookup c.toNat with
      | some codes => codes.map Char.ofNat
      | none =>
        match Letters.toUpper.find? (·.range.contains c.toNat) with
        | some s => [Char.ofNat (c.toNat + s.distance).toNat]
        | none => [c] := by
  unfold upperChar
  split
  · rfl
  · cases Letters.toUpperExpanded.lookup c.toNat with
    | some codes => rfl
    | none =>
      change [match Letters.toUpper.find? (·.range.contains c.toNat) with
        | some s => Char.ofNat (c.toNat + s.distance).toNat
        | none => c] = _
      split <;> rfl

theorem eq_toNat_of_ofNat_eq {n : Nat} {c : Char} (h : Char.ofNat n = c) (hc : c.toNat ≠ 0) : n = c.toNat := by
  subst h
  by_cases hn : n.isValidChar
  · rw [Char.ofNat, dif_pos hn]
    rfl
  · rw [Char.ofNat, dif_neg hn] at hc
    exact absurd rfl hc

theorem upperChar_ne_nil (c : Char) : upperChar c ≠ [] := by
  rw [upperChar_eq]
  split
  · exact List.cons_ne_nil _ _
  · split
    · rename_i codes hl
      have hcodes : ∀ x ∈ Letters.toUpperExpanded, x.2 ≠ [] := by decide +kernel
      obtain ⟨before, after, hlist, _⟩ := List.lookup_eq_some_iff.mp hl
      have hmem : (c.toNat, codes) ∈ Letters.toUpperExpanded := hlist ▸ List.mem_append_right _ List.mem_cons_self
      exact fun h => hcodes _ hmem (List.map_eq_nil_iff.mp h)
    · split <;> exact List.cons_ne_nil _ _

-- To decide the left side may mean to go through all characters.
theorem forall_mem_slashes {p : Char → Prop} : (∀ x ∈ ['/', '\\'], p x) ↔ p '/' ∧ p '\\' := by
  simp

/-- A character in the upper case of no other character. -/
structure Uncased (x : Char) : Prop where
  ne_zero : x.toNat ≠ 0
  ascii : ∀ n < 128, x = (Char.ofNat n).toUpper → n = x.toNat
  expanded : ∀ y ∈ Letters.toUpperExpanded, x.toNat ∉ y.2
  shifted : ∀ s ∈ Letters.toUpper, (x.toNat : Int) < s.range.first + s.distance ∨ s.range.last + s.distance < x.toNat

theorem Uncased.eq_of_mem_upperChar {c x : Char} (hx : Uncased x) (h : x ∈ upperChar c) : c = x := by
  have hne := hx.ne_zero
  rw [upperChar_eq] at h
  split at h
  · rename_i hc
    have hn := hx.ascii c.toNat hc (by rw [Char.ofNat_toNat]; exact List.mem_singleton.mp h)
    rw [← Char.ofNat_toNat c, hn, Char.ofNat_toNat]
  · split at h
    · rename_i codes hl
      obtain ⟨n, hn, he⟩ := List.mem_map.mp h
      obtain rfl : n = x.toNat := eq_toNat_of_ofNat_eq he hne
      obtain ⟨before, after, hlist, _⟩ := List.lookup_eq_some_iff.mp hl
      have hmem : (c.toNat, codes) ∈ Letters.toUpperExpanded := hlist ▸ List.mem_append_right _ List.mem_cons_self
      exact absurd hn (hx.expanded _ hmem)
    · split at h
      · rename_i s hs
        have hcode := eq_toNat_of_ofNat_eq (List.mem_singleton.mp h).symm hne
        have hr := List.find?_some hs
        simp only [CodeRange.contains, Bool.and_eq_true, decide_eq_true_eq] at hr
        have hd := hx.shifted s (List.mem_of_find?_eq_some hs)
        omega
      · exact (List.mem_singleton.mp h).symm

theorem uncased_of_mem_slashes {x : Char} (hx : x ∈ ['/', '\\']) : Uncased x := by
  have hall : ∀ x ∈ ['/', '\\'], Uncased x := forall_mem_slashes.mpr
    ⟨⟨by decide, by decide, by decide +kernel, by decide +kernel⟩, ⟨by decide, by decide, by decide +kernel, by decide +kernel⟩⟩
  exact hall x hx

theorem isJoint_iff {c : Char} : isJoint c = true ↔ (c = '_' ∨ c = '-') ∨ c = ' ' := by
  rw [isJoint, Bool.or_eq_true, Bool.or_eq_true, decide_eq_true_eq, decide_eq_true_eq, decide_eq_true_eq]

theorem uncased_of_isJoint {x : Char} (hx : isJoint x = true) : Uncased x := by
  rcases isJoint_iff.mp hx with (rfl | rfl) | rfl <;> exact ⟨by decide, by decide, by decide +kernel, by decide +kernel⟩

/-! ## Studly case -/

theorem mem_of_mem_splitOnP {α : Type} {p : α → Bool} {xs part : List α} (h : part ∈ xs.splitOnP p) :
    ∀ x ∈ part, x ∈ xs ∧ p x = false := by
  induction xs generalizing part with
  | nil =>
    rw [List.splitOnP_nil, List.mem_singleton] at h
    subst h
    exact fun x hx => absurd hx List.not_mem_nil
  | cons a rest ih =>
    rw [List.splitOnP_cons_eq_if_modifyHead] at h
    split at h
    · rcases List.mem_cons.mp h with rfl | h
      · exact fun x hx => absurd hx List.not_mem_nil
      · exact fun x hx => ⟨List.mem_cons_of_mem _ (ih h x hx).1, (ih h x hx).2⟩
    · rename_i ha
      cases hs : rest.splitOnP p with
      | nil => exact absurd hs (List.splitOnP_ne_nil p rest)
      | cons head tail =>
        rw [hs, List.modifyHead_cons] at h
        rw [hs] at ih
        intro x hx
        rcases List.mem_cons.mp h with rfl | h
        · rcases List.mem_cons.mp hx with rfl | hx
          · exact ⟨List.mem_cons_self, by simpa using ha⟩
          · obtain ⟨hm, hp⟩ := ih List.mem_cons_self x hx
            exact ⟨List.mem_cons_of_mem _ hm, hp⟩
        · obtain ⟨hm, hp⟩ := ih (List.mem_cons_of_mem _ h) x hx
          exact ⟨List.mem_cons_of_mem _ hm, hp⟩

theorem flatten_splitOnP {α : Type} (p : α → Bool) (xs : List α) : (xs.splitOnP p).flatten = xs.filter (!p ·) := by
  induction xs with
  | nil => rfl
  | cons x rest ih =>
    rw [List.splitOnP_cons_eq_if_modifyHead]
    cases hx : p x with
    | true => rw [if_pos rfl, List.flatten_cons, List.nil_append, ih, List.filter_cons_of_neg (by simp [hx])]
    | false =>
      obtain ⟨part, parts, hparts⟩ := List.exists_cons_of_ne_nil (List.splitOnP_ne_nil p rest)
      rw [hparts] at ih ⊢
      rw [if_neg Bool.false_ne_true, List.filter_cons_of_pos (by simp [hx]), ← ih]
      rfl

/-- A list of which nothing is left between the cuts has only cuts. -/
theorem forall_of_splitOnP_eq_nil {α : Type} {p : α → Bool} {xs : List α} (h : ∀ part ∈ xs.splitOnP p, part = []) :
    ∀ x ∈ xs, p x = true := by
  induction xs with
  | nil => exact fun x hx => absurd hx List.not_mem_nil
  | cons a rest ih =>
    rw [List.splitOnP_cons_eq_if_modifyHead] at h
    split at h
    · rename_i ha
      intro x hx
      rcases List.mem_cons.mp hx with rfl | hx
      · exact ha
      · exact ih (fun part hp => h part (List.mem_cons_of_mem _ hp)) x hx
    · cases hs : rest.splitOnP p with
      | nil => exact absurd hs (List.splitOnP_ne_nil p rest)
      | cons head tail =>
        rw [hs, List.modifyHead_cons] at h
        exact absurd (h _ List.mem_cons_self) (List.cons_ne_nil _ _)

theorem exists_of_mem_studlyChars {cs : List Char} {x : Char} (h : x ∈ studlyChars cs) :
    ∃ c ∈ cs, isJoint c = false ∧ (x = c ∨ x ∈ upperChar c) := by
  obtain ⟨part, hpart, hm⟩ := List.mem_flatMap.mp h
  have hcs : ∀ c ∈ part, c ∈ cs ∧ isJoint c = false := mem_of_mem_splitOnP hpart
  cases part with
  | nil => exact absurd hm List.not_mem_nil
  | cons c rest =>
    rcases List.mem_append.mp hm with hm | hm
    · obtain ⟨hc, hj⟩ := hcs c List.mem_cons_self
      exact ⟨c, hc, hj, .inr hm⟩
    · obtain ⟨hc, hj⟩ := hcs x (List.mem_cons_of_mem _ hm)
      exact ⟨x, hc, hj, .inl rfl⟩

theorem mem_of_mem_studlyChars {cs : List Char} {x : Char} (hx : x ∈ ['/', '\\']) (h : x ∈ studlyChars cs) : x ∈ cs := by
  obtain ⟨c, hc, _, rfl | hm⟩ := exists_of_mem_studlyChars h
  · exact hc
  · exact (uncased_of_mem_slashes hx).eq_of_mem_upperChar hm ▸ hc

/-- Nothing in a studly form joins words. -/
theorem isJoint_of_mem_studlyChars {cs : List Char} {x : Char} (h : x ∈ studlyChars cs) : isJoint x = false := by
  obtain ⟨c, _, hj, rfl | hm⟩ := exists_of_mem_studlyChars h
  · exact hj
  · cases hx : isJoint x with
    | false => rfl
    | true =>
      obtain rfl := (uncased_of_isJoint hx).eq_of_mem_upperChar hm
      exact hx.symm.trans hj

/-- A name that is more than joints has a studly form. -/
theorem studlyChars_ne_nil {cs : List Char} {c : Char} (hc : c ∈ cs) (hj : isJoint c = false) : studlyChars cs ≠ [] := by
  intro h
  have hparts : ∀ part ∈ cs.splitOnP isJoint, part = [] := by
    intro part hpart
    have hnil : upperFirst part = [] := List.flatMap_eq_nil_iff.mp h part hpart
    cases part with
    | nil => rfl
    | cons c rest => exact absurd (List.append_eq_nil_iff.mp hnil).1 (upperChar_ne_nil c)
  exact Bool.false_ne_true (hj.symm.trans (forall_of_splitOnP_eq_nil hparts c hc))

/-! ## Lower case -/

theorem toNat_lt_of_isUpper {c : Char} (hc : c.isUpper = true) : c.toNat < 128 := by
  have hle : c.toNat ≤ 90 := UInt32.le_iff_toNat_le.mp (of_decide_eq_true hc).2
  omega

theorem toLower_eq_self {c : Char} (hc : ¬c.isUpper = true) : c.toLower = c :=
  dif_neg fun h => hc (decide_eq_true h)

/-- The lower case of an ASCII letter passes for the letter wherever case is looked at. -/
theorem toLower_alike (c : Char) : isCased c.toLower = isCased c ∧ isCaseIgnorable c.toLower = isCaseIgnorable c ∧
    lowerChar c.toLower = lowerChar c ∧ (c.toLower = 'Σ' ↔ c = 'Σ') := by
  have hupper : ∀ c : Char, c.toNat < 128 → c.isUpper = true → isCased c.toLower = isCased c ∧
      isCaseIgnorable c.toLower = isCaseIgnorable c ∧ lowerChar c.toLower = lowerChar c ∧ (c.toLower = 'Σ' ↔ c = 'Σ') :=
    forall_ascii (by decide)
  by_cases hc : c.isUpper = true
  · exact hupper c (toNat_lt_of_isUpper hc) hc
  · rw [toLower_eq_self hc]
    exact ⟨rfl, rfl, rfl, Iff.rfl⟩

theorem meetsCased_toLower (cs : List Char) : meetsCased (cs.map Char.toLower) = meetsCased cs := by
  induction cs with
  | nil => rfl
  | cons c rest ih =>
    obtain ⟨hcased, hignorable, _⟩ := toLower_alike c
    unfold meetsCased at ih ⊢
    rw [List.map_cons]
    by_cases hc : isCaseIgnorable c = true
    · rw [List.dropWhile_cons_of_pos (hignorable.trans hc), List.dropWhile_cons_of_pos hc]
      exact ih
    · rw [List.dropWhile_cons_of_neg (hignorable ▸ hc), List.dropWhile_cons_of_neg hc]
      exact hcased

theorem lowerAfter_toLower (before cs : List Char) :
    lowerAfter (before.map Char.toLower) (cs.map Char.toLower) = lowerAfter before cs := by
  induction cs generalizing before with
  | nil => rfl
  | cons c rest ih =>
    obtain ⟨_, _, hlower, hsigma⟩ := toLower_alike c
    have hrest := ih (c :: before)
    rw [List.map_cons] at hrest
    simp only [List.map_cons, lowerAfter, hlower, hsigma, meetsCased_toLower, hrest]

theorem lower_asciiLower (s : String) : lower (asciiLower s) = lower s := by
  unfold lower asciiLower lowerChars
  rw [String.toList_ofList]
  exact congrArg String.ofList (lowerAfter_toLower [] s.toList)

/-- Only a slash becomes that slash in lower case. -/
theorem eq_of_toLower_eq {c x : Char} (hx : x ∈ ['/', '\\']) (h : c.toLower = x) : c = x := by
  have hascii : ∀ x ∈ ['/', '\\'], ∀ c : Char, c.toNat < 128 → c.isUpper = true → c.toLower ≠ x :=
    forall_mem_slashes.mpr ⟨forall_ascii (by decide), forall_ascii (by decide)⟩
  by_cases hc : c.isUpper = true
  · exact absurd h (hascii x hx c (toNat_lt_of_isUpper hc) hc)
  · rw [← h]
    exact (toLower_eq_self hc).symm

/-- Texts that are the same up to the case of ASCII letters are the same in lower case. -/
theorem lower_eq_of_sameAscii {s t u : String} (hs : sameAscii s u = true) (ht : sameAscii t u = true) : lower s = lower t := by
  have h : asciiLower s = asciiLower t := (beq_iff_eq.mp hs).trans (beq_iff_eq.mp ht).symm
  rw [← lower_asciiLower s, h, lower_asciiLower]

end Schemata
