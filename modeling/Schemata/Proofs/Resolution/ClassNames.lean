import Schemata.Proofs.Resolution.ReorderedDeclarations

/-!
# Classes and files of keys

A slash is in a class only if its key is nothing but slashes. So the file of a model that has a name ends in its class, and files
are told apart as classes are.
-/

namespace Schemata.Resolution

open Schemata.Text Schemata.Inflection

variable {settings : Settings} {j k : String}

/-! ## Classes -/

/-- The parts of a key between its slashes. -/
def keyParts (key : String) : List (List Char) :=
  (key.toList.splitOnP isSlash).filter (!·.isEmpty)

/-- Whether the last part of a key is more than joints. -/
def isNamed (key : String) : Bool :=
  (keyParts key).getLast?.any fun part => part.any fun c => !isJoint c

theorem className_identity (settings : Settings) (key : String) :
    (identity settings key).className.toList = studlyChars ((keyParts key).getLast?.getD key.toList) := by
  change (((keyParts key).map fun s => String.ofList (studlyChars s)).getLast?.getD (studly key)).toList = _
  rw [List.getLast?_map]
  cases (keyParts key).getLast? with
  | none => exact String.toList_ofList
  | some part => exact String.toList_ofList

theorem isSlash_eq_false_of_mem_keyParts {part : List Char} (h : part ∈ keyParts k) {c : Char} (hc : c ∈ part) :
    isSlash c = false :=
  (mem_of_mem_splitOnP (List.mem_filter.mp h).1 c hc).2

theorem mem_slashes_iff {c : Char} : c ∈ ['/', '\\'] ↔ isSlash c = true := by
  simp [isSlash]

/-- The class of a key has a slash only if the key is nothing but slashes, and then so is the class. -/
theorem isSlash_of_mem_className {x : Char} (hx : isSlash x = true) (h : x ∈ (identity settings k).className.toList) :
    (∀ c ∈ k.toList, isSlash c = true) ∧ ∀ c ∈ (identity settings k).className.toList, isSlash c = true := by
  rw [className_identity] at h ⊢
  cases hl : (keyParts k).getLast? with
  | some part =>
    rw [hl] at h
    have hm := mem_of_mem_studlyChars (mem_slashes_iff.mpr hx) h
    have hfalse := isSlash_eq_false_of_mem_keyParts (List.mem_of_getLast? hl) hm
    exact absurd (hfalse.symm.trans hx) Bool.false_ne_true
  | none =>
    -- Nothing is left of the key between its slashes, and it is itself the class.
    have hk : ∀ c ∈ k.toList, isSlash c = true := by
      rw [List.getLast?_eq_none_iff, keyParts, List.filter_eq_nil_iff] at hl
      exact forall_of_splitOnP_eq_nil fun part hpart => by simpa using hl part hpart
    refine ⟨hk, fun c hc => ?_⟩
    have hupper : ∀ c ∈ ['/', '\\'], upperChar c = [c] := forall_mem_slashes.mpr (by decide)
    obtain ⟨b, hb, _, rfl | hm⟩ := exists_of_mem_studlyChars hc
    · exact hk c hb
    · rw [hupper b (mem_slashes_iff.mpr (hk b hb)), List.mem_singleton] at hm
      exact hm ▸ hk b hb

theorem className_of_isNamed (h : isNamed k = true) : (identity settings k).className.toList ≠ [] ∧
    ∀ c ∈ (identity settings k).className.toList, isSlash c = false := by
  obtain ⟨part, hl, hpart⟩ := exists_of_any h
  obtain ⟨c, hc, hj⟩ := List.any_eq_true.mp hpart
  have hparts := List.mem_of_getLast? hl
  rw [className_identity, hl]
  refine ⟨studlyChars_ne_nil hc (by simpa using hj), fun x hx => ?_⟩
  by_contra hslash
  rw [Bool.not_eq_false] at hslash
  have hm := mem_of_mem_studlyChars (mem_slashes_iff.mpr hslash) hx
  exact Bool.false_ne_true ((isSlash_eq_false_of_mem_keyParts hparts hm).symm.trans hslash)

/-! ## Files -/

theorem exists_folder (settings : Settings) (key : String) : ∃ folder, (identity settings key).path.toList =
    folder ++ '/' :: ((identity settings key).className.toList ++ ".php".toList) := by
  have hpath : ∀ folder className : String, (folder ++ "/" ++ className ++ ".php").toList =
      folder.toList ++ '/' :: (className.toList ++ ".php".toList) := by
    intro folder className
    simp
  exact ⟨_, hpath _ _⟩

theorem exists_lower_folder (settings : Settings) (key : String) : ∃ folder, (asciiLower (identity settings key).path).toList =
    folder ++ '/' :: ((asciiLower (identity settings key).className).toList ++ ".php".toList) := by
  obtain ⟨folder, hf⟩ := exists_folder settings key
  refine ⟨folder.map Char.toLower, ?_⟩
  unfold asciiLower
  rw [String.toList_ofList, String.toList_ofList, hf]
  simp

/-- What follows the last slash of a text ends whatever follows a slash of it. -/
theorem eq_or_exists_of_append_slash {a b a' b' : List Char} (h : a ++ '/' :: b = a' ++ '/' :: b') (hb : '/' ∉ b) :
    b = b' ∨ ∃ c, b' = c ++ '/' :: b := by
  rcases List.append_eq_append_iff.mp h with ⟨c, -, hc⟩ | ⟨c, -, hc⟩
  · cases c with
    | nil => exact .inl (List.cons.inj hc).2
    | cons x c =>
      have hmem : '/' ∈ b := by
        rw [(List.cons.inj hc).2]
        exact List.mem_append_right c List.mem_cons_self
      exact absurd hmem hb
  · cases c with
    | nil => exact .inl (List.cons.inj hc).2.symm
    | cons x c => exact .inr ⟨c, (List.cons.inj hc).2⟩

theorem toLower_of_isSlash {c : Char} (h : isSlash c = true) : c.toLower = c := by
  have hlower : ∀ c ∈ ['/', '\\'], c.toLower = c := forall_mem_slashes.mpr (by decide)
  exact hlower c (mem_slashes_iff.mpr h)

theorem mem_asciiLower_iff {s : String} {x : Char} (hx : isSlash x = true) : x ∈ (asciiLower s).toList ↔ x ∈ s.toList := by
  unfold asciiLower
  rw [String.toList_ofList, List.mem_map]
  constructor
  · rintro ⟨c, hc, h⟩
    exact eq_of_toLower_eq (mem_slashes_iff.mpr hx) h ▸ hc
  · exact fun h => ⟨x, h, toLower_of_isSlash hx⟩

theorem isSlash_of_mem_asciiLower {s : String} (h : ∀ c ∈ s.toList, isSlash c = true) {x : Char}
    (hx : x ∈ (asciiLower s).toList) : isSlash x = true := by
  unfold asciiLower at hx
  rw [String.toList_ofList] at hx
  obtain ⟨c, hc, rfl⟩ := List.mem_map.mp hx
  rw [toLower_of_isSlash (h c hc)]
  exact h c hc

/-- The file of a model that has a name is only that of a model of its class. -/
theorem sameAscii_className_of_path (hj : isNamed j = true)
    (h : sameAscii (identity settings j).path (identity settings k).path = true) :
    sameAscii (identity settings j).className (identity settings k).className = true := by
  obtain ⟨hne, hslash⟩ : (identity settings j).className.toList ≠ [] ∧
      ∀ c ∈ (identity settings j).className.toList, isSlash c = false := className_of_isNamed hj
  obtain ⟨a, ha⟩ := exists_lower_folder settings j
  obtain ⟨a', ha'⟩ := exists_lower_folder settings k
  have hlower : ∀ c ∈ (asciiLower (identity settings j).className).toList, isSlash c = false := by
    intro c hc
    by_contra hs
    rw [Bool.not_eq_false] at hs
    exact Bool.false_ne_true ((hslash c ((mem_asciiLower_iff hs).mp hc)).symm.trans hs)
  have hb : '/' ∉ (asciiLower (identity settings j).className).toList ++ ".php".toList := by
    intro hm
    rcases List.mem_append.mp hm with hm | hm
    · exact absurd (hlower _ hm) (by decide)
    · exact absurd hm (by decide)
  have heq : asciiLower (identity settings j).path = asciiLower (identity settings k).path := beq_iff_eq.mp h
  rw [← String.toList_inj, ha, ha'] at heq
  rcases eq_or_exists_of_append_slash heq hb with hclass | ⟨c, hc⟩
  · exact beq_iff_eq.mpr (String.toList_inj.mp (List.append_cancel_right hclass))
  · -- The other class would have a slash, and so would be nothing but slashes, but it ends in the class that has none.
    rw [← List.cons_append, ← List.append_assoc] at hc
    have hend := List.append_cancel_right hc
    have hmem : '/' ∈ (identity settings k).className.toList :=
      (mem_asciiLower_iff (by decide)).mp (hend ▸ List.mem_append_right c List.mem_cons_self)
    obtain ⟨x, rest, hx⟩ := List.exists_cons_of_ne_nil hne
    have hxj : x.toLower ∈ (asciiLower (identity settings j).className).toList := by
      unfold asciiLower
      rw [String.toList_ofList, hx]
      exact List.mem_cons_self
    have hxk : x.toLower ∈ (asciiLower (identity settings k).className).toList := by
      rw [hend]
      exact List.mem_append_right c (List.mem_cons_of_mem _ hxj)
    have htrue := isSlash_of_mem_asciiLower (isSlash_of_mem_className (by decide) hmem).2 hxk
    exact absurd ((hlower _ hxj).symm.trans htrue) Bool.false_ne_true

end Schemata.Resolution
