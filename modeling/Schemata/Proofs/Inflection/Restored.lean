import Schemata.Convention
import Schemata.Proofs.Inflection.Segments

/-!
# Words that their plural gives back

Two words may have one plural, as `cach` and `cache` have, and a plural may read as a singular, as `taxis` does. So a word
comes back from its plural by the ending of its last segment. By the name of a relation to many models, the class that comes back
is tried first.
-/

namespace Schemata.Inflection

open Schemata.Text

/-! ## The endings that are kept -/

/-- Words whose plural has a singular of its own, or none. -/
def lostWords : List String :=
  ["cooky", "movy", "new", "py", "sery", "specy", "ty", "zomby"]

/-- Endings whose plural is read as that of another ending, or as no plural. -/
def lostEndings : List String :=
  ["che", "i", "ous", "she", "sse", "u", "xe", "ze"]

/-- The words in `ie` whose plural is not read as that of a word in `y`. -/
def ieWords : List String :=
  ["cookie", "ie", "movie", "pie", "tie", "zombie"]

/-- The plural of a word in lower case is told apart from the plurals of other words and from singulars. -/
structure Distinct (low : List Char) : Prop where
  plural : String.ofList low ∉ irregular.map Prod.snd
  word : String.ofList low ∉ lostWords
  ending : ∀ ending ∈ lostEndings, endsIn low ending = false
  sibilant : endsIn low "s" = true → endsIn low "ss" = true ∨ endsIn low "us" = true
  use : endsIn low "use" = true → endsIn low "ouse" = true
  ie : endsIn low "ie" = true → String.ofList low ∈ ieWords

/-- Whether a word comes back from its plural, by its last segment in lower case. -/
def Restored (low : List Char) : Prop :=
  String.ofList low ∈ uncountable ∨ Distinct low

instance (low : List Char) : Decidable (Distinct low) :=
  decidable_of_iff (String.ofList low ∉ irregular.map Prod.snd ∧ String.ofList low ∉ lostWords ∧
      (∀ ending ∈ lostEndings, endsIn low ending = false) ∧
      (endsIn low "s" = true → endsIn low "ss" = true ∨ endsIn low "us" = true) ∧
      (endsIn low "use" = true → endsIn low "ouse" = true) ∧ (endsIn low "ie" = true → String.ofList low ∈ ieWords))
    ⟨fun ⟨h₁, h₂, h₃, h₄, h₅, h₆⟩ => ⟨h₁, h₂, h₃, h₄, h₅, h₆⟩, fun h => ⟨h.1, h.2, h.3, h.4, h.5, h.6⟩⟩

instance (low : List Char) : Decidable (Restored low) :=
  inferInstanceAs (Decidable (_ ∨ _))

/-! ## Words with a rule of their own -/

/-- The words whose plural may be `plural` by the rules for endings. -/
def stems (plural : String) : List String :=
  [dropEnd 1 plural.toList, dropEnd 2 plural.toList, dropEnd 3 plural.toList ++ ['y']].map String.ofList

/-- The words that are looked up, and those whose plural is. -/
def ruledWords : List String :=
  uncountable ++ irregular.map Prod.fst ++ irregular.map Prod.snd ++ ieWords ++
    ((uncountable ++ iePlurals).filter (endsIn ·.toList "s")).flatMap stems

theorem singularChars_pluralChars_of_ruled : ∀ word ∈ ruledWords,
    singularChars (pluralChars word.toList) = word.toList ↔ Restored word.toList := by
  decide +kernel

variable {low : List Char}

theorem lostWords_subset : lostWords ⊆ ruledWords := by
  decide +kernel

/-- A word without a rule of its own comes back by its ending. -/
theorem restored_iff_of_not_ruled (h : String.ofList low ∉ ruledWords) : Restored low ↔
    (∀ ending ∈ lostEndings, endsIn low ending = false) ∧
      (endsIn low "s" = true → endsIn low "ss" = true ∨ endsIn low "us" = true) ∧
      (endsIn low "use" = true → endsIn low "ouse" = true) ∧ endsIn low "ie" = false := by
  have hlost : String.ofList low ∉ lostWords := fun hm => h (lostWords_subset hm)
  simp only [ruledWords, List.mem_append, not_or] at h
  obtain ⟨⟨⟨⟨hfixed, _⟩, hplural⟩, hie⟩, _⟩ := h
  constructor
  · rintro (hm | ⟨_, _, hending, hs, huse, hieWord⟩)
    · exact absurd hm hfixed
    · exact ⟨hending, hs, huse, Bool.eq_false_iff.mpr fun he => hie (hieWord he)⟩
  · rintro ⟨hending, hs, huse, hieEnd⟩
    exact .inr ⟨hplural, hlost, hending, hs, huse, fun he => absurd (hieEnd ▸ he) Bool.false_ne_true⟩

theorem find?_irregular_eq_none {f : String × String → String} {key : String} (h : key ∉ irregular.map f) :
    irregular.find? (f · == key) = none :=
  List.find?_eq_none.mpr fun pair hpair he => h (List.mem_map.mpr ⟨pair, hpair, beq_iff_eq.mp he⟩)

theorem any_irregular_eq_false {f : String × String → String} {key : String} (h : key ∉ irregular.map f) :
    irregular.any (f · == key) = false :=
  List.any_eq_false.mpr fun pair hpair he => h (List.mem_map.mpr ⟨pair, hpair, beq_iff_eq.mp he⟩)

theorem pluralChars_of_not_ruled (hword : LowerWord low) (h : String.ofList low ∉ ruledWords) : pluralChars low =
    if endsInConsonantY low then dropEnd 1 low ++ "ies".toList
    else if ["s", "sh", "ch", "x", "z"].any (endsIn low) then low ++ "es".toList
    else low ++ "s".toList := by
  simp only [ruledWords, List.mem_append, not_or] at h
  obtain ⟨⟨⟨⟨hfixed, hone⟩, hmany⟩, _⟩, _⟩ := h
  have hnone := find?_irregular_eq_none hone
  have hany := any_irregular_eq_false hmany
  unfold pluralChars
  simp only [lastSegment_lower hword, lowerChars_lower hword, hnone, hany]
  simp [hword.ne_nil, hfixed]

theorem dropEnd_concat (n : Nat) (cs : List Char) (c : Char) : dropEnd (n + 1) (cs ++ [c]) = dropEnd n cs := by
  rw [dropEnd, dropEnd, List.length_append, List.length_singleton, Nat.add_sub_add_right]
  exact List.take_append_of_le_length (Nat.sub_le _ _)

theorem dropEnd_zero (cs : List Char) : dropEnd 0 cs = cs :=
  List.take_length

/-- The singular of a plural in `s`, by the ending before. -/
theorem singularChars_append_s (hword : LowerWord low) (h : String.ofList (low ++ ['s']) ∉ uncountable ++ iePlurals) :
    singularChars (low ++ ['s']) =
      if endsIn low "ie" && 2 < low.length then dropEnd 2 low ++ ['y']
      else if endsIn low "ouse" then low
      else if ["sse", "use", "che", "she", "xe", "ze"].any (endsIn low) then dropEnd 1 low
      else if ["s", "u", "i"].any (endsIn low) then low ++ ['s']
      else low := by
  have hplural : LowerWord (low ++ ['s']) := hword.append (by decide)
  have hlast : ∀ word ∈ irregular.map Prod.fst ++ irregular.map Prod.snd, word.toList.getLast? ≠ some 's' := by decide
  have hirregular : String.ofList (low ++ ['s']) ∉ irregular.map Prod.fst ++ irregular.map Prod.snd := fun hm =>
    hlast _ hm (by rw [String.toList_ofList, List.getLast?_concat])
  rw [List.mem_append, not_or] at h hirregular
  obtain ⟨hfixed, hie⟩ := h
  have hnone := find?_irregular_eq_none hirregular.2
  have hany := any_irregular_eq_false hirregular.1
  have hlength : 0 < low.length := List.length_pos_iff.mpr hword.ne_nil
  unfold singularChars
  simp only [lastSegment_lower hplural, lowerChars_lower hplural, hnone, hany, dropEnd_concat, dropEnd_zero]
  rw [if_neg (by simpa using hfixed), if_neg Bool.false_ne_true, if_neg (by simpa using hie)]
  have hthree : 3 < low.length + 1 ↔ 2 < low.length := Nat.succ_lt_succ_iff
  simp [endsIn, List.isSuffixOf, hlength, hthree]

/-! ## The three regular plurals -/

theorem ruled_of_mem_stems {cs : List Char} (h : String.ofList (cs ++ ['s']) ∈ uncountable ++ iePlurals)
    (hs : String.ofList low ∈ stems (String.ofList (cs ++ ['s']))) : String.ofList low ∈ ruledWords := by
  have hends : endsIn (String.ofList (cs ++ ['s'])).toList "s" = true := by simp [endsIn, List.isSuffixOf]
  exact List.mem_append_right _ (List.mem_flatMap.mpr ⟨_, List.mem_filter.mpr ⟨h, hends⟩, hs⟩)

theorem endsIn_iff {cs : List Char} {ending : String} : endsIn cs ending = true ↔ ∃ stem, cs = stem ++ ending.toList :=
  List.isSuffixOf_iff_suffix.trans ⟨fun ⟨stem, h⟩ => ⟨stem, h.symm⟩, fun ⟨stem, h⟩ => ⟨stem, h.symm⟩⟩

theorem exists_of_endsInConsonantY {cs : List Char} (h : endsInConsonantY cs = true) : ∃ stem x, cs = stem ++ [x, 'y'] := by
  unfold endsInConsonantY at h
  split at h
  · rename_i x stem heq
    refine ⟨stem.reverse, x, ?_⟩
    rw [← List.reverse_reverse cs, heq]
    simp
  · exact absurd h Bool.false_ne_true

/-- A word in `y` comes back from its plural in `ies`. -/
theorem restored_of_y (hword : LowerWord low) (h : String.ofList low ∉ ruledWords) (hy : endsInConsonantY low = true) :
    singularChars (pluralChars low) = low ∧ Restored low := by
  have hplural : pluralChars low = dropEnd 1 low ++ "ies".toList := by rw [pluralChars_of_not_ruled hword h, if_pos hy]
  have hiff := restored_iff_of_not_ruled h
  obtain ⟨stem, x, rfl⟩ := exists_of_endsInConsonantY hy
  have hies : dropEnd 1 (stem ++ [x, 'y']) ++ "ies".toList = stem ++ [x, 'i', 'e'] ++ ['s'] := by
    simp [dropEnd, List.take_append, List.take_of_length_le]
  have hlower : LowerWord (stem ++ [x, 'i', 'e']) := by
    have hstem : ∀ c ∈ stem ++ [x], c.isLower = true := fun c hc =>
      hword.lower c (by rw [List.append_cons]; exact List.mem_append_left _ hc)
    rw [List.append_cons]
    exact LowerWord.append ⟨by simp, hstem⟩ (by decide)
  have hregular : String.ofList (stem ++ [x, 'i', 'e'] ++ ['s']) ∉ uncountable ++ iePlurals := by
    refine fun hm => h (ruled_of_mem_stems hm ?_)
    simp [stems, dropEnd, List.take_append, List.take_of_length_le]
  refine ⟨?_, hiff.mpr ?_⟩
  · rw [hplural, hies, singularChars_append_s hlower hregular, if_pos]
    · simp [dropEnd, List.take_append, List.take_of_length_le]
    · simp [endsIn, List.isSuffixOf]
  · simp [endsIn, List.isSuffixOf, List.isPrefixOf, lostEndings]

/-- A word before `es` comes back from its plural if it ends in two letters. -/
theorem restored_iff_of_sibilant (hword : LowerWord low) (h : String.ofList low ∉ ruledWords)
    (hy : endsInConsonantY low = false) (hs : ["s", "sh", "ch", "x", "z"].any (endsIn low) = true) :
    singularChars (pluralChars low) = low ↔ Restored low := by
  have hplural : pluralChars low = low ++ ['e'] ++ ['s'] := by
    rw [pluralChars_of_not_ruled hword h, hy, if_neg Bool.false_ne_true, if_pos hs, List.append_assoc]
    rfl
  have hregular : String.ofList (low ++ ['e'] ++ ['s']) ∉ uncountable ++ iePlurals := by
    refine fun hm => h (ruled_of_mem_stems hm ?_)
    simp [stems, dropEnd]
  rw [hplural, singularChars_append_s (hword.append (by decide)) hregular, restored_iff_of_not_ruled h]
  obtain ⟨ending, hmem, hends⟩ := List.any_eq_true.mp hs
  obtain ⟨stem, rfl⟩ := endsIn_iff.mp hends
  simp only [List.mem_cons, List.not_mem_nil, or_false] at hmem
  obtain rfl | rfl | rfl | rfl | rfl := hmem
  all_goals simp [endsIn, List.isSuffixOf, List.isPrefixOf, lostEndings, dropEnd, List.take_append, List.take_of_length_le,
    -List.isPrefixOf_iff_prefix]
  -- Only after a lone `s` do the letters before decide.
  cases ['u', 'o'].isPrefixOf stem.reverse
  · cases ['s'].isPrefixOf stem.reverse
    · cases ['u'].isPrefixOf stem.reverse <;> simp
    · simp
  · simp

theorem endsIn_of_endsIn {cs : List Char} {longer shorter : String} (hl : endsIn longer.toList shorter = true)
    (h : endsIn cs longer = true) : endsIn cs shorter = true :=
  List.isSuffixOf_iff_suffix.mpr ((List.isSuffixOf_iff_suffix.mp hl).trans (List.isSuffixOf_iff_suffix.mp h))

theorem not_restored_of_ie (h : String.ofList low ∉ ruledWords) (hie : endsIn low "ie" = true) : ¬Restored low := fun hr =>
  Bool.false_ne_true (((restored_iff_of_not_ruled h).mp hr).2.2.2.symm.trans hie)

/-- The plural of a word is read as that of the word without its last letter. -/
theorem not_restored_of_cut (h : String.ofList low ∉ ruledWords) (house : endsIn low "ouse" ≠ true)
    (hcut : ["sse", "use", "che", "she", "xe", "ze"].any (endsIn low) = true) : ¬Restored low := by
  intro hr
  obtain ⟨hending, _, huse, _⟩ := (restored_iff_of_not_ruled h).mp hr
  simp only [lostEndings, List.forall_mem_cons] at hending
  simp only [List.any_cons, List.any_nil, Bool.or_eq_true] at hcut
  grind

/-- The plural of a word is read as a singular. -/
theorem not_restored_of_singular (h : String.ofList low ∉ ruledWords) (hplain : endsIn low "s" = false)
    (hsingular : ["s", "u", "i"].any (endsIn low) = true) : ¬Restored low := by
  intro hr
  obtain ⟨hending, _⟩ := (restored_iff_of_not_ruled h).mp hr
  simp only [lostEndings, List.forall_mem_cons] at hending
  simp only [List.any_cons, List.any_nil, Bool.or_eq_true] at hsingular
  grind

theorem restored_of_uncut (h : String.ofList low ∉ ruledWords) (hplain : endsIn low "s" = false) (hie : endsIn low "ie" ≠ true)
    (hcut : ¬["sse", "use", "che", "she", "xe", "ze"].any (endsIn low) = true)
    (hsingular : ¬["s", "u", "i"].any (endsIn low) = true) : Restored low := by
  have hous : endsIn low "ous" = false :=
    Bool.eq_false_iff.mpr fun he => Bool.false_ne_true (hplain.symm.trans (endsIn_of_endsIn (by decide) he))
  simp only [List.any_cons, List.any_nil, Bool.or_eq_true, not_or] at hcut hsingular
  refine (restored_iff_of_not_ruled h).mpr ⟨?_, fun he => ?_, fun he => ?_, Bool.eq_false_iff.mpr hie⟩
  · simp only [lostEndings, List.forall_mem_cons]
    grind
  · exact absurd (hplain ▸ he) Bool.false_ne_true
  · exact absurd he hcut.2.1

theorem restored_of_ouse {stem : List Char} (h : String.ofList (stem ++ "ouse".toList) ∉ ruledWords) :
    Restored (stem ++ "ouse".toList) := by
  rw [restored_iff_of_not_ruled h]
  simp [endsIn, List.isSuffixOf, List.isPrefixOf, lostEndings, -List.isPrefixOf_iff_prefix]

/-- A word before `s` comes back from its plural if that is read as no other plural. -/
theorem restored_iff_of_plain (hword : LowerWord low) (h : String.ofList low ∉ ruledWords)
    (hy : endsInConsonantY low = false) (hs : ["s", "sh", "ch", "x", "z"].any (endsIn low) = false) :
    singularChars (pluralChars low) = low ↔ Restored low := by
  have hplural : pluralChars low = low ++ ['s'] := by
    rw [pluralChars_of_not_ruled hword h, hy, hs, if_neg Bool.false_ne_true, if_neg Bool.false_ne_true]
    rfl
  have hregular : String.ofList (low ++ ['s']) ∉ uncountable ++ iePlurals := by
    refine fun hm => h (ruled_of_mem_stems hm ?_)
    simp [stems, dropEnd]
  rw [hplural, singularChars_append_s hword hregular]
  have hplain : endsIn low "s" = false := Bool.eq_false_iff.mpr (List.any_eq_false.mp hs "s" (by simp))
  have hpositive : 0 < low.length := List.length_pos_iff.mpr hword.ne_nil
  by_cases hie : endsIn low "ie" = true
  · have hlength : 2 < low.length := by
      obtain ⟨stem, rfl⟩ := endsIn_iff.mp hie
      have hstem : 0 < stem.length := List.length_pos_iff.mpr fun he => h (by rw [he]; decide +kernel)
      simpa using hstem
    have hchanged : dropEnd 2 low ++ ['y'] ≠ low := fun he => by
      rw [← he] at hie
      simp [endsIn, List.isSuffixOf] at hie
    rw [if_pos (by simp [hie, hlength])]
    exact iff_of_false hchanged (not_restored_of_ie h hie)
  rw [if_neg (by simp [hie])]
  by_cases house : endsIn low "ouse" = true
  · obtain ⟨stem, rfl⟩ := endsIn_iff.mp house
    rw [if_pos house]
    exact iff_of_true rfl (restored_of_ouse h)
  rw [if_neg house]
  by_cases hcut : ["sse", "use", "che", "she", "xe", "ze"].any (endsIn low) = true
  · have hchanged : dropEnd 1 low ≠ low := fun he => by
      have hlength := congrArg List.length he
      rw [dropEnd, List.length_take] at hlength
      omega
    rw [if_pos hcut]
    exact iff_of_false hchanged (not_restored_of_cut h house hcut)
  rw [if_neg hcut]
  by_cases hsingular : ["s", "u", "i"].any (endsIn low) = true
  · have hchanged : low ++ ['s'] ≠ low := by simp
    rw [if_pos hsingular]
    exact iff_of_false hchanged (not_restored_of_singular h hplain hsingular)
  rw [if_neg hsingular]
  exact iff_of_true rfl (restored_of_uncut h hplain hie hcut hsingular)

/-- A word in lower case comes back from its plural if no other word has that plural and the plural is not read as a singular. -/
theorem singularChars_pluralChars_iff (hword : LowerWord low) : singularChars (pluralChars low) = low ↔ Restored low := by
  by_cases h : String.ofList low ∈ ruledWords
  · simpa using singularChars_pluralChars_of_ruled _ h
  · cases hy : endsInConsonantY low with
    | true =>
      obtain ⟨hback, hrestored⟩ := restored_of_y hword h hy
      exact iff_of_true hback hrestored
    | false =>
      cases hs : ["s", "sh", "ch", "x", "z"].any (endsIn low) with
      | true => exact restored_iff_of_sibilant hword h hy hs
      | false => exact restored_iff_of_plain hword h hy hs

/-! ## Names of relations -/

/-- The last segment of a word in lower case. -/
def lastLower (word : String) : List Char :=
  lowerChars (lastSegment word.toList).2

theorem head?_modelCandidates {kind : RelationKind} (hkind : kind.isCollection = true) (name : String) :
    (Convention.modelCandidates kind name).head? = some (studly (singular name)) := by
  have hmany : [RelationKind.belongsTo, .morphOne].contains kind = false := by
    cases kind <;> first | rfl | cases hkind
  rw [Convention.modelCandidates, hmany, if_neg Bool.false_ne_true, List.eraseDups_cons]
  rfl

/-- The class of a name that is a plural with a lower case start is the name's word, if that comes back and is a class name. -/
theorem studly_singular_iff {word : String} (hcs : word.toList ≠ []) (hletters : ∀ c ∈ word.toList, c.isAlpha = true) :
    studly (singular (plural (String.ofList (lowerFirst word.toList)))) = word ↔
      (∀ c ∈ word.toList.head?, c.isUpper = true) ∧ Restored (lastLower word) := by
  obtain ⟨head, capital, low, hjoined, hupper, hstudly, hstart⟩ := exists_joined_studly hcs hletters
  have hlower := (singularChars_pluralChars hjoined).2
  have hclass : studly (singular (plural (String.ofList (lowerFirst word.toList)))) = word ↔
      join head capital (singularChars (pluralChars low)) = word.toList := by
    rw [studly, singular, plural, String.toList_ofList, String.toList_ofList, String.toList_ofList, hstudly, ← String.toList_inj,
      String.toList_ofList]
  have hlast : (∀ c ∈ word.toList.head?, c.isUpper = true) → word.toList = join head capital low ∧ lastLower word = low := by
    intro hcapital
    have hword := (upperFirst_eq_self hcapital).symm.trans hupper
    exact ⟨hword, by rw [lastLower, hword, lowerChars_lastSegment hjoined]⟩
  rw [hclass]
  constructor
  · intro he
    have hcapital : ∀ c ∈ word.toList.head?, c.isUpper = true := he ▸ hstart
    obtain ⟨hword, hlow⟩ := hlast hcapital
    refine ⟨hcapital, hlow ▸ (singularChars_pluralChars_iff hjoined.word).mp ?_⟩
    exact join_inj ⟨hlower, hjoined.capital⟩ hjoined (he.trans hword)
  · rintro ⟨hcapital, hrestored⟩
    obtain ⟨hword, hlow⟩ := hlast hcapital
    rw [(singularChars_pluralChars_iff hjoined.word).mpr (hlow ▸ hrestored), hword]

/-- A word of letters comes back from its plural if its last segment does. -/
theorem singular_plural_eq_iff {word : String} (hcs : word.toList ≠ []) (hletters : ∀ c ∈ word.toList, c.isAlpha = true) :
    singular (plural word) = word ↔ Restored (lastLower word) := by
  obtain ⟨head, capital, low, hjoined, hword⟩ := exists_joined hcs hletters
  obtain ⟨hback, hlower⟩ := singularChars_pluralChars hjoined
  have hlast : lastLower word = low := by rw [lastLower, hword, lowerChars_lastSegment hjoined]
  rw [hlast, ← singularChars_pluralChars_iff hjoined.word, singular, plural, String.toList_ofList, ← String.toList_inj,
    String.toList_ofList, hword, hback]
  exact ⟨fun he => join_inj ⟨hlower, hjoined.capital⟩ hjoined he, fun he => by rw [he]⟩

end Schemata.Inflection
