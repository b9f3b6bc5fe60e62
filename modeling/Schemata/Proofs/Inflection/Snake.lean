import Schemata.Proofs.Text

/-!
# Snake case

The snake form of an ASCII name is in lower case, and has single underscores after other characters alone. Such a form is its own
snake form, and its words are those of the name up to case.
-/

namespace Schemata.Inflection

open Schemata.Text

/-! ## ASCII characters -/

theorem toLower_facts {c : Char} (hc : c.toNat < 128) :
    c.toLower.toNat < 128 ∧ isJoint c.toLower = isJoint c ∧ c.toLower.isUpper = false ∧ c.toLower.toLower = c.toLower := by
  have hall : ∀ c : Char, c.toNat < 128 → c.toLower.toNat < 128 ∧ isJoint c.toLower = isJoint c ∧ c.toLower.isUpper = false ∧
      c.toLower.toLower = c.toLower := forall_ascii (by decide)
  exact hall c hc

theorem toUpper_facts {c : Char} (hc : c.toNat < 128) : c.toUpper.toNat < 128 ∧ c.toUpper.toLower = c.toLower := by
  have hall : ∀ c : Char, c.toNat < 128 → c.toUpper.toNat < 128 ∧ c.toUpper.toLower = c.toLower := forall_ascii (by decide)
  exact hall c hc

/-- What has a word start after it is no joint. -/
theorem isJoint_of_startsWord {before : Char} {after : Option Char} (h : startsWord before after = true) :
    isJoint before = false := by
  rw [← Bool.not_eq_true, isJoint_iff]
  have hcases : isLowercase before = true ∨ before.isDigit = true ∨ isUppercase before = true := by
    simp only [startsWord, Bool.or_eq_true, Bool.and_eq_true] at h
    tauto
  rintro ((rfl | rfl) | rfl) <;> revert hcases <;> decide

/-! ## The form -/

/-- A text in snake case after `written` as the last character before it. -/
inductive Snaked : Option Char → List Char → Prop
  | nil {written : Option Char} : Snaked written []
  | joint {c : Char} {cs : List Char} (ne : c ≠ '_') (rest : Snaked (some '_') cs) : Snaked (some c) ('_' :: cs)
  | letter {written : Option Char} {c : Char} {cs : List Char} (ascii : c.toNat < 128) (word : isJoint c = false)
      (lower : c.isUpper = false) (rest : Snaked (some c) cs) : Snaked written (c :: cs)

variable {before written : Option Char} {cs : List Char}

/-- Each character is written so that the form goes on. An underscore is put before a capital only after a character of a word,
which has been written. -/
theorem snaked_snakeAfter (h : ∀ c ∈ cs, c.toNat < 128) (hbefore : ∀ b ∈ before, isJoint b = false → written ≠ none) :
    Snaked written (snakeAfter before written cs) := by
  induction cs generalizing before written with
  | nil => exact .nil
  | cons c rest ih =>
    have hc := h c List.mem_cons_self
    have hascii : ∀ c ∈ rest, c.toNat < 128 := fun x hx => h x (List.mem_cons_of_mem _ hx)
    rw [snakeAfter]
    cases hj : isJoint c with
    | true =>
      have hafter : ∀ {written : Option Char}, ∀ b ∈ some c, isJoint b = false → written ≠ none := by
        rintro _ _ ⟨⟩ hb
        exact absurd (hj.symm.trans hb) (by simp)
      rw [if_pos rfl]
      split
      · rename_i hw
        obtain ⟨hsome, hne⟩ := Bool.and_eq_true_iff.mp hw
        obtain ⟨w, rfl⟩ := Option.isSome_iff_exists.mp hsome
        exact .joint (fun he => bne_iff_ne.mp hne (congrArg some he)) (ih hascii hafter)
      · exact ih hascii hafter
    | false =>
      obtain ⟨hl, hword, hlower, _⟩ := toLower_facts hc
      have hletter : ∀ w, Snaked w (c.toLower :: snakeAfter (some c) (some c.toLower) rest) := fun w =>
        .letter hl (hword.trans hj) hlower (ih hascii fun _ _ _ => Option.some_ne_none _)
      rw [if_neg Bool.false_ne_true, lowerChar_of_ascii hc]
      dsimp only
      split
      · rename_i hboundary
        simp only [Bool.and_eq_true, Option.any_eq_true] at hboundary
        obtain ⟨⟨_, b, rfl, hstarts⟩, hne⟩ := hboundary
        obtain ⟨w, rfl⟩ := Option.ne_none_iff_exists'.mp (hbefore b rfl (isJoint_of_startsWord hstarts))
        exact .joint (fun he => bne_iff_ne.mp hne (congrArg some he)) (hletter _)
      · exact hletter written

theorem snaked_snakeChars (h : ∀ c ∈ cs, c.toNat < 128) : Snaked none (snakeChars cs) :=
  snaked_snakeAfter h nofun

namespace Snaked

variable (h : Snaked written cs)
include h

/-- What is in the form is written as it is. -/
theorem snakeAfter_eq (before : Option Char) : snakeAfter before written cs = cs := by
  induction h generalizing before with
  | nil => rfl
  | @joint c cs ne _ ih =>
    have hguard : ((some c).isSome && some c != some '_') = true := by simp [ne]
    have hunder : isJoint '_' = true := by decide
    rw [snakeAfter, if_pos hunder, if_pos hguard, ih]
  | letter ascii word lower _ ih =>
    rw [snakeAfter, word, if_neg Bool.false_ne_true, isUppercase_of_ascii ascii, lower, lowerChar_of_ascii ascii,
      toLower_eq_self (by simp [lower])]
    exact congrArg (_ :: ·) (ih _)

theorem facts : ∀ c ∈ cs, c.toNat < 128 ∧ isUppercase c = false := by
  induction h with
  | nil => exact nofun
  | joint _ _ ih => exact List.forall_mem_cons.mpr ⟨by decide, ih⟩
  | letter ascii _ lower _ ih => exact List.forall_mem_cons.mpr ⟨⟨ascii, (isUppercase_of_ascii ascii).trans lower⟩, ih⟩

theorem head?_ne (hwritten : ∀ w ∈ written, w = '_') : cs.head? ≠ some '_' := by
  cases h with
  | nil => exact nofun
  | joint ne _ => exact absurd (hwritten _ rfl) ne
  | letter _ word _ _ =>
    rintro ⟨⟩
    cases word

theorem not_isInfix : ¬['_', '_'] <:+: cs := by
  induction h with
  | nil => simp
  | joint _ hrest ih =>
    rw [List.infix_cons_iff, not_or]
    refine ⟨fun hp => ?_, ih⟩
    obtain ⟨rest, hcs⟩ := hp
    refine hrest.head?_ne (by simp) ?_
    rw [← (List.cons.inj hcs).2]
    rfl
  | letter _ word _ _ ih =>
    rw [List.infix_cons_iff, not_or]
    refine ⟨fun hp => ?_, ih⟩
    obtain ⟨rest, hcs⟩ := hp
    obtain rfl := (List.cons.inj hcs).1
    cases word

end Snaked

/-! ## Words -/

/-- The snake form has the characters of the words, in lower case. -/
theorem filter_snakeAfter (h : ∀ c ∈ cs, c.toNat < 128) : (snakeAfter before written cs).filter (!isJoint ·) =
    (cs.filter (!isJoint ·)).map Char.toLower := by
  induction cs generalizing before written with
  | nil => rfl
  | cons c rest ih =>
    have hc := h c List.mem_cons_self
    have hrest : ∀ {before written}, (snakeAfter before written rest).filter (!isJoint ·) =
        (rest.filter (!isJoint ·)).map Char.toLower := ih fun x hx => h x (List.mem_cons_of_mem _ hx)
    rw [snakeAfter]
    cases hj : isJoint c with
    | true =>
      rw [if_pos rfl, List.filter_cons_of_neg (by simp [hj])]
      split
      · exact hrest
      · exact hrest
    | false =>
      have hlower : isJoint c.toLower = false := (toLower_facts hc).2.1.trans hj
      have hjoint : ∀ b : Bool, (if b = true then ['_'] else []).filter (!isJoint ·) = [] := by decide
      rw [if_neg Bool.false_ne_true, lowerChar_of_ascii hc, List.filter_cons_of_pos (by simp [hj])]
      dsimp only
      rw [List.append_assoc, List.filter_append, hjoint, List.nil_append, List.singleton_append,
        List.filter_cons_of_pos (by simp [hlower]), hrest]
      rfl

theorem toLower_upperFirst (h : ∀ c ∈ cs, c.toNat < 128) : (upperFirst cs).map Char.toLower = cs.map Char.toLower := by
  cases cs with
  | nil => rfl
  | cons c rest =>
    have hc := h c List.mem_cons_self
    rw [upperFirst, upperChar_of_ascii hc, List.singleton_append, List.map_cons, (toUpper_facts hc).2]
    rfl

theorem ascii_studlyChars (h : ∀ c ∈ cs, c.toNat < 128) : ∀ c ∈ studlyChars cs, c.toNat < 128 := by
  intro x hx
  obtain ⟨c, hc, _, rfl | hm⟩ := exists_of_mem_studlyChars hx
  · exact h x hc
  · rw [upperChar_of_ascii (h c hc), List.mem_singleton] at hm
    exact hm ▸ (toUpper_facts (h c hc)).1

/-- So has the studly form, up to case. -/
theorem toLower_studlyChars (h : ∀ c ∈ cs, c.toNat < 128) :
    (studlyChars cs).map Char.toLower = (cs.filter (!isJoint ·)).map Char.toLower := by
  have hparts : ∀ part ∈ cs.splitOnP isJoint, (upperFirst part).map Char.toLower = part.map Char.toLower :=
    fun part hpart => toLower_upperFirst fun c hc => h c (mem_of_mem_splitOnP hpart c hc).1
  rw [← flatten_splitOnP, studlyChars, List.map_flatMap, List.flatMap_congr hparts, List.map_flatten, List.flatMap_def]

theorem studlyChars_of_word (h : ∀ c ∈ cs, isJoint c = false) : studlyChars cs = upperFirst cs := by
  rw [studlyChars, List.splitOnP_eq_singleton h, List.flatMap_cons, List.flatMap_nil, List.append_nil]

/-! ## Names -/

/-- A text of ASCII characters. -/
def IsAscii (s : String) : Prop :=
  ∀ c ∈ s.toList, c.toNat < 128

instance (s : String) : Decidable (IsAscii s) :=
  decidable_of_iff (s.toList.all fun c => c.toNat < 128) (by simp [IsAscii])

variable {s : String} (h : IsAscii s)
include h

theorem snaked_snake : Snaked none (snake s).toList := by
  rw [snake, String.toList_ofList]
  exact snaked_snakeChars h

theorem snake_snake : snake (snake s) = snake s := by
  have hsnake : snake (snake s) = String.ofList (snakeAfter none none (snake s).toList) := rfl
  rw [hsnake, (snaked_snake h).snakeAfter_eq, String.ofList_toList]

theorem isAscii_snake : IsAscii (snake s) :=
  fun c hc => ((snaked_snake h).facts c hc).1

theorem isAscii_studly : IsAscii (studly s) := by
  rw [IsAscii, studly, String.toList_ofList]
  exact ascii_studlyChars h

theorem sameAscii_studly_snake : sameAscii (studly (snake s)) (studly s) = true := by
  have hwords : ((snake s).toList.filter (!isJoint ·)).map Char.toLower = (s.toList.filter (!isJoint ·)).map Char.toLower := by
    rw [snake, String.toList_ofList, snakeChars, filter_snakeAfter h, List.map_map]
    exact List.map_congr_left fun c hc => (toLower_facts (h c (List.mem_of_mem_filter hc))).2.2.2
  unfold sameAscii asciiLower studly
  rw [String.toList_ofList, String.toList_ofList, toLower_studlyChars (isAscii_snake h), toLower_studlyChars h, hwords,
    beq_self_eq_true]

/-- A word is its own studly form up to case. -/
theorem sameAscii_studly (hword : ∀ c ∈ s.toList, isJoint c = false) : sameAscii (studly s) s = true := by
  unfold sameAscii asciiLower studly
  rw [String.toList_ofList, studlyChars_of_word hword, toLower_upperFirst h, beq_self_eq_true]

end Schemata.Inflection
