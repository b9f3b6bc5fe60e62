import Mathlib.Data.List.Induction
import Schemata.Proofs.Text

/-!
# Segments of words

A word of ASCII letters is a first part and a last segment, which is a word in lower case, perhaps with a capital start. The
plural and the singular change the last segment as they change the word in lower case, and keep its capital.
-/

namespace Schemata.Inflection

open Schemata.Text

/-! ## Letters -/

theorem toNat_lt_of_isLower {c : Char} (hc : c.isLower = true) : c.toNat < 128 := by
  have hle : c.toNat ≤ 122 := UInt32.le_iff_toNat_le.mp (of_decide_eq_true (Bool.and_eq_true_iff.mp hc).2)
  omega

theorem toNat_lt_of_isAlpha {c : Char} (hc : c.isAlpha = true) : c.toNat < 128 :=
  (Bool.or_eq_true_iff.mp hc).elim toNat_lt_of_isUpper toNat_lt_of_isLower

theorem isLower_facts {c : Char} (hc : c.isLower = true) :
    c.toLower = c ∧ c.isUpper = false ∧ c ≠ '_' ∧ c.toUpper.isUpper = true ∧ c.toUpper.toLower = c := by
  have hall : ∀ c : Char, c.toNat < 128 → c.isLower = true →
      c.toLower = c ∧ c.isUpper = false ∧ c ≠ '_' ∧ c.toUpper.isUpper = true ∧ c.toUpper.toLower = c :=
    forall_ascii (by decide)
  exact hall c (toNat_lt_of_isLower hc) hc

theorem isUpper_facts {c : Char} (hc : c.isUpper = true) :
    c.toUpper = c ∧ c.toLower.isLower = true ∧ c.toLower.toUpper = c := by
  have hall : ∀ c : Char, c.toNat < 128 → c.isUpper = true →
      c.toUpper = c ∧ c.toLower.isLower = true ∧ c.toLower.toUpper = c := forall_ascii (by decide)
  exact hall c (toNat_lt_of_isUpper hc) hc

theorem isAlpha_facts {c : Char} (hc : c.isAlpha = true) :
    isJoint c = false ∧ c.toLower.isAlpha = true ∧ c.toLower.toUpper = c.toUpper ∧ c.toUpper.isUpper = true := by
  have hall : ∀ c : Char, c.toNat < 128 → c.isAlpha = true → isJoint c = false ∧ c.toLower.isAlpha = true ∧
      c.toLower.toUpper = c.toUpper ∧ c.toUpper.isUpper = true := forall_ascii (by decide)
  exact hall c (toNat_lt_of_isAlpha hc) hc

theorem lowerAfter_of_ascii (before : List Char) {cs : List Char} (h : ∀ c ∈ cs, c.toNat < 128) :
    lowerAfter before cs = cs.map Char.toLower := by
  induction cs generalizing before with
  | nil => rfl
  | cons c rest ih =>
    have hc : c.toNat < 128 := h c List.mem_cons_self
    have hsigma : c ≠ 'Σ' := fun he => absurd (he ▸ hc) (by decide)
    rw [lowerAfter, if_neg hsigma, lowerChar_of_ascii hc, ih _ fun x hx => h x (List.mem_cons_of_mem _ hx)]
    rfl

/-! ## Words in lower case -/

/-- A word of letters from `a` to `z`. -/
structure LowerWord (low : List Char) : Prop where
  ne_nil : low ≠ []
  lower : ∀ c ∈ low, c.isLower = true

instance (low : List Char) : Decidable (LowerWord low) :=
  decidable_of_iff (low ≠ [] ∧ low.all Char.isLower = true)
    ⟨fun h => ⟨h.1, List.all_eq_true.mp h.2⟩, fun h => ⟨h.ne_nil, List.all_eq_true.mpr h.lower⟩⟩

variable {low : List Char}

theorem LowerWord.append {tail : List Char} (h : LowerWord low) (ht : tail.all Char.isLower = true) : LowerWord (low ++ tail) :=
  ⟨List.append_ne_nil_of_left_ne_nil h.ne_nil _, List.forall_mem_append.mpr ⟨h.lower, List.all_eq_true.mp ht⟩⟩

theorem LowerWord.dropEnd {n : Nat} (h : LowerWord low) (hn : n < low.length) : LowerWord (dropEnd n low) := by
  refine ⟨fun he => ?_, fun c hc => h.lower c (List.mem_of_mem_take hc)⟩
  have hlength := congrArg List.length he
  rw [Inflection.dropEnd, List.length_take, List.length_nil] at hlength
  omega

/-! ## The last segment -/

/-- A last segment, with a capital or without, after the first part of a word. -/
def join (head : List Char) (capital : Bool) (low : List Char) : List Char :=
  head ++ if capital then upperFirst low else low

/-- A first part and a last segment in lower case, which has a capital unless it is the whole word. -/
structure Joined (head : List Char) (capital : Bool) (low : List Char) : Prop where
  word : LowerWord low
  capital : head ≠ [] → capital = true

variable {head : List Char} {capital : Bool}

theorem LowerWord.joinedAs (h : LowerWord low) (capital : Bool) : Joined [] capital low :=
  ⟨h, fun hne => absurd rfl hne⟩

theorem Joined.start (h : Joined head capital low) : ∃ c rest, (if capital then upperFirst low else low) = c :: rest ∧
    c.isUpper = capital ∧ c.toLower :: rest = low ∧ c.isAlpha = true := by
  obtain ⟨⟨hne, hlower⟩, _⟩ := h
  cases low with
  | nil => exact absurd rfl hne
  | cons x xs =>
    have hx := hlower x List.mem_cons_self
    obtain ⟨hself, hnot, _, hupper, hback⟩ := isLower_facts hx
    cases capital with
    | false => exact ⟨x, xs, rfl, hnot, by rw [hself], Bool.or_eq_true_iff.mpr (.inr hx)⟩
    | true =>
      refine ⟨x.toUpper, xs, ?_, hupper, by rw [hback], Bool.or_eq_true_iff.mpr (.inl hupper)⟩
      rw [if_pos rfl, upperFirst, upperChar_of_ascii (toNat_lt_of_isLower hx), List.singleton_append]

theorem cutLastSegment_eq_none {cs : List Char} (h : ∀ c ∈ cs, c.isLower = true) : cutLastSegment cs = none := by
  induction cs with
  | nil => rfl
  | cons c rest ih =>
    obtain ⟨_, hupper, hunder, _⟩ := isLower_facts (h c List.mem_cons_self)
    rw [cutLastSegment, ih fun x hx => h x (List.mem_cons_of_mem _ hx)]
    simp [hupper, hunder]

theorem cutLastSegment_of_append {cs first last : List Char} (h : cutLastSegment cs = some (first, last)) (before : List Char) :
    cutLastSegment (before ++ cs) = some (before ++ first, last) := by
  induction before with
  | nil => exact h
  | cons c rest ih => rw [List.cons_append, cutLastSegment, ih]; rfl

theorem lastSegment_join (h : Joined head capital low) :
    lastSegment (join head capital low) = (head, if capital then upperFirst low else low) := by
  obtain ⟨c, rest, hstart, hupper, hlow, _⟩ := h.start
  have hrest : cutLastSegment rest = none :=
    cutLastSegment_eq_none fun x hx => h.word.lower x (hlow ▸ List.mem_cons_of_mem _ hx)
  rw [join, hstart]
  cases head with
  | nil => rw [List.nil_append, lastSegment, hrest]
  | cons d ds =>
    have hc : c.isUpper = true := hupper.trans (h.capital (List.cons_ne_nil d ds))
    have hlast : cutLastSegment (c :: rest) = some ([], c :: rest) := by
      have hunder : c ≠ '_' := fun he => absurd (he ▸ hc) (by decide)
      rw [cutLastSegment, hrest]
      simp [hc, hunder]
    rw [List.cons_append, lastSegment, cutLastSegment_of_append hlast, List.append_nil]

/-- The last segment of a joined word in lower case. -/
theorem lowerChars_lastSegment (h : Joined head capital low) : lowerChars (lastSegment (join head capital low)).2 = low := by
  obtain ⟨c, rest, hstart, _, hlow, halpha⟩ := h.start
  have hascii := toNat_lt_of_isAlpha halpha
  have hrest : ∀ x ∈ rest, x.isLower = true := fun x hx => h.word.lower x (hlow ▸ List.mem_cons_of_mem _ hx)
  rw [lastSegment_join h, hstart]
  refine (lowerAfter_of_ascii [] (List.forall_mem_cons.mpr ⟨hascii, fun x hx => toNat_lt_of_isLower (hrest x hx)⟩)).trans ?_
  rw [List.map_cons, ← hlow]
  exact congrArg _ (List.map_congr_left (fun x hx => (isLower_facts (hrest x hx)).1) |>.trans (List.map_id _))

theorem join_append (hne : low ≠ []) (tail : List Char) : join head capital low ++ tail = join head capital (low ++ tail) := by
  cases low with
  | nil => exact absurd rfl hne
  | cons x xs => cases capital <;> simp [join, upperFirst]

theorem dropEnd_join {n : Nat} (h : Joined head capital low) (hn : n < low.length) :
    dropEnd n (join head capital low) = join head capital (dropEnd n low) := by
  have hkept : join head capital low = join head capital (dropEnd n low) ++ low.drop (low.length - n) := by
    rw [join_append (h.word.dropEnd hn).ne_nil, dropEnd, List.take_append_drop]
  have hlength : (low.drop (low.length - n)).length = n := by
    rw [List.length_drop]
    omega
  rw [hkept, dropEnd, List.length_append, hlength, Nat.add_sub_cancel, List.take_left]

/-- A word of ASCII letters is joined of its segments. -/
theorem exists_joined {cs : List Char} (hne : cs ≠ []) (h : ∀ c ∈ cs, c.isAlpha = true) :
    ∃ head capital low, Joined head capital low ∧ cs = join head capital low := by
  induction cs using List.reverseRecOn with
  | nil => exact absurd rfl hne
  | append_singleton cs c ih =>
    have hletters : ∀ x ∈ cs, x.isAlpha = true := fun x hx => h x (List.mem_append_left _ hx)
    by_cases hc : c.isUpper = true
    · obtain ⟨_, hlower, hback⟩ := isUpper_facts hc
      refine ⟨cs, true, [c.toLower], ⟨⟨List.cons_ne_nil _ _, List.forall_mem_singleton.mpr hlower⟩, fun _ => rfl⟩, ?_⟩
      rw [join, if_pos rfl, upperFirst, upperChar_of_ascii (toNat_lt_of_isLower hlower), hback, List.append_nil]
    · have hlower : c.isLower = true := (Bool.or_eq_true_iff.mp (h c (by simp))).resolve_left hc
      by_cases hcs : cs = []
      · subst hcs
        exact ⟨[], false, [c], ⟨⟨List.cons_ne_nil _ _, List.forall_mem_singleton.mpr hlower⟩, fun hn => absurd rfl hn⟩, rfl⟩
      · obtain ⟨head, capital, low, hjoined, rfl⟩ := ih hcs hletters
        refine ⟨head, capital, low ++ [c], ⟨hjoined.word.append (by simpa using hlower), hjoined.capital⟩, ?_⟩
        exact join_append hjoined.word.ne_nil [c]

theorem join_inj {low' : List Char} (h : Joined head capital low) (h' : Joined head capital low')
    (he : join head capital low = join head capital low') : low = low' := by
  rw [← lowerChars_lastSegment h, he, lowerChars_lastSegment h']

/-! ## Plural and singular of the last segment -/

theorem withCaseOf_joined (h : Joined head capital low) (replacement : String) :
    head ++ withCaseOf (if capital then upperFirst low else low) replacement = join head capital replacement.toList := by
  obtain ⟨c, rest, hstart, hupper, _, halpha⟩ := h.start
  rw [hstart, withCaseOf, isUppercase_of_ascii (toNat_lt_of_isAlpha halpha), hupper]
  rfl

theorem length_le_of_endsIn {cs : List Char} {ending : String} (h : endsIn cs ending = true) :
    ending.toList.length ≤ cs.length :=
  (List.isSuffixOf_iff_suffix.mp h).length_le

theorem one_lt_of_endsInConsonantY {cs : List Char} (h : endsInConsonantY cs = true) : 1 < cs.length := by
  unfold endsInConsonantY at h
  rw [← List.length_reverse]
  split at h
  · rename_i heq
    rw [heq]
    simp
  · exact absurd h Bool.false_ne_true

theorem lastSegment_lower (h : LowerWord low) : lastSegment low = ([], low) :=
  lastSegment_join (h.joinedAs false)

theorem lowerChars_lower (h : LowerWord low) : lowerChars low = low :=
  (congrArg (fun cut => lowerChars cut.2) (lastSegment_lower h)).symm.trans (lowerChars_lastSegment (h.joinedAs false))

theorem lower_of_mem_irregular {one many : String} (h : (one, many) ∈ irregular) :
    LowerWord one.toList ∧ LowerWord many.toList := by
  have hall : ∀ pair ∈ irregular, LowerWord pair.1.toList ∧ LowerWord pair.2.toList := by decide
  exact hall _ h

/-- The plural changes the last segment alone, to a word in lower case. -/
theorem pluralChars_joined (h : Joined head capital low) :
    pluralChars (join head capital low) = join head capital (pluralChars low) ∧ LowerWord (pluralChars low) := by
  have hlow := lowerChars_lastSegment h
  have happend : ∀ tail, join head capital low ++ tail = join head capital (low ++ tail) := join_append h.word.ne_nil
  rw [lastSegment_join h] at hlow
  unfold pluralChars
  simp only [lastSegment_join h, lastSegment_lower h.word, hlow, lowerChars_lower h.word]
  split
  · exact ⟨rfl, h.word⟩
  split
  · rename_i one many hfind
    have hself := withCaseOf_joined (h.word.joinedAs false) many
    exact ⟨(withCaseOf_joined h many).trans (congrArg _ hself.symm),
      hself.symm ▸ (lower_of_mem_irregular (List.mem_of_find?_eq_some hfind)).2⟩
  split
  · exact ⟨rfl, h.word⟩
  split
  · rename_i hy
    have hdropped := h.word.dropEnd (one_lt_of_endsInConsonantY hy)
    rw [dropEnd_join h (one_lt_of_endsInConsonantY hy), join_append hdropped.ne_nil]
    exact ⟨rfl, hdropped.append (by decide)⟩
  split
  · exact ⟨happend _, h.word.append (by decide)⟩
  · exact ⟨happend _, h.word.append (by decide)⟩

/-- The singular changes the last segment alone, to a word in lower case. -/
theorem singularChars_joined (h : Joined head capital low) :
    singularChars (join head capital low) = join head capital (singularChars low) ∧ LowerWord (singularChars low) := by
  have hlow := lowerChars_lastSegment h
  have hcut : ∀ n, n < low.length →
      dropEnd n (join head capital low) = join head capital (dropEnd n low) ∧ LowerWord (dropEnd n low) :=
    fun n hn => ⟨dropEnd_join h hn, h.word.dropEnd hn⟩
  rw [lastSegment_join h] at hlow
  unfold singularChars
  simp only [lastSegment_join h, lastSegment_lower h.word, hlow, lowerChars_lower h.word]
  split
  · exact ⟨rfl, h.word⟩
  split
  · rename_i one many hfind
    have hself := withCaseOf_joined (h.word.joinedAs false) one
    exact ⟨(withCaseOf_joined h one).trans (congrArg _ hself.symm),
      hself.symm ▸ (lower_of_mem_irregular (List.mem_of_find?_eq_some hfind)).1⟩
  split
  · exact ⟨rfl, h.word⟩
  split
  · rename_i hie
    have hall : ∀ w ∈ iePlurals, 1 < w.toList.length := by decide
    have hlength := hall _ (List.contains_iff_mem.mp hie)
    rw [String.toList_ofList] at hlength
    exact hcut 1 hlength
  split
  · rename_i hies
    obtain ⟨hdrop, hword⟩ := hcut 3 (of_decide_eq_true (Bool.and_eq_true_iff.mp hies).2)
    rw [hdrop, join_append hword.ne_nil]
    exact ⟨rfl, hword.append (by decide)⟩
  split
  · rename_i houses
    have hlength : 5 ≤ low.length := length_le_of_endsIn houses
    exact hcut 1 (by omega)
  split
  · rename_i hsibilant
    obtain ⟨ending, hmem, hends⟩ := List.any_eq_true.mp hsibilant
    have hall : ∀ e ∈ ["sses", "uses", "ches", "shes", "xes", "zes"], 2 < e.toList.length := by decide
    exact hcut 2 (Nat.lt_of_lt_of_le (hall ending hmem) (length_le_of_endsIn hends))
  split
  · exact ⟨rfl, h.word⟩
  split
  · rename_i hs
    exact hcut 1 (of_decide_eq_true (Bool.and_eq_true_iff.mp hs).2)
  · exact ⟨rfl, h.word⟩

/-- The singular of the plural changes the last segment as it changes that in lower case. -/
theorem singularChars_pluralChars (h : Joined head capital low) :
    singularChars (pluralChars (join head capital low)) = join head capital (singularChars (pluralChars low)) ∧
      LowerWord (singularChars (pluralChars low)) := by
  obtain ⟨hplural, hword⟩ := pluralChars_joined h
  exact hplural ▸ singularChars_joined ⟨hword, h.capital⟩

/-! ## The first letter -/

/-- A capital start is kept by the first part of a word, or by the last segment where there is no other. -/
theorem exists_upperFirst_join (h : Joined head capital low) :
    ∃ first start, ∀ low', LowerWord low' →
      Joined first start low' ∧ upperFirst (join head capital low') = join first start low' := by
  cases head with
  | cons d ds =>
    refine ⟨upperFirst (d :: ds), capital, fun low' hword => ⟨⟨hword, fun _ => h.capital (List.cons_ne_nil d ds)⟩, ?_⟩⟩
    simp [join, upperFirst]
  | nil =>
    refine ⟨[], true, fun low' hword => ⟨⟨hword, fun _ => rfl⟩, ?_⟩⟩
    obtain ⟨c, rest, hstart, _, rfl, halpha⟩ := (hword.joinedAs capital).start
    obtain ⟨_, hlower, hupper, _⟩ := isAlpha_facts halpha
    rw [join, join, List.nil_append, List.nil_append, hstart, if_pos rfl, upperFirst, upperFirst,
      upperChar_of_ascii (toNat_lt_of_isAlpha halpha), upperChar_of_ascii (toNat_lt_of_isAlpha hlower), hupper]

/-- A word of letters has one part in studly case. -/
theorem studlyChars_of_letters {cs : List Char} (h : ∀ c ∈ cs, c.isAlpha = true) : studlyChars cs = upperFirst cs := by
  have hparts : cs.splitOnP isJoint = [cs] := List.splitOnP_eq_singleton fun c hc => (isAlpha_facts (h c hc)).1
  rw [studlyChars, hparts, List.flatMap_cons, List.flatMap_nil, List.append_nil]

theorem isAlpha_of_mem_join (hhead : ∀ c ∈ head, c.isAlpha = true) (h : LowerWord low) :
    ∀ c ∈ join head capital low, c.isAlpha = true := by
  obtain ⟨c, rest, hstart, _, hlow, hc⟩ := (h.joinedAs capital).start
  have hrest : ∀ x ∈ rest, x.isAlpha = true := fun x hx =>
    Bool.or_eq_true_iff.mpr (.inr (h.lower x (hlow ▸ List.mem_cons_of_mem _ hx)))
  rw [join, hstart]
  exact List.forall_mem_append.mpr ⟨hhead, List.forall_mem_cons.mpr ⟨hc, hrest⟩⟩

theorem isUpper_of_mem_head?_upperFirst {cs : List Char} (h : ∀ c ∈ cs, c.isAlpha = true) :
    ∀ c ∈ (upperFirst cs).head?, c.isUpper = true := by
  cases cs with
  | nil => exact fun c hc => absurd hc (Option.not_mem_none c)
  | cons c rest =>
    have hc := h c List.mem_cons_self
    rw [upperFirst, upperChar_of_ascii (toNat_lt_of_isAlpha hc)]
    rintro _ ⟨⟩
    exact (isAlpha_facts hc).2.2.2

theorem upperFirst_eq_self {cs : List Char} (h : ∀ c ∈ cs.head?, c.isUpper = true) : upperFirst cs = cs := by
  cases cs with
  | nil => rfl
  | cons c rest =>
    have hc : c.isUpper = true := h c rfl
    rw [upperFirst, upperChar_of_ascii (toNat_lt_of_isUpper hc), (isUpper_facts hc).1, List.singleton_append]

/-- A word is put into studly case by a capital start, also where it has become the singular of its plural without one. -/
theorem exists_joined_studly {cs : List Char} (hne : cs ≠ []) (h : ∀ c ∈ cs, c.isAlpha = true) :
    ∃ head capital low, Joined head capital low ∧ upperFirst cs = join head capital low ∧
      studlyChars (singularChars (pluralChars (lowerFirst cs))) = join head capital (singularChars (pluralChars low)) ∧
      ∀ c ∈ (join head capital (singularChars (pluralChars low))).head?, c.isUpper = true := by
  obtain ⟨c, rest, rfl⟩ := List.exists_cons_of_ne_nil hne
  have hc := h c List.mem_cons_self
  have hascii := toNat_lt_of_isAlpha hc
  obtain ⟨_, halpha, hupper, _⟩ := isAlpha_facts hc
  have hfirst : lowerFirst (c :: rest) = c.toLower :: rest := by
    rw [lowerFirst, lowerChar_of_ascii hascii, List.singleton_append]
  have hsame : upperFirst (c.toLower :: rest) = upperFirst (c :: rest) := by
    rw [upperFirst, upperFirst, upperChar_of_ascii hascii, upperChar_of_ascii (toNat_lt_of_isAlpha halpha), hupper]
  have hletters : ∀ x ∈ c.toLower :: rest, x.isAlpha = true :=
    List.forall_mem_cons.mpr ⟨halpha, fun x hx => h x (List.mem_cons_of_mem _ hx)⟩
  obtain ⟨head, capital, low, hjoined, hcs⟩ := exists_joined (List.cons_ne_nil _ _) hletters
  obtain ⟨first, start, hup⟩ := exists_upperFirst_join hjoined
  obtain ⟨hrestored, hword⟩ := singularChars_pluralChars hjoined
  obtain ⟨hjoined', hjoin⟩ := hup low hjoined.word
  have hhead : ∀ x ∈ head, x.isAlpha = true := fun x hx => hletters x (hcs ▸ List.mem_append_left _ hx)
  have hback : ∀ x ∈ join head capital (singularChars (pluralChars low)), x.isAlpha = true := isAlpha_of_mem_join hhead hword
  refine ⟨first, start, low, hjoined', ?_, ?_, ?_⟩
  · rw [← hsame, hcs, hjoin]
  · rw [hfirst, hcs, hrestored, studlyChars_of_letters hback, (hup _ hword).2]
  · rw [← (hup _ hword).2]
    exact isUpper_of_mem_head?_upperFirst hback

end Schemata.Inflection
