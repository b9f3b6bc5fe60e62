import Schemata.Proofs.Shorthand.Split

/-!
# Separators outside quotes

A line is cut at its separators outside quotes and nowhere else, whichever they are. To cut it once is to take its first part, and
to join the others again.
-/

namespace Schemata.Shorthand

variable {separates : Char → Bool} {quote quote' : Option Char} {c : Char} {cs text : List Char} {i : Nat}

/-! ## Places -/

/-- A separator stands outside quotes at a place of a line that starts inside `quote`. -/
def SeparatesAt (separates : Char → Bool) (quote : Option Char) (text : List Char) (i : Nat) : Prop :=
  (text.take i).foldl quoteAfter quote = none ∧ ∃ c, text[i]? = some c ∧ separates c = true

/-- All quotes of a text are closed: each by the next one of its kind, whatever stands between them. -/
inductive Balanced : List Char → Prop
  | nil : Balanced []
  | plain {c : Char} {cs : List Char} : c ≠ '\'' → c ≠ '"' → Balanced cs → Balanced (c :: cs)
  | quoted {q : Char} {body cs : List Char} : q = '\'' ∨ q = '"' → q ∉ body → Balanced cs → Balanced (q :: (body ++ q :: cs))

theorem foldl_quoteAfter_open {q : Char} {body : List Char} (h : q ∉ body) : body.foldl quoteAfter (some q) = some q := by
  induction body with
  | nil => rfl
  | cons c rest ih =>
    obtain ⟨hc, hrest⟩ := not_or.mp (List.mem_cons.not.mp h)
    rw [List.foldl_cons, quoteAfter, if_neg (Ne.symm hc)]
    exact ih hrest

/-- A text that leaves no quote open is balanced, after the end of the quote in which it starts. -/
theorem balanced_of_foldl_quoteAfter (text : List Char) : (text.foldl quoteAfter none = none → Balanced text) ∧
    ∀ q, text.foldl quoteAfter (some q) = none → ∃ body rest, text = body ++ q :: rest ∧ q ∉ body ∧ Balanced rest := by
  induction text with
  | nil => exact ⟨fun _ => .nil, fun _ h => nomatch h⟩
  | cons c rest ih =>
    constructor
    · intro h
      rw [List.foldl_cons, quoteAfter] at h
      by_cases hc : isQuote c = true
      · rw [if_pos hc] at h
        obtain ⟨body, others, rfl, hbody, hothers⟩ := ih.2 c h
        exact .quoted (isQuote_iff.mp hc) hbody hothers
      · rw [if_neg hc] at h
        obtain ⟨hsingle, hdouble⟩ := not_or.mp (isQuote_iff.not.mp hc)
        exact .plain hsingle hdouble (ih.1 h)
    · intro q h
      rw [List.foldl_cons, quoteAfter] at h
      by_cases hc : c = q
      · subst hc
        rw [if_pos rfl] at h
        exact ⟨[], rest, rfl, List.not_mem_nil, ih.1 h⟩
      · rw [if_neg hc] at h
        obtain ⟨body, others, rfl, hbody, hothers⟩ := ih.2 q h
        exact ⟨c :: body, others, rfl, fun hm => (List.mem_cons.mp hm).elim (hc ·.symm) hbody, hothers⟩

theorem Balanced.foldl_quoteAfter (h : Balanced text) : text.foldl quoteAfter none = none := by
  induction h with
  | nil => rfl
  | plain hsingle hdouble _ ih =>
    rw [List.foldl_cons, quoteAfter, if_neg fun hc => (isQuote_iff.mp hc).elim hsingle hdouble]
    exact ih
  | @quoted q body cs hq hbody _ ih =>
    rw [List.foldl_cons, quoteAfter, if_pos (isQuote_iff.mpr hq), List.foldl_append, foldl_quoteAfter_open hbody,
      List.foldl_cons, quoteAfter, if_pos rfl]
    exact ih

/-- A separator stands outside quotes if those before it are closed. -/
theorem separatesAt_iff_balanced : SeparatesAt separates none text i ↔
    Balanced (text.take i) ∧ ∃ c, text[i]? = some c ∧ separates c = true :=
  and_congr_left' ⟨(balanced_of_foldl_quoteAfter _).1, Balanced.foldl_quoteAfter⟩

/-- The places of what stood between parts. -/
def cutPoints : List (List Char) → List Nat
  | p :: q :: ps => p.length :: (cutPoints (q :: ps)).map (p.length + 1 + ·)
  | _ => []

/-- Parts with separators between them. -/
def rejoin : List (List Char) → List Char → List Char
  | p :: ps, c :: cs => p ++ c :: rejoin ps cs
  | ps, _ => ps.flatten

theorem cutPoints_nil_cons {ps : List (List Char)} (h : ps ≠ []) : cutPoints ([] :: ps) = 0 :: (cutPoints ps).map (· + 1) := by
  obtain ⟨q, ps, rfl⟩ := List.exists_cons_of_ne_nil h
  simp [cutPoints, Nat.add_comm 1]

theorem cutPoints_cons_cons (c : Char) (p : List Char) (ps : List (List Char)) :
    cutPoints ((c :: p) :: ps) = (cutPoints (p :: ps)).map (· + 1) := by
  cases ps with
  | nil => rfl
  | cons q ps =>
    rw [cutPoints, cutPoints, List.map_cons, List.map_map]
    refine congrArg _ (List.map_congr_left fun i _ => ?_)
    simp only [List.length_cons, Function.comp_apply]
    omega

theorem rejoin_cons_cons (c : Char) (p : List Char) (ps : List (List Char)) (separators : List Char) :
    rejoin ((c :: p) :: ps) separators = c :: rejoin (p :: ps) separators := by
  cases separators <;> rfl

theorem separatesAt_zero_iff (hquotes : ∀ c, isQuote c = true → separates c = false) :
    SeparatesAt separates quote (c :: cs) 0 ↔ cutsAt separates quote c = true := by
  have hplain : separates c = true → isQuote c = false := fun hs => by
    cases hq : isQuote c with
    | false => rfl
    | true => exact hs.symm.trans (hquotes c hq)
  rw [cutsAt_iff]
  constructor
  · rintro ⟨hquote, _, ⟨⟩, hs⟩
    exact ⟨hquote, hplain hs, hs⟩
  · rintro ⟨rfl, _, hs⟩
    exact ⟨rfl, c, rfl, hs⟩

theorem separatesAt_succ_iff :
    SeparatesAt separates quote (c :: cs) (i + 1) ↔ SeparatesAt separates (quoteAfter quote c) cs i :=
  Iff.rfl

theorem Reads.not_separatesAt (hquotes : ∀ c, isQuote c = true → separates c = false)
    (h : Reads separates quote cs quote') (i : Nat) : ¬SeparatesAt separates quote cs i := by
  induction h generalizing i with
  | nil => exact fun ⟨_, _, hc, _⟩ => nomatch hc
  | cons hc _ ih =>
    cases i with
    | zero => rw [separatesAt_zero_iff hquotes, hc]; exact Bool.false_ne_true
    | succ i => exact ih i

/-! ## Parts -/

/-- Each part is read with the quotes closed before it. -/
theorem Segments.exists_reads_of_mem {ps : List (List Char)} {p : List Char} (h : Segments separates quote ps quote')
    (hclosed : quote = none) (hp : p ∈ ps) : ∃ quote', Reads separates none p quote' := by
  induction h with
  | last hreads =>
    obtain rfl := List.mem_singleton.mp hp
    exact ⟨_, hclosed ▸ hreads⟩
  | cons hreads _ ih =>
    rcases List.mem_cons.mp hp with rfl | hp
    · exact ⟨_, hclosed ▸ hreads⟩
    · exact ih rfl hp

/-- No part has a separator outside quotes. -/
theorem exists_reads_of_mem_parts {p : List Char} (hp : p ∈ parts separates text) : ∃ quote', Reads separates none p quote' := by
  have huncut : ∃ quote', Reads (fun _ => false) none text quote' := exists_reads_of_no_separator none fun _ _ => rfl
  obtain ⟨quote', hreads⟩ := huncut
  have hparts : Segments separates none (parts separates text) quote' :=
    (segments_partsFrom hreads).mono fun c hc => by simp [hc]
  exact hparts.exists_reads_of_mem rfl hp

theorem partsFrom_cons_of_uncut (h : cutsAt separates quote c = false) (cs : List Char) :
    ∃ p ps, partsFrom separates (quoteAfter quote c) cs = p :: ps ∧ partsFrom separates quote (c :: cs) = (c :: p) :: ps := by
  obtain ⟨p, ps, hps⟩ := List.exists_cons_of_ne_nil (partsFrom_ne_nil separates (quoteAfter quote c) cs)
  have hcons : partsFrom separates quote ([c] ++ cs) = _ := partsFrom_of_reads (.cons h .nil)
  rw [hps] at hcons
  exact ⟨p, ps, hps, hcons⟩

theorem mem_cutPoints_iff (hquotes : ∀ c, isQuote c = true → separates c = false) (quote : Option Char) (text : List Char)
    (i : Nat) : i ∈ cutPoints (partsFrom separates quote text) ↔ SeparatesAt separates quote text i := by
  induction text generalizing quote i with
  | nil => exact iff_of_false List.not_mem_nil fun ⟨_, _, hc, _⟩ => nomatch hc
  | cons c rest ih =>
    cases hc : cutsAt separates quote c with
    | true =>
      have hafter := quoteAfter_of_cutsAt hc
      obtain ⟨rfl, _⟩ := cutsAt_iff.mp hc
      rw [partsFrom, if_pos hc, cutPoints_nil_cons (partsFrom_ne_nil _ _ _)]
      cases i with
      | zero => simp [separatesAt_zero_iff hquotes, hc]
      | succ i => simp [separatesAt_succ_iff, ih, hafter]
    | false =>
      obtain ⟨p, ps, hps, hcons⟩ := partsFrom_cons_of_uncut hc rest
      rw [hcons, cutPoints_cons_cons, ← hps]
      cases i with
      | zero => simp [separatesAt_zero_iff hquotes, hc]
      | succ i => simp [separatesAt_succ_iff, ih]

/-- Nothing but the separators is lost, and these are what stands where the line was cut. -/
theorem exists_rejoin_partsFrom (separates : Char → Bool) (quote : Option Char) (text : List Char) : ∃ separators,
    (cutPoints (partsFrom separates quote text)).map (text[·]?) = separators.map some ∧
      rejoin (partsFrom separates quote text) separators = text := by
  induction text generalizing quote with
  | nil => exact ⟨[], rfl, rfl⟩
  | cons c rest ih =>
    cases hc : cutsAt separates quote c with
    | true =>
      obtain ⟨separators, hplaces, hline⟩ := ih none
      rw [partsFrom, if_pos hc, cutPoints_nil_cons (partsFrom_ne_nil _ _ _)]
      refine ⟨c :: separators, ?_, congrArg (c :: ·) hline⟩
      rw [List.map_cons, List.map_map, List.map_cons, ← hplaces]
      rfl
    | false =>
      obtain ⟨p, ps, hps, hcons⟩ := partsFrom_cons_of_uncut hc rest
      obtain ⟨separators, hplaces, hline⟩ := ih (quoteAfter quote c)
      rw [hps] at hplaces hline
      rw [hcons, cutPoints_cons_cons, List.map_map]
      exact ⟨separators, hplaces, by rw [rejoin_cons_cons, hline]⟩

/-- What is read without a cut at the end of a line belongs to the last part. -/
theorem partsFrom_append {xs ys : List Char} (h : Reads separates (xs.foldl quoteAfter quote) ys quote') : ∃ init last,
    partsFrom separates quote xs = init ++ [last] ∧ partsFrom separates quote (xs ++ ys) = init ++ [last ++ ys] := by
  induction xs generalizing quote with
  | nil => exact ⟨[], [], rfl, parts_eq_single h⟩
  | cons c rest ih =>
    obtain ⟨init, last, hxs, happend⟩ := ih h
    rw [List.cons_append]
    cases hc : cutsAt separates quote c with
    | true =>
      have hafter := quoteAfter_of_cutsAt hc
      obtain ⟨rfl, _⟩ := cutsAt_iff.mp hc
      rw [hafter] at hxs happend
      rw [partsFrom, partsFrom, if_pos hc, if_pos hc, hxs, happend]
      exact ⟨[] :: init, last, rfl, rfl⟩
    | false =>
      obtain ⟨p, ps, hps, hcons⟩ := partsFrom_cons_of_uncut hc rest
      obtain ⟨p', ps', hps', hcons'⟩ := partsFrom_cons_of_uncut hc (rest ++ ys)
      rw [hps] at hxs
      rw [hps'] at happend
      rw [hcons, hcons']
      cases init with
      | nil =>
        obtain ⟨rfl, rfl⟩ := List.cons.inj hxs
        obtain ⟨rfl, rfl⟩ := List.cons.inj happend
        exact ⟨[], c :: p, rfl, rfl⟩
      | cons q init =>
        obtain ⟨rfl, rfl⟩ := List.cons.inj hxs
        obtain ⟨rfl, rfl⟩ := List.cons.inj happend
        exact ⟨(c :: p') :: init, last, rfl, rfl⟩

/-! ## The first cut -/

theorem intercalate_partsFrom (separator : Char) (quote : Option Char) (text : List Char) :
    [separator].intercalate (partsFrom (· = separator) quote text) = text := by
  induction text generalizing quote with
  | nil => rfl
  | cons c rest ih =>
    cases hc : cutsAt (· = separator) quote c with
    | true =>
      obtain rfl : c = separator := by simpa using (cutsAt_iff.mp hc).2.2
      have hrest := ih none
      obtain ⟨p, ps, hps⟩ := List.exists_cons_of_ne_nil (partsFrom_ne_nil (· = c) none rest)
      rw [partsFrom, if_pos hc, hps, List.intercalate_cons_cons, ← hps, hrest]
      rfl
    | false =>
      obtain ⟨p, ps, hps, hcons⟩ := partsFrom_cons_of_uncut hc rest
      have hrest := ih (quoteAfter quote c)
      rw [hps] at hrest
      rw [hcons, ← hrest]
      cases ps with
      | nil => simp
      | cons q ps => simp [List.intercalate_cons_cons]

/-- Both ways to cut a line go through it with the same state of the quotes. -/
theorem cutFrom_eq (separator : Char) (quote : Option Char) (text : List Char) : cutFrom separator quote text =
    match partsFrom (· = separator) quote text with
    | before :: other :: others => some (before, [separator].intercalate (other :: others))
    | _ => none := by
  induction text generalizing quote with
  | nil => rfl
  | cons c rest ih =>
    cases hc : cutsAt (· = separator) quote c with
    | true =>
      have hrest := intercalate_partsFrom separator none rest
      obtain ⟨p, ps, hps⟩ := List.exists_cons_of_ne_nil (partsFrom_ne_nil (· = separator) none rest)
      rw [hps] at hrest
      rw [cutFrom, if_pos hc, partsFrom, if_pos hc, hps]
      simp only [hrest]
    | false =>
      obtain ⟨p, ps, hps, hcons⟩ := partsFrom_cons_of_uncut hc rest
      rw [cutFrom, if_neg (by simp [hc]), ih, hcons, hps]
      cases ps <;> rfl

theorem cut_eq_some_iff {separator : Char} {before after : List Char} : cut separator text = some (before, after) ↔
    ∃ others, others ≠ [] ∧ parts (· = separator) text = before :: others ∧ after = [separator].intercalate others := by
  unfold cut parts
  rw [cutFrom_eq]
  rcases partsFrom (· = separator) none text with _ | ⟨p, _ | ⟨q, ps⟩⟩
  · simp
  · simp
  · simp only [Option.some_inj, Prod.mk.injEq, List.cons.injEq]
    constructor
    · rintro ⟨rfl, rfl⟩
      exact ⟨q :: ps, List.cons_ne_nil _ _, ⟨rfl, rfl⟩, rfl⟩
    · rintro ⟨_, _, ⟨rfl, rfl⟩, rfl⟩
      exact ⟨rfl, rfl⟩

theorem cut_eq_none_iff {separator : Char} : cut separator text = none ↔ (parts (· = separator) text).length < 2 := by
  unfold cut parts
  rw [cutFrom_eq]
  rcases partsFrom (· = separator) none text with _ | ⟨p, _ | ⟨q, ps⟩⟩ <;> simp

/-- A line is cut exactly at its separators outside quotes: with these between them its parts make up the line again, and no part has
one of its own. From a quote that is not closed on, all belongs to one part. A line is cut once if it has two parts or more, and
then into the first of them and the others, joined again. -/
theorem parts_cut_outside_quotes (separates : Char → Bool) (hquotes : ∀ c, isQuote c = true → separates c = false)
    (text : List Char) :
    (∀ i, i ∈ cutPoints (parts separates text) ↔ SeparatesAt separates none text i) ∧
      (∃ separators, (cutPoints (parts separates text)).map (text[·]?) = separators.map some ∧
        rejoin (parts separates text) separators = text) ∧
      (∀ p ∈ parts separates text, ∀ i, ¬SeparatesAt separates none p i) ∧
      (∀ before q rest, text = before ++ q :: rest → before.foldl quoteAfter none = none → isQuote q = true → q ∉ rest →
        ∃ init last, parts separates before = init ++ [last] ∧ parts separates text = init ++ [last ++ q :: rest]) ∧
      ∀ separator, (∀ before after, cut separator text = some (before, after) ↔ ∃ others, others ≠ [] ∧
          parts (· = separator) text = before :: others ∧ after = [separator].intercalate others) ∧
        (cut separator text = none ↔ (parts (· = separator) text).length < 2) := by
  refine ⟨mem_cutPoints_iff hquotes none text, exists_rejoin_partsFrom separates none text, fun p hp i => ?_, ?_,
    fun separator => ⟨fun _ _ => cut_eq_some_iff, cut_eq_none_iff⟩⟩
  · obtain ⟨_, hreads⟩ := exists_reads_of_mem_parts hp
    exact hreads.not_separatesAt hquotes i
  · rintro before q rest rfl hclosed hq hrest
    have hreads : Reads separates none (q :: rest) (some q) := reads_of_unclosed hq hrest
    exact partsFrom_append (hclosed ▸ hreads)

/-- A word, a quote with the other kind of quote and a separator in it, and a quote that is not closed. -/
def quotedLine : List Char :=
  "naïve,\"it's, so\",'y,z".toList

theorem quotedLine_cut :
    (∀ c, isQuote c = true → decide (c = ',') = false) ∧
      (SeparatesAt (· = ',') none quotedLine 16 ∧ ¬SeparatesAt (· = ',') none quotedLine 11) ∧
      rejoin (parts (· = ',') quotedLine) [',', ','] = quotedLine ∧
      (∀ i, ¬SeparatesAt (· = ',') none "\"it's, so\"".toList i) ∧
      (∃ init last, parts (· = ',') "naïve,\"it's, so\",".toList = init ++ [last] ∧
        parts (· = ',') quotedLine = init ++ [last ++ "'y,z".toList]) ∧
      cut ',' quotedLine = some ("naïve".toList, "\"it's, so\",'y,z".toList) := by
  have hquotes : ∀ c, isQuote c = true → decide (c = ',') = false := fun c hc =>
    decide_eq_false fun he => absurd (he ▸ hc) (by decide)
  obtain ⟨hplaces, ⟨separators, hseparators, hline⟩, hparts, hopen, hcut⟩ :=
    parts_cut_outside_quotes (· = ',') hquotes quotedLine
  refine ⟨hquotes, ⟨(hplaces 16).mp (by decide), fun h => absurd ((hplaces 11).mpr h) (by decide)⟩, ?_,
    hparts _ (by decide), hopen _ '\'' _ rfl rfl rfl (by decide), ((hcut ',').1 _ _).mpr ⟨_, List.cons_ne_nil _ _, rfl, rfl⟩⟩
  obtain rfl : [',', ','] = separators := List.map_injective_iff.mpr (fun _ _ => Option.some_inj.mp) hseparators
  exact hline

end Schemata.Shorthand
