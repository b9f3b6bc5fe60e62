import Mathlib.Data.List.DropRight
import Schemata.Proofs.Result
import Schemata.Shorthand.Call

/-!
# Parts of a line

How the parts of a line come about: what is read without a cut from one state of the quotes to another, and that parts which are
joined by separators are cut again where they were joined.
-/

namespace Schemata

namespace Text

variable {cs blanks : List Char}

/-! ## Trimming -/

/-- Trimming takes blanks away at both ends, and nothing else. -/
theorem exists_append_trimChars (cs : List Char) : ∃ lead trail, cs = lead ++ (trimChars cs ++ trail) ∧
    (∀ c ∈ lead, isBlank c = true) ∧ ∀ c ∈ trail, isBlank c = true := by
  refine ⟨cs.takeWhile isBlank, (cs.dropWhile isBlank).rtakeWhile isBlank, ?_, fun c => List.mem_takeWhile_imp,
    fun c => List.mem_rtakeWhile_imp⟩
  have htrail : trimChars cs ++ (cs.dropWhile isBlank).rtakeWhile isBlank = cs.dropWhile isBlank :=
    List.rdropWhile_append_rtakeWhile
  rw [htrail, List.takeWhile_append_dropWhile]

theorem trimChars_append_blanks (h : ∀ c ∈ blanks, isBlank c = true) : trimChars (cs ++ blanks) = trimChars cs := by
  have hlast : ∀ xs : List Char, (xs ++ blanks).rdropWhile isBlank = xs.rdropWhile isBlank := fun xs => by
    rw [List.rdropWhile, List.reverse_append, List.dropWhile_append_of_pos fun c hc => h c (List.mem_reverse.mp hc)]
    rfl
  by_cases hcs : ∀ c ∈ cs, isBlank c = true
  · have hall : ∀ c ∈ cs ++ blanks, isBlank c = true := fun c hc => (List.mem_append.mp hc).elim (hcs c) (h c)
    unfold trimChars
    rw [List.dropWhile_eq_nil_iff.mpr hall, List.dropWhile_eq_nil_iff.mpr hcs]
  · have hdrop : (cs ++ blanks).dropWhile isBlank = cs.dropWhile isBlank ++ blanks := by
      rw [List.dropWhile_append, if_neg]
      rwa [List.isEmpty_iff, List.dropWhile_eq_nil_iff]
    have htrim : trimChars (cs ++ blanks) = ((cs ++ blanks).dropWhile isBlank).rdropWhile isBlank := rfl
    rw [htrim, hdrop, hlast]
    rfl

theorem trimChars_blanks_append (h : ∀ c ∈ blanks, isBlank c = true) : trimChars (blanks ++ cs) = trimChars cs := by
  unfold trimChars
  rw [List.dropWhile_append_of_pos h]

theorem trimChars_eq_self (hfirst : ∀ c, cs.head? = some c → isBlank c = false)
    (hlast : ∀ c, cs.getLast? = some c → isBlank c = false) : trimChars cs = cs := by
  have hdrop : cs.dropWhile isBlank = cs := List.dropWhile_eq_self_iff.mpr fun hpos => by
    simp [hfirst _ (List.head?_eq_getElem? ▸ List.getElem?_eq_getElem hpos)]
  have htrim : trimChars cs = (cs.dropWhile isBlank).rdropWhile isBlank := rfl
  rw [htrim, hdrop]
  exact List.rdropWhile_eq_self_iff.mpr fun hne => by simp [hlast _ (List.getLast?_eq_some_getLast hne)]

theorem trimChars_of_not_blank (h : ∀ c ∈ cs, isBlank c = false) : trimChars cs = cs :=
  trimChars_eq_self (fun c hc => h c (List.mem_of_head? hc)) fun c hc => h c (List.mem_of_getLast? hc)

end Text

namespace Shorthand

open Schemata.Text

variable {separates : Char → Bool} {quote quote' quote'' : Option Char} {xs ys : List Char}

/-! ## Reading without a cut -/

/-- A text is read without a cut, from one state of the quotes to another. -/
inductive Reads (separates : Char → Bool) : Option Char → List Char → Option Char → Prop
  | nil {quote : Option Char} : Reads separates quote [] quote
  | cons {quote quote' : Option Char} {c : Char} {cs : List Char} (uncut : cutsAt separates quote c = false)
      (rest : Reads separates (quoteAfter quote c) cs quote') : Reads separates quote (c :: cs) quote'

theorem Reads.append (hx : Reads separates quote xs quote') (hy : Reads separates quote' ys quote'') :
    Reads separates quote (xs ++ ys) quote'' := by
  induction hx with
  | nil => exact hy
  | cons hc _ ih => exact .cons hc (ih hy)

theorem Reads.of_append (h : Reads separates quote (xs ++ ys) quote'') :
    ∃ quote', Reads separates quote xs quote' ∧ Reads separates quote' ys quote'' := by
  induction xs generalizing quote with
  | nil => exact ⟨quote, .nil, h⟩
  | cons c rest ih =>
    cases h with
    | cons hc hrest =>
      obtain ⟨q, hx, hy⟩ := ih hrest
      exact ⟨q, .cons hc hx, hy⟩

/-- Where the quotes stand depends on the text alone. -/
theorem Reads.unique {separates' : Char → Bool} (h : Reads separates quote xs quote')
    (h' : Reads separates' quote xs quote'') : quote' = quote'' := by
  induction h with
  | nil =>
    cases h' with
    | nil => rfl
  | cons _ _ ih =>
    cases h' with
    | cons _ h' => exact ih h'

theorem Reads.mono {separates' : Char → Bool} (hs : ∀ c, separates' c = true → separates c = true)
    (h : Reads separates quote xs quote') : Reads separates' quote xs quote' := by
  induction h with
  | nil => exact .nil
  | @cons q _ c _ hc _ ih =>
    refine .cons ?_ ih
    rw [cutsAt, Bool.and_eq_false_iff] at hc ⊢
    exact hc.imp id fun h => by
      cases hb : separates' c with
      | false => rfl
      | true => rw [hs c hb] at h; cases h

theorem exists_reads_of_no_separator (quote : Option Char) (h : ∀ c ∈ xs, separates c = false) :
    ∃ quote', Reads separates quote xs quote' := by
  induction xs generalizing quote with
  | nil => exact ⟨quote, .nil⟩
  | cons c rest ih =>
    obtain ⟨quote', hrest⟩ := ih (quoteAfter quote c) fun c hc => h c (List.mem_cons_of_mem _ hc)
    exact ⟨quote', .cons (by simp [cutsAt, h c List.mem_cons_self]) hrest⟩

/-- A text without quotes and separators leaves no quote open. -/
theorem reads_of_plain (h : ∀ c ∈ xs, isQuote c = false ∧ separates c = false) : Reads separates none xs none := by
  induction xs with
  | nil => exact .nil
  | cons c rest ih =>
    obtain ⟨hq, hs⟩ := h c List.mem_cons_self
    have hafter : quoteAfter none c = none := if_neg (by simp [hq])
    refine .cons (by simp [cutsAt, hs]) ?_
    rw [hafter]
    exact ih fun c hc => h c (List.mem_cons_of_mem _ hc)

/-- A quote that is not closed is read to the end. -/
theorem reads_of_open {q : Char} (h : q ∉ xs) : Reads separates (some q) xs (some q) := by
  induction xs with
  | nil => exact .nil
  | cons c rest ih =>
    obtain ⟨hc, hrest⟩ := not_or.mp (List.mem_cons.not.mp h)
    refine .cons rfl ?_
    rw [quoteAfter, if_neg (Ne.symm hc)]
    exact ih hrest

theorem reads_of_unclosed {q : Char} (hq : isQuote q = true) (h : q ∉ xs) : Reads separates none (q :: xs) (some q) := by
  refine .cons (by simp [cutsAt, hq]) ?_
  rw [quoteAfter, if_pos hq]
  exact reads_of_open h

theorem isQuote_iff {c : Char} : isQuote c = true ↔ c = '\'' ∨ c = '"' := by
  rw [isQuote, Bool.or_eq_true, decide_eq_true_eq, decide_eq_true_eq]

theorem cutsAt_iff {c : Char} : cutsAt separates quote c = true ↔ quote = none ∧ isQuote c = false ∧ separates c = true := by
  cases quote <;> simp [cutsAt]

theorem quoteAfter_of_cutsAt {c : Char} (h : cutsAt separates quote c = true) : quoteAfter quote c = none := by
  obtain ⟨rfl, hquote, _⟩ := cutsAt_iff.mp h
  exact if_neg (by simp [hquote])

theorem cutsAt_of_isBlank {c : Char} (h : isBlank c = true) : cutsAt isBlank none c = true := by
  refine cutsAt_iff.mpr ⟨rfl, ?_, h⟩
  cases hq : isQuote c with
  | false => rfl
  | true =>
    rcases isQuote_iff.mp hq with rfl | rfl <;> exact absurd h (by decide)

/-- A text that blanks do not cut has none at its ends, unless they are in quotes. -/
theorem Reads.trimChars_eq (h : Reads isBlank none xs quote) (hplain : ∀ c ∈ trimChars xs, isQuote c = false) :
    trimChars xs = xs := by
  obtain ⟨lead, trail, hxs, hlead, htrail⟩ := exists_append_trimChars xs
  rw [hxs] at h
  obtain ⟨q, hl, h⟩ := h.of_append
  obtain ⟨q', ht, h⟩ := h.of_append
  have hempty : ∀ {blanks quote}, Reads isBlank none blanks quote → (∀ c ∈ blanks, isBlank c = true) → blanks = [] := by
    intro blanks quote hreads hblanks
    cases hreads with
    | nil => rfl
    | @cons _ _ c _ hc _ =>
      rw [cutsAt_of_isBlank (hblanks c List.mem_cons_self)] at hc
      cases hc
  obtain rfl := hempty hl hlead
  have hnil : Reads isBlank none [] none := .nil
  obtain rfl := hnil.unique hl
  have hnever : Reads (fun _ => false) none (trimChars xs) none := reads_of_plain fun c hc => ⟨hplain c hc, rfl⟩
  obtain rfl := hnever.unique ht
  obtain rfl := hempty h htrail
  simpa using hxs.symm

/-! ## Parts -/

theorem partsFrom_of_reads (h : Reads separates quote xs quote') :
    partsFrom separates quote (xs ++ ys) = (partsFrom separates quote' ys).modifyHead (xs ++ ·) := by
  induction h with
  | @nil q =>
    rw [List.nil_append]
    cases partsFrom separates q ys <;> rfl
  | @cons _ q' c rest hc _ ih =>
    rw [List.cons_append, partsFrom, hc, ih]
    cases hp : partsFrom separates q' ys with
    | nil => exact absurd hp (partsFrom_ne_nil _ _ _)
    | cons p ps => rfl

theorem parts_eq_single (h : Reads separates quote xs quote') : partsFrom separates quote xs = [xs] := by
  have hparts : partsFrom separates quote (xs ++ []) = _ := partsFrom_of_reads h
  simpa [partsFrom] using hparts

theorem partsFrom_cut (h : Reads separates quote xs none) {c : Char} (hc : cutsAt separates none c = true) :
    partsFrom separates quote (xs ++ c :: ys) = xs :: parts separates ys := by
  rw [partsFrom_of_reads h, partsFrom, if_pos hc, List.modifyHead_cons, List.append_nil]
  rfl

theorem cut_of_reads {separator : Char} (h : Reads (· = separator) quote xs none) (hq : isQuote separator = false) :
    cutFrom separator quote (xs ++ separator :: ys) = some (xs, ys) := by
  induction xs generalizing quote with
  | nil =>
    cases h
    rw [List.nil_append, cutFrom, if_pos (cutsAt_iff.mpr ⟨rfl, hq, by simp⟩)]
  | cons c rest ih =>
    cases h with
    | cons hc hrest =>
      rw [List.cons_append, cutFrom, if_neg (by simp [hc]), ih hrest]
      rfl

theorem cutFrom_eq_none (h : Reads (· = separator) quote xs quote') : cutFrom separator quote xs = none := by
  induction h with
  | nil => rfl
  | cons hc _ ih => rw [cutFrom, if_neg (by simp [hc]), ih, Option.map_none]

/-- Parts of a text that starts in one state of the quotes and ends in another: only the last may leave a quote open. -/
inductive Segments (separates : Char → Bool) : Option Char → List (List Char) → Option Char → Prop
  | last {quote quote' : Option Char} {p : List Char} (reads : Reads separates quote p quote') :
      Segments separates quote [p] quote'
  | cons {quote quote' : Option Char} {p : List Char} {ps : List (List Char)} (reads : Reads separates quote p none)
      (rest : Segments separates none ps quote') : Segments separates quote (p :: ps) quote'

theorem Segments.ne_nil {ps : List (List Char)} (h : Segments separates quote ps quote') : ps ≠ [] := by
  cases h <;> exact List.cons_ne_nil _ _

theorem Segments.mono {separates' : Char → Bool} (hs : ∀ c, separates' c = true → separates c = true) {ps : List (List Char)}
    (h : Segments separates quote ps quote') : Segments separates' quote ps quote' := by
  induction h with
  | last hp => exact .last (hp.mono hs)
  | cons hp _ ih => exact .cons (hp.mono hs) ih

theorem Segments.prepend {c : Char} {p : List Char} {ps : List (List Char)} (hc : cutsAt separates quote c = false)
    (h : Segments separates (quoteAfter quote c) (p :: ps) quote') : Segments separates quote ((c :: p) :: ps) quote' := by
  cases h with
  | last hp => exact .last (.cons hc hp)
  | cons hp hps => exact .cons (.cons hc hp) hps

/-- The parts of a text that other separators do not cut are cut by neither kind. -/
theorem segments_partsFrom {others : Char → Bool} (h : Reads others quote xs quote') :
    Segments (fun c => separates c || others c) quote (partsFrom separates quote xs) quote' := by
  induction h with
  | nil => exact .last .nil
  | @cons q _ c rest hothers _ ih =>
    rw [partsFrom]
    split
    · rename_i hcut
      have hafter := quoteAfter_of_cutsAt hcut
      obtain ⟨rfl, _⟩ := cutsAt_iff.mp hcut
      exact .cons .nil (hafter ▸ ih)
    · rename_i hcut
      cases hp : partsFrom separates (quoteAfter q c) rest with
      | nil => exact absurd hp (partsFrom_ne_nil _ _ _)
      | cons p ps =>
        refine Segments.prepend ?_ (hp ▸ ih)
        simp_all [cutsAt]

/-- The first parts may be replaced by others that leave no quote open. -/
theorem Segments.replace {heads ps : List (List Char)} (hne : heads ≠ [])
    (hheads : ∀ p ∈ heads, Reads separates none p none) (h : ps = [] ∨ Segments separates quote ps quote') :
    ∃ quote'', (quote'' = none ∨ quote'' = quote') ∧ Segments separates none (heads ++ ps.drop heads.length) quote'' := by
  induction heads generalizing ps quote with
  | nil => exact absurd rfl hne
  | cons p rest ih =>
    have hp := hheads p List.mem_cons_self
    have htail : ps.tail = [] ∨ Segments separates none ps.tail quote' := by
      rcases h with rfl | h
      · exact .inl rfl
      · cases h with
        | last _ => exact .inl rfl
        | cons _ hps => exact .inr hps
    rw [List.cons_append, List.length_cons, ← List.drop_tail]
    cases rest with
    | nil =>
      rcases htail with htail | htail
      · rw [htail]
        exact ⟨none, .inl rfl, .last hp⟩
      · exact ⟨quote', .inr rfl, .cons hp htail⟩
    | cons p' rest =>
      obtain ⟨quote'', hquote, hrest⟩ := ih (List.cons_ne_nil _ _) (fun p hp => hheads p (List.mem_cons_of_mem _ hp)) htail
      exact ⟨quote'', hquote, .cons hp hrest⟩

theorem Segments.parts_intercalate {separator : Char} {ps : List (List Char)} (hq : isQuote separator = false)
    (h : Segments (· = separator) quote ps quote') :
    partsFrom (· = separator) quote ([separator].intercalate ps) = ps := by
  induction h with
  | last hp => rw [List.intercalate_singleton, parts_eq_single hp]
  | @cons _ _ p ps hp hps ih =>
    obtain ⟨p', ps', rfl⟩ := List.exists_cons_of_ne_nil hps.ne_nil
    rw [List.intercalate_cons_cons, List.append_assoc]
    exact (partsFrom_cut hp (cutsAt_iff.mpr ⟨rfl, hq, by simp⟩)).trans (congrArg (p :: ·) ih)

theorem Segments.reads_intercalate {separator : Char} {ps : List (List Char)} (hq : isQuote separator = false)
    (hs : separates separator = false) (h : Segments separates quote ps quote') :
    Reads separates quote ([separator].intercalate ps) quote' := by
  induction h with
  | last hp => rwa [List.intercalate_singleton]
  | @cons _ _ p ps hp hps ih =>
    obtain ⟨p', ps', rfl⟩ := List.exists_cons_of_ne_nil hps.ne_nil
    rw [List.intercalate_cons_cons, List.append_assoc]
    have hafter : quoteAfter none separator = none := if_neg (by simp [hq])
    refine hp.append (.cons (by simp [cutsAt, hs]) ?_)
    rw [hafter]
    exact ih

/-! ## The start of a line -/

/-- What stands before the first cut of a text that starts in a state of the quotes, and the rest from that cut on. -/
def spanFrom (separates : Char → Bool) (quote : Option Char) : List Char → List Char × List Char
  | [] => ([], [])
  | c :: rest =>
    if cutsAt separates quote c then ([], c :: rest)
    else
      let (before, after) := spanFrom separates (quoteAfter quote c) rest
      (c :: before, after)

theorem spanFrom_spec (separates : Char → Bool) (quote : Option Char) (cs : List Char) :
    ∃ quote', Reads separates quote (spanFrom separates quote cs).1 quote' ∧
      (spanFrom separates quote cs).1 ++ (spanFrom separates quote cs).2 = cs ∧
      ((spanFrom separates quote cs).2 = [] ∨ quote' = none ∧
        ∃ c rest, (spanFrom separates quote cs).2 = c :: rest ∧ cutsAt separates none c = true) := by
  induction cs generalizing quote with
  | nil => exact ⟨quote, .nil, rfl, .inl rfl⟩
  | cons c rest ih =>
    rw [spanFrom]
    split
    · rename_i hc
      obtain ⟨rfl, _⟩ := cutsAt_iff.mp hc
      exact ⟨none, .nil, rfl, .inr ⟨rfl, c, rest, rfl, hc⟩⟩
    · rename_i hc
      obtain ⟨quote', hreads, happend, hrest⟩ := ih (quoteAfter quote c)
      exact ⟨quote', .cons (by simpa using hc) hreads, congrArg (c :: ·) happend, hrest⟩

/-- What stands before the first cut is the first part, and what follows is cut in the same way whatever that is. -/
theorem exists_parts_append {rest : List Char} (h : rest = [] ∨ quote = none ∧
    ∃ c tail, rest = c :: tail ∧ cutsAt separates none c = true) : ∃ others, ∀ token quote', Reads separates none token quote' →
      (quote' = none ∨ quote' = quote) → parts separates (token ++ rest) = token :: others := by
  rcases h with rfl | ⟨rfl, c, tail, rfl, hc⟩
  · refine ⟨[], fun token quote' htoken _ => ?_⟩
    rw [List.append_nil]
    exact parts_eq_single htoken
  · refine ⟨parts separates tail, fun token quote' htoken hquote => ?_⟩
    obtain rfl := hquote.elim id id
    exact partsFrom_cut htoken hc

/-- Blanks before a line make no parts of their own. -/
theorem filter_parts_blanks {blanks : List Char} (h : ∀ c ∈ blanks, isBlank c = true) (cs : List Char) :
    (parts isBlank (blanks ++ cs)).filter (!·.isEmpty) = (parts isBlank cs).filter (!·.isEmpty) := by
  induction blanks with
  | nil => rfl
  | cons c rest ih =>
    have hcut : parts isBlank (c :: (rest ++ cs)) = [] :: parts isBlank (rest ++ cs) :=
      partsFrom_cut .nil (cutsAt_of_isBlank (h c List.mem_cons_self))
    rw [List.cons_append, hcut, List.filter_cons_of_neg (by simp), ih fun c hc => h c (List.mem_cons_of_mem _ hc)]

end Shorthand

end Schemata
