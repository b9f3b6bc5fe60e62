import Schemata.Proofs.Shorthand.Split

/-!
# Spellings of a line

The texts that a chain of methods may be written as. A string stands in quotes of a kind that it does not contain, arguments
are joined by commas and methods by blanks. Reading such a text gives the chain back.
-/

namespace Schemata.Shorthand

open Schemata.Text

/-! ## Categories of arguments -/

namespace Argument

variable {text digits : List Char}

/-- A text is a word, in capitals or not. -/
def IsWord (word : String) (text : List Char) : Prop :=
  asciiLower (String.ofList text) = word

def IsDigits (text : List Char) : Prop :=
  text ≠ [] ∧ ∀ c ∈ text, isDecimalDigit c = true

/-- Digits, perhaps with a minus sign before them, perhaps with a point and more digits after them. -/
def IsNumeral (text : List Char) : Prop :=
  ∃ sign whole places, text = sign ++ whole ++ places ∧ sign ∈ [[], ['-']] ∧ IsDigits whole ∧
    (places = [] ∨ ∃ digits, places = '.' :: digits ∧ IsDigits digits)

/-- What texts may belong to a category, those aside that belong to another before it. -/
def Fits : ArgumentKind → List Char → Prop
  | .null, text => text = [] ∨ text = ['~'] ∨ IsWord "null" text
  | .bool, text => IsWord "true" text ∨ IsWord "false" text
  | .numeric, text => IsNumeral text
  | .classRef, text => ∃ c rest, text = c :: rest ∧ c.isUpper = true
  | .path, text => '.' ∈ text
  | .string, _ => True

/-- The order in which the categories are tried. -/
def categories : List ArgumentKind :=
  [.null, .bool, .numeric, .classRef, .path, .string]

/-- The text belongs to the category: it fits that one and none before it. -/
def IsOfKind (text : List Char) (kind : ArgumentKind) : Prop :=
  Fits kind text ∧ ∀ k ∈ categories.takeWhile (· ≠ kind), ¬Fits k text

theorem isUnsignedNumber_iff : isUnsignedNumber text = true ↔ ∃ whole places, text = whole ++ places ∧ IsDigits whole ∧
    (places = [] ∨ ∃ digits, places = '.' :: digits ∧ IsDigits digits) := by
  have hpoint : isDecimalDigit '.' = false := by decide
  unfold isUnsignedNumber
  rw [Bool.and_eq_true, Bool.not_eq_true', List.isEmpty_eq_false_iff]
  constructor
  · rintro ⟨hwhole, hplaces⟩
    refine ⟨text.takeWhile isDecimalDigit, text.dropWhile isDecimalDigit, List.takeWhile_append_dropWhile.symm,
      ⟨hwhole, fun c => List.mem_takeWhile_imp⟩, ?_⟩
    split at hplaces
    · rename_i hdrop
      exact .inl hdrop
    · rename_i digits hdrop
      rw [Bool.and_eq_true, Bool.not_eq_true', List.isEmpty_eq_false_iff, List.all_eq_true] at hplaces
      exact .inr ⟨digits, hdrop, hplaces⟩
    · cases hplaces
  · rintro ⟨whole, places, rfl, ⟨hne, hwhole⟩, rfl | ⟨digits, rfl, hdigits⟩⟩
    · rw [List.append_nil, List.takeWhile_eq_self_iff.mpr hwhole, List.dropWhile_eq_nil_iff.mpr hwhole]
      exact ⟨hne, rfl⟩
    · rw [List.takeWhile_append_of_pos hwhole, List.dropWhile_append_of_pos hwhole, List.takeWhile_cons_of_neg (by simp [hpoint]),
        List.dropWhile_cons_of_neg (by simp [hpoint]), List.append_nil]
      refine ⟨hne, ?_⟩
      change (!digits.isEmpty && digits.all isDecimalDigit) = true
      rw [Bool.and_eq_true, Bool.not_eq_true', List.isEmpty_eq_false_iff, List.all_eq_true]
      exact hdigits

theorem isNumber_iff : isNumber text = true ↔ IsNumeral text := by
  have hminus : isDecimalDigit '-' = false := by decide
  unfold isNumber
  split
  · rename_i rest
    rw [isUnsignedNumber_iff]
    constructor
    · rintro ⟨whole, places, rfl, hwhole, hplaces⟩
      exact ⟨['-'], whole, places, rfl, by simp, hwhole, hplaces⟩
    · rintro ⟨sign, whole, places, htext, hsign, hwhole, hplaces⟩
      rcases List.mem_pair.mp hsign with rfl | rfl
      · obtain ⟨c, digits, rfl⟩ := List.exists_cons_of_ne_nil hwhole.1
        obtain ⟨rfl, _⟩ := List.cons.inj htext
        exact absurd (hwhole.2 _ List.mem_cons_self) (by simp [hminus])
      · exact ⟨whole, places, (List.cons.inj htext).2, hwhole, hplaces⟩
  · rename_i hunsigned
    rw [isUnsignedNumber_iff]
    constructor
    · rintro ⟨whole, places, htext, hwhole, hplaces⟩
      exact ⟨[], whole, places, htext, by simp, hwhole, hplaces⟩
    · rintro ⟨sign, whole, places, htext, hsign, hwhole, hplaces⟩
      rcases List.mem_pair.mp hsign with rfl | rfl
      · exact ⟨whole, places, htext, hwhole, hplaces⟩
      · exact absurd htext (hunsigned _)

theorem isUpper_head_iff : text.head?.any (·.isUpper) = true ↔ Fits .classRef text := by
  cases text <;> simp [Fits]

instance (kind : ArgumentKind) (text : List Char) : Decidable (Fits kind text) :=
  match kind with
  | .null => inferInstanceAs (Decidable (text = [] ∨ text = ['~'] ∨ asciiLower (String.ofList text) = "null"))
  | .bool => inferInstanceAs (Decidable (asciiLower (String.ofList text) = "true" ∨ asciiLower (String.ofList text) = "false"))
  | .numeric => decidable_of_iff _ isNumber_iff
  | .classRef => decidable_of_iff _ isUpper_head_iff
  | .path => inferInstanceAs (Decidable ('.' ∈ text))
  | .string => .isTrue trivial

instance (kind : ArgumentKind) (text : List Char) : Decidable (IsOfKind text kind) :=
  inferInstanceAs (Decidable (_ ∧ ∀ k ∈ categories.takeWhile (· ≠ kind), ¬Fits k text))

/-- The categories are tried in their order. -/
theorem kindOf_eq (text : List Char) : kindOf text =
    if Fits .null text then .null
    else if Fits .bool text then .bool
    else if Fits .numeric text then .numeric
    else if Fits .classRef text then .classRef
    else if Fits .path text then .path
    else .string := by
  have hnull : (text.isEmpty || decide (text = ['~']) || asciiLower (String.ofList text) == "null") = true ↔ Fits .null text := by
    simp [Fits, IsWord, or_assoc]
  have hbool : (asciiLower (String.ofList text) == "true" || asciiLower (String.ofList text) == "false") = true ↔
      Fits .bool text := by
    simp [Fits, IsWord]
  have hnumeric : isNumber text = true ↔ Fits .numeric text := isNumber_iff
  have hclass : text.head?.any (·.isUpper) = true ↔ Fits .classRef text := isUpper_head_iff
  have hpath : text.contains '.' = true ↔ Fits .path text := by
    simp [Fits]
  unfold kindOf
  simp only [hnull, hbool, hnumeric, hclass, hpath]

theorem kindOf_of_isOfKind {kind : ArgumentKind} (h : IsOfKind text kind) : kindOf text = kind := by
  obtain ⟨hfits, hbefore⟩ := h
  rw [kindOf_eq]
  cases kind <;> simp_all [categories, List.takeWhile]

end Argument

/-! ## Spellings -/

/-- The text is free of what would end an argument or put it in quotes. -/
def IsVerbatim (text : List Char) : Prop :=
  ∀ c ∈ text, isBlank c = false ∧ c ≠ ',' ∧ isQuote c = false

instance (text : List Char) : Decidable (IsVerbatim text) :=
  List.decidableBAll _ text

/-- What an argument may be written as. -/
inductive Argument.Spelled : Argument → List Char → Prop
  | quoted {q : Char} {value : List Char} (quote : isQuote q = true) (free : q ∉ value) :
    Spelled (.string (String.ofList value)) (q :: value ++ [q])
  | bool {word : String} (truth : word ∈ ["true", "false"]) : Spelled ⟨.bool, word⟩ word.toList
  | null : Spelled .null ['~']
  | verbatim {kind : ArgumentKind} {text : List Char} (unquoted : kind ∈ [.numeric, .classRef, .path])
    (category : Argument.IsOfKind text kind) (free : IsVerbatim text) : Spelled ⟨kind, String.ofList text⟩ text

def IsMethodName (name : List Char) : Prop :=
  name ≠ [] ∧ ∀ c ∈ name, isBlank c = false ∧ c ≠ ':' ∧ isQuote c = false

instance (name : List Char) : Decidable (IsMethodName name) :=
  @instDecidableAnd _ _ inferInstance (List.decidableBAll _ name)

/-- What a method may be written as. -/
inductive Method.Spelled : Method → List Char → Prop
  | bare {name : List Char} (name_ok : IsMethodName name) : Spelled (.bare (String.ofList name)) name
  | call {name : List Char} {arguments : List Argument} {texts : List (List Char)} (name_ok : IsMethodName name)
    (nonempty : arguments ≠ []) (spelled : List.Forall₂ Argument.Spelled arguments texts) :
    Spelled ⟨String.ofList name, arguments⟩ (name ++ ':' :: [','].intercalate texts)

/-- What the methods of a line may be written as, joined by blanks. -/
inductive Call.Spelled : List Method → List Char → Prop
  | nil : Spelled [] []
  | last {m : Method} {token : List Char} (spelled : m.Spelled token) : Spelled [m] token
  | cons {m n : Method} {methods : List Method} {token blanks rest : List Char} (spelled : m.Spelled token)
    (nonempty : blanks ≠ []) (blank : ∀ c ∈ blanks, isBlank c = true) (others : Spelled (n :: methods) rest) :
    Spelled (m :: n :: methods) (token ++ blanks ++ rest)

/-! ## Chains that can be written -/

/-- An argument has a spelling. A string that contains both kinds of quote has none. -/
def Argument.IsWritable (a : Argument) : Prop :=
  match a.kind with
  | .string => '\'' ∉ a.value.toList ∨ '"' ∉ a.value.toList
  | .bool => a.value ∈ ["true", "false"]
  | .null => a.value = ""
  | .numeric | .classRef | .path => IsOfKind a.value.toList a.kind ∧ IsVerbatim a.value.toList

def Method.IsWritable (m : Method) : Prop :=
  IsMethodName m.name.toList ∧ ∀ a ∈ m.arguments, a.IsWritable

theorem Argument.exists_spelled_iff {a : Argument} : (∃ text, a.Spelled text) ↔ a.IsWritable := by
  constructor
  · rintro ⟨_, h⟩
    cases h with
    | @quoted q value hq hv =>
      unfold IsWritable
      rw [string, String.toList_ofList]
      rcases isQuote_iff.mp hq with rfl | rfl
      · exact .inl hv
      · exact .inr hv
    | bool hword => exact hword
    | null => rfl
    | @verbatim kind text hkind hcategory hfree =>
      simp only [List.mem_cons, List.not_mem_nil, or_false] at hkind
      unfold IsWritable
      rw [String.toList_ofList]
      rcases hkind with rfl | rfl | rfl <;> exact ⟨hcategory, hfree⟩
  · intro h
    obtain ⟨kind, value⟩ := a
    have hverbatim : kind ∈ [.numeric, .classRef, .path] → IsOfKind value.toList kind ∧ IsVerbatim value.toList →
        ∃ text, Spelled ⟨kind, value⟩ text := fun hkind hv =>
      ⟨value.toList, by simpa using Spelled.verbatim hkind hv.1 hv.2⟩
    cases kind with
    | string =>
      rcases h with hv | hv
      · exact ⟨_, by simpa [string] using Spelled.quoted (by decide) hv⟩
      · exact ⟨_, by simpa [string] using Spelled.quoted (by decide) hv⟩
    | bool => exact ⟨_, .bool h⟩
    | null =>
      obtain rfl : value = "" := h
      exact ⟨_, .null⟩
    | numeric => exact hverbatim (by decide) h
    | classRef => exact hverbatim (by decide) h
    | path => exact hverbatim (by decide) h

theorem Method.exists_spelled_iff {m : Method} : (∃ token, m.Spelled token) ↔ m.IsWritable := by
  constructor
  · rintro ⟨_, h⟩
    cases h with
    | bare hname => exact ⟨by simpa [Method.bare] using hname, by simp [Method.bare]⟩
    | call hname _ harguments =>
      refine ⟨by simpa using hname, fun a ha => ?_⟩
      obtain ⟨text, _, htext⟩ := exists_mem_of_forall₂ harguments ha
      exact Argument.exists_spelled_iff.mp ⟨text, htext⟩
  · rintro ⟨hname, harguments⟩
    obtain ⟨name, arguments⟩ := m
    by_cases hne : arguments = []
    · subst hne
      exact ⟨_, by simpa [Method.bare] using Method.Spelled.bare hname⟩
    · choose! text htext using fun a ha => Argument.exists_spelled_iff.mpr (harguments a ha)
      have hspelled : List.Forall₂ Argument.Spelled arguments (arguments.map text) :=
        List.forall₂_map_right_iff.mpr (List.forall₂_same.mpr htext)
      exact ⟨_, by simpa using Method.Spelled.call hname hne hspelled⟩

theorem Call.exists_spelled_iff {methods : List Method} : (∃ text, Spelled methods text) ↔ ∀ m ∈ methods, m.IsWritable := by
  constructor
  · rintro ⟨_, h⟩
    induction h with
    | nil => simp
    | last hm => simpa using Method.exists_spelled_iff.mp ⟨_, hm⟩
    | cons hm _ _ _ ih => exact List.forall_mem_cons.mpr ⟨Method.exists_spelled_iff.mp ⟨_, hm⟩, ih⟩
  · intro h
    induction methods with
    | nil => exact ⟨_, .nil⟩
    | cons m rest ih =>
      obtain ⟨hm, hrest⟩ := List.forall_mem_cons.mp h
      obtain ⟨token, htoken⟩ := Method.exists_spelled_iff.mpr hm
      cases rest with
      | nil => exact ⟨_, .last htoken⟩
      | cons n methods =>
        obtain ⟨text, htext⟩ := ih hrest
        exact ⟨_, .cons htoken (List.cons_ne_nil ' ' []) (List.all_eq_true.mp rfl) htext⟩

/-! ## Reading arguments -/

variable {separates : Char → Bool} {quote quote' : Option Char} {xs : List Char}

theorem isBlank_of_isQuote {c : Char} (h : isQuote c = true) : isBlank c = false := by
  rcases isQuote_iff.mp h with rfl | rfl <;> decide

/-- Only quotes are ever open. -/
theorem Reads.isQuote_of_open (h : Reads separates quote xs quote') (hq : ∀ q, quote = some q → isQuote q = true) :
    ∀ q, quote' = some q → isQuote q = true := by
  induction h with
  | nil => exact hq
  | @cons quote _ c _ _ _ ih =>
    refine ih fun q hopen => ?_
    unfold quoteAfter at hopen
    split at hopen
    · split at hopen
      · cases hopen
      · exact hq q hopen
    · split at hopen
      · rename_i hc
        exact Option.some_inj.mp hopen ▸ hc
      · cases hopen

/-- A text that blanks do not cut and that leaves no quote open has no blanks at its ends. -/
theorem Reads.trimmed (h : Reads isBlank none xs none) : trimChars xs = xs := by
  refine trimChars_eq_self (fun c hc => ?_) fun c hc => ?_
  · cases h with
    | nil => cases hc
    | cons huncut _ =>
      obtain rfl := Option.some_inj.mp hc
      by_contra hblank
      rw [cutsAt_of_isBlank (by simpa using hblank)] at huncut
      cases huncut
  · obtain ⟨init, rfl⟩ := List.getLast?_eq_some_iff.mp hc
    obtain ⟨q, hinit, hlast⟩ := h.of_append
    cases hlast with
    | cons huncut hrest =>
      have hclosed : quoteAfter q c = none := by
        generalize quoteAfter q c = q' at hrest
        cases hrest
        rfl
      cases q with
      | none =>
        by_contra hblank
        rw [cutsAt_of_isBlank (by simpa using hblank)] at huncut
        cases huncut
      | some q =>
        -- What closes a quote is a quote.
        have hq : isQuote q = true := hinit.isQuote_of_open (by simp) q rfl
        have hcq : c = q := by
          by_contra hne
          simp [quoteAfter, hne] at hclosed
        exact isBlank_of_isQuote (hcq ▸ hq)

theorem reads_quoted {q : Char} {value : List Char} (hq : isQuote q = true) (hv : q ∉ value) :
    Reads separates none (q :: value ++ [q]) none := by
  have hclose : Reads separates (some q) [q] none := .cons rfl (by simpa [quoteAfter] using .nil)
  exact (reads_of_unclosed hq hv).append hclose

theorem IsVerbatim.reads {text : List Char} (h : IsVerbatim text) : Reads (fun c => c = ',' || isBlank c) none text none := by
  refine reads_of_plain fun c hc => ?_
  obtain ⟨hblank, hcomma, hquote⟩ := h c hc
  exact ⟨hquote, by simp [hblank, hcomma]⟩

namespace Argument

variable {a : Argument} {text : List Char}

/-- Neither commas nor blanks cut the text of an argument. -/
theorem Spelled.reads (h : a.Spelled text) : Reads (fun c => c = ',' || isBlank c) none text none := by
  cases h with
  | quoted hq hv => exact reads_quoted hq hv
  | bool hword =>
    rcases List.mem_pair.mp hword with rfl | rfl <;> exact IsVerbatim.reads (by decide)
  | null => exact IsVerbatim.reads (by decide)
  | verbatim _ _ hfree => exact hfree.reads

theorem Spelled.ne_nil (h : a.Spelled text) : text ≠ [] := by
  cases h with
  | quoted => exact List.cons_ne_nil _ _
  | bool hword => rcases List.mem_pair.mp hword with rfl | rfl <;> decide
  | null => exact List.cons_ne_nil _ _
  | verbatim hkind hcategory _ =>
    rintro rfl
    have hnull : IsOfKind [] .null := by decide
    have hkind' := (kindOf_of_isOfKind hcategory).symm.trans (kindOf_of_isOfKind hnull)
    rw [hkind'] at hkind
    exact absurd hkind (by decide)

theorem unquote_of_plain (h : ∀ c ∈ text, isQuote c = false) : unquote text = none := by
  unfold unquote
  split
  · rename_i q rest
    split
    · rw [if_neg (by simp [h q List.mem_cons_self])]
    · rfl
  · rfl

theorem unquote_quoted {q : Char} (hq : isQuote q = true) (value : List Char) : unquote (q :: value ++ [q]) = some value := by
  simp [unquote, hq]

/-- An argument is read from each of its spellings. -/
theorem ofChars_of_spelled (h : a.Spelled text) : ofChars text = a := by
  have hreads : Reads isBlank none text none := h.reads.mono fun c hc => by simp [hc]
  have htrim : trimChars text = text := hreads.trimmed
  unfold ofChars
  dsimp only
  rw [htrim]
  cases h with
  | quoted hq _ => rw [unquote_quoted hq]
  | bool hword => rcases List.mem_pair.mp hword with rfl | rfl <;> decide
  | null => rfl
  | @verbatim kind _ hkind hcategory hfree =>
    rw [unquote_of_plain fun c hc => (hfree c hc).2.2, kindOf_of_isOfKind hcategory]
    simp only [List.mem_cons, List.not_mem_nil, or_false] at hkind
    rcases hkind with rfl | rfl | rfl <;> rfl

end Argument

/-! ## Reading methods -/

theorem segments_of_closed {ps : List (List Char)} (hne : ps ≠ []) (h : ∀ p ∈ ps, Reads separates none p none) :
    Segments separates none ps none := by
  induction ps with
  | nil => exact absurd rfl hne
  | cons p rest ih =>
    obtain ⟨hp, hrest⟩ := List.forall_mem_cons.mp h
    cases rest with
    | nil => exact .last hp
    | cons p' rest => exact .cons hp (ih (List.cons_ne_nil _ _) hrest)

theorem IsMethodName.reads {name : List Char} (h : IsMethodName name) : Reads (fun c => c = ':' || isBlank c) none name none := by
  refine reads_of_plain fun c hc => ?_
  obtain ⟨hblank, hcolon, hquote⟩ := h.2 c hc
  exact ⟨hquote, by simp [hblank, hcolon]⟩

/-- The texts of the arguments of a method, joined by commas. -/
theorem segments_of_spelled {arguments : List Argument} {texts : List (List Char)} (hne : arguments ≠ [])
    (h : List.Forall₂ Argument.Spelled arguments texts) : Segments (fun c => c = ',' || isBlank c) none texts none := by
  refine segments_of_closed (fun hnil => ?_) fun text htext => ?_
  · subst hnil
    exact hne (List.forall₂_nil_right_iff.mp h)
  · obtain ⟨a, _, ha⟩ := mem_of_forall₂ h htext
    exact ha.reads

theorem reads_of_spelled {arguments : List Argument} {texts : List (List Char)} (hne : arguments ≠ [])
    (h : List.Forall₂ Argument.Spelled arguments texts) : Reads isBlank none ([','].intercalate texts) none := by
  have hsegments : Segments isBlank none texts none := (segments_of_spelled hne h).mono fun c hc => by simp [hc]
  exact hsegments.reads_intercalate rfl rfl

namespace Method

variable {m : Method} {token : List Char}

theorem Spelled.reads (h : m.Spelled token) : Reads isBlank none token none := by
  have hname : ∀ {name}, IsMethodName name → Reads isBlank none name none :=
    fun hname => hname.reads.mono fun c hc => by simp [hc]
  cases h with
  | bare hn => exact hname hn
  | call hn hne harguments =>
    exact (hname hn).append (.cons rfl (reads_of_spelled hne harguments))

theorem Spelled.ne_nil (h : m.Spelled token) : token ≠ [] := by
  cases h with
  | bare hn => exact hn.1
  | call => simp

/-- A method is read from each of its spellings. -/
theorem ofChars_of_spelled (h : m.Spelled token) : ofChars token = m := by
  have htrim : trimChars token = token := h.reads.trimmed
  unfold ofChars
  dsimp only
  rw [htrim]
  cases h with
  | bare hname =>
    have hcut : cut ':' token = none := cutFrom_eq_none (hname.reads.mono fun c hc => by simp [of_decide_eq_true hc])
    rw [hcut]
  | @call name arguments texts hname hne harguments =>
    have hcut : cut ':' (name ++ ':' :: [','].intercalate texts) = some (name, [','].intercalate texts) :=
      cut_of_reads (hname.reads.mono fun c hc => by simp [of_decide_eq_true hc]) rfl
    have hsegments := segments_of_spelled hne harguments
    have hparts : parts (· = ',') ([','].intercalate texts) = texts :=
      (hsegments.mono fun c hc => by simp [of_decide_eq_true hc]).parts_intercalate rfl
    have htrim : trimChars name = name := trimChars_of_not_blank fun c hc => (hname.2 c hc).1
    have htrims : trimChars ([','].intercalate texts) = [','].intercalate texts := (reads_of_spelled hne harguments).trimmed
    have hnonempty : [','].intercalate texts ≠ [] := by
      cases harguments with
      | nil => exact absurd rfl hne
      | @cons a text _ texts ha _ =>
        intro hnil
        refine ha.ne_nil ?_
        cases texts with
        | nil => rwa [List.intercalate_singleton] at hnil
        | cons text' texts =>
          rw [List.intercalate_cons_cons] at hnil
          simp at hnil
    rw [hcut]
    dsimp only
    rw [htrim, htrims, hparts, if_neg (by simpa using hnonempty)]
    have hread : texts.map Argument.ofChars = arguments.map id :=
      map_eq_of_forall₂ (P := Argument.Spelled) Argument.ofChars_of_spelled harguments
    rw [hread, List.map_id]

end Method

/-! ## Reading lines -/

namespace Call

/-- A line is read as the methods of which it is a spelling. -/
theorem ofChars_of_spelled {methods : List Method} {text : List Char} (h : Spelled methods text) :
    ((parts isBlank text).filter (!·.isEmpty)).map Method.ofChars = methods := by
  induction h with
  | nil => rfl
  | last hm =>
    have hparts : parts isBlank _ = _ := parts_eq_single hm.reads
    rw [hparts, List.filter_cons_of_pos (by simpa using hm.ne_nil)]
    exact congrArg (fun m => [m]) (Method.ofChars_of_spelled hm)
  | @cons m n methods token blanks rest hm hne hblanks _ ih =>
    obtain ⟨b, blanks, rfl⟩ := List.exists_cons_of_ne_nil hne
    obtain ⟨hb, hblanks⟩ := List.forall_mem_cons.mp hblanks
    have hparts : parts isBlank (token ++ b :: blanks ++ rest) = token :: parts isBlank (blanks ++ rest) := by
      rw [List.append_assoc, List.cons_append]
      exact partsFrom_cut hm.reads (cutsAt_of_isBlank hb)
    rw [hparts, List.filter_cons_of_pos (by simpa using hm.ne_nil), filter_parts_blanks hblanks, List.map_cons, ih,
      Method.ofChars_of_spelled hm]

/-- A chain of methods that can be written has a spelling, and each of its spellings is read as that chain. -/
theorem parse_spelled {methods : List Method} (h : ∀ m ∈ methods, m.IsWritable) :
    (∃ line : String, Spelled methods line.toList) ∧
      ∀ line : String, Spelled methods line.toList → parse line = ⟨methods⟩ := by
  refine ⟨?_, fun line hline => congrArg Call.mk (ofChars_of_spelled hline)⟩
  obtain ⟨text, htext⟩ := exists_spelled_iff.mpr h
  exact ⟨String.ofList text, by rwa [String.toList_ofList]⟩

/-- Strings that look like other arguments or hold separators and quotes, and an argument of each other category. -/
def priceMethods : List Method :=
  [⟨"price", [.string "", .null, ⟨.numeric, "-1.5"⟩, .string "-1.5"]⟩,
    ⟨"cast", [.classRef "App\\Money:x", ⟨.path, "app.locale"⟩, ⟨.bool, "true"⟩]⟩, .bare "nullable",
    ⟨"comment", [.string "it's a, b: c", .string "null"]⟩]

def priceLine : String :=
  "price:'',~,-1.5,\"-1.5\" \t cast:App\\Money:x,app.locale,true\nnullable comment:\"it's a, b: c\",'null'"

theorem priceLine_spelled : Spelled priceMethods priceLine.toList := by
  have hprice : Method.Spelled ⟨"price", [.string "", .null, ⟨.numeric, "-1.5"⟩, .string "-1.5"]⟩
      ("price".toList ++ ':' :: [','].intercalate ["''".toList, ['~'], "-1.5".toList, "\"-1.5\"".toList]) :=
    .call (by decide) (by simp) (.cons (.quoted rfl (by simp)) (.cons .null
      (.cons (.verbatim (by decide) (by decide) (by decide)) (.cons (.quoted rfl (by decide)) .nil))))
  have hcast : Method.Spelled ⟨"cast", [.classRef "App\\Money:x", ⟨.path, "app.locale"⟩, ⟨.bool, "true"⟩]⟩
      ("cast".toList ++ ':' :: [','].intercalate ["App\\Money:x".toList, "app.locale".toList, "true".toList]) :=
    .call (by decide) (by simp) (.cons (.verbatim (by decide) (by decide) (by decide))
      (.cons (.verbatim (by decide) (by decide) (by decide)) (.cons (.bool (by decide)) .nil)))
  have hcomment : Method.Spelled ⟨"comment", [.string "it's a, b: c", .string "null"]⟩
      ("comment".toList ++ ':' :: [','].intercalate ["\"it's a, b: c\"".toList, "'null'".toList]) :=
    .call (by decide) (by simp) (.cons (.quoted rfl (by decide)) (.cons (.quoted rfl (by decide)) .nil))
  have hnullable : Method.Spelled (.bare "nullable") "nullable".toList := .bare (by decide)
  have hlast : Spelled _ ("nullable".toList ++ [' '] ++ _) := .cons hnullable (by simp) (List.all_eq_true.mp rfl) (.last hcomment)
  have hrest : Spelled _ (_ ++ ['\n'] ++ _) := .cons hcast (by simp) (List.all_eq_true.mp rfl) hlast
  have hline : Spelled _ (_ ++ [' ', '\t', ' '] ++ _) := .cons hprice (by simp) (List.all_eq_true.mp rfl) hrest
  refine Eq.mp (congrArg (Spelled priceMethods) ?_) hline
  decide +kernel

theorem price_parsed : (∀ m ∈ priceMethods, m.IsWritable) ∧ Spelled priceMethods priceLine.toList ∧
    parse priceLine = ⟨priceMethods⟩ := by
  have hwritable : ∀ m ∈ priceMethods, m.IsWritable := exists_spelled_iff.mp ⟨_, priceLine_spelled⟩
  exact ⟨hwritable, priceLine_spelled, (parse_spelled hwritable).2 priceLine priceLine_spelled⟩

end Call

end Schemata.Shorthand
