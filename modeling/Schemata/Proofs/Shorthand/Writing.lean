import Mathlib.Data.List.Forall2
import Schemata.Proofs.Shorthand.Split
import Schemata.Relation.Declared

/-!
# Writing out arguments

A line whose leading method is given its first arguments by name. When the line is read again, these arguments have the values
that were written, and all else is read as before.
-/

namespace Schemata.Shorthand

open Schemata.Text

/-! ## Texts of arguments -/

/-- A key that may stand as an argument: of ASCII letters, digits, slashes and underscores, and no word of another kind. -/
def IsPlainKey (key : String) : Prop :=
  (∀ c ∈ key.toList, c.isAlphanum = true ∨ c ∈ ['/', '\\', '_']) ∧ asciiLower key ∉ ["null", "true", "false"]

instance (key : String) : Decidable (IsPlainKey key) :=
  @instDecidableAnd _ _ (List.decidableBAll _ key.toList) (inferInstanceAs (Decidable (_ ∉ _)))

/-- A key as an argument. One without characters stands in quotes. -/
def keyText (key : String) : List Char :=
  if key = "" then ['\'', '\''] else key.toList

/-- Arguments of which the first ones are the given keys. -/
def writeArguments (keys : List String) (arguments : List Char) : List Char :=
  [','].intercalate (keys.map keyText ++ (parts (· = ',') arguments).drop keys.length)

/-- A method whose first arguments are the given keys. -/
def writeMethod (keys : List String) (token : List Char) : List Char :=
  match cut ':' token with
  | none => token ++ ':' :: writeArguments keys []
  | some (name, arguments) => name ++ ':' :: writeArguments keys arguments

/-- A line in which the first arguments of the leading method are the given keys. -/
def writeOut (keys : List String) (line : String) : String :=
  let (token, rest) := spanFrom isBlank none (line.toList.dropWhile isBlank)
  String.ofList (line.toList.takeWhile isBlank ++ writeMethod keys token ++ rest)

example : writeOut ["User"] "belongsTo nullable" = "belongsTo:User nullable" := by decide +kernel

example : writeOut ["Post", "User"] "hasManyThrough:null,,author_id" = "hasManyThrough:Post,User,author_id" := by decide +kernel

/-! ## Reading a key -/

/-- What a character of a plain key is not. -/
theorem plain_of_isPlainKey {key : String} (h : IsPlainKey key) : ∀ c ∈ key.toList,
    isQuote c = false ∧ c ≠ ',' ∧ isBlank c = false := by
  have hascii : ∀ n < 128, ((Char.ofNat n).isAlphanum = true ∨ Char.ofNat n ∈ ['/', '\\', '_']) →
      isQuote (Char.ofNat n) = false ∧ Char.ofNat n ≠ ',' ∧ isBlank (Char.ofNat n) = false := by decide
  intro c hc
  have hlt : c.toNat < 128 := by
    rcases h.1 c hc with h | h
    · delta Char.isAlphanum Char.isAlpha Char.isUpper Char.isLower Char.isDigit at h
      simp only [Bool.or_eq_true, Bool.and_eq_true, decide_eq_true_eq, ge_iff_le, UInt32.le_iff_toNat_le] at h
      change ((65 ≤ c.toNat ∧ c.toNat ≤ 90) ∨ (97 ≤ c.toNat ∧ c.toNat ≤ 122)) ∨ (48 ≤ c.toNat ∧ c.toNat ≤ 57) at h
      omega
    · simp only [List.mem_cons, List.not_mem_nil, or_false] at h
      rcases h with rfl | rfl | rfl <;> decide
  have hc' := hascii c.toNat hlt
  rw [Char.ofNat_toNat] at hc'
  exact hc' (h.1 c hc)

theorem reads_keyText {key : String} (h : IsPlainKey key) :
    Reads (fun c => c = ',' || isBlank c) none (keyText key) none := by
  unfold keyText
  split
  · exact .cons rfl (.cons rfl .nil)
  · exact reads_of_plain fun c hc => by simpa using plain_of_isPlainKey h c hc

theorem kindOf_of_isPlainKey {key : String} (h : IsPlainKey key) (hne : key ≠ "") :
    Argument.kindOf key.toList ≠ .null ∧ Argument.kindOf key.toList ≠ .bool := by
  have hempty : key.toList.isEmpty = false := by simpa using hne
  have htilde : key.toList ≠ ['~'] := by
    intro hcs
    have hc := h.1 '~' (hcs ▸ List.mem_cons_self)
    exact absurd hc (by decide)
  have hlower := h.2
  simp only [List.mem_cons, List.not_mem_nil, or_false, not_or] at hlower
  unfold Argument.kindOf
  simp only [String.ofList_toList, hempty, htilde, hlower, beq_iff_eq, Bool.false_or, decide_false, Bool.or_eq_true,
    or_self, if_false]
  constructor <;> split <;> (try split) <;> (try split) <;> simp

theorem value?_keyText {key : String} (h : IsPlainKey key) : (Argument.ofChars (keyText key)).value? = some key := by
  unfold keyText
  split
  · rename_i hkey
    rw [hkey]
    rfl
  · rename_i hne
    obtain ⟨hnull, hbool⟩ := kindOf_of_isPlainKey h hne
    have hplain := plain_of_isPlainKey h
    have htrim : trimChars key.toList = key.toList := trimChars_of_not_blank fun c hc => (hplain c hc).2.2
    have hunquote : Argument.unquote key.toList = none := by
      unfold Argument.unquote
      split
      · rename_i q rest hcs
        have hq : isQuote q = false := (hplain q (hcs ▸ List.mem_cons_self)).1
        split
        · rw [if_neg (by simp [hq])]
        · rfl
      · rfl
    have hread : Argument.ofChars (keyText key) = ⟨Argument.kindOf key.toList, key⟩ := by
      unfold Argument.ofChars keyText
      dsimp only
      rw [if_neg hne, htrim, hunquote]
      dsimp only
      split
      · rename_i hk
        exact absurd hk hnull
      · rename_i hk
        exact absurd hk hbool
      · rw [String.ofList_toList]
    rw [keyText, if_neg hne] at hread
    rw [hread]
    simp [Argument.value?, Argument.isNull, hnull]

/-! ## Reading arguments -/

/-- The value of an argument, absent when it is null or not there. -/
def argumentAt (arguments : List Char) (i : Nat) : Option String :=
  ((parts (· = ',') arguments)[i]?.map Argument.ofChars).bind Argument.value?

theorem ofChars_append_blanks {cs blanks : List Char} (h : ∀ c ∈ blanks, isBlank c = true) :
    Argument.ofChars (cs ++ blanks) = Argument.ofChars cs := by
  unfold Argument.ofChars
  rw [trimChars_append_blanks h]

/-- No comma is blank. -/
theorem exists_reads_of_blank {blanks : List Char} (h : ∀ c ∈ blanks, isBlank c = true) (quote : Option Char) :
    ∃ quote', Reads (· = ',') quote blanks quote' :=
  exists_reads_of_no_separator quote fun c hc => decide_eq_false fun hcomma => absurd (hcomma ▸ h c hc) (by decide)

/-- Blanks at the end of arguments are blanks at the end of the last one. -/
theorem partsFrom_append_blanks {blanks : List Char} (h : ∀ c ∈ blanks, isBlank c = true) (quote : Option Char)
    (cs : List Char) : List.Forall₂ (fun p p' => p' = p ∨ p' = p ++ blanks) (partsFrom (· = ',') quote cs)
      (partsFrom (· = ',') quote (cs ++ blanks)) := by
  induction cs generalizing quote with
  | nil =>
    obtain ⟨_, hreads⟩ := exists_reads_of_blank h quote
    rw [List.nil_append, parts_eq_single hreads]
    exact .cons (.inr rfl) .nil
  | cons c rest ih =>
    rw [List.cons_append, partsFrom, partsFrom]
    split
    · exact .cons (.inl rfl) (ih none)
    · have hrest := ih (quoteAfter quote c)
      cases hp : partsFrom (· = ',') (quoteAfter quote c) rest with
      | nil => exact absurd hp (partsFrom_ne_nil _ _ _)
      | cons p ps =>
        rw [hp, List.forall₂_cons_left_iff] at hrest
        obtain ⟨p', ps', hp', hps', heq⟩ := hrest
        rw [heq]
        exact .cons (hp'.imp (congrArg (c :: ·)) (congrArg (c :: ·))) hps'

theorem trimChars_of_word {word : List Char} (hplain : ∀ c ∈ word, isBlank c = false) (hne : word ≠ []) (arguments : List Char) :
    trimChars (word ++ ':' :: arguments) = word ++ ':' :: arguments.rdropWhile isBlank := by
  have hself : trimChars (word ++ ':' :: arguments.rdropWhile isBlank) = word ++ ':' :: arguments.rdropWhile isBlank := by
    refine trimChars_eq_self (fun c hc => ?_) fun c hc => ?_
    · rw [List.head?_append_of_ne_nil _ hne] at hc
      exact hplain c (List.mem_of_head? hc)
    · rw [List.getLast?_append_cons] at hc
      by_cases hkept : arguments.rdropWhile isBlank = []
      · rw [hkept] at hc
        obtain rfl := Option.some_inj.mp hc
        rfl
      · rw [List.getLast?_cons, List.getLast?_eq_some_getLast hkept] at hc
        obtain rfl := Option.some_inj.mp hc
        simpa using List.rdropWhile_last_not isBlank arguments hkept
  conv_lhs => rw [← List.rdropWhile_append_rtakeWhile (p := isBlank) (l := arguments), ← List.cons_append, ← List.append_assoc]
  rw [trimChars_append_blanks fun c => List.mem_rtakeWhile_imp, hself]

theorem argumentAt_append_blanks {blanks : List Char} (hblanks : ∀ c ∈ blanks, isBlank c = true) (kept : List Char) :
    argumentAt (kept ++ blanks) = argumentAt kept := by
  have hread := map_eq_of_forall₂ (f := Argument.ofChars) (g := Argument.ofChars) (fun {p p'} hp => by
    rcases hp with rfl | rfl
    · rfl
    · exact ofChars_append_blanks hblanks) (partsFrom_append_blanks hblanks none kept)
  funext i
  unfold argumentAt parts
  rw [← List.getElem?_map, ← List.getElem?_map, hread]

/-- Where nothing but blanks is written, no argument is given. -/
theorem argumentAt_of_trimChars_eq_nil {arguments : List Char} (h : trimChars arguments = []) (i : Nat) :
    argumentAt arguments i = none := by
  obtain ⟨lead, trail, heq, hlead, htrail⟩ := exists_append_trimChars arguments
  have hblank : ∀ c ∈ arguments, isBlank c = true := fun c hc => by
    rw [heq, h, List.nil_append] at hc
    exact (List.mem_append.mp hc).elim (hlead c) (htrail c)
  obtain ⟨_, hreads⟩ := exists_reads_of_blank hblank none
  have hnull : Argument.ofChars arguments = Argument.null := by
    unfold Argument.ofChars
    rw [h]
    rfl
  unfold argumentAt parts
  rw [parts_eq_single hreads]
  cases i with
  | zero => exact congrArg Argument.value? hnull
  | succ i => rfl

/-- What a method reads from a word with arguments. Blanks at the end make no difference. -/
theorem ofChars_of_word {word : List Char} (hplain : ∀ c ∈ word, isQuote c = false ∧ c ≠ ':' ∧ isBlank c = false)
    (hne : word ≠ []) (arguments : List Char) : (Method.ofChars (word ++ ':' :: arguments)).name = String.ofList word ∧
      ∀ i, (Method.ofChars (word ++ ':' :: arguments)).value? i = argumentAt arguments i := by
  have hblanks : ∀ c ∈ arguments.rtakeWhile isBlank, isBlank c = true := fun c => List.mem_rtakeWhile_imp
  have hcut : cut ':' (word ++ ':' :: arguments.rdropWhile isBlank) = some (word, arguments.rdropWhile isBlank) :=
    cut_of_reads (reads_of_plain fun c hc => ⟨(hplain c hc).1, decide_eq_false (hplain c hc).2.1⟩) rfl
  have hword : trimChars word = word := trimChars_of_not_blank fun c hc => (hplain c hc).2.2
  have harguments : argumentAt arguments = argumentAt (arguments.rdropWhile isBlank) := by
    conv_lhs => rw [← List.rdropWhile_append_rtakeWhile (p := isBlank) (l := arguments), argumentAt_append_blanks hblanks]
  unfold Method.ofChars
  dsimp only
  rw [trimChars_of_word (fun c hc => (hplain c hc).2.2) hne, hcut]
  dsimp only
  rw [hword, harguments]
  split
  · rename_i hempty
    exact ⟨rfl, fun i => (argumentAt_of_trimChars_eq_nil (List.isEmpty_iff.mp hempty) i).symm⟩
  · refine ⟨rfl, fun i => ?_⟩
    unfold Method.value? argumentAt
    rw [List.getElem?_map]

/-- A method that goes by a word starts with it. -/
theorem exists_arguments {token word : List Char} {quote : Option Char} (hreads : Reads isBlank none token quote)
    (hplain : ∀ c ∈ word, isQuote c = false ∧ c ≠ ':' ∧ isBlank c = false)
    (hname : (Method.ofChars token).name = String.ofList word) :
    token = word ∨ ∃ arguments, token = word ++ ':' :: arguments := by
  have hquote : ∀ c ∈ word, isQuote c = false := fun c hc => (hplain c hc).1
  obtain ⟨lead, trail, htoken, hlead, _⟩ := exists_append_trimChars token
  unfold Method.ofChars at hname
  dsimp only at hname
  split at hname
  · rename_i hcut
    have htrim : trimChars token = word := String.ofList_injective hname
    exact .inl ((hreads.trimChars_eq (htrim ▸ hquote)).symm.trans htrim)
  · rename_i name arguments hcut
    have happend := cutFrom_append hcut
    have htrim : trimChars name = word := by
      split at hname <;> exact String.ofList_injective hname
    have hsplit : token = (lead ++ name) ++ ':' :: (arguments ++ trail) := by
      rw [htoken, ← happend]
      simp
    obtain ⟨_, hreads, _⟩ := Reads.of_append (hsplit ▸ hreads)
    have htrim : trimChars (lead ++ name) = word := (trimChars_blanks_append hlead).trans htrim
    exact .inr ⟨arguments ++ trail, hsplit.trans (by rw [← hreads.trimChars_eq (htrim ▸ hquote), htrim])⟩

/-! ## Written arguments -/

variable {keys : List String}

theorem segments_writeArguments (hne : keys ≠ []) (hkeys : ∀ key ∈ keys, IsPlainKey key) {arguments : List Char}
    {quote : Option Char} (h : Reads isBlank none arguments quote) : ∃ quote', (quote' = none ∨ quote' = quote) ∧
      Segments (fun c => c = ',' || isBlank c) none
        (keys.map keyText ++ (parts (· = ',') arguments).drop keys.length) quote' := by
  have hheads : ∀ p ∈ keys.map keyText, Reads (fun c => decide (c = ',') || isBlank c) none p none := by
    intro p hp
    obtain ⟨key, hkey, rfl⟩ := List.mem_map.mp hp
    exact reads_keyText (hkeys key hkey)
  have hparts : Segments (fun c => c = ',' || isBlank c) none (parts (· = ',') arguments) quote := segments_partsFrom h
  have hreplace := Segments.replace (by simpa using hne) hheads (.inr hparts)
  rwa [List.length_map] at hreplace

theorem argumentAt_writeArguments (hne : keys ≠ []) (hkeys : ∀ key ∈ keys, IsPlainKey key) {arguments : List Char}
    {quote : Option Char} (h : Reads isBlank none arguments quote) (i : Nat) :
    argumentAt (writeArguments keys arguments) i = keys[i]?.or (argumentAt arguments i) := by
  obtain ⟨quote', _, hsegments⟩ := segments_writeArguments hne hkeys h
  have hparts : parts (· = ',') (writeArguments keys arguments) =
      keys.map keyText ++ (parts (· = ',') arguments).drop keys.length :=
    (hsegments.mono fun c hc => by simp [of_decide_eq_true hc]).parts_intercalate rfl
  unfold argumentAt
  rw [hparts]
  by_cases hi : i < keys.length
  · rw [List.getElem?_append_left (by simpa using hi), List.getElem?_map, List.getElem?_eq_getElem hi]
    exact value?_keyText (hkeys _ (List.getElem_mem hi))
  · rw [List.getElem?_append_right (by simpa using hi), List.length_map, List.getElem?_drop,
      List.getElem?_eq_none (Nat.le_of_not_lt hi)]
    rw [Nat.add_sub_cancel' (Nat.le_of_not_lt hi)]
    rfl

theorem plain_keyword (kind : RelationKind) : kind.keyword.toList ≠ [] ∧
    ∀ c ∈ kind.keyword.toList, isQuote c = false ∧ c ≠ ':' ∧ isBlank c = false := by
  have hall : (kind.keyword.toList.all fun c => !isQuote c && c != ':' && !isBlank c) = true := by cases kind <;> decide
  refine ⟨by cases kind <;> decide, fun c hc => ?_⟩
  simpa [and_assoc] using List.all_eq_true.mp hall c hc

/-- The leading method of a relation line, once its first arguments are written out. -/
theorem writeMethod_spec (hne : keys ≠ []) (hkeys : ∀ key ∈ keys, IsPlainKey key) {kind : RelationKind} {token : List Char}
    {quote : Option Char} (hreads : Reads isBlank none token quote) (hname : (Method.ofChars token).name = kind.keyword) :
    (∃ quote', (quote' = none ∨ quote' = quote) ∧ Reads isBlank none (writeMethod keys token) quote') ∧
      (Method.ofChars (writeMethod keys token)).name = kind.keyword ∧ writeMethod keys token ≠ [] ∧
      ∀ i, (Method.ofChars (writeMethod keys token)).value? i = keys[i]?.or ((Method.ofChars token).value? i) := by
  obtain ⟨hword, hplain⟩ := plain_keyword kind
  have hcolon : Reads (· = ':') none kind.keyword.toList none :=
    reads_of_plain fun c hc => ⟨(hplain c hc).1, decide_eq_false (hplain c hc).2.1⟩
  have hstart : Reads isBlank none (kind.keyword.toList ++ [':']) none :=
    (reads_of_plain fun c hc => ⟨(hplain c hc).1, (hplain c hc).2.2⟩).append (.cons rfl .nil)
  have hwrite : ∃ arguments quote', (quote' = none ∨ quote' = quote) ∧ Reads isBlank none arguments quote' ∧
      writeMethod keys token = kind.keyword.toList ++ ':' :: writeArguments keys arguments ∧
      ∀ i, (Method.ofChars token).value? i = argumentAt arguments i := by
    rcases exists_arguments hreads hplain (hname.trans String.ofList_toList.symm) with htoken | ⟨arguments, rfl⟩
    · have hcut : cut ':' token = none := htoken ▸ cutFrom_eq_none hcolon
      have htrim : trimChars token = token := htoken ▸ trimChars_of_not_blank fun c hc => (hplain c hc).2.2
      refine ⟨[], none, .inl rfl, .nil, ?_, fun i => ?_⟩
      · unfold writeMethod
        rw [hcut, htoken]
      · unfold Method.ofChars
        dsimp only
        rw [htrim, hcut]
        cases i <;> rfl
    · refine ⟨arguments, quote, .inr rfl, ?_, ?_, (ofChars_of_word hplain hword arguments).2⟩
      · rw [List.append_cons] at hreads
        obtain ⟨quote', hfirst, hrest⟩ := hreads.of_append
        exact hstart.unique hfirst ▸ hrest
      · unfold writeMethod cut
        rw [cut_of_reads hcolon rfl]
  obtain ⟨arguments, quote', hquote', harguments, hwrite, hvalue⟩ := hwrite
  obtain ⟨hname', hvalue'⟩ := ofChars_of_word hplain hword (writeArguments keys arguments)
  obtain ⟨quote'', hquote'', hsegments⟩ := segments_writeArguments hne hkeys harguments
  have hwritten : Reads isBlank none (writeArguments keys arguments) quote'' :=
    (hsegments.mono fun c hc => by simp [hc]).reads_intercalate rfl rfl
  rw [hwrite]
  refine ⟨⟨quote'', ?_, ?_⟩, hname'.trans String.ofList_toList, by simp, fun i => ?_⟩
  · rcases hquote'' with h | h
    · exact .inl h
    · exact h ▸ hquote'
  · rw [List.append_cons]
    exact hstart.append hwritten
  · rw [hvalue', hvalue, argumentAt_writeArguments hne hkeys harguments]

/-- A relation line whose first arguments are written out starts with the same method, which has these arguments, and is as it was
otherwise. -/
theorem parse_writeOut (hne : keys ≠ []) (hkeys : ∀ key ∈ keys, IsPlainKey key) {line : String} {kind : RelationKind}
    (h : DeclaredRelation.kindOf? (.parse line) = some kind) : ∃ first first' rest,
      (Call.parse line).methods = first :: rest ∧ (Call.parse (writeOut keys line)).methods = first' :: rest ∧
      first.name = kind.keyword ∧ first'.name = kind.keyword ∧ ∀ i, first'.value? i = keys[i]?.or (first.value? i) := by
  obtain ⟨quote, hreads, happend, hrest⟩ := spanFrom_spec isBlank none (line.toList.dropWhile isBlank)
  have hwrite : writeOut keys line = String.ofList (line.toList.takeWhile isBlank ++
      (writeMethod keys (spanFrom isBlank none (line.toList.dropWhile isBlank)).1 ++
        (spanFrom isBlank none (line.toList.dropWhile isBlank)).2)) := by
    simp [writeOut]
  generalize (spanFrom isBlank none (line.toList.dropWhile isBlank)).1 = token at *
  generalize (spanFrom isBlank none (line.toList.dropWhile isBlank)).2 = rest at *
  obtain ⟨others, hparts⟩ := exists_parts_append hrest
  have hblanks : ∀ c ∈ line.toList.takeWhile isBlank, isBlank c = true := fun c => List.mem_takeWhile_imp
  have hline : (Call.parse line).methods = ((token :: others).filter (!·.isEmpty)).map Method.ofChars := by
    unfold Call.parse
    rw [← hparts token quote hreads (.inr rfl), ← filter_parts_blanks hblanks (token ++ rest), happend,
      List.takeWhile_append_dropWhile]
  have htoken : token ≠ [] := by
    rintro rfl
    rcases hrest with rfl | ⟨_, c, tail, rfl, hc⟩
    · have hothers : [[]] = [] :: others := hparts [] none .nil (.inl rfl)
      obtain rfl := (List.cons.inj hothers).2
      rw [DeclaredRelation.kindOf?, Call.name?, Call.first?, hline] at h
      cases h
    · have hhead := List.head?_dropWhile_not isBlank line.toList
      rw [← happend] at hhead
      simp [(cutsAt_iff.mp hc).2.2] at hhead
  have hfirst : (Method.ofChars token).name = kind.keyword := by
    rw [DeclaredRelation.kindOf?, Call.name?, Call.first?, hline, List.filter_cons_of_pos (by simpa using htoken)] at h
    exact (RelationKind.keyword_of_ofKeyword? h).symm
  obtain ⟨⟨quote', hquote', hreads'⟩, hname, htoken', hvalue⟩ := writeMethod_spec hne hkeys hreads hfirst
  refine ⟨Method.ofChars token, Method.ofChars (writeMethod keys token), (others.filter (!·.isEmpty)).map Method.ofChars,
    ?_, ?_, hfirst, hname, hvalue⟩
  · rw [hline, List.filter_cons_of_pos (by simpa using htoken), List.map_cons]
  · unfold Call.parse
    rw [hwrite, String.toList_ofList, filter_parts_blanks hblanks, hparts _ quote' hreads' hquote',
      List.filter_cons_of_pos (by simpa using htoken'), List.map_cons]

end Schemata.Shorthand
