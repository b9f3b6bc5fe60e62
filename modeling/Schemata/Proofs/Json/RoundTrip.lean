import Mathlib.Tactic.SplitIfs
import Schemata.Json.Printer
import Schemata.Json.Reader

/-!
# JSON text that reads back

The compact text of a value without doubles, whose whole numbers fit into 64 bits, reads back as the value. What follows a
number must not go on with it.
-/

namespace Schemata.Json

open Schemata.Decimal

/-! ## Strings -/

theorem hexValue?_hexDigit {n : Nat} (h : n < 16) : hexValue? (hexDigit n) = some n := by
  have hall : ∀ n < 16, hexValue? (hexDigit n) = some n := by decide
  exact hall n h

theorem hex4?_control {n : Nat} (h : n < 0x20) : hex4? '0' '0' (hexDigit (n / 16)) (hexDigit (n % 16)) = some n := by
  have hzero : hexValue? '0' = some 0 := rfl
  simp only [hex4?, hzero, hexValue?_hexDigit (show n / 16 < 16 by omega), hexValue?_hexDigit (show n % 16 < 16 by omega),
    Option.bind_eq_bind, Option.bind_some, Option.pure_def, Option.some_inj]
  omega

/-- A character is written with a letter or a number behind a backslash, or as it is. -/
theorem escape_cases (c : Char) : (∃ e, simpleEscape? e = some c ∧ escape c = ['\\', e]) ∨
    (c.toNat < 0x20 ∧ escape c = ['\\', 'u', '0', '0', hexDigit (c.toNat / 16), hexDigit (c.toNat % 16)]) ∨
      (c ≠ '"' ∧ c ≠ '\\' ∧ 0x20 ≤ c.toNat ∧ escape c = [c]) := by
  unfold escape
  split_ifs with hquote hbackslash hline hreturn htab hback hfeed hcontrol
  · exact .inl ⟨'"', by rw [hquote]; rfl, rfl⟩
  · exact .inl ⟨'\\', by rw [hbackslash]; rfl, rfl⟩
  · exact .inl ⟨'n', hline ▸ rfl, rfl⟩
  · exact .inl ⟨'r', hreturn ▸ rfl, rfl⟩
  · exact .inl ⟨'t', htab ▸ rfl, rfl⟩
  · exact .inl ⟨'b', hback ▸ rfl, rfl⟩
  · exact .inl ⟨'f', hfeed ▸ rfl, rfl⟩
  · exact .inr (.inl ⟨hcontrol, rfl⟩)
  · exact .inr (.inr ⟨hquote, hbackslash, Nat.le_of_not_lt hcontrol, rfl⟩)

theorem readString_simple {e c : Char} (h : simpleEscape? e = some c) (rest : List Char) :
    readString ('\\' :: e :: rest) = (readString rest).map fun (s, rest) => (c :: s, rest) := by
  have hu : e ≠ 'u' := by rintro rfl; cases h
  rw [readString.eq_4 e rest fun _ _ _ _ _ he => absurd he hu, h]
  cases readString rest <;> rfl

theorem readString_control {c : Char} (h : c.toNat < 0x20) (rest : List Char) :
    readString ('\\' :: 'u' :: '0' :: '0' :: hexDigit (c.toNat / 16) :: hexDigit (c.toNat % 16) :: rest) =
      (readString rest).map fun (s, rest) => (c :: s, rest) := by
  have hhigh : ¬(0xD800 ≤ c.toNat ∧ c.toNat < 0xDC00) := by omega
  have hlow : ¬(0xDC00 ≤ c.toNat ∧ c.toNat < 0xE000) := by omega
  simp only [readString, hex4?_control h, Option.bind_eq_bind, Option.bind_some, hhigh, hlow, if_false, Char.ofNat_toNat]
  cases readString rest <;> rfl

/-- Every character is read back from the way it is written in a string. -/
theorem readString_escape (c : Char) (rest : List Char) :
    readString (escape c ++ rest) = (readString rest).map fun (s, rest) => (c :: s, rest) := by
  rcases escape_cases c with ⟨e, he, h⟩ | ⟨hcontrol, h⟩ | ⟨hquote, hbackslash, hprinted, h⟩
  · rw [h]
    exact readString_simple he rest
  · rw [h]
    exact readString_control hcontrol rest
  · have hplain : ¬(c = '\\' ∨ c.toNat < 0x20) := fun hc => hc.elim hbackslash (Nat.not_lt_of_le hprinted)
    rw [h, List.singleton_append, readString.eq_5 c rest hquote (fun _ _ _ _ _ hc => absurd hc hbackslash)
      (fun _ _ hc => absurd hc hbackslash), if_neg hplain]

/-- A string is read up to the quote that closes it. -/
theorem readString_quoted (cs rest : List Char) : readString (cs.flatMap escape ++ '"' :: rest) = some (cs, rest) := by
  induction cs with
  | nil => simp [readString]
  | cons c cs ih => rw [List.flatMap_cons, List.append_assoc, readString_escape, ih]; rfl

/-! ## Numbers -/

theorem natOfDigits_toDigits (n : Nat) : natOfDigits (Nat.toDigits 10 n) = n := by
  have hstep (cs : List Char) (m : Nat) : cs.foldl (fun n c => n * 10 + digitValue c) m = Nat.ofDigitChars 10 cs m := by
    simp only [Nat.ofDigitChars, digitValue, Nat.mul_comm]
    rfl
  exact (hstep _ 0).trans (Nat.ofDigitChars_toDigits (by decide) (by decide))

/-- A number above zero is written without a leading zero. -/
theorem head?_toDigits_ne_zero {n : Nat} (h : 0 < n) : (Nat.toDigits 10 n).head? ≠ some '0' := by
  induction n using Nat.strongRecOn with
  | ind n ih =>
    by_cases hn : n < 10
    · have hall : ∀ n < 10, 0 < n → (Nat.toDigits 10 n).head? ≠ some '0' := by decide
      exact hall n hn h
    · have hsplit := Nat.toDigits_append_toDigits (b := 10) (n := n / 10) (d := n % 10) (by decide) (by omega) (by omega)
      obtain ⟨c, cs, hc⟩ := List.exists_cons_of_ne_nil (Nat.toDigits_ne_nil (n := n / 10) (b := 10))
      have hhead := ih (n / 10) (by omega) (by omega)
      rw [Nat.div_add_mod, hc] at hsplit
      rw [hc] at hhead
      rw [← hsplit]
      exact hhead

/-- The whole numbers that are kept exactly: those of 64 bits, with or without a sign. -/
def Fits (n : Int) : Prop :=
  -0x8000000000000000 ≤ n ∧ n ≤ 0xFFFFFFFFFFFFFFFF

instance (n : Int) : Decidable (Fits n) :=
  inferInstanceAs (Decidable (_ ∧ _))

/-- What may stand behind a value: nothing, or what goes on or ends a list or an object. -/
def Closes (rest : List Char) : Prop :=
  ∀ c ∈ rest.head?, c = ',' ∨ c = ']' ∨ c = '}'

theorem numberOf_toDigits {n : Nat} (negative : Bool)
    (h : if negative = true then 0 < n ∧ n ≤ 0x8000000000000000 else n ≤ 0xFFFFFFFFFFFFFFFF) :
    numberOf negative (Nat.toDigits 10 n) = some (int (if negative = true then -(n : Int) else n)) := by
  unfold numberOf
  rw [natOfDigits_toDigits]
  cases negative with
  | true => exact if_pos h
  | false => exact if_pos h

variable {rest : List Char}

theorem readFraction_closed {whole : List Char} {negative : Bool} {j : Json} (hr : Closes rest)
    (hj : numberOf negative whole = some j) : readFraction negative whole rest = some (j, rest) := by
  cases rest with
  | nil => simp [readFraction, readFraction.finish, hj]
  | cons c tail => rcases hr c rfl with rfl | rfl | rfl <;> simp [readFraction, readFraction.finish, hj]

/-- Digits are read up to what closes the value. -/
theorem span_digits {n : Nat} (hr : Closes rest) :
    (Nat.toDigits 10 n ++ rest).takeWhile Char.isDigit = Nat.toDigits 10 n ∧
      (Nat.toDigits 10 n ++ rest).dropWhile Char.isDigit = rest := by
  have hdigits : ∀ c ∈ Nat.toDigits 10 n, c.isDigit = true := fun c hc => Nat.isDigit_of_mem_toDigits (by decide) (by decide) hc
  have hstop : rest.takeWhile Char.isDigit = [] ∧ rest.dropWhile Char.isDigit = rest := by
    cases rest with
    | nil => exact ⟨rfl, rfl⟩
    | cons c tail => rcases hr c rfl with rfl | rfl | rfl <;> exact ⟨rfl, rfl⟩
  rw [List.takeWhile_append_of_pos hdigits, List.dropWhile_append_of_pos hdigits, hstop.1, hstop.2, List.append_nil]
  exact ⟨rfl, rfl⟩

theorem whole_toDigits (n : Nat) :
    ((Nat.toDigits 10 n).isEmpty || ((Nat.toDigits 10 n).head? == some '0' && 1 < (Nat.toDigits 10 n).length)) = false := by
  cases n with
  | zero => rfl
  | succ n =>
    have hhead := head?_toDigits_ne_zero (Nat.succ_pos n)
    simp [hhead, Nat.toDigits_ne_nil]

/-- A number is read by its sign and its digits. -/
theorem readNumber_toDigits (n : Nat) (hr : Closes rest) :
    readNumber (Nat.toDigits 10 n ++ rest) = readFraction false (Nat.toDigits 10 n) rest ∧
      readNumber ('-' :: (Nat.toDigits 10 n ++ rest)) = readFraction true (Nat.toDigits 10 n) rest := by
  have hminus : ∀ tail, Nat.toDigits 10 n ++ rest ≠ '-' :: tail := by
    intro tail htail
    obtain ⟨c, cs, hc⟩ := List.exists_cons_of_ne_nil (Nat.toDigits_ne_nil (n := n) (b := 10))
    have hdigit : c.isDigit = true := Nat.isDigit_of_mem_toDigits (by decide) (by decide) (hc ▸ List.mem_cons_self)
    rw [hc] at htail
    exact absurd ((List.cons.inj htail).1 ▸ hdigit) (by decide)
  obtain ⟨htake, hdrop⟩ := span_digits (n := n) hr
  constructor
  · unfold readNumber
    split
    rename_i hsign
    split at hsign
    · exact absurd ‹_› (hminus _)
    · obtain ⟨rfl, rfl⟩ := Prod.mk.inj hsign
      simp only [htake, hdrop, whole_toDigits, Bool.false_eq_true, if_false]
  · simp only [readNumber, htake, hdrop, whole_toDigits, Bool.false_eq_true, if_false]

/-- A whole number of 64 bits is read back. -/
theorem readNumber_decimal {n : Int} (h : Fits n) (hr : Closes rest) : readNumber (decimal n ++ rest) = some (int n, rest) := by
  obtain ⟨hlow, hhigh⟩ := h
  unfold decimal
  split
  · rename_i hsign
    have hn : numberOf false (Nat.toDigits 10 n.toNat) = some (int n) := by
      rw [numberOf_toDigits false (by simp; omega), if_neg Bool.false_ne_true, Int.toNat_of_nonneg hsign]
    rw [(readNumber_toDigits _ hr).1, readFraction_closed hr hn]
  · rename_i hsign
    have hn : numberOf true (Nat.toDigits 10 (-n).toNat) = some (int n) := by
      rw [numberOf_toDigits true (by simp; omega), if_pos rfl, Int.toNat_of_nonneg (by omega), Int.neg_neg]
    rw [List.cons_append, (readNumber_toDigits _ hr).2, readFraction_closed hr hn]

/-! ## Values -/

mutual

/-- A value without doubles, whose whole numbers all fit. -/
def IsExact : Json → Prop
  | int n => Fits n
  | float _ => False
  | arr items => AreExact items
  | obj fields => HaveExact fields
  | _ => True

def AreExact : List Json → Prop
  | [] => True
  | x :: rest => IsExact x ∧ AreExact rest

def HaveExact : List (String × Json) → Prop
  | [] => True
  | (_, v) :: rest => IsExact v ∧ HaveExact rest

end

theorem haveExact_iff {fields : List (String × Json)} : HaveExact fields ↔ ∀ x ∈ fields, IsExact x.2 := by
  induction fields with
  | nil => simp [HaveExact]
  | cons x fields ih =>
    obtain ⟨k, v⟩ := x
    rw [HaveExact, ih, List.forall_mem_cons]

theorem closes_nil : Closes [] := nofun

theorem closes_cons {c : Char} (h : c = ',' ∨ c = ']' ∨ c = '}') : Closes (c :: rest) := by
  rintro _ ⟨⟩
  exact h

theorem skipSpace_cons {c : Char} (h : isSpace c = false) (cs : List Char) : skipSpace (c :: cs) = c :: cs :=
  List.dropWhile_cons_of_neg (by simp [h])

/-- The characters that a whole number starts with. -/
def StartsNumber (c : Char) : Prop :=
  c = '-' ∨ c.isDigit = true

theorem exists_decimal_cons (n : Int) : ∃ c cs, decimal n = c :: cs ∧ StartsNumber c := by
  unfold decimal
  split
  · obtain ⟨c, cs, hc⟩ := List.exists_cons_of_ne_nil (Nat.toDigits_ne_nil (n := n.toNat) (b := 10))
    exact ⟨c, cs, hc, .inr (Nat.isDigit_of_mem_toDigits (by decide) (by decide) (hc ▸ List.mem_cons_self))⟩
  · exact ⟨_, _, rfl, .inl rfl⟩

theorem StartsNumber.ne {c d : Char} (h : StartsNumber c) (hd : ¬(d = '-' ∨ d.isDigit = true)) : c ≠ d := by
  rintro rfl
  exact hd h

theorem StartsNumber.isSpace {c : Char} (h : StartsNumber c) : isSpace c = false := by
  simp [Json.isSpace, h.ne (d := ' ') (by decide), h.ne (d := '\n') (by decide), h.ne (d := '\t') (by decide),
    h.ne (d := '\r') (by decide)]

/-- A number does not start like any other value. -/
theorem StartsNumber.readValue {c : Char} (h : StartsNumber c) (cs : List Char) (fuel : Nat) :
    readValue (fuel + 1) (c :: cs) = readNumber (c :: cs) := by
  rw [Json.readValue, skipSpace_cons h.isSpace]
  split
  all_goals first
    | rfl
    | rename_i heq
      exact absurd (List.cons.inj heq).1 (h.ne (by decide))

/-- No value starts with white space, or with what closes a list. -/
theorem exists_compact_cons {j : Json} (hj : IsExact j) : ∃ c cs, compact j = c :: cs ∧ isSpace c = false ∧ c ≠ ']' := by
  cases j with
  | null => exact ⟨_, _, rfl, rfl, by decide⟩
  | bool b => cases b <;> exact ⟨_, _, rfl, rfl, by decide⟩
  | int n =>
    obtain ⟨c, cs, h, hc⟩ := exists_decimal_cons n
    exact ⟨c, cs, h, hc.isSpace, hc.ne (by decide)⟩
  | float x => exact hj.elim
  | str s => exact ⟨_, _, rfl, rfl, by decide⟩
  | arr items => exact ⟨_, _, rfl, rfl, by decide⟩
  | obj fields => exact ⟨_, _, rfl, rfl, by decide⟩

theorem compactItems_cons (x y : Json) (items : List Json) :
    compactItems (x :: y :: items) = compact x ++ ',' :: compactItems (y :: items) := by
  rw [compactItems]
  nofun

theorem compactFields_cons (k : String) (v : Json) (field : String × Json) (fields : List (String × Json)) :
    compactFields ((k, v) :: field :: fields) = quoted k ++ ':' :: compact v ++ ',' :: compactFields (field :: fields) := by
  rw [compactFields]
  nofun

theorem exists_compactFields_cons (k : String) (v : Json) (fields : List (String × Json)) :
    ∃ cs, compactFields ((k, v) :: fields) = '"' :: cs := by
  cases fields with
  | nil => exact ⟨_, by rw [compactFields]; rfl⟩
  | cons field fields => exact ⟨_, by rw [compactFields_cons]; rfl⟩

/-- A list starts with its first item. -/
theorem exists_compactItems_cons {x : Json} (hx : IsExact x) (items : List Json) :
    ∃ c cs, compactItems (x :: items) = c :: cs ∧ isSpace c = false ∧ c ≠ ']' := by
  obtain ⟨c, cs, hc, h⟩ := exists_compact_cons hx
  cases items with
  | nil => exact ⟨c, cs, by rw [compactItems, hc], h⟩
  | cons y items => exact ⟨c, _, by rw [compactItems_cons, hc, List.cons_append], h⟩

mutual

/-- A value is read back from its compact text by a reader that may go on long enough. -/
theorem readValue_compact : ∀ (j : Json) (fuel : Nat) (rest : List Char), IsExact j → Closes rest →
    (compact j).length ≤ fuel → readValue fuel (compact j ++ rest) = some (j, rest)
  | null, fuel + 1, rest, _, _, _ => by simp [compact, readValue, skipSpace, isSpace]
  | bool b, fuel + 1, rest, _, _, _ => by cases b <;> simp [compact, readValue, skipSpace, isSpace]
  | int n, fuel + 1, rest, hj, hr, _ => by
    obtain ⟨c, cs, h, hc⟩ := exists_decimal_cons n
    have hn := readNumber_decimal hj hr
    rw [compact]
    rw [h] at hn ⊢
    exact (hc.readValue _ fuel).trans hn
  | str s, fuel + 1, rest, _, _, _ => by
    simp only [compact, quoted, List.cons_append, List.append_assoc, List.nil_append, readValue, skipSpace_cons (c := '"') rfl,
      readString_quoted, Option.map_some, String.ofList_toList]
  | arr [], fuel + 1, rest, _, _, _ => by simp [compact, compactItems, readValue, skipSpace, isSpace]
  | arr (x :: items), fuel + 1, rest, hj, hr, h => by
    obtain ⟨c, cs, hc, hspace, hclose⟩ := exists_compactItems_cons hj.1 items
    have hitems := readItems_compact x items fuel rest hj.1 hj.2 (by
      simp only [compact, List.length_cons, List.length_append, List.length_nil] at h; omega)
    simp only [compact, List.cons_append, List.append_assoc, List.nil_append, readValue, skipSpace_cons (c := '[') rfl]
    rw [hc] at hitems ⊢
    simp only [List.cons_append, skipSpace_cons hspace] at hitems ⊢
    split
    · exact absurd (List.cons.inj ‹_›).1 hclose
    · rw [hitems, Option.map_some]
  | obj [], fuel + 1, rest, _, _, _ => by simp [compact, compactFields, readValue, skipSpace, isSpace]
  | obj ((k, v) :: fields), fuel + 1, rest, hj, hr, h => by
    have hfields := readFields_compact k v fields fuel rest hj.1 hj.2 (by
      simp only [compact, List.length_cons, List.length_append, List.length_nil] at h; omega)
    obtain ⟨cs, hc⟩ := exists_compactFields_cons k v fields
    simp only [compact, List.cons_append, List.append_assoc, List.nil_append, readValue, skipSpace_cons (c := '{') rfl]
    rw [hc] at hfields ⊢
    simp only [List.cons_append, skipSpace_cons (c := '"') rfl] at hfields ⊢
    split
    · exact absurd (List.cons.inj ‹_›).1 (by decide)
    · rw [hfields, Option.map_some]
  | null, 0, _, _, _, h => by cases h
  | bool b, 0, _, _, _, h => by cases b <;> cases h
  | int n, 0, _, _, _, h => by
    obtain ⟨c, cs, hc, _⟩ := exists_decimal_cons n
    simp [compact, hc] at h
  | str s, 0, _, _, _, h => by simp [compact, quoted] at h
  | arr items, 0, _, _, _, h => by simp [compact] at h
  | obj fields, 0, _, _, _, h => by simp [compact] at h

theorem readItems_compact : ∀ (x : Json) (items : List Json) (fuel : Nat) (rest : List Char), IsExact x → AreExact items →
    (compactItems (x :: items)).length < fuel →
      readItems fuel (compactItems (x :: items) ++ ']' :: rest) = some (x :: items, rest)
  | x, [], fuel + 1, rest, hx, _, h => by
    have hlength : (compact x).length ≤ fuel := by rw [compactItems] at h; omega
    simp only [compactItems, readItems, readValue_compact x _ _ hx (closes_cons (.inr (.inl rfl))) hlength, Option.bind_eq_bind,
      Option.bind_some, skipSpace_cons (c := ']') rfl, Option.pure_def]
  | x, y :: items, fuel + 1, rest, hx, hitems, h => by
    simp only [compactItems_cons, List.length_append, List.length_cons] at h
    have hlast := readItems_compact y items fuel rest hitems.1 hitems.2 (by omega)
    simp only [compactItems_cons, List.append_assoc, List.cons_append, readItems,
      readValue_compact x _ _ hx (closes_cons (.inl rfl)) (show (compact x).length ≤ fuel by omega), Option.bind_eq_bind,
      Option.bind_some, skipSpace_cons (c := ',') rfl, hlast, Option.pure_def]

theorem readFields_compact : ∀ (k : String) (v : Json) (fields : List (String × Json)) (fuel : Nat) (rest : List Char),
    IsExact v → HaveExact fields → (compactFields ((k, v) :: fields)).length < fuel →
      readFields fuel (compactFields ((k, v) :: fields) ++ '}' :: rest) = some ((k, v) :: fields, rest)
  | k, v, [], fuel + 1, rest, hv, _, h => by
    have hlength : (compact v).length ≤ fuel := by
      simp only [compactFields, List.length_append, List.length_cons] at h; omega
    simp only [compactFields, quoted, List.append_assoc, List.cons_append, List.nil_append, readFields,
      skipSpace_cons (c := '"') rfl, readString_quoted, skipSpace_cons (c := ':') rfl, skipSpace_cons (c := '}') rfl,
      readValue_compact v _ _ hv (closes_cons (.inr (.inr rfl))) hlength, Option.bind_eq_bind, Option.bind_some, Option.pure_def,
      String.ofList_toList]
  | k, v, (k', v') :: fields, fuel + 1, rest, hv, hfields, h => by
    simp only [compactFields_cons, List.length_append, List.length_cons] at h
    have hlast := readFields_compact k' v' fields fuel rest hfields.1 hfields.2 (by omega)
    simp only [compactFields_cons, quoted, List.append_assoc, List.cons_append, List.nil_append, readFields,
      skipSpace_cons (c := '"') rfl, readString_quoted, skipSpace_cons (c := ':') rfl, skipSpace_cons (c := ',') rfl,
      readValue_compact v _ _ hv (closes_cons (.inl rfl)) (show (compact v).length ≤ fuel by omega), Option.bind_eq_bind,
      Option.bind_some, Option.pure_def, String.ofList_toList, hlast]

end

/-- The compact text of an exact value reads back as the value. -/
theorem parse_render {j : Json} (hj : IsExact j) : parse j.render = some j := by
  unfold parse render
  have hread := readValue_compact j (2 * (compact j).length + 2) [] hj closes_nil (by omega)
  rw [List.append_nil] at hread
  simp only [String.toList_ofList, hread, Option.bind_eq_bind, Option.bind_some]
  rfl

end Schemata.Json
