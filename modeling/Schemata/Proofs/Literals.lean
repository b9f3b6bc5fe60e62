import Schemata.Proofs.Column
import Schemata.Proofs.OrderedMap
import Schemata.Resolved.Call

/-!
# Literals of generated code

A literal is read as the value that it was written for, unless the value has a backslash where it escapes something: before
a quote, before another backslash, or at the end. Where no text of a statement has one, the literals of the statement are its
texts.
-/

namespace Schemata

open Schemata.Shorthand Schemata.Text

namespace Text.SingleQuoted

variable {cs rest value : List Char}

/-! ## One literal -/

/-- Reads a literal after its opening quote, up to the first quote without a backslash: a backslash before a quote or a
backslash stands for that character, any other backslash for itself. Gives the value and what follows the literal. -/
def read : List Char → Option (List Char × List Char)
  | [] => none
  | '\'' :: rest => some ([], rest)
  | '\\' :: '\'' :: rest => (read rest).map fun (value, after) => ('\'' :: value, after)
  | '\\' :: '\\' :: rest => (read rest).map fun (value, after) => ('\\' :: value, after)
  | c :: rest => (read rest).map fun (value, after) => (c :: value, after)

/-- Each backslash stands before a character, and one that a backslash does not escape. -/
def Legible : List Char → Prop
  | [] => True
  | c :: rest => (c = '\\' → ∃ d ∈ rest.head?, d ≠ '\'' ∧ d ≠ '\\') ∧ Legible rest

def Legible.decide : (cs : List Char) → Decidable (Legible cs)
  | [] => .isTrue trivial
  | _ :: rest =>
    have := Legible.decide rest
    have : Decidable (∃ d ∈ rest.head?, d ≠ '\'' ∧ d ≠ '\\') := Option.decidableExistsMem rest.head?
    inferInstanceAs (Decidable (_ ∧ Legible rest))

instance (cs : List Char) : Decidable (Legible cs) :=
  Legible.decide cs

theorem length_escape (cs : List Char) : (escape cs).length = cs.length + cs.count '\'' := by
  induction cs with
  | nil => rfl
  | cons c rest ih =>
    unfold escape
    split
    · rename_i hc
      subst hc
      simp only [List.length_cons, List.count_cons_self, ih]
      omega
    · rename_i hc
      rw [List.length_cons, List.length_cons, List.count_cons_of_ne hc, ih]
      omega

theorem map_cons_eq_some {x : Option (List Char × List Char)} {c : Char} :
    x.map (fun (value, after) => (c :: value, after)) = some (value, rest) ↔ ∃ tail, value = c :: tail ∧ x = some (tail, rest) := by
  rcases x with _ | ⟨tail, after⟩
  · simp
  · simp [eq_comm]

/-- What is read takes up as much as it has characters, and a quote twice as much. -/
theorem length_of_read (h : read cs = some (value, rest)) : value.length + value.count '\'' + rest.length < cs.length := by
  induction cs using read.induct generalizing value with
  | case1 => cases h
  | case2 tail =>
    obtain ⟨rfl, rfl⟩ := Prod.mk.inj (Option.some.inj h)
    simp
  | case3 tail ih =>
    obtain ⟨v, rfl, hv⟩ := map_cons_eq_some.mp h
    have hlength := ih hv
    simp only [List.length_cons, List.count_cons_self]
    omega
  | case4 tail ih =>
    obtain ⟨v, rfl, hv⟩ := map_cons_eq_some.mp h
    have hlength := ih hv
    rw [List.count_cons_of_ne (by decide)]
    simp only [List.length_cons]
    omega
  | case5 c tail hquote h₁ h₂ ih =>
    rw [read.eq_5 c tail hquote h₁ h₂] at h
    obtain ⟨v, rfl, hv⟩ := map_cons_eq_some.mp h
    have hlength := ih hv
    rw [List.count_cons_of_ne hquote]
    simp only [List.length_cons]
    omega

/-- A character is read as itself, unless it is a quote, or a backslash that escapes the next one. -/
theorem read_cons {c : Char} (hc : c ≠ '\'') (h : c = '\\' → cs.head? ≠ some '\'' ∧ cs.head? ≠ some '\\') :
    read (c :: cs) = (read cs).map fun (value, after) => (c :: value, after) := by
  refine read.eq_5 c cs hc ?_ ?_
  · rintro tail hb rfl
    exact (h hb).1 rfl
  · rintro tail hb rfl
    exact (h hb).2 rfl

theorem map_cons_eq_some_cons {x : Option (List Char × List Char)} {c d : Char} :
    x.map (fun (value, after) => (c :: value, after)) = some (d :: value, rest) ↔ c = d ∧ x = some (value, rest) := by
  rw [map_cons_eq_some]
  simp [eq_comm]

/-- The literal of a value is read as that value only where no backslash comes to escape something. -/
theorem read_escape_iff : read (escape cs ++ '\'' :: rest) = some (cs, rest) ↔ Legible cs := by
  induction cs with
  | nil => exact iff_of_true rfl trivial
  | cons c cs ih =>
    by_cases hquote : c = '\''
    · subst hquote
      have hread : read (escape ('\'' :: cs) ++ '\'' :: rest) =
          (read (escape cs ++ '\'' :: rest)).map fun (value, after) => ('\'' :: value, after) := rfl
      rw [hread, map_cons_eq_some_cons, ih]
      simp [Legible]
    have hescape : escape (c :: cs) = c :: escape cs := if_neg hquote
    rw [hescape, List.cons_append]
    by_cases hlegible : c = '\\' → ∃ d ∈ cs.head?, d ≠ '\'' ∧ d ≠ '\\'
    · rw [read_cons hquote, map_cons_eq_some_cons, ih]
      · exact ⟨fun h => ⟨hlegible, h.2⟩, fun h => ⟨rfl, h.2⟩⟩
      · intro hb
        obtain ⟨d, hd, hne⟩ := hlegible hb
        obtain ⟨tail, rfl⟩ := List.head?_eq_some_iff.mp hd
        have htail : escape (d :: tail) = d :: escape tail := if_neg hne.1
        simpa [htail] using hne
    · refine iff_of_false (fun h => ?_) fun h => hlegible h.1
      rw [Classical.not_imp] at hlegible
      obtain ⟨rfl, hnext⟩ := hlegible
      cases cs with
      | nil => exact absurd (map_cons_eq_some_cons.mp h).1 (by decide)
      | cons d tail =>
        by_cases hd : d = '\''
        · subst hd
          obtain ⟨_, hempty⟩ := map_cons_eq_some_cons.mp h
          cases hempty
        · obtain rfl : d = '\\' := by simpa [hd] using hnext
          have htail : read (escape tail ++ '\'' :: rest) = some ('\\' :: tail, rest) := (map_cons_eq_some_cons.mp h).2
          -- The two backslashes are read as one, and what follows is too short to make up for that.
          have hlength := length_of_read htail
          rw [List.length_append, length_escape, List.count_cons_of_ne (by decide)] at hlength
          simp only [List.length_cons] at hlength
          omega

/-! ## All literals of a text -/

/-- The literals of a text, in order. Between them no quote stands. -/
inductive Literals : List Char → List String → Prop
  | nil : Literals [] []
  | code {c : Char} {text : List Char} {values : List String} (unquoted : isQuote c = false) (others : Literals text values) :
    Literals (c :: text) values
  | literal {text value after : List Char} {values : List String} (closed : read text = some (value, after))
    (others : Literals after values) : Literals ('\'' :: text) (String.ofList value :: values)

variable {text : List Char} {values values' : List String}

theorem Literals.unique (h : Literals text values) (h' : Literals text values') : values = values' := by
  induction h generalizing values' with
  | nil =>
    cases h'
    rfl
  | code hc _ ih =>
    cases h' with
    | code _ h' => exact ih h'
    | literal => exact absurd hc (by decide)
  | literal hread _ ih =>
    cases h' with
    | code hc _ => exact absurd hc (by decide)
    | literal hread' h' =>
      obtain ⟨rfl, rfl⟩ := Prod.mk.inj (Option.some.inj (hread.symm.trans hread'))
      rw [ih h']

theorem Literals.code_append (hcode : ∀ c ∈ cs, isQuote c = false) (h : Literals text values) :
    Literals (cs ++ text) values := by
  induction cs with
  | nil => exact h
  | cons c rest ih =>
    obtain ⟨hc, hrest⟩ := List.forall_mem_cons.mp hcode
    exact .code hc (ih hrest)

/-- A text adds values to the literals of whatever follows it. -/
def Quotes (written : String) (values : List String) : Prop :=
  ∀ text others, Literals text others → Literals (written.toList ++ text) (values ++ others)

/-- A text that may stand between literals. -/
def Unquoted (written : String) : Prop :=
  ∀ c ∈ written.toList, isQuote c = false

instance (written : String) : Decidable (Unquoted written) :=
  List.decidableBAll _ written.toList

namespace Quotes

variable {α : Type} {written written' : String}

theorem nil : Quotes "" [] :=
  fun _ _ hothers => hothers

theorem of_unquoted (h : Unquoted written) : Quotes written [] :=
  fun _ _ hothers => hothers.code_append h

theorem of_literal {value : String} (h : Legible value.toList) : Quotes (SingleQuoted.literal value) [value] := by
  intro text others hothers
  have hwritten : (SingleQuoted.literal value).toList ++ text = '\'' :: (escape value.toList ++ '\'' :: text) := by
    simp [SingleQuoted.literal]
  rw [hwritten]
  simpa using Literals.literal (read_escape_iff.mpr h) hothers

theorem append (h : Quotes written values) (h' : Quotes written' values') : Quotes (written ++ written') (values ++ values') := by
  intro text others hothers
  rw [String.toList_append, List.append_assoc, List.append_assoc]
  exact h _ _ (h' _ _ hothers)

variable {xs : List α} {f : α → String} {g : α → List String}

theorem join (h : ∀ x ∈ xs, Quotes (f x) (g x)) : Quotes (String.join (xs.map f)) (xs.flatMap g) := by
  induction xs with
  | nil => exact nil
  | cons x rest ih =>
    obtain ⟨hx, hrest⟩ := List.forall_mem_cons.mp h
    rw [List.map_cons, String.join_cons, List.flatMap_cons]
    exact hx.append (ih hrest)

theorem intercalate {separator : String} (hs : Unquoted separator) (h : ∀ x ∈ xs, Quotes (f x) (g x)) :
    Quotes (separator.intercalate (xs.map f)) (xs.flatMap g) := by
  induction xs with
  | nil => exact nil
  | cons x rest ih =>
    obtain ⟨hx, hrest⟩ := List.forall_mem_cons.mp h
    cases rest with
    | nil => simpa using hx
    | cons y rest =>
      rw [List.map_cons, List.map_cons, String.intercalate_cons_cons, List.flatMap_cons]
      simpa using (hx.append (of_unquoted hs)).append (ih hrest)

/-- The literals of a text that adds values are these. -/
theorem literals_iff (h : Quotes written values) : Literals written.toList values' ↔ values' = values := by
  have hvalues : Literals written.toList values := by simpa using h [] [] .nil
  exact ⟨fun h' => h'.unique hvalues, fun heq => heq ▸ hvalues⟩

theorem forall₂_map (h : ∀ x ∈ xs, Quotes (f x) (g x)) : List.Forall₂ Quotes (xs.map f) (xs.map g) :=
  List.forall₂_map_left_iff.mpr (List.forall₂_map_right_iff.mpr (List.forall₂_same.mpr h))

theorem forall₂_literals_iff {lines : List String} {texts values : List (List String)} (h : List.Forall₂ Quotes lines texts) :
    List.Forall₂ (fun line values => Literals line.toList values) lines values ↔ values = texts := by
  induction h generalizing values with
  | nil => exact List.forall₂_nil_left_iff
  | cons hline _ ih => simp [List.forall₂_cons_left_iff, hline.literals_iff, ih]

end Quotes

end Text.SingleQuoted

open Text.SingleQuoted

/-! ## Calls -/

namespace Shorthand

/-- A text whose literal is read as itself, or another argument that is no part of a literal. -/
def Argument.Legible : Argument → Prop
  | ⟨.string, value⟩ => SingleQuoted.Legible value.toList
  | ⟨.null, _⟩ => True
  | ⟨_, value⟩ => Unquoted value

instance (a : Argument) : Decidable a.Legible :=
  match a with
  | ⟨.string, value⟩ => inferInstanceAs (Decidable (SingleQuoted.Legible value.toList))
  | ⟨.null, _⟩ => .isTrue trivial
  | ⟨.bool, value⟩ | ⟨.numeric, value⟩ | ⟨.classRef, value⟩ | ⟨.path, value⟩ => inferInstanceAs (Decidable (Unquoted value))

/-- The value of a text. Other arguments are written without quotes. -/
def Argument.texts : Argument → List String
  | ⟨.string, value⟩ => [value]
  | _ => []

theorem Argument.Legible.quotes {a : Argument} (h : a.Legible) : Quotes a.render a.texts := by
  obtain ⟨kind, value⟩ := a
  cases kind with
  | string => exact .of_literal h
  | null => exact .of_unquoted (by decide : Unquoted "null")
  | classRef => exact (Quotes.of_unquoted h).append (.of_unquoted (by decide))
  | bool | numeric | path => exact .of_unquoted h

structure Method.Legible (m : Method) : Prop where
  name : Unquoted m.name
  arguments : ∀ a ∈ m.arguments, a.Legible

instance (m : Method) : Decidable m.Legible :=
  decidable_of_iff (Unquoted m.name ∧ ∀ a ∈ m.arguments, a.Legible)
    ⟨fun ⟨name, arguments⟩ => ⟨name, arguments⟩, fun h => ⟨h.name, h.arguments⟩⟩

def Method.texts (m : Method) : List String :=
  m.arguments.flatMap Argument.texts

theorem Method.Legible.quotes {m : Method} (h : m.Legible) : Quotes m.render m.texts := by
  have harguments : Quotes (", ".intercalate (m.arguments.map Argument.render)) m.texts :=
    .intercalate (by decide) fun a ha => (h.arguments a ha).quotes
  have hopened : Quotes (m.name ++ "(") [] := (Quotes.of_unquoted h.name).append (.of_unquoted (by decide))
  simpa [Method.render] using (hopened.append harguments).append (.of_unquoted (by decide : Unquoted ")"))

def Call.Legible (c : Call) : Prop :=
  ∀ m ∈ c.methods, m.Legible

instance (c : Call) : Decidable c.Legible :=
  inferInstanceAs (Decidable (∀ m ∈ c.methods, m.Legible))

def Call.texts (c : Call) : List String :=
  c.methods.flatMap Method.texts

theorem Call.Legible.quotes {c : Call} (h : c.Legible) : Quotes c.render c.texts :=
  .join fun m hm => (Quotes.of_unquoted (by decide)).append (h m hm).quotes

theorem Call.quotes_single {name : String} {arguments : List Argument} (hn : Unquoted name) (ha : ∀ a ∈ arguments, a.Legible) :
    Quotes (Call.single name arguments).render (arguments.flatMap Argument.texts) := by
  have hcall : (Call.single name arguments).Legible := by
    rintro m hm
    obtain rfl := List.mem_singleton.mp hm
    exact ⟨hn, ha⟩
  simpa [Call.texts, Method.texts, Call.single] using hcall.quotes

theorem Call.render_append (c d : Call) : (c ++ d).render = c.render ++ d.render := by
  simp [Call.render, String.join_append]

end Shorthand

/-! ## Columns and tables -/

namespace Column

/-- A column with legible texts: its name if its builder call is given one, the further arguments, those of qualifiers, and the
comment. -/
structure Legible (c : Column) : Prop where
  name : c.isNamed = true → SingleQuoted.Legible c.name.toList
  type : Unquoted c.type
  arguments : ∀ a ∈ c.arguments, a.Legible
  methods : c.methods.Legible
  comment : ∀ text ∈ c.comment, SingleQuoted.Legible text.toList

instance (c : Column) : Decidable c.Legible :=
  decidable_of_iff ((c.isNamed = true → SingleQuoted.Legible c.name.toList) ∧ Unquoted c.type ∧
      (∀ a ∈ c.arguments, a.Legible) ∧ c.methods.Legible ∧ ∀ text ∈ c.comment, SingleQuoted.Legible text.toList)
    ⟨fun ⟨name, type, arguments, methods, comment⟩ => ⟨name, type, arguments, methods, comment⟩,
      fun h => ⟨h.name, h.type, h.arguments, h.methods, h.comment⟩⟩

/-- The texts of the builder call, in order. -/
def texts (c : Column) : List String :=
  (if c.isNamed then [c.name] else []) ++ c.arguments.flatMap Argument.texts ++ c.methods.texts ++ c.comment.toList

theorem quotes_commentCall {comment : Option String} (h : ∀ text ∈ comment, SingleQuoted.Legible text.toList) :
    Quotes (commentCall comment).render comment.toList := by
  cases comment with
  | none => exact .nil
  | some text =>
    refine Call.quotes_single (by decide) fun a ha => ?_
    obtain rfl := List.mem_singleton.mp ha
    exact h text rfl

theorem Legible.quotes {c : Column} (h : c.Legible) : Quotes c.statement c.texts := by
  have htype : Quotes (Call.single c.type ((if c.isNamed then [.string c.name] else []) ++ c.arguments)).render
      ((if c.isNamed then [c.name] else []) ++ c.arguments.flatMap Argument.texts) := by
    cases hn : c.isNamed with
    | false => exact Call.quotes_single h.type h.arguments
    | true => exact Call.quotes_single h.type (List.forall_mem_cons.mpr ⟨h.name hn, h.arguments⟩)
  unfold statement
  dsimp only
  rw [Call.render_append, Call.render_append]
  exact (Quotes.of_unquoted (by decide : Unquoted "$table")).append
    ((htype.append h.methods.quotes).append (quotes_commentCall h.comment))

end Column

theorem quotes_nameArray {names : List String} (h : ∀ name ∈ names, Legible name.toList) : Quotes (nameArray names) names := by
  have hnames : Quotes (", ".intercalate (names.map fun name => (Argument.string name).render))
      (names.flatMap fun name => [name]) :=
    .intercalate (by decide) fun name hname => .of_literal (h name hname)
  unfold nameArray
  simpa using ((Quotes.of_unquoted (by decide : Unquoted "[")).append hnames).append (.of_unquoted (by decide : Unquoted "]"))

/-- An index with legible names. -/
structure Index.Legible (i : Index) : Prop where
  columns : ∀ name ∈ i.columns, SingleQuoted.Legible name.toList
  name : ∀ name ∈ i.name, SingleQuoted.Legible name.toList

instance (i : Index) : Decidable i.Legible :=
  decidable_of_iff ((∀ name ∈ i.columns, SingleQuoted.Legible name.toList) ∧
      ∀ name ∈ i.name, SingleQuoted.Legible name.toList)
    ⟨fun ⟨columns, name⟩ => ⟨columns, name⟩, fun h => ⟨h.columns, h.name⟩⟩

def Index.texts (i : Index) : List String :=
  i.columns ++ i.name.toList

theorem Index.Legible.quotes {i : Index} (h : i.Legible) : Quotes i.statement i.texts := by
  have hname : Quotes (i.name.elim "" fun name => ", " ++ (Argument.string name).render) i.name.toList := by
    cases hn : i.name with
    | none => exact .nil
    | some name => exact Quotes.append (.of_unquoted (by decide)) (.of_literal (h.name name hn))
  have hmethod : Unquoted (if i.unique then "unique" else "index") := by split <;> decide
  have hopened : Quotes ("$table->" ++ (if i.unique then "unique" else "index") ++ "(") [] :=
    ((Quotes.of_unquoted (by decide)).append (.of_unquoted hmethod)).append (.of_unquoted (by decide))
  simpa [Index.statement, Index.texts] using
    ((hopened.append (quotes_nameArray h.columns)).append hname).append (.of_unquoted (by decide : Unquoted ")"))

namespace Migration

structure Legible (m : Migration) : Prop where
  columns : ∀ c ∈ m.columns.values, c.Legible
  primary : ∀ names ∈ m.primary, ∀ name ∈ names, SingleQuoted.Legible name.toList
  indexes : ∀ i ∈ m.indexes, i.Legible
  comment : ∀ text ∈ m.comment, SingleQuoted.Legible text.toList

instance (m : Migration) : Decidable m.Legible :=
  decidable_of_iff ((∀ c ∈ m.columns.values, c.Legible) ∧
      (∀ names ∈ m.primary, ∀ name ∈ names, SingleQuoted.Legible name.toList) ∧
      (∀ i ∈ m.indexes, i.Legible) ∧ ∀ text ∈ m.comment, SingleQuoted.Legible text.toList)
    ⟨fun ⟨columns, primary, indexes, comment⟩ => ⟨columns, primary, indexes, comment⟩,
      fun h => ⟨h.columns, h.primary, h.indexes, h.comment⟩⟩

/-- The texts of each statement. -/
def texts (m : Migration) : List (List String) :=
  m.columns.values.map Column.texts ++ m.primary.toList ++ m.indexes.map Index.texts ++ m.comment.toList.map ([·])

theorem Legible.quotes {m : Migration} (h : m.Legible) : List.Forall₂ Quotes m.statements m.texts := by
  have hcolumns := Quotes.forall₂_map fun c hc => (h.columns c hc).quotes
  have hindexes := Quotes.forall₂_map fun i hi => (h.indexes i hi).quotes
  have hprimary : List.Forall₂ Quotes (m.primary.elim [] fun columns => ["$table->primary(" ++ nameArray columns ++ ")"])
      m.primary.toList := by
    cases hp : m.primary with
    | none => exact .nil
    | some names =>
      have hnames : Quotes ("$table->primary(" ++ nameArray names) names :=
        Quotes.append (.of_unquoted (by decide)) (quotes_nameArray (h.primary names hp))
      exact .cons (by simpa using hnames.append (.of_unquoted (by decide : Unquoted ")"))) .nil
  have hcomment : List.Forall₂ Quotes (m.comment.elim [] fun _ => ["$table" ++ (Column.commentCall m.comment).render])
      (m.comment.toList.map ([·])) := by
    cases hc : m.comment with
    | none => exact .nil
    | some text =>
      have htext := Column.quotes_commentCall h.comment
      rw [hc] at htext
      exact .cons (Quotes.append (.of_unquoted (by decide)) htext) .nil
  exact List.rel_append (List.rel_append (List.rel_append hcolumns hprimary) hindexes) hcomment

end Migration

/-! ## Relations -/

open Resolved

namespace Relation

/-- A relation with legible keys, further pivot columns and qualifiers. -/
structure Legible (r : Relation) : Prop where
  keys : ∀ a ∈ keyArguments r.name r.link, a.Legible
  pivot : ∀ a ∈ r.link.withPivot, a.Legible
  methods : r.methods.Legible

instance (r : Relation) : Decidable r.Legible :=
  decidable_of_iff ((∀ a ∈ keyArguments r.name r.link, a.Legible) ∧ (∀ a ∈ r.link.withPivot, a.Legible) ∧
      r.methods.Legible)
    ⟨fun ⟨keys, pivot, methods⟩ => ⟨keys, pivot, methods⟩, fun h => ⟨h.keys, h.pivot, h.methods⟩⟩

/-- The texts of the call of a relation, in order. Classes are not written as texts. -/
def texts (r : Relation) : List String :=
  (keyArguments r.name r.link).flatMap Argument.texts ++ r.link.withPivot.flatMap Argument.texts ++ r.methods.texts

end Relation

namespace Resolved

variable {s : Resolved} {owner : Model} {r : Relation}

/-- Classes whose names may stand between literals. -/
def ClassesUnquoted (s : Resolved) : Prop :=
  ∀ m ∈ s.models.values, Unquoted m.qualifiedClass

instance (s : Resolved) : Decidable s.ClassesUnquoted :=
  inferInstanceAs (Decidable (∀ m ∈ s.models.values, Unquoted m.qualifiedClass))

theorem quotes_classArgument (hs : s.ClassesUnquoted) {key : String} {a : Argument} (h : classArgument s owner key = .ok a) :
    a.Legible ∧ a.texts = [] := by
  unfold classArgument at h
  split at h
  · cases h
  · rename_i target htarget
    have hclass : Unquoted target.qualifiedClass := hs target (OrderedMap.mem_values_iff.mpr ⟨key, htarget⟩)
    split at h
    · obtain rfl := pure_eq_ok.mp h
      refine ⟨fun c hc => hclass c ?_, rfl⟩
      simp only [Model.qualifiedClass, String.toList_append, List.mem_append]
      exact .inr hc
    · obtain rfl := pure_eq_ok.mp h
      refine ⟨fun c hc => ?_, rfl⟩
      rw [String.toList_append, List.mem_append] at hc
      rcases hc with hc | hc
      · obtain rfl : c = '\\' := by simpa using hc
        decide
      · exact hclass c hc

theorem quotes_relationMethods (hs : s.ClassesUnquoted) (hr : r.Legible) {methods : List Method}
    (h : relationMethods s owner r = .ok methods) : (∀ m ∈ methods, m.Legible) ∧ methods.flatMap Method.texts = r.texts := by
  obtain ⟨classes, hclasses, h⟩ := bind_eq_ok.mp h
  obtain ⟨pivots, hpivots, h⟩ := bind_eq_ok.mp h
  obtain rfl := pure_eq_ok.mp h
  have hclass : ∀ a ∈ classes, a.Legible ∧ a.texts = [] := by
    intro a ha
    obtain ⟨key, _, hkey⟩ := mem_of_forall₂ (mapM_eq_ok.mp hclasses) ha
    exact quotes_classArgument hs hkey
  have husing : ∀ m ∈ pivots, m.Legible ∧ m.texts = [] := by
    intro m hm
    obtain ⟨key, _, hkey⟩ := mem_of_forall₂ (mapM_eq_ok.mp hpivots) hm
    obtain ⟨a, ha, hm⟩ := bind_eq_ok.mp hkey
    obtain rfl := pure_eq_ok.mp hm
    obtain ⟨hlegible, htexts⟩ := quotes_classArgument hs ha
    exact ⟨⟨(by decide : Unquoted "using"), by simpa using hlegible⟩, by simpa [Method.texts] using htexts⟩
  have hkeyword : Unquoted r.kind.keyword := by cases r.kind <;> decide
  constructor
  · simp only [List.cons_append, List.mem_cons, List.mem_append]
    rintro m (rfl | (hm | hm) | hm)
    · exact ⟨hkeyword, fun a ha => (List.mem_append.mp ha).elim (fun ha => (hclass a ha).1) (hr.keys a)⟩
    · exact (husing m hm).1
    · obtain ⟨_, hm⟩ := List.mem_ite_nil_left.mp hm
      obtain rfl := List.mem_singleton.mp hm
      exact ⟨(by decide : Unquoted "withPivot"), hr.pivot⟩
    · exact hr.methods m hm
  · have hnone : classes.flatMap Argument.texts = [] := List.flatMap_eq_nil_iff.mpr fun a ha => (hclass a ha).2
    have hnone' : pivots.flatMap Method.texts = [] := List.flatMap_eq_nil_iff.mpr fun m hm => (husing m hm).2
    have hpivot :
        (if r.link.withPivot.isEmpty then [] else [⟨"withPivot", r.link.withPivot⟩] : List Method).flatMap Method.texts =
          r.link.withPivot.flatMap Argument.texts := by
      cases r.link.withPivot <;> simp [Method.texts]
    have hleading : Method.texts ⟨r.kind.keyword, classes ++ keyArguments r.name r.link⟩ =
        (keyArguments r.name r.link).flatMap Argument.texts := by
      rw [Method.texts, List.flatMap_append, hnone, List.nil_append]
    rw [List.flatMap_append, List.flatMap_append, List.flatMap_cons, hleading, hnone', hpivot, List.append_nil]
    rfl

/-- The call of a relation has the texts of the relation for its literals. -/
theorem quotes_relationCall (hs : s.ClassesUnquoted) (hr : r.Legible) {k n text : String} (hk : s.model? k = some owner)
    (hn : owner.relation? n = some r) (h : relationCall s k n = .ok text) : Quotes text r.texts := by
  unfold relationCall at h
  rw [hk] at h
  obtain ⟨_, hm, h⟩ := bind_eq_ok.mp h
  obtain rfl := pure_eq_ok.mp hm
  dsimp only at h
  rw [hn] at h
  obtain ⟨methods, hmethods, h⟩ := bind_eq_ok.mp h
  obtain rfl := pure_eq_ok.mp h
  obtain ⟨hlegible, htexts⟩ := quotes_relationMethods hs hr hmethods
  rw [← htexts]
  exact .intercalate (by decide) fun m hm => (hlegible m hm).quotes

end Resolved

/-! ## Generated code -/

/-- A text is written as a literal that is read as that text only where it is legible. Where all texts of a column, an index,
a table or a relation are, the literals of its generated code are these texts. -/
theorem texts_read_back (value : String) (c : Column) (i : Index) (m : Migration) (s : Resolved) (r : Relation) :
    (∃ body, (Argument.string value).render.toList = '\'' :: body ∧
      ∀ after, read (body ++ after) = some (value.toList, after) ↔ SingleQuoted.Legible value.toList) ∧
    (c.Legible → ∀ values, Literals c.statement.toList values ↔ values = c.texts) ∧
    (i.Legible → ∀ values, Literals i.statement.toList values ↔ values = i.texts) ∧
    (m.Legible → ∀ lines,
      List.Forall₂ (fun line values => Literals line.toList values) m.statements lines ↔ lines = m.texts) ∧
    (s.ClassesUnquoted → r.Legible → ∀ {k n text owner}, s.model? k = some owner → owner.relation? n = some r →
      relationCall s k n = .ok text → ∀ values, Literals text.toList values ↔ values = r.texts) := by
  refine ⟨⟨escape value.toList ++ ['\''], ?_, fun after => ?_⟩, ?_, ?_, ?_, ?_⟩
  · simp [Argument.render, Argument.string, SingleQuoted.literal]
  · rw [List.append_assoc]
    exact read_escape_iff
  · exact fun h values => h.quotes.literals_iff
  · exact fun h values => h.quotes.literals_iff
  · exact fun h lines => Quotes.forall₂_literals_iff h.quotes
  · exact fun hs hr _ _ _ _ hk hn h values => (quotes_relationCall hs hr hk hn h).literals_iff

def titleColumn : Column :=
  .ofCall "title" (.parse "string:80 default:\"It's new\" comment:C:\\pages")

def titleIndex : Index :=
  ⟨["locale", "title"], true, some "page_titles"⟩

def pages : Migration :=
  { Migration.ofTable "pages" with
    columns := .ofList [("title", titleColumn), ("locale", .ofCall "locale" (.parse "char:2"))]
    indexes := [titleIndex]
    primary := some ["locale", "title"]
    comment := some "The site's pages" }

def labels : Relation :=
  ⟨"labels", .parse "orderBy:position",
    .belongsToMany ⟨"Label", none, "page's", "page_id", "label_id", [.string "position"]⟩⟩

def pageModel : Model :=
  { Model.shell "Page" "Page" "App" "Page.php" "pages" with relations := .ofList [("labels", some labels)] }

/-- Pages and their labels. -/
def site : Resolved where
  namespaceName := "App"
  models := .ofList [("Page", pageModel), ("Label", .shell "Label" "Label" "App" "Label.php" "labels")]
  migrations := .empty
  artifacts := .empty

theorem site_read_back :
    read ("It\\'s new', 80)".toList) = some ("It's new".toList, ", 80)".toList) ∧
    Literals titleColumn.statement.toList ["title", "It's new", "C:\\pages"] ∧
    Literals titleIndex.statement.toList ["locale", "title", "page_titles"] ∧
    List.Forall₂ (fun line values => Literals line.toList values) pages.statements
      [["title", "It's new", "C:\\pages"], ["locale"], ["locale", "title"], ["locale", "title", "page_titles"],
        ["The site's pages"]] ∧
    relationCall site "Page" "labels" =
      .ok "belongsToMany(Label::class, 'page\\'s', 'page_id', 'label_id')->withPivot('position')->orderBy('position')" ∧
    Literals "belongsToMany(Label::class, 'page\\'s', 'page_id', 'label_id')->withPivot('position')->orderBy('position')".toList
      ["page's", "page_id", "label_id", "position", "position"] := by
  have hcall : relationCall site "Page" "labels" =
      .ok "belongsToMany(Label::class, 'page\\'s', 'page_id', 'label_id')->withPivot('position')->orderBy('position')" :=
    ok_of_toOption (by decide +kernel)
  obtain ⟨⟨body, hbody, hread⟩, hcolumn, hindex, hmigration, hrelation⟩ :=
    texts_read_back "It's new" titleColumn titleIndex pages site labels
  refine ⟨?_, (hcolumn (by decide +kernel) _).mpr (by decide +kernel), (hindex (by decide) _).mpr (by decide),
    (hmigration (by decide +kernel) _).mpr (by decide +kernel), hcall, ?_⟩
  · have hwritten : (Argument.string "It's new").render.toList = '\'' :: "It\\'s new'".toList := by decide
    obtain ⟨_, rfl⟩ := List.cons.inj (hbody.symm.trans hwritten)
    exact (hread ", 80)".toList).mpr (by decide)
  · exact (hrelation (by decide +kernel) (by decide +kernel) rfl rfl hcall _).mpr (by decide +kernel)

/-- A backslash at the end keeps the literal open, one before a quote closes it early, and of two one is lost. -/
theorem backslashes_misread :
    (Argument.string "C:\\").render = "'C:\\'" ∧ read "C:\\'".toList = none ∧
    (Argument.string "\\'s").render = "'\\\\'s'" ∧ read "\\\\'s'".toList = some (['\\'], "s'".toList) ∧
    (Argument.string "\\\\").render = "'\\\\'" ∧ read "\\\\'".toList = some (['\\'], []) ∧
    (Column.ofCall "path" (.parse "string default:'C:\\'")).statement = "$table->string('path')->default('C:\\')" := by
  decide +kernel

end Schemata
