import Schemata.Proofs.Column
import Schemata.Relation.Declared

/-!
# Lines of relations

When the line of a relation is refused, and which of its methods go where when it is accepted: to the key column, into the
options of the pivot table, or onto the relation call.
-/

namespace Schemata

open Schemata.Shorthand

namespace Shorthand.Call

variable {methods : List Method} {name : String}

theorem has_iff {c : Call} : c.has name = true ↔ ∃ m ∈ c.methods, m.name = name := by
  simp [has]

/-- A selection by name has a method if it is there and its name is one of those selected. -/
theorem has_filter (p : String → Bool) :
    Call.has ⟨methods.filter (p ·.name)⟩ name = (p name && Call.has ⟨methods⟩ name) := by
  rw [Bool.eq_iff_iff, Bool.and_eq_true, has_iff, has_iff]
  simp only [List.mem_filter]
  constructor
  · rintro ⟨m, ⟨hm, hp⟩, rfl⟩
    exact ⟨hp, m, hm, rfl⟩
  · rintro ⟨hp, m, hm, rfl⟩
    exact ⟨m, ⟨hm, hp⟩, rfl⟩

/-- The methods of a name that stands at most once are none or the first. -/
theorem filter_name_eq_toList (h : Call.count ⟨methods⟩ name ≤ 1) :
    methods.filter (·.name == name) = (Call.find? ⟨methods⟩ name).toList := by
  have hlist : ∀ ms : List Method, ms.length ≤ 1 → ms = ms.head?.toList
    | [], _ => rfl
    | [_], _ => rfl
  have hfind : (methods.filter (·.name == name)).head? = Call.find? ⟨methods⟩ name := List.head?_filter
  have hcount : Call.count ⟨methods⟩ name = (methods.filter (·.name == name)).length := List.countP_eq_length_filter
  exact (hlist _ (hcount ▸ h)).trans (congrArg Option.toList hfind)

/-- Where a name stands at most once, its first method is all there is to remove. -/
theorem remove_eq_removeAll (h : Call.count ⟨methods⟩ name ≤ 1) :
    Call.remove ⟨methods⟩ name = Call.removeAll ⟨methods⟩ name := by
  unfold remove removeAll
  congr 1
  induction methods with
  | nil => rfl
  | cons m rest ih =>
    by_cases hm : m.name = name
    · have hrest : Call.count ⟨rest⟩ name = 0 := by
        have hcount : rest.countP (·.name == name) + 1 ≤ 1 := by simpa [count, hm] using h
        exact Nat.eq_zero_of_le_zero (Nat.le_of_succ_le_succ hcount)
      have hkept : rest.filter (·.name != name) = rest := by
        refine List.filter_eq_self.mpr fun x hx => ?_
        simpa using List.countP_eq_zero.mp hrest x hx
      simp [hm, hkept]
    · have hrest : Call.count ⟨rest⟩ name ≤ 1 := by simpa [count, hm] using h
      simpa [hm] using ih hrest

/-- A name that stands at most once stands for its first method. -/
theorem exists_named_iff (h : Call.count ⟨methods⟩ name ≤ 1) {P : Method → Prop} :
    (∃ m ∈ methods, m.name = name ∧ P m) ↔ ∃ m, Call.find? ⟨methods⟩ name = some m ∧ P m := by
  have hmem (m : Method) : (m ∈ methods ∧ m.name = name) ↔ Call.find? ⟨methods⟩ name = some m := by
    rw [← Option.mem_toList, ← filter_name_eq_toList h, List.mem_filter, beq_iff_eq]
  simp only [← and_assoc, hmem]

end Shorthand.Call

namespace DeclaredRelation

/-- The options that describe the pivot table. -/
def pivotOptions : List String :=
  ["using", "withPivot"]

/-- Why a line of a kind is refused, by the methods behind the leading one. -/
inductive Refused (kind : RelationKind) (rest : List Method) : Prop
  | indexAndUnique (column : kind.needsColumn = true) (index : ∃ m ∈ rest, m.name = "index")
      (unique : ∃ m ∈ rest, m.name = "unique")
  | repeated (pivot : kind.requiresPivot = true) (option : String) (isOption : option ∈ pivotOptions)
      (twice : 1 < rest.countP (·.name == option))
  | usingNothing (pivot : kind.requiresPivot = true) (m : Method) (mem : m ∈ rest) (isUsing : m.name = "using")
      (nothing : m.value? 0 = none)
  | withDefault (refuses : kind.acceptsWithDefault = false) (withDefault : ∃ m ∈ rest, m.name = "withDefault")

/-- Each method behind the leading one has one place, and those of a place keep their order. -/
structure Placed (rest : List Method) (l : DeclaredRelation) : Prop where
  ofColumn : l.kind.needsColumn = true →
    l.columnMethods.methods = rest.filter (columnQualifiers.contains ·.name) ∧
      l.methods.methods = rest.filter (!columnQualifiers.contains ·.name) ∧ l.pivot = none ∧ l.withPivot = []
  ofPivot : l.kind.requiresPivot = true → ∃ using? withPivot? : Option Method,
    rest.filter (·.name == "using") = using?.toList ∧ rest.filter (·.name == "withPivot") = withPivot?.toList ∧
      l.methods.methods = rest.filter (!pivotOptions.contains ·.name) ∧ l.columnMethods.methods = [] ∧
      l.pivot = using?.bind (·.value? 0) ∧ l.pivot.isSome = using?.isSome ∧
      l.withPivot = withPivot?.elim [] (·.arguments)
  ofOther : l.kind.needsColumn = false → l.kind.requiresPivot = false →
    l.methods.methods = rest ∧ l.columnMethods.methods = [] ∧ l.pivot = none ∧ l.withPivot = []

variable {model name : String} {kind : RelationKind} {arguments : List Argument} {rest : List Method} {l : DeclaredRelation}

/-! ## Checks -/

theorem checkOnce_ok {relation : RelationName} {methods : Call} {option : String} {u : Unit} :
    checkOnce relation methods option = .ok u ↔ methods.count option ≤ 1 := by
  unfold checkOnce
  split
  · rename_i h
    exact iff_of_false throw_ne_ok (Nat.not_le_of_lt h)
  · rename_i h
    exact iff_of_true rfl (Nat.le_of_not_lt h)

theorem pivotOf_ok {relation : RelationName} {methods : Call} {pivot : Option String} :
    pivotOf relation methods = .ok pivot ↔
      pivot = (methods.find? "using").bind (·.value? 0) ∧ pivot.isSome = (methods.find? "using").isSome := by
  unfold pivotOf
  cases methods.find? "using" with
  | none => cases pivot <;> simp [pure_eq_ok]
  | some m =>
    cases hm : m.value? 0 with
    | none => cases pivot <;> simp [hm, throw_ne_ok]
    | some reference =>
      simp only [pure_eq_ok, Option.bind_some, hm, Option.isSome_some]
      constructor
      · rintro rfl
        exact ⟨rfl, rfl⟩
      · exact fun h => h.1.symm

/-- The reasons that a kind of relation has for refusing a line. -/
theorem refused_iff : Refused kind rest ↔
    (kind.needsColumn = true ∧ Call.has ⟨rest⟩ "index" = true ∧ Call.has ⟨rest⟩ "unique" = true) ∨
      (kind.requiresPivot = true ∧ (1 < Call.count ⟨rest⟩ "using" ∨ 1 < Call.count ⟨rest⟩ "withPivot" ∨
        ∃ m ∈ rest, m.name = "using" ∧ m.value? 0 = none)) ∨
      (kind.acceptsWithDefault = false ∧ Call.has ⟨rest⟩ "withDefault" = true) := by
  simp only [Call.has_iff]
  constructor
  · rintro (⟨hk, hindex, hunique⟩ | ⟨hk, option, hoption, htwice⟩ | ⟨hk, m, hm, hu, hv⟩ | ⟨hk, h⟩)
    · exact .inl ⟨hk, hindex, hunique⟩
    · rcases List.mem_cons.mp hoption with rfl | hoption
      · exact .inr (.inl ⟨hk, .inl htwice⟩)
      · obtain rfl := List.mem_singleton.mp hoption
        exact .inr (.inl ⟨hk, .inr (.inl htwice)⟩)
    · exact .inr (.inl ⟨hk, .inr (.inr ⟨m, hm, hu, hv⟩)⟩)
    · exact .inr (.inr ⟨hk, h⟩)
  · rintro (⟨hk, hindex, hunique⟩ | ⟨hk, h | h | ⟨m, hm, hu, hv⟩⟩ | ⟨hk, h⟩)
    · exact .indexAndUnique hk hindex hunique
    · exact .repeated hk "using" (by decide) h
    · exact .repeated hk "withPivot" (by decide) h
    · exact .usingNothing hk m hm hu hv
    · exact .withDefault hk h

/-- Options that stand at most once are taken out of a chain together. -/
theorem remove_pivotOptions (husing : Call.count ⟨rest⟩ "using" ≤ 1) (hwith : Call.count ⟨rest⟩ "withPivot" ≤ 1) :
    (Call.remove ⟨rest⟩ "using").remove "withPivot" = ⟨rest.filter (!pivotOptions.contains ·.name)⟩ := by
  have hleft : Call.count ⟨rest.filter (·.name != "using")⟩ "withPivot" ≤ 1 :=
    Nat.le_trans (List.Sublist.countP_le List.filter_sublist) hwith
  rw [Call.remove_eq_removeAll husing, Call.removeAll, Call.remove_eq_removeAll hleft, Call.removeAll, List.filter_filter]
  refine congrArg Call.mk (List.filter_congr fun m _ => ?_)
  rw [Bool.eq_iff_iff]
  simp [pivotOptions, and_comm]

/-- A single `using` names a model if and only if none stands without one. -/
theorem isSome_pivot_iff (husing : Call.count ⟨rest⟩ "using" ≤ 1) :
    ((Call.find? ⟨rest⟩ "using").bind (·.value? 0)).isSome = (Call.find? ⟨rest⟩ "using").isSome ↔
      ¬∃ m ∈ rest, m.name = "using" ∧ m.value? 0 = none := by
  rw [Call.exists_named_iff husing]
  cases Call.find? ⟨rest⟩ "using" with
  | none => simp
  | some m => cases hm : m.value? 0 <;> simp [hm]

/-! ## Lines that are accepted -/

theorem requiresPivot_of_needsColumn (h : kind.needsColumn = true) : kind.requiresPivot = false := by
  cases kind <;> first | rfl | cases h

theorem needsColumn_of_requiresPivot (h : kind.requiresPivot = true) : kind.needsColumn = false := by
  cases kind <;> first | rfl | cases h

/-- A line that stores its key in a column. -/
theorem parse_column_ok_iff (hk : kind.needsColumn = true) :
    parse model name ⟨⟨kind.keyword, arguments⟩ :: rest⟩ = .ok l ↔ ¬Refused kind rest ∧
      l = ⟨model, name, kind, arguments, ⟨rest.filter (columnQualifiers.contains ·.name)⟩, none, [],
        ⟨rest.filter (!columnQualifiers.contains ·.name)⟩⟩ := by
  have hpivot := requiresPivot_of_needsColumn hk
  have hindex : Call.has ⟨rest.filter (columnQualifiers.contains ·.name)⟩ "index" = Call.has ⟨rest⟩ "index" :=
    Call.has_filter _
  have hunique : Call.has ⟨rest.filter (columnQualifiers.contains ·.name)⟩ "unique" = Call.has ⟨rest⟩ "unique" :=
    Call.has_filter _
  have hdefault : Call.has ⟨rest.filter (!columnQualifiers.contains ·.name)⟩ "withDefault" = Call.has ⟨rest⟩ "withDefault" :=
    Call.has_filter (!columnQualifiers.contains ·)
  simp only [parse, Call.first?, List.head?_cons, pure_bind, RelationKind.ofKeyword?_keyword, Call.tail, List.tail_cons, hk, hpivot,
    if_true, Bool.false_eq_true, if_false, Call.extract, List.partition_eq_filter_filter, Function.comp_def, guard_eq_ok, pure_eq_ok]
  rw [hindex, hunique, hdefault, refused_iff, hk, hpivot, eq_comm (a := l)]
  simp only [Bool.and_eq_true, Bool.not_eq_true', true_and, Bool.false_eq_true, false_and, false_or, not_or, and_assoc,
    and_comm (a := kind.acceptsWithDefault = false)]

/-- A line that is linked through a table of its own. -/
theorem parse_pivot_ok_iff (hk : kind.requiresPivot = true) :
    parse model name ⟨⟨kind.keyword, arguments⟩ :: rest⟩ = .ok l ↔ ¬Refused kind rest ∧
      l = ⟨model, name, kind, arguments, .empty, (Call.find? ⟨rest⟩ "using").bind (·.value? 0),
        (Call.find? ⟨rest⟩ "withPivot").elim [] (·.arguments), ⟨rest.filter (!pivotOptions.contains ·.name)⟩⟩ := by
  have hcolumn := needsColumn_of_requiresPivot hk
  have hdefault : Call.has ⟨rest.filter (!pivotOptions.contains ·.name)⟩ "withDefault" = Call.has ⟨rest⟩ "withDefault" :=
    Call.has_filter (!pivotOptions.contains ·)
  have hempty : (Call.empty.has "index" && Call.empty.has "unique") = false := rfl
  simp only [parse, Call.first?, List.head?_cons, pure_bind, RelationKind.ofKeyword?_keyword, Call.tail, List.tail_cons, hk, hcolumn,
    if_true, Bool.false_eq_true, if_false, hempty, bind_eq_ok, checkOnce_ok, pivotOf_ok, refused_iff, false_and, true_and, false_or]
  constructor
  · rintro ⟨_, husing, _, hwith, _, ⟨rfl, hsome⟩, h⟩
    rw [remove_pivotOptions husing hwith, guard_eq_ok, hdefault, pure_eq_ok] at h
    refine ⟨?_, h.2.symm⟩
    rintro ((htwice | htwice | hnothing) | ⟨hrefuses, hhas⟩)
    · exact absurd htwice (Nat.not_lt_of_le husing)
    · exact absurd htwice (Nat.not_lt_of_le hwith)
    · exact (isSome_pivot_iff husing).mp hsome hnothing
    · exact h.1 (by simp [hrefuses, hhas])
  · rintro ⟨hn, rfl⟩
    simp only [not_or, not_and, Nat.not_lt] at hn
    obtain ⟨⟨husing, hwith, hnothing⟩, hdef⟩ := hn
    refine ⟨(), husing, (), hwith, _, ⟨rfl, (isSome_pivot_iff husing).mpr ?_⟩, ?_⟩
    · rintro ⟨m, hm, hname, hvalue⟩
      exact hnothing ⟨m, hm, hname, hvalue⟩
    · rw [remove_pivotOptions husing hwith, guard_eq_ok, hdefault]
      refine ⟨fun h => ?_, rfl⟩
      simp only [Bool.and_eq_true, Bool.not_eq_true'] at h
      exact hdef h.2 h.1

/-- A line that needs neither a column nor a table. -/
theorem parse_other_ok_iff (hc : kind.needsColumn = false) (hp : kind.requiresPivot = false) :
    parse model name ⟨⟨kind.keyword, arguments⟩ :: rest⟩ = .ok l ↔ ¬Refused kind rest ∧
      l = ⟨model, name, kind, arguments, .empty, none, [], ⟨rest⟩⟩ := by
  have hempty : (Call.empty.has "index" && Call.empty.has "unique") = false := rfl
  simp only [parse, Call.first?, List.head?_cons, pure_bind, RelationKind.ofKeyword?_keyword, Call.tail, List.tail_cons, hc, hp,
    Bool.false_eq_true, if_false, hempty, guard_eq_ok, pure_eq_ok, refused_iff, false_and, false_or, eq_comm (b := l)]
  simp only [Bool.and_eq_true, Bool.not_eq_true', and_comm (a := kind.acceptsWithDefault = false)]

/-! ## What is read

Behind the keyword of its kind, a chain is read by one rule for each of its methods. -/

/-- The line that is read of a chain if no reason speaks against it. -/
def ofChain (model name : String) (kind : RelationKind) (arguments : List Argument) (rest : List Method) :
    DeclaredRelation where
  model := model
  name := name
  kind := kind
  arguments := arguments
  columnMethods := if kind.needsColumn then ⟨rest.filter (columnQualifiers.contains ·.name)⟩ else .empty
  pivot := if kind.requiresPivot then (Call.find? ⟨rest⟩ "using").bind (·.value? 0) else none
  withPivot := if kind.requiresPivot then (Call.find? ⟨rest⟩ "withPivot").elim [] (·.arguments) else []
  methods :=
    if kind.needsColumn then ⟨rest.filter (!columnQualifiers.contains ·.name)⟩
    else if kind.requiresPivot then ⟨rest.filter (!pivotOptions.contains ·.name)⟩
    else ⟨rest⟩

/-- Every line is accepted that no reason speaks against. -/
theorem parse_ok_iff : parse model name ⟨⟨kind.keyword, arguments⟩ :: rest⟩ = .ok l ↔
    ¬Refused kind rest ∧ l = ofChain model name kind arguments rest := by
  unfold ofChain
  cases hc : kind.needsColumn with
  | true => simp only [parse_column_ok_iff hc, requiresPivot_of_needsColumn hc, if_true, Bool.false_eq_true, if_false]
  | false =>
    cases hp : kind.requiresPivot with
    | true => simp only [parse_pivot_ok_iff hp, if_true, Bool.false_eq_true, if_false]
    | false => simp only [parse_other_ok_iff hc hp, Bool.false_eq_true, if_false]

theorem placed_ofChain (haccepted : ¬Refused kind rest) : Placed rest (ofChain model name kind arguments rest) where
  ofColumn hc := by
    change kind.needsColumn = true at hc
    simp [ofChain, hc, requiresPivot_of_needsColumn hc]
  ofPivot hp := by
    change kind.requiresPivot = true at hp
    have honce : ∀ option ∈ pivotOptions, Call.count ⟨rest⟩ option ≤ 1 := fun option hoption =>
      Nat.le_of_not_lt fun htwice => haccepted (.repeated hp option hoption htwice)
    have husing := honce "using" (by decide)
    have hsome := (isSome_pivot_iff husing).mpr fun ⟨m, hm, hname, hvalue⟩ => haccepted (.usingNothing hp m hm hname hvalue)
    refine ⟨_, _, Call.filter_name_eq_toList husing, Call.filter_name_eq_toList (honce "withPivot" (by decide)), ?_⟩
    simp [ofChain, needsColumn_of_requiresPivot hp, hp, hsome, Call.empty]
  ofOther hc hp := by
    change kind.needsColumn = false at hc
    change kind.requiresPivot = false at hp
    simp [ofChain, hc, hp, Call.empty]

/-- What is read leads with the keyword of a kind. -/
theorem exists_chain_of_parse_ok {call : Call} (h : parse model name call = .ok l) :
    ∃ (kind : RelationKind) (arguments : List Argument) (rest : List Method), call = ⟨⟨kind.keyword, arguments⟩ :: rest⟩ := by
  obtain ⟨methods⟩ := call
  cases methods with
  | nil => cases h
  | cons first rest =>
    obtain ⟨keyword, arguments⟩ := first
    cases hk : RelationKind.ofKeyword? keyword with
    | none =>
      simp only [parse, Call.first?, List.head?_cons, pure_bind, hk] at h
      cases h
    | some kind =>
      obtain rfl := RelationKind.keyword_of_ofKeyword? hk
      exact ⟨kind, arguments, rest, rfl⟩

/-- What is kept of a line under its own names: the kind of its keyword, qualifiers of a column that may be built, and a reference
to a pivot model if its kind may have one. -/
structure Parsed (owner place : String) (call : Call) (l : DeclaredRelation) : Prop where
  model : l.model = owner
  name : l.name = place
  kind : kindOf? call = some l.kind
  columnMethods : l.columnMethods.IndexedOnce
  pivot : l.kind.requiresPivot = false → l.pivot = none

theorem parse_ok {call : Call} (h : parse model name call = .ok l) : Parsed model name call l := by
  obtain ⟨kind, arguments, rest, rfl⟩ := exists_chain_of_parse_ok h
  obtain ⟨haccepted, rfl⟩ := parse_ok_iff.mp h
  refine ⟨rfl, rfl, RelationKind.ofKeyword?_keyword kind, ?_, fun hp => if_neg (Bool.eq_false_iff.mp hp)⟩
  unfold ofChain
  split
  · rename_i hc
    rintro ⟨hindex, hunique⟩
    rw [Call.has_filter] at hindex hunique
    exact haccepted (refused_iff.mpr (.inl ⟨hc, (Bool.and_eq_true_iff.mp hindex).2, (Bool.and_eq_true_iff.mp hunique).2⟩))
  · exact fun hboth => Bool.false_ne_true hboth.1

/-- Calls that differ in the arguments of their leading method are read as lines that differ in them. -/
theorem parse_arguments {call call' : Call} {first first' : Method} {rest : List Method} (hcall : call.methods = first :: rest)
    (hcall' : call'.methods = first' :: rest) (hname : first'.name = first.name) (h : parse model name call = .ok l) :
    l.arguments = first.arguments ∧ parse model name call' = .ok { l with arguments := first'.arguments } := by
  obtain ⟨kind, arguments, methods, rfl⟩ := exists_chain_of_parse_ok h
  obtain ⟨rfl, rfl⟩ := List.cons.inj hcall
  obtain ⟨haccepted, rfl⟩ := parse_ok_iff.mp h
  have hchain : call' = ⟨⟨kind.keyword, first'.arguments⟩ :: methods⟩ := by
    rw [← show first'.name = kind.keyword from hname]
    exact congrArg Call.mk hcall'
  exact ⟨rfl, hchain ▸ parse_ok_iff.mpr ⟨haccepted, rfl⟩⟩

/-- A relation line is refused for one of the reasons of its kind, and else each of its methods has its place. -/
theorem refused_or_placed (model name : String) (kind : RelationKind) (arguments : List Argument) (rest : List Method) :
    ((∃ fault, parse model name ⟨⟨kind.keyword, arguments⟩ :: rest⟩ = .error fault) ↔ Refused kind rest) ∧
      ∀ l, parse model name ⟨⟨kind.keyword, arguments⟩ :: rest⟩ = .ok l →
        l.model = model ∧ l.name = name ∧ l.kind = kind ∧ l.arguments = arguments ∧ Placed rest l := by
  have haccepted : (∃ l, parse model name ⟨⟨kind.keyword, arguments⟩ :: rest⟩ = .ok l) ↔ ¬Refused kind rest := by
    simp only [parse_ok_iff, exists_and_left, exists_eq, and_true]
  refine ⟨?_, fun l h => ?_⟩
  · rw [← not_iff_not, ← haccepted]
    cases parse model name ⟨⟨kind.keyword, arguments⟩ :: rest⟩ <;> simp
  · obtain ⟨hn, rfl⟩ := parse_ok_iff.mp h
    exact ⟨rfl, rfl, rfl, rfl, placed_ofChain hn⟩

end DeclaredRelation

end Schemata
