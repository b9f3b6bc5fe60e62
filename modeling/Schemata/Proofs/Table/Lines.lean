import Schemata.Proofs.Column

/-!
# Lines of columns

What a column has of its line: one method supplies the type and perhaps the name, the first `comment` is the comment of the
column, and the others are its chain. The keys `id` and `uuid` give up arguments on the way.
-/

namespace Schemata.Column

open Schemata.Shorthand

/-! ## What a line gives -/

/-- The method of a line that supplies the type of the column, if one does. Under `id` it is the leading method, under a key
that is a type itself a leading method of that name, and else the first method, or the second after a leading `comment`. -/
def typeMethod? (key : String) (call : Call) : Option Method :=
  if key = "id" then call.first?
  else if key = "uuid" ∨ (shorthandName? key).isSome = true then call.first?.filter (·.name = key)
  else (call.remove "comment").first?

/-- The other methods of a line. -/
def qualifiers (key : String) (call : Call) : List Method :=
  (typeMethod? key call).elim call.methods call.methods.erase

/-- The arguments that are not null. -/
def given (arguments : List Argument) : List Argument :=
  arguments.filter (!·.isNull)

/-- A column has qualifiers in its chain, in their order, and the first `comment` for its comment. At the end of the chain may
be `primary`, which the key has added. -/
structure Chains (qualifiers : List Method) (c : Column) : Prop where
  methods : c.methods.methods ∈
    [qualifiers.eraseP (·.name == "comment"), qualifiers.eraseP (·.name == "comment") ++ [.bare "primary"]]
  comment : c.comment = (qualifiers.find? (·.name == "comment")).bind (·.value? 0)

/-- A column is called by a method: all arguments are its own in their order, or all but the first, which is its name. -/
structure Calls (m : Method) (c : Column) : Prop where
  type : c.type = m.name
  arguments : given m.arguments = given c.arguments ∨
    ∃ name, name.value = c.name ∧ given m.arguments = name :: given c.arguments

/-- A column has all that its line gives. -/
structure Keeps (key : String) (call : Call) (c : Column) : Prop where
  type : ∀ m, typeMethod? key call = some m → Calls m c
  chain : Chains (qualifiers key call) c

variable {c : Column} {key default : String} {call : Call} {m : Method}

theorem keeps_of_some (h : typeMethod? key call = some m) :
    Keeps key call c ↔ Calls m c ∧ Chains (call.methods.erase m) c := by
  have hq : qualifiers key call = call.methods.erase m := by rw [qualifiers, h]; rfl
  refine ⟨fun hk => ⟨hk.type m h, hq ▸ hk.chain⟩, fun hk => ⟨fun m' hm' => ?_, hq ▸ hk.2⟩⟩
  obtain rfl := Option.some_inj.mp (h.symm.trans hm')
  exact hk.1

theorem keeps_of_none (h : typeMethod? key call = none) : Keeps key call c ↔ Chains call.methods c := by
  have hq : qualifiers key call = call.methods := by rw [qualifiers, h]; rfl
  refine ⟨fun hk => hq ▸ hk.chain, fun hk => ⟨fun m hm => ?_, hq ▸ hk⟩⟩
  cases h.symm.trans hm

/-! ## Comments -/

theorem liftComment_methods (c : Column) : c.liftComment.methods.methods = c.methods.methods.eraseP (·.name == "comment") := by
  unfold liftComment
  split
  · rfl
  · rename_i hnone
    exact (List.eraseP_of_forall_not (List.find?_eq_none.mp hnone)).symm

theorem liftComment_comment (h : c.comment = none) :
    c.liftComment.comment = (c.methods.methods.find? (·.name == "comment")).bind (·.value? 0) := by
  unfold liftComment
  cases hfind : c.methods.find? "comment" with
  | some m => exact (congrArg (·.bind (·.value? 0)) hfind).symm
  | none => exact h.trans (congrArg (·.bind (·.value? 0)) hfind).symm

/-- Apart from its chain and its comment a column is left alone. -/
theorem liftComment_fields (c : Column) :
    c.liftComment.name = c.name ∧ c.liftComment.type = c.type ∧ c.liftComment.arguments = c.arguments := by
  unfold liftComment
  split <;> exact ⟨rfl, rfl, rfl⟩

theorem chains_liftComment (h : c.comment = none) : Chains c.methods.methods c.liftComment :=
  ⟨List.mem_cons.mpr (.inl (liftComment_methods c)), liftComment_comment h⟩

/-! ## Keys of a table -/

/-- A column is made a primary key by a qualifier, unless it is one already. -/
theorem chains_key {c' : Column} {isKey : Bool} (h : c.comment = none)
    (hc' : c' = if isKey = true then c.liftComment else c.liftComment.qualify "primary") :
    Chains c.methods.methods c' ∧ c'.name = c.name ∧ c'.type = c.type ∧ c'.arguments = c.arguments := by
  obtain ⟨hname, htype, harguments⟩ := liftComment_fields c
  subst hc'
  split
  · exact ⟨chains_liftComment h, hname, htype, harguments⟩
  · refine ⟨⟨List.mem_cons_of_mem _ (List.mem_singleton.mpr ?_), liftComment_comment h⟩, hname, htype, harguments⟩
    rw [← liftComment_methods]
    rfl

theorem keyName_eq (m : Method) : keyName m = ((given m.arguments).head?.elim "id" (·.value)) := by
  unfold keyName Method.firstNonNull? given
  rw [List.head?_filter]

/-- A key takes its name from its type method, and nothing else. -/
theorem calls_key_iff (hname : c.name = keyName m) (harguments : c.arguments = []) :
    Calls m c ↔ c.type = m.name ∧ (given m.arguments).length ≤ 1 := by
  rw [keyName_eq] at hname
  have hgiven : given c.arguments = [] := by rw [harguments]; rfl
  constructor
  · rintro ⟨htype, h | ⟨name, _, h⟩⟩ <;> exact ⟨htype, by simp [h, hgiven]⟩
  · rintro ⟨htype, hlength⟩
    refine ⟨htype, ?_⟩
    rw [hgiven]
    cases hm : given m.arguments with
    | nil => exact .inl rfl
    | cons name rest =>
      rw [hm] at hname hlength
      obtain rfl : rest = [] := List.eq_nil_of_length_eq_zero (by simpa using hlength)
      exact .inr ⟨name, hname.symm, rfl⟩

/-- A bare type passes for a comment if it is called so, and then the column has no type. -/
theorem ofCall_bare (name type : String) :
    (ofCall name (.single type [])).type = (if type = "comment" then "" else type) ∧
      (ofCall name (.single type [])).arguments = [] ∧ (ofCall name (.single type [])).comment = none := by
  unfold ofCall Call.remove Call.find? Call.single
  by_cases h : type = "comment"
  · subst h
    exact ⟨rfl, rfl, rfl⟩
  · rw [List.eraseP_cons_of_neg (by simpa using h), List.find?_cons_of_neg (by simpa using h), if_neg h]
    exact ⟨rfl, rfl, rfl⟩

/-- What a key gives up: a second argument, and under `id` a leading `comment`. -/
def GivesUp (key : String) (m : Method) : Prop :=
  key = "id" ∧ m.name = "comment" ∨ (key = "id" ∨ key = "uuid") ∧ 1 < (given m.arguments).length

instance (key : String) (m : Method) : Decidable (GivesUp key m) :=
  inferInstanceAs (Decidable (_ ∨ _))

theorem keeps_ofIdLine_iff : Keeps "id" call (ofIdLine call) ↔ ∀ m, typeMethod? "id" call = some m → ¬GivesUp "id" m := by
  obtain ⟨methods⟩ := call
  cases methods with
  | nil =>
    have hmethod : typeMethod? "id" ⟨[]⟩ = none := rfl
    rw [keeps_of_none hmethod, hmethod]
    exact ⟨fun _ m hm => (nomatch hm), fun _ => chains_liftComment (c := plain "id" "id") rfl⟩
  | cons m rest =>
    have hmethod : typeMethod? "id" ⟨m :: rest⟩ = some m := rfl
    obtain ⟨htype, harguments, hcomment⟩ := ofCall_bare (keyName m) m.name
    obtain ⟨hchains, hname', htype', harguments'⟩ : Chains rest (ofIdLine ⟨m :: rest⟩) ∧ _ :=
      chains_key (c := { ofCall (keyName m) (.single m.name []) with methods := ⟨rest⟩ }) hcomment rfl
    have hnamed : (ofIdLine ⟨m :: rest⟩).type = m.name ↔ m.name ≠ "comment" := by
      rw [htype', htype]
      by_cases hc : m.name = "comment" <;> simp [hc]
    rw [keeps_of_some hmethod, hmethod, calls_key_iff hname' (harguments'.trans harguments), hnamed]
    simp [GivesUp, hchains]

/-- Under a key that is a type itself, either no method supplies the type, or the leading one does. -/
theorem typeMethod?_cases (hid : key ≠ "id") (hkey : key = "uuid" ∨ (shorthandName? key).isSome = true) (call : Call) :
    (typeMethod? key call = none ∧ ∀ m, call.first? = some m → m.name ≠ key) ∨
      ∃ m rest, call = ⟨m :: rest⟩ ∧ m.name = key ∧ typeMethod? key call = some m := by
  have hmethod : typeMethod? key call = call.first?.filter (·.name = key) := by rw [typeMethod?, if_neg hid, if_pos hkey]
  rw [hmethod]
  obtain ⟨_ | ⟨m, rest⟩⟩ := call
  · exact .inl ⟨rfl, fun m hm => (nomatch hm)⟩
  · by_cases hm : m.name = key
    · exact .inr ⟨m, rest, rfl, hm, by simp [Call.first?, hm]⟩
    · exact .inl ⟨by simp [Call.first?, hm], by simpa [Call.first?] using hm⟩

theorem keeps_ofUuidLine_iff : Keeps "uuid" call (ofUuidLine call) ↔
    ∀ m, typeMethod? "uuid" call = some m → ¬GivesUp "uuid" m := by
  rcases typeMethod?_cases (by decide) (.inl rfl) call with ⟨hmethod, hfirst⟩ | ⟨m, rest, rfl, hm, hmethod⟩
  · have hchains : Chains call.methods (ofUuidLine call) ∧ _ :=
      chains_key (c := { plain "id" "uuid" with methods := call }) rfl (by
        unfold ofUuidLine
        cases hf : call.first? with
        | none => rfl
        | some m => dsimp only; rw [if_neg (hfirst m hf)])
    rw [keeps_of_none hmethod, hmethod]
    exact ⟨fun _ m hm => (nomatch hm), fun _ => hchains.1⟩
  · obtain ⟨hchains, hname, htype, harguments⟩ : Chains rest (ofUuidLine ⟨m :: rest⟩) ∧ _ :=
      chains_key (c := { plain (keyName m) "uuid" with methods := ⟨rest⟩ }) rfl (by
        unfold ofUuidLine
        simp only [Call.first?, List.head?_cons, if_pos hm]
        rfl)
    have hnamed : (ofUuidLine ⟨m :: rest⟩).type = m.name := htype.trans hm.symm
    rw [keeps_of_some hmethod, hmethod, calls_key_iff hname harguments]
    simp [GivesUp, hchains, hnamed]

/-! ## Other columns -/

/-- A shorthand takes its name from its first argument or not at all. -/
theorem given_shorthandNaming (default : String) (arguments : List Argument) :
    given arguments = given (shorthandNaming default arguments).2 ∨
      ∃ name, name.value = (shorthandNaming default arguments).1 ∧
        given arguments = name :: given (shorthandNaming default arguments).2 := by
  unfold shorthandNaming
  split
  · exact .inl rfl
  · cases arguments with
    | nil => exact .inl rfl
    | cons a rest =>
      cases hnull : a.isNull with
      | true => exact .inl (List.filter_cons_of_neg (by simp [hnull]))
      | false =>
        refine .inr ⟨a, ?_, List.filter_cons_of_pos (by simp [hnull])⟩
        simp [Argument.value?, hnull]

theorem keeps_ofShorthandLine (hid : key ≠ "id") (hs : shorthandName? key = some default) :
    Keeps key call (ofShorthandLine key default call) := by
  rcases typeMethod?_cases hid (.inr (by rw [hs]; rfl)) call with ⟨hmethod, hfirst⟩ | ⟨m, rest, rfl, hm, hmethod⟩
  · rw [keeps_of_none hmethod]
    have hcolumn : ∃ c : Column, c.methods = call ∧ c.comment = none ∧ ofShorthandLine key default call = c.liftComment := by
      unfold ofShorthandLine
      cases hf : call.first? with
      | none => exact ⟨_, rfl, rfl, rfl⟩
      | some m =>
        dsimp only
        rw [if_neg (hfirst m hf)]
        exact ⟨_, rfl, rfl, rfl⟩
    obtain ⟨c, rfl, hcomment, hcolumn⟩ := hcolumn
    exact hcolumn ▸ chains_liftComment hcomment
  · rw [keeps_of_some hmethod, List.erase_cons_head]
    have hcolumn : ∃ c : Column, c.methods = ⟨rest⟩ ∧ c.comment = none ∧ c.type = key ∧
        c.name = (shorthandNaming default m.arguments).1 ∧ c.arguments = (shorthandNaming default m.arguments).2 ∧
        ofShorthandLine key default ⟨m :: rest⟩ = c.liftComment := by
      unfold ofShorthandLine
      simp only [Call.first?, List.head?_cons, if_pos hm]
      exact ⟨_, rfl, rfl, rfl, rfl, rfl, rfl⟩
    obtain ⟨c, hmethods, hcomment, htype, hname, harguments, hcolumn⟩ := hcolumn
    obtain ⟨hname', htype', harguments'⟩ := liftComment_fields c
    rw [hcolumn]
    refine ⟨⟨htype'.trans (htype.trans hm.symm), ?_⟩, ?_⟩
    · rw [harguments', harguments, hname', hname]
      exact given_shorthandNaming default m.arguments
    · have hchains := chains_liftComment hcomment
      rwa [hmethods] at hchains

/-- The type method of other lines is the first one that is not taken for the comment. -/
theorem erase_head_eraseP {p : Method → Bool} {methods rest : List Method} (h : methods.eraseP p = m :: rest) :
    (methods.erase m).eraseP p = rest ∧ (methods.erase m).find? p = methods.find? p := by
  cases methods with
  | nil => cases h
  | cons q methods =>
    cases hq : p q with
    | true =>
      rw [List.eraseP_cons_of_pos hq] at h
      subst h
      by_cases hqm : q = m
      · subst hqm
        rw [List.erase_cons_head, List.eraseP_cons_of_pos hq, List.find?_cons_of_pos hq]
        exact ⟨rfl, (List.find?_cons_of_pos hq).symm⟩
      · rw [List.erase_cons_tail (by simpa using hqm), List.erase_cons_head, List.eraseP_cons_of_pos hq, List.find?_cons_of_pos hq,
          List.find?_cons_of_pos hq]
        exact ⟨rfl, rfl⟩
    | false =>
      rw [List.eraseP_cons_of_neg (by simp [hq])] at h
      obtain ⟨rfl, rfl⟩ := List.cons.inj h
      rw [List.erase_cons_head, List.find?_cons_of_neg (by simp [hq])]
      exact ⟨rfl, rfl⟩

theorem keeps_ofCall (hid : key ≠ "id") (huuid : key ≠ "uuid") (hs : shorthandName? key = none) :
    Keeps key call (ofCall key call) := by
  have hmethod : typeMethod? key call = (call.methods.eraseP (·.name == "comment")).head? := by
    rw [typeMethod?, if_neg hid, if_neg (by simp [huuid, hs])]
    rfl
  have hchain : (ofCall key call).methods.methods = (call.methods.eraseP (·.name == "comment")).tail := rfl
  cases herase : call.methods.eraseP (·.name == "comment") with
  | nil =>
    rw [keeps_of_none (hmethod.trans (by rw [herase]; rfl))]
    refine ⟨List.mem_cons.mpr (.inl ?_), rfl⟩
    rw [hchain, herase]
    rfl
  | cons m rest =>
    obtain ⟨hrest, hcomment⟩ := erase_head_eraseP herase
    have hremove : call.remove "comment" = ⟨m :: rest⟩ := congrArg Call.mk herase
    rw [keeps_of_some (hmethod.trans (by rw [herase]; rfl))]
    refine ⟨⟨?_, .inl ?_⟩, List.mem_cons.mpr (.inl ?_), ?_⟩
    · unfold ofCall
      rw [hremove]
      rfl
    · unfold ofCall
      rw [hremove]
      rfl
    · rw [hchain, herase, hrest]
      rfl
    · rw [hcomment]
      rfl

theorem keeps_plain (hid : key ≠ "id") (hnil : call.methods = []) : Keeps key call (plain key key) := by
  obtain ⟨methods⟩ := call
  obtain rfl : methods = [] := hnil
  have hmethod : typeMethod? key ⟨[]⟩ = none := by
    rw [typeMethod?, if_neg hid]
    split <;> rfl
  rw [keeps_of_none hmethod]
  exact ⟨List.mem_cons.mpr (.inl rfl), rfl⟩

/-! ## All columns -/

/-- A column that is accepted has all that its line gives, unless it stands under a key that gives up some of it. -/
theorem declared_keeps_iff {owner : Owner} (h : declared owner key call = .ok c) :
    Keeps key call c ↔ ∀ m, typeMethod? key call = some m → ¬GivesUp key m := by
  obtain ⟨_, rfl⟩ := declared_iff.mp h
  unfold ofLine
  by_cases hid : key = "id"
  · subst hid
    exact keeps_ofIdLine_iff
  by_cases huuid : key = "uuid"
  · subst huuid
    exact keeps_ofUuidLine_iff
  have hgives : ∀ m, ¬GivesUp key m := by simp [GivesUp, hid, huuid]
  refine iff_of_true ?_ fun m _ => hgives m
  rw [if_neg hid, if_neg huuid]
  split
  · rename_i hs
    exact keeps_ofShorthandLine hid hs
  · rename_i hs
    split
    · rename_i hempty
      exact keeps_plain hid (List.isEmpty_iff.mp hempty)
    · exact keeps_ofCall hid huuid hs

/-- A key that is named by the second argument of its type, between two comments. -/
def tokenLine : Call :=
  .parse "uuid:~,token comment:Secret unique comment:Once"

theorem token_kept : ∃ c, declared (.model "Token") "uuid" tokenLine = .ok c ∧ Keeps "uuid" tokenLine c ∧
    c = ⟨"token", "uuid", [], ⟨[.bare "unique", ⟨"comment", [.classRef "Once"]⟩, .bare "primary"]⟩, none, some "Secret"⟩ := by
  have hdeclared : declared (.model "Token") "uuid" tokenLine = .ok (ofLine "uuid" tokenLine) :=
    declared_iff.mpr ⟨by unfold Call.IndexedOnce; decide +kernel, rfl⟩
  have hmethod : typeMethod? "uuid" tokenLine = some ⟨"uuid", [.null, .string "token"]⟩ := by decide +kernel
  have hkeeps := (declared_keeps_iff hdeclared).mpr fun m hm => by
    obtain rfl := Option.some_inj.mp (hmethod.symm.trans hm)
    decide
  exact ⟨_, hdeclared, hkeeps, by decide +kernel⟩

/-- A key whose type has a length loses it, and one with a comment before its type has neither. -/
theorem keys_give_up :
    (∃ c, declared (.model "Country") "id" (.parse "char:code,2") = .ok c ∧ ¬Keeps "id" (.parse "char:code,2") c) ∧
      ∃ c, declared (.model "Country") "id" (.parse "comment:Code uuid") = .ok c ∧
        ¬Keeps "id" (.parse "comment:Code uuid") c := by
  constructor
  · have hcolumn : ofLine "id" (.parse "char:code,2") = ⟨"code", "char", [], ⟨[.bare "primary"]⟩, none, none⟩ := by
      decide +kernel
    have hmethod : typeMethod? "id" (.parse "char:code,2") = some ⟨"char", [.string "code", ⟨.numeric, "2"⟩]⟩ := by
      decide +kernel
    refine ⟨_, declared_iff.mpr ⟨by unfold Call.IndexedOnce; decide +kernel, rfl⟩, fun h => ?_⟩
    rw [hcolumn] at h
    obtain ⟨_, harguments | ⟨_, _, harguments⟩⟩ := h.type _ hmethod
    · exact absurd (congrArg List.length harguments) (by decide)
    · exact absurd (congrArg (List.length ∘ List.tail) harguments) (by simp [given, Argument.isNull, Argument.string])
  · have hcolumn : ofLine "id" (.parse "comment:Code uuid") =
        ⟨"Code", "", [], ⟨[.bare "uuid", .bare "primary"]⟩, none, none⟩ := by
      decide +kernel
    have hmethod : typeMethod? "id" (.parse "comment:Code uuid") = some ⟨"comment", [.classRef "Code"]⟩ := by decide +kernel
    refine ⟨_, declared_iff.mpr ⟨by unfold Call.IndexedOnce; decide +kernel, rfl⟩, fun h => ?_⟩
    rw [hcolumn] at h
    exact absurd (h.type _ hmethod).type (by decide)

end Schemata.Column
