import Schemata.Proofs.Result
import Schemata.Table.Classification

/-!
# Columns of one table

The physical names and qualifiers of a column, and what it means for columns that they pass the checks of a table.
-/

namespace Schemata

open Schemata.Shorthand

/-! ## Qualifiers -/

/-- Whether qualifiers do not ask for an index and a unique index at once. -/
def Shorthand.Call.IndexedOnce (c : Call) : Prop :=
  ¬(c.has "index" = true ∧ c.has "unique" = true)

theorem Shorthand.Call.IndexedOnce.of_subset {c d : Call} (h : d.IndexedOnce) (hs : c.methods ⊆ d.methods) :
    c.IndexedOnce := by
  have has : ∀ name, c.has name = true → d.has name = true := by
    intro name hc
    obtain ⟨m, hm, hn⟩ := List.any_eq_true.mp hc
    exact List.any_eq_true.mpr ⟨m, hs hm, hn⟩
  exact fun hc => h ⟨has _ hc.1, has _ hc.2⟩

namespace Column

variable {c : Column}

theorem declared_iff {owner : Owner} {key : String} {call : Call} :
    declared owner key call = .ok c ↔ c.methods.IndexedOnce ∧ c = ofLine key call := by
  unfold declared
  dsimp only
  split
  · rename_i hboth
    refine ⟨fun h => absurd h throw_ne_ok, ?_⟩
    rintro ⟨hindexed, rfl⟩
    exact absurd (Bool.and_eq_true_iff.mp hboth) hindexed
  · rename_i hnot
    refine pure_eq_ok.trans ⟨?_, fun h => h.2.symm⟩
    rintro rfl
    exact ⟨fun hboth => hnot (Bool.and_eq_true_iff.mpr hboth), rfl⟩

/-- The chain of a built column has only methods that follow the type. -/
theorem methods_ofCall_single (name method : String) (arguments : List Argument) (qualifiers : Call) :
    (ofCall name (.single method arguments ++ qualifiers)).methods.methods ⊆ qualifiers.methods := by
  change ((((⟨method, arguments⟩ : Method) :: qualifiers.methods).eraseP (·.name == "comment")).tail) ⊆ _
  by_cases hc : method = "comment"
  · rw [List.eraseP_cons_of_pos (by simp [hc])]
    exact (List.tail_sublist _).subset
  · rw [List.eraseP_cons_of_neg (by simp [hc])]
    exact List.eraseP_subset

/-- A built column has its type method and arguments from its builder, unless the builder passes for a comment. -/
theorem builder_ofCall_single {method : String} (h : method ≠ "comment") (name : String) (arguments : List Argument)
    (qualifiers : Call) : (ofCall name (.single method arguments ++ qualifiers)).type = method ∧
      (ofCall name (.single method arguments ++ qualifiers)).arguments = arguments := by
  have hremove : (Call.single method arguments ++ qualifiers).remove "comment" =
      ⟨⟨method, arguments⟩ :: qualifiers.methods.eraseP (·.name == "comment")⟩ :=
    congrArg Call.mk (List.eraseP_cons_of_neg (by simpa using h))
  unfold ofCall
  rw [hremove]
  exact ⟨rfl, rfl⟩

/-- A column apart from the relation that it is marked for. -/
def untagged (c : Column) : Column :=
  { c with relation := none }

/-- What pays no heed to the mark is the same of columns that are the same apart from it. -/
theorem congr_untagged {β : Type} {g : Column → β} (hg : ∀ c, g c.untagged = g c) {c' : Column} (h : c'.untagged = c.untagged) :
    g c' = g c := by
  rw [← hg, h, hg]

theorem name_eq_of_untagged {c' : Column} (h : c'.untagged = c.untagged) : c'.name = c.name :=
  congr_untagged (fun _ => rfl) h

theorem foreignMethod_eq_of_untagged {c' : Column} (h : c'.untagged = c.untagged) : c'.foreignMethod = c.foreignMethod :=
  congr_untagged (fun _ => rfl) h

theorem isPrimary_of_isAutoIncrement (h : c.isAutoIncrement = true) : c.isPrimary = true := by
  simp [isPrimary, h]

/-! ## Physical names -/

theorem physicalNames_nodup (c : Column) : c.physicalNames.Nodup := by
  unfold physicalNames
  split
  · decide
  · split
    · simp
    · exact List.pairwise_singleton _ _

/-- A column is there by its own name, unless it stands for others. -/
theorem name_mem_physicalNames (c : Column) :
    c.name ∈ c.physicalNames ∨ c.isTimestamps = true ∨ c.isMorphs = true := by
  unfold physicalNames
  split
  · rename_i ht
    exact .inr (.inl ht)
  · split
    · rename_i hm
      exact .inr (.inr hm)
    · exact .inl List.mem_cons_self

theorem name_mem_of_isSoftDeletes (h : c.isSoftDeletes = true) : c.name ∈ c.physicalNames := by
  have hmem : c.type = "softDeletes" ∨ c.type = "softDeletesTz" := by simpa [isSoftDeletes, softDeletesTypes] using h
  rcases c.name_mem_physicalNames with hname | hspread
  · exact hname
  · exfalso
    rcases hmem with ht | ht <;> simp [isTimestamps, isMorphs, timestampsTypes, morphsTypes, ht] at hspread

/-- A column that is cast is one physical column. -/
theorem physicalNames_of_castType? {cast : String} (h : c.castType? = some cast) : c.physicalNames = [c.name] := by
  unfold castType? at h
  split at h
  · cases h
  · rename_i hcast
    have htimestamps : c.isTimestamps = false := by
      rw [Bool.eq_false_iff]
      intro ht
      exact hcast (by simp [isShorthand, shorthandName?, isTimestamps] at ht ⊢; simp [ht])
    have hmorphs : c.isMorphs = false := by
      rw [Bool.eq_false_iff]
      intro hm
      have hmem : c.type ∈ morphsTypes := by simpa [isMorphs] using hm
      simp only [morphsTypes, List.mem_cons, List.not_mem_nil, or_false] at hmem
      rcases hmem with ht | ht | ht | ht <;> rw [ht] at h <;> simp [integerTypes, dateTimeTypes] at h
    simp [physicalNames, htimestamps, hmorphs]

end Column

/-! ## Checks -/

/-- What is true of the columns of a table that can be created. -/
structure Creatable (columns : List Column) : Prop where
  names : (columns.flatMap Column.physicalNames).Nodup
  primary : columns.countP Column.isPrimary ≤ 1
  autoIncrement : columns.countP Column.isAutoIncrement ≤ 1
  indexes : ∀ c ∈ columns, ¬(c.hasIndex = true ∧ c.isUnique = true)

variable {owner : Owner} {columns : List Column}

theorem checkPhysicalAfter_ok {names : List String} {primary : Option String} (hn : names.Nodup)
    (h : checkPhysicalAfter owner names primary columns = .ok ()) :
    (names ++ columns.flatMap Column.physicalNames).Nodup ∧
      (primary.isSome → columns.countP Column.isPrimary = 0) ∧ columns.countP Column.isPrimary ≤ 1 := by
  induction columns generalizing names primary with
  | nil => simpa using hn
  | cons c rest ih =>
    unfold checkPhysicalAfter at h
    split at h
    · exact absurd h throw_ne_ok
    · rename_i hf
      have hd : (names ++ c.physicalNames).Nodup := by
        refine List.nodup_append.mpr ⟨hn, c.physicalNames_nodup, ?_⟩
        rintro a ha b hb rfl
        exact List.find?_eq_none.mp hf a hb (List.contains_iff_mem.mpr ha)
      rw [List.flatMap_cons, ← List.append_assoc]
      split at h
      · rename_i hp
        cases primary with
        | some first => exact absurd h throw_ne_ok
        | none =>
          obtain ⟨h₁, h₂, _⟩ := ih hd h
          refine ⟨h₁, by simp, Nat.le_of_eq ?_⟩
          rw [List.countP_cons_of_pos hp, h₂ rfl]
      · rename_i hp
        rw [List.countP_cons_of_neg hp]
        exact ih hd h

theorem checkPhysicalAfter_of_nodup {names : List String} {primary : Option String}
    (hn : (names ++ columns.flatMap Column.physicalNames).Nodup) (hp : primary.isSome → columns.countP Column.isPrimary = 0)
    (h : columns.countP Column.isPrimary ≤ 1) : checkPhysicalAfter owner names primary columns = .ok () := by
  induction columns generalizing names primary with
  | nil => rfl
  | cons c rest ih =>
    rw [List.flatMap_cons, ← List.append_assoc] at hn
    have hnone : c.physicalNames.find? names.contains = none := by
      refine List.find?_eq_none.mpr fun x hx hmem => ?_
      exact (List.nodup_append.mp (List.nodup_append.mp hn).1).2.2 x (List.contains_iff_mem.mp hmem) x hx rfl
    unfold checkPhysicalAfter
    rw [hnone]
    dsimp only
    by_cases hc : c.isPrimary = true
    · rw [List.countP_cons_of_pos hc] at hp h
      cases primary with
      | some first => exact absurd (hp rfl) (Nat.succ_ne_zero _)
      | none =>
        rw [if_pos hc]
        exact ih hn (fun _ => by omega) (by omega)
    · rw [List.countP_cons_of_neg hc] at hp h
      rw [if_neg hc]
      exact ih hn hp h

theorem creatable_of_checkPhysical (h : checkPhysical owner columns = .ok ())
    (hi : ∀ c ∈ columns, c.methods.IndexedOnce) : Creatable columns := by
  obtain ⟨hn, _, hp⟩ := checkPhysicalAfter_ok List.nodup_nil h
  have ha : columns.countP Column.isAutoIncrement ≤ columns.countP Column.isPrimary :=
    List.countP_mono_left fun c _ => Column.isPrimary_of_isAutoIncrement
  exact ⟨hn, hp, Nat.le_trans ha hp, hi⟩

/-- The columns that can be created are those that pass the checks, whoever owns them. -/
theorem creatable_iff (owner : Owner) : Creatable columns ↔ (∀ c ∈ columns, c.methods.IndexedOnce) ∧
    checkAutoIncrement owner columns = .ok () ∧ checkPhysical owner columns = .ok () := by
  constructor
  · intro h
    refine ⟨h.indexes, ?_, checkPhysicalAfter_of_nodup h.names (by simp) h.primary⟩
    unfold checkAutoIncrement
    rw [if_neg (Nat.not_lt.mpr h.autoIncrement)]
    rfl
  · rintro ⟨hindexed, _, hphysical⟩
    exact creatable_of_checkPhysical hphysical hindexed

end Schemata
