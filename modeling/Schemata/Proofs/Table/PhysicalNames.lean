import Schemata.Proofs.Column

/-!
# Physical columns of a builder call

What columns a builder call makes depends on whether it is given a name. The physical names of a column are those of its
call, unless its type is `rememberToken` and its name another.
-/

namespace Schemata.Column

open Schemata.Shorthand

/-! ## Builder calls -/

/-- The columns of a builder call that is not given a name. Most builders need one. -/
def ownNames (type : String) : List String :=
  if type = "id" then ["id"]
  else if timestampsTypes.contains type then ["created_at", "updated_at"]
  else if softDeletesTypes.contains type then ["deleted_at"]
  else if type = "rememberToken" then ["remember_token"]
  else []

/-- The columns of a builder call, which has a name for its first argument or goes without. Further arguments name none. -/
def made (type : String) (name : Option String) : List String :=
  name.elim (ownNames type) fun name => if morphsTypes.contains type then [name ++ "_type", name ++ "_id"] else [name]

variable {c : Column}

/-- The name that the builder call of a column is given. -/
def nameArgument? (c : Column) : Option String :=
  if c.isNamed then some c.name else none

theorem statement_eq (c : Column) : c.statement = "$table" ++
    (Call.single c.type (c.nameArgument?.toList.map Argument.string ++ c.arguments) ++ c.methods ++ commentCall c.comment).render := by
  unfold statement nameArgument?
  split <;> rfl

/-- The builders that go without a name: shorthands whose names are fixed, and others where the name is that which they have
anyway. -/
theorem isNamed_eq_false_iff : c.isNamed = false ↔
    c.isTimestamps = true ∨ c.type = "rememberToken" ∨ (c.isSoftDeletes = true ∧ c.name = "deleted_at") ∨
      (c.type = "id" ∧ c.name = "id") := by
  unfold isNamed shorthandName? isTimestamps isSoftDeletes
  simp only [List.contains_iff_mem]
  by_cases ht : c.type ∈ timestampsTypes
  · simp [ht]
  by_cases hs : c.type ∈ softDeletesTypes
  · have htype : c.type = "softDeletes" ∨ c.type = "softDeletesTz" := by simpa [softDeletesTypes] using hs
    rcases htype with h | h <;> simp [h, timestampsTypes, softDeletesTypes]
  by_cases hr : c.type = "rememberToken"
  · simp [hr, timestampsTypes, softDeletesTypes]
  · simp [ht, hs, hr]

/-! ## Physical names -/

/-- Types other than those of timestamps and pairs are for a column of the name that they are given. -/
theorem physicalNames_of_type (ht : c.type ∉ timestampsTypes) (hm : c.type ∉ morphsTypes) : c.physicalNames = [c.name] := by
  unfold physicalNames isTimestamps isMorphs
  simp [ht, hm]

theorem physicalNames_of_isNamed (h : c.isNamed = true) : c.physicalNames = made c.type (some c.name) := by
  have htimestamps : ¬c.isTimestamps = true := fun ht => by
    rw [isNamed_eq_false_iff.mpr (.inl ht)] at h
    cases h
  unfold physicalNames
  rw [if_neg htimestamps]
  rfl

theorem physicalNames_of_not_isNamed (h : c.isNamed = false) (hr : c.type ≠ "rememberToken") :
    c.physicalNames = made c.type none := by
  rcases isNamed_eq_false_iff.mp h with ht | hr' | ⟨hs, hname⟩ | ⟨hid, hname⟩
  · have hid : c.type ≠ "id" := by
      intro hid
      rw [isTimestamps, hid] at ht
      exact absurd ht (by decide)
    unfold physicalNames made
    rw [if_pos ht, Option.elim_none, ownNames, if_neg hid]
    exact (if_pos ht).symm
  · exact absurd hr' hr
  · have htype : c.type = "softDeletes" ∨ c.type = "softDeletesTz" := by simpa [isSoftDeletes, softDeletesTypes] using hs
    have hnames : c.physicalNames = [c.name] := by
      rcases htype with htype | htype <;> exact physicalNames_of_type (by rw [htype]; decide) (by rw [htype]; decide)
    rw [hnames, hname]
    rcases htype with htype | htype <;> rw [htype] <;> decide
  · rw [physicalNames_of_type (by rw [hid]; decide) (by rw [hid]; decide), hid, hname]
    decide

/-- The physical names of a column are the columns that its builder call makes, but for a `rememberToken` of another name. -/
theorem physicalNames_eq_made_iff (c : Column) :
    c.statement = "$table" ++ (Call.single c.type (c.nameArgument?.toList.map Argument.string ++ c.arguments) ++ c.methods ++
      commentCall c.comment).render ∧
    (c.physicalNames = made c.type c.nameArgument? ↔ (c.type = "rememberToken" → c.name = "remember_token")) := by
  refine ⟨c.statement_eq, ?_⟩
  unfold nameArgument?
  by_cases hr : c.type = "rememberToken"
  · rw [isNamed_eq_false_iff.mpr (.inr (.inl hr)), if_neg Bool.false_ne_true,
      physicalNames_of_type (by rw [hr]; decide) (by rw [hr]; decide), hr]
    have hmade : made "rememberToken" none = ["remember_token"] := by decide
    simp [hmade]
  · refine iff_of_true ?_ fun h => absurd h hr
    cases hn : c.isNamed with
    | true => exact physicalNames_of_isNamed hn
    | false => exact physicalNames_of_not_isNamed hn hr

/-- Two columns of the type `rememberToken`, which goes without a name. -/
def tokenColumns : List Column :=
  [ofCall "web_token" (.parse "rememberToken"), ofCall "api_token" (.parse "rememberToken")]

/-- Both columns come to be `remember_token`, but their physical names are others, and the checks of a table let them pass. -/
theorem tokenColumns_made_once : tokenColumns.map statement = ["$table->rememberToken()", "$table->rememberToken()"] ∧
    tokenColumns.map (fun c => made c.type c.nameArgument?) = [["remember_token"], ["remember_token"]] ∧
    tokenColumns.map physicalNames = [["web_token"], ["api_token"]] ∧
    (checkPhysical (.migration "users") tokenColumns).toOption = some () := by
  decide +kernel

end Schemata.Column
