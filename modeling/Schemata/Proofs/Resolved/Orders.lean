import Schemata.Proofs.Resolution.Orders
import Schemata.Proofs.Resolved.Basic

/-!
# The standard passes in other orders

The stages that passes ask for are not all that they need. In an order in which each pass finds what it needs beyond, the passes
succeed or fail as they do in the standard order.
-/

namespace Schemata.Resolved

open Resolution

/-- In any order in which the keys of pivot models come after those of `belongsTo` relations, and the attributes after all relations,
the passes succeed with a schema if they do so in the standard order, and only then. -/
theorem runAll_reordered {passes : List Pass} (hperm : passes.Perm standardPasses) (hs : Suits [] passes) (settings : Settings)
    (schema : SchemaDeclaration) : (runAll passes (.start settings schema)).fault = none ↔
      (runAll standardPasses (.start settings schema)).fault = none := by
  rw [fault_eq_none_iff hs.areOrdered, fault_eq_none_iff areOrdered_standardPasses]
  exact ⟨fun ⟨_, he⟩ => exists_completes_reordered hperm (.refl _) hs suits_standardPasses he,
    fun ⟨_, he⟩ => exists_completes_reordered (.refl _) hperm suits_standardPasses hs he⟩

/-- Relations that have parents of many kinds come before all others. -/
def pointersFirst : List Pass :=
  [.quickModels, .modelShells, .relationReservations, .columns, .morphTo, .morphOneOrMany, .morphToMany, .belongsTo, .belongsToMany,
   .hasOneOrMany, .hasOneOrManyThrough, .pivotModels, .morphColumns, .modelAttributes, .finalizeModels, .explicitMigrations,
   .modelMigrations, .pivotMigrations, .artifacts]

theorem blog_pointersFirst : pointersFirst.Perm standardPasses ∧ Suits [] pointersFirst ∧
    (runAll standardPasses (.start (settingsFor .standard blog) blog)).fault = none ∧
    (runAll pointersFirst (.start (settingsFor .standard blog) blog)).fault = none := by
  let pointing : List Pass := [.morphTo, .morphOneOrMany, .morphToMany]
  let owning : List Pass := [.belongsTo, .belongsToMany, .hasOneOrMany, .hasOneOrManyThrough]
  have hlinks : (pointing ++ owning).Perm (owning ++ pointing) := List.perm_append_comm
  have hperm : pointersFirst.Perm standardPasses :=
    (hlinks.append_left firstPasses).append_right (Pass.pivotModels :: .morphColumns :: lastPasses)
  have hs : Suits [] pointersFirst := by
    unfold Suits
    decide
  have hblog : (runAll standardPasses (.start (settingsFor .standard blog) blog)).fault.isNone = true := by decide +kernel
  have hstandard := Option.isNone_iff_eq_none.mp hblog
  exact ⟨hperm, hs, hstandard, (runAll_reordered hperm hs _ _).mpr hstandard⟩

/-! ## Orders that ask for too little -/

/-- The check of pivot models comes before the `belongsTo` relations that it looks for. -/
def pivotModelsEarly : List Pass :=
  [.quickModels, .modelShells, .relationReservations, .columns, .belongsToMany, .morphTo, .morphOneOrMany, .morphToMany, .pivotModels,
   .belongsTo, .hasOneOrMany, .hasOneOrManyThrough, .morphColumns, .modelAttributes, .finalizeModels, .explicitMigrations,
   .modelMigrations, .pivotMigrations, .artifacts]

/-- The check of eager loads comes before some of the relations that may be loaded. -/
def attributesEarly : List Pass :=
  [.quickModels, .modelShells, .relationReservations, .columns, .belongsTo, .belongsToMany, .morphTo, .morphOneOrMany, .morphToMany,
   .pivotModels, .morphColumns, .modelAttributes, .hasOneOrMany, .hasOneOrManyThrough, .finalizeModels, .explicitMigrations,
   .modelMigrations, .pivotMigrations, .artifacts]

/-- A schema with a pivot model, and with a model that loads another eagerly. -/
def team : SchemaDeclaration where
  rootNamespace := none
  models := .ofList [("User", declaredByLines [("roles", "belongsToMany using:Membership")]),
    ("Role", declaredByLines [("label", "string")]),
    ("Membership", declaredByLines [("user", "belongsTo"), ("role", "belongsTo")])]
  migrations := .empty

def reader : SchemaDeclaration where
  rootNamespace := none
  models := .ofList [
    ("User", .map [(.str "columns", declaredByLines [("id", "id"), ("posts", "hasMany")]), (.str "with", .seq [.str "posts"])]),
    ("Post", declaredByLines [("user", "belongsTo")])]
  migrations := .empty

theorem fails_in_order :
    (pivotModelsEarly.Perm standardPasses ∧ areOrdered [] pivotModelsEarly = true ∧
      (runAll standardPasses (.start (settingsFor .standard team) team)).fault = none ∧
      (runAll pivotModelsEarly (.start (settingsFor .standard team) team)).fault ≠ none) ∧
    attributesEarly.Perm standardPasses ∧ areOrdered [] attributesEarly = true ∧
      (runAll standardPasses (.start (settingsFor .standard reader) reader)).fault = none ∧
      (runAll attributesEarly (.start (settingsFor .standard reader) reader)).fault ≠ none := by
  let having : List Pass := [.hasOneOrMany, .hasOneOrManyThrough]
  let pointing : List Pass := [.morphTo, .morphOneOrMany, .morphToMany, .pivotModels]
  let paired : List Pass := pointing ++ [.morphColumns, .modelAttributes]
  have hpivots : (Pass.belongsToMany :: (pointing ++ .belongsTo :: having)).Perm (.belongsTo :: .belongsToMany :: (having ++ pointing)) :=
    (List.perm_middle.cons _).trans ((List.Perm.swap ..).trans ((List.perm_append_comm.cons _).cons _))
  have hloads : (paired ++ having).Perm (having ++ paired) := List.perm_append_comm
  have hteam : (runAll standardPasses (.start (settingsFor .standard team) team)).fault.isNone = true := by decide +kernel
  have hteam' : (runAll pivotModelsEarly (.start (settingsFor .standard team) team)).fault.isSome = true := by decide +kernel
  have hreader : (runAll standardPasses (.start (settingsFor .standard reader) reader)).fault.isNone = true := by decide +kernel
  have hreader' : (runAll attributesEarly (.start (settingsFor .standard reader) reader)).fault.isSome = true := by decide +kernel
  exact ⟨⟨(hpivots.append_left firstPasses).append_right (Pass.morphColumns :: lastPasses), by decide,
      Option.isNone_iff_eq_none.mp hteam, Option.isSome_iff_ne_none.mp hteam'⟩,
    (hloads.append_left (firstPasses ++ [Pass.belongsTo, .belongsToMany])).append_right lastPasses.tail, by decide,
    Option.isNone_iff_eq_none.mp hreader, Option.isSome_iff_ne_none.mp hreader'⟩

end Schemata.Resolved
