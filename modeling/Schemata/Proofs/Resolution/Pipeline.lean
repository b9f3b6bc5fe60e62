import Schemata.Proofs.Resolution.Completion
import Schemata.Proofs.Resolution.Tables
import Schemata.Resolution.Pipeline

/-!
# Runs of the standard passes

How a run of the standard passes ends: with a cause in the schema, or with models and tables of which all of the above holds.
-/

namespace Schemata.Resolution

variable {settings : Settings} {schema : SchemaDeclaration} {d e : Draft}

theorem standardPasses_eq : standardPasses =
    modelPasses ++ [.finalizeModels, .explicitMigrations, .modelMigrations, .pivotMigrations, .artifacts] := rfl

theorem failsInSchema_artifacts : Resolve.FailsInSchema Pass.artifacts.body :=
  .update _

/-- Only the pass that completes the models can fail for a reason of its own. -/
theorem failsInSchema_of_mem : ∀ pass ∈ standardPasses,
    pass.name ≠ Pass.finalizeModels.name → Resolve.FailsInSchema pass.body := by
  unfold standardPasses
  simp only [List.forall_mem_cons]
  refine ⟨fun _ => failsInSchema_quickModels, fun _ => failsInSchema_modelShells,
    fun _ => failsInSchema_relationReservations, fun _ => failsInSchema_columns, fun _ => failsInSchema_belongsTo,
    fun _ => failsInSchema_belongsToMany, fun _ => failsInSchema_hasOneOrMany,
    fun _ => failsInSchema_hasOneOrManyThrough, fun _ => failsInSchema_morphTo, fun _ => failsInSchema_morphOneOrMany,
    fun _ => failsInSchema_morphToMany, fun _ => failsInSchema_pivotModels, fun _ => failsInSchema_morphColumns,
    fun _ => failsInSchema_modelAttributes, fun h => absurd rfl h, fun _ => failsInSchema_explicitMigrations,
    fun _ => failsInSchema_modelMigrations, fun _ => failsInSchema_pivotMigrations, fun _ => failsInSchema_artifacts, ?_⟩
  exact fun _ h => absurd h List.not_mem_nil

theorem before_finalizeModels {before after : List Pass} {pass : Pass} (h : standardPasses = before ++ pass :: after)
    (hn : pass.name = Pass.finalizeModels.name) : before = modelPasses ∧ pass = .finalizeModels := by
  have hnodup : (standardPasses.map Pass.name).Nodup := by decide
  have hlt : modelPasses.length < (standardPasses.map Pass.name).length := by decide
  have hat : (standardPasses.map Pass.name)[modelPasses.length]? = (standardPasses.map Pass.name)[before.length]? := by
    have hfirst : (standardPasses.map Pass.name)[modelPasses.length]? = some Pass.finalizeModels.name := rfl
    rw [hfirst, h]
    simp [hn]
  have hlen : modelPasses.length = before.length := (List.getElem?_inj hlt hnodup).mp hat
  obtain ⟨hb, hp⟩ := List.append_inj (h.symm.trans standardPasses_eq) hlen.symm
  exact ⟨hb, (List.cons.inj hp).1⟩

/-- The faults of a body in a run from the start are causes in the schema. -/
theorem cause_of_body {before after : List Pass} {pass : Pass} {fault : Fault}
    (h : standardPasses = before ++ pass :: after) (hb : Completes before (.start settings schema) d)
    (he : pass.body d = .error fault e) : ∃ cause, fault = .schema cause := by
  by_cases hn : pass.name = Pass.finalizeModels.name
  · obtain ⟨rfl, rfl⟩ := before_finalizeModels h hn
    obtain ⟨m, hm, hf⟩ := finalizeModels_error he
    obtain ⟨k, hk⟩ := OrderedMap.mem_values_iff.mp hm
    obtain ⟨hc, hr⟩ := (founded_of_modelPasses hb).2 k m hk
    exact checkComplete_error hc hr hf
  · have hmem : pass ∈ standardPasses := h ▸ List.mem_append_right _ List.mem_cons_self
    exact failsInSchema_of_mem pass hmem hn d e fault he

/-- What is left when all standard passes succeed: the models of a draft, and the tables made from it. -/
structure Settled (settings : Settings) (schema : SchemaDeclaration) (d e : Draft) : Prop where
  founded : Founded settings schema d
  course : ∃ c : Course settings schema, c.complete = d
  checked : ∀ m ∈ d.models.values, checkComplete m = .ok ()
  models : e.models = d.models
  tables : ∃ explicit pivots, ExplicitTables d explicit ∧ (∀ y ∈ pivots, y.2.table = y.1 ∧ IsGuessed y.2) ∧
    e.migrations.entries =
      explicit ++ ((d.models.values.filter (·.migration)).map fun m => (m.table, modelMigration m)) ++ pivots

theorem Settled.keyed {d e : Draft} (h : Settled settings schema d e) : e.Keyed := by
  unfold Draft.Keyed
  rw [h.models]
  exact h.founded.sound.keyed

theorem settled_of_modelPasses (hd : Completes modelPasses (.start settings schema) d)
    (h : Completes [.finalizeModels, .explicitMigrations, .modelMigrations, .pivotMigrations, .artifacts] d e) :
    Settled settings schema d e := by
  obtain ⟨d₁, h₁, d₂, h₂, d₃, h₃, d₄, h₄, d₅, h₅, rfl⟩ := h
  obtain ⟨hf, _⟩ := founded_of_modelPasses hd
  obtain ⟨rfl, hchecked⟩ := finalizeModels_ok h₁
  have hempty : d₁.migrations = .empty := by rw [hf.rest]; rfl
  obtain ⟨explicit, pivots, hexp, hpiv, hadd⟩ := tables_ok hempty hf.tables ⟨d₂, h₂, d₃, h₃, d₄, h₄, rfl⟩
  obtain ⟨f, _, h₅⟩ := bind_eq_ok.mp (Resolve.update_run_ok.mp h₅)
  obtain rfl := pure_eq_ok.mp h₅
  have hmodels : d₄.models = d₁.models := by rw [hadd.rest]
  have hentries := hadd.entries
  rw [hempty] at hentries
  exact ⟨hf, exists_course hd, hchecked, hmodels, explicit, pivots, hexp, hpiv, hentries⟩

/-- The passes of declared tables and of those of models leave the models as they are. -/
theorem exists_course_of_tables
    (h : Completes (modelPasses ++ [.finalizeModels, .explicitMigrations, .modelMigrations]) (.start settings schema) d) :
    ∃ c : Course settings schema, d.models = c.complete.models := by
  obtain ⟨e, he, d₁, h₁, d₂, h₂, d₃, h₃, rfl⟩ := completes_append.mp h
  obtain ⟨hf, _⟩ := founded_of_modelPasses he
  obtain ⟨c, rfl⟩ := exists_course he
  obtain ⟨rfl, _⟩ := finalizeModels_ok h₁
  have hempty : c.complete.migrations = .empty := by rw [hf.rest]; rfl
  obtain ⟨_, hexplicit, _⟩ := explicitMigrations_ok hempty h₂
  obtain rfl := Resolve.modify_run_ok.mp h₃
  have hmade := modelMigrations_ok (nodup_tables hempty hf.tables h₂)
  exact ⟨c, by rw [hmade.rest, hexplicit.rest]⟩

theorem settled_of_completes (h : Completes standardPasses (.start settings schema) e) :
    ∃ d, Settled settings schema d e := by
  rw [standardPasses_eq] at h
  obtain ⟨d, hd, h⟩ := completes_append.mp h
  exact ⟨d, settled_of_modelPasses hd h⟩

end Schemata.Resolution
