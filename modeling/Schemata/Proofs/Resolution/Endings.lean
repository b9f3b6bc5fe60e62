import Schemata.Proofs.Resolution.Run

/-!
# How runs end

A run goes through the passes that find their stages complete and whose bodies succeed, and ends at the first one that does not. This
holds of any passes, in any order and from any progress.
-/

namespace Schemata.Resolution

variable {passes rest : List Pass} {pass : Pass} {p q : Progress} {o : Outcome}

/-! ## Passes that have run -/

theorem Progress.has_iff {stage : Stage} : p.has stage = true ↔ stage ∈ p.completed :=
  List.contains_iff_mem

/-- Passes have run one after the other: each has found the stages that it needs, which were complete at the start or by a pass before
it, its body has succeeded, and its stage is complete. -/
structure Ran (passes : List Pass) (p q : Progress) : Prop where
  ready : ∀ before pass after, passes = before ++ pass :: after → ∀ stage ∈ pass.requires,
    p.has stage = true ∨ ∃ x ∈ before, x.provides = stage
  bodies : Completes passes p.draft q.draft
  completed : q.completed = p.completed ++ passes.map Pass.provides

theorem Ran.has_iff (h : Ran passes p q) {stage : Stage} :
    q.has stage = true ↔ p.has stage = true ∨ ∃ x ∈ passes, x.provides = stage := by
  rw [Progress.has_iff, Progress.has_iff, h.completed, List.mem_append, List.mem_map]

theorem ran_nil : Ran [] p q ↔ q = p := by
  constructor
  · rintro ⟨_, hbodies, hcompleted⟩
    cases p
    cases q
    simp_all [Completes]
  · rintro rfl
    exact ⟨fun before pass after h => absurd h (by simp), rfl, (List.append_nil _).symm⟩

/-- What a pass finds after the first one is what it finds from the start with the stage of the first one. -/
theorem ran_cons : Ran (pass :: rest) p q ↔
    pass.missing? p = none ∧ ∃ e, pass.body p.draft = .ok () e ∧ Ran rest ⟨e, p.completed ++ [pass.provides]⟩ q := by
  rw [Pass.missing?_eq_none_iff]
  constructor
  · rintro ⟨hready, ⟨e, he, hbodies⟩, hcompleted⟩
    refine ⟨fun stage hs => ?_, e, he, fun before x after heq stage hs => ?_, hbodies, by simpa using hcompleted⟩
    · simpa using hready [] pass rest rfl stage hs
    · rcases hready (pass :: before) x after (by rw [heq]; rfl) stage hs with h | ⟨y, hy, hprovides⟩
      · exact .inl (Progress.has_iff.mpr (List.mem_append_left _ (Progress.has_iff.mp h)))
      · rcases List.mem_cons.mp hy with rfl | hy
        · exact .inl (Progress.has_iff.mpr (by simp [hprovides]))
        · exact .inr ⟨y, hy, hprovides⟩
  · rintro ⟨hfirst, e, he, hready, hbodies, hcompleted⟩
    refine ⟨fun before x after heq stage hs => ?_, ⟨e, he, hbodies⟩, by simpa using hcompleted⟩
    cases before with
    | nil =>
      obtain ⟨rfl, rfl⟩ := List.cons.inj heq
      exact .inl (hfirst stage hs)
    | cons y before =>
      obtain ⟨rfl, rfl⟩ := List.cons.inj heq
      rcases hready before x after rfl stage hs with h | ⟨z, hz, hprovides⟩
      · rcases List.mem_append.mp (Progress.has_iff.mp h) with h | h
        · exact .inl (Progress.has_iff.mpr h)
        · exact .inr ⟨pass, List.mem_cons_self, (List.mem_singleton.mp h).symm⟩
      · exact .inr ⟨z, List.mem_cons_of_mem pass hz, hprovides⟩

theorem runAll_eq_none_iff : runAll passes p = ⟨q, none⟩ ↔ Ran passes p q := by
  induction passes generalizing p with
  | nil => simp [runAll, ran_nil, eq_comm]
  | cons pass rest ih =>
    rw [ran_cons]
    cases hr : pass.run p with
    | mk r fault =>
    cases fault with
    | none =>
      obtain ⟨hm, e, he, rfl⟩ := Pass.run_none.mp hr
      simp [runAll, hr, ih, hm, he]
    | some fault =>
      have hno : ¬(pass.missing? p = none ∧ ∃ e, pass.body p.draft = .ok () e ∧
          Ran rest ⟨e, p.completed ++ [pass.provides]⟩ q) := by
        rintro ⟨hm, e, he, _⟩
        rw [Pass.run_none.mpr ⟨hm, e, he, rfl⟩] at hr
        cases hr
      simp [runAll, hr, hno]

/-! ## The end of a run -/

/-- How a run ends with the passes that are left: none are, or the first of them misses a stage and does not run, or its body fails. The
stage of the first pass is not complete then, and no other pass runs. -/
inductive Ends (q : Progress) : List Pass → Outcome → Prop
  | through : Ends q [] ⟨q, none⟩
  | refused {pass rest before stage after} : pass.requires = before ++ stage :: after → (∀ x ∈ before, q.has x = true) →
      q.has stage = false → Ends q (pass :: rest) ⟨q, some (.order (.missingStage pass.name stage.name))⟩
  | failed {pass rest fault e} : (∀ x ∈ pass.requires, q.has x = true) → pass.body q.draft = .error fault e →
      Ends q (pass :: rest) ⟨⟨e, q.completed⟩, some fault⟩

theorem Pass.missing?_eq_some_iff {stage : Stage} : pass.missing? p = some stage ↔ p.has stage = false ∧
    ∃ before after, pass.requires = before ++ stage :: after ∧ ∀ x ∈ before, p.has x = true := by
  simp [missing?, List.find?_eq_some_iff_append]

/-- A pass that does not complete ends the run, whatever stands behind it. -/
theorem ends_cons_iff : Ends p (pass :: rest) o ↔ pass.run p = o ∧ o.fault ≠ none := by
  constructor
  · rintro (_ | ⟨hrequires, hbefore, hstage⟩ | ⟨hready, he⟩)
    · have hm := Pass.missing?_eq_some_iff.mpr ⟨hstage, _, _, hrequires, hbefore⟩
      simp [Pass.run, hm]
    · simp [Pass.run, Pass.missing?_eq_none_iff.mpr hready, he]
  · rintro ⟨rfl, hfault⟩
    unfold Pass.run at hfault ⊢
    cases hm : pass.missing? p with
    | some stage =>
      obtain ⟨hstage, before, after, hrequires, hbefore⟩ := Pass.missing?_eq_some_iff.mp hm
      exact .refused hrequires hbefore hstage
    | none =>
      rw [hm] at hfault
      cases he : pass.body p.draft with
      | ok u e => rw [he] at hfault; exact absurd rfl hfault
      | error fault e => exact .failed (Pass.missing?_eq_none_iff.mp hm) he

/-- A run is what its passes come to up to the first one that does not complete, and how it ends there. -/
theorem runAll_eq_iff : runAll passes p = o ↔ ∃ done rest q, passes = done ++ rest ∧ Ran done p q ∧ Ends q rest o := by
  constructor
  · rintro rfl
    induction passes generalizing p with
    | nil => exact ⟨[], [], p, rfl, ran_nil.mpr rfl, .through⟩
    | cons pass rest ih =>
      cases hr : pass.run p with
      | mk r fault =>
      cases fault with
      | none =>
        obtain ⟨hm, e, he, rfl⟩ := Pass.run_none.mp hr
        obtain ⟨done, left, q, rfl, hran, hends⟩ := ih (p := ⟨e, p.completed ++ [pass.provides]⟩)
        exact ⟨pass :: done, left, q, rfl, ran_cons.mpr ⟨hm, e, he, hran⟩, by simpa only [runAll, hr] using hends⟩
      | some fault =>
        refine ⟨[], pass :: rest, p, rfl, ran_nil.mpr rfl, ends_cons_iff.mpr ?_⟩
        simp [runAll, hr]
  · rintro ⟨done, rest, q, rfl, hran, hends⟩
    rw [runAll_append, runAll_eq_none_iff.mpr hran]
    cases rest with
    | nil => cases hends; rfl
    | cons pass rest =>
      obtain ⟨hr, hfault⟩ := ends_cons_iff.mp hends
      obtain ⟨r, _ | fault⟩ := o
      · exact absurd rfl hfault
      · simp [runAll, hr]

/-- A run completes the passes up to the first one that misses a stage or whose body fails, and no others: each of them finds the stages
that it needs, complete at the start or by one before it. What is complete in the end is what was complete at the start and what
those passes complete. This says of any passes, from any progress, how their run ends. -/
theorem runs_up_to_first_fault (passes : List Pass) (p : Progress) (o : Outcome) :
    runAll passes p = o ↔ ∃ done rest q, passes = done ++ rest ∧ Ran done p q ∧ Ends q rest o ∧
      ∀ stage, o.progress.has stage = true ↔ p.has stage = true ∨ ∃ pass ∈ done, pass.provides = stage := by
  rw [runAll_eq_iff]
  constructor
  · rintro ⟨done, rest, q, hpasses, hran, hends⟩
    refine ⟨done, rest, q, hpasses, hran, hends, fun stage => ?_⟩
    rw [← hran.has_iff]
    cases hends <;> exact Iff.rfl
  · rintro ⟨done, rest, q, hpasses, hran, hends, _⟩
    exact ⟨done, rest, q, hpasses, hran, hends⟩

end Schemata.Resolution
