import Schemata.Resolution.Draft
import Schemata.Resolution.Stage

/-!
Passes and the runner. A pass names the stages that it needs and the stage that it completes. The runner refuses a pass
whose needs are not met, so that passes in a wrong order fail instead of resolving half a schema; a pass itself cannot see
or complete a stage.
-/

namespace Schemata.Resolution

structure Pass where
  name : String
  requires : List Stage
  provides : Stage
  body : Resolve Unit

/-- A draft with the stages that are complete. -/
structure Progress where
  draft : Draft
  completed : List Stage

namespace Progress

def start (settings : Settings) (schema : SchemaDeclaration) : Progress :=
  ⟨.start settings schema, []⟩

def has (p : Progress) (s : Stage) : Bool :=
  p.completed.contains s

/-- The completed stages, in the order of all stages. -/
def stages (p : Progress) : List Stage :=
  Stage.all.filter p.has

end Progress

/-- The end of a run: what was reached, and the fault that stopped it. -/
structure Outcome where
  progress : Progress
  fault : Option Fault

/-- The first stage that a pass needs and that is not complete. -/
def Pass.missing? (pass : Pass) (p : Progress) : Option Stage :=
  pass.requires.find? (!p.has ·)

/-- Runs one pass. A pass that fails keeps what it has written, and completes nothing. -/
def Pass.run (pass : Pass) (p : Progress) : Outcome :=
  match pass.missing? p with
  | some stage => ⟨p, some (.order (.missingStage pass.name stage.name))⟩
  | none =>
    match pass.body p.draft with
    | .ok _ draft => ⟨⟨draft, p.completed ++ [pass.provides]⟩, none⟩
    | .error fault draft => ⟨⟨draft, p.completed⟩, some fault⟩

/-- Runs passes in order and stops at the first fault. -/
def runAll : List Pass → Progress → Outcome
  | [], p => ⟨p, none⟩
  | pass :: rest, p =>
    match pass.run p with
    | ⟨q, none⟩ => runAll rest q
    | stopped => stopped

theorem runAll_append (first second : List Pass) (p : Progress) :
    runAll (first ++ second) p = match runAll first p with
      | ⟨q, none⟩ => runAll second q
      | stopped => stopped := by
  induction first generalizing p with
  | nil => rfl
  | cons pass rest ih =>
    simp only [List.cons_append, runAll]
    split
    · exact ih _
    · split
      · simp_all
      · rfl

/-- The passes up to the one of that name, or all if there is none. -/
def takeUntil (passes : List Pass) (last : String) : List Pass :=
  match passes.findIdx? (·.name == last) with
  | some i => passes.take (i + 1)
  | none => passes

end Schemata.Resolution
