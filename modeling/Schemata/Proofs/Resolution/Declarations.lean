import Schemata.Proofs.OrderedMap
import Schemata.Proofs.Result
import Schemata.Resolution.Declarations

/-!
# Declarations of models

A key is added only by a quick declaration, where it is the first of the columns and nothing else is said of the key.
-/

namespace Schemata.Resolution

open Declaration

variable {s t : ModelDeclaration} {key : String}

/-! ## Declarations in blocks -/

theorem foldFields_keeps {σ : Type} {P : σ → Prop} {readField : σ → String → Yaml → Read σ}
    (step : ∀ {s name y t}, readField s name y = .ok t → P s → P t) {seen : List String} {s t : σ}
    {fields : List (Yaml × Yaml)} (h : foldFields readField seen s fields = .ok t) (hs : P s) : P t := by
  induction fields generalizing seen s with
  | nil => exact pure_eq_ok.mp h ▸ hs
  | cons field rest ih =>
    obtain ⟨k, v⟩ := field
    obtain ⟨name, _, h⟩ := bind_eq_ok.mp h
    split at h
    · exact absurd h throw_ne_ok
    · obtain ⟨next, hnext, h⟩ := bind_eq_ok.mp h
      exact ih h (step hnext hs)

theorem autoId_readField {name : String} {y : Yaml} (h : s.readField name y = .ok t) : t.autoId = s.autoId := by
  unfold ModelDeclaration.readField at h
  split at h
  all_goals first
    | exact absurd h throw_ne_ok
    | obtain ⟨_, _, h⟩ := bind_eq_ok.mp h
      obtain rfl := pure_eq_ok.mp h
      rfl
    | obtain ⟨_, _, h⟩ := bind_eq_ok.mp h
      obtain ⟨_, _, h⟩ := bind_eq_ok.mp h
      obtain rfl := pure_eq_ok.mp h
      rfl

theorem autoId_of_read {y : Yaml} (h : ModelDeclaration.read y = .ok s) : s.autoId = false := by
  unfold ModelDeclaration.read at h
  split at h
  · exact foldFields_keeps (P := fun s => s.autoId = false) (fun hr hs => (autoId_readField hr).trans hs) h rfl
  · obtain rfl := pure_eq_ok.mp h
    rfl
  · exact absurd h throw_ne_ok

/-! ## Quick declarations -/

theorem readQuickEntry_ok {name value : Yaml} (h : readQuickEntry key s name value = .ok t) :
    t.autoId = s.autoId ∧ t.primary = s.primary := by
  unfold readQuickEntry at h
  split at h
  · cases h
  · obtain rfl := pure_eq_ok.mp h; exact ⟨rfl, rfl⟩
  · obtain rfl := pure_eq_ok.mp h; exact ⟨rfl, rfl⟩
  · split at h
    · obtain rfl := pure_eq_ok.mp h; exact ⟨rfl, rfl⟩
    · cases h
  · split at h
    · obtain rfl := pure_eq_ok.mp h; exact ⟨rfl, rfl⟩
    · cases h

/-- What is a line, and does not turn a factory on or off, is taken over as a line. -/
theorem readQuickEntry_of_line {column value : Yaml} {field : String} {line : Option String}
    (hfield : column.untagged.str? = some field) (hline : line? value = some line)
    (hflag : field = "factory" → ∀ on, value ≠ .bool on) :
    readQuickEntry key s column value = .ok { s with columns := s.columns.insert field line } := by
  unfold readQuickEntry
  rw [hfield]
  split
  · contradiction
  · cases hline
  · rename_i heq
    exact absurd rfl (hflag (Option.some_inj.mp heq) _)
  · cases hline
  · rename_i heq _ _ _
    obtain rfl := Option.some_inj.mp heq
    rw [hline]
    rfl

theorem quickEntries_ok {entries : List (Yaml × Yaml)}
    (h : entries.foldlM (fun s (name, value) => readQuickEntry key s name value) s = .ok t) :
    t.autoId = s.autoId ∧ t.primary = s.primary := by
  induction entries generalizing s with
  | nil => rw [List.foldlM_nil, pure_eq_ok] at h; exact h ▸ ⟨rfl, rfl⟩
  | cons entry rest ih =>
    rw [List.foldlM_cons, bind_eq_ok] at h
    obtain ⟨next, hnext, h⟩ := h
    obtain ⟨ha, hp⟩ := readQuickEntry_ok hnext
    obtain ⟨ha', hp'⟩ := ih h
    exact ⟨ha'.trans ha, hp'.trans hp⟩

/-- The key that is added stands first, as a line of its own. -/
def StartsWithKey (s : ModelDeclaration) : Prop :=
  ∃ rest, s.columns.entries = ("id", none) :: rest

theorem startsWithKey_withKey (hs : s.autoId = false) (ha : (withKey s).autoId = true) : StartsWithKey (withKey s) := by
  unfold withKey at ha ⊢
  split
  · rename_i hu
    simp [hu, hs] at ha
  · rename_i hu
    split
    · rename_i hi
      simp only [hu, hi, if_true] at ha
      exact absurd (hs.symm.trans ha) (by simp)
    · exact ⟨_, rfl⟩

theorem startsWithKey_withTimestamps (hs : StartsWithKey s) : StartsWithKey (withTimestamps s) := by
  obtain ⟨rest, hs⟩ := hs
  unfold withTimestamps
  split
  · exact ⟨rest, hs⟩
  · exact ⟨assign "timestamps" none rest, by simp [OrderedMap.insert, hs, assign]⟩

theorem autoId_withTimestamps (s : ModelDeclaration) :
    (withTimestamps s).autoId = s.autoId ∧ (withTimestamps s).primary = s.primary := by
  unfold withTimestamps
  split <;> exact ⟨rfl, rfl⟩

theorem primary_withKey (s : ModelDeclaration) : (withKey s).primary = s.primary := by
  unfold withKey
  split
  · rfl
  · split <;> rfl

/-- Where a key is added, it stands first, and no other key is declared. -/
theorem startsWithKey_of_autoId {y : Yaml} (h : modelDeclaration key y = .ok s) (ha : s.autoId = true) :
    StartsWithKey s ∧ s.primary = none := by
  unfold modelDeclaration at h
  split at h
  · cases h
  · split at h
    · cases hr : ModelDeclaration.read (.map _) with
      | error fault => rw [hr] at h; cases h
      | ok t =>
        rw [hr] at h
        obtain rfl := Except.ok.inj h
        rw [autoId_of_read hr] at ha
        cases ha
    · cases h
    · unfold quickDeclaration at h
      cases hq : List.foldlM (fun s (x : Yaml × Yaml) => readQuickEntry key s x.1 x.2) ModelDeclaration.empty _ with
      | error fault => rw [hq] at h; cases h
      | ok t =>
        rw [hq] at h
        obtain rfl := Except.ok.inj h
        obtain ⟨hauto, hprimary⟩ := quickEntries_ok hq
        have hk : (withKey t).autoId = true := (autoId_withTimestamps (withKey t)).1.symm.trans ha
        refine ⟨startsWithKey_withTimestamps (startsWithKey_withKey hauto hk), ?_⟩
        exact ((autoId_withTimestamps (withKey t)).2.trans (primary_withKey t)).trans hprimary
  · cases h

end Schemata.Resolution
