import Mathlib.Data.List.Forall2
import Schemata.Yaml.Value

/-!
# Reading nodes

What is read of a node depends on the node alone, or on the one that it is an alias of, and not on the aliases that were
followed before.
-/

namespace Schemata.Yaml

variable {α β : Type}

/-! ## Runs -/

theorem run_bind_eq_some {x : ReadValue α} {f : α → ReadValue β} {s s' : Nat} {b : β} :
    (x >>= f).run s = some (b, s') ↔ ∃ a t, x.run s = some (a, t) ∧ (f a).run t = some (b, s') := by
  rw [StateT.run_bind]
  exact Option.bind_eq_some_iff.trans ⟨fun ⟨(a, t), h⟩ => ⟨a, t, h⟩, fun ⟨a, t, h⟩ => ⟨(a, t), h⟩⟩

theorem run_pure_eq_some {a b : α} {s s' : Nat} : (pure a : ReadValue α).run s = some (b, s') ↔ a = b ∧ s = s' := by
  rw [StateT.run_pure]
  exact Option.some_inj.trans (Prod.mk.injEq ..).to_iff

theorem run_failure_ne_some {r : α × Nat} {s : Nat} : (failure : ReadValue α).run s ≠ some r :=
  nofun

/-- A list is read item by item. -/
theorem forall₂_of_run_mapM {P : α → β → Prop} {f : α → ReadValue β} (hf : ∀ {x s y s'}, (f x).run s = some (y, s') → P x y)
    {xs : List α} {ys : List β} {s s' : Nat} (h : (xs.mapM f).run s = some (ys, s')) : List.Forall₂ P xs ys := by
  induction xs generalizing ys s s' with
  | nil =>
    rw [List.mapM_nil, run_pure_eq_some] at h
    exact h.1 ▸ .nil
  | cons x rest ih =>
    rw [List.mapM_cons] at h
    obtain ⟨y, _, hy, h⟩ := run_bind_eq_some.mp h
    obtain ⟨ys, _, hys, h⟩ := run_bind_eq_some.mp h
    obtain ⟨rfl, _⟩ := run_pure_eq_some.mp h
    exact .cons (hf hy) (ih hys)

/-! ## Nodes -/

namespace Document

variable {d : Document} {n : Node} {s s' : Nat}

/-- The node that an alias points at, or the node itself. -/
def followed? (d : Document) : Node → Option Node
  | .alias number => d.target? number
  | n => some n

theorem followed?_of_follow {m : Node} (h : (d.follow n).run s = some (m, s')) : d.followed? n = some m := by
  unfold follow at h
  split at h
  · rename_i number
    obtain ⟨_, _, _, h⟩ := run_bind_eq_some.mp h
    obtain ⟨_, _, _, h⟩ := run_bind_eq_some.mp h
    split at h
    · exact absurd h run_failure_ne_some
    · split at h
      · rename_i htarget
        obtain ⟨rfl, _⟩ := run_pure_eq_some.mp h
        exact htarget
      · exact absurd h run_failure_ne_some
  · rename_i hne
    obtain ⟨rfl, _⟩ := run_pure_eq_some.mp h
    unfold followed?
    split
    · exact absurd rfl (hne _)
    · rfl

/-- The text of a scalar, or of the scalar that an alias points at. -/
theorem followed?_of_text {text : String} (h : (d.text n).run s = some (text, s')) :
    ∃ tag plain, d.followed? n = some (.scalar tag text plain) := by
  obtain ⟨m, _, hm, h⟩ := run_bind_eq_some.mp h
  split at h
  · rename_i tag _ plain
    obtain ⟨rfl, _⟩ := run_pure_eq_some.mp h
    exact ⟨tag, plain, followed?_of_follow hm⟩
  · exact absurd h run_failure_ne_some

theorem followed?_of_textOrNull {value : Option String} (h : (d.textOrNull n).run s = some (value, s')) :
    ∃ tag text plain absent, d.followed? n = some (.scalar tag text plain) ∧ isAbsent? tag text plain = some absent ∧
      value = if absent then none else some text := by
  obtain ⟨m, _, hm, h⟩ := run_bind_eq_some.mp h
  split at h
  · split at h
    · rename_i tag text plain _ absent habsent
      obtain ⟨rfl, _⟩ := run_pure_eq_some.mp h
      exact ⟨tag, text, plain, absent, followed?_of_follow hm, habsent, rfl⟩
    · exact absurd h run_failure_ne_some
  · exact absurd h run_failure_ne_some

/-- The entries of a mapping; what is no mapping has none. -/
theorem followed?_of_entries {entries : List (Node × Node)} (h : (d.entries n).run s = some (entries, s')) :
    (∃ tag, d.followed? n = some (.map tag entries)) ∨
      entries = [] ∧ ∃ tag text plain, d.followed? n = some (.scalar tag text plain) := by
  obtain ⟨m, _, hm, h⟩ := run_bind_eq_some.mp h
  split at h
  · rename_i tag _
    obtain ⟨rfl, _⟩ := run_pure_eq_some.mp h
    exact .inl ⟨tag, followed?_of_follow hm⟩
  · rename_i tag text plain
    split at h
    · obtain ⟨rfl, _⟩ := run_pure_eq_some.mp h
      exact .inr ⟨rfl, tag, text, plain, followed?_of_follow hm⟩
    · exact absurd h run_failure_ne_some
  · exact absurd h run_failure_ne_some

end Document

end Schemata.Yaml
