import Mathlib.Data.List.Induction
import Mathlib.Order.Defs.Unbundled
import Schemata.Proofs.Result
import Schemata.Resolution.Pipeline

/-!
# Runs of passes

Steps of resolution are known by what they do when they succeed and by the faults with which they fail. A run of passes is
the sequence of its bodies, and its faults are those of a body unless a pass finds a stage missing.
-/

namespace Schemata.Resolution

variable {α β : Type} {d e : Draft}

namespace Resolve

/-! ## Success -/

theorem bind_run_ok {x : Resolve α} {f : α → Resolve β} {b : β} :
    (x >>= f) d = .ok b e ↔ ∃ a c, x d = .ok a c ∧ f a c = .ok b e := by
  simp only [bind, EStateM.bind]
  cases x d with
  | ok a c => simp
  | error fault c => simp

theorem inspect_run_ok {f : Draft → Except SchemaFault α} {a : α} : inspect f d = .ok a e ↔ f d = .ok a ∧ d = e := by
  rw [inspect_run]
  cases f d <;> simp

theorem update_run_ok {f : Draft → Except SchemaFault Draft} {u : Unit} : update f d = .ok u e ↔ f d = .ok e := by
  rw [update_run]
  cases f d <;> simp

theorem modify_run_ok {f : Draft → Draft} {u : PUnit} : (modify f : Resolve PUnit) d = .ok u e ↔ f d = e := by
  change EStateM.Result.ok () (f d) = .ok u e ↔ _
  simp

theorem get_run_ok {a : Draft} : (get : Resolve Draft) d = .ok a e ↔ d = a ∧ d = e := by
  change EStateM.Result.ok d d = .ok a e ↔ _
  simp

theorem pure_run_ok {a b : α} : (pure a : Resolve α) d = .ok b e ↔ a = b ∧ d = e := by
  change EStateM.Result.ok a d = .ok b e ↔ _
  simp

theorem forM_nil_run_ok {f : α → Resolve Unit} : ([] : List α).forM f d = .ok () e ↔ d = e := by
  change EStateM.Result.ok () d = .ok () e ↔ _
  simp

theorem forM_cons_run_ok {f : α → Resolve Unit} {x : α} {xs : List α} :
    (x :: xs).forM f d = .ok () e ↔ ∃ c, f x d = .ok () c ∧ xs.forM f c = .ok () e :=
  bind_run_ok.trans ⟨fun ⟨_, c, h⟩ => ⟨c, h⟩, fun ⟨c, h⟩ => ⟨(), c, h⟩⟩

/-! ## Loops

A loop goes along a preorder of drafts if each of its turns does. What a turn establishes for its item holds after the loop if
it is kept along the preorder. -/

variable {R : Draft → Draft → Prop} [IsPreorder Draft R]

theorem along_of_forM {f : α → Resolve Unit} {xs : List α}
    (turn : ∀ x ∈ xs, ∀ c c', R d c → f x c = .ok () c' → R c c')
    (h : xs.forM f d = .ok () e) : R d e := by
  induction xs generalizing d with
  | nil => exact forM_nil_run_ok.mp h ▸ refl_of R d
  | cons x rest ih =>
    obtain ⟨c, hx, hr⟩ := forM_cons_run_ok.mp h
    have hc : R d c := turn x (by simp) d c (refl_of R d) hx
    have he : R c e := ih (fun y hy c₁ c₂ h₁ => turn y (by simp [hy]) c₁ c₂ (trans_of R hc h₁)) hr
    exact trans_of R hc he

theorem forall_of_forM {f : α → Resolve Unit} {xs : List α} {Q : α → Draft → Prop}
    (turn : ∀ x ∈ xs, ∀ c c', R d c → f x c = .ok () c' → R c c' ∧ Q x c')
    (keep : ∀ x c c', R c c' → Q x c → Q x c')
    (h : xs.forM f d = .ok () e) : ∀ x ∈ xs, Q x e := by
  induction xs generalizing d with
  | nil => intro x hx; exact absurd hx List.not_mem_nil
  | cons x rest ih =>
    obtain ⟨c, hx, hr⟩ := forM_cons_run_ok.mp h
    obtain ⟨hc, hq⟩ := turn x (by simp) d c (refl_of R d) hx
    have turn' : ∀ y ∈ rest, ∀ c₁ c₂, R c c₁ → f y c₁ = .ok () c₂ → R c₁ c₂ ∧ Q y c₂ :=
      fun y hy c₁ c₂ h₁ => turn y (by simp [hy]) c₁ c₂ (trans_of R hc h₁)
    intro y hy
    rcases List.mem_cons.mp hy with rfl | hy
    · -- The rest of the loop keeps what the first turn has established.
      exact keep y c e (along_of_forM (fun z hz c₁ c₂ h₁ h₂ => (turn' z hz c₁ c₂ h₁ h₂).1) hr) hq
    · exact ih turn' hr y hy

theorem forM_append_run_ok {f : α → Resolve Unit} {xs ys : List α} :
    (xs ++ ys).forM f d = .ok () e ↔ ∃ c, xs.forM f d = .ok () c ∧ ys.forM f c = .ok () e := by
  rw [List.forM_eq_forM, List.forM_append]
  exact bind_run_ok.trans ⟨fun ⟨_, c, h⟩ => ⟨c, h⟩, fun ⟨c, h⟩ => ⟨(), c, h⟩⟩

theorem forM_flatMap {f : β → Resolve Unit} {g : α → List β} {xs : List α} :
    (xs.flatMap g).forM f = xs.forM fun x => (g x).forM f := by
  induction xs with
  | nil => rfl
  | cons x rest ih =>
    rw [List.forM_eq_forM, List.forM_eq_forM] at *
    rw [List.flatMap_cons, List.forM_append, List.forM_cons, ih]

/-- What is seen of a draft is seen of another. -/
def Keeps {γ : Type} (view : Draft → γ) (d e : Draft) : Prop :=
  view e = view d

instance {γ : Type} {view : Draft → γ} : IsPreorder Draft (Keeps view) where
  refl _ := rfl
  trans _ _ _ h h' := h'.trans h

/-- What holds of a draft holds of another. -/
def Preserves (P : Draft → Prop) (d e : Draft) : Prop :=
  P d → P e

instance {P : Draft → Prop} : IsPreorder Draft (Preserves P) where
  refl _ := id
  trans _ _ _ h h' := h' ∘ h

/-! Items that have places of their own: if no turn changes what is seen at the place of another item, a turn finds its place
as the loop has found it, and leaves it as the loop leaves it. -/

section

variable {π γ : Type} {place : α → π} {view : α → Draft → γ} {f : α → Resolve Unit} {xs : List α}

theorem keeps_of_apart {x : α} (hx : ∀ y ∈ xs, place y ≠ place x)
    (apart : ∀ y ∈ xs, place y ≠ place x → ∀ c c', f y c = .ok () c' → view x c' = view x c)
    (h : xs.forM f d = .ok () e) : view x e = view x d :=
  along_of_forM (R := Keeps (view x)) (fun y hy c c' _ hf => apart y hy (hx y hy) c c' hf) h

theorem along_of_places (hn : (xs.map place).Nodup)
    (apart : ∀ x ∈ xs, ∀ y ∈ xs, place y ≠ place x → ∀ c c', f y c = .ok () c' → view x c' = view x c)
    (turn : ∀ x ∈ xs, ∀ c c', R d c → view x c = view x d → f x c = .ok () c' → R c c')
    (h : xs.forM f d = .ok () e) : R d e := by
  induction xs using List.reverseRecOn generalizing e with
  | nil => exact forM_nil_run_ok.mp h ▸ refl_of R d
  | append_singleton rest x ih =>
    obtain ⟨c, hr, hlast⟩ := forM_append_run_ok.mp h
    obtain ⟨c', hx, hnil⟩ := forM_cons_run_ok.mp hlast
    obtain rfl := forM_nil_run_ok.mp hnil
    rw [List.map_append, List.nodup_append] at hn
    have hrest : R d c := ih hn.1 (fun y hy z hz => apart y (by simp [hy]) z (by simp [hz]))
      (fun y hy => turn y (by simp [hy])) hr
    have hfound : view x c = view x d :=
      keeps_of_apart (fun y hy => hn.2.2 _ (List.mem_map_of_mem hy) _ (by simp))
        (fun y hy => apart x (by simp) y (by simp [hy])) hr
    exact trans_of R hrest (turn x (by simp) c c' hrest hfound hx)

theorem exists_turn (hn : (xs.map place).Nodup)
    (apart : ∀ x ∈ xs, ∀ y ∈ xs, place y ≠ place x → ∀ c c', f y c = .ok () c' → view x c' = view x c)
    (turn : ∀ x ∈ xs, ∀ c c', R d c → view x c = view x d → f x c = .ok () c' → R c c')
    (h : xs.forM f d = .ok () e) {x : α} (hx : x ∈ xs) : ∃ before after c c', xs = before ++ x :: after ∧
      before.forM f d = .ok () c ∧ f x c = .ok () c' ∧ R d c ∧ R c c' ∧ R c' e ∧
      view x c = view x d ∧ view x e = view x c' := by
  obtain ⟨before, after, rfl⟩ := List.append_of_mem hx
  obtain ⟨c, hb, h⟩ := forM_append_run_ok.mp h
  obtain ⟨c', hturn, ha⟩ := forM_cons_run_ok.mp h
  rw [List.map_append, List.map_cons, List.nodup_append, List.nodup_cons] at hn
  obtain ⟨hbn, ⟨hxa, han⟩, hd⟩ := hn
  have hbx : ∀ y ∈ before, place y ≠ place x := fun y hy => hd _ (List.mem_map_of_mem hy) _ List.mem_cons_self
  have hax : ∀ y ∈ after, place y ≠ place x := fun y hy heq => hxa (heq ▸ List.mem_map_of_mem hy)
  have hfound : view x c = view x d := keeps_of_apart hbx (fun y hy => apart x (by simp) y (by simp [hy])) hb
  have hdc : R d c := along_of_places hbn (fun y hy z hz => apart y (by simp [hy]) z (by simp [hz]))
    (fun y hy => turn y (by simp [hy])) hb
  have hcc' : R c c' := turn x (by simp) c c' hdc hfound hturn
  -- The items that are left find their places as they were before the turn.
  have hleft : ∀ y ∈ after, view y c' = view y d := by
    intro y hy
    have hyb : ∀ z ∈ before, place z ≠ place y := fun z hz =>
      hd _ (List.mem_map_of_mem hz) _ (List.mem_cons_of_mem _ (List.mem_map_of_mem hy))
    rw [apart y (by simp [hy]) x (by simp) (Ne.symm (hax y hy)) c c' hturn,
      keeps_of_apart hyb (fun z hz => apart y (by simp [hy]) z (by simp [hz])) hb]
  have hce : R c' e := along_of_places han (fun y hy z hz => apart y (by simp [hy]) z (by simp [hz]))
    (fun y hy c₁ c₂ h₁ h₂ => turn y (by simp [hy]) c₁ c₂ (trans_of R (trans_of R hdc hcc') h₁) (h₂.trans (hleft y hy))) ha
  exact ⟨before, after, c, c', rfl, hb, hturn, hdc, hcc', hce, hfound,
    keeps_of_apart hax (fun y hy => apart x (by simp) y (by simp [hy])) ha⟩

end

/-! ## Faults -/

/-- A step that fails, fails with a cause in the schema. -/
def FailsInSchema (x : Resolve α) : Prop :=
  ∀ d e fault, x d = .error fault e → ∃ cause, fault = .schema cause

theorem FailsInSchema.bind {x : Resolve α} {f : α → Resolve β} (hx : FailsInSchema x)
    (hf : ∀ a, FailsInSchema (f a)) : FailsInSchema (x >>= f) := by
  intro d e fault h
  simp only [Bind.bind, EStateM.bind] at h
  cases hd : x d with
  | ok a c => rw [hd] at h; exact hf a c e fault h
  | error cause c =>
      rw [hd] at h
      injection h with h₁ h₂
      exact hx d c fault (h₁ ▸ hd)

theorem FailsInSchema.inspect (f : Draft → Except SchemaFault α) : FailsInSchema (inspect f) := by
  intro d e fault h
  rw [inspect_run] at h
  cases hf : f d with
  | ok a => simp [hf] at h
  | error cause =>
      simp only [hf, EStateM.Result.error.injEq] at h
      exact ⟨cause, h.1.symm⟩

theorem FailsInSchema.update (f : Draft → Except SchemaFault Draft) : FailsInSchema (update f) :=
  .bind (.inspect f) fun _ _ _ _ h => by cases h

theorem FailsInSchema.modify (f : Draft → Draft) : FailsInSchema (modify f : Resolve PUnit) :=
  fun _ _ _ h => by cases h

theorem FailsInSchema.get : FailsInSchema (get : Resolve Draft) :=
  fun _ _ _ h => by cases h

theorem FailsInSchema.pure (a : α) : FailsInSchema (pure a : Resolve α) :=
  fun _ _ _ h => by cases h

theorem FailsInSchema.forM {f : α → Resolve Unit} {xs : List α} (h : ∀ x ∈ xs, FailsInSchema (f x)) :
    FailsInSchema (xs.forM f) := by
  induction xs with
  | nil => exact .pure ()
  | cons x rest ih => exact .bind (h x (by simp)) fun _ => ih fun y hy => h y (by simp [hy])

end Resolve

/-! ## Sequences of passes -/

/-- The bodies of the passes succeed one after the other, from the first draft to the second. -/
def Completes : List Pass → Draft → Draft → Prop
  | [], d, e => d = e
  | pass :: rest, d, e => ∃ c, pass.body d = .ok () c ∧ Completes rest c e

theorem completes_append {first second : List Pass} :
    Completes (first ++ second) d e ↔ ∃ c, Completes first d c ∧ Completes second c e := by
  induction first generalizing d with
  | nil => simp [Completes]
  | cons pass rest ih =>
    simp only [List.cons_append, Completes, ih]
    constructor
    · rintro ⟨c, hc, c', h₁, h₂⟩
      exact ⟨c', ⟨c, hc, h₁⟩, h₂⟩
    · rintro ⟨c', ⟨c, hc, h₁⟩, h₂⟩
      exact ⟨c, hc, c', h₁, h₂⟩

theorem Completes.append {first second : List Pass} {c : Draft} (h : Completes first d c) (h' : Completes second c e) :
    Completes (first ++ second) d e :=
  completes_append.mpr ⟨c, h, h'⟩

theorem Completes.cons {pass : Pass} {rest : List Pass} {c : Draft} (h : pass.body d = .ok () c) (hrest : Completes rest c e) :
    Completes (pass :: rest) d e :=
  ⟨c, h, hrest⟩

/-- Passes that have nothing to do come to the draft that they are given. -/
theorem Completes.of_idle {passes : List Pass} (h : ∀ pass ∈ passes, pass.body d = .ok () d) : Completes passes d d := by
  induction passes with
  | nil => rfl
  | cons pass rest ih =>
    obtain ⟨hpass, hrest⟩ := List.forall_mem_cons.mp h
    exact .cons hpass (ih hrest)

theorem Completes.unique {passes : List Pass} {e' : Draft} (h : Completes passes d e) (h' : Completes passes d e') :
    e = e' := by
  induction passes generalizing d with
  | nil => exact h.symm.trans h'
  | cons pass rest ih =>
    obtain ⟨c, hc, h⟩ := h
    obtain ⟨c', hc', h'⟩ := h'
    rw [hc] at hc'
    injection hc' with _ hcc
    subst hcc
    exact ih h h'

variable {passes before after : List Pass} {pass : Pass} {p q : Progress}

theorem Pass.run_none : pass.run p = ⟨q, none⟩ ↔
    pass.missing? p = none ∧ ∃ e, pass.body p.draft = .ok () e ∧ q = ⟨e, p.completed ++ [pass.provides]⟩ := by
  unfold Pass.run
  cases pass.missing? p with
  | some stage => simp
  | none => cases pass.body p.draft <;> simp [eq_comm]

theorem runAll_none (h : runAll passes p = ⟨q, none⟩) :
    Completes passes p.draft q.draft ∧ q.completed = p.completed ++ passes.map Pass.provides := by
  induction passes generalizing p with
  | nil => simp only [runAll, Outcome.mk.injEq, and_true] at h; subst h; simp [Completes]
  | cons pass rest ih =>
    simp only [runAll] at h
    split at h
    · rename_i r hr
      obtain ⟨_, e, he, rfl⟩ := Pass.run_none.mp hr
      obtain ⟨hc, hq⟩ := ih h
      exact ⟨⟨e, he, hc⟩, by simp [hq]⟩
    · rename_i hn
      exact absurd h (hn q)

theorem areOrdered_append {done : List Stage} : areOrdered done (before ++ after) =
    (areOrdered done before && areOrdered (done ++ before.map Pass.provides) after) := by
  induction before generalizing done with
  | nil => simp [areOrdered]
  | cons pass rest ih => simp [areOrdered, ih, Bool.and_assoc]

theorem Pass.missing?_eq_none_iff : pass.missing? p = none ↔ ∀ stage ∈ pass.requires, p.has stage = true := by
  simp [missing?, List.find?_eq_none]

theorem Pass.missing?_eq_none (h : areOrdered p.completed (pass :: after)) : pass.missing? p = none := by
  simp only [areOrdered, Bool.and_eq_true, List.all_eq_true] at h
  exact Pass.missing?_eq_none_iff.mpr h.1

/-- Passes in order never find a stage missing. -/
theorem missing?_of_areOrdered (ho : areOrdered p.completed (before ++ pass :: after))
    (h : runAll before p = ⟨q, none⟩) : pass.missing? q = none := by
  rw [areOrdered_append, Bool.and_eq_true] at ho
  exact Pass.missing?_eq_none ((runAll_none h).2 ▸ ho.2)

/-- The fault of passes in order is that of a body. -/
theorem fault_of_areOrdered (ho : areOrdered p.completed passes) {fault : Fault}
    (h : (runAll passes p).fault = some fault) : ∃ before pass after q e, passes = before ++ pass :: after ∧
      runAll before p = ⟨q, none⟩ ∧ pass.body q.draft = .error fault e := by
  induction passes generalizing p with
  | nil => simp [runAll] at h
  | cons pass rest ih =>
    have hm := Pass.missing?_eq_none ho
    simp only [areOrdered, Bool.and_eq_true] at ho
    cases hb : pass.body p.draft with
    | ok u c =>
        have hr : pass.run p = ⟨⟨c, p.completed ++ [pass.provides]⟩, none⟩ := Pass.run_none.mpr ⟨hm, c, hb, rfl⟩
        simp only [runAll, hr] at h
        obtain ⟨before, next, after, q, e, rfl, hq, he⟩ := ih ho.2 h
        exact ⟨pass :: before, next, after, q, e, rfl, by simp only [runAll, hr, hq], he⟩
    | error cause c =>
        have hf : cause = fault := by simpa [runAll, Pass.run, hm, hb] using h
        exact ⟨[], pass, rest, p, c, rfl, rfl, hf ▸ hb⟩

end Schemata.Resolution
