import Mathlib.Data.List.Forall2

/-!
# Results that succeed

What is known of the parts when a computation that may fail succeeds as a whole.
-/

namespace Schemata

variable {ε α β σ : Type}

theorem bind_eq_ok {x : Except ε α} {f : α → Except ε β} {b : β} :
    (x >>= f) = .ok b ↔ ∃ a, x = .ok a ∧ f a = .ok b := by
  cases x <;> simp [bind, Except.bind]

theorem pure_eq_ok {a b : α} : (pure a : Except ε α) = .ok b ↔ a = b := by
  simp [pure, Except.pure]

theorem map_eq_ok {f : α → β} {x : Except ε α} {b : β} : f <$> x = .ok b ↔ ∃ a, x = .ok a ∧ f a = b := by
  cases x <;> simp [Functor.map, Except.map]

theorem throw_ne_ok {e : ε} {b : α} : (throw e : Except ε α) ≠ .ok b := by
  simp [throw, throwThe, MonadExceptOf.throw]

/-- What stands behind a check succeeds if the check does not throw. -/
theorem guard_eq_ok {c : Prop} [Decidable c] {fault : ε} {f : β → Except ε α} {x : Except ε α} {a : α} :
    (if c then throw fault >>= f else x) = .ok a ↔ ¬c ∧ x = .ok a := by
  split
  · rename_i h
    exact iff_of_false nofun fun hn => hn.1 h
  · rename_i h
    exact (and_iff_right h).symm

theorem mapError_eq_ok {ε' : Type} {f : ε → ε'} {x : Except ε α} {a : α} : x.mapError f = .ok a ↔ x = .ok a := by
  cases x <;> simp [Except.mapError]

theorem mapM_eq_ok {f : α → Except ε β} {xs : List α} {ys : List β} :
    xs.mapM f = .ok ys ↔ List.Forall₂ (fun x y => f x = .ok y) xs ys := by
  induction xs generalizing ys with
  | nil => rw [List.mapM_nil, pure_eq_ok, List.forall₂_nil_left_iff, eq_comm]
  | cons x rest ih =>
    simp only [List.mapM_cons, bind_eq_ok, pure_eq_ok, ih, List.forall₂_cons_left_iff]
    constructor
    · rintro ⟨y, hy, zs, hz, rfl⟩
      exact ⟨y, zs, hy, hz, rfl⟩
    · rintro ⟨y, zs, hy, hz, rfl⟩
      exact ⟨y, hy, zs, hz, rfl⟩

/-- What is read under names stays under them. -/
theorem mapM_keyed_ok {κ : Type} {f : κ → α → Except ε β} {xs : List (κ × α)} {ys : List (κ × β)}
    (h : (xs.mapM fun (k, v) => return (k, ← f k v)) = .ok ys) :
    List.Forall₂ (fun x y => y.1 = x.1 ∧ f x.1 x.2 = .ok y.2) xs ys := by
  refine (mapM_eq_ok.mp h).imp ?_
  intro x y hx
  obtain ⟨v, hv, hy⟩ := bind_eq_ok.mp hx
  obtain rfl := pure_eq_ok.mp hy
  exact ⟨rfl, hv⟩

theorem mapM_singleton_iff {f : α → Except ε β} {x : α} {ys : List β} : [x].mapM f = .ok ys ↔ ∃ y, f x = .ok y ∧ ys = [y] := by
  simp only [mapM_eq_ok, List.forall₂_cons_left_iff, List.forall₂_nil_left_iff]
  constructor
  · rintro ⟨y, _, hy, rfl, rfl⟩
    exact ⟨y, hy, rfl⟩
  · rintro ⟨y, hy, rfl⟩
    exact ⟨y, [], hy, rfl, rfl⟩

theorem mapM_keyed_singleton_iff {κ : Type} {f : κ → α → Except ε β} {k : κ} {v : α} {ys : List (κ × β)} :
    ([(k, v)].mapM fun (k, v) => return (k, ← f k v)) = .ok ys ↔ ∃ y, f k v = .ok y ∧ ys = [(k, y)] := by
  simp only [mapM_singleton_iff, bind_eq_ok, pure_eq_ok]
  constructor
  · rintro ⟨_, ⟨y, hy, rfl⟩, rfl⟩
    exact ⟨y, hy, rfl⟩
  · rintro ⟨y, hy, rfl⟩
    exact ⟨_, ⟨y, hy, rfl⟩, rfl⟩

/-- What succeeds for some elements only, but then comes to what is known of them, comes to the same list for all. -/
theorem mapM_eq_map_iff {f : α → Except ε β} {P : α → Prop} {g : α → β} {xs : List α} {ys : List β}
    (hf : ∀ x ∈ xs, ∀ y, f x = .ok y ↔ P x ∧ y = g x) : xs.mapM f = .ok ys ↔ (∀ x ∈ xs, P x) ∧ ys = xs.map g := by
  induction xs generalizing ys with
  | nil => rw [List.mapM_nil, pure_eq_ok, eq_comm]; simp
  | cons x rest ih =>
    obtain ⟨hx, hrest⟩ := List.forall_mem_cons.mp hf
    simp only [List.mapM_cons, bind_eq_ok, pure_eq_ok, hx, ih hrest, List.forall_mem_cons, List.map_cons]
    constructor
    · rintro ⟨_, ⟨hp, rfl⟩, _, ⟨hall, rfl⟩, rfl⟩
      exact ⟨⟨hp, hall⟩, rfl⟩
    · rintro ⟨⟨hp, hall⟩, rfl⟩
      exact ⟨_, ⟨hp, rfl⟩, _, ⟨hall, rfl⟩, rfl⟩

theorem map_eq_of_forall₂ {γ : Type} {P : α → β → Prop} {f : α → γ} {g : β → γ} (hP : ∀ {x y}, P x y → g y = f x)
    {xs : List α} {ys : List β} (h : List.Forall₂ P xs ys) : ys.map g = xs.map f := by
  induction h with
  | nil => rfl
  | cons hx _ ih => rw [List.map_cons, List.map_cons, hP hx, ih]

theorem mem_of_forall₂ {P : α → β → Prop} {xs : List α} {ys : List β} (h : List.Forall₂ P xs ys) {y : β}
    (hy : y ∈ ys) : ∃ x ∈ xs, P x y := by
  induction h with
  | nil => exact absurd hy List.not_mem_nil
  | cons hx _ ih =>
    rcases List.mem_cons.mp hy with rfl | hy
    · exact ⟨_, List.mem_cons_self, hx⟩
    · obtain ⟨x, hm, hx⟩ := ih hy
      exact ⟨x, List.mem_cons_of_mem _ hm, hx⟩

theorem exists_mem_of_forall₂ {P : α → β → Prop} {xs : List α} {ys : List β} (h : List.Forall₂ P xs ys) {x : α}
    (hx : x ∈ xs) : ∃ y ∈ ys, P x y :=
  mem_of_forall₂ h.flip hx

/-- What is read from elements that correspond corresponds. -/
theorem mapM_forall₂ {α' β' : Type} {R : α → α' → Prop} {P : β → β' → Prop} {f : α → Except ε β} {f' : α' → Except ε β'}
    (hf : ∀ x x' y, R x x' → f x = .ok y → ∃ y', f' x' = .ok y' ∧ P y y') {xs : List α} {xs' : List α'}
    (h : List.Forall₂ R xs xs') {ys : List β} (hys : xs.mapM f = .ok ys) :
    ∃ ys', xs'.mapM f' = .ok ys' ∧ List.Forall₂ P ys ys' := by
  have hall := mapM_eq_ok.mp hys
  simp only [mapM_eq_ok]
  clear hys
  induction h generalizing ys with
  | nil =>
    cases hall
    exact ⟨[], .nil, .nil⟩
  | cons hx _ ih =>
    cases hall with
    | cons hy hall =>
      obtain ⟨y', hy', hp⟩ := hf _ _ _ hx hy
      obtain ⟨ys', hys', hps⟩ := ih hall
      exact ⟨y' :: ys', .cons hy' hys', .cons hp hps⟩

theorem mapM_eq_of_forall₂ {α' : Type} {R : α → α' → Prop} {f : α → Except ε β} {f' : α' → Except ε β}
    (hf : ∀ x x' y, R x x' → f x = .ok y → f' x' = .ok y) {xs : List α} {xs' : List α'} (h : List.Forall₂ R xs xs') {ys : List β}
    (hys : xs.mapM f = .ok ys) : xs'.mapM f' = .ok ys := by
  obtain ⟨ys', hys', heq⟩ := mapM_forall₂ (P := Eq) (fun x x' y hx hy => ⟨y, hf x x' y hx hy, rfl⟩) h hys
  obtain rfl : ys = ys' := List.forall₂_eq_eq_eq ▸ heq
  exact hys'

theorem mapM_append_ok {f : α → Except ε β} {xs xs' : List α} {ys ys' : List β} (h : xs.mapM f = .ok ys)
    (h' : xs'.mapM f = .ok ys') : (xs ++ xs').mapM f = .ok (ys ++ ys') :=
  mapM_eq_ok.mpr (List.rel_append (mapM_eq_ok.mp h) (mapM_eq_ok.mp h'))

theorem mapM_filter {f : α → Except ε β} {p : α → Bool} {q : β → Bool} (hq : ∀ {x y}, f x = .ok y → q y = p x)
    {xs : List α} {ys : List β} (h : xs.mapM f = .ok ys) : (xs.filter p).mapM f = .ok (ys.filter q) := by
  rw [mapM_eq_ok] at h ⊢
  induction h with
  | nil => exact .nil
  | @cons x y _ _ hx _ ih =>
    by_cases hp : p x = true
    · rw [List.filter_cons_of_pos hp, List.filter_cons_of_pos ((hq hx).trans hp)]
      exact .cons hx ih
    · rw [List.filter_cons_of_neg hp, List.filter_cons_of_neg (hq hx ▸ hp)]
      exact ih

theorem exists_mapM {f : α → Except ε β} {xs : List α} (h : ∀ x ∈ xs, ∃ y, f x = .ok y) :
    ∃ ys, xs.mapM f = .ok ys := by
  simp only [mapM_eq_ok]
  induction xs with
  | nil => exact ⟨[], .nil⟩
  | cons x rest ih =>
    obtain ⟨y, hy⟩ := h x List.mem_cons_self
    obtain ⟨ys, hys⟩ := ih fun z hz => h z (List.mem_cons_of_mem x hz)
    exact ⟨y :: ys, .cons hy hys⟩

/-- What is read from elements in another order comes in that order. -/
theorem mapM_perm {f : α → Except ε β} {xs xs' : List α} (hp : xs.Perm xs') {ys : List β} (h : xs.mapM f = .ok ys) :
    ∃ ys', xs'.mapM f = .ok ys' ∧ ys.Perm ys' := by
  simp only [mapM_eq_ok] at h ⊢
  induction hp generalizing ys with
  | nil => exact ⟨ys, h, .refl ys⟩
  | cons x _ ih =>
    cases h with
    | @cons _ y _ zs hy hzs =>
      obtain ⟨ys', hys', hp⟩ := ih hzs
      exact ⟨y :: ys', .cons hy hys', hp.cons y⟩
  | swap x x' _ =>
    cases h with
    | @cons _ y _ _ hy h =>
      cases h with
      | @cons _ z _ zs hz hzs => exact ⟨z :: y :: zs, .cons hz (.cons hy hzs), .swap z y zs⟩
  | trans _ _ ih ih' =>
    obtain ⟨ys', hys', hp⟩ := ih h
    obtain ⟨ys'', hys'', hp'⟩ := ih' hys'
    exact ⟨ys'', hys'', hp.trans hp'⟩

theorem forM_eq_ok {f : α → Except ε Unit} {xs : List α} : xs.forM f = .ok () ↔ ∀ x ∈ xs, f x = .ok () := by
  induction xs with
  | nil => exact ⟨fun _ x hx => absurd hx List.not_mem_nil, fun _ => rfl⟩
  | cons x rest ih =>
    rw [List.forall_mem_cons, ← ih]
    exact bind_eq_ok.trans ⟨fun ⟨_, h⟩ => h, fun h => ⟨(), h⟩⟩

theorem forM_error {f : α → Except ε Unit} {xs : List α} {fault : ε} (h : xs.forM f = .error fault) :
    ∃ x ∈ xs, f x = .error fault := by
  induction xs with
  | nil => cases h
  | cons x rest ih =>
    cases hx : f x with
    | error cause =>
      have h' : (f x >>= fun _ => rest.forM f) = .error fault := h
      rw [hx] at h'
      injection h' with he
      exact ⟨x, List.mem_cons_self, he ▸ hx⟩
    | ok u =>
      have h' : (f x >>= fun _ => rest.forM f) = .error fault := h
      rw [hx] at h'
      obtain ⟨y, hy, he⟩ := ih h'
      exact ⟨y, List.mem_cons_of_mem _ hy, he⟩

theorem ok_of_toOption {x : Except ε α} {a : α} (h : x.toOption = some a) : x = .ok a := by
  cases x with
  | error => cases h
  | ok b => exact congrArg Except.ok (Option.some.inj h)

theorem exists_of_any {o : Option α} {p : α → Bool} (h : o.any p = true) : ∃ a, o = some a ∧ p a = true := by
  cases o with
  | none => cases h
  | some a => exact ⟨a, rfl, h⟩

end Schemata
