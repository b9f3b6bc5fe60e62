import Mathlib.Data.List.Induction
import Schemata.Proofs.OrderedMap
import Schemata.Proofs.Result
import Schemata.Resolution.Declarations

/-!
# Quick declarations in full

A quick declaration says no more than its columns, its traits and its factory, and what follows from the names of the columns. The
block that writes all of this out is read as the same declaration, except that the key in it has not been added.
-/

namespace Schemata.Resolution

open Declaration

variable {key : String} {s s' : ModelDeclaration} {entries : List (Yaml × Yaml)}

/-- A declaration apart from whether its key was added. -/
def unadded (s : ModelDeclaration) : ModelDeclaration :=
  { s with autoId := false }

/-- Whether a value turns a factory on or off, or describes one. -/
def isFactory : Yaml → Bool
  | .bool _ | .map _ => true
  | _ => false

/-- The factory that an entry of a quick declaration gives. -/
def givenFactory? (x : Yaml × Yaml) : Option Yaml :=
  if x.1.untagged.str? = some "factory" ∧ isFactory x.2 = true then some x.2 else none

/-- The factory that a quick declaration gives. The last one counts. -/
def quickFactory? (entries : List (Yaml × Yaml)) : Option Yaml :=
  entries.reverse.findSome? givenFactory?

/-- The block that writes out what a quick declaration comes to. -/
def spelled (s : ModelDeclaration) (factory : Option Yaml) : Yaml :=
  .map ([(.str "columns", .map (s.columns.entries.map fun (name, line) => (.str name, line.elim .null .str))),
      (.str "hidden", .seq (s.hidden.map .str))] ++ s.type.toList.map (fun type => (.str "type", .str type)) ++
    [(.str "traits", .seq (s.traits.map .str))] ++ factory.toList.map (.str "factory", ·))

/-! ## What a quick declaration says -/

/-- The factory of a declaration is the one that is given, if one is. -/
def TakesFactory (s : ModelDeclaration) (given : Option Yaml) : Prop :=
  given.elim (s.factory = none) fun y => optional (Toggle.read FactoryDetail.read) y = .ok s.factory

/-- A declaration has columns and what follows from them, traits and a factory, and nothing else. -/
structure Quick (s : ModelDeclaration) (factory : Option Yaml) : Prop where
  rest : s = { ModelDeclaration.empty with
    columns := s.columns, hidden := s.hidden, type := s.type, traits := s.traits, factory := s.factory, autoId := s.autoId }
  type : s.type = none ∨ s.type = some "user"
  factory : TakesFactory s factory

theorem quick_readQuickEntry {x : Yaml × Yaml} {factory : Option Yaml} (hs : Quick s factory)
    (h : readQuickEntry key s x.1 x.2 = .ok s') : Quick s' ((givenFactory? x).or factory) := by
  obtain ⟨name, value⟩ := x
  have hrest := hs.rest
  unfold readQuickEntry at h
  unfold givenFactory?
  dsimp only at h ⊢
  split at h
  · exact absurd h throw_ne_ok
  · rename_i hname
    obtain rfl := pure_eq_ok.mp h
    rw [if_neg (by simp [hname])]
    exact ⟨by rw [hrest], hs.type, hs.factory⟩
  · rename_i hname
    obtain rfl := pure_eq_ok.mp h
    rw [if_pos ⟨hname, rfl⟩]
    exact ⟨by rw [hrest], hs.type, rfl⟩
  · rename_i hname
    rw [if_pos ⟨hname, rfl⟩]
    split at h
    · rename_i factory' hread
      obtain rfl := pure_eq_ok.mp h
      exact ⟨by rw [hrest], hs.type, map_eq_ok.mpr ⟨_, hread, rfl⟩⟩
    · exact absurd h throw_ne_ok
  · rename_i value _ _ _ hname _ hbool hmap
    split at h
    · obtain rfl := pure_eq_ok.mp h
      rw [if_neg]
      · exact ⟨by rw [hrest], hs.type, hs.factory⟩
      · rintro ⟨hfactory, hgiven⟩
        obtain rfl := Option.some_inj.mp (hname.symm.trans hfactory)
        cases value with
        | bool on => exact hbool on rfl rfl
        | map entries => exact hmap entries rfl rfl
        | _ => cases hgiven
    · exact absurd h throw_ne_ok

theorem quick_foldlM (h : entries.foldlM (fun s (name, value) => readQuickEntry key s name value) ModelDeclaration.empty = .ok s) :
    Quick s (quickFactory? entries) := by
  induction entries using List.reverseRecOn generalizing s with
  | nil =>
    obtain rfl := pure_eq_ok.mp h
    exact ⟨rfl, .inl rfl, rfl⟩
  | append_singleton rest x ih =>
    rw [List.foldlM_append, bind_eq_ok] at h
    obtain ⟨before, hbefore, h⟩ := h
    rw [List.foldlM_cons, bind_eq_ok] at h
    obtain ⟨after, hafter, h⟩ := h
    obtain rfl := pure_eq_ok.mp h
    have hquick := quick_readQuickEntry (ih hbefore) hafter
    unfold quickFactory?
    rw [List.reverse_append, List.reverse_singleton, List.singleton_append, List.findSome?_cons]
    unfold quickFactory? at hquick
    cases hx : givenFactory? x <;> rw [hx] at hquick <;> exact hquick

theorem quick_withKey {factory : Option Yaml} (hs : Quick s factory) : Quick (withKey s) factory := by
  have hrest := hs.rest
  unfold withKey
  split
  · exact ⟨by rw [hrest], hs.type, hs.factory⟩
  · split
    · exact hs
    · exact ⟨by rw [hrest], hs.type, hs.factory⟩

theorem quick_withTimestamps {factory : Option Yaml} (hs : Quick s factory) : Quick (withTimestamps s) factory := by
  have hrest := hs.rest
  unfold withTimestamps
  split
  · exact hs
  · exact ⟨by rw [hrest], hs.type, hs.factory⟩

theorem quick_withSecrets {factory : Option Yaml} (hs : Quick s factory) : Quick (withSecrets s) factory := by
  have hrest := hs.rest
  unfold withSecrets
  refine ⟨by rw [hrest], ?_, hs.factory⟩
  dsimp only
  split
  · exact .inr rfl
  · exact hs.type

theorem columns_withTimestamps (s : ModelDeclaration) : ∃ name, name ∈ (withTimestamps s).columns.keys := by
  unfold withTimestamps
  split
  · rename_i hany
    obtain ⟨name, _, hname⟩ := List.any_eq_true.mp hany
    exact ⟨name, OrderedMap.contains_iff.mp hname⟩
  · exact ⟨"timestamps", OrderedMap.mem_keys_iff.mpr ⟨none, by rw [OrderedMap.get?_insert, if_pos rfl]⟩⟩

theorem quick_of_quickDeclaration (h : quickDeclaration key entries = .ok s) :
    Quick s (quickFactory? entries) ∧ ∃ name, name ∈ s.columns.keys := by
  obtain ⟨read, hread, rfl⟩ := map_eq_ok.mp h
  exact ⟨quick_withSecrets (quick_withTimestamps (quick_withKey (quick_foldlM hread))), columns_withTimestamps _⟩

/-! ## Reading it back -/

theorem line?_spelled (line : Option String) : line? (line.elim .null .str) = some line := by
  cases line <;> rfl

theorem columnLines_spelled (columns : OrderedMap (Option String)) :
    columnLines (.map (columns.entries.map fun x => (.str x.1, x.2.elim .null .str))) = .ok columns := by
  let written := columns.entries.map fun x : String × Option String => (x.1, x.2.elim Yaml.null Yaml.str)
  have hentries : Declaration.entries (.map (columns.entries.map fun x => (.str x.1, x.2.elim .null .str))) = .ok written := by
    refine mapM_eq_ok.mpr (List.forall₂_map_left_iff.mpr (List.forall₂_map_right_iff.mpr (List.forall₂_same.mpr fun x _ => rfl)))
  have hnodup : (written.map Prod.fst).Nodup := by
    rw [List.map_map]
    exact columns.nodup
  refine bind_eq_ok.mpr ⟨written, hentries, bind_eq_ok.mpr ⟨columns.entries, ?_, ?_⟩⟩
  · rw [OrderedMap.entries_ofList hnodup]
    refine mapM_eq_ok.mpr (List.forall₂_map_left_iff.mpr (List.forall₂_same.mpr fun x _ => ?_))
    simp only [line?_spelled]
    rfl
  · exact pure_eq_ok.mpr columns.ofList_entries

theorem texts_spelled (names : List String) : texts (.seq (names.map .str)) = .ok names :=
  bind_eq_ok.mpr ⟨names.map .str, rfl, mapM_eq_ok.mpr (List.forall₂_map_left_iff.mpr (List.forall₂_same.mpr fun _ _ => rfl))⟩

/-- A field that has not stood before is taken over. -/
theorem foldFields_str {σ : Type} {readField : σ → String → Yaml → Read σ} {seen : List String} {s s' : σ} {name : String}
    {value : Yaml} (hnew : seen.contains name = false) (h : readField s name value = .ok s') (rest : List (Yaml × Yaml)) :
    foldFields readField seen s ((.str name, value) :: rest) = foldFields readField (name :: seen) s' rest := by
  have htext : text (.str name) = .ok name := rfl
  rw [foldFields, htext]
  change (if seen.contains name then malformed else readField s name value >>= fun s' => foldFields readField (name :: seen) s' rest) = _
  rw [hnew, h]
  rfl

open ModelDeclaration in
theorem read_spelled {factory : Option Yaml} (h : Quick s factory) : ModelDeclaration.read (spelled s factory) = .ok (unadded s) := by
  have hcolumns : ∀ o, readField o "columns" (.map (s.columns.entries.map fun x => (.str x.1, x.2.elim .null .str))) =
      .ok { o with columns := s.columns } := fun o => bind_eq_ok.mpr ⟨_, columnLines_spelled s.columns, rfl⟩
  have hhidden : ∀ o, readField o "hidden" (.seq (s.hidden.map .str)) = .ok { o with hidden := s.hidden } :=
    fun o => bind_eq_ok.mpr ⟨_, texts_spelled s.hidden, rfl⟩
  have htraits : ∀ o, readField o "traits" (.seq (s.traits.map .str)) = .ok { o with traits := s.traits } :=
    fun o => bind_eq_ok.mpr ⟨_, texts_spelled s.traits, rfl⟩
  have htype : ∀ o type, readField o "type" (.str type) = .ok { o with type := some type } := fun _ _ => rfl
  have hfactory : ∀ {o seen}, o.factory = none → seen.contains "factory" = false →
      foldFields readField seen o (factory.toList.map (.str "factory", ·)) = .ok { o with factory := s.factory } := by
    intro o seen hnone hnew
    have hgiven := h.factory
    cases factory with
    | none => exact congrArg Except.ok (congrArg (fun factory => { o with factory }) (hnone.trans (Eq.symm hgiven)))
    | some y =>
      have hread : readField o "factory" y = .ok { o with factory := s.factory } := bind_eq_ok.mpr ⟨_, hgiven, rfl⟩
      exact foldFields_str hnew hread []
  have hrest : unadded s = { ModelDeclaration.empty with
      columns := s.columns, hidden := s.hidden, type := s.type, traits := s.traits, factory := s.factory } := by
    rw [h.rest]
    rfl
  unfold ModelDeclaration.read spelled
  dsimp only [Yaml.untagged]
  cases htyped : s.type with
  | none =>
    refine (foldFields_str rfl (hcolumns _) _).trans ((foldFields_str rfl (hhidden _) _).trans
      ((foldFields_str rfl (htraits _) _).trans ((hfactory rfl rfl).trans ?_)))
    rw [hrest, htyped]
    rfl
  | some type =>
    refine (foldFields_str rfl (hcolumns _) _).trans ((foldFields_str rfl (hhidden _) _).trans ((foldFields_str rfl (htype _ _) _).trans
      ((foldFields_str rfl (htraits _) _).trans ((hfactory rfl rfl).trans ?_))))
    rw [hrest, htyped]

theorem quickDeclaration_of_modelDeclaration (hquick : Yaml.entry? entries "columns" = none)
    (h : modelDeclaration key (.map entries) = .ok s) : quickDeclaration key entries = .ok s := by
  unfold modelDeclaration at h
  cases entries with
  | nil => exact absurd h throw_ne_ok
  | cons x rest =>
    dsimp only at h
    rwa [hquick] at h

/-- The block that writes out a quick declaration declares the same, except that the key in it has not been added. -/
theorem modelDeclaration_spelled (hquick : Yaml.entry? entries "columns" = none) (h : modelDeclaration key (.map entries) = .ok s) :
    Quick s (quickFactory? entries) ∧ modelDeclaration key (spelled s (quickFactory? entries)) = .ok (unadded s) := by
  obtain ⟨hs, name, hname⟩ := quick_of_quickDeclaration (quickDeclaration_of_modelDeclaration hquick h)
  have hcolumns : s.columns.entries ≠ [] := by
    intro hempty
    unfold OrderedMap.keys at hname
    rw [hempty] at hname
    exact absurd hname List.not_mem_nil
  obtain ⟨x, rest, hentries⟩ := List.exists_cons_of_ne_nil hcolumns
  refine ⟨hs, ?_⟩
  have hspelled := read_spelled hs
  unfold modelDeclaration
  unfold spelled at hspelled ⊢
  rw [hentries] at hspelled ⊢
  exact mapError_eq_ok.mpr hspelled

end Schemata.Resolution
