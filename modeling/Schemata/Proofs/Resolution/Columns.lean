import Schemata.Proofs.Resolution.Identity
import Schemata.Resolution.Columns

/-!
# The pass of columns

Each line of a model makes its column or leaves a place for it, and what follows from the columns is derived in the end.
-/

namespace Schemata.Resolution

open Schemata.Shorthand

variable {d e : Draft}

theorem declareColumn_declared {key name : String} {line : Option String} {s : ModelDeclaration}
    (hs : d.declarations.get? key = some s) (hl : s.columns.get? name = some line)
    (h : declareColumn key name line d = .ok e) : Declared d e := by
  unfold declareColumn at h
  dsimp only at h
  split at h
  · rename_i kind hk
    split at h
    · rename_i hn
      obtain rfl := pure_eq_ok.mp h
      have hline : (name, kind) ∈ d.relationLines key := by
        unfold Draft.relationLines
        rw [hs]
        exact mem_relationLines_iff.mpr ⟨line, hl, hk⟩
      exact .of_modifyModel fun _ _ => .single (.reserve hline hn)
    · obtain rfl := pure_eq_ok.mp h
      exact refl_of Declared d
  · rename_i hk
    obtain ⟨column, hc, h⟩ := bind_eq_ok.mp h
    obtain rfl := pure_eq_ok.mp h
    refine .of_modifyModel fun _ _ => .single (.column (fun kind hline => ?_) (Column.declared_iff.mp hc).1)
    unfold Draft.relationLines at hline
    rw [hs] at hline
    obtain ⟨line', hl', hkind⟩ := mem_relationLines_iff.mp hline
    obtain rfl := Option.some_inj.mp (hl.symm.trans hl')
    rw [hk] at hkind
    cases hkind

theorem deriveKeys_declared {key : String} {s : ModelDeclaration} (h : deriveKeys key s d = .ok e) : Declared d e := by
  obtain ⟨m, _, h⟩ := bind_eq_ok.mp h
  obtain ⟨primary, _, h⟩ := bind_eq_ok.mp h
  obtain rfl := pure_eq_ok.mp h
  exact .of_modifyModel fun _ _ => .single .keys

theorem declareColumns_declared {key : String} {s : ModelDeclaration} (hs : d.declarations.get? key = some s)
    (h : declareColumns key s d = .ok () e) : Declared d e := by
  obtain ⟨_, c₁, h₁, h⟩ := Resolve.bind_run_ok.mp h
  obtain ⟨_, c₂, h₂, h₃⟩ := Resolve.bind_run_ok.mp h
  have hc : Declared d c₁ := by
    refine Resolve.along_of_forM ?_ h₁
    rintro ⟨name, line⟩ hx c c' hc hf
    have hl : s.columns.get? name = some line := OrderedMap.get?_eq_some_iff.mpr hx
    exact declareColumn_declared (hc.declarations ▸ hs) hl (Resolve.update_run_ok.mp hf)
  obtain ⟨_, rfl⟩ := Resolve.inspect_run_ok.mp h₂
  exact trans_of Declared hc (deriveKeys_declared (Resolve.update_run_ok.mp h₃))

theorem columns_run (d : Draft) : Pass.columns.body d = (d.declarations.entries.forM fun x => declareColumns x.1 x.2) d := rfl

theorem declared_columns (h : Pass.columns.body d = .ok () e) : Declared d e := by
  rw [columns_run] at h
  refine Resolve.along_of_forM ?_ h
  rintro ⟨key, s⟩ hx c c' hc hf
  have hs : d.declarations.get? key = some s := OrderedMap.get?_eq_some_iff.mpr hx
  exact declareColumns_declared (hc.declarations ▸ hs) hf

/-! ## What the lines make

The columns of a model are read off its declaration: each line makes its column, or leaves a place, or has none. -/

/-- What stands under the name of a line. -/
def columnSlot? (name : String) (line : Option String) : Option (Slot Column) :=
  match DeclaredRelation.kindOf? (Call.ofLine line) with
  | some kind => if kind.needsColumn then some .pending else none
  | none => some (.resolved (Column.ofLine name (Call.ofLine line)))

def columnSlots (lines : List (String × Option String)) : List (String × Slot Column) :=
  lines.filterMap fun (name, line) => (columnSlot? name line).map (name, ·)

/-- A model with one more line. -/
def withLine (m : Model) (name : String) (line : Option String) : Model :=
  match columnSlot? name line with
  | some .pending => { m with columns := m.columns.reserve name }
  | some (.resolved column) => { m with columns := m.columns.resolve name column }
  | none => m

/-- A model with some more lines. -/
def withLines (m : Model) (lines : List (String × Option String)) : Model :=
  lines.foldl (fun m x => withLine m x.1 x.2) m

theorem withLines_cons (m : Model) (x : String × Option String) (rest : List (String × Option String)) :
    withLines m (x :: rest) = withLines (withLine m x.1 x.2) rest :=
  rfl

/-- Lines change nothing but the columns of a model. -/
theorem exists_columns_withLines (m : Model) (lines : List (String × Option String)) :
    ∃ columns, withLines m lines = { m with columns } := by
  induction lines generalizing m with
  | nil => exact ⟨m.columns, rfl⟩
  | cons x rest ih =>
    obtain ⟨columns, hline⟩ : ∃ columns, withLine m x.1 x.2 = { m with columns } := by
      unfold withLine
      split
      · exact ⟨_, rfl⟩
      · exact ⟨_, rfl⟩
      · exact ⟨m.columns, rfl⟩
    obtain ⟨columns', hrest⟩ := ih (withLine m x.1 x.2)
    exact ⟨columns', by rw [withLines_cons, hrest, hline]⟩

theorem withLines_eq (lines : List (String × Option String)) (m : Model)
    (hn : (m.columns.keys ++ lines.map Prod.fst).Nodup) :
    ∃ columns, withLines m lines = { m with columns } ∧
      columns.map.entries = m.columns.map.entries ++ columnSlots lines := by
  induction lines generalizing m with
  | nil => exact ⟨m.columns, rfl, by simp [columnSlots]⟩
  | cons x rest ih =>
    obtain ⟨name, line⟩ := x
    have hname : name ∉ m.columns.keys := fun hm => (List.nodup_append.mp hn).2.2 name hm name (by simp) rfl
    have hrest : (m.columns.keys ++ rest.map Prod.fst).Nodup := by
      refine hn.sublist (List.Sublist.append_left ?_ _)
      exact List.sublist_cons_self _ _
    cases hs : columnSlot? name line with
    | none =>
      have hw : withLine m name line = m := by unfold withLine; rw [hs]
      obtain ⟨columns, hm, he⟩ := ih m hrest
      exact ⟨columns, by rw [withLines_cons, hw, hm], by rw [he]; simp [columnSlots, hs]⟩
    | some slot =>
      -- A place and a column both stand at the end, since no line before has the name.
      have hw : ∃ columns, withLine m name line = { m with columns } ∧
          columns.map.entries = m.columns.map.entries ++ [(name, slot)] := by
        have he : (m.columns.map.insert name slot).entries = m.columns.map.entries ++ [(name, slot)] :=
          OrderedMap.entries_insert hname
        cases slot with
        | pending =>
          refine ⟨m.columns.reserve name, by unfold withLine; rw [hs], ?_⟩
          unfold Slots.reserve
          rw [if_neg (by simpa [Slots.keys] using hname)]
          exact he
        | resolved column => exact ⟨m.columns.resolve name column, by unfold withLine; rw [hs], he⟩
      obtain ⟨columns₁, hw, he₁⟩ := hw
      have hkeys : columns₁.keys = m.columns.keys ++ [name] := by
        unfold Slots.keys OrderedMap.keys
        rw [he₁, List.map_append]
        rfl
      obtain ⟨columns, hm, he⟩ := ih { m with columns := columns₁ } (by simpa [hkeys] using hn)
      refine ⟨columns, by rw [withLines_cons, hw, hm], ?_⟩
      rw [he, he₁]
      simp [columnSlots, hs]

/-- The columns and the key of a model as its declaration has them. -/
structure Laid (s : ModelDeclaration) (m : Model) : Prop where
  entries : m.columns.map.entries = columnSlots s.columns.entries
  primary : primaryKey s m = .ok m.primary
  softDelete : m.softDelete = Resolution.softDelete m
  relations : ∀ n, m.relations.get? n = none

namespace Laid

variable {s : ModelDeclaration} {m : Model}

theorem slot?_eq_some_iff (hl : Laid s m) {name : String} {slot : Slot Column} : m.columns.slot? name = some slot ↔
    ∃ line, s.columns.get? name = some line ∧ columnSlot? name line = some slot := by
  unfold Slots.slot?
  rw [OrderedMap.get?_eq_some_iff, hl.entries]
  simp only [columnSlots, List.mem_filterMap, OrderedMap.get?_eq_some_iff]
  constructor
  · rintro ⟨⟨n, line⟩, hm, h⟩
    obtain ⟨slot', hs, heq⟩ := Option.map_eq_some_iff.mp h
    obtain ⟨rfl, rfl⟩ := Prod.mk.inj heq
    exact ⟨line, hm, hs⟩
  · rintro ⟨line, hm, hs⟩
    exact ⟨(name, line), hm, by simp [hs]⟩

theorem keys_sublist (hl : Laid s m) : m.columns.keys.Sublist s.columns.keys := by
  unfold Slots.keys OrderedMap.keys
  rw [hl.entries]
  generalize s.columns.entries = lines
  induction lines with
  | nil => exact .slnil
  | cons x rest ih =>
    obtain ⟨name, line⟩ := x
    cases hs : columnSlot? name line with
    | none => simpa [columnSlots, List.filterMap_cons, hs] using ih.cons name
    | some slot => simpa [columnSlots, List.filterMap_cons, hs] using ih.cons_cons name

/-- A relation has a place for its column if it needs one, and no column otherwise. -/
theorem slot?_relation (hl : Laid s m) {name : String} {kind : RelationKind} (h : (name, kind) ∈ relationLines s) :
    m.columns.slot? name = if kind.needsColumn then some .pending else none := by
  obtain ⟨line, hline, hk⟩ := mem_relationLines_iff.mp h
  apply Option.ext
  intro slot
  rw [hl.slot?_eq_some_iff]
  constructor
  · rintro ⟨line', hline', hs⟩
    obtain rfl := Option.some_inj.mp (hline.symm.trans hline')
    rw [← hs, columnSlot?, hk]
  · intro hs
    exact ⟨line, hline, by rw [columnSlot?, hk]; exact hs⟩

theorem slot?_column (hl : Laid s m) {name : String} {line : Option String} (hline : s.columns.get? name = some line)
    (hk : DeclaredRelation.kindOf? (Call.ofLine line) = none) :
    m.columns.slot? name = some (.resolved (Column.ofLine name (Call.ofLine line))) :=
  hl.slot?_eq_some_iff.mpr ⟨line, hline, by rw [columnSlot?, hk]⟩

theorem primaryColumn? (hl : Laid s m) (hp : m.primary.isSome) : ∃ c, m.primaryColumn? = some c := by
  obtain ⟨key, hkey⟩ := Option.isSome_iff_exists.mp hp
  have hprimary := hl.primary
  rw [hkey] at hprimary
  unfold Model.primaryColumn?
  rw [hkey, Option.bind_some]
  unfold primaryKey at hprimary
  split at hprimary
  · cases hprimary
  · dsimp only at hprimary
    split at hprimary
    · rename_i p _ _ column hc
      obtain rfl := Option.some_inj.mp (pure_eq_ok.mp hprimary)
      have hname : column.name = p.column.getD "id" := by simpa using List.find?_some hc
      exact ⟨column, by rw [← hname] at hc; exact hc⟩
    · cases hprimary
  · obtain ⟨column, hc, rfl⟩ := Option.map_eq_some_iff.mp (pure_eq_ok.mp hprimary)
    refine Option.isSome_iff_exists.mp (List.find?_isSome.mpr ⟨column, List.mem_of_find?_eq_some hc, ?_⟩)
    exact beq_iff_eq.mpr rfl

theorem get?_added (hl : Laid s m) (hs : StartsWithKey s) : m.columns.get? "id" = some (Column.plain "id" "id") := by
  obtain ⟨rest, hs⟩ := hs
  have hline : s.columns.get? "id" = some none := OrderedMap.get?_eq_some_iff.mpr (hs ▸ List.mem_cons_self)
  exact Slots.get?_eq_some_iff.mpr (hl.slot?_column hline (by decide))

theorem added (hl : Laid s m) (hs : StartsWithKey s) (hp : s.primary = none) :
    m.primaryName = "id" ∧ m.foreignMethod = ("unsignedBigInteger", []) := by
  obtain ⟨rest, hs⟩ := hs
  obtain ⟨others, hv⟩ : ∃ others, m.columns.values = Column.plain "id" "id" :: others := by
    refine ⟨((columnSlots rest).filterMap fun (k, slot) => slot.value?.map (k, ·)).map Prod.snd, ?_⟩
    have hid : columnSlot? "id" none = some (.resolved (Column.plain "id" "id")) := by decide
    unfold Slots.values Slots.resolved
    rw [hl.entries, hs]
    simp only [columnSlots, List.filterMap_cons, hid]
    rfl
  have hprimary := hl.primary
  unfold primaryKey at hprimary
  rw [hp, hv, List.find?_cons_of_pos (by decide)] at hprimary
  have hkey := (pure_eq_ok.mp hprimary).symm
  have hcolumn : m.primaryColumn? = some (Column.plain "id" "id") := by
    rw [Model.primaryColumn?, hkey]
    change m.columns.values.find? (·.name == "id") = _
    rw [hv, List.find?_cons_of_pos (by decide)]
  refine ⟨by rw [Model.primaryName, hkey]; rfl, ?_⟩
  rw [Model.foreignMethod, hcolumn]
  rfl

end Laid

theorem awaits_of_laid (h : ∀ k n, d.models.get? k = some n → ∃ s, d.declarations.get? k = some s ∧ Laid s n)
    {kind : RelationKind} (hk : kind.needsColumn = true) : d.Awaits kind := by
  intro k m n hm hn
  obtain ⟨s, hs, hl⟩ := h k m hm
  unfold Draft.relationLines at hn
  rw [hs] at hn
  rw [hl.slot?_relation hn, if_pos hk]

/-! ## One model

The columns of a declaration come to the model of its key alone.
-/

section

variable {m : Model}

/-- Puts another model in the place of the one of a key. -/
def Draft.setModel (d : Draft) (key : String) (m : Model) : Draft :=
  d.modifyModel key fun _ => m

theorem Draft.modifyModel_eq {key : String} {m : Model} (hm : d.models.get? key = some m) (f : Model → Model) :
    d.modifyModel key f = d.setModel key (f m) := by
  refine congrArg (fun models => { d with models }) (OrderedMap.mapEntries_congr fun k n hn => ?_)
  dsimp only
  split
  · rename_i hk
    rw [Option.some_inj.mp (hn.symm.trans (hk ▸ hm))]
  · rfl

theorem Draft.setModel_self {key : String} {m : Model} (hm : d.models.get? key = some m) : d.setModel key m = d := by
  have hself : d.models.mapEntries (fun _ n => n) = d.models := OrderedMap.ext (List.map_id _)
  have hset : d.setModel key m = { d with models := d.models.mapEntries fun _ n => n } := by
    refine congrArg (fun models => { d with models }) (OrderedMap.mapEntries_congr fun k n hn => ?_)
    dsimp only
    split
    · rename_i hk
      exact Option.some_inj.mp ((hk ▸ hm).symm.trans hn)
    · rfl
  rw [hset, hself]

theorem Draft.get?_setModel {key : String} {m : Model} (hm : d.models.get? key = some m) (n : Model) :
    (d.setModel key n).models.get? key = some n := by
  unfold setModel
  rw [get?_modifyModel, if_pos rfl, hm]
  rfl

theorem Draft.setModel_setModel (d : Draft) (key : String) (m n : Model) :
    (d.setModel key m).setModel key n = d.setModel key n := by
  unfold setModel modifyModel OrderedMap.modify
  dsimp only
  rw [OrderedMap.mapEntries_mapEntries]
  refine congrArg (fun w => { d with models := d.models.mapEntries w }) (funext fun k => funext fun o => ?_)
  split <;> rfl

/-- A line makes a column that may be declared, or none. -/
def Declarable (k name : String) (line : Option String) : Prop :=
  (DeclaredRelation.kindOf? (Call.ofLine line)).isSome ∨ ∃ column, Column.declared (.model k) name (Call.ofLine line) = .ok column

theorem declareColumn_iff {k name : String} {line : Option String} (hm : d.models.get? k = some m) :
    declareColumn k name line d = .ok e ↔ Declarable k name line ∧ e = d.setModel k (withLine m name line) := by
  unfold declareColumn Declarable withLine columnSlot?
  dsimp only
  cases hk : DeclaredRelation.kindOf? (Call.ofLine line) with
  | some kind =>
    by_cases hneeds : kind.needsColumn = true
    · simp only [if_pos hneeds, Draft.modifyModel_eq hm, pure_eq_ok, Option.isSome_some, true_or, true_and]
      exact eq_comm
    · simp only [if_neg hneeds, Draft.setModel_self hm, pure_eq_ok, Option.isSome_some, true_or, true_and]
      exact eq_comm
  | none =>
    rw [bind_eq_ok]
    constructor
    · rintro ⟨column, hcolumn, he⟩
      refine ⟨.inr ⟨column, hcolumn⟩, ?_⟩
      obtain ⟨_, rfl⟩ := Column.declared_iff.mp hcolumn
      rw [← pure_eq_ok.mp he, Draft.modifyModel_eq hm]
    · rintro ⟨hdeclared, rfl⟩
      obtain ⟨column, hcolumn⟩ := hdeclared.resolve_left (by simp)
      refine ⟨column, hcolumn, ?_⟩
      obtain ⟨_, rfl⟩ := Column.declared_iff.mp hcolumn
      rw [Draft.modifyModel_eq hm]
      rfl

theorem declareLines_iff {k : String} {lines : List (String × Option String)} (hm : d.models.get? k = some m) :
    (lines.forM fun (name, line) => Resolve.update (declareColumn k name line)) d = .ok () e ↔
      (∀ x ∈ lines, Declarable k x.1 x.2) ∧ e = d.setModel k (withLines m lines) := by
  induction lines generalizing d m with
  | nil =>
    change (_ ↔ _ ∧ e = d.setModel k m)
    rw [Resolve.forM_nil_run_ok, Draft.setModel_self hm]
    exact ⟨fun h => ⟨fun _ h => absurd h List.not_mem_nil, h.symm⟩, fun h => h.2.symm⟩
  | cons x rest ih =>
    simp only [Resolve.forM_cons_run_ok, Resolve.update_run_ok, declareColumn_iff hm, withLines_cons, List.forall_mem_cons]
    constructor
    · rintro ⟨_, ⟨hx, rfl⟩, hrun⟩
      obtain ⟨hrest, rfl⟩ := (ih (Draft.get?_setModel hm _)).mp hrun
      exact ⟨⟨hx, hrest⟩, Draft.setModel_setModel ..⟩
    · rintro ⟨⟨hx, hrest⟩, rfl⟩
      exact ⟨_, ⟨hx, rfl⟩, (ih (Draft.get?_setModel hm _)).mpr ⟨hrest, (Draft.setModel_setModel ..).symm⟩⟩

/-- A model with what follows from its columns. -/
def derived (s : ModelDeclaration) (primary : Option PrimaryKey) (m : Model) : Model :=
  { m with primary, timestamps := timestamps s m, softDelete := softDelete m }

/-- The columns of a declaration may stand together in a model, and make its key. -/
structure Derives (k : String) (s : ModelDeclaration) (m : Model) (primary : Option PrimaryKey) : Prop where
  lines : ∀ x ∈ s.columns.entries, Declarable k x.1 x.2
  autoIncrement : checkAutoIncrement (.model k) m.columns.values = .ok ()
  physical : checkPhysical (.model k) m.columns.values = .ok ()
  primary : primaryKey s m = .ok primary

theorem Derives.congr {k : String} {s : ModelDeclaration} {n : Model} {primary : Option PrimaryKey} (h : Derives k s m primary)
    (hc : n.columns = m.columns) (hk : n.key = m.key) : Derives k s n primary where
  lines := h.lines
  autoIncrement := hc ▸ h.autoIncrement
  physical := hc ▸ h.physical
  primary := by
    have hprimary := h.primary
    unfold primaryKey Model.columnNamed? at hprimary ⊢
    rwa [hc, hk]

theorem declareColumns_iff {k : String} {s : ModelDeclaration} (hm : d.models.get? k = some m) : declareColumns k s d = .ok () e ↔
    ∃ primary, Derives k s (withLines m s.columns.entries) primary ∧
      e = d.setModel k (derived s primary (withLines m s.columns.entries)) := by
  have hset := Draft.get?_setModel hm (withLines m s.columns.entries)
  unfold declareColumns
  simp only [Resolve.bind_run_ok, declareLines_iff hm, Resolve.inspect_run_ok, Resolve.update_run_ok]
  constructor
  · rintro ⟨_, _, ⟨hlines, rfl⟩, _, _, ⟨hcheck, rfl⟩, hderive⟩
    obtain ⟨o, ho, hcheck⟩ := bind_eq_ok.mp hcheck
    obtain rfl := Option.some_inj.mp ((Draft.model_eq_ok.mp ho).symm.trans hset)
    obtain ⟨_, hauto, hphysical⟩ := bind_eq_ok.mp hcheck
    obtain ⟨o, ho, hderive⟩ := bind_eq_ok.mp hderive
    obtain rfl := Option.some_inj.mp ((Draft.model_eq_ok.mp ho).symm.trans hset)
    obtain ⟨primary, hprimary, hderive⟩ := bind_eq_ok.mp hderive
    refine ⟨primary, ⟨hlines, hauto, hphysical, hprimary⟩, ?_⟩
    rw [← pure_eq_ok.mp hderive, Draft.modifyModel_eq hset, Draft.setModel_setModel]
    rfl
  · rintro ⟨primary, hn, rfl⟩
    refine ⟨(), _, ⟨hn.lines, rfl⟩, (), _, ⟨?_, rfl⟩, ?_⟩
    · exact bind_eq_ok.mpr ⟨_, Draft.model_eq_ok.mpr hset, bind_eq_ok.mpr ⟨(), hn.autoIncrement, hn.physical⟩⟩
    · refine bind_eq_ok.mpr ⟨_, Draft.model_eq_ok.mpr hset, bind_eq_ok.mpr ⟨primary, hn.primary, ?_⟩⟩
      rw [Draft.modifyModel_eq hset, Draft.setModel_setModel]
      rfl

theorem keys_declareColumn {key name : String} {line : Option String} (h : declareColumn key name line d = .ok e) :
    e.models.keys = d.models.keys := by
  unfold declareColumn at h
  dsimp only at h
  split at h
  · split at h
    all_goals rw [← pure_eq_ok.mp h]
    exact OrderedMap.keys_modify ..
  · obtain ⟨_, _, h⟩ := bind_eq_ok.mp h
    rw [← pure_eq_ok.mp h]
    exact OrderedMap.keys_modify ..

/-- Columns are declared for a model. -/
theorem exists_model_of_declareColumns {k : String} {s : ModelDeclaration} (h : declareColumns k s d = .ok () e) :
    ∃ m, d.models.get? k = some m := by
  obtain ⟨_, c, hlines, h⟩ := Resolve.bind_run_ok.mp h
  obtain ⟨_, _, hcheck, _⟩ := Resolve.bind_run_ok.mp h
  obtain ⟨hcheck, _⟩ := Resolve.inspect_run_ok.mp hcheck
  obtain ⟨m, hm, _⟩ := bind_eq_ok.mp hcheck
  have hkeys : c.models.keys = d.models.keys :=
    Resolve.along_of_forM (R := Resolve.Keeps fun c => c.models.keys)
      (fun _ _ _ _ _ hf => keys_declareColumn (Resolve.update_run_ok.mp hf)) hlines
  exact OrderedMap.mem_keys_iff.mp (hkeys ▸ OrderedMap.mem_keys_iff.mpr ⟨m, Draft.model_eq_ok.mp hm⟩)

end

theorem declareColumns_ok {key : String} {s : ModelDeclaration} (h : declareColumns key s d = .ok () e) :
    (∀ k, k ≠ key → e.models.get? k = d.models.get? k) ∧
      ∀ m, d.models.get? key = some m → m.columns = .empty → (∀ n, m.relations.get? n = none) →
        ∃ n, e.models.get? key = some n ∧ Laid s n := by
  obtain ⟨m₀, hm₀⟩ := exists_model_of_declareColumns h
  obtain ⟨primary, hderives, rfl⟩ := (declareColumns_iff hm₀).mp h
  refine ⟨fun k hk => (Draft.get?_modifyModel ..).trans (if_neg hk), fun m hm hc hr => ⟨_, Draft.get?_setModel hm₀ _, ?_⟩⟩
  obtain rfl := Option.some_inj.mp (hm₀.symm.trans hm)
  obtain ⟨columns, heq, hentries⟩ := withLines_eq s.columns.entries m₀ (by rw [hc]; exact s.columns.nodup)
  rw [heq] at hderives ⊢
  refine ⟨?_, hderives.primary, rfl, hr⟩
  rw [hc] at hentries
  exact hentries

theorem laid_columns (hd : d.Sound) (hb : d.Bare) (h : Pass.columns.body d = .ok () e) {k : String} {n : Model}
    (hn : e.models.get? k = some n) : ∃ s, e.declarations.get? k = some s ∧ Laid s n := by
  have hde := declared_columns h
  rw [columns_run] at h
  obtain ⟨m, hm, _⟩ := hde.back hn
  have hk : k ∈ d.declarations.keys := hd.keys ▸ OrderedMap.mem_keys_iff.mpr ⟨m, hm⟩
  obtain ⟨s, hs⟩ := OrderedMap.mem_keys_iff.mp hk
  have apart : ∀ x ∈ d.declarations.entries, ∀ y ∈ d.declarations.entries, y.1 ≠ x.1 → ∀ c c',
      declareColumns y.1 y.2 c = .ok () c' → c'.models.get? x.1 = c.models.get? x.1 :=
    fun x _ y _ hne c c' hf => (declareColumns_ok hf).1 x.1 hne.symm
  have turn : ∀ x ∈ d.declarations.entries, ∀ c c', Declared d c → c.models.get? x.1 = d.models.get? x.1 →
      declareColumns x.1 x.2 c = .ok () c' → Declared c c' :=
    fun x hx c c' hc _ hf => declareColumns_declared (hc.declarations ▸ OrderedMap.get?_eq_some_iff.mpr hx) hf
  obtain ⟨_, _, c, c', _, _, hf, _, _, _, hv, hv'⟩ :=
    Resolve.exists_turn d.declarations.nodup apart turn h (OrderedMap.get?_eq_some_iff.mp hs)
  obtain ⟨hempty, hr⟩ := hb k m hm
  obtain ⟨n', hn', hl⟩ := (declareColumns_ok hf).2 m (hv.trans hm) hempty hr
  obtain rfl := Option.some_inj.mp (hn.symm.trans (hv'.trans hn'))
  exact ⟨s, hde.declarations ▸ hs, hl⟩

theorem failsInSchema_columns : Resolve.FailsInSchema Pass.columns.body :=
  .bind .get fun _ => .forM fun _ _ => .bind (.forM fun _ _ => .update _) fun _ => .bind (.inspect _) fun _ => .update _

end Schemata.Resolution
