import Schemata.Proofs.Resolution.Declarations

/-!
# Declarations with a reworded line

One relation line of a model stands in other words, wherever it is declared: in a block of columns, or among the lines of a quick
declaration. What is read from the declaration is the same but for that line.
-/

namespace Schemata

variable {name old new : String}

/-! ## Lines -/

/-- A line, which stands in other words if it is the one of that name. -/
def rewordLine (name old new : String) (key : String) (line : Option String) : Option String :=
  if key = name ∧ line = some old then some new else line

/-- A declaration with a line in other words. -/
def ModelDeclaration.reword (name old new : String) (s : ModelDeclaration) : ModelDeclaration :=
  { s with columns := s.columns.mapEntries (rewordLine name old new) }

namespace Yaml

open Schemata.Declaration

/-- The value of a line, which stands in other words if it is the one of that name. -/
def rewordValue (name old new key : String) (y : Yaml) : Yaml :=
  if key = name ∧ line? y = some (some old) then .str new else y

def rewordEntry (name old new : String) (entry : Yaml × Yaml) : Yaml × Yaml :=
  (entry.1, entry.1.untagged.str?.elim entry.2 (rewordValue name old new · entry.2))

/-- A mapping of lines with a line in other words. -/
def rewordLines (name old new : String) : Yaml → Yaml
  | .map entries => .map (entries.map (rewordEntry name old new))
  | .tagged tag y => .tagged tag (rewordLines name old new y)
  | y => y

/-- An entry of a block, whose columns have a line in other words. -/
def rewordField (name old new : String) (entry : Yaml × Yaml) : Yaml × Yaml :=
  if entry.1.untagged.str? = some "columns" then (entry.1, rewordLines name old new entry.2) else entry

/-- The declaration of a model with a line in other words: in its block of columns, or else among its own entries. -/
def reword (name old new : String) : Yaml → Yaml
  | .map entries =>
    if (Yaml.entry? entries "columns").isSome then .map (entries.map (rewordField name old new))
    else .map (entries.map (rewordEntry name old new))
  | y => y

end Yaml

/-- A schema in which a line of a model stands in other words. -/
def SchemaDeclaration.reword (schema : SchemaDeclaration) (key name old new : String) : SchemaDeclaration :=
  { schema with models := schema.models.modify key (Yaml.reword name old new) }

/-! ## Blocks -/

namespace Declaration

theorem untagged_rewordLines (y : Yaml) : (Yaml.rewordLines name old new y).untagged =
    match y.untagged with
    | .map entries => .map (entries.map (Yaml.rewordEntry name old new))
    | y => y := by
  induction y using Yaml.untagged.induct with
  | case1 tag y ih => simpa [Yaml.rewordLines, Yaml.untagged] using ih
  | case2 y h => cases y <;> simp_all [Yaml.rewordLines, Yaml.untagged]

theorem line?_rewordValue (key : String) (y : Yaml) :
    line? (Yaml.rewordValue name old new key y) = (line? y).map (rewordLine name old new key) := by
  unfold Yaml.rewordValue rewordLine
  split
  · rename_i h
    rw [h.2, Option.map_some, if_pos ⟨h.1, rfl⟩]
    rfl
  · rename_i h
    cases hline : line? y with
    | none => rfl
    | some line =>
      rw [Option.map_some, if_neg]
      rintro ⟨rfl, rfl⟩
      exact h ⟨rfl, hline⟩

theorem text_eq_ok {y : Yaml} {key : String} : text y = .ok key ↔ y.untagged.str? = some key := by
  unfold text
  cases y.untagged.str? with
  | none => exact iff_of_false throw_ne_ok nofun
  | some found => exact pure_eq_ok.trans Option.some_inj.symm

theorem entries_rewordLines {y : Yaml} {es : List (String × Yaml)} (h : entries y = .ok es) :
    entries (Yaml.rewordLines name old new y) = .ok (es.map fun (key, v) => (key, Yaml.rewordValue name old new key v)) := by
  unfold entries at h ⊢
  rw [untagged_rewordLines]
  split at h
  · rename_i raw hraw
    have hall := mapM_eq_ok.mp h
    rw [hraw]
    refine mapM_eq_ok.mpr (List.forall₂_map_left_iff.mpr (List.forall₂_map_right_iff.mpr (hall.imp ?_)))
    intro entry read hread
    obtain ⟨key, hkey, hread⟩ := bind_eq_ok.mp hread
    obtain rfl := pure_eq_ok.mp hread
    refine bind_eq_ok.mpr ⟨key, hkey, ?_⟩
    rw [text_eq_ok.mp hkey]
    rfl
  · rename_i hnull
    obtain rfl := pure_eq_ok.mp h
    rw [hnull]
    rfl
  · exact absurd h throw_ne_ok

theorem columnLines_rewordLines {y : Yaml} {columns : OrderedMap (Option String)} (h : columnLines y = .ok columns) :
    columnLines (Yaml.rewordLines name old new y) = .ok (columns.mapEntries (rewordLine name old new)) := by
  obtain ⟨es, hes, h⟩ := bind_eq_ok.mp h
  obtain ⟨lines, hlines, h⟩ := bind_eq_ok.mp h
  obtain rfl := pure_eq_ok.mp h
  refine bind_eq_ok.mpr ⟨_, entries_rewordLines hes, bind_eq_ok.mpr ⟨lines.map fun x =>
    (x.1, rewordLine name old new x.1 x.2), ?_, pure_eq_ok.mpr (OrderedMap.mapEntries_ofList _ _).symm⟩⟩
  rw [← OrderedMap.mapEntries_ofList]
  refine mapM_eq_ok.mpr (List.forall₂_map_left_iff.mpr (List.forall₂_map_right_iff.mpr ((mapM_eq_ok.mp hlines).imp ?_)))
  intro entry read hread
  dsimp only at hread ⊢
  rw [line?_rewordValue]
  split at hread
  · rename_i line hline
    obtain rfl := pure_eq_ok.mp hread
    rw [hline]
    rfl
  · exact absurd hread throw_ne_ok

end Declaration

namespace ModelDeclaration

open Declaration

variable {s t : ModelDeclaration}

theorem readField_reword {field : String} {y : Yaml} (h : s.readField field y = .ok t) :
    (s.reword name old new).readField field (if field = "columns" then Yaml.rewordLines name old new y else y) =
      .ok (t.reword name old new) := by
  by_cases hfield : field = "columns"
  · subst hfield
    obtain ⟨columns, hcolumns, h⟩ := bind_eq_ok.mp h
    obtain rfl := pure_eq_ok.mp h
    rw [if_pos rfl]
    exact bind_eq_ok.mpr ⟨_, columnLines_rewordLines hcolumns, rfl⟩
  · rw [if_neg hfield]
    unfold readField at h ⊢
    split at h
    · exact absurd rfl hfield
    all_goals first
      | exact absurd h throw_ne_ok
      | obtain ⟨_, hread, h⟩ := bind_eq_ok.mp h
        obtain rfl := pure_eq_ok.mp h
        exact bind_eq_ok.mpr ⟨_, hread, rfl⟩
      | obtain ⟨_, hread, h⟩ := bind_eq_ok.mp h
        obtain ⟨_, hread', h⟩ := bind_eq_ok.mp h
        obtain rfl := pure_eq_ok.mp h
        exact bind_eq_ok.mpr ⟨_, hread, bind_eq_ok.mpr ⟨_, hread', rfl⟩⟩

theorem foldFields_reword {seen : List String} {fields : List (Yaml × Yaml)}
    (h : foldFields readField seen s fields = .ok t) :
    foldFields readField seen (s.reword name old new) (fields.map (Yaml.rewordField name old new)) =
      .ok (t.reword name old new) := by
  induction fields generalizing seen s with
  | nil => exact congrArg (fun s => Except.ok (reword name old new s)) (pure_eq_ok.mp h)
  | cons field rest ih =>
    obtain ⟨k, v⟩ := field
    obtain ⟨key, hkey, h⟩ := bind_eq_ok.mp h
    have hfield : Yaml.rewordField name old new (k, v) =
        (k, if key = "columns" then Yaml.rewordLines name old new v else v) := by
      unfold Yaml.rewordField
      rw [text_eq_ok.mp hkey]
      by_cases hc : key = "columns" <;> simp [hc]
    rw [List.map_cons, hfield]
    refine bind_eq_ok.mpr ⟨key, hkey, ?_⟩
    split at h
    · exact absurd h throw_ne_ok
    · rename_i hseen
      obtain ⟨next, hnext, h⟩ := bind_eq_ok.mp h
      rw [if_neg hseen]
      exact bind_eq_ok.mpr ⟨_, readField_reword hnext, ih h⟩

end ModelDeclaration

/-! ## Quick declarations -/

namespace Resolution

open Declaration Shorthand

variable {s t : ModelDeclaration} {key : String}

/-- The words of a line that is one of a relation stand for a relation as well. -/
def SameKind (old new : String) : Prop :=
  (DeclaredRelation.kindOf? (.parse old)).isSome ∧
    DeclaredRelation.kindOf? (.parse new) = DeclaredRelation.kindOf? (.parse old)

theorem kindOf?_rewordLine (h : SameKind old new) (column : String) (line : Option String) :
    DeclaredRelation.kindOf? (Call.ofLine (rewordLine name old new column line)) =
      DeclaredRelation.kindOf? (Call.ofLine line) := by
  unfold rewordLine
  split
  · rename_i hline
    rw [hline.2]
    exact h.2
  · rfl

theorem declaresPrimary_rewordLine (h : SameKind old new) (column : String) (line : Option String) :
    declaresPrimary (rewordLine name old new column line) = declaresPrimary line := by
  unfold declaresPrimary
  dsimp only
  rw [kindOf?_rewordLine h]
  unfold rewordLine
  split
  · rename_i hline
    have hold : (DeclaredRelation.kindOf? (Call.ofLine (some old))).isSome = true := h.1
    have hrelation : (DeclaredRelation.kindOf? (Call.ofLine line)).isNone = false := by
      rw [hline.2]
      simpa using hold
    rw [hrelation, Bool.false_and, Bool.false_and]
  · rfl

theorem rewordLine_none (column : String) : rewordLine name old new column none = none :=
  if_neg nofun

theorem withKey_reword (h : SameKind old new) (s : ModelDeclaration) :
    withKey (s.reword name old new) = (withKey s).reword name old new := by
  unfold withKey ModelDeclaration.reword
  dsimp only
  rw [OrderedMap.contains_mapEntries, OrderedMap.contains_mapEntries,
    OrderedMap.any_values_mapEntries (declaresPrimary_rewordLine h)]
  split
  · rw [OrderedMap.mapEntries_erase]
  · split
    · rfl
    · rw [OrderedMap.mapEntries_insertFirst, rewordLine_none]

theorem withTimestamps_reword (s : ModelDeclaration) :
    withTimestamps (s.reword name old new) = (withTimestamps s).reword name old new := by
  unfold withTimestamps ModelDeclaration.reword
  dsimp only
  rw [show (s.columns.mapEntries (rewordLine name old new)).contains = s.columns.contains from
    funext (OrderedMap.contains_mapEntries _ _)]
  split
  · rfl
  · rw [OrderedMap.mapEntries_insert, rewordLine_none]

theorem secretColumns_mapEntries (h : SameKind old new) (columns : OrderedMap (Option String)) :
    secretColumns (columns.mapEntries (rewordLine name old new)) = secretColumns columns := by
  unfold secretColumns OrderedMap.mapEntries
  rw [List.filterMap_map]
  refine congrArg (List.filterMap · _) (funext fun entry => ?_)
  simp only [Function.comp_apply, kindOf?_rewordLine h]

theorem withSecrets_reword (h : SameKind old new) (s : ModelDeclaration) :
    withSecrets (s.reword name old new) = (withSecrets s).reword name old new := by
  unfold withSecrets ModelDeclaration.reword
  dsimp only
  rw [secretColumns_mapEntries h, show (s.columns.mapEntries (rewordLine name old new)).contains = s.columns.contains from
    funext (OrderedMap.contains_mapEntries _ _)]

theorem reword_insert (field : String) (line : Option String) :
    ({ s with columns := s.columns.insert field line } : ModelDeclaration).reword name old new =
      { s.reword name old new with columns := (s.reword name old new).columns.insert field (rewordLine name old new field line) } := by
  unfold ModelDeclaration.reword
  rw [OrderedMap.mapEntries_insert]

/-- The entry that is reworded. -/
theorem readQuickEntry_reword_of_line (h : SameKind old new) {column value : Yaml} (hfield : column.untagged.str? = some name)
    (hline : line? value = some (some old)) (hread : readQuickEntry key s column value = .ok t) :
    readQuickEntry key (s.reword name old new) column (.str new) = .ok (t.reword name old new) := by
  -- A switch is no line of a relation.
  have hflag : ∀ on, value ≠ .bool on := by
    rintro on rfl
    have hold := Option.some_inj.mp (Option.some_inj.mp hline)
    have hrelation := h.1
    rw [← hold] at hrelation
    cases on <;> exact absurd hrelation (by decide)
  rw [readQuickEntry_of_line hfield hline fun _ => hflag] at hread
  obtain rfl := Except.ok.inj hread
  rw [readQuickEntry_of_line hfield (rfl : line? (.str new) = some (some new)) fun _ _ => nofun, reword_insert, rewordLine,
    if_pos ⟨rfl, rfl⟩]

/-- Every other entry stays as it is. -/
theorem readQuickEntry_reword_of_not {column value : Yaml} {field : String} (hfield : column.untagged.str? = some field)
    (hnot : ¬(field = name ∧ line? value = some (some old))) (hread : readQuickEntry key s column value = .ok t) :
    readQuickEntry key (s.reword name old new) column value = .ok (t.reword name old new) := by
  unfold readQuickEntry at hread ⊢
  rw [hfield] at hread ⊢
  split at hread
  · exact absurd hread throw_ne_ok
  · obtain rfl := pure_eq_ok.mp hread
    rfl
  · obtain rfl := pure_eq_ok.mp hread
    rfl
  · rename_i entries _
    cases hfactory : Toggle.read FactoryDetail.read (.map entries) with
    | error fault => rw [hfactory] at hread; cases hread
    | ok factory =>
      rw [hfactory] at hread
      obtain rfl := pure_eq_ok.mp hread
      rfl
  · rename_i value _ _ field' heq _ _ _
    obtain rfl := Option.some_inj.mp heq
    cases hline : line? value with
    | none => rw [hline] at hread; exact absurd hread throw_ne_ok
    | some line =>
      rw [hline] at hread
      obtain rfl := pure_eq_ok.mp hread
      have hsame : rewordLine name old new field line = line := by
        refine if_neg ?_
        rintro ⟨rfl, rfl⟩
        exact hnot ⟨rfl, hline⟩
      rw [reword_insert, hsame]
      rfl

theorem readQuickEntry_reword (h : SameKind old new) {column value : Yaml}
    (hread : readQuickEntry key s column value = .ok t) :
    readQuickEntry key (s.reword name old new) column (Yaml.rewordEntry name old new (column, value)).2 =
      .ok (t.reword name old new) := by
  cases hfield : column.untagged.str? with
  | none =>
    unfold readQuickEntry at hread
    rw [hfield] at hread
    exact absurd hread throw_ne_ok
  | some field =>
    have hvalue : (Yaml.rewordEntry name old new (column, value)).2 = Yaml.rewordValue name old new field value := by
      unfold Yaml.rewordEntry
      rw [hfield]
      rfl
    rw [hvalue, Yaml.rewordValue]
    split
    · rename_i hreworded
      obtain ⟨rfl, hline⟩ := hreworded
      exact readQuickEntry_reword_of_line h hfield hline hread
    · rename_i hnot
      exact readQuickEntry_reword_of_not hfield hnot hread

theorem foldlM_readQuickEntry_reword (h : SameKind old new) {entries : List (Yaml × Yaml)}
    (hread : entries.foldlM (fun s (column, value) => readQuickEntry key s column value) s = .ok t) :
    (entries.map (Yaml.rewordEntry name old new)).foldlM (fun s (column, value) => readQuickEntry key s column value)
      (s.reword name old new) = .ok (t.reword name old new) := by
  induction entries generalizing s with
  | nil => exact congrArg (fun s => Except.ok (s.reword name old new)) (pure_eq_ok.mp hread)
  | cons entry rest ih =>
    obtain ⟨next, hnext, hread⟩ := bind_eq_ok.mp hread
    exact bind_eq_ok.mpr ⟨_, readQuickEntry_reword h hnext, ih hread⟩

theorem entry?_map {f : Yaml × Yaml → Yaml × Yaml} (hkey : ∀ entry, (f entry).1 = entry.1) (entries : List (Yaml × Yaml))
    (field : String) : Yaml.entry? (entries.map f) field =
      (entries.find? fun (k, _) => k.str? == some field).map fun entry => (f entry).2 := by
  unfold Yaml.entry?
  rw [List.find?_map, Option.map_map]
  refine congrArg (fun p => (entries.find? p).map _) (funext fun entry => ?_)
  simp [hkey]

theorem quickDeclaration_reword (h : SameKind old new) {entries : List (Yaml × Yaml)}
    (hread : quickDeclaration key entries = .ok s) :
    quickDeclaration key (entries.map (Yaml.rewordEntry name old new)) = .ok (s.reword name old new) := by
  obtain ⟨t, ht, rfl⟩ := map_eq_ok.mp hread
  refine map_eq_ok.mpr ⟨_, foldlM_readQuickEntry_reword h ht, ?_⟩
  rw [withKey_reword h, withTimestamps_reword, withSecrets_reword h]

theorem modelDeclaration_of_block {entries columns : List (Yaml × Yaml)} (hne : columns ≠ [])
    (h : Yaml.entry? entries "columns" = some (.map columns)) :
    modelDeclaration key (.map entries) = (ModelDeclaration.read (.map entries)).mapError (.invalidModel key) := by
  obtain ⟨_, _, rfl⟩ := List.exists_cons_of_ne_nil hne
  cases entries with
  | nil => cases h
  | cons => simp only [modelDeclaration, h]

theorem modelDeclaration_of_quick {entries : List (Yaml × Yaml)} (hne : entries ≠ [])
    (h : Yaml.entry? entries "columns" = none) : modelDeclaration key (.map entries) = quickDeclaration key entries := by
  cases entries with
  | nil => exact absurd rfl hne
  | cons => simp only [modelDeclaration, h]

theorem rewordField_fst (entry : Yaml × Yaml) : (Yaml.rewordField name old new entry).1 = entry.1 := by
  unfold Yaml.rewordField
  split <;> rfl

/-- A declaration with a relation line in other words is read as before, but for that line. -/
theorem modelDeclaration_reword (h : SameKind old new) {y : Yaml} (hread : modelDeclaration key y = .ok s) :
    modelDeclaration key (y.reword name old new) = .ok (s.reword name old new) := by
  unfold modelDeclaration at hread
  split at hread
  · exact absurd hread throw_ne_ok
  · rename_i entries hne
    split at hread
    · rename_i v rest hcolumns
      have hblock : Yaml.reword name old new (.map entries) = .map (entries.map (Yaml.rewordField name old new)) :=
        if_pos (by rw [hcolumns]; rfl)
      have hcolumns' : Yaml.entry? (entries.map (Yaml.rewordField name old new)) "columns" =
          some (.map ((v :: rest).map (Yaml.rewordEntry name old new))) := by
        obtain ⟨field, hfound, hfield⟩ := Option.map_eq_some_iff.mp hcolumns
        have hname : field.1.untagged.str? = some "columns" := by
          have hstr := List.find?_some hfound
          cases hk : field.1 <;> simp_all [Yaml.str?, Yaml.untagged]
        rw [entry?_map rewordField_fst, hfound, Option.map_some, Yaml.rewordField, if_pos hname, hfield]
        rfl
      rw [hblock, modelDeclaration_of_block (by simp) hcolumns']
      exact mapError_eq_ok.mpr (ModelDeclaration.foldFields_reword (mapError_eq_ok.mp hread))
    · exact absurd hread throw_ne_ok
    · rename_i hcolumns
      have hquick : Yaml.reword name old new (.map entries) = .map (entries.map (Yaml.rewordEntry name old new)) :=
        if_neg (by simp [hcolumns])
      have hcolumns' : Yaml.entry? (entries.map (Yaml.rewordEntry name old new)) "columns" = none :=
        (entry?_map (f := Yaml.rewordEntry name old new) (fun _ => rfl) entries "columns").trans
          (Option.map_eq_none_iff.mpr (Option.map_eq_none_iff.mp hcolumns))
      rw [hquick, modelDeclaration_of_quick (by simpa using hne) hcolumns']
      exact quickDeclaration_reword h hread
  · exact absurd hread throw_ne_ok

/-! ## All declarations -/

/-- A draft in which a line of a model stands in other words. -/
def Draft.reword (key name old new : String) (d : Draft) : Draft :=
  { d with
    schema := d.schema.reword key name old new
    declarations := d.declarations.modify key (·.reword name old new) }

theorem readDeclarations_reword (h : SameKind old new) {d e : Draft} (hd : d.declarations = .empty)
    (hread : readDeclarations d = .ok e) :
    readDeclarations (d.reword key name old new) = .ok (e.reword key name old new) := by
  obtain ⟨declarations, hall, hread⟩ := bind_eq_ok.mp hread
  obtain rfl := pure_eq_ok.mp hread
  have hreworded : (d.schema.reword key name old new).models.entries.mapM
      (fun x => return (x.1, ← modelDeclaration x.1 x.2)) =
        .ok (declarations.map fun x => (x.1, if x.1 = key then x.2.reword name old new else x.2)) := by
    refine mapM_eq_ok.mpr (List.forall₂_map_left_iff.mpr (List.forall₂_map_right_iff.mpr ((mapM_eq_ok.mp hall).imp ?_)))
    intro entry read hread
    obtain ⟨s, hs, hread⟩ := bind_eq_ok.mp hread
    obtain rfl := pure_eq_ok.mp hread
    refine bind_eq_ok.mpr ⟨_, ?_, rfl⟩
    dsimp only
    split
    · exact modelDeclaration_reword h hs
    · exact hs
  refine bind_eq_ok.mpr ⟨_, hreworded, pure_eq_ok.mpr ?_⟩
  have hmap := OrderedMap.mapEntries_ofList (fun k s => if k = key then s.reword name old new else s) declarations
  unfold Draft.reword
  dsimp only
  rw [hd, OrderedMap.modify, OrderedMap.modify]
  exact congrArg (fun ds => ({ d with schema := d.schema.reword key name old new, declarations := ds } : Draft)) hmap.symm

end Resolution

end Schemata
