import Schemata.Proofs.Resolution.Padded

/-!
# Lines as they are, and quick lines

The same lines may stand in a block of columns, which means no more than they say, or make a quick declaration, which adds a key and
timestamps to them and hides some of their columns.
-/

namespace Schemata.Resolution

open Declaration Shorthand

variable {key : String} {entries : List (Yaml × Yaml)} {s : ModelDeclaration} {columns : OrderedMap (Option String)}

/-- The block that declares columns and nothing else. -/
def columnsBlock (entries : List (Yaml × Yaml)) : Yaml :=
  .map [(.str "columns", .map entries)]

/-- A declaration of columns and nothing else. -/
def ofColumns (columns : OrderedMap (Option String)) : ModelDeclaration :=
  { ModelDeclaration.empty with columns }

/-- What a quick declaration makes of its columns. -/
def quickened (columns : OrderedMap (Option String)) : ModelDeclaration :=
  withSecrets (withTimestamps (withKey (ofColumns columns)))

/-! ## Reading -/

theorem modelDeclaration_columnsBlock (h : modelDeclaration key (columnsBlock entries) = .ok s) :
    entries ≠ [] ∧ ∃ columns, columnLines (.map entries) = .ok columns ∧ s = ofColumns columns := by
  have hentry : Yaml.entry? [(.str "columns", .map entries)] "columns" = some (.map entries) := rfl
  unfold modelDeclaration columnsBlock at h
  dsimp only at h
  rw [hentry] at h
  cases entries with
  | nil => exact absurd h throw_ne_ok
  | cons x rest =>
    have hread := mapError_eq_ok.mp h
    change (ModelDeclaration.readField .empty "columns" (.map (x :: rest)) >>= fun s => pure s) = .ok s at hread
    obtain ⟨after, hafter, hs⟩ := bind_eq_ok.mp hread
    obtain rfl := pure_eq_ok.mp hs
    obtain ⟨columns, hcolumns, hs⟩ := bind_eq_ok.mp hafter
    exact ⟨List.cons_ne_nil x rest, columns, hcolumns, (pure_eq_ok.mp hs).symm⟩

/-- An entry of a quick declaration is a column line. -/
def IsLine (x : Yaml × Yaml) : Prop :=
  (line? x.2).isSome ∧ givenFactory? x = none

/-- The line that a value gives. -/
def lineOf (value : Yaml) : Option String :=
  (line? value).getD none

theorem readQuickEntry_line {x : Yaml × Yaml} (hx : IsLine x) {name : String} (hname : text x.1 = .ok name) (s : ModelDeclaration) :
    readQuickEntry key s x.1 x.2 = .ok { s with columns := s.columns.insert name (lineOf x.2) } := by
  obtain ⟨hline, hfactory⟩ := hx
  obtain ⟨line, hline⟩ := Option.isSome_iff_exists.mp hline
  have hstr : x.1.untagged.str? = some name := by
    unfold text at hname
    cases hs : x.1.untagged.str? with
    | none => rw [hs] at hname; exact absurd hname throw_ne_ok
    | some given => rw [hs] at hname; exact congrArg some (pure_eq_ok.mp hname)
  have hflag : name = "factory" → ∀ on, x.2 ≠ .bool on := by
    rintro rfl on hbool
    unfold givenFactory? at hfactory
    rw [if_pos ⟨hstr, by rw [hbool]; rfl⟩] at hfactory
    cases hfactory
  rw [lineOf, hline, Option.getD_some]
  exact readQuickEntry_of_line hstr hline hflag

/-- The entry stands under the name of the pair, with its value. -/
def Names (x : Yaml × Yaml) (y : String × Yaml) : Prop :=
  text x.1 = .ok y.1 ∧ y.2 = x.2

/-- A block of lines has a line for each name, of which the last one counts. -/
theorem columnLines_eq (h : columnLines (.map entries) = .ok columns) : ∃ pairs, List.Forall₂ Names entries pairs ∧
    columns = .ofList (pairs.map fun x => (x.1, lineOf x.2)) := by
  obtain ⟨pairs, hpairs, h⟩ := bind_eq_ok.mp h
  obtain ⟨lines, hl, h⟩ := bind_eq_ok.mp h
  have hnames : List.Forall₂ Names entries pairs :=
    (mapM_eq_ok.mp hpairs).imp fun x y hxy => by
      obtain ⟨name, hname, hy⟩ := bind_eq_ok.mp hxy
      obtain rfl := pure_eq_ok.mp hy
      exact ⟨hname, rfl⟩
  have hread : lines = ((OrderedMap.ofList pairs).mapEntries fun _ => lineOf).entries := by
    refine (List.map_id lines).symm.trans (map_eq_of_forall₂ (fun {x y} hxy => ?_) (mapM_eq_ok.mp hl))
    obtain ⟨name, value⟩ := x
    dsimp only [lineOf] at hxy ⊢
    cases hline : line? value with
    | none => rw [hline] at hxy; exact absurd hxy throw_ne_ok
    | some line => rw [hline] at hxy; exact (pure_eq_ok.mp hxy).symm
  refine ⟨pairs, hnames, ?_⟩
  rw [← pure_eq_ok.mp h, hread]
  exact (OrderedMap.ofList_entries _).trans (OrderedMap.mapEntries_ofList (fun _ => lineOf) pairs)

theorem foldlM_readQuickEntry_lines {pairs : List (String × Yaml)} (hlines : ∀ x ∈ entries, IsLine x)
    (hnames : List.Forall₂ Names entries pairs) (s : ModelDeclaration) :
    entries.foldlM (fun s x => readQuickEntry key s x.1 x.2) s =
      .ok { s with columns := pairs.foldl (fun m y => m.insert y.1 (lineOf y.2)) s.columns } := by
  induction hnames generalizing s with
  | nil => rfl
  | cons hxy _ ih =>
    rw [List.foldlM_cons, List.foldl_cons]
    refine bind_eq_ok.mpr ⟨_, readQuickEntry_line (hlines _ List.mem_cons_self) hxy.1 s, ?_⟩
    rw [ih (fun x hx => hlines x (List.mem_cons_of_mem _ hx)), ← hxy.2]

theorem modelDeclaration_quickened (hquick : Yaml.entry? entries "columns" = none) (hlines : ∀ x ∈ entries, IsLine x)
    (hne : entries ≠ []) (h : columnLines (.map entries) = .ok columns) :
    modelDeclaration key (.map entries) = .ok (quickened columns) := by
  obtain ⟨pairs, hnames, hcolumns⟩ := columnLines_eq h
  have hread : entries.foldlM (fun s x => readQuickEntry key s x.1 x.2) ModelDeclaration.empty = .ok (ofColumns columns) := by
    rw [foldlM_readQuickEntry_lines hlines hnames, hcolumns]
    unfold OrderedMap.ofList
    rw [List.foldl_map]
    rfl
  obtain ⟨x, rest, rfl⟩ := List.exists_cons_of_ne_nil hne
  unfold modelDeclaration
  dsimp only
  rw [hquick]
  exact map_eq_ok.mpr ⟨_, hread, rfl⟩

/-! ## What is added -/

/-- A key is added to columns. -/
def addsKey (columns : OrderedMap (Option String)) : Bool :=
  !(columns.contains "uuid" || columns.contains "id" || columns.values.any declaresPrimary)

/-- Timestamps are added to columns. -/
def addsTimes (columns : OrderedMap (Option String)) : Bool :=
  !Column.timestampsTypes.any columns.contains

/-- The line that may be added under a name. -/
def linePad (on : Bool) (name : String) : List (String × Option String) :=
  if on then [(name, none)] else []

/-- The line that is added declares nothing that asks for a text. -/
theorem filterMap_linePad {β : Type} {f : String × Option String → Option β} {name : String} (hf : f (name, none) = none) (on : Bool) :
    (linePad on name).filterMap f = [] := by
  cases on with
  | false => rfl
  | true => exact List.filterMap_cons_none hf

theorem entries_withKey (h : ¬("uuid" ∈ columns.keys ∧ "id" ∈ columns.keys)) :
    (withKey (ofColumns columns)).columns.entries = linePad (addsKey columns) "id" ++ columns.entries := by
  have hcolumns : (ofColumns columns).columns = columns := rfl
  have herase : "id" ∉ columns.keys → (columns.erase "id").entries = columns.entries := fun hid =>
    List.filter_eq_self.mpr fun x hx => bne_iff_ne.mpr fun heq => hid (heq ▸ List.mem_map_of_mem hx)
  unfold withKey addsKey
  rw [hcolumns]
  by_cases huuid : columns.contains "uuid" = true
  · rw [if_pos huuid, huuid]
    exact herase fun hid => h ⟨OrderedMap.contains_iff.mp huuid, hid⟩
  · rw [if_neg huuid, Bool.eq_false_iff.mpr huuid, Bool.false_or]
    by_cases hkey : (columns.contains "id" || columns.values.any declaresPrimary) = true
    · rw [if_pos hkey, hkey]
      rfl
    · rw [if_neg hkey, Bool.eq_false_iff.mpr hkey]
      have hid : "id" ∉ columns.keys := fun hid => hkey (by rw [OrderedMap.contains_iff.mpr hid]; rfl)
      exact congrArg (("id", none) :: ·) (herase hid)

theorem entries_quickened (h : ¬("uuid" ∈ columns.keys ∧ "id" ∈ columns.keys)) : (quickened columns).columns.entries =
    linePad (addsKey columns) "id" ++ columns.entries ++ linePad (addsTimes columns) "timestamps" := by
  have hkey := entries_withKey h
  have hcontains : ∀ name ∈ Column.timestampsTypes, (withKey (ofColumns columns)).columns.contains name = columns.contains name := by
    intro name hname
    have hne : name ≠ "id" := by
      rintro rfl
      exact absurd hname (by decide)
    unfold OrderedMap.contains OrderedMap.keys
    rw [hkey, List.map_append]
    cases addsKey columns <;> simp [linePad, hne]
  have hany : Column.timestampsTypes.any (withKey (ofColumns columns)).columns.contains = Column.timestampsTypes.any columns.contains :=
    Bool.eq_iff_iff.mpr (by
      simp only [List.any_eq_true]
      exact exists_congr fun name => and_congr_right fun hname => by rw [hcontains name hname])
  change (withTimestamps (withKey (ofColumns columns))).columns.entries = _
  unfold withTimestamps addsTimes
  rw [hany]
  split
  · rename_i htimes
    rw [htimes, hkey]
    simp [linePad]
  · rename_i htimes
    have hnot : "timestamps" ∉ (withKey (ofColumns columns)).columns.keys := fun hmem =>
      htimes (hany ▸ List.any_eq_true.mpr ⟨"timestamps", by decide, OrderedMap.contains_iff.mpr hmem⟩)
    rw [Bool.eq_false_iff.mpr htimes]
    dsimp only
    rw [OrderedMap.entries_insert hnot, hkey]
    rfl

/-- A quick declaration says nothing beyond its columns but which of them are hidden, whether its model is a user, and whether its key was
added. -/
theorem quickened_eq (columns : OrderedMap (Option String)) : ∃ type, (type = none ∨ type = some "user") ∧ quickened columns =
    { ofColumns (quickened columns).columns with
      hidden := secretColumns (quickened columns).columns, type, autoId := addsKey columns } := by
  have hkey : withKey (ofColumns columns) =
      { ofColumns (withKey (ofColumns columns)).columns with autoId := addsKey columns } := by
    have hcolumns : (ofColumns columns).columns = columns := rfl
    unfold withKey addsKey
    rw [hcolumns]
    by_cases huuid : columns.contains "uuid" = true
    · rw [if_pos huuid, huuid]
      rfl
    · rw [if_neg huuid, Bool.eq_false_iff.mpr huuid, Bool.false_or]
      by_cases hkey : (columns.contains "id" || columns.values.any declaresPrimary) = true
      · rw [if_pos hkey, hkey]
        rfl
      · rw [if_neg hkey, Bool.eq_false_iff.mpr hkey]
        rfl
  have htimes : withTimestamps (withKey (ofColumns columns)) =
      { ofColumns (withTimestamps (withKey (ofColumns columns))).columns with autoId := addsKey columns } := by
    unfold withTimestamps
    split
    · exact hkey
    · rw [hkey]
      rfl
  refine ⟨(quickened columns).type, ?_, ?_⟩
  · unfold quickened withSecrets
    dsimp only
    split
    · exact .inr rfl
    · exact .inl (by rw [htimes]; rfl)
  · unfold quickened withSecrets
    rw [htimes]
    rfl

theorem columnSlots_quickened (h : ¬("uuid" ∈ columns.keys ∧ "id" ∈ columns.keys)) : columnSlots (quickened columns).columns.entries =
    Slots.filled (keyPad (addsKey columns)) ++ columnSlots columns.entries ++ Slots.filled (timesPad (addsTimes columns)) := by
  have hkey : ∀ on, columnSlots (linePad on "id") = Slots.filled (keyPad on) := by decide
  have htimes : ∀ on, columnSlots (linePad on "timestamps") = Slots.filled (timesPad on) := by decide
  rw [entries_quickened h, ← hkey, ← htimes]
  unfold columnSlots
  rw [List.filterMap_append, List.filterMap_append]

theorem secretColumns_quickened (h : ¬("uuid" ∈ columns.keys ∧ "id" ∈ columns.keys)) :
    secretColumns (quickened columns).columns = secretColumns columns := by
  unfold secretColumns
  rw [entries_quickened h, List.filterMap_append, List.filterMap_append, filterMap_linePad (by decide), filterMap_linePad (by decide),
    List.nil_append, List.append_nil]

end Schemata.Resolution
