import Schemata.Proofs.Resolution.Links
import Schemata.Proofs.Resolved.Basic

/-!
# Pivot keys of a resolved schema

A pivot model belongs to the models that it links. The keys by which it is read follow from these models, and not from its own
key columns, which may go by other names.
-/

namespace Schemata.Resolved

open Resolution Schemata.Convention

variable {settings : Settings} {schema : SchemaDeclaration} {s : Resolved} {k n key : String} {m pivot side : Model}
  {r : Relation}

/-- A model has the physical column of a key, unless the column that has its name stands for others, as timestamps and pairs
do. -/
def HasKeyColumn (m : Model) (key : String) : Prop :=
  ∃ place column, m.columns.get? place = some column ∧ column.name = key ∧
    (column.physicalNames = [key] ∨ column.isTimestamps = true ∨ column.isMorphs = true)

theorem hasKeyColumn_of_name {place : String} {column : Column} (h : m.columns.get? place = some column)
    (hn : column.name = key) : HasKeyColumn m key := by
  refine ⟨place, column, h, hn, ?_⟩
  unfold Column.physicalNames
  cases htimestamps : column.isTimestamps with
  | true => exact .inr (.inl rfl)
  | false =>
    cases hmorphs : column.isMorphs with
    | true => exact .inr (.inr rfl)
    | false => exact .inl (congrArg (fun name => [name]) hn)

/-- A key of a pivot model goes by the name that follows from the side that it refers to. The model's own key column for that
side goes by this name unless its line names another; and only then is it the column of the key. -/
structure KeyByConvention (schema : SchemaDeclaration) (pivot side : Model) (key : String) : Prop where
  name : key = foreignKey side.className side.primaryName
  columnKey {place link} : BelongsAt pivot place link → link.model = side.key → ∃ l : DeclaredRelation,
    DeclaredBy schema l ∧ l.relation = ⟨pivot.key, place⟩ ∧ link.columnKey = (l.argument? 1).getD key
  column {place link} : BelongsAt pivot place link → link.model = side.key → link.columnKey = key → HasKeyColumn pivot key

theorem foreignKey_ne_id (className primaryName : String) : foreignKey className primaryName ≠ "id" := by
  intro h
  have hmem : '_' ∈ (foreignKey className primaryName).toList := by
    unfold foreignKey
    simp [String.toList_append]
  rw [h] at hmem
  exact absurd hmem (by decide)

theorem keyByConvention (c : Course settings schema) {j : String} (hpivot : c.complete.models.get? key = some pivot)
    (hside : c.complete.models.get? j = some side) :
    KeyByConvention schema pivot side (foreignKey side.className side.primaryName) := by
  have howned : ∀ {place link}, BelongsAt pivot place link → link.model = side.key → ∃ l : DeclaredRelation,
      DeclaredBy schema l ∧ l.relation = ⟨pivot.key, place⟩ ∧
      link.columnKey = (l.argument? 1).getD (foreignKey side.className side.primaryName) ∧
      (link.columnKey ≠ "id" → ∃ i placed, pivot.columns.get? i = some placed ∧ placed.name = link.columnKey) := by
    rintro place link ⟨r, hr, hl⟩ hmodel
    have hkind : r.kind = .belongsTo := congrArg Link.kind hl
    obtain ⟨l, d, owner, target, column, ho, rfl, rfl, _⟩ := c.exists_owned hpivot (hkind ▸ c.mem_relationLines hpivot hr)
    obtain rfl := Option.some_inj.mp (hr.symm.trans ho.relation)
    obtain rfl := Link.belongsTo.inj hl
    have htarget : c.complete.models.get? target.key = some side := by
      rw [show target.key = j from hmodel.trans (c.founded.sound.keyed j side hside)]
      exact hside
    have hplace : l.relation = ⟨pivot.key, l.name⟩ :=
      congrArg (RelationName.mk · l.name) (c.founded.sound.keyed l.model pivot hpivot).symm
    exact ⟨l, c.declaredBy ho.declares, hplace, c.name_eq ho htarget, c.exists_named ho hpivot⟩
  refine ⟨rfl, fun hb hmodel => ?_, fun hb hmodel hkey => ?_⟩
  · obtain ⟨l, hline, hplace, hname, _⟩ := howned hb hmodel
    exact ⟨l, hline, hplace, hname⟩
  · obtain ⟨_, _, _, _, hplaced⟩ := howned hb hmodel
    obtain ⟨i, placed, hi, hname⟩ := hplaced (hkey ▸ foreignKey_ne_id _ _)
    exact hasKeyColumn_of_name hi (hname.trans hkey)

/-- A `belongsToMany` with a pivot model: the pivot model belongs to both sides. Unless the line names a table, it is that of the
pivot model, and unless the line names a key, it follows from the side that the key refers to. -/
theorem pivot_keys_by_convention (h : resolve settings schema = .ok s) (hm : s.models.get? k = some m)
    (hr : m.relations.get? n = some r) {link : BelongsToMany} (hl : r.link = .belongsToMany link)
    (hp : link.pivot = some key) : ∃ pivot target, ∃ l : DeclaredRelation, s.models.get? key = some pivot ∧
      s.models.get? link.model = some target ∧ DeclaredBy schema l ∧ l.relation = ⟨k, n⟩ ∧ pivot.isPivot = true ∧
      (∃ place link', BelongsAt pivot place link' ∧ link'.model = k) ∧
      (∃ place link', BelongsAt pivot place link' ∧ link'.model = link.model) ∧
      (l.argument? 1 = none → link.table = pivot.table) ∧
      (l.argument? 2 = none → KeyByConvention schema pivot m link.foreignPivotKey) ∧
      (l.argument? 3 = none → KeyByConvention schema pivot target link.relatedPivotKey) := by
  obtain ⟨c, hmodels, _⟩ := exists_course_of_resolve h
  rw [hmodels] at hm ⊢
  obtain ⟨l, target, hdeclares, hmodel, hname, htarget, hclaimed, htable, hforeign, hrelated⟩ := c.exists_linked hm hr hl
  obtain ⟨pivot, hpivot, _, hsides⟩ := c.exists_pivot hm hr (by rw [hl]; exact hp)
  rw [hl] at hsides
  refine ⟨pivot, target, l, hpivot, htarget, c.declaredBy hdeclares, congrArg₂ RelationName.mk hmodel hname,
    hclaimed key hp pivot hpivot, hsides k (by simp [pivotSides]), hsides link.model (by simp [pivotSides]),
    fun hnone => htable hnone key pivot hp hpivot, fun hnone => ?_, fun hnone => ?_⟩
  · rw [hforeign, hnone]
    exact keyByConvention c hpivot hm
  · rw [hrelated, hnone]
    exact keyByConvention c hpivot htarget

theorem blog_pivot_keys_by_convention : ∃ s pivot user role, resolve .standard blog = .ok s ∧
    s.models.get? "Admin/Membership" = some pivot ∧ s.models.get? "User" = some user ∧ s.models.get? "Role" = some role ∧
    pivot.isPivot = true ∧ (user.relations.get? "roles").map (·.link) =
      some (.belongsToMany ⟨"Role", some "Admin/Membership", pivot.table, "user_id", "role_id", []⟩) ∧
    KeyByConvention blog pivot user "user_id" ∧ KeyByConvention blog pivot role "role_id" ∧
    HasKeyColumn pivot "user_id" ∧ HasKeyColumn pivot "role_id" := by
  have hline : (blog.models.get? "User").any (fun y => (modelDeclaration "User" y).toOption.any fun s =>
      (s.columns.get? "roles").any fun line => line.any fun text =>
        (DeclaredRelation.parse "User" "roles" (.parse text)).toOption.any fun l =>
          l.argument? 1 = none ∧ l.argument? 2 = none ∧ l.argument? 3 = none) = true := by decide +kernel
  obtain ⟨l, hdeclared, hmodel, hname, harguments⟩ := exists_declaredBy_of_any hline
  obtain ⟨htable, hforeign, hrelated⟩ := of_decide_eq_true harguments
  have hblog : (resolve .standard blog).toOption.any (fun s =>
      ((s.models.get? "User").any fun user => (user.relations.get? "roles").any fun r =>
        user.key = "User" ∧
        r.link = .belongsToMany ⟨"Role", some "Admin/Membership", "memberships", "user_id", "role_id", []⟩) ∧
      ((s.models.get? "Role").any fun role => role.key = "Role") ∧
      (s.models.get? "Admin/Membership").any fun pivot =>
        ((pivot.relations.get? "user").any fun r => r.link = .belongsTo ⟨"User", "user_id", none⟩) ∧
        (pivot.relations.get? "role").any fun r => r.link = .belongsTo ⟨"Role", "role_id", none⟩) = true := by
    decide +kernel
  obtain ⟨s, h, hs⟩ := exists_resolved_of_any hblog
  obtain ⟨huser, hrole, hmembership⟩ := of_decide_eq_true hs
  obtain ⟨user, huser, hroles⟩ := exists_of_any huser
  obtain ⟨r, hr, hl⟩ := exists_of_any hroles
  obtain ⟨hkey, hl⟩ := of_decide_eq_true hl
  obtain ⟨role, hrole, hroleKey⟩ := exists_of_any hrole
  obtain ⟨pivot, hpivot, hbelongs⟩ := exists_of_any hmembership
  obtain ⟨hbelongsUser, hbelongsRole⟩ := of_decide_eq_true hbelongs
  obtain ⟨u, hu, hul⟩ := exists_of_any hbelongsUser
  obtain ⟨o, ho, hol⟩ := exists_of_any hbelongsRole
  obtain ⟨pivot', role', l', hpivot', hrole', hdeclared', hplace, hisPivot, _, _, htable', hforeign', hrelated'⟩ :=
    pivot_keys_by_convention h huser hr hl rfl
  obtain ⟨hmodel', hname'⟩ := RelationName.mk.inj hplace
  obtain rfl := hdeclared'.unique hdeclared (hmodel.trans hmodel'.symm) (hname.trans hname'.symm)
  obtain rfl := Option.some_inj.mp (hpivot.symm.trans hpivot')
  obtain rfl := Option.some_inj.mp (hrole.symm.trans hrole')
  have hkeyUser := hforeign' hforeign
  have hkeyRole := hrelated' hrelated
  exact ⟨s, pivot, user, role, h, hpivot, huser, hrole, hisPivot, by rw [hr, ← htable' htable, Option.map_some, hl], hkeyUser,
    hkeyRole, hkeyUser.column ⟨u, hu, of_decide_eq_true hul⟩ hkey.symm rfl,
    hkeyRole.column ⟨o, ho, of_decide_eq_true hol⟩ (of_decide_eq_true hroleKey).symm rfl⟩

/-- A pivot model whose line names its key column for one side. -/
def staff : SchemaDeclaration where
  rootNamespace := none
  models := .ofList [("User", declaredByLines [("roles", "belongsToMany using:Membership")]),
    ("Role", declaredByLines [("label", "string")]),
    ("Membership", declaredByLines [("member", "belongsTo:User,member_id"), ("role", "belongsTo")])]
  migrations := .empty

theorem staff_lacks_pivot_key : ∃ s m r link pivot, resolve .standard staff = .ok s ∧ s.models.get? "User" = some m ∧
    m.relations.get? "roles" = some r ∧ r.link = .belongsToMany link ∧ link.pivot = some "Membership" ∧
    link.foreignPivotKey = "user_id" ∧ s.models.get? "Membership" = some pivot ∧ "user_id" ∉ pivot.physicalNames ∧
    (∀ x ∈ pivot.belongsToRelations, x.2.columnKey ≠ link.foreignPivotKey) ∧
    (DeclaredRelation.parse "User" "roles" (.parse "belongsToMany using:Membership")).toOption.map
      (fun l => [l.argument? 1, l.argument? 2, l.argument? 3]) = some [none, none, none] := by
  have hstaff : (resolve .standard staff).toOption.any (fun s =>
      ((s.models.get? "Membership").any fun pivot => "user_id" ∉ pivot.physicalNames ∧
        ∀ x ∈ pivot.belongsToRelations, x.2.columnKey ≠ "user_id") ∧
      (s.models.get? "User").any fun m => (m.relations.get? "roles").any fun r =>
        r.link = .belongsToMany ⟨"Role", some "Membership", "memberships", "user_id", "role_id", []⟩) = true := by
    decide +kernel
  obtain ⟨s, h, hs⟩ := exists_resolved_of_any hstaff
  obtain ⟨hmembership, huser⟩ := of_decide_eq_true hs
  obtain ⟨pivot, hpivot, hp⟩ := exists_of_any hmembership
  obtain ⟨hphysical, hkeys⟩ := of_decide_eq_true hp
  obtain ⟨m, hm, hroles⟩ := exists_of_any huser
  obtain ⟨r, hr, hl⟩ := exists_of_any hroles
  exact ⟨s, m, r, _, pivot, h, hm, hr, of_decide_eq_true hl, rfl, rfl, hpivot, hphysical, hkeys, by decide +kernel⟩

end Schemata.Resolved
