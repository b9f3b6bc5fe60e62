import Schemata.Proofs.Resolution.Orders
import Schemata.Proofs.Resolution.QuickLines
import Schemata.Proofs.Resolution.Redeclared

/-!
# Models that become quick

When the columns of a model make a quick declaration, every pass comes to a draft of the same models, of which that one has what its
declaration has gained.
-/

namespace Schemata.Resolution

open Declaration Resolve Shorthand

variable {settings : Settings} {schema : SchemaDeclaration} {d e b : Draft} {owner : String} {key times : Bool} {m n : Model}
  {columns : OrderedMap (Option String)} {l : DeclaredRelation} {pass : Pass}

/-- All of what others may tell of one model, and everything of the rest. -/
def Beyond (owner : String) (k : String) (p : Part) : Prop :=
  k = owner → p.isOutward = true

theorem beyond_of_ne {k : String} (hk : k ≠ owner) (p : Part) : Beyond owner k p :=
  fun heq => absurd heq hk

theorem beyond_relations (owner k : String) : AllRelations (Beyond owner k) :=
  fun _ _ => rfl

/-- One model of a draft has been widened. -/
structure Draft.Widened (owner : String) (key times : Bool) (d e : Draft) : Prop where
  agrees : d.Agrees (Beyond owner) e
  widened {m n : Model} : d.models.get? owner = some m → e.models.get? owner = some n → Resolution.Widened key times m n

/-! ## Shells -/

theorem linesOf_quickened (h : ¬("uuid" ∈ columns.keys ∧ "id" ∈ columns.keys)) (k : String) :
    linesOf k (quickened columns) = linesOf k (ofColumns columns) := by
  unfold linesOf
  rw [entries_quickened h, List.filterMap_append, List.filterMap_append, filterMap_linePad rfl, filterMap_linePad rfl,
    List.nil_append, List.append_nil]
  rfl

/-- The type of a model that is no pivot, and whether its key was added, are nothing that others may tell of it. -/
theorem agrees_withType (hm : m.isPivot = false) {type : ModelType} (htype : type.isPivot = false) (on : Bool) :
    m.Agrees (Beyond owner owner) { m with type, autoId := on } := by
  refine ⟨rfl, rfl, fun {p} hp => ?_⟩
  have hsame := Part.Same.refl p m
  cases p with
  | pivot => exact htype.trans hm.symm
  | keyName | relations | parents | parentSet => exact hsame
  | _ => exact absurd (hp rfl) (by simp [Part.isOutward])

theorem redeclared_self {value : Yaml} (hy : schema.models.get? owner = some value) (other : Yaml) :
    (schema.redeclared owner other).redeclared owner value = schema := by
  unfold SchemaDeclaration.redeclared
  dsimp only
  refine congrArg (fun models => { schema with models }) (OrderedMap.eq_of_get? ?_ fun k v w hv hw => ?_)
  · rw [OrderedMap.keys_modify, OrderedMap.keys_modify]
  · rw [OrderedMap.get?_modify, OrderedMap.get?_modify, hv] at hw
    split at hw
    · rename_i hk
      subst hk
      exact (Option.some_inj.mp hw).symm.trans (Option.some_inj.mp (hy.symm.trans hv))
    · exact (Option.some_inj.mp hw).symm

/-- The shell of a model whose declaration becomes quick differs in its type and in whether its key was added. -/
theorem modelShell_quickened (columns : OrderedMap (Option String)) : ∃ type : ModelType, type.isPivot = false ∧
    ∀ {m}, modelShell settings [] owner (ofColumns columns) = .ok m →
      modelShell settings [] owner (quickened columns) = .ok { m with type, autoId := addsKey columns } := by
  obtain ⟨name, hname, heq⟩ := quickened_eq columns
  have hshell : ∀ type, declaredType owner (quickened columns) = .ok type →
      ∀ {m}, modelShell settings [] owner (ofColumns columns) = .ok m →
      modelShell settings [] owner (quickened columns) = .ok { m with type, autoId := addsKey columns } := by
    intro type htype m hm
    obtain ⟨_, _, hm⟩ := bind_eq_ok.mp hm
    rw [← pure_eq_ok.mp hm]
    refine bind_eq_ok.mpr ⟨type, htype, ?_⟩
    rw [heq]
    rfl
  rcases hname with rfl | rfl
  · exact ⟨.plain, rfl, hshell _ (by rw [heq]; rfl)⟩
  · exact ⟨.user, rfl, hshell _ (by rw [heq]; rfl)⟩

theorem exists_shells_quickened {entries : List (Yaml × Yaml)} (hget : schema.models.get? owner = some (.map entries))
    (hquick : Yaml.entry? entries "columns" = none) (hlines : ∀ x ∈ entries, IsLine x)
    (hread : columnLines (.map entries) = .ok columns) (hno : ¬("uuid" ∈ columns.keys ∧ "id" ∈ columns.keys))
    (h : Completes [.quickModels, .modelShells] (.start settings (schema.redeclared owner (columnsBlock entries))) d) :
    ∃ e, Completes [.quickModels, .modelShells] (.start settings schema) e ∧ d.Agrees (Beyond owner) e ∧
      d.declarations.get? owner = some (ofColumns columns) ∧ e.declarations = d.declarations.modify owner fun _ => quickened columns := by
  obtain ⟨hrest, hreads, _⟩ := shelled_of_completes h
  obtain ⟨s, hs⟩ : ∃ s, d.declarations.get? owner = some s := OrderedMap.mem_keys_iff.mp <| by
    rw [hreads.keys]
    exact (OrderedMap.keys_modify ..).symm ▸ OrderedMap.mem_keys_iff.mpr ⟨_, hget⟩
  obtain ⟨hne, hcolumns⟩ : entries ≠ [] ∧ s = ofColumns columns := by
    obtain ⟨y, hy, hy'⟩ := hreads.declaration owner s hs
    have hblock : (schema.models.modify owner fun _ => columnsBlock entries).get? owner = some (columnsBlock entries) := by
      rw [OrderedMap.get?_modify, if_pos rfl, hget]
      rfl
    obtain rfl := Option.some_inj.mp (hy.symm.trans hblock)
    obtain ⟨hne, columns', hread', hs⟩ := modelDeclaration_columnsBlock hy'
    exact ⟨hne, hs.trans (congrArg ofColumns (Except.ok.inj (hread'.symm.trans hread)))⟩
  subst hcolumns
  obtain ⟨type, htype, hshell⟩ := @modelShell_quickened settings owner columns
  have hrun := completes_shells_redeclared h hs (modelDeclaration_quickened hquick hlines hne hread) hshell fun _ => ⟨rfl, rfl, rfl⟩
  rw [redeclared_self hget] at hrun
  refine ⟨_, hrun, agrees_modify (f := fun _ => quickened columns) (g := ({ · with type, autoId := addsKey columns }))
    (by rw [hrest]; rfl) rfl rfl rfl rfl (fun s' hs' => ?_) (fun hS => absurd (hS rfl) (by simp [Part.isOutward]))
    fun m hm => agrees_withType ?_ htype (addsKey columns), hs, rfl⟩
  · obtain rfl := Option.some_inj.mp (hs.symm.trans hs')
    exact linesOf_quickened hno owner
  · exact isPivot_of_declaredType (declaredType_of_shells h hs hm) (.inl rfl)

/-! ## Columns -/

theorem primaryKey_eq {s : ModelDeclaration} (hs : s.primary = none) (m : Model) :
    primaryKey s m = .ok ((m.columns.values.find? Column.isPrimary).map PrimaryKey.ofColumn) := by
  unfold primaryKey
  rw [hs]
  rfl

theorem timestamps_eq {s : ModelDeclaration} (hs : s.timestamps = none) (m : Model) :
    timestamps s m = if m.columns.values.any Column.isTimestamps then some .conventional else none := by
  unfold timestamps
  rw [hs]

/-- What follows from columns follows from more columns, unless it follows from those that are added. -/
theorem widened_derived {s t : ModelDeclaration} (hs : s.primary = none ∧ s.timestamps = none) (ht : t.primary = none ∧ t.timestamps = none)
    (hpadded : m.columns.Padded (keyPad key) (timesPad times) n.columns) (hadmits : Admits key times m.columns.values) :
    Widened key times (derived s ((m.columns.values.find? Column.isPrimary).map PrimaryKey.ofColumn) m)
      (derived t ((n.columns.values.find? Column.isPrimary).map PrimaryKey.ofColumn) n) where
  columns := hpadded
  primary := by
    have htimes : ((timesPad times).map Prod.snd).find? Column.isPrimary = none := by cases times <;> decide
    change (n.columns.values.find? Column.isPrimary).map PrimaryKey.ofColumn = _
    rw [hpadded.values, List.find?_append, List.find?_append, htimes, Option.or_none]
    cases key <;> rfl
  unkeyed hk := Option.map_eq_none_iff.mpr (List.find?_eq_none.mpr fun c hc => by simp [(hadmits.key hk c hc).1])
  timestamps := by
    have hkey : ((keyPad key).map Prod.snd).any Column.isTimestamps = false := by cases key <;> decide
    change timestamps t n = if times then some .conventional else timestamps s m
    rw [timestamps_eq ht.2, timestamps_eq hs.2, hpadded.values, List.any_append, List.any_append, hkey, Bool.false_or]
    cases times with
    | false => simp [timesPad]
    | true =>
      have htimes : ((timesPad true).map Prod.snd).any Column.isTimestamps = true := by decide
      rw [htimes, Bool.or_true]
      rfl
  named ht p hp := by
    obtain ⟨c, hc, rfl⟩ := Option.map_eq_some_iff.mp hp
    exact (hadmits.times ht c (List.mem_of_find?_eq_some hc)).1

theorem declarable_pad (k : String) (on : Bool) {name : String} (hname : name ∈ ["id", "timestamps"]) :
    ∀ x ∈ linePad on name, Declarable k x.1 x.2 := by
  intro x hx
  cases on with
  | false => exact absurd hx List.not_mem_nil
  | true =>
    obtain rfl := List.mem_singleton.mp hx
    rcases List.mem_pair.mp hname with rfl | rfl <;> exact .inr ⟨_, rfl⟩

theorem declareColumns_quickened (hno : ¬("uuid" ∈ columns.keys ∧ "id" ∈ columns.keys)) (h : d.Agrees (Beyond owner) b)
    (hm : d.models.get? owner = some m) (hmc : m.columns = .empty) (hn : b.models.get? owner = some n) (hnc : n.columns = .empty)
    (hrun : declareColumns owner (ofColumns columns) d = .ok () e)
    (hadmits : ∀ {o}, e.models.get? owner = some o → Admits (addsKey columns) (addsTimes columns) o.columns.values) :
    ∃ e', declareColumns owner (quickened columns) b = .ok () e' ∧ e.Widened owner (addsKey columns) (addsTimes columns) e' := by
  obtain ⟨primary, hderives, rfl⟩ := (declareColumns_iff hm).mp hrun
  obtain ⟨s, hs, hentries⟩ := withLines_eq (ofColumns columns).columns.entries m (by rw [hmc]; exact columns.nodup)
  obtain ⟨t, ht, hentries'⟩ := withLines_eq (quickened columns).columns.entries n (by rw [hnc]; exact (quickened columns).columns.nodup)
  have hset := Draft.get?_setModel hm (derived (ofColumns columns) primary
    (withLines m (ofColumns columns).columns.entries))
  have hadmits := hadmits hset
  rw [hs] at hderives hadmits ⊢
  have hpadded : s.Padded (keyPad (addsKey columns)) (timesPad (addsTimes columns)) t := by
    unfold Slots.Padded
    rw [hentries, hentries', hmc, hnc]
    exact columnSlots_quickened hno
  obtain rfl := Except.ok.inj ((primaryKey_eq rfl _).symm.trans hderives.primary)
  obtain ⟨_, _, heq⟩ := quickened_eq columns
  have hkeys : (quickened columns).primary = none ∧ (quickened columns).timestamps = none := by
    rw [heq]
    exact ⟨rfl, rfl⟩
  have hwidened := widened_derived (m := { m with columns := s }) (n := { n with columns := t }) (s := ofColumns columns) ⟨rfl, rfl⟩ hkeys
    hpadded hadmits
  have hvalues : ({ n with columns := t } : Model).columns.values =
      (keyPad (addsKey columns)).map Prod.snd ++ s.values ++ (timesPad (addsTimes columns)).map Prod.snd := hpadded.values
  have hturn := (declareColumns_iff (e := b.setModel owner _) hn).mpr ⟨_, ⟨?_, ?_, ?_, primaryKey_eq hkeys.1 _⟩, rfl⟩
  · rw [ht] at hturn
    refine ⟨_, hturn, h.setModel ?_, fun ho ho' => ?_⟩
    · have hmn := h.models hm hn
      refine ⟨hmn.bare, hmn.names, fun {p} hp => ?_⟩
      have houtward := hp rfl
      cases p with
      | pivot | relations | parents | parentSet => exact hmn.same hp
      | keyName => exact hwidened.primaryName
      | _ => cases houtward
    · rw [hs] at hset
      obtain rfl := Option.some_inj.mp (ho.symm.trans hset)
      obtain rfl := Option.some_inj.mp (ho'.symm.trans (Draft.get?_setModel hn _))
      exact hwidened
  · rw [entries_quickened hno]
    simp only [List.forall_mem_append]
    exact ⟨⟨declarable_pad owner _ (by decide), hderives.lines⟩, declarable_pad owner _ (by decide)⟩
  · rw [ht, hvalues]
    exact hadmits.checkAutoIncrement hderives.autoIncrement
  · rw [ht, hvalues]
    exact hadmits.checkPhysical hderives.physical

/-- Declares the columns of some models in turn. -/
def declareAll (xs : List (String × ModelDeclaration)) : Resolve Unit :=
  xs.forM fun x => declareColumns x.1 x.2

theorem get?_declareAll {xs : List (String × ModelDeclaration)} (hxs : ∀ x ∈ xs, x.1 ≠ owner) (h : declareAll xs d = .ok () e) :
    e.models.get? owner = d.models.get? owner :=
  along_of_forM (R := Keeps fun c => c.models.get? owner) (fun x hx _ _ _ hx' => (declareColumns_ok hx').1 owner (hxs x hx).symm) h

theorem simulates_declareAll {xs : List (String × ModelDeclaration)} (hxs : ∀ x ∈ xs, x.1 ≠ owner) :
    Simulates (Draft.Agrees (Beyond owner)) (declareAll xs) :=
  .forM fun x hx => simulates_declareColumns (beyond_of_ne (hxs x hx) _) x.2

/-- The columns of the model are padded if they admit what is added, and the columns of the other models stay the same. -/
theorem columns_quickened (hno : ¬("uuid" ∈ columns.keys ∧ "id" ∈ columns.keys)) (h : d.Agrees (Beyond owner) b)
    (hd : d.declarations.get? owner = some (ofColumns columns))
    (hb : b.declarations = d.declarations.modify owner fun _ => quickened columns) (hm : d.models.get? owner = some m)
    (hmc : m.columns = .empty) (hn : b.models.get? owner = some n) (hnc : n.columns = .empty) (hrun : Pass.columns.body d = .ok () e)
    (hadmits : ∀ {o}, e.models.get? owner = some o → Admits (addsKey columns) (addsTimes columns) o.columns.values) :
    ∃ e', Pass.columns.body b = .ok () e' ∧ e.Widened owner (addsKey columns) (addsTimes columns) e' := by
  obtain ⟨before, after, hentries⟩ := List.append_of_mem (OrderedMap.get?_eq_some_iff.mp hd)
  have hnodup := d.declarations.nodup
  rw [hentries, List.map_append, List.map_cons, List.nodup_append, List.nodup_cons] at hnodup
  have hbefore : ∀ x ∈ before, x.1 ≠ owner := fun x hx => hnodup.2.2 _ (List.mem_map_of_mem hx) _ List.mem_cons_self
  have hafter : ∀ x ∈ after, x.1 ≠ owner := by
    rintro x hx rfl
    exact hnodup.2.1.1 (List.mem_map.mpr ⟨x, hx, rfl⟩)
  have hsame : ∀ {xs : List (String × ModelDeclaration)}, (∀ x ∈ xs, x.1 ≠ owner) →
      xs.map (fun x => (x.1, if x.1 = owner then quickened columns else x.2)) = xs := fun {xs} hxs =>
    (List.map_congr_left fun x hx => by rw [if_neg (hxs x hx)]; rfl).trans (List.map_id xs)
  have hentries' : b.declarations.entries = before ++ (owner, quickened columns) :: after := by
    rw [hb]
    unfold OrderedMap.modify OrderedMap.mapEntries
    dsimp only
    rw [hentries, List.map_append, List.map_cons, hsame hbefore, hsame hafter, if_pos rfl]
  rw [columns_run, hentries] at hrun
  obtain ⟨d₁, hrun₁, hrun⟩ := forM_append_run_ok.mp hrun
  obtain ⟨d₂, hrun₂, hrun₃⟩ := forM_cons_run_ok.mp hrun
  obtain ⟨b₁, hturns₁, hagrees₁⟩ := simulates_declareAll hbefore h hrun₁
  have hkept := get?_declareAll hafter hrun₃
  obtain ⟨b₂, hturn, hwidened⟩ := declareColumns_quickened hno hagrees₁ ((get?_declareAll hbefore hrun₁).trans hm) hmc
    ((get?_declareAll hbefore hturns₁).trans hn) hnc hrun₂ fun ho => hadmits (hkept.trans ho)
  obtain ⟨b₃, hturns₃, hagrees₃⟩ := simulates_declareAll hafter hwidened.agrees hrun₃
  refine ⟨b₃, ?_, hagrees₃, fun ho ho' => ?_⟩
  · rw [columns_run, hentries']
    exact forM_append_run_ok.mpr ⟨b₁, hturns₁, forM_cons_run_ok.mpr ⟨b₂, hturn, hturns₃⟩⟩
  · exact hwidened.widened (hkept ▸ ho) (get?_declareAll hafter hturns₃ ▸ ho')

end Schemata.Resolution
