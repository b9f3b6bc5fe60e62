import Schemata.Proofs.Resolution.ReorderedCourse
import Schemata.Proofs.Resolved.Additions
import Schemata.Proofs.Resolved.Parents

/-!
# Models in another order

A schema resolves to the same in any order of its models, apart from the order of parents, unless a line names its key column after
a key column of the model that it points at, or the key of a model takes more than one column. In these cases an earlier model may
see of a later one less than a later one sees of it, or a table of pivots may be that of the first relation that needs it.
-/

namespace Schemata

/-- A schema with its models in reverse. -/
def SchemaDeclaration.reversed (schema : SchemaDeclaration) : SchemaDeclaration :=
  { schema with models := ⟨schema.models.entries.reverse, by rw [List.map_reverse]; exact List.nodup_reverse.mpr schema.models.nodup⟩ }

namespace Resolution

variable {schema schema' : SchemaDeclaration}

theorem Reordered.symm (h : Reordered schema schema') : Reordered schema' schema :=
  ⟨h.rootNamespace.symm, h.models.symm, h.migrations.symm⟩

theorem reordered_reversed (schema : SchemaDeclaration) : Reordered schema schema.reversed :=
  ⟨rfl, (List.reverse_perm _).symm, rfl⟩

theorem Reordered.declaredBy (h : Reordered schema schema') {l : DeclaredRelation} (hl : DeclaredBy schema' l) :
    DeclaredBy schema l := by
  obtain ⟨y, s, text, hy, hline⟩ := hl
  exact ⟨y, s, text, (OrderedMap.get?_eq_of_perm h.models l.model).symm.trans hy, hline⟩

end Resolution

namespace Resolved

open Resolution

variable {settings : Settings} {schema schema' : SchemaDeclaration} {s t : Resolved}

/-! ## Sameness up to order -/

/-- Resolved schemas with the same models and tables, in any order. -/
structure SameInAnyOrder (s t : Resolved) : Prop where
  namespaceName : t.namespaceName = s.namespaceName
  models (k) : Option.Rel SameModel (s.models.get? k) (t.models.get? k)
  migrations : s.migrations.entries.Perm t.migrations.entries

/-! ## Schemas in which the order is of no account -/

/-- No `belongsTo` line gives its key column a name that ends in that of a key column of another model that it points at, and the
key of each model is held by one column. -/
structure OrderFree (schema : SchemaDeclaration) (s : Resolved) : Prop where
  keys {l given m r link link'} : DeclaredBy schema l → l.argument? 1 = some given → s.models.get? l.model = some m →
    m.relations.get? l.name = some r → r.link = .belongsTo link → link.model ≠ l.model →
    HasLink s link.model (.belongsTo link') → ¬('_' :: link'.columnKey.toList) <:+ given.toList
  single : ∀ m ∈ s.models.values, SingleKey m

theorem SameInAnyOrder.exists_model (h : SameInAnyOrder s t) {k : String} {m : Model} (hm : t.models.get? k = some m) :
    ∃ n, s.models.get? k = some n ∧ SameModel n m := by
  have hk := h.models k
  rw [hm] at hk
  cases hn : s.models.get? k with
  | none => rw [hn] at hk; cases hk
  | some n =>
    rw [hn] at hk
    cases hk with
    | some hsame => exact ⟨n, rfl, hsame⟩

theorem SameInAnyOrder.orderFree (h : SameInAnyOrder s t) (hs : Reordered schema schema') (hf : OrderFree schema s) :
    OrderFree schema' t := by
  refine ⟨fun {l given m r link link'} hl hg hm hr hlink hne hhas => ?_, fun m hm => ?_⟩
  · obtain ⟨n, hn, hsame⟩ := h.exists_model hm
    obtain ⟨o, j, r', ho, hr', hlink'⟩ := hhas
    obtain ⟨o', ho', hsame'⟩ := h.exists_model ho
    exact hf.keys (hs.declaredBy hl) hg hn (hsame.get?_belongsTo hr hlink) hlink hne
      ⟨o', j, r', ho', hsame'.get?_belongsTo hr' hlink', hlink'⟩
  · obtain ⟨k, hk⟩ := OrderedMap.mem_values_iff.mp hm
    obtain ⟨n, hn, hsame⟩ := h.exists_model hk
    exact (Model.congr_withoutParents (g := SingleKey) (fun _ => rfl) hsame.apart).mpr
      (hf.single n (OrderedMap.mem_values_iff.mpr ⟨k, hn⟩))

/-- What a resolved schema shows of its key columns holds of those that the lines ask for. -/
theorem unmixed_of_orderFree (c : Course settings schema) (hmodels : s.models = c.complete.models) (hf : OrderFree schema s) :
    c.declared.Unmixed := by
  have howned : ∀ {l}, c.declared.Declares l → l.kind = .belongsTo → ∃ m d owner target column,
      s.models.get? l.model = some m ∧ c.Owned l d owner target column m := by
    intro l hl hk
    obtain ⟨m₀, hm₀⟩ := OrderedMap.mem_keys_iff.mp (c.sound_declared.mem_keys hl.line)
    obtain ⟨m, hm, _⟩ := c.edited_declared.model hm₀
    obtain ⟨l', d, owner, target, column, ho, hmodel, hname, _⟩ := c.exists_owned hm (hk ▸ hl.line)
    obtain rfl : l' = l := (c.declaredBy hl).unique (c.declaredBy ho.declares) hmodel hname
    exact ⟨m, d, owner, target, column, hmodels ▸ hm, ho⟩
  intro l l' hl hk hl' hk' hne hpoints key target given hkey htarget hgiven
  obtain ⟨m, d, owner, o, column, hm, ho⟩ := howned hl hk
  obtain ⟨m', d', owner', o', column', hm', ho'⟩ := howned hl' hk'
  have hpointed : o'.key = l.model := Except.ok.inj ((ho'.before.target l').symm.trans ho'.reference ▸ hpoints)
  have hkey' : o.key = key := Except.ok.inj (ho.reference.symm.trans ((ho.before.target l).trans hkey))
  have hname : column.name = keyName l target :=
    (name_keyColumn ho.keyColumn_ok).trans (ho.before.keyName (by decide) (hkey' ▸ htarget) ho.get?_target)
  rw [← hname]
  have hhas : HasLink s l.model (.belongsTo ⟨o.key, column.name, l.argument? 2⟩) := ⟨m, l.name, _, hm, ho.relation, rfl⟩
  exact hf.keys (c.declaredBy hl') hgiven hm' ho'.relation rfl (hpointed ▸ hne) (hpointed ▸ hhas)

/-! ## Resolution in another order -/

theorem resolve_reordered (h : Reordered schema schema') (hs : resolve settings schema = .ok s) (hf : OrderFree schema s) :
    ∃ t, resolve settings schema' = .ok t ∧ SameInAnyOrder s t := by
  obtain ⟨e, he, rfl⟩ := completes_of_resolve hs
  have hsettings : settingsFor settings schema' = settingsFor settings schema := by
    unfold settingsFor
    rw [h.rootNamespace]
  have hunmixed : ∀ d, Completes [.quickModels, .modelShells, .relationReservations, .columns]
      (.start (settingsFor settings schema) schema) d → d.Unmixed := by
    intro d hd
    obtain ⟨c, hmodels, _⟩ := exists_course_of_resolve hs
    obtain rfl := hd.unique c.columns
    exact unmixed_of_orderFree c hmodels hf
  obtain ⟨e', he', halike, hsame⟩ := reordered_completes h hunmixed hf.single he
  refine ⟨ofDraft e', resolve_of_completes (hsettings ▸ validate_of_resolve_ok hs) (hsettings ▸ he'), ?_, hsame, ?_⟩
  · exact congrArg (·.value .root) halike.settings
  · exact OrderedMap.entries_perm halike.migrations

/-- Where the order is of no account, a schema resolves if and only if it does so with its models in another order. Then every model
has the same columns and relations, apart from the order of parents, and the same tables are defined. -/
theorem resolves_in_any_order (h : Reordered schema schema') :
    ((∃ s, resolve settings schema = .ok s ∧ OrderFree schema s) ↔
      ∃ t, resolve settings schema' = .ok t ∧ OrderFree schema' t) ∧
    ∀ s t, resolve settings schema = .ok s → resolve settings schema' = .ok t → OrderFree schema s → SameInAnyOrder s t := by
  have hto : ∀ {schema schema' : SchemaDeclaration}, Reordered schema schema' →
      (∃ s, resolve settings schema = .ok s ∧ OrderFree schema s) → ∃ t, resolve settings schema' = .ok t ∧ OrderFree schema' t := by
    rintro schema schema' h ⟨s, hs, hf⟩
    obtain ⟨t, ht, hsame⟩ := resolve_reordered h hs hf
    exact ⟨t, ht, hsame.orderFree h hf⟩
  refine ⟨⟨hto h, hto h.symm⟩, fun s t hs ht hf => ?_⟩
  obtain ⟨t', ht', hsame⟩ := resolve_reordered h hs hf
  exact Except.ok.inj (ht'.symm.trans ht) ▸ hsame

/-- Two models that share a table of pivots and are parents of one pointer. -/
def gatherings : SchemaDeclaration where
  rootNamespace := some "Gatherings"
  models := .ofList [
    ("User", declaredByLines [("name", "string"), ("photos", "morphMany:Photo"), ("events", "belongsToMany:Event")]),
    ("Event", declaredByLines [("host", "belongsTo:User,host_id"), ("photos", "morphMany:Photo"), ("guests", "belongsToMany:User")]),
    ("Photo", declaredByLines [("subject", "morphTo"), ("caption", "string")])]
  migrations := .ofList [("sessions", declaredByLines [("id", "string primary"), ("payload", "text")])]

theorem gatherings_orderFree (hs : resolve .standard gatherings = .ok s) : OrderFree gatherings s := by
  have hnamed : ∀ l, DeclaredBy gatherings l → decide (l.argument? 1 = none ∨ l.model = "Event" ∧ l.name = "host") = true :=
    forall_declaredBy_of_all (by decide +kernel)
  have hcheck : (resolve .standard gatherings).toOption.any (fun s => s.models.values.all (fun m => decide (SingleKey m)) ∧
      ((s.models.get? "Event").bind (·.relations.get? "host")).bind Relation.belongsTo? = some ⟨"User", "host_id", none⟩ ∧
      (s.models.get? "User").all fun m => m.belongsToRelations = []) = true := by decide +kernel
  obtain ⟨s', hs', hcheck⟩ := exists_resolved_of_any hcheck
  obtain rfl := Except.ok.inj (hs'.symm.trans hs)
  obtain ⟨hsingle, hhost, huser⟩ := of_decide_eq_true hcheck
  refine ⟨fun {l given m r link link'} hl hg hm hr hlink _ hhas => ?_, fun m hm => ?_⟩
  · obtain ⟨hmodel, hname⟩ := (of_decide_eq_true (hnamed l hl)).resolve_left fun hnone => by rw [hg] at hnone; cases hnone
    rw [hmodel] at hm
    rw [hname] at hr
    rw [hm, Option.bind_some, hr, Option.bind_some, Relation.belongsTo?_eq_some_iff, hlink] at hhost
    obtain rfl := Link.belongsTo.inj hhost
    obtain ⟨target, n, r', htarget, hr', hl'⟩ := hhas
    rw [htarget] at huser
    have hnone : target.belongsToRelations = [] := of_decide_eq_true huser
    exact absurd (mem_belongsToRelations.mpr ⟨n, hr', hl'⟩) (hnone ▸ List.not_mem_nil)
  · exact of_decide_eq_true (List.all_eq_true.mp hsingle m hm)

theorem gatherings_resolve_in_any_order : ∃ s t m n, resolve .standard gatherings = .ok s ∧ OrderFree gatherings s ∧
    resolve .standard gatherings.reversed = .ok t ∧ SameInAnyOrder s t ∧
    s.models.keys = ["User", "Event", "Photo"] ∧ t.models.keys = ["Photo", "Event", "User"] ∧
    s.migrations.keys = ["sessions", "users", "events", "photos", "event_user"] ∧
    t.migrations.keys = ["sessions", "photos", "events", "users", "event_user"] ∧
    s.models.get? "Photo" = some m ∧ t.models.get? "Photo" = some n ∧
    m.morphToRelations.map (·.2.models) = [["User", "Event"]] ∧ n.morphToRelations.map (·.2.models) = [["Event", "User"]] := by
  have hfirst : (resolve .standard gatherings).toOption.any (fun s => s.models.keys = ["User", "Event", "Photo"] ∧
      s.migrations.keys = ["sessions", "users", "events", "photos", "event_user"] ∧ (s.models.get? "Photo").any fun m =>
      m.morphToRelations.map (·.2.models) = [["User", "Event"]]) = true := by decide +kernel
  have hlast : (resolve .standard gatherings.reversed).toOption.any (fun t => t.models.keys = ["Photo", "Event", "User"] ∧
      t.migrations.keys = ["sessions", "photos", "events", "users", "event_user"] ∧ (t.models.get? "Photo").any fun n =>
      n.morphToRelations.map (·.2.models) = [["Event", "User"]]) = true := by decide +kernel
  obtain ⟨s, hs, hfirst⟩ := exists_resolved_of_any hfirst
  obtain ⟨t, ht, hlast⟩ := exists_resolved_of_any hlast
  obtain ⟨hkeys, htables, hphoto⟩ := of_decide_eq_true hfirst
  obtain ⟨hkeys', htables', hphoto'⟩ := of_decide_eq_true hlast
  obtain ⟨m, hm, hparents⟩ := exists_of_any hphoto
  obtain ⟨n, hn, hparents'⟩ := exists_of_any hphoto'
  have hf := gatherings_orderFree hs
  exact ⟨s, t, m, n, hs, hf, ht, (resolves_in_any_order (reordered_reversed gatherings)).2 s t hs ht hf, hkeys, hkeys', htables,
    htables', hm, hn, of_decide_eq_true hparents, of_decide_eq_true hparents'⟩

/-- A line whose key column is named after a key column of its target. -/
def deliveries : SchemaDeclaration where
  rootNamespace := none
  models := .ofList [
    ("Shipment", declaredByLines [("order", "belongsTo:Order,order_customer_id")]),
    ("Order", .map [(.str "columns", declaredByLines [("customer", "belongsTo"), ("id", "id")])]),
    ("Customer", .map [(.str "columns", declaredByLines [("id", "uuid primary")])])]
  migrations := .empty

theorem deliveries_depends_on_order : Reordered deliveries deliveries.reversed ∧ ∃ s t m n column column',
    resolve .standard deliveries = .ok s ∧ resolve .standard deliveries.reversed = .ok t ∧
    s.models.get? "Shipment" = some m ∧ t.models.get? "Shipment" = some n ∧
    m.columns.get? "order" = some column ∧ n.columns.get? "order" = some column' ∧
    column.type = "unsignedBigInteger" ∧ column'.type = "uuid" := by
  have hfirst : (resolve .standard deliveries).toOption.any (fun s => (s.models.get? "Shipment").any fun m =>
      (m.columns.get? "order").any fun column => column.type = "unsignedBigInteger") = true := by decide +kernel
  have hlast : (resolve .standard deliveries.reversed).toOption.any (fun t => (t.models.get? "Shipment").any fun n =>
      (n.columns.get? "order").any fun column => column.type = "uuid") = true := by decide +kernel
  obtain ⟨s, hs, hfirst⟩ := exists_resolved_of_any hfirst
  obtain ⟨t, ht, hlast⟩ := exists_resolved_of_any hlast
  obtain ⟨m, hm, hfirst⟩ := exists_of_any hfirst
  obtain ⟨n, hn, hlast⟩ := exists_of_any hlast
  obtain ⟨column, hcolumn, htype⟩ := exists_of_any hfirst
  obtain ⟨column', hcolumn', htype'⟩ := exists_of_any hlast
  exact ⟨reordered_reversed _, s, t, m, n, column, column', hs, ht, hm, hn, hcolumn, hcolumn', of_decide_eq_true htype,
    of_decide_eq_true htype'⟩

/-- Two relations that need the same columns of one table, of which one needs a primary key on top. -/
def stickers : SchemaDeclaration where
  rootNamespace := none
  models := .ofList [
    ("Post", declaredByLines [("labels", "morphToMany:Label,taggable")]),
    ("Label", declaredByLines [("name", "string")]),
    ("Badge", .map [(.str "columns", declaredByLines [("owner", "morphs primary")])]),
    ("Shelf", declaredByLines [("badges", "belongsToMany:Badge,taggables,label_id,taggable")])]
  migrations := .empty

theorem stickers_depends_on_order : ∃ s t m n, resolve .standard stickers = .ok s ∧ resolve .standard stickers.reversed = .ok t ∧
    s.migrations.get? "taggables" = some m ∧ t.migrations.get? "taggables" = some n ∧
    m.primary = none ∧ n.primary = some ["label_id", "taggable"] := by
  have hfirst : (resolve .standard stickers).toOption.any (fun s => (s.migrations.get? "taggables").any fun m =>
      m.primary = none) = true := by decide +kernel
  have hlast : (resolve .standard stickers.reversed).toOption.any (fun t => (t.migrations.get? "taggables").any fun n =>
      n.primary = some ["label_id", "taggable"]) = true := by decide +kernel
  obtain ⟨s, hs, hfirst⟩ := exists_resolved_of_any hfirst
  obtain ⟨t, ht, hlast⟩ := exists_resolved_of_any hlast
  obtain ⟨m, hm, hfirst⟩ := exists_of_any hfirst
  obtain ⟨n, hn, hlast⟩ := exists_of_any hlast
  exact ⟨s, t, m, n, hs, ht, hm, hn, of_decide_eq_true hfirst, of_decide_eq_true hlast⟩

end Resolved

end Schemata
