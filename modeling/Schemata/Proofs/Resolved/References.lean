import Schemata.Proofs.Resolution.ClassNames
import Schemata.Proofs.Resolved.Basic
import Schemata.Resolved.Call

/-!
# References of a resolved schema

Every model that a relation names is there, so every relation has its call; and the classes in a call denote the models that
are meant.
-/

namespace Schemata.Resolved

open Resolution Schemata.Shorthand

variable {settings : Settings} {schema : SchemaDeclaration} {s : Resolved}

/-! ## Class names -/

def StartsWithBackslash (name : String) : Prop :=
  name.toList.head? = some '\\'

instance (name : String) : Decidable (StartsWithBackslash name) :=
  inferInstanceAs (Decidable (_ = _))

/-- The class of a model starts with a backslash only if its key has nothing but slashes. -/
theorem isSlash_of_startsWithBackslash {k : String} (h : StartsWithBackslash (identity settings k).className) :
    ∀ c ∈ k.toList, isSlash c = true :=
  (isSlash_of_mem_className (by decide) (List.mem_of_mem_head? h)).1

/-! ## Class references -/

/-- The class that a reference denotes inside a namespace: a name behind a backslash is complete, and any other is one of the
namespace. -/
def denoted (namespaceName reference : String) : String :=
  match reference.toList with
  | '\\' :: rest => String.ofList rest
  | _ => namespaceName ++ "\\" ++ reference

/-- The reference to the class of a model inside the namespace of another. -/
def reference (owner target : Model) : String :=
  if target.namespaceName = owner.namespaceName then target.className else "\\" ++ target.qualifiedClass

theorem denoted_behind_backslash (namespaceName name : String) : denoted namespaceName ("\\" ++ name) = name := by
  unfold denoted
  rw [String.toList_append]
  exact String.ofList_toList

theorem denoted_bare {namespaceName name : String} (h : ¬StartsWithBackslash name) :
    denoted namespaceName name = namespaceName ++ "\\" ++ name := by
  unfold denoted
  split
  · rename_i rest hr
    exact absurd (show name.toList.head? = some '\\' by rw [hr]; rfl) h
  · rfl

theorem denoted_ne {namespaceName name : String} (h : StartsWithBackslash name) :
    denoted namespaceName name ≠ namespaceName ++ "\\" ++ name := by
  obtain ⟨rest, hr⟩ := List.head?_eq_some_iff.mp h
  have hd : denoted namespaceName name = String.ofList rest := by
    unfold denoted
    rw [hr]
    rfl
  intro heq
  have hl := congrArg (fun t => t.toList.length) (hd.symm.trans heq)
  simp only [String.toList_ofList, String.toList_append, List.length_append, hr, List.length_cons] at hl
  omega

theorem denoted_reference (owner target : Model) :
    denoted owner.namespaceName (reference owner target) = target.qualifiedClass ↔
      ¬(target.namespaceName = owner.namespaceName ∧ StartsWithBackslash target.className) := by
  unfold reference
  split
  · rename_i hn
    unfold Model.qualifiedClass
    rw [hn]
    by_cases hb : StartsWithBackslash target.className
    · exact iff_of_false (denoted_ne hb) fun h => h ⟨rfl, hb⟩
    · exact iff_of_true (denoted_bare hb) fun h => hb h.2
  · rename_i hn
    exact iff_of_true (denoted_behind_backslash _ _) fun h => hn h.1

/-- The reference to the model of a key is the one that calls are written with. It denotes the model's class, except where a
class of the same namespace starts with a backslash, as only keys that are nothing but slashes make it. -/
def RefersTo (s : Resolved) (owner : Model) (key text : String) : Prop :=
  ∃ target, s.models.get? key = some target ∧ text = reference owner target ∧
    (denoted owner.namespaceName text = target.qualifiedClass ↔
      ¬(target.namespaceName = owner.namespaceName ∧ StartsWithBackslash target.className)) ∧
    (StartsWithBackslash target.className → ∀ c ∈ key.toList, isSlash c = true)

theorem exists_refersTo {d e : Draft} (hd : Settled settings schema d e) (owner : Model) {keys : List String}
    (hk : keys ⊆ e.models.keys) : ∃ texts, keys.mapM (classArgument (ofDraft e) owner) = .ok (texts.map .classRef) ∧
      List.Forall₂ (RefersTo (ofDraft e) owner) keys texts := by
  induction keys with
  | nil => exact ⟨[], rfl, .nil⟩
  | cons key rest ih =>
    obtain ⟨hkey, hrest⟩ := List.cons_subset.mp hk
    obtain ⟨texts, hm, hall⟩ := ih hrest
    obtain ⟨target, ht⟩ := OrderedMap.mem_keys_iff.mp hkey
    have hc : classArgument (ofDraft e) owner key = .ok (.classRef (reference owner target)) := by
      unfold classArgument reference model?
      rw [show (ofDraft e).models.get? key = some target from ht]
      dsimp only
      split <;> rfl
    have hslash : StartsWithBackslash target.className → ∀ c ∈ key.toList, isSlash c = true := by
      rw [(hd.founded.identity key target (hd.models ▸ ht)).1]
      exact isSlash_of_startsWithBackslash
    refine ⟨reference owner target :: texts, ?_, .cons ⟨target, ht, rfl, denoted_reference owner target, hslash⟩ hall⟩
    rw [List.mapM_cons, hc, hm]
    rfl

theorem classKeys_subset (l : Link) : classKeys l ⊆ l.references := by
  cases l <;> simp [classKeys, Link.model?, Link.references]

theorem pivot_subset (l : Link) : l.pivot?.toList ⊆ l.references := by
  cases l <;> simp [Link.pivot?, Link.references]

/-- The methods of the call of a relation, from the references to its classes and to its pivot model. -/
def callMethods (r : Relation) (classes pivots : List String) : List Method :=
  ⟨r.kind.keyword, classes.map .classRef ++ keyArguments r.name r.link⟩ ::
    pivots.map (fun text => ⟨"using", [.classRef text]⟩) ++
    (if r.link.withPivot.isEmpty then [] else [⟨"withPivot", r.link.withPivot⟩]) ++ r.methods.methods

theorem relationMethods_eq {owner : Model} {r : Relation} {classes pivots : List String}
    (hc : (classKeys r.link).mapM (classArgument s owner) = .ok (classes.map .classRef))
    (hp : r.link.pivot?.toList.mapM (classArgument s owner) = .ok (pivots.map .classRef)) :
    relationMethods s owner r = .ok (callMethods r classes pivots) := by
  have husing : (r.link.pivot?.toList.mapM fun key => do return (⟨"using", [← classArgument s owner key]⟩ : Method)) =
      .ok (pivots.map fun text => ⟨"using", [.classRef text]⟩) := by
    rw [mapM_eq_ok, List.forall₂_map_right_iff] at hp ⊢
    refine hp.imp ?_
    intro key text h
    rw [h]
    rfl
  unfold relationMethods
  rw [hc]
  refine bind_eq_ok.mpr ⟨_, rfl, ?_⟩
  dsimp only
  rw [husing]
  rfl

/-- A resolved schema is closed: a relation stands under its own name, all models that it names are there, and so it has its
call, in which the classes of its target, of the model it goes through and of its pivot model are referred to. -/
theorem references_closed (h : resolve settings schema = .ok s) {k n : String} {m : Model} {r : Relation}
    (hm : s.models.get? k = some m) (hr : m.relations.get? n = some r) :
    s.models.keys = schema.models.keys ∧ r.name = n ∧ r.link.references ⊆ s.models.keys ∧
    ∃ classes pivots, List.Forall₂ (RefersTo s m) (classKeys r.link) classes ∧
      List.Forall₂ (RefersTo s m) r.link.pivot?.toList pivots ∧
      relationCall s k n = .ok ("->".intercalate ((callMethods r classes pivots).map Method.render)) := by
  obtain ⟨d, e, hd, rfl⟩ := resolve_ok h
  have hmodels : e.models = d.models := hd.models
  have hm' : d.models.get? k = some m := hmodels ▸ hm
  obtain ⟨hname, _, hrefs⟩ := (hd.founded.sound.model k m hm').relation hr
  rw [← hmodels] at hrefs
  obtain ⟨classes, hc, hclasses⟩ := exists_refersTo hd m (List.Subset.trans (classKeys_subset r.link) hrefs)
  obtain ⟨pivots, hp, hpivots⟩ := exists_refersTo hd m (List.Subset.trans (pivot_subset r.link) hrefs)
  have hkeys : e.models.keys = schema.models.keys := by
    rw [hmodels, hd.founded.sound.keys, hd.founded.read.keys]
  refine ⟨hkeys, hname, hrefs, classes, pivots, hclasses, hpivots, ?_⟩
  unfold relationCall model? Model.relation?
  rw [hm]
  refine bind_eq_ok.mpr ⟨m, rfl, ?_⟩
  dsimp only
  rw [hr]
  exact bind_eq_ok.mpr ⟨_, relationMethods_eq hc hp, rfl⟩

theorem blog_references_closed : ∃ s m r classes pivots, resolve .standard blog = .ok s ∧
    s.models.get? "User" = some m ∧ m.relations.get? "roles" = some r ∧
    r.link.references = ["Role", "Admin/Membership"] ∧ r.link.references ⊆ s.models.keys ∧
    List.Forall₂ (RefersTo s m) ["Role"] classes ∧ List.Forall₂ (RefersTo s m) ["Admin/Membership"] pivots ∧
    relationCall s "User" "roles" = .ok ("->".intercalate ((callMethods r classes pivots).map Method.render)) ∧
    relationCall s "User" "roles" = .ok
      "belongsToMany(Role::class, 'memberships', 'user_id', 'role_id')->using(\\App\\Models\\Admin\\Membership::class)" := by
  have hblog : (resolve .standard blog).toOption.any (fun s =>
      (relationCall s "User" "roles").toOption =
        some "belongsToMany(Role::class, 'memberships', 'user_id', 'role_id')->using(\\App\\Models\\Admin\\Membership::class)" ∧
      (s.models.get? "User").any fun m => (m.relations.get? "roles").any fun r =>
        r.link.references = ["Role", "Admin/Membership"] ∧ classKeys r.link = ["Role"] ∧
          r.link.pivot? = some "Admin/Membership") = true := by decide +kernel
  obtain ⟨s, h, hs⟩ := exists_resolved_of_any hblog
  obtain ⟨hcall, huser⟩ := of_decide_eq_true hs
  obtain ⟨m, hm, hroles⟩ := exists_of_any huser
  obtain ⟨r, hr, hp⟩ := exists_of_any hroles
  obtain ⟨hrefs, hclassKeys, hpivot⟩ := of_decide_eq_true hp
  obtain ⟨_, _, hclosed, classes, pivots, hclasses, hpivots, hrendered⟩ := references_closed h hm hr
  rw [hclassKeys] at hclasses
  rw [hpivot] at hpivots
  refine ⟨s, m, r, classes, pivots, h, hm, hr, hrefs, hclosed, hclasses, hpivots, hrendered,
    ok_of_toOption hcall⟩

/-- A model whose key is a single backslash, and a model that belongs to it. -/
def slashes : SchemaDeclaration where
  rootNamespace := none
  models := .ofList [("\\", declaredByLines [("name", "string")]), ("Post", declaredByLines [("author", "belongsTo:\\")])]
  migrations := .empty

theorem slashes_not_denoted : ∃ s owner target r, resolve .standard slashes = .ok s ∧
    s.models.get? "Post" = some owner ∧ owner.relations.get? "author" = some r ∧ r.link.model? = some "\\" ∧
    s.models.get? "\\" = some target ∧ target.namespaceName = owner.namespaceName ∧
    classArgument s owner "\\" = .ok (.classRef "\\") ∧ relationCall s "Post" "author" = .ok "belongsTo(\\::class, '\\_id')" ∧
    denoted owner.namespaceName "\\" ≠ target.qualifiedClass := by
  have hslashes : (resolve .standard slashes).toOption.any (fun s =>
      (relationCall s "Post" "author").toOption = some "belongsTo(\\::class, '\\_id')" ∧
      (s.models.get? "Post").any fun owner => (s.models.get? "\\").any fun target =>
        target.namespaceName = owner.namespaceName ∧
        (classArgument s owner "\\").toOption = some (.classRef "\\") ∧
        denoted owner.namespaceName "\\" ≠ target.qualifiedClass ∧
        (owner.relations.get? "author").any fun r => r.link.model? = some "\\") = true := by decide +kernel
  obtain ⟨s, h, hs⟩ := exists_resolved_of_any hslashes
  obtain ⟨hcall, hpost⟩ := of_decide_eq_true hs
  obtain ⟨owner, howner, hslash⟩ := exists_of_any hpost
  obtain ⟨target, htarget, hp⟩ := exists_of_any hslash
  obtain ⟨hnamespace, hargument, hdenoted, hauthor⟩ := of_decide_eq_true hp
  obtain ⟨r, hr, hmodel⟩ := exists_of_any hauthor
  exact ⟨s, owner, target, r, h, howner, hr, of_decide_eq_true hmodel, htarget, hnamespace, ok_of_toOption hargument,
    ok_of_toOption hcall, hdenoted⟩

end Schemata.Resolved
