import Schemata.Proofs.Resolution.Arguments
import Schemata.Proofs.Resolved.Qualifiers

/-!
# Given arguments of a resolved schema

What a relation line says is what its relation has, in any mix of arguments that are given and arguments that are left out. A
through relation whose line leaves out its target is the exception: then the model between is guessed even if it is named.
-/

namespace Schemata.Resolved

open Resolution

variable {settings : Settings} {schema : SchemaDeclaration} {s : Resolved}

/-- The key of the model that a reference means: the model of that key, else the first one whose class is the last part of the
reference, whatever the case of its ASCII letters. -/
def findModel? (s : Resolved) (reference : String) : Option String :=
  if s.models.contains reference then some reference
  else (s.models.values.find? fun m => Text.sameAscii m.className (Draft.referredClass reference)).map (·.key)

theorem findModel?_eq {d : Draft} (h : s.models = d.models) : s.findModel? = d.findModel? := by
  funext reference
  unfold findModel? Draft.findModel?
  rw [h]

/-- Every relation line of a schema that resolves has its relation, which takes over the arguments and the pivot model that the
line gives. -/
theorem arguments_taken_over (h : resolve settings schema = .ok s) {l : DeclaredRelation} (hline : DeclaredBy schema l) :
    ∃ m r, s.models.get? l.model = some m ∧ m.relations.get? l.name = some r ∧ TakesOver s.findModel? l r.link := by
  obtain ⟨c, hmodels, _⟩ := exists_course_of_resolve h
  obtain ⟨y, declaration, text, hy, hread, htext, hparse⟩ := id hline
  obtain ⟨m, r, hm, hr, _⟩ :=
    exists_relation_of_line c ⟨y, declaration, hy, hread, htext⟩ (DeclaredRelation.parse_ok hparse).kind
  obtain ⟨l', hl', hmodel, hname, htakes, _⟩ := c.exists_takesOver hm hr
  obtain rfl := hline.unique (c.declaredBy hl') hmodel hname
  rw [findModel?_eq hmodels, hmodels]
  exact ⟨m, r, hm, hr, htakes⟩

/-- A schema with lines that give some arguments and leave out others before them. -/
def bureau : SchemaDeclaration where
  rootNamespace := none
  models := .ofList [
    ("Clerk", declaredByLines [("roles", "belongsToMany:null,duties,null,role_key using:office/duty"),
      ("letters", "hasMany:null,writer_id")]),
    ("Role", declaredByLines [("label", "string")]),
    ("Duty", declaredByLines [("clerk", "belongsTo"), ("role", "belongsTo:null,role_key")]),
    ("Letter", declaredByLines [("writer", "belongsTo:clerk,writer_id,null"), ("text", "text")])]
  migrations := .empty

theorem bureau_arguments_taken_over : ∃ s m r l, resolve .standard bureau = .ok s ∧ DeclaredBy bureau l ∧
    l.relation = ⟨"Clerk", "roles"⟩ ∧ [l.argument? 0, l.argument? 1, l.argument? 2, l.argument? 3] =
      [none, some "duties", none, some "role_key"] ∧ l.pivot = some "office/duty" ∧
    s.models.get? "Clerk" = some m ∧ m.relations.get? "roles" = some r ∧ TakesOver s.findModel? l r.link ∧
    r.link = .belongsToMany ⟨"Role", some "Duty", "duties", "clerk_id", "role_key", []⟩ ∧
    s.findModel? "office/duty" = some "Duty" := by
  have hline : (bureau.models.get? "Clerk").any (fun y => (modelDeclaration "Clerk" y).toOption.any fun s =>
      (s.columns.get? "roles").any fun line => line.any fun text =>
        (DeclaredRelation.parse "Clerk" "roles" (.parse text)).toOption.any fun l =>
          [l.argument? 0, l.argument? 1, l.argument? 2, l.argument? 3] = [none, some "duties", none, some "role_key"] ∧
          l.pivot = some "office/duty") = true := by decide +kernel
  obtain ⟨l, hdeclared, hmodel, hname, hl⟩ := exists_declaredBy_of_any hline
  obtain ⟨harguments, hpivot⟩ := of_decide_eq_true hl
  have hbureau : (resolve .standard bureau).toOption.any (fun s => (s.models.get? "Clerk").any fun m =>
      (m.relations.get? "roles").any fun r =>
        r.link = .belongsToMany ⟨"Role", some "Duty", "duties", "clerk_id", "role_key", []⟩) = true := by decide +kernel
  obtain ⟨s, h, hs⟩ := exists_resolved_of_any hbureau
  obtain ⟨m, hm, hs⟩ := exists_of_any hs
  obtain ⟨r, hr, hlink⟩ := exists_of_any hs
  have hlink := of_decide_eq_true hlink
  obtain ⟨m', r', hm', hr', htakes⟩ := arguments_taken_over h hdeclared
  rw [hmodel] at hm'
  obtain rfl := Option.some_inj.mp (hm.symm.trans hm')
  rw [hname] at hr'
  obtain rfl := Option.some_inj.mp (hr.symm.trans hr')
  have hfound := (htakes.pivot hpivot).2
  rw [hlink] at hfound
  exact ⟨s, m, r, l, h, hdeclared, congrArg₂ RelationName.mk hmodel hname, harguments, hpivot, hm, hr, htakes, hlink, hfound⟩

/-- A through relation whose line names the model between alone. -/
def agencies : SchemaDeclaration where
  rootNamespace := none
  models := .ofList [
    ("Country", declaredByLines [("name", "string"), ("posts", "hasManyThrough:null,Agent")]),
    ("User", declaredByLines [("country", "belongsTo")]),
    ("Agent", declaredByLines [("country", "belongsTo")]),
    ("Post", declaredByLines [("user", "belongsTo"), ("agent", "belongsTo")])]
  migrations := .empty

theorem agencies_goes_through_another : ∃ s m r link, resolve .standard agencies = .ok s ∧
    s.models.get? "Country" = some m ∧ m.relations.get? "posts" = some r ∧ r.link = .hasManyThrough link ∧
    link.through = "User" ∧ s.findModel? "Agent" = some "Agent" ∧
    (DeclaredRelation.parse "Country" "posts" (.parse "hasManyThrough:null,Agent")).toOption.map
      (fun l => [l.argument? 0, l.argument? 1]) = some [none, some "Agent"] := by
  have hagencies : (resolve .standard agencies).toOption.any (fun s => s.models.contains "Agent" = true ∧
      (s.models.get? "Country").any fun m => (m.relations.get? "posts").any fun r =>
        r.link = .hasManyThrough ⟨"Post", "User", none, none⟩) = true := by decide +kernel
  obtain ⟨s, h, hs⟩ := exists_resolved_of_any hagencies
  obtain ⟨hagent, hs⟩ := of_decide_eq_true hs
  obtain ⟨m, hm, hs⟩ := exists_of_any hs
  obtain ⟨r, hr, hlink⟩ := exists_of_any hs
  exact ⟨s, m, r, _, h, hm, hr, of_decide_eq_true hlink, rfl, if_pos hagent, by decide +kernel⟩

end Schemata.Resolved
