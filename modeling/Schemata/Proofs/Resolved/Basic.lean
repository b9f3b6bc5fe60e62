import Schemata.Proofs.Resolution.Pipeline
import Schemata.Resolved.Basic

/-!
# Resolved schemas

A schema that resolves has gone through all standard passes.
-/

namespace Schemata.Resolved

open Resolution

variable {settings : Settings} {schema : SchemaDeclaration} {s : Resolved}

/-- Under settings that are valid, how a schema resolves is how the run of the standard passes ends. -/
theorem resolve_eq (hv : (settingsFor settings schema).validate = .ok ()) : resolve settings schema =
    let outcome := runAll standardPasses (.start (settingsFor settings schema) schema)
    match outcome.fault with
    | some fault => .error fault
    | none => .ok (ofDraft outcome.progress.draft) := by
  unfold resolve resolveWith
  dsimp only
  rw [hv]
  rfl

theorem validate_of_resolve_ok (h : resolve settings schema = .ok s) : (settingsFor settings schema).validate = .ok () := by
  obtain ⟨u, hu, _⟩ := bind_eq_ok.mp h
  cases hv : (settingsFor settings schema).validate with
  | error cause => rw [hv] at hu; cases hu
  | ok u => rfl

/-- A schema that resolves is what the standard passes have come to. -/
theorem completes_of_resolve (h : resolve settings schema = .ok s) :
    ∃ e, Completes standardPasses (.start (settingsFor settings schema) schema) e ∧ s = ofDraft e := by
  rw [resolve_eq (validate_of_resolve_ok h)] at h
  dsimp only at h
  split at h
  · cases h
  · rename_i hf
    obtain rfl := Except.ok.inj h
    have hrun : runAll standardPasses (.start (settingsFor settings schema) schema) =
        ⟨(runAll standardPasses (.start (settingsFor settings schema) schema)).progress, none⟩ := by rw [← hf]
    exact ⟨_, (runAll_none hrun).1, rfl⟩

/-- What the standard passes come to is how a schema resolves. -/
theorem resolve_of_completes {e : Draft} (hv : (settingsFor settings schema).validate = .ok ())
    (h : Completes standardPasses (.start (settingsFor settings schema) schema) e) :
    resolve settings schema = .ok (ofDraft e) := by
  rw [resolve_eq hv]
  dsimp only
  split
  · rename_i fault hf
    obtain ⟨before, pass, after, q, c, hp, hb, hfault⟩ := fault_of_areOrdered areOrdered_standardPasses hf
    rw [hp] at h
    obtain ⟨d, hd, d', hbody, _⟩ := completes_append.mp h
    obtain rfl := hd.unique (runAll_none hb).1
    rw [hfault] at hbody
    cases hbody
  · rename_i hf
    have hrun : runAll standardPasses (.start (settingsFor settings schema) schema) =
        ⟨(runAll standardPasses (.start (settingsFor settings schema) schema)).progress, none⟩ := by rw [← hf]
    rw [h.unique (runAll_none hrun).1]

theorem resolve_ok (h : resolve settings schema = .ok s) :
    ∃ d e, Settled (settingsFor settings schema) schema d e ∧ s = ofDraft e := by
  obtain ⟨e, hc, rfl⟩ := completes_of_resolve h
  obtain ⟨d, hd⟩ := settled_of_completes hc
  exact ⟨d, e, hd, rfl⟩

/-- The models of a resolved schema are those at the end of a course, and have passed the last check. -/
theorem exists_course_of_resolve (h : resolve settings schema = .ok s) :
    ∃ c : Course (settingsFor settings schema) schema, s.models = c.complete.models ∧
      ∀ m ∈ s.models.values, checkComplete m = .ok () := by
  obtain ⟨d, e, hd, rfl⟩ := resolve_ok h
  obtain ⟨c, rfl⟩ := hd.course
  exact ⟨c, hd.models, fun m hm => hd.checked m (hd.models ▸ hm)⟩

/-- A schema that does not resolve is at fault, or its settings are. -/
theorem resolve_error {fault : Fault} (h : resolve settings schema = .error fault) :
    (∃ cause, fault = .settings cause) ∨ ∃ cause, fault = .schema cause := by
  cases hv : (settingsFor settings schema).validate with
  | error cause =>
    have hr : resolve settings schema = .error (.settings cause) := by
      unfold resolve resolveWith
      dsimp only
      rw [hv]
      rfl
    exact .inl ⟨cause, Except.error.inj (h.symm.trans hr)⟩
  | ok u =>
    rw [resolve_eq hv] at h
    dsimp only at h
    split at h
    · rename_i found hf
      obtain rfl := Except.error.inj h
      obtain ⟨before, pass, after, q, e, hp, hb, he⟩ := fault_of_areOrdered areOrdered_standardPasses hf
      exact .inr (cause_of_body hp (runAll_none hb).1 he)
    · cases h

/-! ## An instance -/

theorem exists_resolved_of_any {p : Resolved → Bool} (h : (resolve settings schema).toOption.any p = true) :
    ∃ s, resolve settings schema = .ok s ∧ p s = true := by
  cases hs : resolve settings schema with
  | error fault => rw [hs] at h; cases h
  | ok s => rw [hs] at h; exact ⟨s, rfl, h⟩

/-- A model or a table that is declared by its lines alone. -/
def declaredByLines (lines : List (String × String)) : Yaml :=
  .map (lines.map fun (name, line) => (.str name, .str line))

/-- A schema with relations of most kinds, a pivot model, a table for pivots and a declared table. -/
def blog : SchemaDeclaration where
  rootNamespace := none
  models := .ofList [
    ("User", declaredByLines [("name", "string"), ("posts", "hasMany:Post"), ("comments", "hasManyThrough:Comment,Post"),
      ("roles", "belongsToMany:Role using:Admin/Membership"), ("avatar", "morphOne:Image")]),
    ("Post", declaredByLines [("author", "belongsTo:User,user_id index"), ("title", "string unique"),
      ("tags", "belongsToMany:Tag")]),
    ("Comment", declaredByLines [("post", "belongsTo"), ("body", "text")]),
    ("Role", declaredByLines [("label", "string")]),
    ("Admin/Membership", declaredByLines [("user", "belongsTo"), ("role", "belongsTo")]),
    ("Tag", declaredByLines [("label", "string")]),
    ("Image", declaredByLines [("owner", "morphTo:imageable nullable"), ("url", "string")])]
  migrations := .ofList [("sessions", declaredByLines [("id", "string primary"), ("payload", "text")])]

end Schemata.Resolved
