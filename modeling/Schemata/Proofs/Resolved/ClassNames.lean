import Schemata.Proofs.Resolution.ClassNames
import Schemata.Proofs.Resolved.Basic

/-!
# Models told apart

Once the models are there, no two of them have a class, a table or a file in common, and a reference means one model at most.
-/

namespace Schemata.Resolved

open Resolution Schemata.Text

variable {d e : Draft}

/-- What is looked up by key or by class is the same in any order of the models. -/
theorem findModel?_perm (hd : d.Keyed) (hc : d.ClassesDistinct) {models : OrderedMap Model}
    (h : d.models.entries.Perm models.entries) : { d with models }.findModel? = d.findModel? := by
  have hget : ∀ k, models.get? k = d.models.get? k := fun k => OrderedMap.get?_eq_of_perm h k
  have hkeyed : { d with models }.Keyed := fun k m hm => hd k m ((hget k).symm.trans hm)
  exact Draft.findModel?_congr (fun k => congrArg _ (hget k)) hd hkeyed hc

/-- No two models have classes that differ in the case of ASCII letters alone, nor tables that are the same; nor is the file of a
model that has a name also that of another. So a reference means the model that has it for its key, or else the one model of its
class if there is one, whatever the order of the models. -/
theorem models_told_apart (hd : d.models = .empty) (hrun : Pass.modelShells.body d = .ok () e) :
    (∀ j k m n, e.models.get? j = some m → e.models.get? k = some n → j ≠ k →
      sameAscii m.className n.className = false ∧ m.table ≠ n.table ∧
      (isNamed j = true → sameAscii m.path n.path = false)) ∧
    (∀ k ∈ e.models.keys, e.findModel? k = some k) ∧
    (∀ reference ∉ e.models.keys, ∀ k, e.findModel? reference = some k ↔
      ∃ m, e.models.get? k = some m ∧ sameAscii m.className (Draft.referredClass reference) = true) ∧
    ∀ models : OrderedMap Model, e.models.entries.Perm models.entries → { e with models }.findModel? = e.findModel? := by
  obtain ⟨-, hshelled⟩ := makeShells_ok hd (Resolve.update_run_ok.mp hrun)
  have hclasses : e.ClassesDistinct := classesDistinct_modelShells hd hrun
  have hkeyed : e.Keyed := by
    intro k m hm
    obtain ⟨_, _, hshell⟩ := hshelled.shell k m hm
    exact hshell.key
  refine ⟨fun j k m n hm hn hne => ?_, fun k hk => ?_, fun reference hr k => ?_, fun models => findModel?_perm hkeyed hclasses⟩
  · have hclass : sameAscii m.className n.className = false := by
      by_contra h
      rw [Bool.not_eq_false] at h
      exact hne (hclasses hm hn (lower_eq_of_sameAscii h (sameAscii_refl n.className)))
    -- Tables are told apart by the check of the pass, files by the classes that they are named for.
    refine ⟨hclass, fun ht => hne ?_, fun hj => ?_⟩
    · have hmn := List.inj_on_of_nodup_map hshelled.tables (OrderedMap.mem_values_iff.mpr ⟨j, hm⟩)
        (OrderedMap.mem_values_iff.mpr ⟨k, hn⟩) ht
      rw [← hkeyed j m hm, ← hkeyed k n hn, hmn]
    · obtain ⟨_, _, hmshell⟩ := hshelled.shell j m hm
      obtain ⟨_, _, hnshell⟩ := hshelled.shell k n hn
      by_contra h
      rw [Bool.not_eq_false, hmshell.path, hnshell.path] at h
      have hsame := sameAscii_className_of_path hj h
      rw [← hmshell.className, ← hnshell.className, hclass] at hsame
      exact Bool.false_ne_true hsame
  · exact Draft.findModel?_of_mem hk
  · have hkey : ¬e.models.contains reference = true := fun h => hr (OrderedMap.contains_iff.mp h)
    unfold Draft.findModel?
    rw [if_neg hkey]
    exact Draft.find?_className hkeyed hclasses

/-- Two models with names, and one whose key ends in a joint. -/
def archive : SchemaDeclaration where
  rootNamespace := none
  models := .ofList [("User", declaredByLines [("name", "string")]), ("Admin/blog_post", declaredByLines [("title", "string")]),
    ("Admin/-", declaredByLines [("label", "string")])]
  migrations := .empty

theorem archive_told_apart : ∃ d e m n, d.models = .empty ∧ Pass.modelShells.body d = .ok () e ∧
    e.models.keys = ["User", "Admin/blog_post", "Admin/-"] ∧
    e.models.get? "Admin/blog_post" = some m ∧ e.models.get? "Admin/-" = some n ∧
    isNamed "Admin/blog_post" = true ∧ isNamed "Admin/-" = false ∧
    m.path = "app/Models/Admin/BlogPost.php" ∧ n.path = "app/Models/Admin/.php" ∧
    sameAscii m.className n.className = false ∧ m.table ≠ n.table ∧ sameAscii m.path n.path = false ∧
    e.findModel? "Admin/-" = some "Admin/-" ∧ e.findModel? "Blog\\BLOGPOST" = some "Admin/blog_post" ∧
    e.findModel? "BLOG_POST" = none := by
  have harchive : (readDeclarations (.start .standard archive) >>= makeShells).toOption.any (fun e =>
      e.models.keys = ["User", "Admin/blog_post", "Admin/-"] ∧
      isNamed "Admin/blog_post" = true ∧ isNamed "Admin/-" = false ∧
      ((e.models.get? "Admin/blog_post").any fun m =>
        m.path = "app/Models/Admin/BlogPost.php" ∧ sameAscii m.className (Draft.referredClass "Blog\\BLOGPOST") = true) = true ∧
      ((e.models.get? "Admin/-").any fun n => n.path = "app/Models/Admin/.php") = true ∧
      e.models.values.all (fun m => !sameAscii m.className (Draft.referredClass "BLOG_POST")) = true) = true := by decide +kernel
  obtain ⟨e, he, hp⟩ := exists_of_any harchive
  obtain ⟨d, hd, hshells⟩ := bind_eq_ok.mp (ok_of_toOption he)
  obtain ⟨hkeys, hnamed, hnameless, hpost, hdash, hnone⟩ := of_decide_eq_true hp
  obtain ⟨m, hm, hpost⟩ := exists_of_any hpost
  obtain ⟨hmpath, hclass⟩ := of_decide_eq_true hpost
  obtain ⟨n, hn, hnpath⟩ := exists_of_any hdash
  have hd₀ : d.models = .empty := by
    rw [(readDeclarations_ok rfl hd).1]
    rfl
  have hrun : Pass.modelShells.body d = .ok () e := Resolve.update_run_ok.mpr hshells
  obtain ⟨hapart, hself, hmeant, -⟩ := models_told_apart hd₀ hrun
  obtain ⟨hclasses, htables, hpaths⟩ := hapart "Admin/blog_post" "Admin/-" m n hm hn (by decide)
  refine ⟨d, e, m, n, hd₀, hrun, hkeys, hm, hn, hnamed, hnameless, hmpath, of_decide_eq_true hnpath, hclasses, htables,
    hpaths hnamed, hself _ (by rw [hkeys]; decide), (hmeant _ (by rw [hkeys]; decide) _).mpr ⟨m, hm, hclass⟩, ?_⟩
  rw [Option.eq_none_iff_forall_ne_some]
  intro k hk
  obtain ⟨o, ho, hsame⟩ := (hmeant _ (by rw [hkeys]; decide) k).mp hk
  have hfalse := List.all_eq_true.mp hnone o (OrderedMap.mem_values_iff.mpr ⟨k, ho⟩)
  rw [hsame] at hfalse
  exact Bool.false_ne_true hfalse

end Schemata.Resolved
