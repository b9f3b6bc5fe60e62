import Schemata.Proofs.Inflection.Snake
import Schemata.Proofs.Resolved.Arguments
import Schemata.Proofs.Resolved.ClassNames

/-!
# Classes in snake case

The snake form of a class name is one that does not change any more, and the studly form of it is the class up to case. So whoever
looks for a model by the snake form of its class finds it.
-/

namespace Schemata

open Schemata.Text Schemata.Inflection

namespace Resolution

variable {settings : Settings} {schema : SchemaDeclaration} {d e : Draft} {k : String} {m : Model}

/-! ## Classes of keys -/

theorem className_of_no_slash {key : String} (h : ∀ c ∈ key.toList, isSlash c = false) :
    (identity settings key).className = studly key := by
  rw [← String.toList_inj, className_identity, studly, String.toList_ofList, keyParts, List.splitOnP_eq_singleton h]
  cases hkey : key.toList with
  | nil => rfl
  | cons c rest => rfl

theorem className_of_slashes {key : String} (h : ∀ c ∈ key.toList, isSlash c = true) :
    (identity settings key).className = studly key := by
  have hparts : keyParts key = [] := by
    refine List.filter_eq_nil_iff.mpr fun part hpart => ?_
    rw [Bool.not_eq_true, Bool.not_eq_false', List.isEmpty_iff, List.eq_nil_iff_forall_not_mem]
    intro c hc
    obtain ⟨hm, hs⟩ := mem_of_mem_splitOnP hpart c hc
    exact Bool.false_ne_true (hs.symm.trans (h c hm))
  rw [← String.toList_inj, className_identity, studly, String.toList_ofList, hparts]
  rfl

theorem slash_facts {c : Char} (h : isSlash c = true) :
    c.toNat < 128 ∧ isJoint c = false ∧ c.isUpper = false ∧ c.toUpper = c := by
  have hall : ∀ c ∈ ['/', '\\'], c.toNat < 128 ∧ isJoint c = false ∧ c.isUpper = false ∧ c.toUpper = c :=
    forall_mem_slashes.mpr (by decide)
  exact hall c (mem_slashes_iff.mpr h)

theorem snaked_of_slashes {cs : List Char} (h : ∀ c ∈ cs, isSlash c = true) (written : Option Char) : Snaked written cs := by
  induction cs generalizing written with
  | nil => exact .nil
  | cons c rest ih =>
    obtain ⟨hascii, hword, hlower, _⟩ := slash_facts (h c List.mem_cons_self)
    exact .letter hascii hword hlower (ih (fun x hx => h x (List.mem_cons_of_mem _ hx)) _)

theorem upperFirst_of_slashes {cs : List Char} (h : ∀ c ∈ cs, isSlash c = true) : upperFirst cs = cs := by
  cases cs with
  | nil => rfl
  | cons c rest =>
    obtain ⟨hascii, _, _, hc⟩ := slash_facts (h c List.mem_cons_self)
    rw [upperFirst, upperChar_of_ascii hascii, hc, List.singleton_append]

/-- Slashes are written in each form as they are. -/
theorem studly_snake_of_slashes {s : String} (h : ∀ c ∈ s.toList, isSlash c = true) : studly s = s ∧ snake s = s := by
  constructor
  · rw [studly, studlyChars_of_word fun c hc => (slash_facts (h c hc)).2.1, upperFirst_of_slashes h, String.ofList_toList]
  · rw [snake, snakeChars, (snaked_of_slashes h none).snakeAfter_eq, String.ofList_toList]

/-! ## Drafts with classes -/

theorem referredClass_of_no_slash {reference : String} (h : ∀ c ∈ reference.toList, isSlash c = false) :
    Draft.referredClass reference = reference := by
  have hkept : reference.toList.reverse.takeWhile (fun c => c != '/' && c != '\\') = reference.toList.reverse := by
    refine List.takeWhile_eq_self_iff.mpr fun c hc => ?_
    have hslash := h c (List.mem_reverse.mp hc)
    rw [isSlash, Bool.or_eq_false_iff, decide_eq_false_iff_not, decide_eq_false_iff_not] at hslash
    simp [hslash]
  rw [Draft.referredClass, hkept, List.reverse_reverse, String.ofList_toList]

/-- Each model has the class of its key, and no two classes differ in case alone. -/
structure Draft.Classed (settings : Settings) (d : Draft) : Prop where
  keyed : d.Keyed
  distinct : d.ClassesDistinct
  className : ∀ k m, d.models.get? k = some m → m.className = (identity settings k).className

theorem classed_modelShells (hd : d.models = .empty) (hrun : Pass.modelShells.body d = .ok () e) : e.Classed e.settings := by
  obtain ⟨-, hshelled⟩ := makeShells_ok hd (Resolve.update_run_ok.mp hrun)
  refine ⟨fun k m hm => ?_, classesDistinct_modelShells hd hrun, fun k m hm => ?_⟩
  · obtain ⟨_, _, hshell⟩ := hshelled.shell k m hm
    exact hshell.key
  · obtain ⟨_, _, hshell⟩ := hshelled.shell k m hm
    exact hshell.className

theorem Course.classed (c : Course settings schema) : c.complete.Classed settings := by
  obtain ⟨d, ⟨d₁, h₁, d₂, h₂, rfl⟩, _, hkeys, hsame⟩ := c.exists_shells
  have hempty : d₁.models = .empty := by
    rw [(readDeclarations_ok rfl (Resolve.update_run_ok.mp h₁)).1]
    rfl
  refine ⟨c.founded.sound.keyed, ?_, fun k m hm => (c.founded.identity k m hm).1⟩
  refine Draft.classesDistinct_congr (fun k => ?_) (classesDistinct_modelShells hempty h₂)
  cases hm : d₂.models.get? k with
  | none => rw [OrderedMap.get?_eq_none_iff.mpr (hkeys ▸ OrderedMap.get?_eq_none_iff.mp hm)]
  | some m =>
    obtain ⟨n, hn⟩ := OrderedMap.mem_keys_iff.mp (hkeys ▸ OrderedMap.mem_keys_iff.mpr ⟨m, hm⟩)
    rw [hn]
    exact congrArg some (hsame k m n hm hn).className

variable (h : d.Classed settings) (hm : d.models.get? k = some m)
include h hm

/-- A word without slashes means the model of its class, even if it is also a key: that key has the same class. -/
theorem Draft.Classed.findModel?_eq {reference : String} (hslash : ∀ c ∈ reference.toList, isSlash c = false)
    (hself : sameAscii (studly reference) reference = true) (hclass : sameAscii m.className reference = true) :
    d.findModel? reference = some k := by
  by_cases hkey : reference ∈ d.models.keys
  · obtain ⟨n, hn⟩ := OrderedMap.mem_keys_iff.mp hkey
    have hname : n.className = studly reference := (h.className reference n hn).trans (className_of_no_slash hslash)
    obtain rfl : k = reference := h.distinct hm hn (lower_eq_of_sameAscii hclass (hname ▸ hself))
    exact Draft.findModel?_of_mem hkey
  · have hnot : ¬d.models.contains reference = true := fun hc => hkey (OrderedMap.contains_iff.mp hc)
    unfold Draft.findModel?
    rw [if_neg hnot, Draft.find?_className h.keyed h.distinct, referredClass_of_no_slash hslash]
    exact ⟨m, hm, hclass⟩

theorem Draft.Classed.isJoint_className : ∀ c ∈ m.className.toList, isJoint c = false := by
  rw [h.className k m hm, className_identity]
  exact fun c => isJoint_of_mem_studlyChars

/-- The snake form of a class means its model. -/
theorem Draft.Classed.findModel?_snake (hascii : IsAscii m.className) :
    d.findModel? (studly (snake m.className)) = some k := by
  have hword := h.isJoint_className hm
  have hstudly : sameAscii (studly (snake m.className)) m.className = true := by
    rw [sameAscii, beq_iff_eq, beq_iff_eq.mp (sameAscii_studly_snake hascii), ← beq_iff_eq]
    exact sameAscii_studly hascii hword
  by_cases hslash : ∃ c ∈ m.className.toList, isSlash c = true
  · -- The key is nothing but slashes, which are the class and its snake form as well.
    obtain ⟨c, hc, hs⟩ := hslash
    rw [h.className k m hm] at hc ⊢
    obtain ⟨hkey, _⟩ := isSlash_of_mem_className hs hc
    obtain ⟨hk, hsnake⟩ := studly_snake_of_slashes hkey
    rw [className_of_slashes hkey, hk, hsnake, hk]
    exact Draft.findModel?_of_mem (OrderedMap.mem_keys_iff.mpr ⟨m, hm⟩)
  · have hnone : ∀ c ∈ (studly (snake m.className)).toList, isSlash c = false := by
      intro c hc
      rw [← Bool.not_eq_true]
      intro hs
      refine hslash ⟨c, ?_, hs⟩
      rwa [← mem_asciiLower_iff hs, ← beq_iff_eq.mp hstudly, mem_asciiLower_iff hs]
    refine h.findModel?_eq hm hnone (sameAscii_studly (isAscii_studly (isAscii_snake hascii)) fun c hc => ?_) ?_
    · rw [studly, String.toList_ofList] at hc
      exact isJoint_of_mem_studlyChars hc
    · rw [sameAscii, beq_iff_eq]
      exact (beq_iff_eq.mp hstudly).symm

end Resolution

namespace Resolved

open Resolution Convention

/-- A model is found by the snake form of its class, and two models by a name that is cut into the snake forms of their classes. -/
structure FoundInSnakeCase (models : OrderedMap Model) (find : String → Option String) (className : String) : Prop where
  model {k : String} {m : Model} : models.get? k = some m → m.className = className → find (studly (snake className)) = some k
  pair {k j : String} {m n : Model} {name before after : String} : models.get? k = some m → m.className = className →
    models.get? j = some n → IsAscii n.className → className ≠ "" → n.className ≠ "" →
    (before.toList, after.toList) ∈ cuts (snake name).toList → singular before = snake className →
    singular after = snake n.className → ∃ pair ∈ throughCandidates name, find pair.1 = some k ∧ find pair.2 = some j

theorem studly_snake_ne_empty {s : String} (h : IsAscii s) (hword : ∀ c ∈ s.toList, isJoint c = false)
    (hne : s ≠ "") : (studly (snake s)).isEmpty = false := by
  have hsame : asciiLower (studly (snake s)) = asciiLower s :=
    (beq_iff_eq.mp (sameAscii_studly_snake h)).trans (beq_iff_eq.mp (sameAscii_studly h hword))
  rw [← Bool.not_eq_true, String.isEmpty_iff]
  intro hempty
  unfold asciiLower at hsame
  rw [hempty, String.ofList_inj] at hsame
  exact hne (String.toList_eq_nil_iff.mp (List.map_eq_nil_iff.mp hsame.symm))

/-- The words of a cut name are a pair that the name may mean. -/
theorem mem_throughCandidates {name before after first second : String}
    (hcut : (before.toList, after.toList) ∈ cuts (snake name).toList) (hbefore : singular before = first)
    (hafter : singular after = second) (hfirst : (studly first).isEmpty = false) (hsecond : (studly second).isEmpty = false) :
    (studly first, studly second) ∈ throughCandidates name := by
  subst hbefore hafter
  unfold snake at hcut
  rw [String.toList_ofList] at hcut
  unfold studly singular at *
  rw [String.toList_ofList] at hfirst hsecond ⊢
  rw [String.toList_ofList]
  exact List.mem_filter.mpr ⟨List.mem_map.mpr ⟨_, hcut, rfl⟩, by simp [hfirst, hsecond]⟩

theorem foundInSnakeCase {settings : Settings} {d : Draft} (h : d.Classed settings) {s : String}
    (hs : IsAscii s) : FoundInSnakeCase d.models d.findModel? s := by
  refine ⟨fun hm hname => ?_, fun hm hname hn hascii hne hne' hcut hbefore hafter => ?_⟩
  · subst hname
    exact h.findModel?_snake hm hs
  · subst hname
    exact ⟨_, mem_throughCandidates hcut hbefore hafter (studly_snake_ne_empty hs (h.isJoint_className hm) hne)
      (studly_snake_ne_empty hascii (h.isJoint_className hn) hne'), h.findModel?_snake hm hs, h.findModel?_snake hn hascii⟩

/-- The snake form of an ASCII text is its own snake form, has no capitals, and single underscores after other characters alone. Its
studly form is that of the text up to case. So models are found by the snake forms of their classes, from when they are there to
when they are resolved. -/
theorem classes_found_in_snake_case (s : String) (hs : IsAscii s) :
    snake (snake s) = snake s ∧ (∀ c ∈ (snake s).toList, isUppercase c = false) ∧ (snake s).toList.head? ≠ some '_' ∧
      ¬['_', '_'] <:+: (snake s).toList ∧ sameAscii (studly (snake s)) (studly s) = true ∧
      (∀ d e, d.models = .empty → Pass.modelShells.body d = .ok () e → FoundInSnakeCase e.models e.findModel? s) ∧
      ∀ settings schema r, resolve settings schema = .ok r → FoundInSnakeCase r.models r.findModel? s := by
  have hsnaked := snaked_snake hs
  refine ⟨snake_snake hs, fun c hc => (hsnaked.facts c hc).2, hsnaked.head?_ne nofun, hsnaked.not_isInfix,
    sameAscii_studly_snake hs, fun d e hd hrun => foundInSnakeCase (classed_modelShells hd hrun) hs, fun settings schema r h => ?_⟩
  obtain ⟨c, hmodels, _⟩ := exists_course_of_resolve h
  rw [findModel?_eq hmodels, hmodels]
  exact foundInSnakeCase c.classed hs

/-- Requests of users and posts of requests, with a relation that is called by both. -/
def httpRequests : SchemaDeclaration where
  rootNamespace := none
  models := .ofList [
    ("User", declaredByLines [("name", "string"), ("httpRequestBlogPosts", "hasManyThrough")]),
    ("Web/HTTPRequest", declaredByLines [("user", "belongsTo")]),
    ("BlogPost", declaredByLines [("request", "belongsTo:HTTPRequest")])]
  migrations := .empty

theorem httpRequests_found_in_snake_case :
    IsAscii "HTTPRequest" ∧ snake "HTTPRequest" = "http_request" ∧
      snake (snake "HTTPRequest") = snake "HTTPRequest" ∧
      (∃ d e m, d.models = .empty ∧ Pass.modelShells.body d = .ok () e ∧ e.models.get? "Web/HTTPRequest" = some m ∧
        m.className = "HTTPRequest" ∧ e.findModel? "HttpRequest" = some "Web/HTTPRequest") ∧
      ∃ r m n, resolve .standard httpRequests = .ok r ∧ r.models.get? "Web/HTTPRequest" = some m ∧ m.className = "HTTPRequest" ∧
        r.models.get? "BlogPost" = some n ∧ n.className = "BlogPost" ∧
        ∃ pair ∈ throughCandidates "httpRequestBlogPosts",
          r.findModel? pair.1 = some "Web/HTTPRequest" ∧ r.findModel? pair.2 = some "BlogPost" := by
  have hascii : IsAscii "HTTPRequest" := by decide
  have hpost : IsAscii "BlogPost" := by decide
  have hstudly : studly (snake "HTTPRequest") = "HttpRequest" := by decide +kernel
  obtain ⟨hsnake, _, _, _, _, hshells, hresolved⟩ := classes_found_in_snake_case "HTTPRequest" hascii
  refine ⟨hascii, by decide +kernel, hsnake, ?_, ?_⟩
  · have hrequests : (readDeclarations (.start .standard httpRequests) >>= makeShells).toOption.any (fun e =>
        (e.models.get? "Web/HTTPRequest").any fun m => m.className = "HTTPRequest") = true := by decide +kernel
    obtain ⟨e, he, hp⟩ := exists_of_any hrequests
    obtain ⟨d, hd, hmade⟩ := bind_eq_ok.mp (ok_of_toOption he)
    obtain ⟨m, hm, hclass⟩ := exists_of_any hp
    have hempty : d.models = .empty := by
      rw [(readDeclarations_ok rfl hd).1]
      rfl
    have hrun : Pass.modelShells.body d = .ok () e := Resolve.update_run_ok.mpr hmade
    have hfound := (hshells d e hempty hrun).model hm (of_decide_eq_true hclass)
    exact ⟨d, e, m, hempty, hrun, hm, of_decide_eq_true hclass, hstudly ▸ hfound⟩
  · have hrequests : (resolve .standard httpRequests).toOption.any (fun r =>
        ((r.models.get? "Web/HTTPRequest").any fun m => m.className = "HTTPRequest") ∧
        (r.models.get? "BlogPost").any fun n => n.className = "BlogPost") = true := by decide +kernel
    obtain ⟨r, hr, hp⟩ := exists_resolved_of_any hrequests
    obtain ⟨hrequest, hblog⟩ := of_decide_eq_true hp
    obtain ⟨m, hm, hclass⟩ := exists_of_any hrequest
    obtain ⟨n, hn, hother⟩ := exists_of_any hblog
    have hclass := of_decide_eq_true hclass
    have hother := of_decide_eq_true hother
    have hcut : ("http_request".toList, "blog_posts".toList) ∈ cuts (snake "httpRequestBlogPosts").toList := by decide +kernel
    have hpair := (hresolved .standard httpRequests r hr).pair hm hclass hn (hother ▸ hpost) (by decide) (by rw [hother]; decide) hcut
      (by decide +kernel) (by rw [hother]; decide +kernel)
    exact ⟨r, m, n, hr, hm, hclass, hn, hother, hpair⟩

end Resolved

end Schemata
