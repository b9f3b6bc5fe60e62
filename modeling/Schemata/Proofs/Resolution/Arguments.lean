import Schemata.Proofs.Resolution.Guesses

/-!
# Given arguments

A turn takes over the arguments that its line gives, whatever others the line leaves out. Only the model between of a relation
through others is left aside if the line does not name the target. A link to a single model is one to the target of its line.
-/

namespace Schemata

/-- What stands in a link for each argument of its line. -/
def Link.arguments : Link → List (Option String)
  | .belongsTo l => [some l.model, some l.columnKey, l.ownerKey]
  | .belongsToMany l => [some l.model, some l.table, some l.foreignPivotKey, some l.relatedPivotKey]
  | .hasOne l | .hasMany l => [some l.model, some l.foreignKey, l.localKey]
  | .hasOneThrough l | .hasManyThrough l => [some l.model, some l.through, l.firstKey, l.secondKey]
  | .morphTo l => [some l.columnName]
  | .morphOne l | .morphMany l => [some l.model, some l.relationKey]
  | .morphToMany l | .morphedByMany l => [some l.model, some l.relationKey]

namespace Resolution

/-- A link takes over what its line gives: the models that references mean, if the line names the first of them, and its pivot
model; and names as they are. -/
structure TakesOver (find : String → Option String) (l : DeclaredRelation) (link : Link) : Prop where
  kind : link.kind = l.kind
  model {i text key} : l.argument? 0 ≠ none → l.argument? i = some text → link.targets[i]? = some key → find text = some key
  name {i text} : l.argument? i = some text → link.targets.length ≤ i → i < link.arguments.length →
    link.arguments[i]? = some (some text)
  pivot {reference} : l.pivot = some reference → link.pivot? ≠ none ∧ find reference = link.pivot?

variable {d e : Draft} {l : DeclaredRelation} {key : String} {link : Link}

/-! ## Steps -/

theorem findModel?_of_target {text : String} (h : d.target l = .ok key) (hgiven : l.argument? 0 = some text) :
    d.findModel? text = some key := by
  unfold Draft.target Draft.resolveReference at h
  rw [hgiven] at h
  dsimp only at h
  split at h
  · rename_i hfound
    exact pure_eq_ok.mp h ▸ hfound
  · exact absurd h throw_ne_ok

/-- A turn fills the place of its line with a link that takes over what the line gives, and that is one to the target of the
line if it is one to a single model. -/
def Gives (l : DeclaredRelation) (d e : Draft) : Prop :=
  ∃ (c : Draft) (link : Link), e = c.resolveRelation l link ∧ TakesOver d.findModel? l link ∧
    ∀ key, link.targets = [key] → d.target l = .ok key

/-- Where the target is the only model of a link, its other arguments are names. -/
theorem gives_of_target {c : Draft} (hk : link.kind = l.kind) (htarget : d.target l = .ok key) (htargets : link.targets = [key])
    (hnames : ∀ i text, l.argument? (i + 1) = some text → i + 1 < link.arguments.length →
      link.arguments[i + 1]? = some (some text))
    (hpivot : ∀ reference, l.pivot = some reference → link.pivot? ≠ none ∧ d.findModel? reference = link.pivot?) :
    Gives l d (c.resolveRelation l link) := by
  refine ⟨c, link, rfl, ⟨hk, fun {i text key'} _ hgiven hi => ?_, fun {i text} hgiven hlow hhigh => ?_, fun {reference} =>
    hpivot reference⟩, fun _ h => List.head_eq_of_cons_eq (htargets.symm.trans h) ▸ htarget⟩
  · rw [htargets] at hi
    cases i with
    | zero => exact Option.some_inj.mp hi ▸ findModel?_of_target htarget hgiven
    | succ i => cases hi
  · rw [htargets] at hlow
    cases i with
    | zero => exact absurd hlow (by simp)
    | succ i => exact hnames i text hgiven hhigh

theorem gives_resolveBelongsTo (hk : l.kind = .belongsTo) (hp : l.pivot = none) (h : resolveBelongsTo l d = .ok e) :
    Gives l d e := by
  obtain ⟨key, target, column, htarget, _, hcolumn, rfl⟩ := resolveBelongsTo_ok_iff.mp h
  obtain ⟨name, builder, rfl, _, hnamed⟩ := keyColumn_ok hcolumn
  refine gives_of_target hk.symm htarget rfl (fun i text hgiven hi => ?_) (by simp [hp])
  match i, hi with
  | 0, _ => exact congrArg (fun name => some (some name)) (hnamed text hgiven).1
  | 1, _ => exact congrArg some hgiven

theorem havingLink_names {target : Model} {made : HasOneOrMany} (h : havingLink l target = .ok made) {text : String} :
    (l.argument? 1 = some text → made.foreignKey = text) ∧ (l.argument? 2 = some text → made.localKey = some text) := by
  unfold havingLink at h
  split at h
  · rename_i named
    obtain rfl := pure_eq_ok.mp h
    exact ⟨fun hgiven => Option.some_inj.mp (named.symm.trans hgiven), id⟩
  · rename_i unnamed
    split at h
    · obtain rfl := pure_eq_ok.mp h
      exact ⟨fun hgiven => absurd (unnamed.symm.trans hgiven) (by simp), fun hgiven => by rw [hgiven]; rfl⟩
    · exact absurd h throw_ne_ok

theorem gives_resolveHaving (hd : d.Keyed) (hk : l.kind ∈ [.hasOne, .hasMany]) (hp : l.pivot = none)
    (h : resolveHaving l d = .ok e) : Gives l d e := by
  obtain ⟨key, target, made, htarget, hm, hmade, rfl⟩ := resolveHaving_ok_iff.mp h
  obtain rfl : made.model = key := (havingLink_model hmade).trans (hd key target hm)
  have hkind := Link.kind_either (.hasOne made) (.hasMany made) hk
  refine gives_of_target hkind htarget (by split <;> rfl) (fun i text hgiven hi => ?_) (by simp [hp])
  have hall : (if l.kind = .hasOne then Link.hasOne made else .hasMany made).arguments =
      [some made.model, some made.foreignKey, made.localKey] := by split <;> rfl
  rw [hall] at hi ⊢
  match i, hi with
  | 0, _ => exact congrArg (fun name => some (some name)) ((havingLink_names hmade).1 hgiven)
  | 1, _ => exact congrArg some ((havingLink_names hmade).2 hgiven)

/-- A line that names its target goes through the model that it names. -/
theorem throughPair_given {model through text : String} (h : throughPair d l = .ok (model, through))
    (htarget : l.argument? 0 = some text) : d.findModel? text = some model ∧
      ∀ reference, l.argument? 1 = some reference → d.findModel? reference = some through := by
  unfold throughPair at h
  rw [htarget] at h
  dsimp only at h
  split at h
  · rename_i _ reference _ named
    obtain ⟨key, hkey, h⟩ := bind_eq_ok.mp h
    obtain ⟨key', hkey', h⟩ := bind_eq_ok.mp h
    obtain ⟨rfl, rfl⟩ := Prod.mk.inj (pure_eq_ok.mp h)
    refine ⟨findModel?_of_target hkey htarget, fun given hgiven => ?_⟩
    obtain rfl := Option.some_inj.mp (named.symm.trans hgiven)
    unfold Draft.resolveReference at hkey'
    split at hkey'
    · rename_i hfound
      exact pure_eq_ok.mp hkey' ▸ hfound
    · exact absurd hkey' throw_ne_ok
  · rename_i unnamed
    obtain ⟨key, hkey, h⟩ := bind_eq_ok.mp h
    obtain ⟨key', _, h⟩ := bind_eq_ok.mp h
    obtain ⟨rfl, rfl⟩ := Prod.mk.inj (pure_eq_ok.mp h)
    exact ⟨findModel?_of_target hkey htarget, fun reference hgiven => absurd (unnamed.symm.trans hgiven) (by simp)⟩
  · rename_i hnone
    cases hnone

theorem gives_resolveThrough (hk : l.kind ∈ [.hasOneThrough, .hasManyThrough]) (hp : l.pivot = none)
    (h : resolveThrough l d = .ok e) : Gives l d e := by
  obtain ⟨made, hpair, hfirst, hsecond, _, rfl⟩ := resolveThrough_ok_iff.mp h
  refine ⟨_, _, rfl, ⟨Link.kind_either (.hasOneThrough made) (.hasManyThrough made) hk, fun {i text key} htarget hgiven hi => ?_,
    fun {i text} hgiven hlow hhigh => ?_, by simp [hp]⟩, fun key h => ?_⟩
  · have htargets : (if l.kind = .hasOneThrough then Link.hasOneThrough made else .hasManyThrough made).targets =
        [made.model, made.through] := by split <;> rfl
    rw [htargets] at hi
    obtain ⟨first, hfirst⟩ := Option.ne_none_iff_exists'.mp htarget
    obtain ⟨hmodel, hthrough⟩ := throughPair_given hpair hfirst
    match i, hi with
    | 0, hi => exact Option.some_inj.mp hi ▸ Option.some_inj.mp (hfirst.symm.trans hgiven) ▸ hmodel
    | 1, hi => exact Option.some_inj.mp hi ▸ hthrough text hgiven
  · have hall : (if l.kind = .hasOneThrough then Link.hasOneThrough made else .hasManyThrough made).arguments =
        [some made.model, some made.through, made.firstKey, made.secondKey] := by split <;> rfl
    have htargets : (if l.kind = .hasOneThrough then Link.hasOneThrough made else .hasManyThrough made).targets.length = 2 := by
      split <;> rfl
    rw [htargets] at hlow
    rw [hall] at hhigh ⊢
    match i, hlow, hhigh with
    | 2, _, _ => exact congrArg some (hfirst.trans hgiven)
    | 3, _, _ => exact congrArg some (hsecond.trans hgiven)
  · split at h <;> cases h

theorem pivot_of_claimPivot {type : ModelType} {pivot : Option String} (h : claimPivot l type d = .ok pivot e)
    {reference : String} (hgiven : l.pivot = some reference) : pivot ≠ none ∧ d.findModel? reference = pivot := by
  have hpivot := (claimPivot_ok h).1
  unfold pivotModel? at hpivot
  rw [hgiven] at hpivot
  dsimp only at hpivot
  split at hpivot
  · rename_i hfound
    obtain rfl := pure_eq_ok.mp hpivot
    exact ⟨Option.some_ne_none _, hfound⟩
  · exact absurd hpivot throw_ne_ok

theorem gives_resolveMany (hd : d.Sound) (hk : l.kind = .belongsToMany) (h : resolveMany l d = .ok () e) : Gives l d e := by
  obtain ⟨key, pivot, c, target, made, htarget, hclaim, hm, hmade, rfl⟩ := resolveMany_ok_iff.mp h
  have hc := hd.edited (claimPivot_edited [.belongsToMany] hd rfl (by simp) hclaim).1
  obtain ⟨_, _, hmodel, rfl, _, hforeign, hrelated, htable⟩ := manyLink_ok hmade
  obtain rfl : made.model = key := hmodel.trans (hc.keyed key target hm)
  refine gives_of_target hk.symm htarget rfl (fun i text hgiven hi => ?_) fun reference => pivot_of_claimPivot hclaim
  match i, hi with
  | 0, _ => exact congrArg (fun name => some (some name)) (htable text hgiven)
  | 1, _ => exact congrArg (fun name => some (some name)) (hforeign.trans (by rw [hgiven]; rfl))
  | 2, _ => exact congrArg (fun name => some (some name)) (hrelated.trans (by rw [hgiven]; rfl))

theorem gives_resolveMorphOne (hk : l.kind ∈ [.morphOne, .morphMany]) (hp : l.pivot = none)
    (h : resolveMorphOne l d = .ok e) : Gives l d e := by
  obtain ⟨made, target, htarget, _, hbound, rfl⟩ := resolveMorphOne_ok_iff.mp h
  refine gives_of_target (kind_morphLink hk made) htarget (by unfold morphLink; split <;> rfl) (fun i text hgiven hi => ?_)
    (by simp [hp])
  have hall : (morphLink l made).arguments = [some made.model, some made.relationKey] := by
    unfold morphLink
    split <;> rfl
  rw [hall] at hi ⊢
  obtain rfl : i = 0 := by simp at hi; omega
  unfold boundMorphTo at hbound
  rw [hgiven] at hbound
  dsimp only at hbound
  split at hbound
  · exact congrArg (fun name => some (some name)) (pure_eq_ok.mp hbound).symm
  · exact absurd hbound throw_ne_ok

theorem gives_resolveMorphs (hk : l.kind ∈ [.morphToMany, .morphedByMany]) (h : resolveMorphs l d = .ok () e) :
    Gives l d e := by
  obtain ⟨target, pivot, c, htarget, hclaim, hlinked⟩ := resolveMorphs_ok_iff.mp h
  obtain ⟨made, rfl, rfl, rfl, hnamed, _⟩ := linkMorphs_ok hlinked
  have hpivot : (morphsLink l made).pivot? = made.pivot := by
    unfold morphsLink
    split <;> rfl
  refine gives_of_target (kind_morphsLink hk made) htarget (by unfold morphsLink; split <;> rfl)
    (fun i text hgiven hi => ?_) fun reference => hpivot ▸ pivot_of_claimPivot hclaim
  have hall : (morphsLink l made).arguments = [some made.model, some made.relationKey] := by
    unfold morphsLink
    split <;> rfl
  rw [hall] at hi ⊢
  obtain rfl : i = 0 := by simp at hi; omega
  exact congrArg (fun name => some (some name)) (hnamed text hgiven)

/-! ## Turns -/

/-- The link that a relation has in the end takes over what its line gives, and is one to its target, if the turns of its pass
make such links. -/
theorem exists_takesOver {kinds : List RelationKind} {stages stages' : List Stage}
    {read : Draft → Except SchemaFault (List DeclaredRelation)} {f : DeclaredRelation → Resolve Unit} {z : Draft} {k n : String}
    {m : Model} {r : Relation}
    (turns : ∀ k n, ∀ kind ∈ kinds, (n, kind) ∈ d.relationLines k →
      ∃ l c c', TurnIn stages read f d e l c c' ∧ l.model = k ∧ l.name = n ∧ l.kind = kind)
    (gives : ∀ {l c c'}, Edited stages d c → d.Declares l → l.kind ∈ kinds → f l c = .ok () c' → Gives l c c')
    (hafter : Edited stages' e z) (hkinds : ∀ kind ∈ kinds, kind ≠ .morphTo ∧ kind.stage ∉ stages')
    (hm : z.models.get? k = some m) (hr : m.relations.get? n = some r) (hk : r.kind ∈ kinds)
    (hline : (n, r.kind) ∈ d.relationLines k) :
    ∃ l, d.Declares l ∧ l.model = k ∧ l.name = n ∧ TakesOver z.findModel? l r.link ∧
      ∀ key, r.link.targets = [key] → z.target l = .ok key := by
  obtain ⟨l, c, c', ht, rfl, rfl, hkind⟩ := turns k n r.kind hk hline
  obtain ⟨made, link, rfl, htakes, htarget⟩ := gives ht.before ht.declares (hkind ▸ hk) ht.left
  obtain ⟨hpointer, hstage⟩ := hkinds r.kind hk
  rw [← hkind, ← htakes.kind] at hpointer hstage
  obtain rfl := Option.some_inj.mp (hr.symm.trans (ht.relation hafter htakes.kind hstage hpointer hm))
  have hfind : z.findModel? = c.findModel? :=
    hafter.findModel?.trans (ht.after.findModel?.trans ht.edited.findModel?)
  exact ⟨l, ht.declares, rfl, rfl, hfind ▸ htakes, fun key h => (Draft.target_congr hfind l).trans (htarget key h)⟩

namespace Course

variable {settings : Settings} {schema : SchemaDeclaration} (c : Course settings schema) {k n : String} {m : Model}
  {r : Relation} (hm : c.complete.models.get? k = some m) (hr : m.relations.get? n = some r)
include hm hr

/-- The pointer of a line goes by the name that the line gives it. -/
theorem exists_takesOver_morphTo (hk : r.kind = .morphTo) :
    ∃ l, c.declared.Declares l ∧ l.model = k ∧ l.name = n ∧ TakesOver c.complete.findModel? l r.link ∧
      ∀ key, r.link.targets = [key] → c.complete.target l = .ok key := by
  obtain ⟨l, models, hl, rfl, rfl, rfl⟩ := c.exists_line_of_pointer hm hr hk
  have hkind : l.kind = .morphTo := Draft.kind_unique hl.line (c.mem_relationLines hm hr)
  have hpivot := hl.pivot (by rw [hkind]; rfl)
  refine ⟨l, hl, rfl, rfl, ⟨hkind.symm, fun _ _ hi => ?_, fun {i text} hgiven _ hi => ?_, fun hgiven => ?_⟩, fun _ h => ?_⟩
  · cases hi
  · obtain rfl : i = 0 := by simpa [Link.arguments] using hi
    exact congrArg (fun name => some (some name)) (by rw [hgiven]; rfl)
  · exact absurd (hpivot.symm.trans hgiven) (by simp)
  · cases h

/-- Each relation takes over what its line gives. One to a single model is one to the target of its line. -/
theorem exists_takesOver : ∃ l, c.declared.Declares l ∧ l.model = k ∧ l.name = n ∧
    TakesOver c.complete.findModel? l r.link ∧ ∀ key, r.link.targets = [key] → c.complete.target l = .ok key := by
  have hline := c.mem_relationLines hm hr
  have back : ∀ {stages d} {p : DeclaredRelation → Prop}, Edited stages c.declared d →
      (∃ l, d.Declares l ∧ l.model = k ∧ l.name = n ∧ p l) → ∃ l, c.declared.Declares l ∧ l.model = k ∧ l.name = n ∧ p l := by
    rintro stages d p he ⟨l, hl, h⟩
    exact ⟨l, hl.back he, h⟩
  have noPivot : ∀ {d : Draft} {l : DeclaredRelation} {kinds : List RelationKind}, d.Declares l → l.kind ∈ kinds →
      (∀ kind ∈ kinds, kind.requiresPivot = false) → l.pivot = none := fun hl hk hall => hl.pivot (hall _ hk)
  obtain ⟨d₁, h₁, d₂, h₂, d₃, h₃, hd⟩ := c.joins
  obtain ⟨d, h₄, h₅, hsound, _⟩ := c.exists_parents
  have t₀ := turns_belongsTo c.sound_declared (awaits_of_laid c.founded_laid.2 rfl) c.belongsTo
  have t₁ := turns_belongsToMany c.sound_owned h₁
  have t₂ := turns_hasOneOrMany (c.sound_owned.edited t₁.1) h₂
  have t₃ := turns_hasOneOrManyThrough ((c.sound_owned.edited t₁.1).edited t₂.1) h₃
  have t₄ := turns_morphOneOrMany c.sound_pointed h₄
  have t₅ := turns_morphToMany hsound h₅
  have e₁ := t₀.1.append t₁.1
  have e₂ := e₁.append t₂.1
  have e₃ := c.edited_joined.append c.reaches_pointed.1
  have e₄ := e₃.append t₄.1
  have z₃ := c.reaches_pointed.1.append c.edited_pointed
  rw [← hd] at z₃
  have z₅ := c.edited_pivoted.append c.edited_complete
  cases hk : r.kind with
  | belongsTo =>
    exact Resolution.exists_takesOver t₀.2 (fun _ hl hk hf => gives_resolveBelongsTo (List.mem_singleton.mp hk)
      (noPivot hl hk (by decide)) (Resolve.update_run_ok.mp hf)) c.edited_owned (by decide) hm hr (by simp [hk]) hline
  | belongsToMany =>
    refine back t₀.1 (Resolution.exists_takesOver t₁.2 (fun hc _ hk hf => gives_resolveMany (c.sound_owned.edited hc)
      (List.mem_singleton.mp hk) hf) ((t₂.1.append t₃.1).append z₃) (by decide) hm hr (by simp [hk]) ?_)
    exact t₀.1.relationLines k ▸ hline
  | hasOne | hasMany =>
    refine back e₁ (Resolution.exists_takesOver t₂.2 (fun hc hl hk hf => gives_resolveHaving
      ((c.sound_owned.edited t₁.1).edited hc).keyed hk (noPivot hl hk (by decide)) (Resolve.update_run_ok.mp hf))
      (t₃.1.append z₃) (by decide) hm hr (by simp [hk]) ?_)
    exact e₁.relationLines k ▸ hline
  | hasOneThrough | hasManyThrough =>
    refine back e₂ (Resolution.exists_takesOver t₃.2 (fun _ hl hk hf => gives_resolveThrough hk
      (noPivot hl hk (by decide)) (Resolve.update_run_ok.mp hf)) z₃ (by decide) hm hr (by simp [hk]) ?_)
    exact e₂.relationLines k ▸ hline
  | morphTo => exact c.exists_takesOver_morphTo hm hr hk
  | morphOne | morphMany =>
    refine back e₃ (Resolution.exists_takesOver t₄.2 (fun _ hl hk hf => gives_resolveMorphOne hk
      (noPivot hl hk (by decide)) (Resolve.update_run_ok.mp hf)) (t₅.1.append z₅) (by decide) hm hr (by simp [hk]) ?_)
    exact e₃.relationLines k ▸ hline
  | morphToMany | morphedByMany =>
    refine back e₄ (Resolution.exists_takesOver t₅.2 (fun _ _ hk hf => gives_resolveMorphs hk hf) z₅ (by decide) hm hr
      (by simp [hk]) ?_)
    exact e₄.relationLines k ▸ hline

end Course

end Resolution

end Schemata
