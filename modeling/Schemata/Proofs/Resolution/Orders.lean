import Schemata.Proofs.Resolution.Apart

/-!
# Passes in other orders

Orders of the standard passes in which each pass finds what it needs, be it that it asks for it or not. In all of them the passes up to
the columns come first, and those from the attributes on come last. In between, passes of which neither needs the other are apart, so
that a run comes to the same by all of these orders.
-/

namespace Schemata.Resolution

variable {settings : Settings} {schema : SchemaDeclaration} {d e : Draft} {done : List Stage} {passes xs ys : List Pass}
  {pass : Pass} {p : Progress}

/-! ## Needs -/

/-- The stages without which a pass may fail, though it does not ask for them: the users of pivot models are looked up among relations
that point at one model, and what is loaded eagerly may be a relation of any kind. -/
def Stage.unasked : Stage → List Stage
  | .pivotModels => [.belongsTo]
  | .modelAttributes => [.hasOneOrMany, .hasOneOrManyThrough]
  | _ => []

/-- A pass that asks for all that it needs. -/
def Pass.asking (pass : Pass) : Pass :=
  { pass with requires := pass.requires ++ pass.provides.unasked }

/-- Each pass finds complete what it needs, be it that it asks for it or not. -/
def Suits (done : List Stage) (passes : List Pass) : Prop :=
  areOrdered done (passes.map Pass.asking) = true

theorem suits_cons : Suits done (pass :: passes) ↔
    (∀ stage ∈ pass.asking.requires, stage ∈ done) ∧ Suits (done ++ [pass.provides]) passes := by
  unfold Suits
  simp only [List.map_cons, areOrdered, Bool.and_eq_true, List.all_eq_true, List.contains_iff_mem]
  rfl

theorem suits_append : Suits done (xs ++ ys) ↔ Suits done xs ∧ Suits (done ++ xs.map Pass.provides) ys := by
  induction xs generalizing done with
  | nil => simp [Suits, areOrdered]
  | cons x rest ih => simp [suits_cons, ih, and_assoc]

namespace Suits

theorem mono {done' : List Stage} (h : Suits done passes) (hs : done ⊆ done') : Suits done' passes := by
  induction passes generalizing done done' with
  | nil => rfl
  | cons x rest ih =>
    obtain ⟨hx, hrest⟩ := suits_cons.mp h
    exact suits_cons.mpr ⟨fun stage hstage => hs (hx stage hstage), ih hrest (List.append_subset.mpr
      ⟨List.subset_append_of_subset_left _ hs, List.subset_append_right _ _⟩)⟩

theorem areOrdered (h : Suits done passes) : areOrdered done passes = true := by
  induction passes generalizing done with
  | nil => rfl
  | cons x rest ih =>
    obtain ⟨hx, hrest⟩ := suits_cons.mp h
    refine Bool.and_eq_true_iff.mpr ⟨List.all_eq_true.mpr fun stage hs => List.contains_iff_mem.mpr ?_, ih hrest⟩
    exact hx stage (List.mem_append_left _ hs)

/-- Passes that do not need a pass may come before it. -/
theorem advance {before after : List Pass} {y : Pass} (h : Suits done (before ++ y :: after))
    (hy : ∀ stage ∈ y.asking.requires, stage ∈ done) : Suits done (y :: (before ++ after)) := by
  obtain ⟨hbefore, h⟩ := suits_append.mp h
  obtain ⟨_, hafter⟩ := suits_cons.mp h
  refine suits_cons.mpr ⟨hy, suits_append.mpr ⟨hbefore.mono (List.subset_append_left _ _), hafter.mono ?_⟩⟩
  intro stage hs
  simp only [List.mem_append] at hs ⊢
  tauto

/-- No pass needs one that comes after it, or itself. -/
theorem not_needed {before after : List Pass} {x y : Pass} (h : Suits done (before ++ x :: after))
    (hn : (done ++ (before ++ x :: after).map Pass.provides).Nodup) (hy : y ∈ x :: after) : y.provides ∉ x.asking.requires := by
  intro hneeded
  obtain ⟨_, h⟩ := suits_append.mp h
  have hdone := (suits_cons.mp h).1 _ hneeded
  rw [List.map_append, ← List.append_assoc] at hn
  exact (List.nodup_append.mp hn).2.2 _ hdone _ (List.mem_map_of_mem hy) rfl

end Suits

/-! ## The first and the last passes -/

/-- Of all passes that are left, each of the first is in turn the only one that finds what it needs. -/
def ComeFirst (done : List Stage) : List Pass → List Pass → Bool
  | [], _ => true
  | pass :: rest, others =>
    (rest ++ others).all (fun x => x.asking.requires.any (!done.contains ·)) && ComeFirst (done ++ [pass.provides]) rest others

theorem exists_rest_of_comeFirst {first others : List Pass} (hl : ComeFirst done first others) (hperm : xs.Perm (first ++ others))
    (h : Suits done xs) : ∃ rest, xs = first ++ rest ∧ rest.Perm others ∧ Suits (done ++ first.map Pass.provides) rest := by
  induction first generalizing done xs with
  | nil => exact ⟨xs, rfl, hperm, by simpa using h⟩
  | cons pass rest ih =>
    obtain ⟨hothers, hrest⟩ := Bool.and_eq_true_iff.mp hl
    cases xs with
    | nil => exact absurd hperm.length_eq (by simp)
    | cons x xs =>
      obtain ⟨hx, h⟩ := suits_cons.mp h
      obtain rfl : x = pass := by
        refine (List.mem_cons.mp (hperm.subset List.mem_cons_self)).resolve_right fun hmem => ?_
        obtain ⟨stage, hs, hnot⟩ := List.any_eq_true.mp (List.all_eq_true.mp hothers x hmem)
        simp [hx stage hs] at hnot
      obtain ⟨others', rfl, hperm', h'⟩ := ih hrest hperm.cons_inv h
      exact ⟨others', rfl, hperm', by simpa using h'⟩

/-- Of all passes that are left, each of the last is in turn the only one that no other needs. The last come in reverse. -/
def ComeLast (others : List Pass) : List Pass → Bool
  | [] => true
  | pass :: rest =>
    (others ++ rest).all (fun x => (others ++ pass :: rest).any (·.asking.requires.contains x.provides)) && ComeLast others rest

theorem exists_rest_of_comeLast {others last : List Pass} (ht : ComeLast others last) (hperm : xs.Perm (others ++ last)) (h : Suits done xs)
    (hn : (done ++ xs.map Pass.provides).Nodup) : ∃ rest, xs = rest ++ last.reverse ∧ rest.Perm others ∧ Suits done rest := by
  induction last generalizing xs with
  | nil => exact ⟨xs, by simp, by simpa using hperm, h⟩
  | cons pass rest ih =>
    obtain ⟨hothers, hrest⟩ := Bool.and_eq_true_iff.mp ht
    obtain rfl | ⟨init, x, rfl⟩ := xs.eq_nil_or_concat'
    · exact absurd hperm.length_eq (by simp)
    have hcons : (init ++ [x]).Perm (pass :: (others ++ rest)) := hperm.trans List.perm_middle
    obtain rfl : x = pass := by
      refine (List.mem_cons.mp (hcons.subset (by simp))).resolve_right fun hmem => ?_
      obtain ⟨y, hy, hneeds⟩ := List.any_eq_true.mp (List.all_eq_true.mp hothers x hmem)
      obtain ⟨before, after, heq⟩ := List.append_of_mem (hperm.mem_iff.mpr hy)
      rw [heq] at h hn
      refine h.not_needed hn (y := x) ?_ (List.contains_iff_mem.mp hneeds)
      have hlast : (y :: after).getLast? = some x := by
        rw [← List.getLast?_append_of_ne_nil before (List.cons_ne_nil y after), ← heq, List.getLast?_concat]
      exact List.mem_of_getLast? hlast
    have hinit : init.Perm (others ++ rest) := ((List.perm_append_singleton x init).symm.trans hcons).cons_inv
    obtain ⟨rest', rfl, hperm', h'⟩ := ih hrest hinit (suits_append.mp h).1 (by
      refine (List.Sublist.append_left (List.Sublist.map _ ?_) done).nodup hn
      exact List.sublist_append_left _ _)
    exact ⟨rest', by simp, hperm', h'⟩

/-- The passes that make the models and their columns. -/
def firstPasses : List Pass :=
  [.quickModels, .modelShells, .relationReservations, .columns]

/-- The passes that follow when all relations have their keys. -/
def lastPasses : List Pass :=
  [.modelAttributes, .finalizeModels, .explicitMigrations, .modelMigrations, .pivotMigrations, .artifacts]

theorem nodup_provides (h : passes.Perm standardPasses) : (passes.map Pass.provides).Nodup :=
  (h.map Pass.provides).nodup_iff.mpr (by decide)

theorem exists_links (hperm : passes.Perm standardPasses) (h : Suits [] passes) : ∃ links,
    passes = firstPasses ++ (links ++ lastPasses) ∧ links.Perm linkPasses ∧ Suits (firstPasses.map Pass.provides) links := by
  have hfirst : ComeFirst [] firstPasses (linkPasses ++ lastPasses) = true := by decide
  have hlast : ComeLast linkPasses lastPasses.reverse = true := by decide
  obtain ⟨rest, rfl, hrest, hs⟩ := exists_rest_of_comeFirst hfirst hperm h
  have hn := nodup_provides hperm
  rw [List.map_append] at hn
  obtain ⟨links, rfl, hlinks, hs⟩ := exists_rest_of_comeLast hlast
    (hrest.trans ((List.reverse_perm _).symm.append_left linkPasses)) hs hn
  exact ⟨links, rfl, hlinks, hs⟩

/-! ## The passes in between -/

/-- What a pass needs, and what the passes that it needs need. -/
def Pass.upstream (pass : Pass) : List Stage :=
  pass.asking.requires ++
    (linkPasses.filter fun x => pass.asking.requires.contains x.provides).flatMap fun x => x.asking.requires

/-- The passes that have come have found what they need. -/
def Closed (done : List Stage) : Prop :=
  ∀ x ∈ linkPasses, x.provides ∈ done → ∀ stage ∈ x.asking.requires, stage ∈ done

theorem Closed.upstream (hc : Closed done) (h : ∀ stage ∈ pass.asking.requires, stage ∈ done) {stage : Stage}
    (hs : stage ∈ pass.upstream) : stage ∈ done := by
  rcases List.mem_append.mp hs with hs | hs
  · exact h stage hs
  · obtain ⟨x, hx, hs⟩ := List.mem_flatMap.mp hs
    obtain ⟨hx, hneeded⟩ := List.mem_filter.mp hx
    exact hc x hx (h _ (List.contains_iff_mem.mp hneeded)) stage hs

theorem Closed.append (hc : Closed done) (hx : ∀ x ∈ xs, x ∈ linkPasses) (h : Suits done xs) :
    Closed (done ++ xs.map Pass.provides) := by
  induction xs generalizing done with
  | nil => simpa using hc
  | cons x rest ih =>
    obtain ⟨hneeds, h⟩ := suits_cons.mp h
    have hone : Closed (done ++ [x.provides]) := by
      have huniform : ∀ x ∈ linkPasses, ∀ y ∈ linkPasses, y.provides = x.provides → y.asking.requires = x.asking.requires := by decide
      intro y hy hcome stage hs
      rcases List.mem_append.mp hcome with hcome | hcome
      · exact List.mem_append_left _ (hc y hy hcome stage hs)
      · rw [huniform x (hx x List.mem_cons_self) y hy (List.mem_singleton.mp hcome)] at hs
        exact List.mem_append_left _ (hneeds stage hs)
    simpa using ih hone (fun y hy => hx y (List.mem_cons_of_mem x hy)) h

/-- Of two passes that are not apart, one needs the other. -/
theorem apart_or_upstream : ∀ x ∈ linkPasses, ∀ y ∈ linkPasses, x.provides = y.provides ∨ y.provides ∈ x.upstream ∨
    x.provides ∈ y.upstream ∨ x.provides.Apart y.provides := by
  decide +kernel

/-- Passes that are left, each to complete a stage of its own, and a draft that is ready for all of them. -/
structure Left (xs : List Pass) (d : Draft) : Prop where
  links : ∀ x ∈ xs, x ∈ linkPasses
  nodup : (xs.map Pass.provides).Nodup
  ready : ∀ x ∈ xs, Ready x d

namespace Left

theorem perm (h : Left xs d) (hperm : xs.Perm ys) : Left ys d where
  links x hx := h.links x (hperm.mem_iff.mpr hx)
  nodup := (hperm.map _).nodup_iff.mp h.nodup
  ready x hx := h.ready x (hperm.mem_iff.mpr hx)

theorem next {x : Pass} (h : Left (x :: xs) d) (hx : x.body d = .ok () e) : Left xs e where
  links y hy := h.links y (List.mem_cons_of_mem x hy)
  nodup := (List.nodup_cons.mp h.nodup).2
  ready y hy := by
    have hne : y.provides ≠ x.provides := fun heq => (List.nodup_cons.mp h.nodup).1 (heq ▸ List.mem_map_of_mem hy)
    exact (h.ready y (List.mem_cons_of_mem x hy)).edited
      (edited_linkPass (h.links x List.mem_cons_self) (h.ready x List.mem_cons_self) hx) (by simpa using hne)

theorem of_append (h : Left (xs ++ ys) d) : Left xs d where
  links x hx := h.links x (List.mem_append_left ys hx)
  nodup := (List.nodup_append.mp (List.map_append ▸ h.nodup)).1
  ready x hx := h.ready x (List.mem_append_left ys hx)

theorem edited (h : Left xs d) (hrun : Completes xs d e) : Edited (xs.map Pass.provides) d e := by
  induction xs generalizing d with
  | nil =>
    obtain rfl : d = e := hrun
    exact refl_of (Edited []) d
  | cons x rest ih =>
    obtain ⟨c, hx, hrun⟩ := hrun
    have hone := edited_linkPass (h.links x List.mem_cons_self) (h.ready x List.mem_cons_self) hx
    exact hone.append (ih (h.next hx) hrun)

/-- A pass that finds what it needs is apart from all passes that have been before it. -/
theorem apart {before after : List Pass} {y : Pass} (h : Left (before ++ y :: after) d) (hc : Closed done)
    (hn : (done ++ (before ++ y :: after).map Pass.provides).Nodup) (hs : Suits done (before ++ y :: after))
    (hy : ∀ stage ∈ y.asking.requires, stage ∈ done) : ∀ x ∈ before, x.provides.Apart y.provides := by
  intro x hx
  obtain ⟨first, second, rfl⟩ := List.append_of_mem hx
  rw [List.map_append, List.map_append, List.append_assoc, ← List.append_assoc done] at hn
  have hleft := (List.nodup_append.mp hn).2.2
  have hnotin : y.provides ∉ done ++ first.map Pass.provides := fun hmem => hleft _ hmem _ (by simp) rfl
  have hnotdone : x.provides ∉ done := fun hmem => hleft _ (List.mem_append_left _ hmem) _ (by simp) rfl
  obtain ⟨hbefore, _⟩ := suits_append.mp hs
  obtain ⟨hfirst, hsecond⟩ := suits_append.mp hbefore
  have hclosed := hc.append (fun z hz => h.links z (by simp [hz])) hfirst
  rcases apart_or_upstream x (h.links x (by simp)) y (h.links y (by simp)) with heq | hup | hup | hapart
  · have hnodup := (List.nodup_append.mp hn).2.1
    simp [heq] at hnodup
  · exact absurd (hclosed.upstream (suits_cons.mp hsecond).1 hup) hnotin
  · exact absurd (hc.upstream hy hup) hnotdone
  · exact hapart

end Left

/-- Drafts that agree in all that lasts. -/
abbrev SameInOrders : Draft → Draft → Prop :=
  Draft.Agrees fun _ => Part.Lasting

theorem simulates_linkPass (hp : pass ∈ linkPasses) : Simulates SameInOrders pass.body := by
  have hreads : ∀ x ∈ linkPasses, Part.type ∉ x.provides.reads ∧ Part.parents ∉ x.provides.reads := by decide
  refine simulates_of_reads hp fun _ p hr => ⟨?_, ?_⟩
  · rintro rfl
    exact (hreads pass hp).1 hr
  · rintro rfl
    exact (hreads pass hp).2 hr

/-- A pass may come before all passes that are apart from it. -/
theorem Left.advance {before after : List Pass} {y : Pass} (h : Left (before ++ y :: after) d)
    (hapart : ∀ x ∈ before, x.provides.Apart y.provides) (hrun : Completes (before ++ y :: after) d e) :
    ∃ e', Completes (y :: (before ++ after)) d e' ∧ SameInOrders e e' := by
  induction before generalizing d with
  | nil => exact ⟨e, hrun, .refl _ e⟩
  | cons x rest ih =>
    obtain ⟨c, hx, hrun⟩ := hrun
    obtain ⟨e₁, ⟨c₁, hy, hrun⟩, h₁⟩ := ih (h.next hx) (fun z hz => hapart z (List.mem_cons_of_mem x hz)) hrun
    have hmem : y ∈ (x :: rest) ++ y :: after := by simp
    have hne : x.provides ≠ y.provides := by
      have hnodup := h.nodup
      rw [List.cons_append, List.map_cons, List.nodup_cons] at hnodup
      exact fun heq => hnodup.1 (heq ▸ List.mem_map_of_mem (by simp))
    obtain ⟨c₂, c₃, hy', hx', hsame⟩ := exists_swapped (h.links x List.mem_cons_self) (h.links y hmem) hne
      (hapart x List.mem_cons_self) (h.ready x List.mem_cons_self) (h.ready y hmem) hx hy
    -- The passes that are left go on from either of the two drafts to which the two passes lead.
    have hsimulates : ∀ z ∈ rest ++ after, Simulates SameInOrders z.body := fun z hz =>
      simulates_linkPass (h.links z (by simp only [List.cons_append, List.mem_cons, List.mem_append] at hz ⊢; tauto))
    obtain ⟨e₂, hrun', h₂⟩ := completes_simulates hsimulates hsame hrun
    exact ⟨e₂, ⟨c₂, hy', c₃, hx', hrun'⟩, h₁.trans h₂⟩

theorem completes_reordered (h : Left xs d) (hc : Closed done) (hn : (done ++ xs.map Pass.provides).Nodup) (hxs : Suits done xs)
    (hys : Suits done ys) (hperm : xs.Perm ys) (hrun : Completes xs d e) : ∃ e', Completes ys d e' ∧ SameInOrders e e' := by
  induction ys generalizing done xs d e with
  | nil => exact ⟨e, hperm.eq_nil ▸ hrun, .refl _ e⟩
  | cons y rest ih =>
    obtain ⟨hneeds, hrest⟩ := suits_cons.mp hys
    obtain ⟨before, after, rfl⟩ := List.append_of_mem (hperm.mem_iff.mpr List.mem_cons_self)
    have hmiddle : (before ++ y :: after).Perm (y :: (before ++ after)) := List.perm_middle
    obtain ⟨e₁, ⟨c, hy, hrun'⟩, h₁⟩ := h.advance (h.apart hc hn hxs hneeds) hrun
    have hone : Suits done [y] := suits_cons.mpr ⟨hneeds, rfl⟩
    have hclosed : Closed (done ++ [y].map Pass.provides) :=
      hc.append (fun x hx => h.links x (by simp [List.mem_singleton.mp hx])) hone
    have hnodup : ((done ++ [y.provides]) ++ (before ++ after).map Pass.provides).Nodup := by
      rw [List.append_assoc]
      exact ((hmiddle.map Pass.provides).append_left done).nodup_iff.mp hn
    obtain ⟨e₂, hrun'', h₂⟩ := ih ((h.perm hmiddle).next hy) hclosed hnodup (suits_cons.mp (hxs.advance hneeds)).2 hrest
      (hmiddle.symm.trans hperm).cons_inv hrun'
    exact ⟨e₂, ⟨c, hy, hrun''⟩, h₁.trans h₂⟩

/-! ## Whole runs -/

theorem left_of_completes (h : Completes firstPasses (.start settings schema) d) (hperm : xs.Perm linkPasses) : Left xs d := by
  obtain ⟨hfounded, hlaid⟩ := founded_laid_of_completes h
  exact ⟨fun x hx => hperm.mem_iff.mp hx, (hperm.map Pass.provides).nodup_iff.mpr (by decide),
    fun x _ => ⟨hfounded.sound, fun hk _ => awaits_of_laid hlaid hk⟩⟩

/-- Factories are made of the models that are no pivot models. -/
theorem exists_artifacts_of_pivots {S : String → Part → Prop} (hS : ∀ k, S k .pivot) (h : d.Agrees S e) {d' : Draft}
    (hrun : Pass.artifacts.body d = .ok () d') : ∃ e', Pass.artifacts.body e = .ok () e' := by
  obtain ⟨_, hmade, _⟩ := bind_eq_ok.mp (Resolve.update_run_ok.mp hrun)
  obtain ⟨made, hmade, _⟩ := bind_eq_ok.mp hmade
  have hmakes : ∀ n ∈ e.models.values.filter fun m => m.factory && !m.isPivot, ∃ made, (do
      return (n.key, factoryOf n (← e.declaration n.key)) : Except SchemaFault (String × FactoryDefinition)) = .ok made := by
    intro n hn
    obtain ⟨hn, hfactory⟩ := List.mem_filter.mp hn
    obtain ⟨k, hk⟩ := OrderedMap.mem_values_iff.mp hn
    obtain ⟨m, hm, hmn⟩ := h.symm.exists_model hk
    have hmakes : (m.factory && !m.isPivot) = true := by
      have hpivot : m.isPivot = n.isPivot := hmn.same (hS k)
      have hsame : m.factory = n.factory := hmn.congr_bare fun _ => rfl
      rw [hpivot, hsame]
      exact hfactory
    obtain ⟨_, _, hx⟩ := exists_mem_of_forall₂ (mapM_eq_ok.mp hmade)
      (List.mem_filter.mpr ⟨OrderedMap.mem_values_iff.mpr ⟨k, hm⟩, hmakes⟩)
    obtain ⟨s, hs, _⟩ := bind_eq_ok.mp hx
    have hdeclared : n.key ∈ e.declarations.keys := by
      rw [h.declared, ← hmn.key]
      exact OrderedMap.mem_keys_iff.mpr ⟨s, Draft.declaration_eq_ok.mp hs⟩
    obtain ⟨s', hs'⟩ := OrderedMap.mem_keys_iff.mp hdeclared
    exact ⟨_, bind_eq_ok.mpr ⟨s', Draft.declaration_eq_ok.mpr hs', rfl⟩⟩
  obtain ⟨made', hmade'⟩ := exists_mapM hmakes
  exact ⟨_, Resolve.update_run_ok.mpr (bind_eq_ok.mpr ⟨.ofList made', bind_eq_ok.mpr ⟨made', hmade', rfl⟩, rfl⟩)⟩

theorem exists_completes_last (h : SameInOrders d e) {d' : Draft} (hrun : Completes lastPasses d d') :
    ∃ e', Completes lastPasses e e' := by
  have hlasting : ∀ {p : Part}, p ≠ .type → p ≠ .parents → ∀ _ : String, p.Lasting := fun htype hparents _ => ⟨htype, hparents⟩
  have hrelations : ∀ _ : String, AllRelations Part.Lasting := fun _ kind => ⟨by simp, by simp⟩
  have hsimulates : ∀ pass ∈ [Pass.modelAttributes, .finalizeModels, .explicitMigrations, .modelMigrations, .pivotMigrations],
      Simulates SameInOrders pass.body := by
    simp only [List.forall_mem_cons]
    exact ⟨simulates_modelAttributes (hlasting (by simp) (by simp)) (hlasting (by simp) (by simp)) hrelations
        (hlasting (by simp) (by simp)),
      simulates_finalizeModels (hlasting (by simp) (by simp)) hrelations, simulates_explicitMigrations,
      simulates_modelMigrations (hlasting (by simp) (by simp)) (hlasting (by simp) (by simp)),
      simulates_pivotMigrations fun _ => ⟨⟨by simp, by simp⟩, ⟨by simp, by simp⟩, ⟨by simp, by simp⟩, fun _ => ⟨by simp, by simp⟩⟩,
      fun _ h => absurd h List.not_mem_nil⟩
  have hsplit : Completes (lastPasses.dropLast ++ [.artifacts]) d d' := hrun
  obtain ⟨c, hrun, a, ha, _⟩ := completes_append.mp hsplit
  obtain ⟨c', hrun', hc⟩ := completes_simulates hsimulates h hrun
  obtain ⟨e', he'⟩ := exists_artifacts_of_pivots (hlasting (by simp) (by simp)) hc ha
  exact ⟨e', hrun'.append (.cons he' rfl)⟩

/-- The standard passes succeed in one order that suits them if they succeed in another. -/
theorem exists_completes_reordered (hxs : xs.Perm standardPasses) (hys : ys.Perm standardPasses) (hx : Suits [] xs) (hy : Suits [] ys)
    (hrun : Completes xs (.start settings schema) e) : ∃ e', Completes ys (.start settings schema) e' := by
  obtain ⟨links, rfl, hlinks, hsuits⟩ := exists_links hxs hx
  obtain ⟨links', rfl, hlinks', hsuits'⟩ := exists_links hys hy
  obtain ⟨d, hfirst, hrun⟩ := completes_append.mp hrun
  obtain ⟨c, hrun, hlast⟩ := completes_append.mp hrun
  have hnodup : (firstPasses.map Pass.provides ++ links.map Pass.provides).Nodup := by
    rw [← List.map_append]
    exact ((hlinks.append_left firstPasses).map Pass.provides).nodup_iff.mpr (by decide)
  obtain ⟨c', hrun', hsame⟩ := completes_reordered (left_of_completes hfirst hlinks) (by unfold Closed; decide) hnodup hsuits hsuits'
    (hlinks.trans hlinks'.symm) hrun
  obtain ⟨e', hlast'⟩ := exists_completes_last hsame hlast
  exact ⟨e', hfirst.append (hrun'.append hlast')⟩

theorem suits_standardPasses : Suits [] standardPasses := by
  unfold Suits
  decide

/-- A run in order succeeds if all bodies do. -/
theorem fault_eq_none_iff (ho : areOrdered p.completed passes = true) :
    (runAll passes p).fault = none ↔ ∃ e, Completes passes p.draft e := by
  constructor
  · intro h
    exact ⟨_, (runAll_none (q := (runAll passes p).progress) (by rw [← h])).1⟩
  · rintro ⟨e, he⟩
    cases hf : (runAll passes p).fault with
    | none => rfl
    | some fault =>
      obtain ⟨before, pass, after, q, c, rfl, hb, hbody⟩ := fault_of_areOrdered ho hf
      obtain ⟨d, hd, _, hpass, _⟩ := completes_append.mp he
      obtain rfl := hd.unique (runAll_none hb).1
      rw [hbody] at hpass
      cases hpass

end Schemata.Resolution
