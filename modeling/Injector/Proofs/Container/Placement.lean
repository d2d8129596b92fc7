import Injector.Proofs.Container.Exposure
import Injector.Proofs.Container.Names
import Injector.Proofs.Graph.Image
import Injector.Proofs.Resolution.Placement

/-!
# Placement shows nowhere else

What a container keeps and what it exposes, the order in which definitions are written and the order
in which they need each other are all read off a graph without its placement. So sessions that differ
only in what goes to files of its own agree in all of this, as they do in whether they fail.
-/

namespace Injector

namespace Definition

@[simp] lemma instanceType_clearPlacement (d : Definition) :
    d.clearPlacement.instanceType = d.instanceType := by
  induction d using Definition.id.induct <;> simp_all [clearPlacement, instanceType]

end Definition

namespace Graph

variable (g : Graph)

/-! ### What is read off a graph -/

@[simp] lemma isCached_unplaced (k : Identifier) : g.unplaced.isCached k = g.isCached k :=
  g.isCached_mapDefinitions Definition.keepsInstance_clearPlacement k

lemma emissionIds_unplaced : g.unplaced.emissionIds = g.emissionIds :=
  g.emissionIds_mapDefinitions Definition.clearPlacement

lemma emissionOrder_unplaced :
    g.unplaced.emissionOrder = g.emissionOrder.map Definition.clearPlacement :=
  g.emissionOrder_mapDefinitions Definition.clearPlacement

lemma dependencyOrder_unplaced (k : Identifier) :
    g.unplaced.dependencyOrder k = g.dependencyOrder k :=
  g.dependencyOrder_mapDefinitions Definition.dependencies_clearPlacement k

lemma caches_unplaced : g.unplaced.caches = g.caches := by
  simp only [caches, emissionOrder_unplaced, List.filter_map, List.map_map, Function.comp_def,
    Definition.id_clearPlacement, isCached_unplaced, Definition.instanceType_clearPlacement]

lemma entryRows_unplaced : g.unplaced.entryRows = g.entryRows := by
  simp only [entryRows, emissionOrder_unplaced, List.filter_map, List.map_map, Function.comp_def,
    Definition.id_clearPlacement, Definition.isEntryPoint_clearPlacement]

/-- What is the same of two graphs that differ only in placement. -/
structure AgreesWith (g g' : Graph) : Prop where
  entryPoints : g.entryPoints = g'.entryPoints
  /-- Without placement they are equal. -/
  unplaced : g.unplaced = g'.unplaced
  cached : ∀ k, g.isCached k = g'.isCached k
  /-- Definitions are written in the same order. -/
  emission : g.emissionIds = g'.emissionIds ∧
    g.emissionOrder.map Definition.clearPlacement = g'.emissionOrder.map Definition.clearPlacement
  /-- Definitions need each other in the same order. -/
  needs : ∀ k, g.dependencyOrder k = g'.dependencyOrder k

lemma AgreesWith.of_unplaced_eq {g g' : Graph} (h : g.unplaced = g'.unplaced) :
    g.AgreesWith g' where
  entryPoints := by rw [← g.entryPoints_unplaced, h, g'.entryPoints_unplaced]
  unplaced := h
  cached k := by rw [← isCached_unplaced, h, isCached_unplaced]
  emission := by
    rw [← emissionIds_unplaced, ← emissionOrder_unplaced, h, emissionIds_unplaced,
      emissionOrder_unplaced]
    exact ⟨rfl, rfl⟩
  needs k := by rw [← dependencyOrder_unplaced, h, dependencyOrder_unplaced]

end Graph

/-! ### Sessions that differ only in placement -/

/-- Sessions that differ only in what goes to files of its own fail with the same error, or resolve
graphs that differ only in placement; what their containers keep and expose is the same. -/
theorem agrees_of_unplaced_eq {s s' : Session} (same : s.unplaced = s'.unplaced) :
    (∃ e, s.resolve none = .error e ∧ s'.resolve none = .error e) ∨
      ∃ g g', s.resolve none = .ok g ∧ s'.resolve none = .ok g' ∧ g.AgreesWith g' ∧
        ∀ c c', g.container s.config = .ok c → g'.container s'.config = .ok c' →
          c.caches = c'.caches ∧ c.entryRows = c'.entryRows := by
  have outcomes : (s.resolve none).map Graph.unplaced = (s'.resolve none).map Graph.unplaced := by
    rw [← s.resolve_unplaced, same, s'.resolve_unplaced]
  cases hg : s.resolve none with
  | error e =>
    rw [hg] at outcomes
    exact .inl ⟨e, rfl, map_eq_error.1 outcomes.symm⟩
  | ok g =>
    cases hg' : s'.resolve none with
    | error e =>
      rw [hg, hg'] at outcomes
      cases outcomes
    | ok g' =>
      rw [hg, hg'] at outcomes
      have agrees := Graph.AgreesWith.of_unplaced_eq (Except.ok.inj outcomes)
      refine .inr ⟨g, g', rfl, rfl, agrees, fun c c' hc hc' => ?_⟩
      rw [(exists_emissions hc).2.1, (exists_emissions hc').2.1, (exists_of_container hc).1,
        (exists_of_container hc').1, ← g.caches_unplaced, ← g.entryRows_unplaced,
        agrees.unplaced, g'.caches_unplaced, g'.entryRows_unplaced]
      exact ⟨rfl, rfl⟩

/-- A press behind a proxy that needs an ink, which a hint names a class for. -/
def pressSession (files : FileSection) (fileBased : Bool) (mode : Mode) : Session where
  config :=
    { entryPoints := [{ target := .single "Press", autoload := true, fileBased }]
      hints := .ofList [("Ink", .implementation "BlackInk" {})]
      files }
  provider := Metadata.provider <| .ofList
    [("Press", { parameters := [{ name := "ink", type := some "Ink" }] }), ("BlackInk", {})]
  mode

/-- One session puts the class of the ink into a file of its own, the other one nothing. -/
theorem agrees_pressSession :
    ∃ g g' c c',
      (pressSession { excluded := ["Press"] } true .compile).resolve none = .ok g ∧
      (pressSession { enabled := true } false .runtime).resolve none = .ok g' ∧
      g.classPasses "BlackInk" (·.fileBased) ∧ g'.classPasses "BlackInk" (!·.fileBased) ∧
      g.container (pressSession { excluded := ["Press"] } true .compile).config = .ok c ∧
      g'.container (pressSession { enabled := true } false .runtime).config = .ok c' ∧
      g.AgreesWith g' ∧ c.caches = c'.caches ∧ c.entryRows = c'.entryRows := by
  let wired : Session → Bool → Wiring := fun s fileBased =>
    ⟨s.config, s.provider, s.mode, ⟨[{ ids := ["Press"], autoload := true, fileBased }]⟩,
      { exact := .ofList [("Ink", .byClass "BlackInk" {})] }⟩
  let s := pressSession { excluded := ["Press"] } true .compile
  let s' := pressSession { enabled := true } false .runtime
  have resolves : (wired s true).passesWithin 40 ["Press"] (fun g =>
      g.classPasses "BlackInk" (·.fileBased) && g.containerPasses s.config fun _ => true) = true := by
    decide +kernel
  have resolves' : (wired s' false).passesWithin 40 ["Press"] (fun g =>
      g.classPasses "BlackInk" (!·.fileBased) && g.containerPasses s'.config fun _ => true)
      = true := by
    decide +kernel
  obtain ⟨g, hg, passes⟩ := Wiring.exists_of_passesWithin resolves
  obtain ⟨g', hg', passes'⟩ := Wiring.exists_of_passesWithin resolves'
  obtain ⟨ink, built⟩ := Bool.and_eq_true_iff.1 passes
  obtain ⟨ink', built'⟩ := Bool.and_eq_true_iff.1 passes'
  obtain ⟨c, hc, -⟩ := Graph.exists_of_containerPasses built
  obtain ⟨c', hc', -⟩ := Graph.exists_of_containerPasses built'
  have hg : s.resolve none = .ok g := hg
  have hg' : s'.resolve none = .ok g' := hg'
  have same : s.unplaced = s'.unplaced := rfl
  rcases agrees_of_unplaced_eq same with ⟨e, failed, -⟩ | ⟨g₁, g₂, h₁, h₂, agrees, containers⟩
  · cases hg.symm.trans failed
  · cases hg.symm.trans h₁
    cases hg'.symm.trans h₂
    exact ⟨g, g', c, c', hg, hg', ink, ink', hc, hc', agrees, containers c c' hc hc'⟩

end Injector
