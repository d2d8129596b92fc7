import Injector.Proofs.Fallible
import Injector.Proofs.Resolution.Within
import Injector.Session
import Mathlib.Data.List.Pairwise

/-!
# The order of entry points

If the hints leave each identifier its own class, no identifier is declared twice, and placement is
the same for all entry points, then the order of the entry points shows in nothing but the order in
which they are listed. Resolution succeeds in any order or in none, and with the same definitions.
-/

namespace Injector

/-! ### Entry points in another order -/

namespace EntryPoints

/-- No identifier is covered by two entry points. -/
def AreDisjoint (e : EntryPoints) : Prop :=
  e.entries.Pairwise fun a b => a.ids.Disjoint b.ids

lemma AreDisjoint.perm {e e' : EntryPoints} (disjoint : e.AreDisjoint)
    (perm : e'.entries.Perm e.entries) : e'.AreDisjoint :=
  (perm.pairwise_iff List.disjoint_symm).2 disjoint

lemma AreDisjoint.find?_eq_some_iff {e : EntryPoints} (disjoint : e.AreDisjoint) {id : Identifier}
    {entry : EntryPoint} : e.find? id = some entry ↔ entry ∈ e.entries ∧ id ∈ entry.ids := by
  constructor
  · intro h
    exact ⟨List.mem_of_find?_eq_some h, by simpa using List.find?_some h⟩
  · rintro ⟨hmem, hid⟩
    cases h : e.find? id with
    | none =>
      have := List.find?_eq_none.1 h entry hmem
      simp [hid] at this
    | some entry' =>
      have hid' : id ∈ entry'.ids := by simpa using List.find?_some h
      have : Std.Symm fun a b : EntryPoint => a.ids.Disjoint b.ids :=
        ⟨fun _ _ => List.disjoint_symm⟩
      by_contra hne
      exact List.Pairwise.forall disjoint (List.mem_of_find?_eq_some h) hmem
        (fun eq => hne (congrArg some eq)) hid' hid

/-- Which entry point covers an identifier is no matter of their order. -/
lemma find?_eq_of_perm {e e' : EntryPoints} (perm : e'.entries.Perm e.entries)
    (disjoint : e.AreDisjoint) (id : Identifier) : e'.find? id = e.find? id := by
  apply Option.ext
  intro entry
  rw [disjoint.find?_eq_some_iff, (disjoint.perm perm).find?_eq_some_iff, perm.mem_iff]

lemma ofConfigs_eq_ok {p : Provider} {configs : List EntryConfig} {e : EntryPoints} :
    ofConfigs p configs = .ok e ↔ configs.mapM (EntryConfig.expand p) = .ok e.entries := by
  simp only [ofConfigs, bind_eq_ok, pure, Except.pure, Except.ok.injEq]
  constructor
  · rintro ⟨l, hl, rfl⟩
    exact hl
  · exact fun h => ⟨e.entries, h, rfl⟩

/-- Configured entry points in another order are the same ones in another order. -/
lemma exists_perm_of_ofConfigs {p : Provider} {configs configs' : List EntryConfig}
    {e : EntryPoints} (perm : configs'.Perm configs) (h : ofConfigs p configs = .ok e) :
    ∃ e', ofConfigs p configs' = .ok e' ∧ e'.entries.Perm e.entries := by
  obtain ⟨l, hl, perm⟩ := exists_perm_of_mapM_eq_ok perm (ofConfigs_eq_ok.1 h)
  exact ⟨⟨l⟩, ofConfigs_eq_ok.2 hl, perm⟩

/-- An entry point is placed as it was configured. -/
lemma exists_of_ofConfigs {p : Provider} {configs : List EntryConfig} {e : EntryPoints}
    (h : ofConfigs p configs = .ok e) {entry : EntryPoint} (hmem : entry ∈ e.entries) :
    ∃ c ∈ configs, entry.fileBased = c.fileBased := by
  obtain ⟨c, hc, expanded⟩ := (exists_mem_of_mapM_eq_ok (ofConfigs_eq_ok.1 h)).2 entry hmem
  obtain ⟨ids, -, eq⟩ := bind_eq_ok.1 expanded
  cases eq
  exact ⟨c, hc, rfl⟩

end EntryPoints

/-! ### Wirings that list their entry points differently -/

section Entries

variable {entries entries' : EntryPoints} (same : ∀ id, entries'.find? id = entries.find? id)
include same

lemma classDefinition_congr (cls : Identifier) (s : ClassSettings) (placed : Bool) :
    classDefinition entries' cls s placed = classDefinition entries cls s placed := by
  simp only [classDefinition, same]

lemma implementation?_congr (hints : HintTable) (cls : Identifier) (s : ClassSettings)
    (placed : Bool) :
    implementation? entries' hints cls s placed = implementation? entries hints cls s placed := by
  simp only [implementation?, classDefinition_congr same]

/-- What a hint makes depends only on which entry points cover what. -/
lemma definitions_congr (hint : Hint) (hints : HintTable) (id : Identifier) (placed : Bool) :
    hint.definitions entries' hints id placed = hint.definitions entries hints id placed := by
  have classes : ∀ cls s, classBinding entries' hints id cls s placed =
      classBinding entries hints id cls s placed := fun cls s => by
    simp only [classBinding, EntryPoints.contains, same, classDefinition_congr same,
      implementation?_congr same]
  cases hint with
  | exact binding =>
    cases binding with
    | byClass cls s => simp only [Hint.definitions, classes]
    | perConsumer t =>
      simp only [Hint.definitions, contextBinding, EntryPoints.contains, same,
        implementation?_congr same]
  | wildcard hint => simp only [Hint.definitions, classes]

end Entries

namespace Wiring

/-- A wiring with another list of entry points. -/
def listing (w : Wiring) (configs : List EntryConfig) (entries : EntryPoints) : Wiring :=
  { w with config := { w.config with entryPoints := configs }, entries }

variable {w w' : Wiring} {placed : Bool} {roots : List Identifier}

lemma perform_listing (configs : List EntryConfig) {entries : EntryPoints}
    (same : ∀ id, entries.find? id = w.entries.find? id) (g : Graph) (t : Task) :
    (w.listing configs entries).perform g t = w.perform g t := by
  cases t with
  | request id consumer b =>
    have define : (w.listing configs entries).define g id consumer b =
        w.define g id consumer b := by
      have hints : (w.listing configs entries).hints = w.hints := rfl
      have inline : ∀ k,
          (w.listing configs entries).config.staysInline k = w.config.staysInline k := fun _ => rfl
      have covers : ∀ k, (w.listing configs entries).entries.find? k = w.entries.find? k := same
      simp only [Wiring.define, ownDefinition, hints, inline, definitions_congr covers,
        classDefinition_congr covers]
    simp only [perform, define]
    rfl
  | check | count | discoverFields | complete | fail => rfl

lemma yields_listing (configs : List EntryConfig) {entries : EntryPoints}
    (same : ∀ id, entries.find? id = w.entries.find? id) {F : Graph} (ok : w.Yields roots F) :
    (w.listing configs entries).Yields roots F := by
  have start : (w.listing configs entries).start roots = w.start roots := rfl
  have tasks : roots.map (w.listing configs entries).rootTask = roots.map w.rootTask :=
    List.map_congr_left fun r _ => by
      have covers : (w.listing configs entries).entries.find? r = w.entries.find? r := same r
      rw [rootTask, covers]
      rfl
  have last := ok.visits.congr fun _ _ => perform_listing configs same _ _
  rw [Yields, start, tasks, ← last.run_eq, run_nil]

/-- What is equal before the proxies is equal behind them. -/
lemma definitions_wrapEntries {always : List String} {g g' : Graph}
    (same : ∀ k, k ∈ w'.wrappedEntries ↔ k ∈ w.wrappedEntries)
    (definitions : g'.definitions = g.definitions) :
    (w'.wrapEntries always g').definitions = (w.wrapEntries always g).definitions := by
  apply Table.ext_find?
  intro k
  have front : w'.front always k = w.front always k := by
    funext d
    simp only [Wiring.front, same k]
  have found : g'.find? k = g.find? k := by rw [Graph.find?, definitions]; rfl
  exact (find?_wrapEntries w' always g' k).trans
    ((congrArg₂ Option.map front found).trans (find?_wrapEntries w always g k).symm)

/-- A direct wiring resolves its entry points in any order, with the same definitions. -/
theorem IsDirect.exists_resolveAll_of_perm (direct : w.IsDirect placed) (configs : List EntryConfig)
    {entries : EntryPoints} (perm : entries.entries.Perm w.entries.entries)
    (disjoint : w.entries.AreDisjoint) {g : Graph} (h : w.resolveAll = .ok g) :
    ∃ g', (w.listing configs entries).resolveAll = .ok g' ∧ g'.definitions = g.definitions := by
  have covers := EntryPoints.find?_eq_of_perm perm disjoint
  obtain ⟨F, always, ok, activated, rfl⟩ := resolve_eq_ok.1 h
  have same : ∀ r, r ∈ entries.identifiers ↔ r ∈ w.entries.identifiers := fun r => by
    rw [EntryPoints.mem_identifiers, EntryPoints.mem_identifiers, EntryPoints.contains, covers]
    rfl
  obtain ⟨F', ok', definitions⟩ := direct.exists_yields_of_mem_iff
    (fun r hr => EntryPoints.mem_identifiers.1 hr) ok same
  refine ⟨_, resolve_eq_ok.2 ⟨F', always, yields_listing configs covers ok', activated, rfl⟩, ?_⟩
  refine definitions_wrapEntries (fun k => ?_) definitions
  simp only [wrappedEntries, List.mem_flatMap]
  exact exists_congr fun e => and_congr_left fun _ => perm.mem_iff

end Wiring

/-! ### Sessions -/

/-- Whether a hint leaves an identifier its own class. -/
def HintConfig.isOwn (id : Identifier) : HintConfig → Bool
  | .context _ => false
  | .implementation cls _ => cls = id
  | .own _ => true

lemma HintConfig.exists_binding_of_isOwn {id : Identifier} {h : HintConfig} (own : h.isOwn id) :
    ∃ s, h.binding id = .byClass id s := by
  cases h with
  | context => cases own
  | implementation cls s =>
    obtain rfl : cls = id := of_decide_eq_true own
    exact ⟨s, rfl⟩
  | own s => exact ⟨s, rfl⟩

namespace Session

/-- There are no hints for patterns, every other hint leaves its identifier its own class, and all
entry points are alike in what goes to files of its own. -/
structure IsDirect (s : Session) : Prop where
  wildcards : s.config.wildcards = []
  own : ∀ e ∈ s.config.hints.entries, e.2.isOwn e.1
  uniform : s.config.files.enabled ∨ (∀ e ∈ s.config.entryPoints, e.fileBased = false) ∨
    s.mode = .runtime

/-- A session with the entry points declared in another way. -/
def declaring (s : Session) (configs : List EntryConfig) : Session :=
  { s with config := { s.config with entryPoints := configs } }

variable {s : Session} {w : Wiring} {g : Graph}

lemma resolve_eq_ok :
    s.resolve none = .ok g ↔ ∃ entries hints,
      EntryPoints.ofConfigs s.provider s.config.entryPoints = .ok entries ∧
      HintTable.ofConfig s.config = .ok hints ∧
      (⟨s.config, s.provider, s.mode, entries, hints⟩ : Wiring).resolveAll = .ok g := by
  simp only [Session.resolve, wiring, Wiring.ofConfig, bind_eq_ok, pure, Except.pure,
    Except.ok.injEq]
  constructor
  · rintro ⟨_, ⟨entries, he, hints, hh, rfl⟩, hg⟩
    exact ⟨entries, hints, he, hh, hg⟩
  · rintro ⟨entries, hints, he, hh, hg⟩
    exact ⟨_, ⟨entries, he, hints, hh, rfl⟩, hg⟩

/-- The wiring of a direct session is direct. -/
lemma IsDirect.wiring (direct : s.IsDirect) {entries : EntryPoints} {hints : HintTable}
    (he : EntryPoints.ofConfigs s.provider s.config.entryPoints = .ok entries)
    (hh : HintTable.ofConfig s.config = .ok hints) :
    ∃ placed, (⟨s.config, s.provider, s.mode, entries, hints⟩ : Wiring).IsDirect placed := by
  obtain ⟨wildcards, hw, eq⟩ := bind_eq_ok.1 hh
  rw [direct.wildcards] at hw
  cases hw
  cases eq
  refine ⟨decide (s.mode = .compile) && s.config.files.enabled, rfl, ?_, ?_⟩
  · intro id b hb
    rw [Table.find?_mapValues] at hb
    obtain ⟨h, found, rfl⟩ := Option.map_eq_some_iff.1 hb
    exact HintConfig.exists_binding_of_isOwn
      (direct.own (id, h) ((Table.mem_entries_iff_find? _ _ _).2 found))
  · intro entry hmem
    obtain ⟨c, hc, same⟩ := EntryPoints.exists_of_ofConfigs he hmem
    simp only [Wiring.placesBelow, EntryPoint.isFileBased]
    rcases direct.uniform with enabled | none | runtime
    · cases s.mode <;> simp [enabled]
    · have none : entry.fileBased = false := same.trans (none c hc)
      cases s.mode <;> simp [none]
    · simp [runtime]

lemma IsDirect.declaring (direct : s.IsDirect) {configs : List EntryConfig}
    (perm : configs.Perm s.config.entryPoints) : (s.declaring configs).IsDirect where
  wildcards := direct.wildcards
  own := direct.own
  uniform := direct.uniform.imp_right fun h =>
    h.imp_left fun none e he => none e (perm.mem_iff.1 he)

lemma IsDirect.exists_resolve_of_perm (direct : s.IsDirect) {configs : List EntryConfig}
    (perm : configs.Perm s.config.entryPoints)
    (disjoint : ∀ entries, EntryPoints.ofConfigs s.provider s.config.entryPoints = .ok entries →
      entries.AreDisjoint) (h : s.resolve none = .ok g) :
    ∃ g', (s.declaring configs).resolve none = .ok g' ∧ g'.definitions = g.definitions := by
  obtain ⟨entries, hints, he, hh, hg⟩ := resolve_eq_ok.1 h
  obtain ⟨placed, wired⟩ := direct.wiring he hh
  obtain ⟨entries', he', perm'⟩ := EntryPoints.exists_perm_of_ofConfigs perm he
  obtain ⟨g', hg', definitions⟩ :=
    wired.exists_resolveAll_of_perm configs perm' (disjoint entries he) hg
  exact ⟨g', resolve_eq_ok.2 ⟨entries', hints, he', hh, hg'⟩, definitions⟩

end Session

open Session

/-- In a direct session in which no identifier is declared twice, the order of the entry points
matters neither for whether they can be resolved nor for the definitions. -/
theorem definitions_eq_of_perm {s : Session} (direct : s.IsDirect) {configs : List EntryConfig}
    (perm : configs.Perm s.config.entryPoints)
    (disjoint : ∀ entries, EntryPoints.ofConfigs s.provider s.config.entryPoints = .ok entries →
      entries.AreDisjoint) :
    ((∃ g', (s.declaring configs).resolve none = .ok g') ↔ ∃ g, s.resolve none = .ok g) ∧
      ∀ g g', s.resolve none = .ok g → (s.declaring configs).resolve none = .ok g' →
        g'.definitions = g.definitions ∧ ∀ k, g'.isCached k = g.isCached k := by
  have disjoint' : ∀ entries, EntryPoints.ofConfigs s.provider configs = .ok entries →
      entries.AreDisjoint := fun entries he => by
    obtain ⟨original, ho, perm'⟩ := EntryPoints.exists_perm_of_ofConfigs perm.symm he
    exact (disjoint original ho).perm perm'.symm
  refine ⟨⟨?_, ?_⟩, ?_⟩
  · rintro ⟨g', hg'⟩
    -- the declared order is one of the orders of the permuted session
    have back : s.config.entryPoints.Perm (s.declaring configs).config.entryPoints := perm.symm
    obtain ⟨g, hg, -⟩ := (direct.declaring perm).exists_resolve_of_perm back disjoint' hg'
    exact ⟨g, hg⟩
  · rintro ⟨g, hg⟩
    obtain ⟨g', hg', -⟩ := direct.exists_resolve_of_perm perm disjoint hg
    exact ⟨g', hg'⟩
  · intro g g' hg hg'
    obtain ⟨g₁, hg₁, definitions⟩ := direct.exists_resolve_of_perm perm disjoint hg
    cases hg'.symm.trans hg₁
    refine ⟨definitions, fun k => ?_⟩
    rw [Graph.isCached, Graph.find?, definitions]
    rfl

/-- A shop behind a proxy and a desk that share a till, which is built anew each time. -/
def shopSession : Session where
  config :=
    { entryPoints := [{ target := .single "Shop", autoload := true }, { target := .single "Desk" }]
      hints := .ofList [("Till", .own { scope := .prototype })] }
  provider := Metadata.provider <| .ofList
    [("Shop", { parameters := [{ name := "till", type := some "Till" },
        { name := "desk", type := some "Desk" }] }),
      ("Desk", { parameters := [{ name := "till", type := some "Till" }] }), ("Till", {})]

theorem definitions_eq_shopSession :
    ∃ g g', shopSession.resolve none = .ok g ∧
      (shopSession.declaring shopSession.config.entryPoints.reverse).resolve none = .ok g' ∧
      g.contains "Till" ∧ g'.definitions = g.definitions := by
  let entries : EntryPoints := ⟨[{ ids := ["Shop"], autoload := true }, { ids := ["Desk"] }]⟩
  let hints : HintTable := { exact := .ofList [("Till", .byClass "Till" { scope := .prototype })] }
  have he : EntryPoints.ofConfigs shopSession.provider shopSession.config.entryPoints =
    .ok entries := rfl
  have hh : HintTable.ofConfig shopSession.config = .ok hints := rfl
  have resolves : (⟨shopSession.config, shopSession.provider, .compile, entries, hints⟩ :
      Wiring).passesWithin 40 entries.identifiers (·.contains "Till") = true := by
    decide +kernel
  obtain ⟨g, hg, till⟩ := Wiring.exists_of_passesWithin resolves
  have hg : shopSession.resolve none = .ok g := resolve_eq_ok.2 ⟨entries, hints, he, hh, hg⟩
  have direct : shopSession.IsDirect := ⟨rfl, by decide, .inr (.inl (by decide))⟩
  have orders := definitions_eq_of_perm direct (List.reverse_perm _) fun entries' he' => by
    cases he.symm.trans he'
    simp [EntryPoints.AreDisjoint, entries]
  obtain ⟨g', hg'⟩ := orders.1.2 ⟨g, hg⟩
  exact ⟨g, g', hg, hg', till, (orders.2 g g' hg hg').1⟩

end Injector
