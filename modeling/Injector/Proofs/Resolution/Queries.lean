import Injector.Proofs.Resolution.History
import Injector.Proofs.Resolution.Permutation

/-!
# What resolution asks about

All questions of a resolution that succeeds are about classes in the graph that it comes to, and
about the sources that every proxy activates. So another provider that answers these alike leads to
the same graph, whatever it says about other identifiers.
-/

namespace Injector

/-- The identifier that a question is about. -/
def Question.id : Question → Identifier
  | .source id => id
  | .parameters id => id
  | .fields id => id

/-- Two providers say the same about an identifier. -/
def SameAnswers (p p' : Provider) (id : Identifier) : Prop :=
  ∀ q : Question, q.id = id → q.SameAnswer p p'

namespace Wiring

variable {w : Wiring} {roots : List Identifier} {g : Graph} {t : Task} {rest : List Task}

/-- A question is about a class that is defined already. -/
lemma exists_cls_of_mem_asks (v : w.Visits roots g (t :: rest)) {q : Question}
    (hq : q ∈ w.asks g t) : ∃ c, g.find? q.id = some (.cls c) := by
  obtain ⟨past, history⟩ := exists_history v
  have orderly := history.orderly
  rcases cases_of_mem_asks hq with ⟨c, begins, rfl | rfl⟩ | ⟨k, search, rfl⟩
  · exact ⟨c, (orderly.keyed.find?_of_begins? begins).1⟩
  · exact ⟨c, (orderly.keyed.find?_of_begins? begins).1⟩
  · have begun : k ∈ discovered past := by
      apply orderly.known
      apply List.mem_append_right
      simp [search]
    obtain ⟨c, hc, -⟩ := orderly.begun k begun
    exact ⟨c, hc⟩

/-- Another provider that says the same about all classes of a graph leads to the graph, too. -/
lemma Yields.of_sameAnswers (yields : w.Yields roots g) {p : Provider}
    (same : ∀ k c, g.find? k = some (.cls c) → SameAnswers p w.provider k) :
    ({ w with provider := p } : Wiring).Yields roots g := by
  have last : ({ w with provider := p } : Wiring).Visits roots g [] := by
    apply yields.visits.congr
    intro h t rest v later
    apply perform_of_sameAnswer
    intro q hq
    obtain ⟨c, hc⟩ := exists_cls_of_mem_asks v hq
    obtain ⟨c', hc', -⟩ := (yields.keeps v).find?_cls hc
    exact same q.id c' hc' q rfl
  rw [Yields, ← last.run_eq, run_nil]

/-- Another provider that says the same about the sources that are always activated has the same
ones activated. -/
lemma alwaysActivated_of_sameAnswer {p : Provider}
    (same : ∀ k ∈ w.config.autoload.always, p.sourceUnit k = w.provider.sourceUnit k) :
    ({ w with provider := p } : Wiring).alwaysActivated = w.alwaysActivated := by
  have units : w.config.autoload.always.mapM p.sourceUnit =
      w.config.autoload.always.mapM w.provider.sourceUnit := mapM_congr_left same
  simp only [alwaysActivated, units]

/-- What is asked of a wiring comes to the same graph with another provider, if that says the same
about the classes of the graph and the sources that are always activated. -/
lemma resolveFor_of_sameAnswers {entry : Option Identifier} (h : w.resolveFor entry = .ok g)
    {p : Provider}
    (same : ∀ k d c, g.find? k = some d → d.core = .cls c → SameAnswers p w.provider k)
    (always : ∀ k ∈ w.config.autoload.always, p.sourceUnit k = w.provider.sourceUnit k) :
    ({ w with provider := p } : Wiring).resolveFor entry = .ok g := by
  have resolved : ∀ roots, w.resolve roots = .ok g →
      ({ w with provider := p } : Wiring).resolve roots = .ok g := by
    intro roots resolves
    obtain ⟨F, units, yields, activated, rfl⟩ := resolve_eq_ok.1 resolves
    apply resolve_eq_ok.2
    refine ⟨F, units, ?_, (alwaysActivated_of_sameAnswer always).trans activated, rfl⟩
    apply yields.of_sameAnswers
    intro k c hk
    apply same k (w.front units k (.cls c)) c
    · rw [find?_wrapEntries, hk]
      rfl
    · rw [core_front]
      rfl
  cases entry with
  | none => exact resolved _ h
  | some id =>
    simp only [resolveFor, resolveOne] at h ⊢
    split at h
    · next covered => rw [if_pos covered, resolved _ h]
    · cases h

/-- If no class of the graph has a source, nor anything that is always activated, a provider comes to
the same graph when it leaves all but the members to the defaults. -/
theorem resolveFor_membersOnly {entry : Option Identifier} (h : w.resolveFor entry = .ok g)
    (sourceless : ∀ k d c, g.find? k = some d → d.core = .cls c →
      w.provider.sourceUnit k = .ok none)
    (always : ∀ k ∈ w.config.autoload.always, w.provider.sourceUnit k = .ok none) :
    ({ w with provider := w.provider.membersOnly } : Wiring).resolveFor entry = .ok g := by
  apply resolveFor_of_sameAnswers h
  · rintro k d c hk hc q rfl
    cases q with
    | source id => exact (sourceless id d c hk hc).symm
    | parameters id => rfl
    | fields id => rfl
  · intro k hk
    exact (always k hk).symm

end Wiring

/-- An entry point that is declared for an identifier of its own covers it for every provider. -/
lemma EntryConfig.expand_single {e : EntryConfig} {id : Identifier} (single : e.target = .single id)
    (p p' : Provider) : e.expand p = e.expand p' := by
  simp only [expand, single]
  rfl

/-- Without entry points for namespaces, another provider leads to the same graph if it says the
same about all classes of the graph and about the sources that are always activated. -/
theorem resolve_of_sameAnswers {s : Session} {entry : Option Identifier} {g : Graph}
    (single : ∀ e ∈ s.config.entryPoints, ∃ id, e.target = .single id)
    (h : s.resolve entry = .ok g) {p : Provider}
    (same : ∀ k d c, g.find? k = some d → d.core = .cls c → SameAnswers p s.provider k)
    (always : ∀ k ∈ s.config.autoload.always, p.sourceUnit k = s.provider.sourceUnit k) :
    ({ s with provider := p } : Session).resolve entry = .ok g := by
  obtain ⟨w, hw, resolves⟩ := bind_eq_ok.1 h
  obtain ⟨entries, he, hw⟩ := bind_eq_ok.1 hw
  obtain ⟨hints, hh, hw⟩ := bind_eq_ok.1 hw
  cases hw
  have expands : EntryPoints.ofConfigs p s.config.entryPoints = .ok entries := by
    have alike : s.config.entryPoints.mapM (EntryConfig.expand p) =
        s.config.entryPoints.mapM (EntryConfig.expand s.provider) := by
      apply mapM_congr_left
      intro e hmem
      obtain ⟨id, target⟩ := single e hmem
      exact EntryConfig.expand_single target p s.provider
    exact EntryPoints.ofConfigs_eq_ok.2 (alike.trans (EntryPoints.ofConfigs_eq_ok.1 he))
  have wired : ({ s with provider := p } : Session).wiring =
      .ok ⟨s.config, p, s.mode, entries, hints⟩ :=
    bind_eq_ok.2 ⟨entries, expands, bind_eq_ok.2 ⟨hints, hh, rfl⟩⟩
  exact bind_eq_ok.2 ⟨_, wired, Wiring.resolveFor_of_sameAnswers resolves same always⟩

/-- A provider that answers for some identifiers only. -/
def Provider.restrict (p : Provider) (known : List Identifier) : Provider where
  parameters id := if id ∈ known then p.parameters id else .error (.introspection id .undescribed)
  fields id := if id ∈ known then p.fields id else .error (.introspection id .undescribed)
  sourceUnit id := if id ∈ known then p.sourceUnit id else .error (.introspection id .undescribed)
  identifiers := []
  isConcrete _ := false

lemma sameAnswers_restrict {p : Provider} {known : List Identifier} {id : Identifier}
    (h : id ∈ known) : SameAnswers (p.restrict known) p id := by
  rintro q rfl
  cases q <;> exact if_pos h

/-- A shop behind a proxy with a till, and a light that is switched on before; and a cellar. -/
def cellarSession : Session where
  config :=
    { entryPoints := [{ target := .single "Shop", autoload := true }]
      hints := .ofList [("Till", .implementation "Drawer" {})]
      autoload := { always := ["Light"] } }
  provider := Metadata.provider <| .ofList
    [("Shop", { source := some "shop", parameters := [{ name := "till", type := some "Till" }] }),
      ("Drawer", {}), ("Light", { source := some "light" }),
      ("Cellar", { source := some "cellar" })]

/-- What there is to know without the cellar. -/
def litProvider : Provider := cellarSession.provider.restrict ["Shop", "Drawer", "Light"]

/-- Nobody asks about the cellar, or about the till. -/
theorem resolve_cellarSession :
    ∃ g, cellarSession.resolve none = .ok g ∧
      (∀ k d c, g.find? k = some d → d.core = .cls c → k ∈ ["Shop", "Drawer"]) ∧
      litProvider.sourceUnit "Cellar" ≠ cellarSession.provider.sourceUnit "Cellar" ∧
      ({ cellarSession with provider := litProvider } : Session).resolve none = .ok g := by
  have resolves : (⟨cellarSession.config, cellarSession.provider, .compile,
      ⟨[{ ids := ["Shop"], autoload := true }]⟩,
      ⟨.ofList [("Till", .byClass "Drawer" {})], []⟩⟩ : Wiring).passesWithin 40 ["Shop"]
        (fun g => ∀ e ∈ g.definitions.entries, e.2.core.kind = "class" →
          e.1 ∈ ["Shop", "Drawer"]) = true := by
    decide +kernel
  obtain ⟨g, hg, classes⟩ := Wiring.exists_of_passesWithin resolves
  have hg : cellarSession.resolve none = .ok g :=
    Session.resolve_eq_ok.2 ⟨_, _, rfl, rfl, hg⟩
  have reached : ∀ k d c, g.find? k = some d → d.core = .cls c → k ∈ ["Shop", "Drawer"] := by
    intro k d c hk hc
    have kind : d.core.kind = "class" := hc ▸ rfl
    exact of_decide_eq_true classes (k, d) ((g.definitions.mem_entries_iff_find? k d).2 hk) kind
  refine ⟨g, hg, reached, by decide, resolve_of_sameAnswers ?_ hg ?_ (by decide)⟩
  · simp [cellarSession]
  intro k d c hk hc
  apply sameAnswers_restrict
  exact List.mem_append_left ["Light"] (reached k d c hk hc)

end Injector
