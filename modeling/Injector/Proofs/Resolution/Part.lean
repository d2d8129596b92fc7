import Injector.Proofs.Resolution.Permutation

/-!
# Parts of a graph

In a session whose hints leave each identifier its own class, with the same placement for all entry
points, the graph of one entry point is a part of the graph of all. It can be resolved if all can,
it defines nothing else, and each of its definitions is the one of the whole graph, with the counts
of those consumers that are in the part.
-/

namespace Injector

universe u

namespace Table

variable {α : Type u}

/-- The entries whose keys pass a test. -/
def restrict (p : String → Bool) (t : Table α) : Table α :=
  ⟨t.entries.filter fun e => p e.1, t.ascending.filter _⟩

@[simp] lemma find?_restrict (p : String → Bool) (t : Table α) (k : String) :
    (t.restrict p).find? k = if p k then t.find? k else none := by
  apply Option.ext
  intro a
  rw [← mem_entries_iff_find?, restrict, List.mem_filter, mem_entries_iff_find?]
  by_cases hk : p k <;> simp [hk]

lemma mem_values_of_restrict {p : String → Bool} {t : Table α} {a : α}
    (h : a ∈ (t.restrict p).values) : a ∈ t.values :=
  (List.filter_sublist.map _).mem h

end Table

/-! ### Fewer consumers -/

namespace Definition

/-- A definition with the references of those consumers that pass a test. -/
def keepReferrers (p : Identifier → Bool) : Definition → Definition :=
  mapReferrers (Table.restrict p)

/-- An instance that is kept for some of the consumers is kept for all of them. -/
lemma keepsInstance_of_keepReferrers {p : Identifier → Bool} {d : Definition}
    (h : Graph.keepsInstance (d.keepReferrers p)) : Graph.keepsInstance d := by
  induction d using Definition.id.induct with
  | case1 c =>
    simp only [keepReferrers, mapReferrers, Graph.keepsInstance, Bool.and_eq_true,
      Bool.or_eq_true, List.any_eq_true] at h ⊢
    obtain ⟨scope, exposed | ⟨r, hr, singleton⟩⟩ := h
    · exact ⟨scope, .inl exposed⟩
    · exact ⟨scope, .inr ⟨r, Table.mem_values_of_restrict hr, singleton⟩⟩
  | case5 inner _ _ ih => exact ih h
  | case2 | case3 | case4 => exact h

end Definition

/-- Every definition of the one graph is that of the other, with the references of the identifiers
that the one graph defines. -/
def Graph.IsPartOf (part whole : Graph) : Prop :=
  ∀ k d, part.find? k = some d →
    ∃ d', whole.find? k = some d' ∧ d = d'.keepReferrers part.contains

/-- What is cached in a part is cached in the whole graph. -/
lemma Graph.IsPartOf.isCached {part whole : Graph} (h : part.IsPartOf whole) {k : Identifier}
    (cached : part.isCached k) : whole.isCached k := by
  obtain ⟨d, hd, keeps⟩ := (Option.any_eq_true _ _).1 cached
  obtain ⟨d', hd', rfl⟩ := h k d hd
  exact (Option.any_eq_true _ _).2 ⟨d', hd', Definition.keepsInstance_of_keepReferrers keeps⟩

namespace Wiring

variable {w : Wiring} {placed : Bool} {roots roots' : List Identifier} {F F' : Graph}

/-- What a direct wiring resolves within a resolved graph is a part of that graph. -/
theorem IsDirect.isPartOf (direct : w.IsDirect placed)
    (declared : ∀ r ∈ roots, w.entries.contains r) (declared' : ∀ r ∈ roots', w.entries.contains r)
    (ok : w.Yields roots F) (ok' : w.Yields roots' F') (keeps : F'.Keeps F) : F'.IsPartOf F := by
  intro k d' hd'
  obtain ⟨d, hd, shape⟩ := keeps.exists_find? hd'
  refine ⟨d, hd, ok'.eq_mapReferrers ok hd' hd shape.symm ?_⟩
  have kept : d.referrers?.isSome = d'.referrers?.isSome := by
    rw [← Definition.isSome_referrers?_shape, shape, Definition.isSome_referrers?_shape]
  -- each consumer of the part refers as it does in the whole graph
  have counted : ∀ j, F'.referrer? k j = if F'.contains j then F.referrer? k j else none :=
    fun j => direct.referrer?_eq declared declared' ok ok' keeps (by simp [hd'])
  simp only [Graph.referrer?, hd, hd', Option.bind_some] at counted
  cases hr : d.referrers? with
  | none => simpa [hr] using kept.symm
  | some r =>
    obtain ⟨r', hr'⟩ := Option.isSome_iff_exists.1 (kept.symm.trans (by simp [hr]))
    simp only [hr, hr', Option.bind_some] at counted
    have same : r' = r.restrict F'.contains := Table.ext_find? fun j => by
      rw [Table.find?_restrict]
      exact counted j
    rw [hr', same]
    rfl

/-- What is a part before the proxies is a part behind them. -/
lemma isPartOf_wrapEntries (always : List String) (h : F'.IsPartOf F) :
    (w.wrapEntries always F').IsPartOf (w.wrapEntries always F) := by
  have contains : (w.wrapEntries always F').contains = F'.contains := by
    funext k
    simp [find?_wrapEntries]
  intro k d hd
  rw [find?_wrapEntries] at hd
  obtain ⟨d₀', hd', rfl⟩ := Option.map_eq_some_iff.1 hd
  obtain ⟨d₀, hd₀, rfl⟩ := h k d₀' hd'
  refine ⟨w.front always k d₀, by rw [find?_wrapEntries, hd₀]; rfl, ?_⟩
  rw [contains, front, front]
  split
  · cases d₀ <;> rfl
  · rfl

/-- A direct wiring that resolves all its entry points resolves each of them, to a part of the
whole graph. -/
theorem IsDirect.exists_resolveOne (direct : w.IsDirect placed) {all : Graph}
    (h : w.resolveAll = .ok all) {id : Identifier} (declared : w.entries.contains id) :
    ∃ one, w.resolveOne id = .ok one ∧ one.IsPartOf all := by
  obtain ⟨F, always, ok, activated, rfl⟩ := resolve_eq_ok.1 h
  have declared : ∀ r ∈ [id], w.entries.contains r := by simpa using declared
  have listed : ∀ r ∈ w.entries.identifiers, w.entries.contains r := fun r hr =>
    EntryPoints.mem_identifiers.1 hr
  have within : ∀ r ∈ [id], F.contains r := fun r hr =>
    (ok.settled_root (EntryPoints.mem_identifiers.2 (declared r hr))).1
  obtain ⟨F', ok', keeps⟩ := direct.exists_yields listed ok within declared
  refine ⟨w.wrapEntries always F', ?_, isPartOf_wrapEntries always
    (direct.isPartOf listed declared ok ok' keeps)⟩
  rw [resolveOne, if_pos (declared id List.mem_cons_self)]
  exact resolve_eq_ok.2 ⟨F', always, ok', activated, rfl⟩

end Wiring

/-! ### Sessions -/

namespace Session

/-- Whether an identifier is one of the declared entry points. -/
def Declares (s : Session) (id : Identifier) : Prop :=
  ∃ entries, EntryPoints.ofConfigs s.provider s.config.entryPoints = .ok entries ∧
    entries.contains id

end Session

open Session

/-- In a direct session whose entry points can all be resolved, each declared one can be resolved
for itself, and its graph is a part of the graph of all. -/
theorem isPartOf_of_resolve {s : Session} (direct : s.IsDirect) {all : Graph}
    (h : s.resolve none = .ok all) {id : Identifier} (declared : s.Declares id) :
    ∃ one, s.resolve (some id) = .ok one ∧ one.IsPartOf all ∧
      ∀ k, one.isCached k → all.isCached k := by
  obtain ⟨entries, hints, he, hh, hall⟩ := resolve_eq_ok.1 h
  obtain ⟨entries', he', declared⟩ := declared
  cases he.symm.trans he'
  obtain ⟨placed, wired⟩ := direct.wiring he hh
  obtain ⟨one, hone, part⟩ := wired.exists_resolveOne hall declared
  refine ⟨one, ?_, part, fun k => part.isCached⟩
  have wiring : s.wiring = .ok ⟨s.config, s.provider, s.mode, entries, hints⟩ := by
    rw [Session.wiring, Wiring.ofConfig, he, hh]
    rfl
  rw [Session.resolve, wiring]
  exact hone

theorem isPartOf_shopSession :
    ∃ all one, shopSession.resolve none = .ok all ∧ shopSession.Declares "Desk" ∧
      shopSession.resolve (some "Desk") = .ok one ∧ one.IsPartOf all ∧
      (all.referrer? "Till" "Shop").isSome ∧ ∀ k, one.isCached k → all.isCached k := by
  let entries : EntryPoints := ⟨[{ ids := ["Shop"], autoload := true }, { ids := ["Desk"] }]⟩
  let hints : HintTable := { exact := .ofList [("Till", .byClass "Till" { scope := .prototype })] }
  have he : EntryPoints.ofConfigs shopSession.provider shopSession.config.entryPoints =
    .ok entries := rfl
  have hh : HintTable.ofConfig shopSession.config = .ok hints := rfl
  have resolves : (⟨shopSession.config, shopSession.provider, .compile, entries, hints⟩ :
      Wiring).passesWithin 40 entries.identifiers (fun g => (g.referrer? "Till" "Shop").isSome)
      = true := by
    decide +kernel
  obtain ⟨all, hall, shop⟩ := Wiring.exists_of_passesWithin resolves
  have hall : shopSession.resolve none = .ok all := resolve_eq_ok.2 ⟨entries, hints, he, hh, hall⟩
  have direct : shopSession.IsDirect := ⟨rfl, by decide, .inr (.inl (by decide))⟩
  have desk : shopSession.Declares "Desk" := ⟨entries, he, by decide⟩
  obtain ⟨one, hone, part, cached⟩ := isPartOf_of_resolve direct hall desk
  exact ⟨all, one, hall, desk, hone, part, shop, cached⟩

end Injector
