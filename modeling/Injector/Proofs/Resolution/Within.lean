import Injector.Proofs.Resolution.Direct

/-!
# Resolutions within a resolved graph

What a direct wiring has resolved once it resolves again, in any order and in any part: every task
can be done, and nothing is asked for that was not there. The definitions are the same, each with the
references of the classes that are in the part.
-/

namespace Injector

namespace Definition

/-- A definition with its consumers changed, where consumers are kept. -/
def mapReferrers (f : Referrers → Referrers) : Definition → Definition
  | .cls c => .cls { c with referrers := f c.referrers }
  | .alias a => .alias { a with referrers := f a.referrers }
  | .autoloaded inner fileBased always => .autoloaded (inner.mapReferrers f) fileBased always
  | d => d

@[simp] lemma mapReferrers_self (d : Definition) : (d.mapReferrers fun r => r) = d := by
  induction d using Definition.id.induct <;> simp_all [mapReferrers]

end Definition

namespace Wiring

variable {w : Wiring} {placed : Bool} {roots roots' : List Identifier} {F F' g : Graph}
  {k x : Identifier} {us : List Task}

/-! ### Every task can be done -/

section Within

variable (direct : w.IsDirect placed) (declared : ∀ r ∈ roots, w.entries.contains r)
  (ok : w.Yields roots F) (within : ∀ r ∈ roots', F.contains r)
include direct declared ok within

/-- What is needed within a resolved graph is in it. -/
lemma IsDirect.contains_of_reached (f : w.Formed placed g) (h : w.Reached roots' g k) :
    F.contains k := by
  have formed := direct.formed declared ok
  obtain ⟨r, hr, path⟩ := h
  induction path with
  | refl => exact within r hr
  | tail _ edge ih =>
    obtain ⟨d, hd, needs⟩ := edge
    obtain ⟨d', hd'⟩ := Option.isSome_iff_exists.1 ih
    have same : d'.shape = d.shape := (formed.shape_eq hd').trans (f.shape_eq hd).symm
    have needs' : w.Needs d' _ := needs_shape.1 (same ▸ needs_shape.2 needs)
    exact (ok.settled hd' ((ok.mem_namedDependencies hd').2 needs')).1

lemma IsDirect.keeps_of_sound (s : w.Sound placed roots' g us) : g.Keeps F := by
  have formed := direct.formed declared ok
  refine s.formed.keeps formed fun k hk => ?_
  rcases s.rooted.defined k hk with hk | hk
  · exact formed.seeded k hk
  · exact direct.contains_of_reached declared ok within s.formed hk

/-- What could be done before can be done again. -/
lemma IsDirect.exists_perform {t : Task} {rest : List Task}
    (s : w.Sound placed roots' g (t :: rest)) :
    ∃ g' next, w.perform g t = .ok (g', next) ∧ ∀ e, .fail e ∉ next := by
  have keeps := direct.keeps_of_sound declared ok within s
  cases t with
  | request id consumer b =>
    cases hd : g.find? id with
    | none =>
      obtain ⟨checks, defined, rechecks⟩ := direct.define_eq hd consumer b
      refine ⟨_, _, by simp only [perform, hd]; exact defined, ?_⟩
      rintro e (_ | ⟨_, he⟩)
      cases rechecks _ he
    | some d =>
      cases d with
      | cls c =>
        obtain ⟨c', hc', same⟩ := keeps.find?_cls hd
        have hid : c'.id = c.id := (congrArg ClassDefinition.id same :)
        have source := (ok.describes hc').2.source
        have supplies := (ok.supplies hc').1
        rw [hid] at source
        rw [suppliesParameters_of_shape_eq same] at supplies
        simp only [perform, hd]
        split
        · exact exists_discover source supplies g b
        · exact ⟨_, _, rfl, by simp⟩
      | «alias» | container | perConsumer | autoloaded =>
        exact ⟨g, [.check id consumer], by simp only [perform, hd], by simp⟩
  | check id consumer =>
    refine ⟨g, [], ?_, by simp⟩
    rw [perform, s.formed.checkBranch_eq consumer]
    rfl
  | count id consumer singleton => exact ⟨_, _, rfl, by simp⟩
  | discoverFields c b =>
    obtain ⟨⟨c₁, hc₁, shape, -⟩, -⟩ := s.underway.completing _ List.mem_cons_self c rfl
    obtain ⟨c', hc', same⟩ := keeps.find?_cls hc₁
    have supplies := (ok.supplies hc').2
    rw [suppliesFields_of_shape_eq (same.trans shape)] at supplies
    exact exists_discoverFields supplies g b
  | complete c => exact ⟨_, _, rfl, by simp⟩
  | fail e => exact absurd List.mem_cons_self (s.clean e)

/-- What is declared and was resolved once can be resolved for itself. -/
theorem IsDirect.exists_yields (declared' : ∀ r ∈ roots', w.entries.contains r) :
    ∃ F', w.Yields roots' F' ∧ F'.Keeps F := by
  have step : ∀ {g g' t rest next}, w.Sound placed roots' g (t :: rest) →
      w.perform g t = .ok (g', next) → w.Sound placed roots' g' (next ++ rest) := by
    intro g g' t rest next s done
    obtain ⟨_, _, done', clean⟩ := direct.exists_perform declared ok within s
    cases done.symm.trans done'
    exact direct.sound_next s done clean
  have start := direct.sound_start declared'
  have ends := isSome_run (P := w.Sound placed roots') F.identifiers
    (fun _ _ s _ _ hk => s.formed.original.id_eq hk)
    (fun _ _ s k consumer b hk => (Table.mem_keys_iff _ _).2
      (direct.contains_of_reached declared ok within s.formed (s.rooted.requested k consumer b hk)))
    step _ _ start
  obtain ⟨outcome, hr⟩ := Option.isSome_iff_exists.1 ends
  cases outcome with
  | error e =>
    obtain ⟨h, t, rest, l, failed⟩ := exists_leads_of_run_error hr
    obtain ⟨_, _, done, -⟩ := direct.exists_perform declared ok within (l.preserves start step)
    cases failed.symm.trans done
  | ok F' =>
    have last := (leads_of_run hr).preserves start step
    exact ⟨F', hr, direct.keeps_of_sound declared ok within last⟩

end Within

/-! ### What a resolution comes to -/

/-- What the provider says of a class is settled by what the class was made as. -/
lemma Describes.found_eq {c c' : ClassDefinition} (h : w.Describes c) (h' : w.Describes c')
    (shape : c.shape = c'.shape) :
    c.arguments = c'.arguments ∧ c.fields = c'.fields ∧ c.sourceUnit = c'.sourceUnit := by
  have arguments := h.toDescribesArguments.arguments_eq h'.toDescribesArguments shape
  obtain ⟨⟨source, -⟩, fs, hfs, fields⟩ := h
  obtain ⟨⟨source', -⟩, fs', hfs', fields'⟩ := h'
  have hid : c.id = c'.id := (congrArg ClassDefinition.id shape :)
  have overrides : c.overriddenFields = c'.overriddenFields :=
    (congrArg ClassDefinition.overriddenFields shape :)
  rw [hid] at source hfs
  obtain rfl : fs = fs' := Except.ok.inj (hfs.symm.trans hfs')
  exact ⟨arguments, by rw [fields, fields', overrides], Except.ok.inj (source.symm.trans source')⟩

/-- What a resolution makes of an identifier is settled by what it was made as and its consumers. -/
lemma Yields.eq_mapReferrers (ok : w.Yields roots F) (ok' : w.Yields roots' F') {d d' : Definition}
    (hd : F.find? k = some d) (hd' : F'.find? k = some d') (shape : d.shape = d'.shape)
    {f : Referrers → Referrers} (referrers : d.referrers? = d'.referrers?.map f) :
    d = d'.mapReferrers f := by
  cases d with
  | cls c =>
    obtain ⟨c', rfl, same⟩ := Definition.eq_cls_of_shape_eq shape.symm
    obtain ⟨resolved, described⟩ := ok.describes hd
    obtain ⟨resolved', described'⟩ := ok'.describes hd'
    have found := described.found_eq described' same.symm
    have referrers : c.referrers = f c'.referrers := Option.some.inj referrers
    cases c
    cases c'
    simp_all [ClassDefinition.shape, Definition.mapReferrers]
  | «alias» a =>
    obtain ⟨a', rfl, same⟩ := Definition.eq_alias_of_shape_eq shape.symm
    have referrers : a.referrers = f a'.referrers := Option.some.inj referrers
    cases a
    cases a'
    simp_all [Definition.mapReferrers]
  | container | perConsumer => cases d' <;> simp_all [Definition.shape, Definition.mapReferrers]
  | autoloaded => exact absurd hd ok.original.ne_autoloaded

lemma IsDirect.keepsBranches (direct : w.IsDirect placed) : w.KeepsBranches := by
  intro k t ht
  obtain ⟨s, hs⟩ := direct.own k _ ht
  cases hs

/-- Only classes refer to anything. -/
lemma IsDirect.referrer?_eq_none (direct : w.IsDirect placed)
    (declared : ∀ r ∈ roots, w.entries.contains r) (ok : w.Yields roots F)
    (notClass : ∀ c, F.find? k ≠ some (.cls c)) : F.referrer? x k = none := by
  have silent : Silent (w.start roots) (roots.map w.rootTask) k := by
    refine ⟨?_, fun j s => not_count_mem_rootTasks j k s⟩
    cases hk : F.find? k with
    | none =>
      right
      intro b hm
      obtain ⟨r, hr, eq⟩ := List.mem_map.1 hm
      cases eq
      have := (ok.settled_root hr).1
      simp [hk] at this
    | some d =>
      left
      have shape := (direct.formed declared ok).shape_eq hk
      rcases made_cases w placed k with ⟨seeded, -⟩ | ⟨-, eq⟩
      · rwa [Graph.contains_eq, find?_start]
      · obtain ⟨c, rfl, -⟩ := Definition.eq_cls_of_shape_eq (shape.trans eq)
        exact absurd hk (notClass c)
  have start : w.Visits roots (w.start roots) (roots.map w.rootTask ++ []) := by
    rw [List.append_nil]
    exact .refl
  rw [ok.referrer?_eq_of_silent notClass start ok.visits silent, referrer?_start]

section Part

variable (direct : w.IsDirect placed) (declared : ∀ r ∈ roots, w.entries.contains r)
  (declared' : ∀ r ∈ roots', w.entries.contains r) (ok : w.Yields roots F)
  (ok' : w.Yields roots' F')
include direct declared declared' ok ok'

/-- A part of a resolved graph has the references of its own classes. -/
theorem IsDirect.referrer?_eq (keeps : F'.Keeps F) (hx : F'.contains x) :
    F'.referrer? x k = if F'.contains k then F.referrer? x k else none := by
  have formed := direct.formed declared ok
  have formed' := direct.formed declared' ok'
  by_cases hk : ∃ c', F'.find? k = some (.cls c')
  · obtain ⟨c', hc'⟩ := hk
    obtain ⟨c, hc, same⟩ := keeps.find?_cls hc'
    obtain rfl : c'.id = k := ok'.original.id_eq hc'
    have hid : c.id = c'.id := (congrArg ClassDefinition.id same :)
    rw [if_pos (by simp [hc'])]
    by_cases tracked' : F'.IsTracked x
    · have tracked : F.IsTracked x := (keeps.isTracked_iff hx).1 tracked'
      have dependencies : c.dependencies = c'.dependencies := by
        obtain ⟨arguments, fields, -⟩ := (ok.describes hc).2.found_eq (ok'.describes hc').2 same
        rw [ClassDefinition.dependencies, arguments, fields]
        rfl
      have scope : c.scope = c'.scope := (congrArg ClassDefinition.scope same :)
      have passes : passing F' c' x c'.dependencies = passing F c x c.dependencies := by
        rw [dependencies, passing, passing]
        refine List.countP_congr fun j _ => ?_
        simp only [decide_eq_true_eq, formed.mem_chain_iff, formed'.mem_chain_iff, hx,
          keeps.contains hx]
      rw [← hid] at hc
      have counted := ok.referrer?_eq_passing direct.keepsBranches hc tracked
      rw [ok'.referrer?_eq_passing direct.keepsBranches hc' tracked', passes, ← hid, counted, scope]
    · have untracked : ¬F.IsTracked x := fun h => tracked' ((keeps.isTracked_iff hx).2 h)
      rw [Graph.referrer?_of_not_isTracked tracked', Graph.referrer?_of_not_isTracked untracked]
  · have notClass : ∀ c', F'.find? k ≠ some (.cls c') := fun c' hc' => hk ⟨c', hc'⟩
    rw [direct.referrer?_eq_none declared' ok' notClass]
    split
    · next hk' =>
      obtain ⟨d', hd'⟩ := Option.isSome_iff_exists.1 hk'
      rw [direct.referrer?_eq_none declared ok fun c hc => ?_]
      obtain ⟨c', rfl, -⟩ := keeps.exists_cls (g := F') hd' hc
      exact notClass c' hd'
    · rfl

/-- A resolved graph is settled by which identifiers it defines. -/
theorem IsDirect.definitions_eq (keeps : F'.Keeps F) (all : ∀ k, F.contains k → F'.contains k) :
    F'.definitions = F.definitions := by
  have referrer?_eq : ∀ {x j}, F'.contains x → F'.referrer? x j = F.referrer? x j := by
    intro x j hx
    rw [direct.referrer?_eq declared declared' ok ok' keeps hx]
    split
    · rfl
    · next hj =>
      have hx : F.contains x := keeps.contains hx
      rw [direct.referrer?_eq declared declared ok ok (.refl F) hx, if_neg fun h => hj (all j h)]
  apply Table.ext_find?
  intro k
  cases hd' : F'.find? k with
  | none =>
    have hd : F.find? k = none := by
      by_contra hd
      have := all k (Option.isSome_iff_ne_none.2 hd)
      simp [hd'] at this
    exact hd'.trans hd.symm
  | some d' =>
    obtain ⟨d, hd, shape⟩ := keeps.exists_find? hd'
    have referrers := Graph.referrers?_eq hd' hd shape.symm fun j => referrer?_eq (by simp [hd'])
    have same : d' = d.mapReferrers fun r => r :=
      ok'.eq_mapReferrers ok hd' hd shape.symm (by simpa using referrers)
    rw [Definition.mapReferrers_self] at same
    rw [← same] at hd
    exact hd'.trans hd.symm

end Part

/-- What a resolution of a direct wiring comes to is no matter of the order in which identifiers are
asked for. -/
theorem IsDirect.exists_yields_of_mem_iff (direct : w.IsDirect placed)
    (declared : ∀ r ∈ roots, w.entries.contains r) (ok : w.Yields roots F)
    (same : ∀ r, r ∈ roots' ↔ r ∈ roots) :
    ∃ F', w.Yields roots' F' ∧ F'.definitions = F.definitions := by
  have declared' : ∀ r ∈ roots', w.entries.contains r := fun r hr => declared r ((same r).1 hr)
  obtain ⟨F', ok', keeps⟩ := direct.exists_yields declared ok
    (fun r hr => (ok.settled_root ((same r).1 hr)).1) declared'
  refine ⟨F', ok', direct.definitions_eq declared declared' ok ok' keeps fun k hk => ?_⟩
  have back : F.Keeps F' := direct.keeps_of_sound declared' ok'
    (fun r hr => (ok'.settled_root ((same r).2 hr)).1)
    (direct.sound_of_visits declared ok ok.visits)
  exact back.contains hk

end Wiring

end Injector
