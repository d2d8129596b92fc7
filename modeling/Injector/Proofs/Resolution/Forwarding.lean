import Injector.Proofs.Resolution.Invariant

/-!
# When chains are complete

A class asks for a dependency before the reference is counted, so what is counted is defined. What it
forwards to is defined as well, or is the very next thing that is asked for, unless a context names a
class that a hint of its own takes elsewhere: then other classes come first, and a reference that is
counted on the way finds the chain cut short.
-/

namespace Injector.Wiring

variable {w : Wiring} {roots : List Identifier} {F : Graph} {x : Identifier}

/-! ### Counts are prepared -/

/-- Each count on an agenda is for something that is there, or that is asked for before. -/
def Prepared (there : Identifier → Prop) : List Task → Prop
  | [] => True
  | .request j _ _ :: ts => Prepared (fun k => there k ∨ k = j) ts
  | .count j _ _ :: ts => there j ∧ Prepared there ts
  | _ :: ts => Prepared there ts

lemma Prepared.mono {there there' : Identifier → Prop} {ts : List Task} (h : Prepared there ts)
    (sub : ∀ k, there k → there' k) : Prepared there' ts := by
  induction ts generalizing there there' with
  | nil => trivial
  | cons t ts ih =>
    cases t with
    | request j => exact ih h fun k => .imp_left (sub k)
    | count j => exact ⟨sub j h.1, ih h.2 sub⟩
    | check | discoverFields | complete | fail => exact ih h sub

lemma Prepared.append {there : Identifier → Prop} {ts us : List Task} (h : Prepared there ts)
    (h' : Prepared there us) : Prepared there (ts ++ us) := by
  induction ts generalizing there with
  | nil => exact h'
  | cons t ts ih =>
    cases t with
    | request j => exact ih h (h'.mono fun k => .inl)
    | count j => exact ⟨h.1, ih h.2 h'⟩
    | check | discoverFields | complete | fail => exact ih h h'

/-- Without counts there is nothing to prepare. -/
lemma Prepared.of_no_count {there : Identifier → Prop} {ts : List Task}
    (h : ∀ j k s, .count j k s ∉ ts) : Prepared there ts := by
  induction ts generalizing there with
  | nil => trivial
  | cons t ts ih =>
    have rest : ∀ j k s, .count j k s ∉ ts := fun j k s hm => h j k s (List.mem_cons_of_mem t hm)
    cases t with
    | count j k s => exact absurd List.mem_cons_self (h j k s)
    | request | check | discoverFields | complete | fail => exact ih rest

lemma Prepared.requests {there : Identifier → Prop} {ks : List Identifier}
    {consumer : Option Identifier} {placed : Bool} {ts : List Task}
    (h : Prepared (fun k => there k ∨ k ∈ ks) ts) :
    Prepared there (ks.map (fun k => .request k consumer placed) ++ ts) := by
  induction ks generalizing there with
  | nil => simpa using h
  | cons j ks ih => exact ih (h.mono fun k hk => by simpa [or_assoc] using hk)

lemma prepared_dependencyTasks (there : Identifier → Prop) (c : ClassDefinition) (placed : Bool)
    (js : List Identifier) : Prepared there (dependencyTasks c placed js) := by
  induction js generalizing there with
  | nil => trivial
  | cons j js ih => exact ⟨.inr rfl, ih _⟩

lemma prepared_directTasks {there : Identifier → Prop} {id : Identifier}
    {consumer : Option Identifier} {d : Definition} (plain : d.IsPlain)
    (h : ∀ k ∈ d.namedDependencies, there k) : Prepared there (directTasks id consumer d) := by
  simp only [directTasks]
  split
  · next target ht => exact ⟨h target (plain.mem_namedDependencies ht), trivial⟩
  · trivial

/-- A request gets its identifier a definition. -/
lemma Step.contains_of_request {g g' : Graph} {k : Identifier} {consumer : Option Identifier}
    {placed : Bool} {next : List Task} (h : w.Step g (.request k consumer placed) g' next) :
    g'.contains k := by
  have keeps := h.keeps
  cases h with
  | @own _ _ _ c _ _ new =>
    have hid : (Definition.cls c).id = k := new.id_eq
    rw [Graph.contains_eq, Graph.find?_insertIfAbsent, if_pos hid.symm]
    rfl
  | bind absent expansion =>
    rw [Graph.contains_eq, expansion.find?_first absent]
    rfl
  | discover found present => exact keeps.contains (by simp [present])
  | known present | bound present => simp [present]

lemma Step.prepared {g g' : Graph} {t : Task} {rest next : List Task} (h : w.Step g t g' next)
    (p : Prepared (fun k => g.contains k) (t :: rest)) :
    Prepared (fun k => g'.contains k) (next ++ rest) := by
  have keeps := h.keeps
  have later : Prepared (fun k => g'.contains k) rest := by
    cases t with
    | request j =>
      have p : Prepared (fun k => g.contains k ∨ k = j) rest := p
      apply p.mono
      intro k hk
      rcases hk with hk | rfl
      · exact keeps.contains hk
      · exact h.contains_of_request
    | count j => exact p.2.mono fun k => keeps.contains
    | check | discoverFields | complete | fail => exact Prepared.mono p fun k => keeps.contains
  refine .append ?_ later
  cases h with
  | own _ _ rechecks =>
    apply Prepared.of_no_count
    intro j k s hm
    rcases List.mem_cons.1 hm with hm | hm
    · cases hm
    · cases rechecks _ hm
  | bind absent expansion =>
    rw [List.append_assoc]
    refine .requests (.append (prepared_directTasks expansion.first.plain fun k hk => ?_) trivial)
    exact .inr (List.mem_append_right _ (Definition.mem_dependencies.2 hk))
  | discover | discoverFields => exact .append (prepared_dependencyTasks _ _ _ _) trivial
  | bound | known | check | count | complete => trivial

/-- What is counted is defined. -/
lemma Yields.contains_of_count (ok : w.Yields roots F) {h : Graph} {rest : List Task}
    {j k : Identifier} {s : Bool} (v : w.Visits roots h (.count j k s :: rest)) :
    h.contains j := by
  have prepared : Prepared (fun k => h.contains k) (.count j k s :: rest) := by
    refine Leads.invariant ok (P := fun h us => Prepared (fun k => h.contains k) us) ?_
      (fun _ _ p step => step.prepared p) v
    apply Prepared.of_no_count
    intro j k s hm
    obtain ⟨r, -, hr⟩ := List.mem_map.1 hm
    cases hr
  exact prepared.1

/-! ### Forwarding stays within what is defined -/

/-- The classes that a context names are its own: no hint takes one of them elsewhere. -/
def KeepsBranches (w : Wiring) : Prop :=
  ∀ k t, w.hints.exact.find? k = some (.perConsumer t) → ∀ cls ∈ t.classes, w.hints.leavesAlone cls

/-- Where a definition forwards to is defined, or is asked for next. -/
def ForwardsNext (g : Graph) (ts : List Task) : Prop :=
  ∀ consumer a b, g.Forwards consumer a b →
    g.contains b ∨ ∃ asker placed rest, ts = .request b asker placed :: rest

/-- An identifier that is expanded forwards to a class of its own expansion, or else to the only
thing that it asks for. -/
lemma Expansion.forwardsNext (kept : w.KeepsBranches) {g : Graph} {id : Identifier}
    {d : Definition} {rest : List (Identifier × Definition)} (h : w.Expansion id d rest)
    {others : List Identifier}
    (fresh : ∀ k, k ∈ others ↔ k ≠ id ∧ g.find? k = none ∧ ∃ d', (k, d') ∈ rest)
    {consumer b : Identifier} (forward : d.forward? consumer = some b) :
    (∃ d', (b, d') ∈ rest) ∨ others ++ d.dependencies = [b] := by
  have named : b ∈ d.namedDependencies := h.first.plain.mem_namedDependencies forward
  by_cases own : ∃ d', (b, d') ∈ rest
  · exact .inl own
  have elsewhere : w.hints.leavesAlone b ≠ true := by
    intro alone
    obtain ⟨e, he, rfl⟩ := h.complete b named alone
    exact own ⟨e.2, he⟩
  cases d with
  | «alias» a =>
    have ha : a.isContainer = false := by
      cases h.first.plain with
      | forwarding ha => exact ha
    obtain rfl : a.target = b := by simpa [Definition.forward?, Definition.aliasTarget?, ha] using forward
    have none : others = [] := by
      apply List.eq_nil_iff_forall_not_mem.2
      intro k hk
      obtain ⟨-, -, d', hd'⟩ := (fresh k).1 hk
      have hn : k ∈ (Definition.alias a).namedDependencies := h.named _ hd'
      obtain rfl : k = a.target := by simpa [Definition.namedDependencies, ha] using hn
      exact own ⟨d', hd'⟩
    right
    simp only [none, Definition.dependencies, Definition.namedDependencies, ha, List.nil_append,
      Bool.false_eq_true, if_false]
    rfl
  | perConsumer id' scope entryPoint default branches =>
    obtain ⟨t, ht, classes⟩ := h.context _ _ _ _ _ rfl
    exact absurd (kept id t ht b (classes b named)) elsewhere
  | cls | container | autoloaded => cases forward

/-- A step that makes a definition asks next for what that forwards to, unless it makes that, too. -/
lemma Makes.forwardsNext (kept : w.KeepsBranches) {g g' : Graph} {t : Task} {rest next : List Task}
    {k consumer b : Identifier} {d : Definition} (h : w.Makes g k d t g' next)
    (forward : d.forward? consumer = some b) :
    g'.contains b ∨ ∃ asker placed later, next ++ rest = .request b asker placed :: later := by
  cases h with
  | own eq =>
    subst eq
    cases forward
  | first expansion _ fresh =>
    rcases expansion.forwardsNext kept fresh forward with ⟨d', own⟩ | asked
    · left
      rw [Graph.contains_eq, Graph.find?_insertAll g expansion.keyed, Option.isSome_or,
        List.lookup_isSome_iff.2 ⟨_, List.mem_cons_of_mem _ own, beq_self_eq_true b⟩, Bool.or_true]
    · right
      rw [asked]
      exact ⟨_, _, _, rfl⟩
  | other _ expansion _ hd =>
    obtain ⟨c, rfl⟩ := expansion.classes _ hd
    cases forward

lemma Step.forwardsNext (kept : w.KeepsBranches) {g g' : Graph} {t : Task}
    {rest next : List Task} (h : w.Step g t g' next) (f : ForwardsNext g (t :: rest)) :
    ForwardsNext g' (next ++ rest) := by
  intro consumer a b hab
  by_cases ha : g.contains a
  · left
    have hab : g.Forwards consumer a b := (h.keeps.forward?_eq ha).symm.trans hab
    rcases f consumer a b hab with hb | ⟨asker, placed, rest', eq⟩
    · exact h.keeps.contains hb
    · cases eq
      exact h.contains_of_request
  · obtain ⟨d, hd, forward⟩ := Option.bind_eq_some_iff.1 hab
    have absent : g.find? a = none := by simpa using ha
    exact (h.makes absent hd).forwardsNext kept forward

lemma forwardsNext_start (w : Wiring) (roots : List Identifier) (ts : List Task) :
    ForwardsNext (w.start roots) ts := by
  intro consumer a b hab
  obtain ⟨d, hd, forward⟩ := Option.bind_eq_some_iff.1 hab
  rw [find?_start, find?_seed] at hd
  split at hd
  · cases hd
    cases forward
  · split at hd
    · cases hd
      simp [Definition.forward?, Definition.aliasTarget?] at forward
    · cases hd

/-- If contexts keep their branches, a chain is complete when it is counted. -/
theorem Yields.mem_chain_of_keepsBranches (ok : w.Yields roots F) (kept : w.KeepsBranches)
    {h : Graph} {rest : List Task} {j k : Identifier} {s : Bool}
    (v : w.Visits roots h (.count j k s :: rest)) (hx : x ∈ F.chain k j) : x ∈ h.chain k j := by
  have forwards := Leads.invariant ok (P := ForwardsNext) (forwardsNext_start w roots _)
    (fun _ _ f step => step.forwardsNext kept f) v
  obtain ⟨-, path⟩ := Graph.mem_chain_iff.1 hx
  clear hx
  -- the way from a defined identifier never leaves what is defined
  have reach : h.contains x ∧ Relation.ReflTransGen (h.Forwards k) j x := by
    induction path with
    | refl => exact ⟨ok.contains_of_count v, .refl⟩
    | @tail a b _ step ih =>
      obtain ⟨ha, path⟩ := ih
      have hab : h.Forwards k a b := ((ok.keeps v).forward?_eq ha).symm.trans step
      rcases forwards k a b hab with hb | ⟨_, _, _, eq⟩
      · exact ⟨hb, path.tail hab⟩
      · cases eq
  exact Graph.mem_chain_iff.2 reach

end Injector.Wiring
