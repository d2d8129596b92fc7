import Injector.Proofs.Resolution.Forwarding
import Injector.Proofs.Resolution.Outcome
import Mathlib.Algebra.GroupWithZero.Nat

/-!
# Counting references

Each time that a class asks for a dependency, resolution counts a reference on all that the request
goes through. At the time of counting a graph is not complete, so a chain may be cut short. What is
recorded in the end and what is still owed are balanced here: a class has as many references as its
members have chains, unless something on a chain was not defined yet when it was counted.
-/

namespace Injector

/-! ### Consumers -/

@[simp] lemma Referrers.find?_increase (r : Referrers) (k consumer : Identifier)
    (singleton : Bool) :
    (r.increase consumer singleton).find? k =
      if k = consumer then
        some ⟨((r.find? consumer).elim 0 (·.count)) + 1,
          ((r.find? consumer).elim false (·.singleton)) || singleton⟩
      else r.find? k := by
  cases h : r.find? consumer <;> simp [increase, h]

namespace Definition

lemma referrers?_addReferrer (consumer : Identifier) (singleton : Bool) (d : Definition) :
    (d.addReferrer consumer singleton).referrers? =
      d.referrers?.map (·.increase consumer singleton) := by
  induction d using Definition.id.induct <;> simp_all [addReferrer, referrers?]

lemma referrers?_completed (found : ClassDefinition) (d : Definition) :
    (d.completed found).referrers? = d.referrers? := by
  cases d <;> rfl

/-- Whether a definition keeps its consumers is settled when it is made. -/
lemma isSome_referrers?_shape (d : Definition) :
    d.shape.referrers?.isSome = d.referrers?.isSome := by
  induction d using Definition.id.induct <;> simp_all [shape, referrers?]

end Definition

namespace Graph

/-- How a consumer refers to an identifier, as far as that was counted. -/
def referrer? (g : Graph) (x consumer : Identifier) : Option Referrer :=
  ((g.find? x).bind Definition.referrers?).bind (·.find? consumer)

/-- Whether the consumers of an identifier are kept. -/
def IsTracked (g : Graph) (x : Identifier) : Prop :=
  ((g.find? x).bind Definition.referrers?).isSome

instance (g : Graph) (x : Identifier) : Decidable (g.IsTracked x) :=
  inferInstanceAs (Decidable (_ = true))

lemma Keeps.isTracked_iff {g g' : Graph} (keeps : g.Keeps g') {x : Identifier}
    (hx : g.contains x) : g.IsTracked x ↔ g'.IsTracked x := by
  obtain ⟨d, hd⟩ := Option.isSome_iff_exists.1 hx
  obtain ⟨d', hd', shape⟩ := keeps.exists_find? (g := g) hd
  simp only [IsTracked]
  rw [show g.find? x = some d from hd, hd', Option.bind_some, Option.bind_some,
    ← Definition.isSome_referrers?_shape, ← shape, Definition.isSome_referrers?_shape]

lemma referrer?_of_not_isTracked {g : Graph} {x : Identifier} (h : ¬g.IsTracked x)
    (consumer : Identifier) : g.referrer? x consumer = none := by
  have none : (g.find? x).bind Definition.referrers? = none := by simpa [IsTracked] using h
  rw [referrer?, none, Option.bind_none]

/-- Definitions made alike have the same consumers if each consumer refers to them alike. -/
lemma referrers?_eq {g g' : Graph} {x : Identifier} {d d' : Definition} (hd : g.find? x = some d)
    (hd' : g'.find? x = some d') (shape : d.shape = d'.shape)
    (same : ∀ consumer, g.referrer? x consumer = g'.referrer? x consumer) :
    d.referrers? = d'.referrers? := by
  have kept : d.referrers?.isSome = d'.referrers?.isSome := by
    rw [← Definition.isSome_referrers?_shape, shape, Definition.isSome_referrers?_shape]
  simp only [referrer?, hd, hd', Option.bind_some] at same
  cases hr : d.referrers? with
  | none =>
    cases hr' : d'.referrers? with
    | none => rfl
    | some r' => simp [hr, hr'] at kept
  | some r =>
    cases hr' : d'.referrers? with
    | none => simp [hr, hr'] at kept
    | some r' =>
      simp only [hr, hr', Option.bind_some] at same
      rw [Table.ext_find? same]

/-- A reference is counted for its consumer on all that its chain goes through. -/
lemma referrer?_recordReference {g F : Graph} (keeps : g.Keeps F) {x : Identifier}
    (tracked : F.IsTracked x) (consumer : Identifier) (singleton : Bool) (k k' : Identifier) :
    (g.recordReference consumer singleton k).referrer? x k' =
      if x ∈ g.chain consumer k ∧ k' = consumer then
        some ⟨((g.referrer? x k').elim 0 (·.count)) + 1,
          ((g.referrer? x k').elim false (·.singleton)) || singleton⟩
      else g.referrer? x k' := by
  by_cases hx : x ∈ g.chain consumer k
  · obtain ⟨r, hr⟩ := Option.isSome_iff_exists.1
      ((keeps.isTracked_iff (mem_chain_iff.1 hx).1).2 tracked)
    obtain ⟨d, hd, hr⟩ := Option.bind_eq_some_iff.1 hr
    simp only [referrer?, find?_recordReference, hd]
    by_cases hk : k' = consumer
    · simp [hx, hk, hr, Definition.referrers?_addReferrer]
    · simp [hx, hk, hr, Definition.referrers?_addReferrer]
  · simp [referrer?, find?_recordReference, hx]

/-- A reference that is counted for a consumer is no matter of another one. -/
lemma referrer?_recordReference_of_ne {g : Graph} {x k k' : Identifier} (hk : k' ≠ k) (s : Bool)
    (j : Identifier) : (g.recordReference k s j).referrer? x k' = g.referrer? x k' := by
  simp only [referrer?, find?_recordReference]
  split
  · cases g.find? x with
    | none => rfl
    | some d =>
      rw [Option.map_some, Option.bind_some, Option.bind_some, Definition.referrers?_addReferrer]
      cases d.referrers? with
      | none => rfl
      | some r => simp [hk]
  · rfl

end Graph

namespace Wiring

variable {w : Wiring} {roots : List Identifier}

lemma Newborn.referrers? {k : Identifier} {d : Definition} (h : w.Newborn k d) {r : Referrers}
    (hr : d.referrers? = some r) : r = .empty := by
  have plain := h.plain
  have shape := h.shape_eq
  cases plain with
  | cls c =>
    cases hr
    exact (congrArg ClassDefinition.referrers h.shape_cls :).symm
  | @forwarding a =>
    cases hr
    have : { a with referrers := .empty } = a := by simpa [Definition.shape] using shape
    exact (congrArg Alias.referrers this :).symm
  | branching => cases hr

/-- Only counting changes what is counted. -/
lemma Step.referrer?_eq {g g' : Graph} {t : Task} {next : List Task} (h : w.Step g t g' next)
    (o : w.Original g) (notCount : ∀ j k s, t ≠ .count j k s) (x consumer : Identifier) :
    g'.referrer? x consumer = g.referrer? x consumer := by
  simp only [Graph.referrer?]
  cases hd' : g'.find? x with
  | none =>
    have hd : g.find? x = none := by
      by_contra hd
      obtain ⟨d, hd⟩ := Option.ne_none_iff_exists'.1 hd
      obtain ⟨d', hd'', -⟩ := h.keeps.exists_find? hd
      cases hd'.symm.trans hd''
    rw [hd]
  | some d' =>
    rcases h.find?_cases o hd' with ⟨hd, new⟩ | ⟨d, hd, altered⟩
    · rw [hd, Option.bind_some, Option.bind_none, Option.bind_none]
      cases hr : d'.referrers? with
      | none => rfl
      | some r => rw [new.referrers? hr]; rfl
    · rw [hd]
      cases altered with
      | kept => rfl
      | begun _ _ eq => subst eq; rfl
      | counted count => exact absurd count (notCount _ _ _)
      | completed => rw [Option.bind_some, Option.bind_some, Definition.referrers?_completed]

/-! ### The balance -/

section Balance

variable (F : Graph) (c : ClassDefinition) (x : Identifier)

/-- How many of some dependencies of a class have an identifier on their final chain. -/
def passing (js : List Identifier) : Nat := js.countP fun j => x ∈ F.chain c.id j

/-- How many references of a class a task will count if no chain is cut short. -/
def owed : Task → Nat
  | .count j k _ => if k = c.id ∧ x ∈ F.chain c.id j then 1 else 0
  | .discoverFields c' _ => if c'.id = c.id then passing F c x c.fieldDependencies else 0
  | _ => 0

/-- How many references will come of a class whose discovery has not begun. -/
def undiscovered (g : Graph) : Nat :=
  match g.find? c.id with
  | some (.cls c') => if c'.progress = .pending then passing F c x c.dependencies else 0
  | _ => passing F c x c.dependencies

/-- How many references of a class to an identifier were counted. -/
def recorded (g : Graph) : Nat := (g.referrer? x c.id).elim 0 (·.count)

/-- Whether a task counts a reference of a class while the final chain is not there yet. -/
def missed (g : Graph) : Task → Nat
  | .count j k _ => if k = c.id ∧ x ∈ F.chain c.id j ∧ x ∉ g.chain c.id j then 1 else 0
  | _ => 0

/-- The references that were counted, those that tasks will count, and those of a class whose
discovery has not begun. -/
def balance (g : Graph) (ts : List Task) : Nat :=
  recorded c x g + (ts.map (owed F c x)).sum + undiscovered F c x g

end Balance

variable {F : Graph} {c : ClassDefinition} {x : Identifier}

lemma passing_dependencies :
    passing F c x c.dependencies =
      passing F c x c.argumentDependencies + passing F c x c.fieldDependencies := by
  rw [c.dependencies_eq]
  exact List.countP_append

lemma sum_owed_dependencyTasks (c' : ClassDefinition) (placed : Bool) (js : List Identifier) :
    ((dependencyTasks c' placed js).map (owed F c x)).sum =
      if c'.id = c.id then passing F c x js else 0 := by
  induction js with
  | nil => simp [dependencyTasks, passing]
  | cons j js ih =>
    have head : dependencyTasks c' placed (j :: js) =
        .request j (some c'.id) placed :: .count j c'.id c'.scope.isSingleton ::
          dependencyTasks c' placed js := rfl
    rw [head, List.map_cons, List.map_cons, List.sum_cons, List.sum_cons, ih]
    by_cases hc : c'.id = c.id
    · by_cases hx : x ∈ F.chain c.id j <;> simp [owed, passing, hc, hx]; omega
    · simp [owed, hc]

lemma sum_owed_eq_zero {ts : List Task} (h : ∀ t ∈ ts, owed F c x t = 0) :
    (ts.map (owed F c x)).sum = 0 := by
  apply List.sum_eq_zero_iff_forall_eq_nat.2
  intro n hn
  obtain ⟨t, ht, rfl⟩ := List.mem_map.1 hn
  exact h t ht

lemma undiscovered_of_begun {g : Graph} {c' : ClassDefinition}
    (h : g.find? c.id = some (.cls c')) (begun : c'.progress ≠ .pending) :
    undiscovered F c x g = 0 := by
  simp [undiscovered, h, begun]

lemma undiscovered_of_pending {g : Graph} {c' : ClassDefinition}
    (h : g.find? c.id = some (.cls c')) (pending : c'.progress = .pending) :
    undiscovered F c x g = passing F c x c.dependencies := by
  simp [undiscovered, h, pending]

lemma undiscovered_of_absent {g : Graph} (h : g.find? c.id = none) :
    undiscovered F c x g = passing F c x c.dependencies := by
  simp [undiscovered, h]

/-- The arguments of a class are settled by its shape. -/
lemma DescribesArguments.arguments_eq {a b : ClassDefinition} (ha : w.DescribesArguments a)
    (hb : w.DescribesArguments b) (same : a.shape = b.shape) : a.arguments = b.arguments := by
  have hid : a.id = b.id := (congrArg ClassDefinition.id same :)
  have ho : a.overriddenParameters = b.overriddenParameters :=
    (congrArg ClassDefinition.overriddenParameters same :)
  obtain ⟨-, ps, hp, ha⟩ := ha
  obtain ⟨-, qs, hq, hb⟩ := hb
  cases (hid ▸ hp).symm.trans hq
  rw [ha, hb, ho]

lemma consumer_of_mem_directTasks {id j k : Identifier} {consumer : Option Identifier}
    {d : Definition} {s : Bool} (h : .count j k s ∈ directTasks id consumer d) : k = id := by
  simp only [directTasks] at h
  split at h
  · exact (Task.count.inj (List.mem_singleton.1 h)).2.1
  · cases h

lemma owed_directTasks {id : Identifier} {consumer : Option Identifier} {d : Definition}
    (hid : id ≠ c.id) {t : Task} (ht : t ∈ directTasks id consumer d) : owed F c x t = 0 := by
  cases t with
  | count j k s => simp [owed, consumer_of_mem_directTasks ht, hid]
  | discoverFields => cases class?_of_mem_directTasks ht
  | request | check | complete | fail => rfl

/-- What a hint expands into something else than a class never becomes one. -/
lemma Expansion.id_ne {g : Graph} {id : Identifier} {d : Definition}
    {rest : List (Identifier × Definition)} (h : w.Expansion id d rest)
    (absent : g.find? id = none) (notClass : ∀ c, d ≠ .cls c)
    (keeps : (g.insertAll ((id, d) :: rest)).1.Keeps F) (hc : F.find? c.id = some (.cls c)) :
    id ≠ c.id := by
  rintro rfl
  obtain ⟨c', rfl, -⟩ := keeps.exists_cls (h.find?_first absent) hc
  exact notClass c' rfl

/-- References stay undiscovered until the discovery of their class begins. -/
lemma Step.undiscovered_eq {g g' : Graph} {t : Task} {rest next : List Task}
    (h : w.Step g t g' next) (o : w.Original g) (u : w.Underway g (t :: rest))
    (keeps : g'.Keeps F) (hc : F.find? c.id = some (.cls c))
    (waits : ∀ consumer placed c₀, t = .request c.id consumer placed →
      g.find? c.id = some (.cls c₀) → c₀.progress ≠ .pending) :
    undiscovered F c x g' = undiscovered F c x g := by
  cases hd' : g'.find? c.id with
  | none =>
    cases hd : g.find? c.id with
    | none => rw [undiscovered_of_absent hd, undiscovered_of_absent hd']
    | some d =>
      obtain ⟨d', hd'', -⟩ := h.keeps.exists_find? hd
      cases hd'.symm.trans hd''
  | some d' =>
    obtain ⟨c', rfl, -⟩ := keeps.exists_cls hd' hc
    rcases h.find?_cases o hd' with ⟨hd, new⟩ | ⟨d, hd, altered⟩
    · have pending : c'.progress = .pending := by
        rw [← new.shape_cls]
        rfl
      rw [undiscovered_of_absent hd, undiscovered_of_pending hd' pending]
    · obtain ⟨c₀, rfl, -⟩ := h.keeps.exists_cls hd hd'
      cases altered with
      | kept | counted => simp only [undiscovered, hd, hd']
      | begun discover pending eq =>
        cases eq
        exact absurd pending (waits _ _ _ discover hd)
      | @completed found complete hid =>
        subst complete
        obtain ⟨⟨c₂, hc₂, -, begun⟩, -⟩ := u.completing _ List.mem_cons_self found rfl
        rw [hid] at hc₂
        rw [undiscovered_of_begun hc₂ begun, undiscovered_of_begun hd' (by simp)]

/-- When the discovery of a class begins, all its references are owed: for its arguments there are
tasks, and its fields are still to be found out. -/
lemma sum_owed_discovered {c₁ found : ClassDefinition} (placed : Bool)
    (same : found.shape = c₁.shape) (arguments : w.DescribesArguments found)
    (fieldless : found.fields = []) (described : w.Describes c)
    (shape : c₁.id = c.id → c.shape = c₁.shape) :
    ((dependencyTasks c₁ placed found.dependencies ++ [Task.discoverFields found placed]).map
      (owed F c x)).sum = if c₁.id = c.id then passing F c x c.dependencies else 0 := by
  have hfound : found.id = c₁.id := (congrArg ClassDefinition.id same :)
  rw [List.map_append, List.sum_append, sum_owed_dependencyTasks]
  by_cases hk : c₁.id = c.id
  · have args := arguments.arguments_eq described.toDescribesArguments
      (same.trans (shape hk).symm)
    have dependencies : found.dependencies = c.argumentDependencies := by
      rw [found.dependencies_eq, ClassDefinition.fieldDependencies, fieldless,
        ClassDefinition.argumentDependencies, args]
      exact List.append_nil _
    rw [if_pos hk, if_pos hk, dependencies, passing_dependencies]
    simp [owed, hfound, hk]
  · simp [owed, hfound, hk]

/-- When the fields of a class are found out, there are tasks for what was owed. -/
lemma sum_owed_fields {c₁ : ClassDefinition} (placed : Bool) {fs : List Field}
    (answer : w.fieldsOf c₁.id = .ok fs) (described : w.Describes c)
    (shape : c₁.id = c.id → c.shape = c₁.shape) (last : ClassDefinition) :
    ((dependencyTasks c₁ placed
        ((injectedFields c₁.overriddenFields fs).filterMap fun f => f.source.dependency?)
        ++ [Task.complete last]).map (owed F c x)).sum = owed F c x (.discoverFields c₁ placed) := by
  rw [List.map_append, List.sum_append, sum_owed_dependencyTasks]
  by_cases hk : c₁.id = c.id
  · have overrides : c.overriddenFields = c₁.overriddenFields :=
      (congrArg ClassDefinition.overriddenFields (shape hk) :)
    obtain ⟨-, fs', answer', fields⟩ := described
    rw [hk] at answer
    cases answer.symm.trans answer'
    have passing_fields : passing F c x c.fieldDependencies = passing F c x
        ((injectedFields c₁.overriddenFields fs).filterMap (·.source.dependency?)) := by
      rw [ClassDefinition.fieldDependencies, fields, overrides]
    simp [owed, hk, passing_fields]
  · simp [owed, hk]

/-- Undiscovered references turn into owed ones; apart from counting, nothing else changes. -/
lemma Step.owed_eq {g g' : Graph} {t : Task} {rest next : List Task} (h : w.Step g t g' next)
    (o : w.Original g) (u : w.Underway g (t :: rest)) (keeps : g'.Keeps F)
    (hc : F.find? c.id = some (.cls c)) (described : w.Describes c)
    (notCount : ∀ j k s, t ≠ .count j k s) :
    (next.map (owed F c x)).sum + undiscovered F c x g' =
      owed F c x t + undiscovered F c x g := by
  have waits := h.undiscovered_eq (x := x) o u keeps hc
  have keepsF : g.Keeps F := h.keeps.trans keeps
  cases h with
  | own absent new rechecks =>
    rw [waits fun _ _ _ eq hd => by cases eq; simp [absent] at hd]
    rw [sum_owed_eq_zero]
    · rfl
    · intro t ht
      rcases List.mem_cons.1 ht with rfl | ht
      · rfl
      · rw [rechecks t ht]
        rfl
  | @bind id _ _ d rest' others absent expansion notClass fresh =>
    rw [waits fun _ _ _ eq hd => by cases eq; simp [absent] at hd]
    have hid := expansion.id_ne absent notClass keeps hc
    rw [sum_owed_eq_zero]
    · rfl
    · intro t ht
      simp only [List.mem_append, List.mem_singleton] at ht
      rcases ht with (ht | ht) | rfl
      · obtain ⟨k, -, rfl⟩ := List.mem_map.1 ht
        rfl
      · exact owed_directTasks hid ht
      · rfl
  | @discover id consumer placed c₁ found present pending same arguments fieldless =>
    have hid : c₁.id = id := o.id_eq present
    subst hid
    rw [sum_owed_discovered placed same arguments fieldless described fun hk =>
      keepsF.shape_eq (hk ▸ present) hc]
    by_cases hk : c₁.id = c.id
    · rw [hk] at present ⊢
      have begun : (g.adjust c.id Definition.begun).find? c.id =
          some (.cls { c₁ with progress := .inProgress }) := by
        rw [Graph.find?_adjust, if_pos rfl, present]
        rfl
      rw [undiscovered_of_begun begun (by simp), undiscovered_of_pending present pending, if_pos rfl]
      exact Nat.add_comm _ _
    · rw [if_neg hk, waits fun _ _ _ eq => absurd (Task.request.inj eq).1 hk]
      rfl
  | known | bound | check => simp [owed]
  | count j k s => exact absurd rfl (notCount j k s)
  | @discoverFields c₁ placed fs answer =>
    obtain ⟨⟨c', hc', shape, -⟩, -⟩ := u.completing _ List.mem_cons_self c₁ rfl
    rw [sum_owed_fields placed answer described fun hk =>
      (keepsF.shape_eq (hk ▸ hc') hc).trans shape]
  | complete c₁ =>
    rw [waits fun _ _ _ eq => by cases eq]
    rfl

lemma recorded_recordReference {g : Graph} (keeps : g.Keeps F) (tracked : F.IsTracked x)
    (j k : Identifier) (singleton : Bool) :
    recorded c x (g.recordReference k singleton j) =
      recorded c x g + if k = c.id ∧ x ∈ g.chain c.id j then 1 else 0 := by
  rw [recorded, Graph.referrer?_recordReference keeps tracked, recorded]
  by_cases hk : k = c.id
  · by_cases hc : x ∈ g.chain c.id j <;> simp [hk, hc]
  · simp [hk, Ne.symm hk]

/-- Only what is missed is lost. -/
lemma Step.balance_add_missed {g g' : Graph} {t : Task} {rest next : List Task}
    (h : w.Step g t g' next) (o : w.Original g) (u : w.Underway g (t :: rest))
    (keeps : g'.Keeps F) (hc : F.find? c.id = some (.cls c)) (described : w.Describes c)
    (tracked : F.IsTracked x) :
    balance F c x g' (next ++ rest) + missed F c x g t = balance F c x g (t :: rest) := by
  simp only [balance]
  rw [List.map_append, List.sum_append, List.map_cons, List.sum_cons]
  by_cases count : ∃ j k s, t = .count j k s
  · obtain ⟨j, k, s, rfl⟩ := count
    rw [h.undiscovered_eq o u keeps hc (by simp)]
    have keepsF : g.Keeps F := h.keeps.trans keeps
    cases h with
    | count =>
    rw [recorded_recordReference keepsF tracked]
    by_cases hk : k = c.id
    · by_cases hx : x ∈ g.chain c.id j
      · simp [owed, missed, hk, hx, keepsF.mem_chain hx]
        omega
      · by_cases hF : x ∈ F.chain c.id j
        · simp [owed, missed, hk, hx, hF]
          omega
        · simp [owed, missed, hk, hx, hF]
    · simp [owed, missed, hk]
  · have notCount : ∀ j k s, t ≠ .count j k s := fun j k s ht => count ⟨j, k, s, ht⟩
    have recorded_eq : recorded c x g' = recorded c x g := by
      rw [recorded, recorded, h.referrer?_eq o notCount]
    have none : missed F c x g t = 0 := by
      cases t with
      | count j k s => exact absurd rfl (notCount j k s)
      | _ => rfl
    have := h.owed_eq (x := x) o u keeps hc described notCount
    omega

/-! ### What is counted -/

/-- References of a class are counted with its scope. -/
lemma Step.singleton_eq {g g' : Graph} {t : Task} {rest next : List Task}
    (h : w.Step g t g' next) (o : w.Original g) (u : w.Underway g (t :: rest))
    (keeps : g'.Keeps F) (hc : F.find? c.id = some (.cls c)) {j : Identifier} {s : Bool}
    (hj : .count j c.id s ∈ next) : s = c.scope.isSingleton := by
  have keepsF : g.Keeps F := h.keeps.trans keeps
  have scope_eq : ∀ {c₁}, g.find? c.id = some (.cls c₁) → c₁.scope = c.scope := fun hc₁ =>
    (congrArg ClassDefinition.scope (keepsF.shape_eq hc₁ hc) :).symm
  generalize hk : c.id = k at hj
  cases h.brings hj with
  | direct absent made notClass =>
    obtain ⟨c', rfl, -⟩ := keeps.exists_cls made (hk ▸ hc)
    exact absurd rfl (notClass c')
  | @argumentCount id _ _ _ c₁ present =>
    have hid : c₁.id = id := o.id_eq present
    rw [← hid, ← hk] at present
    rw [scope_eq present]
  | @fieldCount c₁ =>
    obtain ⟨⟨c', hc', shape, -⟩, -⟩ := u.completing _ List.mem_cons_self c₁ rfl
    rw [← hk] at hc'
    rw [← scope_eq hc', show c'.scope = c₁.scope from (congrArg ClassDefinition.scope shape :)]

lemma referrer?_start (w : Wiring) (roots : List Identifier) (x consumer : Identifier) :
    (w.start roots).referrer? x consumer = none := by
  rw [Graph.referrer?, find?_start, find?_seed]
  split
  · rfl
  · split <;> rfl

lemma balance_start (w : Wiring) (roots : List Identifier) :
    balance F c x (w.start roots) (roots.map w.rootTask) = passing F c x c.dependencies := by
  have noClass : undiscovered F c x (w.start roots) = passing F c x c.dependencies := by
    simp only [undiscovered]
    split
    · next h => exact absurd h (find?_start_ne_cls w roots _ _)
    · rfl
  rw [balance, recorded, referrer?_start, noClass, sum_owed_eq_zero]
  · exact Nat.zero_add _
  · intro t ht
    obtain ⟨r, -, rfl⟩ := List.mem_map.1 ht
    rfl

section Yields

variable (ok : w.Yields roots F) (hc : F.find? c.id = some (.cls c)) (tracked : F.IsTracked x)
include ok hc tracked

lemma Yields.balance_add_missed {h h' : Graph} {t : Task} {rest next : List Task}
    (before : w.Visits roots h (t :: rest)) (after : w.Visits roots h' (next ++ rest))
    (step : w.Step h t h' next) :
    balance F c x h' (next ++ rest) + missed F c x h t = balance F c x h (t :: rest) :=
  step.balance_add_missed (original_of_visits ok before) (underway_of_visits ok before)
    (ok.keeps after) hc (ok.describes hc).2 tracked

/-- From any state on, no reference is counted that was not owed. -/
lemma Yields.recorded_le {h : Graph} {us : List Task} (v : w.Visits roots h us) :
    recorded c x F ≤ balance F c x h us := by
  -- the rest of the run is a run of its own, and its balance only falls
  have outcome : w.run h us = some (.ok F) := v.run_eq.trans ok
  have last : balance F c x F [] ≤ balance F c x h us := by
    refine Leads.invariant outcome (P := fun h' us' => balance F c x h' us' ≤ balance F c x h us)
      (Nat.le_refl _) (fun before after ih step => ?_) (leads_of_run outcome)
    have := ok.balance_add_missed hc tracked (v.trans before) (v.trans after) step
    omega
  simp only [balance] at last
  simp only [balance]
  omega

/-- As long as nothing was missed, the balance is what it was. -/
lemma Yields.balance_le {h : Graph} {us : List Task} (v : w.Visits roots h us) :
    balance F c x h us ≤ passing F c x c.dependencies := by
  refine Leads.invariant ok (P := fun h us => balance F c x h us ≤ passing F c x c.dependencies)
    (Nat.le_of_eq (balance_start w roots)) (fun before after ih step => ?_) v
  have := ok.balance_add_missed hc tracked before after step
  omega

/-- All references are counted exactly if none is missed. -/
lemma Yields.recorded_eq_iff :
    recorded c x F = passing F c x c.dependencies ↔
      ∀ h rest j s, w.Visits roots h (.count j c.id s :: rest) →
        x ∈ F.chain c.id j → x ∈ h.chain c.id j := by
  constructor
  · intro all h rest j s v hF
    by_contra hx
    obtain ⟨h', next, step, after⟩ := v.exists_step ok
    have lost := ok.balance_add_missed hc tracked v after step
    -- the balance starts at the number of members and never makes up for a loss
    have before := ok.balance_le hc tracked v
    have later := ok.recorded_le hc tracked after
    have one : missed F c x h (.count j c.id s) = 1 := by simp [missed, hF, hx]
    omega
  · intro none
    have last : balance F c x F [] = passing F c x c.dependencies := by
      refine Leads.invariant ok
        (P := fun h us => balance F c x h us = passing F c x c.dependencies)
        (balance_start w roots) (fun {h h' t rest next} before after ih step => ?_) ok.visits
      have kept := ok.balance_add_missed hc tracked before after step
      have zero : missed F c x h t = 0 := by
        cases t with
        | count j k s =>
          refine if_neg ?_
          rintro ⟨rfl, hF, hx⟩
          exact hx (none h rest j s before hF)
        | _ => rfl
      omega
    have resolved := undiscovered_of_begun (F := F) (x := x) hc
      (by rw [(ok.describes hc).1]; simp)
    rw [balance, resolved] at last
    simpa using last

/-- What was counted carries the scope of the class. -/
lemma Yields.labelled {r : Referrer} (hr : F.referrer? x c.id = some r) :
    0 < r.count ∧ r.singleton = c.scope.isSingleton := by
  have labels := Leads.invariant ok
    (P := fun h us => (∀ j s, .count j c.id s ∈ us → s = c.scope.isSingleton) ∧
      ∀ r, h.referrer? x c.id = some r → 0 < r.count ∧ r.singleton = c.scope.isSingleton)
    ⟨?_, ?_⟩ (fun {h h' t rest next} before after ih step => ⟨?_, ?_⟩) ok.visits
  · exact labels.2 r hr
  · intro j s hj
    obtain ⟨k, -, hk⟩ := List.mem_map.1 hj
    cases hk
  · intro r hr
    rw [referrer?_start] at hr
    cases hr
  · intro j s hj
    rcases List.mem_append.1 hj with hj | hj
    · exact step.singleton_eq (original_of_visits ok before) (underway_of_visits ok before)
        (ok.keeps after) hc hj
    · exact ih.1 j s (List.mem_cons_of_mem t hj)
  · intro r hr
    by_cases count : ∃ j k s, t = .count j k s
    · obtain ⟨j, k, s, rfl⟩ := count
      have hs := ih.1 j s
      cases step with
      | count =>
      rw [Graph.referrer?_recordReference (ok.keeps before) tracked] at hr
      split at hr
      · next hk =>
        obtain ⟨-, rfl⟩ := hk
        cases hr
        refine ⟨Nat.succ_pos _, ?_⟩
        have hs := hs List.mem_cons_self
        cases hold : h.referrer? x c.id with
        | none => simpa [hold] using hs
        | some old => simp [(ih.2 old hold).2, hs]
      · exact ih.2 r hr
    · have notCount : ∀ j k s, t ≠ .count j k s := fun j k s ht => count ⟨j, k, s, ht⟩
      rw [step.referrer?_eq (original_of_visits ok before) notCount] at hr
      exact ih.2 r hr

end Yields

end Wiring

/-! ### Counts and members -/

open Wiring

/-- How a class refers to an identifier, going by its members. -/
def Graph.expectedReferrer? (g : Graph) (c : ClassDefinition) (x : Identifier) : Option Referrer :=
  match c.dependencies.countP fun j => x ∈ g.unwrapped.chain c.id j with
  | 0 => none
  | n + 1 => some ⟨n + 1, c.scope.isSingleton⟩

variable {w : Wiring} {roots : List Identifier} {entry : Option Identifier} {g : Graph}

/-- What is recorded of a class agrees with its members if the number of references does. -/
lemma Wiring.Yields.referrer?_eq_iff (ok : w.Yields roots g) {c : ClassDefinition}
    (hc : g.find? c.id = some (.cls c)) {x : Identifier} (tracked : g.IsTracked x) :
    g.referrer? x c.id = (match passing g c x c.dependencies with
      | 0 => none
      | n + 1 => some ⟨n + 1, c.scope.isSingleton⟩) ↔
      recorded c x g = passing g c x c.dependencies := by
  have labelled := fun r => ok.labelled hc tracked (r := r)
  simp only [recorded]
  cases hr : g.referrer? x c.id with
  | none => cases passing g c x c.dependencies <;> simp
  | some r =>
    obtain ⟨positive, singleton⟩ := labelled r hr
    obtain ⟨count, single⟩ := r
    simp only at positive singleton
    cases passing g c x c.dependencies with
    | zero => simp; omega
    | succ n => simp [singleton]

/-- If contexts keep their branches, what is recorded of a class agrees with its members. -/
lemma Wiring.Yields.referrer?_eq_passing (ok : w.Yields roots g) (kept : w.KeepsBranches)
    {c : ClassDefinition} (hc : g.find? c.id = some (.cls c)) {x : Identifier}
    (tracked : g.IsTracked x) :
    g.referrer? x c.id = match passing g c x c.dependencies with
      | 0 => none
      | n + 1 => some ⟨n + 1, c.scope.isSingleton⟩ := by
  rw [ok.referrer?_eq_iff hc tracked, ok.recorded_eq_iff hc tracked]
  exact fun h rest j s v hx => ok.mem_chain_of_keepsBranches kept v hx

/-- The references of a class agree with its members exactly if, each time that one is counted, the
chain that it has in the end is there already. This is so if contexts keep their branches. -/
theorem referrer?_eq_expected_iff (h : w.resolveFor entry = .ok g) {k : Identifier}
    {d : Definition} {c : ClassDefinition} (hk : g.find? k = some d) (hc : d.core = .cls c)
    {x : Identifier} (tracked : g.IsTracked x) :
    (g.referrer? x c.id = g.expectedReferrer? c x ↔
      ∀ h rest j s, w.Visits (w.rootsFor entry) h (.count j c.id s :: rest) →
        x ∈ g.unwrapped.chain c.id j → x ∈ h.chain c.id j) ∧
    (w.KeepsBranches → g.referrer? x c.id = g.expectedReferrer? c x) := by
  obtain ⟨g₀, always, yields, rfl⟩ := exists_of_resolveFor h
  have o := yields.original
  rw [find?_wrapEntries] at hk
  obtain ⟨d₀, hd, rfl⟩ := Option.map_eq_some_iff.1 hk
  have hd₀ : d₀ = .cls c := by
    rw [core_front] at hc
    cases d₀ with
    | autoloaded => exact absurd hd o.ne_autoloaded
    | cls | «alias» | container | perConsumer => exact hc
  subst hd₀
  obtain rfl : c.id = k := o.id_eq hd
  have same : ∀ x, ((w.wrapEntries always g₀).find? x).bind Definition.referrers? =
      (g₀.find? x).bind Definition.referrers? := by
    intro x
    rw [find?_wrapEntries]
    cases g₀.find? x <;> simp
  have tracked₀ : g₀.IsTracked x := by
    simp only [Graph.IsTracked] at tracked ⊢
    rwa [same] at tracked
  have recorded : (w.wrapEntries always g₀).referrer? x c.id = g₀.referrer? x c.id := by
    rw [Graph.referrer?, same, Graph.referrer?]
  have counts : (w.wrapEntries always g₀).referrer? x c.id =
        (w.wrapEntries always g₀).expectedReferrer? c x ↔
      ∀ h rest j s, w.Visits (w.rootsFor entry) h (.count j c.id s :: rest) →
        x ∈ g₀.chain c.id j → x ∈ h.chain c.id j := by
    rw [recorded, Graph.expectedReferrer?, unwrapped_wrapEntries yields always]
    exact (yields.referrer?_eq_iff hd tracked₀).trans (yields.recorded_eq_iff hd tracked₀)
  rw [unwrapped_wrapEntries yields always]
  exact ⟨counts, fun kept => counts.2 fun h rest j s v hx => yields.mem_chain_of_keepsBranches kept v hx⟩

/-- The service of the store refers to the disk behind the store. -/
theorem referrer?_storeWiring :
    ∃ g c, storeWiring.resolveFor none = .ok g ∧ g.find? "Service" = some (.cls c) ∧
      g.IsTracked "Disk" ∧ g.referrer? "Disk" c.id = g.expectedReferrer? c "Disk" := by
  have resolves : storeWiring.passesWithin 40 ["Service"]
      (fun g => g.classPasses "Service" fun _ => g.IsTracked "Disk") = true := by
    decide +kernel
  obtain ⟨g, hg, passes⟩ := exists_of_passesWithin resolves
  obtain ⟨c, hc, tracked⟩ := Graph.exists_of_classPasses passes
  have h : storeWiring.resolveFor none = .ok g := hg
  have tracked : g.IsTracked "Disk" := of_decide_eq_true tracked
  have kept : storeWiring.KeepsBranches := by
    intro k t ht
    have hints : storeWiring.hints.exact.find? k =
        if k = "Store" then some (.byClass "Disk" {}) else none :=
      lookup_cons k ("Store", Binding.byClass "Disk" {}) []
    rw [hints] at ht
    split at ht <;> cases ht
  exact ⟨g, c, h, hc, tracked, (referrer?_eq_expected_iff h hc rfl tracked).2 kept⟩

/-- A screen and a printer share a context whose default branch a hint takes elsewhere. The printer
is the branch of the screen, and its own reference is counted before the default branch is there. -/
def detourWiring : Wiring where
  config := {}
  provider := Metadata.provider <| .ofList
    [("Screen", { parameters := [{ name := "output", type := some "Output" }] }),
      ("Printer", { parameters := [{ name := "output", type := some "Output" }] }),
      ("Sink", {})]
  mode := .compile
  entries := ⟨[{ ids := ["Screen"] }]⟩
  hints :=
    { exact := .ofList
        [("Output", .perConsumer
          { default := some "Stream", consumers := .ofList [("Screen", "Printer")] }),
          ("Stream", .byClass "Sink" {})] }

theorem referrer?_detourWiring :
    ∃ g c, detourWiring.resolveFor none = .ok g ∧ g.find? "Printer" = some (.cls c) ∧
      g.IsTracked "Sink" ∧ g.expectedReferrer? c "Sink" = some ⟨1, true⟩ ∧
      g.referrer? "Sink" c.id ≠ g.expectedReferrer? c "Sink" := by
  have resolves : detourWiring.passesWithin 40 ["Screen"] (fun g =>
      g.classPasses "Printer" fun c => g.IsTracked "Sink" ∧
        g.expectedReferrer? c "Sink" = some ⟨1, true⟩ ∧
        g.referrer? "Sink" c.id ≠ g.expectedReferrer? c "Sink") = true := by
    decide +kernel
  obtain ⟨g, hg, passes⟩ := exists_of_passesWithin resolves
  obtain ⟨c, hc, differs⟩ := Graph.exists_of_classPasses passes
  have h : detourWiring.resolveFor none = .ok g := hg
  exact ⟨g, c, h, hc, of_decide_eq_true differs⟩

end Injector
