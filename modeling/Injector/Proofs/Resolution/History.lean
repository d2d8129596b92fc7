import Injector.Proofs.Resolution.Growth

/-!
# The history of a resolution

What was attempted in a resolution so far, whether it comes to an end or not. The discovery of a
class is begun once and its fields are found out once; so the provider is asked each question once
at most.
-/

namespace Injector

/-! ### Questions -/

/-- What a provider is asked about a type. -/
inductive Question
  | source (id : Identifier)
  | parameters (id : Identifier)
  | fields (id : Identifier)
deriving DecidableEq, Repr

/-- Two providers give the same answer. -/
def Question.SameAnswer (p p' : Provider) : Question → Prop
  | .source id => p.sourceUnit id = p'.sourceUnit id
  | .parameters id => p.parameters id = p'.parameters id
  | .fields id => p.fields id = p'.fields id

/-- The class whose discovery a task begins. -/
def Graph.begins? (g : Graph) : Task → Option ClassDefinition
  | .request id _ _ =>
    match g.find? id with
    | some (.cls c) => if c.progress = .pending then some c else none
    | _ => none
  | _ => none

/-- The identifier whose fields a task finds out. -/
def Task.searches? : Task → Option Identifier
  | .discoverFields c _ => some c.id
  | _ => none

namespace Wiring

/-- The questions when the discovery of a class begins. There is no second one if the first one is
refused. -/
def opening (w : Wiring) (id : Identifier) : List Question :=
  .source id :: match w.provider.sourceUnit id with
    | .ok _ => if w.config.injection.constructor then [.parameters id] else []
    | .error _ => []

/-- The questions that a task asks the provider. -/
def asks (w : Wiring) (g : Graph) (t : Task) : List Question :=
  (g.begins? t).elim [] (fun c => w.opening c.id) ++
    if w.config.injection.fields then t.searches?.toList.map .fields else []

/-- The graph that a task leaves, also if it fails: where an answer is refused, the discovery has
begun nevertheless. -/
def leaves (w : Wiring) (g : Graph) (t : Task) : Graph :=
  match w.perform g t with
  | .ok (g', _) => g'
  | .error _ => (g.begins? t).elim g fun c => g.adjust c.id Definition.begun

/-! ### Histories -/

/-- A state of a resolution, with the tasks that were done before and the graphs they were done on,
the last one first. -/
inductive History (w : Wiring) (roots : List Identifier) :
    List (Graph × Task) → Graph → List Task → Prop
  | start : History w roots [] (w.start roots) (roots.map w.rootTask)
  | step {past : List (Graph × Task)} {g g' : Graph} {t : Task} {rest next : List Task}
      (before : History w roots past g (t :: rest)) (done : w.perform g t = .ok (g', next)) :
      History w roots ((g, t) :: past) g' (next ++ rest)

/-- How a task ends with all that it brings up: everything is done, or something fails. -/
inductive Ends (w : Wiring) (g : Graph) (t : Task) : Graph → Prop
  | done {h : Graph} (l : w.Leads g [t] h []) : Ends w g t h
  | failed {h : Graph} {u : Task} {us : List Task} {e : Error} (l : w.Leads g [t] h (u :: us))
      (refused : w.perform h u = .error e) : Ends w g t (w.leaves h u)

/-- The identifiers whose discovery was begun. -/
def discovered (past : List (Graph × Task)) : List Identifier :=
  past.filterMap fun a => (a.1.begins? a.2).map (·.id)

/-- The questions that were asked. -/
def questions (w : Wiring) (past : List (Graph × Task)) : List Question :=
  past.flatMap fun a => w.asks a.1 a.2

/-- Resolution of some entry points takes nothing back and asks nothing twice, whether it succeeds,
fails or never comes to an end. -/
structure MovesForward (w : Wiring) (roots : List Identifier) : Prop where
  /-- From a state to any later one the graph grows. -/
  grows : ∀ {g h ts us}, w.Visits roots g ts → w.Leads g ts h us → g.Grows h
  /-- From the beginning of a task to its end the graph grows, also if it fails. -/
  calls : ∀ {g h t rest}, w.Visits roots g (t :: rest) → w.Ends g t h → g.Grows h
  /-- With each task that is attempted a class moves by one stage at most. -/
  stages : ∀ {g t rest k c}, w.Visits roots g (t :: rest) → g.find? k = some (.cls c) →
    ∃ c', (w.leaves g t).find? k = some (.cls c') ∧ c.progress.Moves c'.progress
  /-- No discovery begins twice, the task that is attempted now included. -/
  discoveries : ∀ {past g t rest}, w.History roots past g (t :: rest) →
    (discovered ((g, t) :: past)).Nodup
  /-- No question is asked twice, those of the task that is attempted now included. -/
  questions : ∀ {past g t rest}, w.History roots past g (t :: rest) →
    (w.questions ((g, t) :: past)).Nodup
  /-- What a task comes to depends on no other questions. -/
  answers : ∀ (p : Provider) g t, (∀ q ∈ w.asks g t, q.SameAnswer p w.provider) →
    ({ w with provider := p } : Wiring).perform g t = w.perform g t

variable {w : Wiring} {roots : List Identifier} {past : List (Graph × Task)} {g g' : Graph}
  {t : Task} {rest next : List Task}

lemma History.visits {ts : List Task} (h : w.History roots past g ts) : w.Visits roots g ts := by
  induction h with
  | start => exact .refl
  | step _ done ih => exact ih.step done

lemma exists_history {ts : List Task} (v : w.Visits roots g ts) :
    ∃ past, w.History roots past g ts := by
  induction v with
  | refl => exact ⟨[], .start⟩
  | step _ done ih =>
    obtain ⟨past, before⟩ := ih
    exact ⟨_, before.step done⟩

/-! ### What a task does to classes -/

/-- What doing a task does to the discovery of classes, also in a resolution that is going to fail. -/
inductive Advances (w : Wiring) (g : Graph) : Task → Graph → List Task → Prop
  /-- A discovery begins. -/
  | begin {t : Task} {c found : ClassDefinition} {placed : Bool} {ts : List Task}
      (begins : g.begins? t = some c) (same : found.id = c.id)
      (others : ∀ t ∈ ts, t.class? = none) :
      Advances w g t (g.adjust c.id Definition.begun) (ts ++ [.discoverFields found placed])
  /-- A discovery goes on with the fields. -/
  | search {c found : ClassDefinition} {placed : Bool} {ts : List Task} (same : found.id = c.id)
      (others : ∀ t ∈ ts, t.class? = none) :
      Advances w g (.discoverFields c placed) g (ts ++ [.complete found])
  | complete (c : ClassDefinition) :
      Advances w g (.complete c) (g.adjust c.id (Definition.completed c)) []
  /-- Nothing is discovered. -/
  | other {t : Task} {g' : Graph} {ts : List Task} (idle : g.begins? t = none)
      (apart : t.class? = none)
      (kept : ∀ k c, g.find? k = some (.cls c) →
        ∃ c', g'.find? k = some (.cls c') ∧ c'.progress = c.progress)
      (others : ∀ t ∈ ts, t.class? = none) : Advances w g t g' ts

lemma exists_cls_recordReference (consumer : Identifier) (singleton : Bool) (j : Identifier)
    {k : Identifier} {c : ClassDefinition} (hk : g.find? k = some (.cls c)) :
    ∃ c', (g.recordReference consumer singleton j).find? k = some (.cls c') ∧
      c'.progress = c.progress := by
  rw [Graph.find?_recordReference, hk]
  split
  · exact ⟨_, rfl, rfl⟩
  · exact ⟨c, rfl, rfl⟩

theorem Advances.of_perform (h : w.perform g t = .ok (g', next)) : w.Advances g t g' next := by
  cases t with
  | request id consumer placed =>
    simp only [perform] at h
    split at h
    · next absent =>
      obtain ⟨kept, others⟩ := kept_of_define h
      apply Advances.other _ rfl _ others
      · rw [Graph.begins?, absent]
      · exact fun k c hk => ⟨c, kept k _ hk, rfl⟩
    · next c present =>
      split at h
      · next pending =>
        obtain ⟨source, -, h⟩ := bind_eq_ok.1 h
        obtain ⟨ps, -, h⟩ := bind_eq_ok.1 h
        cases h
        apply Advances.begin (c := c)
        · simp only [Graph.begins?, present, pending, if_true]
        · rfl
        · intro t ht
          split at ht
          · exact class?_of_mem_parameterTasks ht
          · cases ht
      · next begun =>
        cases h
        apply Advances.other _ rfl (fun k c hk => ⟨c, hk, rfl⟩) (by simp)
        simp only [Graph.begins?, present, if_neg begun]
    · next d notClass present =>
      cases h
      apply Advances.other _ rfl (fun k c hk => ⟨c, hk, rfl⟩) (by simp [Task.class?])
      rw [Graph.begins?, present]
      cases d with
      | cls c => exact absurd rfl (notClass c)
      | «alias» | container | perConsumer | autoloaded => rfl
  | check id consumer =>
    obtain ⟨_, -, h⟩ := bind_eq_ok.1 h
    cases h
    exact .other rfl rfl (fun k c hk => ⟨c, hk, rfl⟩) (by simp)
  | count id consumer singleton =>
    cases h
    exact .other rfl rfl (fun k c hk => exists_cls_recordReference consumer singleton id hk) (by simp)
  | discoverFields c placed =>
    obtain ⟨fs, -, h⟩ := bind_eq_ok.1 h
    cases h
    apply Advances.search
    · rfl
    · intro t ht
      split at ht
      · exact class?_of_mem_fieldTasks ht
      · cases ht
  | complete c =>
    cases h
    exact .complete c
  | fail e => cases h

/-- A discovery begins with a class that is pending. -/
lemma exists_of_begins? {c : ClassDefinition} (h : g.begins? t = some c) :
    ∃ id consumer placed, t = .request id consumer placed ∧ g.find? id = some (.cls c) ∧
      c.progress = .pending := by
  cases t with
  | request id consumer placed =>
    simp only [Graph.begins?] at h
    split at h
    · next c' present =>
      split at h
      · next pending =>
        cases h
        exact ⟨id, consumer, placed, rfl, present, pending⟩
      · cases h
    · cases h
  | check | count | discoverFields | complete | fail => cases h

lemma IsKeyed.find?_of_begins? (keyed : IsKeyed g) {c : ClassDefinition}
    (h : g.begins? t = some c) : g.find? c.id = some (.cls c) ∧ c.progress = .pending := by
  obtain ⟨id, -, -, -, present, pending⟩ := exists_of_begins? h
  obtain rfl : c.id = id := keyed.id_eq present
  exact ⟨present, pending⟩

/-- A class whose discovery begins is in progress then. -/
lemma Advances.begun (a : w.Advances g t g' next) (keyed : IsKeyed g) {c : ClassDefinition}
    (begins : g.begins? t = some c) :
    ∃ c', g'.find? c.id = some (.cls c') ∧ c'.progress = .inProgress := by
  cases a with
  | begin begins' =>
    cases begins.symm.trans begins'
    rw [Graph.find?_adjust, if_pos rfl, (keyed.find?_of_begins? begins).1]
    exact ⟨_, rfl, rfl⟩
  | search | complete => cases begins
  | other idle => cases begins.symm.trans idle

/-- A class stays as it is, or its discovery begins, or it is completed. -/
lemma Advances.find?_cls (a : w.Advances g t g' next) (keyed : IsKeyed g) {k : Identifier}
    {c : ClassDefinition} (hk : g.find? k = some (.cls c)) :
    ∃ c', g'.find? k = some (.cls c') ∧
      (c'.progress = c.progress ∨ c.progress = .pending ∧ c'.progress = .inProgress ∨
        ∃ found, t = .complete found ∧ found.id = k ∧ c'.progress = .resolved) := by
  cases a with
  | @begin _ c₁ _ _ _ begins =>
    by_cases hid : k = c₁.id
    · subst hid
      obtain ⟨present, pending⟩ := keyed.find?_of_begins? begins
      cases present.symm.trans hk
      rw [Graph.find?_adjust, if_pos rfl, hk]
      exact ⟨_, rfl, .inr (.inl ⟨pending, rfl⟩)⟩
    · rw [Graph.find?_adjust, if_neg hid]
      exact ⟨c, hk, .inl rfl⟩
  | search => exact ⟨c, hk, .inl rfl⟩
  | complete found =>
    by_cases hid : k = found.id
    · subst hid
      rw [Graph.find?_adjust, if_pos rfl, hk]
      exact ⟨_, rfl, .inr (.inr ⟨found, rfl, rfl, rfl⟩)⟩
    · rw [Graph.find?_adjust, if_neg hid]
      exact ⟨c, hk, .inl rfl⟩
  | other _ _ kept =>
    obtain ⟨c', hk', same⟩ := kept k c hk
    exact ⟨c', hk', .inl same⟩

/-! ### What is begun and what is left to complete -/

/-- The identifiers of the classes that are left to complete. -/
def outstanding (ts : List Task) : List Identifier := (ts.filterMap Task.class?).map (·.id)

/-- The identifiers whose fields were found out, or are left to find out. -/
def searched (past : List (Graph × Task)) (ts : List Task) : List Identifier :=
  (past.filterMap fun a => a.2.searches?) ++ ts.filterMap Task.searches?

lemma outstanding_append (ts us : List Task) :
    outstanding (ts ++ us) = outstanding ts ++ outstanding us := by
  rw [outstanding, List.filterMap_append, List.map_append]
  rfl

lemma outstanding_eq_nil {ts : List Task} (h : ∀ t ∈ ts, t.class? = none) :
    outstanding ts = [] := by
  rw [outstanding, List.filterMap_eq_nil_iff.2 h, List.map_nil]

lemma searches?_eq_none {t : Task} (h : t.class? = none) : t.searches? = none := by
  cases t <;> first | rfl | cases h

lemma filterMap_searches?_eq_nil {ts : List Task} (h : ∀ t ∈ ts, t.class? = none) :
    ts.filterMap Task.searches? = [] := by
  rw [List.filterMap_eq_nil_iff]
  intro t ht
  exact searches?_eq_none (h t ht)

/-- One more class is left to complete when a discovery begins, and one less when it ends. -/
lemma Advances.cases_of_outstanding (a : w.Advances g t g' next) (rest : List Task) :
    (∃ c, g.begins? t = some c ∧
      outstanding (next ++ rest) = c.id :: outstanding (t :: rest)) ∨
    (∃ c, t = .complete c ∧ outstanding (t :: rest) = c.id :: outstanding (next ++ rest)) ∨
    (∀ c, t ≠ .complete c) ∧ outstanding (next ++ rest) = outstanding (t :: rest) := by
  cases a with
  | @begin _ c found placed ts begins same others =>
    left
    obtain ⟨id, consumer, placed, rfl, -⟩ := exists_of_begins? begins
    refine ⟨c, begins, ?_⟩
    rw [outstanding_append, outstanding_append, outstanding_eq_nil others, ← same]
    rfl
  | @search c found placed ts same others =>
    right; right
    refine ⟨by simp, ?_⟩
    rw [outstanding_append, outstanding_append, outstanding_eq_nil others]
    show found.id :: outstanding rest = c.id :: outstanding rest
    rw [same]
  | complete c => exact .inr (.inl ⟨c, rfl, rfl⟩)
  | other _ apart _ others =>
    right; right
    constructor
    · rintro c rfl
      cases apart
    · rw [outstanding_append, outstanding_eq_nil others, outstanding, outstanding,
        List.filterMap_cons_none apart, List.nil_append]

/-- The fields of one more class are left to find out when a discovery begins. -/
lemma Advances.cases_of_searched (a : w.Advances g t g' next) (past : List (Graph × Task))
    (rest : List Task) :
    (∃ c, g.begins? t = some c ∧
      (searched ((g, t) :: past) (next ++ rest)).Perm (c.id :: searched past (t :: rest))) ∨
    (searched ((g, t) :: past) (next ++ rest)).Perm (searched past (t :: rest)) := by
  simp only [searched, List.filterMap_append]
  cases a with
  | @begin _ c found placed ts begins same others =>
    left
    obtain ⟨id, consumer, placed, rfl, -⟩ := exists_of_begins? begins
    refine ⟨c, begins, ?_⟩
    rw [List.filterMap_append, filterMap_searches?_eq_nil others, ← same]
    exact List.perm_middle
  | @search c found placed ts same others =>
    right
    rw [List.filterMap_append, filterMap_searches?_eq_nil others]
    exact List.perm_middle.symm
  | complete c => exact .inr (.refl _)
  | other _ apart _ others =>
    right
    have apart := searches?_eq_none apart
    rw [filterMap_searches?_eq_nil others, List.filterMap_cons_none apart,
      List.filterMap_cons_none (a := (g, t)) apart]
    exact .refl _

/-- What was begun is not begun again, and what is left to complete is in progress. -/
structure Orderly (past : List (Graph × Task)) (g : Graph) (ts : List Task) : Prop where
  keyed : IsKeyed g
  begun : ∀ k ∈ discovered past, ∃ c, g.find? k = some (.cls c) ∧ c.progress ≠ .pending
  nodup_discovered : (discovered past).Nodup
  inProgress : ∀ k ∈ outstanding ts, ∃ c, g.find? k = some (.cls c) ∧ c.progress = .inProgress
  nodup_outstanding : (outstanding ts).Nodup
  /-- Fields are found out of what was begun. -/
  known : ∀ k ∈ searched past ts, k ∈ discovered past
  nodup_searched : (searched past ts).Nodup

lemma orderly_start (w : Wiring) (roots : List Identifier) :
    Orderly [] (w.start roots) (roots.map w.rootTask) := by
  have others : ∀ t ∈ roots.map w.rootTask, t.class? = none := by
    intro t ht
    obtain ⟨r, -, rfl⟩ := List.mem_map.1 ht
    rfl
  have outstanding := outstanding_eq_nil others
  have searched : searched [] (roots.map w.rootTask) = [] := filterMap_searches?_eq_nil others
  constructor
  · exact isKeyed_start w roots
  · simp [discovered]
  · exact List.nodup_nil
  · simp [outstanding]
  · rw [outstanding]
    exact List.nodup_nil
  · simp [searched]
  · rw [searched]
    exact List.nodup_nil

lemma discovered_cons (past : List (Graph × Task)) (g : Graph) (t : Task) :
    discovered ((g, t) :: past) =
      ((g.begins? t).map (·.id)).toList ++ discovered past := by
  rw [discovered, List.filterMap_cons]
  cases g.begins? t <;> rfl

namespace Orderly

variable (o : Orderly past g (t :: rest))
include o

lemma not_mem_discovered {c : ClassDefinition} (begins : g.begins? t = some c) :
    c.id ∉ discovered past := by
  intro hc
  obtain ⟨present, pending⟩ := o.keyed.find?_of_begins? begins
  obtain ⟨c', hc', begun⟩ := o.begun c.id hc
  cases present.symm.trans hc'
  exact begun pending

lemma not_mem_outstanding {c : ClassDefinition} (begins : g.begins? t = some c) :
    c.id ∉ outstanding (t :: rest) := by
  intro hc
  obtain ⟨present, pending⟩ := o.keyed.find?_of_begins? begins
  obtain ⟨c', hc', inProgress⟩ := o.inProgress c.id hc
  cases present.symm.trans hc'
  cases pending.symm.trans inProgress

/-- No discovery begins twice, that of the task included that is attempted now. -/
lemma nodup_discovered_next : (discovered ((g, t) :: past)).Nodup := by
  rw [discovered_cons]
  cases begins : g.begins? t with
  | none => exact o.nodup_discovered
  | some c => exact List.nodup_cons.2 ⟨o.not_mem_discovered begins, o.nodup_discovered⟩

variable (a : w.Advances g t g' next)
include a

lemma begun_next : ∀ k ∈ discovered ((g, t) :: past),
    ∃ c, g'.find? k = some (.cls c) ∧ c.progress ≠ .pending := by
  intro k hk
  rw [discovered_cons] at hk
  rcases List.mem_append.1 hk with hk | hk
  · obtain ⟨c, begins, rfl⟩ := Option.map_eq_some_iff.1 (Option.mem_toList.1 hk)
    obtain ⟨c', hc', inProgress⟩ := a.begun o.keyed begins
    exact ⟨c', hc', by simp [inProgress]⟩
  · obtain ⟨c, hc, begun⟩ := o.begun k hk
    obtain ⟨c', hc', same | ⟨pending, -⟩ | ⟨-, -, -, resolved⟩⟩ := a.find?_cls o.keyed hc
    · exact ⟨c', hc', same ▸ begun⟩
    · exact absurd pending begun
    · exact ⟨c', hc', by simp [resolved]⟩

/-- What stays outstanding stays in progress, unless this very class is completed. -/
lemma inProgress_of_ne {k : Identifier} (hk : k ∈ outstanding (t :: rest))
    (ne : ∀ c, t = .complete c → c.id ≠ k) :
    ∃ c, g'.find? k = some (.cls c) ∧ c.progress = .inProgress := by
  obtain ⟨c, hc, inProgress⟩ := o.inProgress k hk
  obtain ⟨c', hc', same | ⟨pending, -⟩ | ⟨found, eq, hid, -⟩⟩ := a.find?_cls o.keyed hc
  · exact ⟨c', hc', same.trans inProgress⟩
  · cases pending.symm.trans inProgress
  · exact absurd hid (ne found eq)

lemma outstanding_next : (outstanding (next ++ rest)).Nodup ∧
    ∀ k ∈ outstanding (next ++ rest),
      ∃ c, g'.find? k = some (.cls c) ∧ c.progress = .inProgress := by
  have nodup := o.nodup_outstanding
  rcases a.cases_of_outstanding rest with ⟨c, begins, eq⟩ | ⟨c, rfl, eq⟩ | ⟨ne, eq⟩
  · rw [eq]
    refine ⟨List.nodup_cons.2 ⟨o.not_mem_outstanding begins, nodup⟩, fun k hk => ?_⟩
    rcases List.mem_cons.1 hk with rfl | hk
    · exact a.begun o.keyed begins
    · apply o.inProgress_of_ne a hk
      rintro c rfl
      cases begins
  · rw [eq] at nodup
    obtain ⟨unique, nodup⟩ := List.nodup_cons.1 nodup
    refine ⟨nodup, fun k hk => ?_⟩
    apply o.inProgress_of_ne a
    · rw [eq]
      exact List.mem_cons_of_mem _ hk
    · rintro c' h rfl
      cases h
      exact unique hk
  · rw [eq]
    exact ⟨nodup, fun k hk => o.inProgress_of_ne a hk fun c h => absurd h (ne c)⟩

lemma searched_next : (searched ((g, t) :: past) (next ++ rest)).Nodup ∧
    ∀ k ∈ searched ((g, t) :: past) (next ++ rest), k ∈ discovered ((g, t) :: past) := by
  have known : ∀ k ∈ searched past (t :: rest), k ∈ discovered ((g, t) :: past) := by
    intro k hk
    rw [discovered_cons]
    exact List.mem_append_right _ (o.known k hk)
  rcases a.cases_of_searched past rest with ⟨c, begins, perm⟩ | perm
  · constructor
    · rw [perm.nodup_iff, List.nodup_cons]
      exact ⟨fun hc => o.not_mem_discovered begins (o.known c.id hc), o.nodup_searched⟩
    · intro k hk
      rcases List.mem_cons.1 (perm.mem_iff.1 hk) with rfl | hk
      · rw [discovered_cons, begins]
        exact List.mem_cons_self
      · exact known k hk
  · constructor
    · rw [perm.nodup_iff]
      exact o.nodup_searched
    · intro k hk
      exact known k (perm.mem_iff.1 hk)

end Orderly

lemma Orderly.perform (o : Orderly past g (t :: rest)) (done : w.perform g t = .ok (g', next)) :
    Orderly ((g, t) :: past) g' (next ++ rest) := by
  have a : w.Advances g t g' next := .of_perform done
  obtain ⟨nodup_outstanding, inProgress⟩ := o.outstanding_next a
  obtain ⟨nodup_searched, known⟩ := o.searched_next a
  exact ⟨o.keyed.perform done, o.begun_next a, o.nodup_discovered_next, inProgress,
    nodup_outstanding, known, nodup_searched⟩

lemma History.orderly {ts : List Task} (h : w.History roots past g ts) : Orderly past g ts := by
  induction h with
  | start => exact orderly_start w roots
  | step _ done ih => exact ih.perform done

/-! ### What a task leaves -/

lemma grows_leaves (keyed : IsKeyed g) (w : Wiring) (t : Task) : g.Grows (w.leaves g t) := by
  simp only [leaves]
  cases done : w.perform g t with
  | ok s => exact grows_of_perform keyed done
  | error e =>
    cases begins : g.begins? t with
    | none => exact .refl g
    | some c =>
      obtain ⟨present, pending⟩ := keyed.find?_of_begins? begins
      exact grows_adjust_begun keyed present pending

/-- With each task that is attempted a class moves by one stage at most. -/
lemma Orderly.moves (o : Orderly past g (t :: rest)) (w : Wiring) {k : Identifier}
    {c : ClassDefinition} (hk : g.find? k = some (.cls c)) :
    ∃ c', (w.leaves g t).find? k = some (.cls c') ∧ c.progress.Moves c'.progress := by
  simp only [leaves]
  cases done : w.perform g t with
  | ok s =>
    have a : w.Advances g t s.1 s.2 := .of_perform done
    obtain ⟨c', hc', same | ⟨pending, inProgress⟩ | ⟨found, rfl, rfl, resolved⟩⟩ :=
      a.find?_cls o.keyed hk
    · exact ⟨c', hc', same ▸ .stay _⟩
    · refine ⟨c', hc', ?_⟩
      rw [pending, inProgress]
      exact .begin
    · -- only what is in progress is completed
      obtain ⟨c₁, hc₁, inProgress⟩ := o.inProgress found.id List.mem_cons_self
      cases hk.symm.trans hc₁
      refine ⟨c', hc', ?_⟩
      rw [inProgress, resolved]
      exact .finish
  | error e =>
    cases begins : g.begins? t with
    | none => exact ⟨c, hk, .stay _⟩
    | some c₁ =>
      obtain ⟨present, pending⟩ := o.keyed.find?_of_begins? begins
      rw [Option.elim_some, Graph.find?_adjust]
      by_cases hid : k = c₁.id
      · subst hid
        cases present.symm.trans hk
        rw [if_pos rfl, hk]
        refine ⟨_, rfl, ?_⟩
        rw [pending]
        exact .begin
      · rw [if_neg hid]
        exact ⟨c, hk, .stay _⟩

/-! ### What is asked -/

/-- What is asked is about a class whose discovery begins, or about the fields of one. -/
lemma cases_of_mem_asks {q : Question} (h : q ∈ w.asks g t) :
    (∃ c, g.begins? t = some c ∧ (q = .source c.id ∨ q = .parameters c.id)) ∨
      ∃ k, t.searches? = some k ∧ q = .fields k := by
  rcases List.mem_append.1 h with h | h
  · left
    cases begins : g.begins? t with
    | none =>
      rw [begins] at h
      cases h
    | some c =>
      rw [begins] at h
      refine ⟨c, rfl, ?_⟩
      rcases List.mem_cons.1 h with rfl | h
      · exact .inl rfl
      · split at h
        · split at h
          · exact .inr (List.mem_singleton.1 h)
          · cases h
        · cases h
  · right
    split at h
    · obtain ⟨k, hk, rfl⟩ := List.mem_map.1 h
      exact ⟨k, Option.mem_toList.1 hk, rfl⟩
    · cases h

lemma nodup_opening (w : Wiring) (id : Identifier) : (w.opening id).Nodup := by
  simp only [opening]
  split
  · split <;> simp
  · simp

lemma nodup_asks (w : Wiring) (g : Graph) (t : Task) : (w.asks g t).Nodup := by
  refine List.nodup_append'.2 ⟨?_, ?_, ?_⟩
  · cases g.begins? t with
    | none => exact List.nodup_nil
    | some c => exact w.nodup_opening c.id
  · split
    · cases t.searches? <;> simp
    · exact List.nodup_nil
  · -- a task that begins a discovery finds out no fields
    cases begins : g.begins? t with
    | none => exact List.disjoint_nil_left _
    | some c =>
      obtain ⟨id, consumer, placed, rfl, -⟩ := exists_of_begins? begins
      simp [Task.searches?]

/-- No question is asked twice, those of the task included that is attempted now. -/
lemma Orderly.nodup_questions (o : Orderly past g (t :: rest)) (w : Wiring) :
    (w.questions ((g, t) :: past)).Nodup := by
  have searches : (((g, t) :: past).filterMap fun a => a.2.searches?).Nodup := by
    have nodup := o.nodup_searched
    rw [searched, List.filterMap_cons] at nodup
    rw [List.filterMap_cons]
    cases hs : t.searches? with
    | none =>
      rw [hs] at nodup
      exact nodup.of_append_left
    | some k =>
      rw [hs] at nodup
      have nodup := (List.perm_middle.nodup_iff).1 nodup
      exact nodup.sublist ((List.sublist_append_left ..).cons_cons k)
  have apart := List.pairwise_filterMap.1 o.nodup_discovered_next
  have apart' := List.pairwise_filterMap.1 searches
  refine List.nodup_flatMap.2 ⟨fun a _ => w.nodup_asks a.1 a.2, ?_⟩
  refine (apart.and apart').imp ?_
  rintro a b ⟨apart, apart'⟩ q ha hb
  rcases cases_of_mem_asks ha with ⟨c, begins, hq⟩ | ⟨k, search, rfl⟩
  · rcases cases_of_mem_asks hb with ⟨c', begins', hq'⟩ | ⟨k', -, rfl⟩
    · have same : c.id = c'.id := by
        rcases hq with rfl | rfl <;> simpa using hq'
      exact apart c.id (by simp [begins]) c'.id (by simp [begins']) same
    · simp at hq
  · rcases cases_of_mem_asks hb with ⟨c', -, hq'⟩ | ⟨k', search', eq⟩
    · simp at hq'
    · cases eq
      exact apart' k search k search' rfl

/-- What a task comes to depends on the questions alone that it asks. -/
lemma perform_of_sameAnswer {p : Provider}
    (same : ∀ q ∈ w.asks g t, q.SameAnswer p w.provider) :
    ({ w with provider := p } : Wiring).perform g t = w.perform g t := by
  cases t with
  | request id consumer placed =>
    simp only [perform]
    split
    · rfl
    · next c present =>
      split
      · next pending =>
        have begins : g.begins? (.request id consumer placed) = some c := by
          simp only [Graph.begins?, present, if_pos pending]
        have same : ∀ q ∈ w.opening c.id, q.SameAnswer p w.provider := by
          intro q hq
          apply same q
          rw [asks, begins]
          exact List.mem_append_left _ hq
        have source : p.sourceUnit c.id = w.provider.sourceUnit c.id := same _ List.mem_cons_self
        simp only [discover, source]
        cases answer : w.provider.sourceUnit c.id with
        | error e => rfl
        | ok unit =>
          have parameters : ({ w with provider := p } : Wiring).parametersOf c.id =
              w.parametersOf c.id := by
            simp only [parametersOf]
            split
            · next enabled =>
              apply same (.parameters c.id)
              simp [opening, answer, enabled]
            · rfl
          rw [parameters]
      · rfl
    · rfl
  | discoverFields c placed =>
    have fields : ({ w with provider := p } : Wiring).fieldsOf c.id = w.fieldsOf c.id := by
      simp only [fieldsOf]
      split
      · next enabled =>
        apply same (.fields c.id)
        simp [asks, enabled, Task.searches?]
      · rfl
    simp only [perform, discoverFields, fields]
  | check | count | complete | fail => rfl

/-- Resolution takes nothing back and asks nothing twice. -/
theorem movesForward (w : Wiring) (roots : List Identifier) : w.MovesForward roots where
  grows v l := grows_of_leads (isKeyed_of_visits v) l
  calls v ends := by
    have keyed := isKeyed_of_visits v
    cases ends with
    | done l => exact grows_of_leads keyed l
    | failed l =>
      have later := v.trans (l.append _)
      exact (grows_of_leads keyed l).trans (grows_leaves (isKeyed_of_visits later) w _)
  stages v hk := by
    obtain ⟨past, history⟩ := exists_history v
    exact history.orderly.moves w hk
  discoveries history := history.orderly.nodup_discovered_next
  questions history := history.orderly.nodup_questions w
  answers p g t same := perform_of_sameAnswer same

end Wiring

end Injector
