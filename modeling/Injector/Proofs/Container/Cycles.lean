import Injector.Proofs.Container.Lookup
import Injector.Proofs.Graph.Placement
import Injector.Proofs.Resolution.References

/-!
# Ways that come back to themselves

Following aliases and branches needs at most one round more than there are definitions, with those
identifiers kept that were passed. It comes back to one of them exactly if the way never ends, and
the identifier that it comes back to lies on a cycle. Counting a reference along a way comes to an
end in the same way, and counts once on all that the way goes through.
-/

namespace Injector.Graph

open Relation (ReflTransGen TransGen)

variable {g : Graph} {consumer : Option Identifier} {k : Identifier}

/-! ### Where ways end -/

/-- The way of a consumer ends at an identifier: it has no definition, or is a class, behind a
proxy, the container or another name of it, or lacks a branch for the consumer. -/
inductive IsEnd (g : Graph) (consumer : Option Identifier) (k : Identifier) : Prop
  | undefined (absent : g.find? k = none)
  | cls {c : ClassDefinition} (present : g.find? k = some (.cls c))
  | proxy {inner : Definition} {fileBased : Bool} {always : List String}
      (present : g.find? k = some (.autoloaded inner fileBased always))
  | container {id : Identifier} (present : g.find? k = some (.container id))
  | containerAlias {a : Alias} (present : g.find? k = some (.alias a)) (own : a.isContainer)
  | containerBranch {id : Identifier} {scope : Scope} {entryPoint : Bool}
      {default : Option Definition} {branches : List (Identifier × Definition)} {a : Alias}
      (present : g.find? k = some (.perConsumer id scope entryPoint default branches))
      (branch : Definition.branchFor? default branches consumer = some (.alias a))
      (own : a.isContainer)
  | unbound {id : Identifier} {scope : Scope} {entryPoint : Bool}
      {default : Option Definition} {branches : List (Identifier × Definition)}
      (present : g.find? k = some (.perConsumer id scope entryPoint default branches))
      (branch : Definition.branchFor? default branches consumer = none)

/-- A way has no choice. -/
lemma rightUnique_passes (g : Graph) (consumer : Option Identifier) :
    Relator.RightUnique (g.Passes consumer) := by
  rintro a b c ⟨d, hd, hop⟩ ⟨d', hd', hop'⟩
  cases hd.symm.trans hd'
  cases hop.symm.trans hop'
  rfl

/-- A way ends at a definition from which it does not go on. -/
lemma isEnd_of_hop {d : Definition} (present : g.find? k = some d)
    (stops : ∀ b, d.hop consumer k ≠ .ok (.next b)) : g.IsEnd consumer k := by
  cases d with
  | cls => exact .cls present
  | container => exact .container present
  | autoloaded => exact .proxy present
  | «alias» a =>
    cases own : a.isContainer with
    | true => exact .containerAlias present own
    | false => exact absurd (by simp [Definition.hop, own]) (stops a.target)
  | perConsumer id scope entryPoint default branches =>
    cases branch : Definition.branchFor? default branches consumer with
    | none => exact .unbound present branch
    | some d =>
      cases d with
      | «alias» a =>
        cases own : a.isContainer with
        | true => exact .containerBranch present branch own
        | false =>
          exact absurd (by simp [Definition.hop, branch, Definition.branchHop, own])
            (stops a.target)
      | cls | container | perConsumer | autoloaded =>
        exact (stops _ (by rw [Definition.hop, branch]; rfl)).elim

lemma not_passes_of_isEnd (ends : g.IsEnd consumer k) (b : Identifier) :
    ¬g.Passes consumer k b := by
  rintro ⟨d, hd, hop⟩
  cases ends with
  | undefined absent => cases absent.symm.trans hd
  | cls present | proxy present | container present =>
    cases present.symm.trans hd
    cases hop
  | containerAlias present own =>
    cases present.symm.trans hd
    simp [Definition.hop, own] at hop
  | containerBranch present branch own =>
    cases present.symm.trans hd
    simp [Definition.hop, branch, Definition.branchHop, own] at hop
  | unbound present branch =>
    cases present.symm.trans hd
    simp [Definition.hop, branch] at hop

/-! ### Cycles -/

/-- A way that comes to an end goes round no cycle. -/
lemma not_transGen_of_isEnd {x y : Identifier} (way : ReflTransGen (g.Passes consumer) x y)
    (ends : g.IsEnd consumer y) : ¬TransGen (g.Passes consumer) x x := by
  induction way using ReflTransGen.head_induction_on with
  | refl =>
    intro cycle
    obtain ⟨b, step, -⟩ := TransGen.head'_iff.1 cycle
    exact not_passes_of_isEnd ends b step
  | head step way ih =>
    intro cycle
    obtain ⟨b, step', rest⟩ := TransGen.head'_iff.1 cycle
    obtain rfl := g.rightUnique_passes consumer step step'
    exact ih (.tail' rest step)

/-- One round on a way never finds that it comes back. -/
lemma hop_ne_config (d : Definition) (fault : ConfigFault) :
    d.hop consumer k ≠ .error (.config fault) := by
  cases d with
  | perConsumer id scope entryPoint default branches =>
    cases branch : Definition.branchFor? default branches consumer <;>
      simp [Definition.hop, branch]
  | cls | «alias» | container | autoloaded => simp [Definition.hop]

/-- What has been passed leads to where the way is now, so coming back to it closes a cycle. -/
lemma transGen_of_targetWithin {unmet : List Identifier} {x : Identifier}
    (passed : ∀ y, g.contains y → y ∉ unmet → TransGen (g.Passes consumer) y k)
    (h : g.targetWithin consumer unmet k = .error (.config (.referenceCycle x))) :
    ReflTransGen (g.Passes consumer) k x ∧ TransGen (g.Passes consumer) x x := by
  fun_induction targetWithin g consumer unmet k with
  | case1 => cases h
  | case2 => cases h
  | case3 unmet k d present hk next hop ih =>
    have step : g.Passes consumer k next := ⟨d, present, hop⟩
    have passed' : ∀ y, g.contains y → y ∉ unmet.erase k → TransGen (g.Passes consumer) y next := by
      intro y hy out
      by_cases hyk : y = k
      · exact hyk ▸ .single step
      · exact .tail (passed y hy fun hy => out ((List.mem_erase_of_ne hyk).2 hy)) step
    obtain ⟨way, cycle⟩ := ih passed' h
    exact ⟨.head step way, cycle⟩
  | case4 unmet k d present hk e hop =>
    cases h
    exact absurd hop (hop_ne_config d _)
  | case5 unmet k d present hk =>
    cases h
    exact ⟨.refl, passed x (by simp [present]) hk⟩

/-- What a way comes back to lies ahead of its start, and on a cycle. -/
lemma transGen_of_target? {id x : Identifier}
    (h : g.target? consumer id = .error (.config (.referenceCycle x))) :
    ReflTransGen (g.Passes consumer) id x ∧ TransGen (g.Passes consumer) x x :=
  transGen_of_targetWithin
    (fun y hy out => absurd ((g.definitions.mem_keys_iff y).2 hy) out) h

/-- What is asked for leads somewhere, fails at an end of its way, or comes back to itself. -/
lemma exists_isEnd_or_cycle (g : Graph) (consumer : Option Identifier) (id : Identifier) :
    (∃ y, ReflTransGen (g.Passes consumer) id y ∧ g.IsEnd consumer y) ∨
      ∃ x, g.target? consumer id = .error (.config (.referenceCycle x)) := by
  cases h : g.target? consumer id with
  | ok t =>
    obtain ⟨y, d, way, hd, stop⟩ := exists_stop_of_targetWithin h
    exact .inl ⟨y, way, isEnd_of_hop hd (by simp [stop])⟩
  | error e =>
    obtain ⟨y, way, fails⟩ := exists_of_target? h
    cases fails with
    | undefined absent => exact .inl ⟨y, way, .undefined absent⟩
    | unbound present failed => exact .inl ⟨y, way, isEnd_of_hop present (by simp [failed])⟩
    | repeated => exact .inr ⟨y, rfl⟩

/-- Following a way comes back to where it was exactly if the way reaches no end. -/
lemma exists_cycle_iff (g : Graph) (consumer : Option Identifier) (id : Identifier) :
    (∃ x, g.target? consumer id = .error (.config (.referenceCycle x))) ↔
      ∀ y, ReflTransGen (g.Passes consumer) id y → ¬g.IsEnd consumer y := by
  constructor
  · rintro ⟨x, h⟩ y way ends
    obtain ⟨ahead, cycle⟩ := transGen_of_target? h
    rcases ahead.total_of_right_unique (g.rightUnique_passes consumer) way with onward | back
    · exact not_transGen_of_isEnd onward ends cycle
    · -- an end leads nowhere, so it could only be what lies on the cycle
      rcases ReflTransGen.cases_head back with rfl | ⟨b, step, -⟩
      · exact not_transGen_of_isEnd .refl ends cycle
      · exact not_passes_of_isEnd ends b step
  · intro never
    rcases g.exists_isEnd_or_cycle consumer id with ⟨y, way, ends⟩ | comesBack
    · exact absurd ends (never y way)
    · exact comesBack

/-! ### Rounds -/

/-- Follow the way of an identifier for a number of rounds, keeping what was passed. -/
def targetFor (g : Graph) (consumer : Option Identifier) :
    Nat → List Identifier → Identifier → Option (Except Error Target)
  | 0, _, _ => none
  | rounds + 1, seen, id =>
    if id ∈ seen then some (.error (.config (.referenceCycle id)))
    else
      match g.find? id with
      | none => some (.error (.unknownDefinition id))
      | some d =>
        match d.hop consumer id with
        | .ok (.stop t) => some (.ok t)
        | .ok (.next id') => g.targetFor consumer rounds (id :: seen) id'
        | .error e => some (.error e)

/-- Count a reference along the way of an identifier for a number of rounds, keeping what was
passed. Where the way goes on is looked up after counting. -/
def countFor (consumer : Identifier) (singleton : Bool) :
    Nat → List Identifier → Identifier → Graph → Option Graph
  | 0, _, _, _ => none
  | rounds + 1, seen, id, g =>
    if id ∈ seen then some g
    else
      let g := g.addReferrer consumer singleton id
      match g.forward? consumer id with
      | some next => countFor consumer singleton rounds (id :: seen) next g
      | none => some g

/-- What was passed and what is still unmet make up the definitions of a graph. -/
structure Splits (g : Graph) (seen unmet : List Identifier) : Prop where
  nodup : unmet.Nodup
  defined : ∀ k ∈ seen, g.contains k
  mem_unmet : ∀ k, k ∈ unmet ↔ g.contains k ∧ k ∉ seen

lemma splits_start (g : Graph) : g.Splits [] g.identifiers where
  nodup := g.definitions.nodup_keys
  defined := by simp
  mem_unmet k := (g.definitions.mem_keys_iff k).trans (by simp [contains])

/-- One more identifier is passed. -/
lemma Splits.pass {seen unmet : List Identifier} (splits : g.Splits seen unmet) (hk : k ∈ unmet) :
    g.Splits (k :: seen) (unmet.erase k) where
  nodup := splits.nodup.erase k
  defined := List.forall_mem_cons.2 ⟨((splits.mem_unmet k).1 hk).1, splits.defined⟩
  mem_unmet j := by
    rw [splits.nodup.mem_erase_iff, splits.mem_unmet, List.mem_cons, not_or]
    exact and_left_comm

lemma Splits.congr {g' : Graph} {seen unmet : List Identifier} (splits : g.Splits seen unmet)
    (same : ∀ k, g'.contains k = g.contains k) : g'.Splits seen unmet where
  nodup := splits.nodup
  defined k hk := (same k).trans (splits.defined k hk)
  mem_unmet k := by rw [same, splits.mem_unmet]

lemma length_erase_lt {unmet : List Identifier} {rounds : Nat} (hk : k ∈ unmet)
    (enough : unmet.length < rounds + 1) : (unmet.erase k).length < rounds := by
  rw [List.length_erase_of_mem hk]
  have := List.length_pos_of_mem hk
  omega

/-- If there are more rounds than unmet identifiers, following comes to an end. -/
lemma targetFor_eq {seen unmet : List Identifier} {rounds : Nat} (splits : g.Splits seen unmet)
    (enough : unmet.length < rounds) :
    g.targetFor consumer rounds seen k = some (g.targetWithin consumer unmet k) := by
  induction rounds generalizing seen unmet k with
  | zero => exact absurd enough (Nat.not_lt_zero _)
  | succ rounds ih =>
    rw [targetFor, targetWithin]
    cases hd : g.find? k with
    | none =>
      have fresh : k ∉ seen := fun hk => by simpa [hd] using splits.defined k hk
      rw [if_neg fresh]
    | some d =>
      have met : k ∈ unmet ↔ k ∉ seen := by simp [splits.mem_unmet, hd]
      by_cases hk : k ∈ seen
      · simp only [if_pos hk, if_neg (met.not.2 (not_not.2 hk))]
      · simp only [if_neg hk, if_pos (met.2 hk)]
        cases d.hop consumer k with
        | error e => rfl
        | ok h =>
          cases h with
          | stop t => rfl
          | next id' => exact ih (splits.pass (met.2 hk)) (length_erase_lt (met.2 hk) enough)

@[simp] lemma shape?_addReferrer (g : Graph) (consumer : Identifier) (singleton : Bool)
    (id k : Identifier) : (g.addReferrer consumer singleton id).shape? k = g.shape? k :=
  shape?_adjust (Definition.shape_addReferrer consumer singleton) g id k

lemma contains_addReferrer (g : Graph) (consumer : Identifier) (singleton : Bool)
    (id k : Identifier) : (g.addReferrer consumer singleton id).contains k = g.contains k := by
  have same := congrArg Option.isSome (g.shape?_addReferrer consumer singleton id k)
  simpa only [shape?, Option.isSome_map, ← contains_eq] using same

/-- Counting does not change where a way goes on. -/
lemma forward?_addReferrer (g : Graph) (consumer' : Identifier) (singleton : Bool)
    (id consumer k : Identifier) :
    (g.addReferrer consumer' singleton id).forward? consumer k = g.forward? consumer k := by
  have byShape : ∀ g : Graph, g.forward? consumer k = (g.shape? k).bind (·.forward? consumer) :=
    fun g => by simp only [forward?, shape?, Option.bind_map, Function.comp_def,
      Definition.forward?_shape]
  rw [byShape, byShape, shape?_addReferrer]

/-- Where nothing is defined, nothing is counted. -/
lemma addReferrer_of_absent {consumer : Identifier} (singleton : Bool) (absent : g.find? k = none) :
    g.addReferrer consumer singleton k = g := by
  refine ext_find? rfl fun j => ?_
  rw [addReferrer, find?_adjust]
  split
  · next hj => simp [hj, absent]
  · rfl

/-- If there are more rounds than unmet identifiers, counting comes to an end. -/
lemma countFor_eq {consumer : Identifier} {singleton : Bool} {seen unmet : List Identifier}
    {rounds : Nat} (splits : g.Splits seen unmet) (enough : unmet.length < rounds) :
    countFor consumer singleton rounds seen k g =
      some ((g.chainWithin consumer unmet k).foldl (·.addReferrer consumer singleton) g) := by
  induction rounds generalizing seen unmet k g with
  | zero => exact absurd enough (Nat.not_lt_zero _)
  | succ rounds ih =>
    rw [countFor, chainWithin]
    by_cases hk : k ∈ seen
    · have met : k ∉ unmet := fun hu => ((splits.mem_unmet k).1 hu).2 hk
      rw [if_pos hk, if_neg met, List.foldl_nil]
    simp only [if_neg hk, forward?_addReferrer]
    cases hd : g.find? k with
    | none =>
      have out : k ∉ unmet := fun hu => by simpa [hd] using ((splits.mem_unmet k).1 hu).1
      have stays : g.forward? consumer k = none := by rw [forward?, hd, Option.bind_none]
      rw [stays, if_neg out, addReferrer_of_absent singleton hd, List.foldl_nil]
    | some d =>
      have met : k ∈ unmet := (splits.mem_unmet k).2 ⟨by simp [hd], hk⟩
      rw [if_pos met]
      cases hn : g.forward? consumer k with
      | none => rfl
      | some next =>
        -- what is counted on the way does not change the way
        have counted := (splits.pass met).congr (g.contains_addReferrer consumer singleton k)
        have rest := ih (k := next) counted (length_erase_lt met enough)
        rw [chainWithin_congr (g.forward?_addReferrer consumer singleton k consumer)] at rest
        exact rest

/-! ### What is counted -/

/-- How many references from a consumer to an identifier were counted. -/
def referenceCount (g : Graph) (x consumer : Identifier) : Nat :=
  (g.referrer? x consumer).elim 0 (·.count)

/-- The consumers of classes and aliases are kept, also behind a proxy. -/
lemma isTracked_iff {x : Identifier} {d : Definition} (present : g.find? x = some d) :
    g.IsTracked x ↔ (∃ c, d.core = .cls c) ∨ ∃ a, d.core = .alias a := by
  rw [IsTracked, present, Option.bind_some]
  clear present
  induction d using Definition.id.induct with
  | case5 inner _ _ ih => exact ih
  | case1 | case2 | case3 | case4 => simp [Definition.referrers?, Definition.core]

lemma addReferrer_of_not_isTracked {x : Identifier} {d : Definition}
    (present : g.find? x = some d) (untracked : ¬g.IsTracked x) (consumer : Identifier)
    (singleton : Bool) : d.addReferrer consumer singleton = d := by
  rw [IsTracked, present, Option.bind_some] at untracked
  clear present
  induction d using Definition.id.induct with
  | case5 inner _ _ ih => rw [Definition.addReferrer, ih untracked]
  | case3 | case4 => rfl
  | case1 | case2 => exact absurd rfl untracked

section Counting

variable (consumer : Identifier) (singleton : Bool) {x : Identifier}

/-- A reference counts once for its consumer wherever its chain comes and consumers are kept. -/
lemma referenceCount_recordReference (way : ReflTransGen (g.Forwards consumer) k x)
    (tracked : g.IsTracked x) :
    (g.recordReference consumer singleton k).referenceCount x consumer =
      g.referenceCount x consumer + 1 := by
  have defined : g.contains x := by
    obtain ⟨d, hd, -⟩ := Option.bind_eq_some_iff.1 (Option.isSome_iff_exists.1 tracked).choose_spec
    simp [hd]
  have onChain : x ∈ g.chain consumer k := mem_chain_iff.2 ⟨defined, way⟩
  rw [referenceCount, referrer?_recordReference (.refl g) tracked, if_pos ⟨onChain, rfl⟩]
  rfl

/-- Counting changes nothing where its chain does not come or no consumers are kept. -/
lemma find?_recordReference_of_apart
    (apart : ¬(ReflTransGen (g.Forwards consumer) k x ∧ g.IsTracked x)) :
    (g.recordReference consumer singleton k).find? x = g.find? x := by
  rw [find?_recordReference]
  split
  · next onChain =>
    cases hd : g.find? x with
    | none => rfl
    | some d =>
      have untracked : ¬g.IsTracked x := fun h => apart ⟨(mem_chain_iff.1 onChain).2, h⟩
      rw [Option.map_some, addReferrer_of_not_isTracked hd untracked]
  · rfl

end Counting

/-! ### Following and counting -/

/-- Ways are followed to their ends, and references counted along them, in at most one round more
than there are definitions. -/
structure FollowsWays (g : Graph) : Prop where
  target {consumer : Option Identifier} {id : Identifier} {rounds : Nat}
    (enough : g.size < rounds) : g.targetFor consumer rounds [] id = some (g.target? consumer id)
  /-- Following comes back to where it was exactly if the way reaches no end. -/
  comesBack_iff {consumer : Option Identifier} {id : Identifier} :
    (∃ x, g.target? consumer id = .error (.config (.referenceCycle x))) ↔
      ∀ y, ReflTransGen (g.Passes consumer) id y → ¬g.IsEnd consumer y
  /-- What following comes back to lies ahead, and on a cycle. -/
  onCycle {consumer : Option Identifier} {id x : Identifier}
    (comesBack : g.target? consumer id = .error (.config (.referenceCycle x))) :
    ReflTransGen (g.Passes consumer) id x ∧ TransGen (g.Passes consumer) x x
  count {consumer : Identifier} {singleton : Bool} {id : Identifier} {rounds : Nat}
    (enough : g.size < rounds) : countFor consumer singleton rounds [] id g =
      some (g.recordReference consumer singleton id)
  /-- Each class and each alias on the chain has one reference more. -/
  counted {consumer : Identifier} {singleton : Bool} {id x : Identifier} {d : Definition}
    (present : g.find? x = some d) (kind : (∃ c, d.core = .cls c) ∨ ∃ a, d.core = .alias a)
    (way : ReflTransGen (g.Forwards consumer) id x) :
    (g.recordReference consumer singleton id).referenceCount x consumer =
      g.referenceCount x consumer + 1
  /-- What is no class or alias, or not on the chain, stays as it is. -/
  uncounted {consumer : Identifier} {singleton : Bool} {id x : Identifier} {d : Definition}
    (present : g.find? x = some d)
    (apart : ¬(((∃ c, d.core = .cls c) ∨ ∃ a, d.core = .alias a) ∧
      ReflTransGen (g.Forwards consumer) id x)) :
    (g.recordReference consumer singleton id).find? x = some d
  /-- What other consumers refer to stays as it is. -/
  others {consumer other : Identifier} {singleton : Bool} {id x : Identifier}
    (ne : other ≠ consumer) :
    (g.recordReference consumer singleton id).referrer? x other = g.referrer? x other

/-- Following a way always ends, and finds exactly the ways that come back to themselves; counting
along a way always ends, and counts once. -/
theorem followsWays (g : Graph) : g.FollowsWays where
  target enough := targetFor_eq g.splits_start (g.length_identifiers ▸ enough)
  comesBack_iff := g.exists_cycle_iff _ _
  onCycle comesBack := transGen_of_target? comesBack
  count enough := countFor_eq g.splits_start (g.length_identifiers ▸ enough)
  counted present kind way :=
    referenceCount_recordReference _ _ way ((isTracked_iff present).2 kind)
  uncounted present apart := by
    rw [find?_recordReference_of_apart _ _ fun h => apart ⟨(isTracked_iff present).1 h.2, h.1⟩]
    exact present
  others ne := referrer?_recordReference_of_ne ne _ _

/-- A name that leads to two names for each other. -/
def mutualGraph : Graph :=
  ((({} : Graph).insertIfAbsent (.alias { id := "Start", target := "Left" })).insertIfAbsent
    (.alias { id := "Left", target := "Right" })).insertIfAbsent
      (.alias { id := "Right", target := "Left" })

/-- Following the first name comes back to the second one, and counting takes each name once. -/
theorem followsWays_mutualGraph :
    mutualGraph.target? none "Start" = .error (.config (.referenceCycle "Left")) ∧
      TransGen (mutualGraph.Passes none) "Left" "Left" ∧
      (mutualGraph.recordReference "Job" true "Start").referenceCount "Right" "Job" = 1 := by
  have follows := followsWays mutualGraph
  have rounds : mutualGraph.targetFor none 4 [] "Start" =
      some (.error (.config (.referenceCycle "Left"))) := by decide +kernel
  have comesBack := Option.some.inj ((follows.target (by decide +kernel)).symm.trans rounds)
  have first : mutualGraph.Forwards "Job" "Start" "Left" := rfl
  have second : mutualGraph.Forwards "Job" "Left" "Right" := rfl
  refine ⟨comesBack, (follows.onCycle comesBack).2, ?_⟩
  exact follows.counted (d := .alias { id := "Right", target := "Left" }) rfl (.inr ⟨_, rfl⟩)
    (.head first (.single second))

end Injector.Graph
