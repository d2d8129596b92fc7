import Injector.Proofs.Graph.Search
import Mathlib.Algebra.BigOperators.Group.List.Basic
import Mathlib.Algebra.GroupWithZero.Nat
import Mathlib.Data.List.Perm.Subperm
import Mathlib.Logic.Function.Iterate

/-!
# The walk and the search

The survey from an identifier ends with an empty queue, and knows the dependencies of all that it
has found. The walk through it ends with an empty stack, and has finished what the search in depth
has done, in the same order: what lies on the stack above a node is where the search still has to go
before the node is done.
-/

namespace Injector

lemma repeat_eq_iterate {α : Type} (f : α → α) (n : Nat) (a : α) : Nat.repeat f n a = f^[n] a := by
  induction n with
  | zero => rfl
  | succ n ih =>
    rw [Function.iterate_succ_apply', ← ih]
    rfl

/-! ### The survey -/

namespace Survey

variable {g : Graph} {s s' : Survey} {id a : Identifier} {seen : List Identifier}

/-- What is added to a survey by the edges from a node to some others. -/
structure Links (a : Identifier) (bs new : List Identifier) (s s' : Survey) : Prop where
  nodes : s'.nodes = s.nodes ++ new
  queue : s'.queue = s.queue ++ new
  edges : s'.edges = s.edges ++ bs.map (a, ·)
  nodup : s'.nodes.Nodup
  found : ∀ b ∈ bs, b ∈ s'.nodes
  new : ∀ b ∈ new, b ∈ bs

/-- An edge to a node that is known is all that is added. -/
lemma Links.of_mem {b : Identifier} {bs new : List Identifier} (known : b ∈ s.nodes)
    (others : Links a bs new (link a s b) s') : Links a (b :: bs) new s s' := by
  have first : link a s b = { s with edges := s.edges ++ [(a, b)] } := by
    simp only [link, if_pos known]
  rw [first] at others
  constructor
  · exact others.nodes
  · exact others.queue
  · rw [others.edges, List.map_cons, List.append_assoc, List.singleton_append]
  · exact others.nodup
  · intro c hc
    rcases List.mem_cons.1 hc with rfl | hc
    · rw [others.nodes]
      exact List.mem_append_left new known
    · exact others.found c hc
  · intro c hc
    exact List.mem_cons_of_mem b (others.new c hc)

/-- With an edge to a node that is new, the node is added. -/
lemma Links.of_not_mem {b : Identifier} {bs new : List Identifier} (unknown : b ∉ s.nodes)
    (others : Links a bs new (link a s b) s') : Links a (b :: bs) (b :: new) s s' := by
  have first : link a s b = ⟨s.nodes ++ [b], s.edges ++ [(a, b)], s.queue ++ [b]⟩ := by
    simp only [link, if_neg unknown]
  rw [first] at others
  constructor
  · rw [others.nodes, List.append_assoc, List.singleton_append]
  · rw [others.queue, List.append_assoc, List.singleton_append]
  · rw [others.edges, List.map_cons, List.append_assoc, List.singleton_append]
  · exact others.nodup
  · intro c hc
    rcases List.mem_cons.1 hc with rfl | hc
    · rw [others.nodes]
      simp
    · exact others.found c hc
  · intro c hc
    rcases List.mem_cons.1 hc with rfl | hc
    · exact List.mem_cons_self
    · exact List.mem_cons_of_mem b (others.new c hc)

lemma nodup_link (nodup : s.nodes.Nodup) (b : Identifier) : (link a s b).nodes.Nodup := by
  by_cases known : b ∈ s.nodes
  · simpa only [link, if_pos known] using nodup
  · simpa only [link, if_neg known, List.concat_eq_append] using nodup.concat known

lemma exists_links (nodup : s.nodes.Nodup) (bs : List Identifier) :
    ∃ new, Links a bs new s (bs.foldl (link a) s) := by
  induction bs generalizing s with
  | nil => exact ⟨[], by simp, by simp, by simp, nodup, by simp, by simp⟩
  | cons b bs ih =>
    obtain ⟨new, others⟩ := ih (nodup_link nodup b)
    by_cases known : b ∈ s.nodes
    · exact ⟨new, others.of_mem known⟩
    · exact ⟨b :: new, others.of_not_mem known⟩

/-- The edges from some nodes to all their dependencies. -/
def edgesFrom (g : Graph) (nodes : List Identifier) : List (Identifier × Identifier) :=
  nodes.flatMap fun a => (g.edges a).map (a, ·)

/-- A survey has looked up the dependencies of some nodes, and the others are queued. -/
structure HasSeen (g : Graph) (id : Identifier) (seen : List Identifier) (s : Survey) : Prop where
  nodes : s.nodes = seen ++ s.queue
  nodup : s.nodes.Nodup
  edges : s.edges = edgesFrom g seen
  closed : ∀ a ∈ seen, ∀ b ∈ g.edges a, b ∈ s.nodes
  defined : ∀ a ∈ s.nodes, g.contains a
  start : id ∈ s.nodes

lemma hasSeen_start (defined : g.contains id) :
    HasSeen g id [] { nodes := [id], queue := [id] } where
  nodes := rfl
  nodup := List.nodup_singleton id
  edges := rfl
  closed a ha := nomatch ha
  defined a ha := by
    rw [List.mem_singleton.1 ha]
    exact defined
  start := List.mem_singleton_self id

/-- A round sees one more node. -/
lemma HasSeen.next {rest : List Identifier} (h : HasSeen g id seen s)
    (queued : s.queue = a :: rest) : HasSeen g id (seen ++ [a]) (s.next g) := by
  obtain ⟨new, links⟩ := exists_links (a := a) (s := { s with queue := rest }) h.nodup (g.edges a)
  have round : s.next g = (g.edges a).foldl (link a) { s with queue := rest } := by
    rw [Survey.next, queued]
  rw [← round] at links
  have nodes : (s.next g).nodes = s.nodes ++ new := links.nodes
  constructor
  · rw [nodes, links.queue, h.nodes, queued]
    simp
  · exact links.nodup
  · rw [links.edges, h.edges, edgesFrom, edgesFrom, List.flatMap_append, List.flatMap_singleton]
  · intro c hc b hb
    rcases List.mem_append.1 hc with hc | hc
    · rw [nodes]
      exact List.mem_append_left new (h.closed c hc b hb)
    · rw [List.mem_singleton.1 hc] at hb
      exact links.found b hb
  · intro c hc
    rw [nodes] at hc
    rcases List.mem_append.1 hc with hc | hc
    · exact h.defined c hc
    · exact Graph.Edge.contains (links.new c hc)
  · rw [nodes]
    exact List.mem_append_left new h.start

/-- After some rounds as many nodes are seen, unless the queue was empty before. -/
lemma exists_hasSeen (defined : g.contains id) (n : Nat) :
    ∃ seen, HasSeen g id seen ((next g)^[n] { nodes := [id], queue := [id] }) ∧
      (((next g)^[n] { nodes := [id], queue := [id] }).queue = [] ∨ seen.length = n) := by
  induction n with
  | zero => exact ⟨[], hasSeen_start defined, .inr rfl⟩
  | succ n ih =>
    obtain ⟨seen, h, ended⟩ := ih
    rw [Function.iterate_succ_apply']
    cases queued : ((next g)^[n] { nodes := [id], queue := [id] }).queue with
    | nil =>
      refine ⟨seen, ?_⟩
      rw [Survey.next, queued]
      exact ⟨h, .inl queued⟩
    | cons a rest =>
      refine ⟨seen ++ [a], h.next queued, .inr ?_⟩
      rw [queued] at ended
      rw [List.length_append, ended.resolve_left (List.cons_ne_nil a rest), List.length_singleton]

lemma HasSeen.length_nodes_le (h : HasSeen g id seen s) : s.nodes.length ≤ g.size := by
  have sub : s.nodes ⊆ g.identifiers := fun a ha =>
    (g.definitions.mem_keys_iff a).2 (h.defined a ha)
  rw [← g.length_identifiers]
  exact (List.subperm_of_subset h.nodup sub).length_le

/-- When the survey ends, the queue is empty. -/
theorem queue_survey (defined : g.contains id) : (g.survey id).queue = [] := by
  rw [Graph.survey, repeat_eq_iterate]
  obtain ⟨seen, h, ended⟩ := exists_hasSeen defined g.size
  rcases ended with ended | ended
  · exact ended
  · have length := h.length_nodes_le
    rw [h.nodes, List.length_append, ended] at length
    exact List.length_eq_zero_iff.1 (by omega)

/-- When the survey ends, all its nodes have been seen. -/
lemma hasSeen_survey (defined : g.contains id) :
    HasSeen g id (g.survey id).nodes (g.survey id) := by
  have ended := queue_survey defined
  rw [Graph.survey, repeat_eq_iterate] at ended ⊢
  obtain ⟨seen, h, -⟩ := exists_hasSeen defined g.size
  have nodes := h.nodes
  rw [ended, List.append_nil] at nodes
  rw [nodes]
  exact h

lemma map_snd_filter_edgesFrom (nodup : seen.Nodup) :
    (((edgesFrom g seen).filter (·.1 = a)).map (·.2)) = if a ∈ seen then g.edges a else [] := by
  induction seen with
  | nil => rfl
  | cons c seen ih =>
    obtain ⟨new, nodup⟩ := List.nodup_cons.1 nodup
    have first : (((g.edges c).map (c, ·)).filter (·.1 = a)).map (·.2) =
        if c = a then g.edges c else [] := by
      rw [List.filter_map, List.map_map]
      by_cases h : c = a <;> simp [h, Function.comp_def]
    have parts : edgesFrom g (c :: seen) = (g.edges c).map (c, ·) ++ edgesFrom g seen := rfl
    rw [parts, List.filter_append, List.map_append, first, ih nodup]
    by_cases h : c = a
    · subst h
      simp [new]
    · simp [h, Ne.symm h]

/-- The neighbours of a node that has been seen are its dependencies, backwards. -/
lemma HasSeen.neighbours (h : HasSeen g id seen s) (ha : a ∈ seen) :
    s.neighbours a = (g.edges a).reverse := by
  have nodup := h.nodup
  rw [h.nodes] at nodup
  rw [Survey.neighbours, h.edges, map_snd_filter_edgesFrom nodup.of_append_left, if_pos ha]

end Survey

/-! ### The walk -/

namespace Walk

variable {g : Graph} {t t' t'' : Search} {id a : Identifier}

/-- A walk that has come as far as a search, with something left on its stack. -/
def along (t : Search) (stack : List Identifier) : Walk := ⟨stack, t.met, t.done⟩

lemma foldl_push (w : Walk) (bs : List Identifier) : bs.foldl push w =
    { w with stack := (bs.filter (· ∉ w.discovered)).reverse ++ w.stack } := by
  induction bs generalizing w with
  | nil => rfl
  | cons b bs ih =>
    rw [List.foldl_cons, ih, push]
    by_cases h : b ∈ w.discovered <;> simp [h]

/-- The rounds that are still due: one for each node that is not discovered, and one for each edge
from there. -/
def due (g : Graph) (nodes : List Identifier) (t : Search) : Nat :=
  ((nodes.filter (· ∉ t.met)).map fun a => (g.edges a).length + 1).sum

lemma due_eq {nodes : List Identifier} (nodup : nodes.Nodup) (ha : a ∈ nodes) (new : a ∉ t.met) :
    due g nodes t = due g nodes { t with met := a :: t.met } + (g.edges a).length + 1 := by
  have others : (nodes.filter (· ∉ t.met)).erase a = nodes.filter (· ∉ a :: t.met) := by
    rw [(nodup.filter _).erase_eq_filter, List.filter_filter]
    apply List.filter_congr
    intro b _
    by_cases h : b = a <;> simp [h]
  have first : a ∈ nodes.filter (· ∉ t.met) := List.mem_filter.2 ⟨ha, by simpa using new⟩
  have sum := ((List.perm_cons_erase first).map fun a => (g.edges a).length + 1).sum_eq
  rw [others, List.map_cons, List.sum_cons] at sum
  rw [due, sum]
  show (g.edges a).length + 1 + due g nodes { t with met := a :: t.met } = _
  omega

/-- From wherever the search is at first, the walk takes some nodes off the stack and comes to where
the search is then, in rounds that were due: one for each of the nodes, and those of what is
discovered on the way. -/
def Follows (g : Graph) (s : Survey) (js : List Identifier) (t t' : Search) : Prop :=
  ∀ rest, ∃ n, n + due g s.nodes t' ≤ js.length + due g s.nodes t ∧
    (next s)^[n] (along t (js ++ rest)) = along t' rest

variable {s : Survey}

lemma Follows.nil (t : Search) : Follows g s [] t t := fun _ => ⟨0, by simp, rfl⟩

lemma Follows.cons {j : Identifier} {js : List Identifier} (first : Follows g s [j] t t')
    (others : Follows g s js t' t'') : Follows g s (j :: js) t t'' := by
  intro rest
  obtain ⟨n, le, rounds⟩ := first (js ++ rest)
  obtain ⟨n', le', rounds'⟩ := others rest
  refine ⟨n' + n, ?_, ?_⟩
  · rw [List.length_singleton] at le
    rw [List.length_cons]
    omega
  · rw [Function.iterate_add_apply]
    show (next s)^[n'] ((next s)^[n] (along t ([j] ++ (js ++ rest)))) = along t'' rest
    rw [rounds, rounds']

/-- A node that is finished is taken off the stack. -/
lemma Follows.of_mem_done (met : id ∈ t.met) (done : id ∈ t.done) : Follows g s [id] t t := by
  intro rest
  refine ⟨1, Nat.le_refl _, ?_⟩
  show next s (along t (id :: rest)) = along t rest
  simp [next, along, met, done]

/-- A node that is new stays on the stack until its neighbours are taken off, and is finished
then. -/
lemma Follows.of_not_mem_met {root : Identifier} (full : Survey.HasSeen g root s.nodes s)
    (mem : id ∈ s.nodes) (new : id ∉ t.met)
    (below : Follows g s ((g.edges id).filter (· ∉ id :: t.met)) { t with met := id :: t.met } t')
    (met : id ∈ t'.met) (unfinished : id ∉ t'.done) :
    Follows g s [id] t { t' with done := id :: t'.done } := by
  intro rest
  obtain ⟨n, le, rounds⟩ := below (id :: rest)
  have discover : next s (along t (id :: rest)) =
      along { t with met := id :: t.met }
        ((g.edges id).filter (· ∉ id :: t.met) ++ id :: rest) := by
    simp only [next, along, if_pos new, foldl_push, full.neighbours mem, List.filter_reverse,
      List.reverse_reverse]
  have finish : next s (along t' (id :: rest)) =
      along { t' with done := id :: t'.done } rest := by
    simp [next, along, met, unfinished]
  refine ⟨1 + (n + 1), ?_, ?_⟩
  · have pushed := List.length_filter_le (fun b => decide (b ∉ id :: t.met)) (g.edges id)
    have dueAfter : due g s.nodes { t' with done := id :: t'.done } = due g s.nodes t' := rfl
    rw [dueAfter, due_eq full.nodup mem new, List.length_singleton]
    omega
  · rw [Function.iterate_add_apply, Function.iterate_succ_apply]
    show (next s)^[1] ((next s)^[n] (next s (along t (id :: rest)))) = _
    rw [discover, rounds, Function.iterate_one, finish]

/-- While the walk goes through the nodes that it put on the stack together, the search goes through
all dependencies: those that were left out had been met before. -/
lemma follows_foldl_visit {depth : Nat} {unmet : List Identifier}
    (enough : unmet.length ≤ depth)
    (follows : ∀ {t : Search} {j : Identifier}, Search.IsSound g t → Search.LeadsTo g t j →
      Search.MeetsAllBut g t unmet → j ∈ s.nodes → (j ∈ t.met → j ∈ t.done) →
      Follows g s [j] t (g.visit depth t j))
    {js : List Identifier} (nodes : ∀ j ∈ js, j ∈ s.nodes) (edges : ∀ j ∈ js, g.Edge id j)
    (sound : Search.IsSound g t) (leads : Search.LeadsTo g t id)
    (meets : Search.MeetsAllBut g t unmet) {before : List Identifier}
    (metBefore : ∀ k ∈ before, k ∈ t.met) (since : ∀ k ∈ t.met, k ∈ before ∨ k ∈ t.done) :
    Follows g s (js.filter (· ∉ before)) t (js.foldl (g.visit depth) t) := by
  induction js generalizing t with
  | nil => exact .nil t
  | cons j js ih =>
    have edge : g.Edge id j := edges j List.mem_cons_self
    have nodes' : ∀ j' ∈ js, j' ∈ s.nodes := fun j' hj => nodes j' (List.mem_cons_of_mem j hj)
    have edges' : ∀ j' ∈ js, g.Edge id j' := fun j' hj => edges j' (List.mem_cons_of_mem j hj)
    rw [List.foldl_cons]
    by_cases known : j ∈ before
    · rw [Search.visit_of_mem (metBefore j known), List.filter_cons_of_neg (by simpa using known)]
      exact ih nodes' edges' sound leads meets metBefore since
    · rw [List.filter_cons_of_pos (by simpa using known)]
      have first := Search.visited_visit enough sound (leads.of_edge edge) meets edge.contains
      refine .cons (follows sound (leads.of_edge edge) meets (nodes j List.mem_cons_self)
        fun met => (since j met).resolve_left known) ?_
      refine ih nodes' edges' first.sound (leads.of_extends first.extend)
        (meets.of_extends first.extend) (fun k hk => first.extend.met k (metBefore k hk)) ?_
      intro k hk
      rcases first.extend.finished k hk with hk | hk
      · exact (since k hk).imp_right fun hk => first.extend.done.subset hk
      · exact .inr hk

/-- The walk follows the search from an identifier that is not underway. -/
theorem follows_visit {root : Identifier} (full : Survey.HasSeen g root s.nodes s)
    {depth : Nat} {unmet : List Identifier} (enough : unmet.length ≤ depth)
    (sound : Search.IsSound g t) (leads : Search.LeadsTo g t id)
    (meets : Search.MeetsAllBut g t unmet) (mem : id ∈ s.nodes)
    (settled : id ∈ t.met → id ∈ t.done) : Follows g s [id] t (g.visit depth t id) := by
  induction depth generalizing t id unmet with
  | zero =>
    obtain rfl := List.length_eq_zero_iff.1 (Nat.le_zero.1 enough)
    have met : id ∈ t.met := (meets id (full.defined id mem)).resolve_right List.not_mem_nil
    exact .of_mem_done met (settled met)
  | succ depth ih =>
    by_cases new : id ∈ t.met
    · rw [Search.visit_of_mem new]
      exact .of_mem_done new (settled new)
    have hid : id ∈ unmet := (meets id (full.defined id mem)).resolve_left new
    have enough' : (unmet.erase id).length ≤ depth := by
      rw [List.length_erase_of_mem hid]
      omega
    rw [Graph.visit, if_neg new]
    obtain ⟨-, extend, -⟩ := Search.foldl_visit
      (fun sound leads meets defined => Search.visited_visit enough' sound leads meets defined)
      (fun j hj => hj) (sound.meet id) leads.meet (meets.meet id)
    apply Follows.of_not_mem_met full mem new
    · apply follows_foldl_visit enough' (fun sound leads meets => ih enough' sound leads meets)
        (full.closed id mem) (fun j hj => hj) (sound.meet id) leads.meet (meets.meet id)
      · exact fun k hk => hk
      · exact fun k hk => .inl hk
    · exact extend.met id List.mem_cons_self
    · exact extend.not_mem_done sound new

end Walk

/-! ### The order -/

namespace Graph

variable {g : Graph} {id : Identifier}

/-- When the walk ends, its stack is empty, and it has come as far as the search. -/
theorem walk_survey (defined : g.contains id) :
    (g.survey id).walk id = Walk.along (g.visit g.size {} id) [] := by
  have full := Survey.hasSeen_survey defined
  obtain ⟨n, le, rounds⟩ := Walk.follows_visit full (Nat.le_of_eq g.length_identifiers)
    (.start g) (.start g id) (.start g) full.start (fun h => nomatch h) []
  have due : Walk.due g (g.survey id).nodes {} =
      (g.survey id).nodes.length + (g.survey id).edges.length := by
    rw [full.edges, Survey.edgesFrom, List.length_flatMap, Walk.due, List.sum_map_add]
    simp [Nat.add_comm]
  have enough : n ≤ (g.survey id).nodes.length + (g.survey id).edges.length + 1 := by
    rw [List.length_singleton, due] at le
    omega
  have start : ({ stack := [id] } : Walk) = Walk.along {} ([id] ++ []) := rfl
  have ended : Walk.next (g.survey id) (Walk.along (g.visit g.size {} id) []) =
      Walk.along (g.visit g.size {} id) [] := rfl
  rw [Survey.walk, repeat_eq_iterate, ← Nat.sub_add_cancel enough, Function.iterate_add_apply,
    start, rounds, Function.iterate_fixed ended]

/-- The dependency order is the order in which the search is done. -/
theorem dependencyOrder_of_contains (defined : g.contains id) :
    g.dependencyOrder id = (g.visit g.size {} id).done.reverse := by
  rw [dependencyOrder, if_pos defined, walk_survey defined]
  rfl

end Graph

end Injector
