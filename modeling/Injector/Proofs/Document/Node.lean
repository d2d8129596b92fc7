import Injector.Config.Encode
import Injector.Document.Node
import Injector.Proofs.Table
import Mathlib.Data.List.Basic

/-!
# Decoding written values

The node of a written value is settled, and each way to decode it has an equation: the members of
an object are looked up by their names, and a list or a table is read back if each of its parts is.
-/

namespace Injector

open Node

variable {α β : Type}

lemma mapM_eq_some_map {l : List α} {f : α → Option β} {g : α → β}
    (each : ∀ a ∈ l, f a = some (g a)) : l.mapM f = some (l.map g) := by
  induction l with
  | nil => rfl
  | cons a l ih =>
    have rest := ih fun b hb => each b (List.mem_cons_of_mem a hb)
    rw [List.mapM_cons, each a List.mem_cons_self, rest]
    rfl

@[simp] lemma toNodes_eq_map (ds : List Document) : toNodes ds = ds.map Document.toNode := by
  induction ds with
  | nil => rfl
  | cons d ds ih => rw [toNodes, ih, List.map_cons]

@[simp] lemma toMembers_eq_map (ms : List (String × Document)) :
    toMembers ms = ms.map fun m => (.ofText m.1, m.2.toNode) := by
  induction ms with
  | nil => rfl
  | cons m ms ih => rw [toMembers, ih, List.map_cons]

/-! ### Settled nodes -/

mutual

/-- Every atom of a written value is what its own kind says, and nothing in it has a mark. -/
lemma Document.settle_toNode : (d : Document) → d.toNode.settle = some d.toNode
  | .null | .bool _ | .integer _ | .text _ => rfl
  | .float x => by
    rw [Document.toNode]
    cases x.isFinite <;> rfl
  | .list items => by
    rw [Document.toNode, Node.settle, settleItems_toNodes items]
    rfl
  | .object members => by
    rw [Document.toNode, Node.settle, settleMembers_toMembers members]
    rfl
  | .tagged tag value => by
    rw [Document.toNode, Node.settle, settleMembers, Document.settle_toNode value]
    rfl

lemma settleItems_toNodes : (ds : List Document) → settleItems (toNodes ds) = some (toNodes ds)
  | [] => rfl
  | d :: ds => by
    rw [toNodes, settleItems, d.settle_toNode, settleItems_toNodes ds]
    rfl

lemma settleMembers_toMembers : (ms : List (String × Document)) →
    settleMembers (toMembers ms) = some (toMembers ms)
  | [] => rfl
  | (k, d) :: ms => by
    rw [toMembers, settleMembers, d.settle_toNode, settleMembers_toMembers ms]
    rfl

end

namespace Document

/-! ### Atoms -/

@[simp] lemma text?_toNode (s : String) : text? (text s).toNode = some s := rfl

@[simp] lemma bool?_toNode (b : Bool) : bool? (bool b).toNode = some b := rfl

@[simp] lemma optional?_toNode (o : Option String) :
    optional? text? (ofText? o).toNode = some o := by
  cases o <;> rfl

/-! ### Collections -/

/-- A list is read back if each of its items is. -/
lemma list?_toNode {f : α → Document} {read : Node → Option α} {l : List α}
    (each : ∀ a ∈ l, read (f a).toNode = some a) :
    list? read (list (l.map f)).toNode = some l := by
  have items : l.mapM (fun a => read (f a).toNode) = some l := by
    simpa using mapM_eq_some_map each
  simpa [Document.toNode, list?, unmarked, List.mapM_map, Function.comp_def] using items

@[simp] lemma list?_toNode_ofTexts (l : List String) :
    list? text? (ofTexts l).toNode = some l :=
  list?_toNode fun s _ => text?_toNode s

/-- A table is read back if each of its values is. -/
lemma table?_toNode {f : α → Document} {read : Node → Option α} {t : Table α}
    (each : ∀ a ∈ t.values, read (f a).toNode = some a) :
    table? read (Table.document f t).toNode = some t := by
  have members : (toMembers (t.entries.map fun e => (e.1, f e.2))).mapM
      (fun (m : Node × Node) => do return (← m.1.text?, ← read m.2)) = some t.entries := by
    rw [toMembers_eq_map, List.mapM_map, List.mapM_map]
    refine (mapM_eq_some_map (g := id) fun e he => ?_).trans (by rw [List.map_id])
    simp [each e.2 (List.mem_map_of_mem he), ofText, Scalar.node, Scalar.atom, text?]
  calc table? read (Table.document f t).toNode
      = (some t.entries).map Table.ofList := congrArg (Option.map Table.ofList) members
    _ = some t := congrArg some t.ofList_entries

/-! ### Members -/

/-- Of the members with different names, the one with a name is where the name is looked up. -/
lemma filter_toMembers {ms : List (String × Document)} (nodup : (ms.map (·.1)).Nodup)
    (names : List String) (name : String) :
    ((toMembers ms).filter fun m => memberName? names m.1 = some name) =
      ((ms.lookup name).map fun d => (.ofText name, d.toNode)).toList := by
  induction ms with
  | nil => rfl
  | cons m ms ih =>
    obtain ⟨k, d⟩ := m
    obtain ⟨first, nodup⟩ := List.nodup_cons.1 nodup
    have read : memberName? names (.ofText k) = some k := rfl
    rw [toMembers, List.filter_cons, ih nodup, lookup_cons, read]
    by_cases hk : k = name
    · subst hk
      have later : ms.lookup k = none := List.lookup_eq_none_iff.2 fun m hm =>
        bne_iff_ne.2 fun eq => first (List.mem_map.2 ⟨m, hm, eq.symm⟩)
      simp [later]
    · simp [hk, Ne.symm hk]

/-- The members of a written object are looked up by their names. -/
lemma record?_toNode {ms : List (String × Document)} (nodup : (ms.map (·.1)).Nodup)
    (names : List String) :
    (object ms).toNode.record? names =
      some (names.map fun name => (ms.lookup name).map Document.toNode) := by
  have named : ((toMembers ms).all fun m => (memberName? names m.1).isSome) = true := by
    simp only [toMembers_eq_map, List.all_map, List.all_eq_true]
    exact fun m _ => rfl
  have each : ∀ name ∈ names,
      member? names (toMembers ms) name = some ((ms.lookup name).map Document.toNode) := by
    intro name _
    rw [member?, filter_toMembers nodup]
    cases ms.lookup name <;> rfl
  have members : (object ms).toNode.record? names = names.mapM (member? names (toMembers ms)) :=
    if_pos named
  rw [members, mapM_eq_some_map each]

/-- A section is written as an object. -/
lemma section?_toNode {ms : List (String × Document)} (nodup : (ms.map (·.1)).Nodup)
    (names : List String) :
    (object ms).toNode.section? names =
      some (names.map fun name => (ms.lookup name).map Document.toNode) :=
  record?_toNode nodup names

end Document

end Injector
