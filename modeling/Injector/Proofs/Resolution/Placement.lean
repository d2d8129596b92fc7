import Injector.Proofs.Graph.Placement
import Injector.Proofs.Resolution.Outcome
import Injector.Session

/-!
# Resolution without placement

A wiring that places nothing does task by task what any other wiring does, on the graphs without
placement. So what goes to files of its own shows in nothing but the placement of definitions: not in
whether a resolution succeeds, not in its error, and not in what it comes to otherwise.
-/

namespace Injector

/-! ### Everything without placement -/

/-- A class whose body stays in the main file. -/
def ClassDefinition.unplaced (c : ClassDefinition) : ClassDefinition := { c with fileBased := false }

/-- A task that places nothing. -/
def Task.unplaced : Task → Task
  | .request id consumer _ => .request id consumer false
  | .check id consumer => .check id consumer
  | .count id consumer singleton => .count id consumer singleton
  | .discoverFields c _ => .discoverFields c.unplaced false
  | .complete c => .complete c.unplaced
  | .fail e => .fail e

def EntryPoint.unplaced (e : EntryPoint) : EntryPoint := { e with fileBased := false }

def EntryPoints.unplaced (e : EntryPoints) : EntryPoints := ⟨e.entries.map EntryPoint.unplaced⟩

def EntryConfig.unplaced (e : EntryConfig) : EntryConfig := { e with fileBased := false }

/-- A configuration without its settings for files. -/
def Config.unplaced (c : Config) : Config :=
  { c with files := {}, entryPoints := c.entryPoints.map EntryConfig.unplaced }

/-- A wiring that places nothing. -/
def Wiring.unplaced (w : Wiring) : Wiring where
  config := w.config.unplaced
  provider := w.provider
  mode := .runtime
  entries := w.entries.unplaced
  hints := w.hints

/-! ### Entry points -/

namespace EntryPoints

variable (e : EntryPoints)

@[simp] lemma find?_unplaced (id : Identifier) :
    e.unplaced.find? id = (e.find? id).map EntryPoint.unplaced := by
  rw [find?, unplaced, List.find?_map]
  rfl

@[simp] lemma contains_unplaced (id : Identifier) : e.unplaced.contains id = e.contains id := by
  simp [contains]

@[simp] lemma identifiers_unplaced : e.unplaced.identifiers = e.identifiers := by
  rw [identifiers, unplaced, List.flatMap_map]
  rfl

end EntryPoints

/-! ### Definitions -/

section Definitions

variable (entries : EntryPoints) (hints : HintTable) (id cls : Identifier) (s : ClassSettings)
  (placed : Bool)

lemma classDefinition_unplaced :
    (classDefinition entries cls s placed).unplaced =
      classDefinition entries.unplaced cls s false := by
  simp only [classDefinition, EntryPoints.find?_unplaced]
  cases entries.find? cls <;> rfl

lemma implementation?_unplaced :
    (implementation? entries hints cls s placed).map Definition.clearEntry =
      implementation? entries.unplaced hints cls s false := by
  simp only [implementation?, ← classDefinition_unplaced entries _ _ placed]
  split
  · rfl
  · split <;> rfl
  · rfl

lemma classBinding_unplaced :
    (classBinding entries hints id cls s placed).map Definition.clearEntry =
      classBinding entries.unplaced hints id cls s false := by
  simp only [classBinding, ← classDefinition_unplaced entries _ _ placed,
    ← implementation?_unplaced entries _ _ _ placed, EntryPoints.contains_unplaced]
  split
  · rfl
  · cases implementation? entries hints cls s placed <;> rfl

lemma contextBinding_unplaced (t : ContextTable) :
    (contextBinding entries hints id t placed).map Definition.clearEntry =
      contextBinding entries.unplaced hints id t false := by
  have others : t.classes.filterMap (fun cls =>
        implementation? entries.unplaced hints cls { scope := t.scope } false) =
      (t.classes.filterMap fun cls =>
        implementation? entries hints cls { scope := t.scope } placed).map
          Definition.clearEntry := by
    rw [List.map_filterMap]
    exact List.filterMap_congr fun cls _ =>
      (implementation?_unplaced entries hints cls _ placed).symm
  have first : (Definition.perConsumer id t.scope (entries.contains id)
        (t.default.map (branch id t.scope placed))
        (t.consumers.mapValues fun _ => branch id t.scope placed).entries).clearPlacement =
      .perConsumer id t.scope (entries.contains id) (t.default.map (branch id t.scope false))
        (t.consumers.mapValues fun _ => branch id t.scope false).entries := by
    rw [Definition.clearPlacement, Definition.clearDefault_eq, Definition.clearBranches_eq,
      Option.map_map, Table.mapValues, Table.mapValues, List.map_map]
    rfl
  rw [contextBinding, contextBinding, others, EntryPoints.contains_unplaced, ← first]
  rfl

/-- What a hint makes is the same whether it is placed or not. -/
lemma definitions_unplaced (hint : Hint) :
    (hint.definitions entries hints id placed).map (·.map Definition.clearEntry) =
      hint.definitions entries.unplaced hints id false := by
  cases hint with
  | exact binding =>
    cases binding with
    | byClass cls s => exact congrArg Except.ok (classBinding_unplaced entries hints id cls s placed)
    | perConsumer t => exact congrArg Except.ok (contextBinding_unplaced entries hints id placed t)
  | wildcard hint =>
    simp only [Hint.definitions]
    split
    · exact congrArg Except.ok (classBinding_unplaced entries hints id _ _ placed)
    · rfl

end Definitions

/-! ### Tasks -/

section Tasks

variable (c : ClassDefinition) (kind : MemberKind) (placed : Bool)

@[simp] lemma memberTasks_unplaced (name : String) (source : Option Source) :
    (memberTasks c kind placed name source).map Task.unplaced =
      memberTasks c.unplaced kind false name source := by
  rcases source with _ | _ | _ | _ <;> rfl

@[simp] lemma overrideTasks_unplaced (overrides : Overrides) (names : List String) :
    (overrideTasks c kind overrides names).map Task.unplaced =
      overrideTasks c.unplaced kind overrides names := by
  simp only [overrideTasks]
  split <;> rfl

lemma parameterTasks_unplaced (ps : List Parameter) :
    (parameterTasks c placed ps).map Task.unplaced = parameterTasks c.unplaced false ps := by
  simp only [parameterTasks, List.map_append, List.map_flatMap, memberTasks_unplaced,
    overrideTasks_unplaced]
  rfl

lemma fieldTask_unplaced (f : Field) :
    (fieldTask c placed f).map Task.unplaced = fieldTask c.unplaced false f := by
  have overrides : c.unplaced.overriddenFields = c.overriddenFields := rfl
  simp only [fieldTask, overrides]
  split
  · split
    · rfl
    · exact memberTasks_unplaced ..
  · rfl

lemma fieldTasks_unplaced (fs : List Field) :
    (fieldTasks c placed fs).map Task.unplaced = fieldTasks c.unplaced false fs := by
  simp only [fieldTasks, List.map_append, List.map_flatMap, fieldTask_unplaced,
    overrideTasks_unplaced]
  rfl

end Tasks

namespace Wiring

variable (w : Wiring)

lemma directTasks_unplaced (id : Identifier) (consumer : Option Identifier) (d : Definition) :
    (directTasks id consumer d).map Task.unplaced = directTasks id consumer d.clearPlacement := by
  simp only [directTasks, Definition.forward?_clearPlacement, Definition.scope_clearPlacement]
  split <;> rfl

lemma hintedTasks_unplaced (g : Graph) (id : Identifier) (consumer : Option Identifier)
    (placed : Bool) (made : List Identifier) :
    (hintedTasks g id consumer placed made).map Task.unplaced =
      hintedTasks g.unplaced id consumer false made := by
  simp only [hintedTasks, List.map_append, List.map_map, Graph.find?_unplaced]
  congr 1
  cases g.find? id with
  | none => rfl
  | some d =>
    have asked : (d.dependencies.map (fun k => Task.request k (some id) placed)
          ++ directTasks id consumer d).map Task.unplaced =
        d.clearPlacement.dependencies.map (fun k => Task.request k (some id) false)
          ++ directTasks id consumer d.clearPlacement := by
      rw [List.map_append, List.map_map, directTasks_unplaced,
        Definition.dependencies_clearPlacement]
      rfl
    cases d with
    | cls c => rfl
    | «alias» | container | perConsumer | autoloaded => exact asked

/-- What stays in the main file does so without placement. -/
lemma inlined_unplaced (ds : List (Identifier × Definition)) :
    (w.inlined ds).map Definition.clearEntry =
      w.unplaced.inlined (ds.map Definition.clearEntry) := by
  simp only [inlined, List.map_map]
  refine List.map_congr_left fun e _ => ?_
  simp only [Function.comp_apply, Definition.clearEntry, apply_ite Definition.clearPlacement,
    Definition.clearPlacement_clearPlacement, ite_self]

/-! ### One task -/

lemma define_unplaced (g : Graph) (id : Identifier) (consumer : Option Identifier)
    (placed : Bool) :
    (w.define g id consumer placed).map (fun s => (s.1.unplaced, s.2.map Task.unplaced)) =
      w.unplaced.define g.unplaced id consumer false := by
  have hints : w.unplaced.hints = w.hints := rfl
  have entries : w.unplaced.entries = w.entries.unplaced := rfl
  cases found : w.hints.find? id with
  | none =>
    have own : (Definition.cls (w.ownDefinition id (placed && !w.config.staysInline id))).clearPlacement
        = .cls (w.unplaced.ownDefinition id false) :=
      congrArg Definition.cls (classDefinition_unplaced w.entries id {} _)
    simp only [define, hints, found, Bool.false_and, ← own, Graph.insertIfAbsent_unplaced]
    rfl
  | some hint =>
    have defined := definitions_unplaced w.entries w.hints id
      (placed && !w.config.staysInline id) hint
    cases made : hint.definitions w.entries w.hints id (placed && !w.config.staysInline id) with
    | error e =>
      rw [made] at defined
      simp only [define, hints, entries, found, Bool.false_and, made, ← defined]
      rfl
    | ok ds =>
      rw [made] at defined
      have made' : hint.definitions w.unplaced.entries w.unplaced.hints id
          (false && !w.unplaced.config.staysInline id) = .ok (ds.map Definition.clearEntry) := by
        rw [Bool.false_and]
        exact defined.symm
      rw [define_of_hint g consumer found made,
        define_of_hint (w := w.unplaced) g.unplaced consumer found made', ← inlined_unplaced,
        Graph.insertAll_unplaced, Except.map, List.map_append, hintedTasks_unplaced]
      rfl

lemma discover_unplaced (g : Graph) (c : ClassDefinition) (placed : Bool) :
    (w.discover g c placed).map (fun s => (s.1.unplaced, s.2.map Task.unplaced)) =
      w.unplaced.discover g.unplaced c.unplaced false := by
  have parameters : w.unplaced.parametersOf c.id = w.parametersOf c.id := rfl
  have source : w.unplaced.provider.sourceUnit c.id = w.provider.sourceUnit c.id := rfl
  have hid : c.unplaced.id = c.id := rfl
  simp only [discover, hid, parameters, source]
  cases w.provider.sourceUnit c.id with
  | error e => rfl
  | ok unit =>
    cases w.parametersOf c.id with
    | error e => rfl
    | ok ps =>
      have tasks : (if w.config.injection.constructor then parameterTasks c placed ps
            else []).map Task.unplaced =
          if w.config.injection.constructor then parameterTasks c.unplaced false ps else [] := by
        split
        · exact parameterTasks_unplaced c placed ps
        · rfl
      refine congrArg Except.ok (Prod.ext ?_ ?_)
      · exact (g.adjust_unplaced Definition.clearPlacement_begun c.id).symm
      · exact List.map_append.trans (congrArg (· ++ _) tasks)

lemma discoverFields_unplaced (g : Graph) (c : ClassDefinition) (placed : Bool) :
    (w.discoverFields g c placed).map (fun s => (s.1.unplaced, s.2.map Task.unplaced)) =
      w.unplaced.discoverFields g.unplaced c.unplaced false := by
  have fields : w.unplaced.fieldsOf c.unplaced.id = w.fieldsOf c.id := rfl
  simp only [discoverFields, fields]
  cases w.fieldsOf c.id with
  | error e => rfl
  | ok fs =>
    have tasks : (if w.config.injection.fields then fieldTasks c placed fs
          else []).map Task.unplaced =
        if w.config.injection.fields then fieldTasks c.unplaced false fs else [] := by
      split
      · exact fieldTasks_unplaced c placed fs
      · rfl
    exact congrArg Except.ok (Prod.ext rfl (List.map_append.trans (congrArg (· ++ _) tasks)))

lemma checkBranch_unplaced (g : Graph) (id : Identifier) (consumer : Option Identifier) :
    checkBranch g.unplaced id consumer = checkBranch g id consumer := by
  simp only [checkBranch, Graph.find?_unplaced]
  cases g.find? id with
  | none => rfl
  | some d =>
    cases d with
    | perConsumer _ _ _ default branches =>
      simp only [Option.map_some, Definition.clearPlacement, Definition.branchFor?_clear]
      cases Definition.branchFor? default branches consumer <;> rfl
    | cls | «alias» | container | autoloaded => rfl

/-- A task does the same without placement, apart from placement. -/
theorem perform_unplaced (g : Graph) (t : Task) :
    (w.perform g t).map (fun s => (s.1.unplaced, s.2.map Task.unplaced)) =
      w.unplaced.perform g.unplaced t.unplaced := by
  cases t with
  | request id consumer placed =>
    simp only [perform, Task.unplaced, Graph.find?_unplaced]
    cases g.find? id with
    | none => exact w.define_unplaced g id consumer placed
    | some d =>
      cases d with
      | cls c =>
        simp only [Option.map_some, Definition.clearPlacement]
        split
        · exact w.discover_unplaced g c placed
        · rfl
      | «alias» | container | perConsumer | autoloaded => rfl
  | check id consumer =>
    simp only [perform, Task.unplaced, checkBranch_unplaced]
    cases checkBranch g id consumer <;> rfl
  | count id consumer singleton =>
    simp only [perform, Task.unplaced, Graph.recordReference_unplaced]
    rfl
  | discoverFields c placed => exact w.discoverFields_unplaced g c placed
  | complete c =>
    have completed := g.adjust_unplaced (Definition.clearPlacement_completed c) c.id
    exact congrArg (fun h => Except.ok (h, ([] : List Task))) completed.symm
  | fail e => rfl

/-! ### Runs -/

lemma runFor_unplaced (n : Nat) (g : Graph) (ts : List Task) :
    w.unplaced.runFor n g.unplaced (ts.map Task.unplaced) =
      (w.runFor n g ts).map (·.map Graph.unplaced) := by
  induction n generalizing g ts with
  | zero => rfl
  | succ n ih =>
    cases ts with
    | nil => rfl
    | cons t rest =>
      rw [List.map_cons, runFor, runFor, ← perform_unplaced]
      cases w.perform g t with
      | error e => rfl
      | ok s =>
        obtain ⟨g', next⟩ := s
        simp only [Except.map, ← List.map_append]
        exact ih g' (next ++ rest)

/-- A run comes to the same without placement, apart from placement, if it comes to an end. -/
theorem run_unplaced (g : Graph) (ts : List Task) :
    w.unplaced.run g.unplaced (ts.map Task.unplaced) =
      (w.run g ts).map (·.map Graph.unplaced) := by
  apply Option.ext
  intro r
  constructor
  · intro h
    obtain ⟨n, hn⟩ := exists_runFor_of_run h
    rw [runFor_unplaced] at hn
    obtain ⟨outcome, ho, rfl⟩ := Option.map_eq_some_iff.1 hn
    rw [run_of_runFor ho]
    rfl
  · intro h
    obtain ⟨outcome, ho, rfl⟩ := Option.map_eq_some_iff.1 h
    obtain ⟨n, hn⟩ := exists_runFor_of_run ho
    apply run_of_runFor (n := n)
    rw [runFor_unplaced, hn]
    rfl

/-! ### Resolutions -/

lemma start_unplaced (roots : List Identifier) :
    w.unplaced.start roots = (w.start roots).unplaced := by
  refine Graph.ext_find? ?_ fun k => ?_
  · rw [Graph.entryPoints_unplaced, entryPoints_start, entryPoints_start]
  · have seeded : seed w.unplaced.config = seed w.config := rfl
    rw [Graph.find?_unplaced, find?_start, find?_start, seeded, find?_seed]
    split
    · rfl
    · split <;> rfl

lemma rootTask_unplaced (id : Identifier) :
    w.unplaced.rootTask id = (w.rootTask id).unplaced := by
  have nowhere : w.unplaced.placesBelow = fun _ => false := rfl
  rw [rootTask, nowhere]
  cases w.unplaced.entries.find? id <;> rfl

lemma wrappedEntries_unplaced : w.unplaced.wrappedEntries = w.wrappedEntries :=
  List.flatMap_map ..

lemma wrapEntries_unplaced (always : List String) (g : Graph) :
    w.unplaced.wrapEntries always g.unplaced = (w.wrapEntries always g).unplaced := by
  rw [wrapEntries, wrapEntries, wrappedEntries_unplaced]
  induction w.wrappedEntries generalizing g with
  | nil => rfl
  | cons k ks ih => rw [List.foldl_cons, List.foldl_cons, Graph.wrap_unplaced, ih]

/-- A resolution comes to the same without placement, apart from placement. -/
theorem resolve_unplaced (roots : List Identifier) :
    w.unplaced.resolve roots = (w.resolve roots).map Graph.unplaced := by
  have tasks : roots.map w.unplaced.rootTask = (roots.map w.rootTask).map Task.unplaced := by
    rw [List.map_map]
    exact List.map_congr_left fun id _ => w.rootTask_unplaced id
  have always : w.unplaced.alwaysActivated = w.alwaysActivated := rfl
  simp only [resolve, tasks, start_unplaced, run_unplaced, always]
  rcases w.run (w.start roots) (roots.map w.rootTask) with _ | _ | g
  · rfl
  · rfl
  · cases w.alwaysActivated with
    | error e => rfl
    | ok units => exact congrArg Except.ok (w.wrapEntries_unplaced units g)

theorem resolveAll_unplaced : w.unplaced.resolveAll = w.resolveAll.map Graph.unplaced := by
  rw [resolveAll, resolveAll, ← resolve_unplaced]
  exact congrArg w.unplaced.resolve w.entries.identifiers_unplaced

/-! ### Configurations -/

lemma expand_unplaced (p : Provider) (e : EntryConfig) :
    e.unplaced.expand p = (e.expand p).map EntryPoint.unplaced := by
  have target : e.unplaced.target = e.target := rfl
  rw [EntryConfig.expand, EntryConfig.expand, target]
  cases e.target.expand p <;> rfl

lemma ofConfigs_unplaced (p : Provider) (configs : List EntryConfig) :
    EntryPoints.ofConfigs p (configs.map EntryConfig.unplaced) =
      (EntryPoints.ofConfigs p configs).map EntryPoints.unplaced := by
  have expanded : (configs.map EntryConfig.unplaced).mapM (EntryConfig.expand p) =
      (configs.mapM (EntryConfig.expand p)).map (List.map EntryPoint.unplaced) := by
    induction configs with
    | nil => rfl
    | cons e configs ih =>
      rw [List.map_cons, List.mapM_cons, List.mapM_cons, ih, expand_unplaced]
      cases e.expand p with
      | error => rfl
      | ok entry => cases configs.mapM (EntryConfig.expand p) <;> rfl
  rw [EntryPoints.ofConfigs, EntryPoints.ofConfigs, expanded]
  cases configs.mapM (EntryConfig.expand p) <;> rfl

lemma ofConfig_unplaced (c : Config) (p : Provider) (mode : Mode) :
    Wiring.ofConfig c.unplaced p .runtime = (Wiring.ofConfig c p mode).map Wiring.unplaced := by
  have hints : HintTable.ofConfig c.unplaced = HintTable.ofConfig c := rfl
  have entries : EntryPoints.ofConfigs p c.unplaced.entryPoints =
      (EntryPoints.ofConfigs p c.entryPoints).map EntryPoints.unplaced :=
    ofConfigs_unplaced p c.entryPoints
  rw [Wiring.ofConfig, Wiring.ofConfig, hints, entries]
  cases EntryPoints.ofConfigs p c.entryPoints with
  | error => rfl
  | ok entries => cases HintTable.ofConfig c <;> rfl

end Wiring

/-! ### Sessions -/

namespace Session

/-- A session that places nothing. -/
def unplaced (s : Session) : Session where
  config := s.config.unplaced
  provider := s.provider
  mode := .runtime

/-- A session comes to the same without placement, apart from placement. -/
theorem resolve_unplaced (s : Session) :
    s.unplaced.resolve none = (s.resolve none).map Graph.unplaced := by
  have wired : s.unplaced.wiring = s.wiring.map Wiring.unplaced :=
    Wiring.ofConfig_unplaced s.config s.provider s.mode
  rw [Session.resolve, Session.resolve, wired]
  cases s.wiring with
  | error => rfl
  | ok w => exact w.resolveAll_unplaced

end Session

end Injector
