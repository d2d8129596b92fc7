import Injector.Proofs.Container.Reach
import Injector.Proofs.Graph.Order

/-!
# What proxies activate

A proxy activates the sources of all that its identifier depends on, dependencies first. The body
behind it goes through aliases and branches, other methods and files; but whatever it comes to
construct is among these dependencies, so its source is active by then.
-/

namespace Injector

/-! ### Sources -/

@[simp] lemma Definition.sourceUnit?_core (d : Definition) :
    d.core.sourceUnit? = d.sourceUnit? :=
  apply_core Definition.sourceUnit? (fun _ _ _ => rfl) d

/-- The sources that are always activated are listed once. -/
lemma Wiring.nodup_alwaysActivated {w : Wiring} {always : List String}
    (h : w.alwaysActivated = .ok always) : always.Nodup := by
  obtain ⟨units, -, h⟩ := bind_eq_ok.1 h
  cases h
  exact nodup_firstOccurrences _

namespace Graph

variable {g : Graph}

/-- The source of the type that an identifier stands for, if that is known. -/
def unit? (g : Graph) (k : Identifier) : Option String :=
  (g.find? k).bind Definition.sourceUnit?

/-- No two of the identifiers that one depends on, itself included, share a source, and none of
their sources is activated anyway. -/
structure HasOwnUnits (g : Graph) (k : Identifier) (always : List String) : Prop where
  distinct : ∀ {a b}, Relation.ReflTransGen g.DependsOn k a →
    Relation.ReflTransGen g.DependsOn k b → ∀ {x}, g.unit? a = some x → g.unit? b = some x → a = b
  fresh : ∀ {a}, Relation.ReflTransGen g.DependsOn k a → ∀ {x}, g.unit? a = some x → x ∉ always

/-- The sources that are activated before an identifier is built by a body. -/
structure Activates (g : Graph) (c : Container) (k : Identifier) (always units : List String)
    (body : Body) : Prop where
  nodup : units.Nodup
  first : always <+: units
  /-- The source of each class that the body comes to construct is among them. -/
  built : ∀ b, Relation.ReflTransGen c.Enters body (.construct b) →
    ∃ d cls, g.find? b.cls = some d ∧ d.core = .cls cls ∧
      ∀ x, cls.sourceUnit = some x → x ∈ units
  /-- What is depended on comes first, unless it depends on the other in turn. -/
  ordered : g.HasOwnUnits k always → ∀ a b, Relation.ReflTransGen g.DependsOn k a →
    g.DependsOn a b → ¬Relation.ReflTransGen g.DependsOn b a →
    ∀ x y, g.unit? a = some x → g.unit? b = some y → [y, x].Sublist units

/-! ### Lists of sources -/

/-- Identifiers with sources of their own have no source twice. -/
lemma nodup_filterMap_unit? {ks : List Identifier} (nodup : ks.Nodup)
    (distinct : ∀ a ∈ ks, ∀ b ∈ ks, ∀ x, g.unit? a = some x → g.unit? b = some x → a = b) :
    (ks.filterMap g.unit?).Nodup := by
  apply List.pairwise_filterMap.2
  apply nodup.imp_of_mem
  rintro a b ha hb hne x hx _ hy rfl
  exact hne (distinct a ha b hb x hx hy)

/-- What is always activated comes first. -/
lemma isPrefix_activationUnits {always : List String} (nodup : always.Nodup) (k : Identifier) :
    always <+: g.activationUnits always k := by
  have first := firstOccurrences_isPrefix_append always ((g.dependencyOrder k).filterMap g.unit?)
  rwa [firstOccurrences_of_nodup nodup] at first

section Closed

variable (closed : ∀ {a b}, g.DependsOn a b → g.contains b)
include closed

/-- Where all dependencies are defined, a search goes along all of them. -/
lemma edge_eq_dependsOn : g.Edge = g.DependsOn := by
  funext a b
  apply propext
  rw [edge_iff]
  exact ⟨And.left, fun h => ⟨h, closed h⟩⟩

lemma mem_dependencyOrder_iff {k a : Identifier} (defined : g.contains k) :
    a ∈ g.dependencyOrder k ↔ Relation.ReflTransGen g.DependsOn k a := by
  rw [mem_dependencyOrder defined, Reaches, edge_eq_dependsOn closed]

/-- The sources of all dependencies are activated. -/
lemma mem_activationUnits {always : List String} {k a : Identifier} (defined : g.contains k)
    (needed : Relation.ReflTransGen g.DependsOn k a) {x : String} (hx : g.unit? a = some x) :
    x ∈ g.activationUnits always k := by
  rw [activationUnits, mem_firstOccurrences, List.mem_append]
  right
  exact List.mem_filterMap.2 ⟨a, (mem_dependencyOrder_iff closed defined).2 needed, hx⟩

/-- Whether sources are shared can be seen from what a search lists. -/
lemma hasOwnUnits_iff {always : List String} {k : Identifier} (defined : g.contains k) :
    g.HasOwnUnits k always ↔
      (∀ a ∈ g.dependencyOrder k, ∀ b ∈ g.dependencyOrder k, ∀ x ∈ g.unit? a,
        g.unit? b = some x → a = b) ∧
      ∀ a ∈ g.dependencyOrder k, ∀ x ∈ g.unit? a, x ∉ always := by
  simp only [mem_dependencyOrder_iff closed defined]
  constructor
  · intro own
    exact ⟨fun a ha b hb x hx hy => own.distinct ha hb hx hy, fun a ha x hx => own.fresh ha hx⟩
  · rintro ⟨distinct, fresh⟩
    constructor
    · intro a b ha hb x hx hy
      exact distinct a ha b hb x hx hy
    · intro a ha x hx
      exact fresh a ha x hx

/-- Where no source is shared, none is dropped from the list. -/
lemma activationUnits_of_hasOwnUnits {always : List String} {k : Identifier}
    (defined : g.contains k) (nodup : always.Nodup) (own : g.HasOwnUnits k always) :
    g.activationUnits always k = always ++ (g.dependencyOrder k).filterMap g.unit? := by
  obtain ⟨distinct, fresh⟩ := (hasOwnUnits_iff closed defined).1 own
  apply firstOccurrences_of_nodup
  refine List.nodup_append'.2 ⟨nodup, ?_, ?_⟩
  · apply nodup_filterMap_unit? (g.nodup_dependencyOrder k)
    intro a ha b hb x hx hy
    exact distinct a ha b hb x hx hy
  · intro x mem hx
    obtain ⟨a, ha, hx⟩ := List.mem_filterMap.1 hx
    exact fresh a ha x hx mem

/-- The source of what is depended on is activated first. -/
lemma sublist_activationUnits {always : List String} {k a b : Identifier} (defined : g.contains k)
    (nodup : always.Nodup) (own : g.HasOwnUnits k always)
    (needed : Relation.ReflTransGen g.DependsOn k a) (edge : g.DependsOn a b)
    (oneWay : ¬Relation.ReflTransGen g.DependsOn b a) {x y : String} (hx : g.unit? a = some x)
    (hy : g.unit? b = some y) : [y, x].Sublist (g.activationUnits always k) := by
  have before : [b, a].Sublist (g.dependencyOrder k) := by
    apply sublist_dependencyOrder ((mem_dependencyOrder_iff closed defined).2 needed)
    · rwa [edge_eq_dependsOn closed]
    · rwa [Reaches, edge_eq_dependsOn closed]
  have units : [y, x].Sublist ((g.dependencyOrder k).filterMap g.unit?) := by
    simpa [hx, hy] using before.filterMap g.unit?
  rw [activationUnits_of_hasOwnUnits closed defined nodup own]
  exact units.trans (List.sublist_append_right _ _)

end Closed

end Graph

/-! ### Methods -/

/-- The lines of a proxy: the activations of its sources, in order, and then the call of what is
behind it. -/
def activationLines (units : List String) (inner : String) : List String :=
  units.map (fun unit => "self.activate(" ++ quoted unit ++ ");") ++ ["self." ++ inner ++ "()"]

/-- The method of an identifier activates sources, itself or in a file, and calls a method with a
body then. -/
structure Container.HasProxy (config : Config) (c : Container) (k : Identifier)
    (units : List String) (body : Body) : Prop where
  behind : ∃ f ∈ c.factories, f.name = factoryName k ++ innerSuffix ∧ f.body = body
  front : ∃ f ∈ c.factories, f.name = factoryName k ∧
    (f.body = .proxy units (factoryName k ++ innerSuffix) ∧
        f.lines config.directory = ["", "    /// " ++ f.purpose, f.head]
          ++ (activationLines units (factoryName k ++ innerSuffix)).map ("        " ++ ·)
          ++ ["    \x7d"] ∨
      ∃ p ∈ c.files, f.body = .splice p.name ∧
        p.body = .proxy units (factoryName k ++ innerSuffix) ∧
        p.written config.directory = unlines
          (["// @generated by ironwire for `" ++ k ++ "`. Do not edit.", "\x7b"]
            ++ (activationLines units (factoryName k ++ innerSuffix)).map ("    " ++ ·)
            ++ ["\x7d"]))

section Proxy

variable (directory : String) (units : List String) {inner : String}
  (free : '\n' ∉ inner.toList)
include free

lemma isWhole_of_mem_activationLines {line : String} (h : line ∈ activationLines units inner) :
    IsWhole line.toList := by
  rcases List.mem_append.1 h with h | h
  · obtain ⟨unit, -, rfl⟩ := List.mem_map.1 h
    exact ⟨by simp, by simp [newline_not_mem_quoted],
      by simp [List.getLast?_cons, List.getLast?_append]⟩
  · obtain rfl := List.mem_singleton.1 h
    exact ⟨by simp, by simp [free], by simp [List.getLast?_cons, List.getLast?_append]⟩

lemma textLines_proxyLines :
    textLines ("\n".intercalate (proxyLines units inner)) = activationLines units inner :=
  textLines_intercalate fun _ => isWhole_of_mem_activationLines units free

/-- A proxy of a method is written line by line. -/
lemma lines_of_proxy {f : Factory} (proxy : f.body = .proxy units inner) :
    f.lines directory = ["", "    /// " ++ f.purpose, f.head]
      ++ (activationLines units inner).map ("        " ++ ·) ++ ["    \x7d"] := by
  have lines : textLines (f.body.code directory .main).text = activationLines units inner := by
    rw [Body.text_code, proxy]
    exact textLines_proxyLines units free
  rw [Factory.lines, lines]
  congr 2
  apply List.map_congr_left
  intro line mem
  refine if_neg ?_
  rintro rfl
  exact (isWhole_of_mem_activationLines units free mem).ne rfl

/-- So is a proxy in a file of its own. -/
lemma written_of_proxy {p : PlacedBody} (proxy : p.body = .proxy units inner) :
    p.written directory = unlines
      (["// @generated by ironwire for `" ++ p.id ++ "`. Do not edit.", "\x7b"]
        ++ (activationLines units inner).map ("    " ++ ·) ++ ["\x7d"]) := by
  have indented : (activationLines units inner).map indentLine =
      (activationLines units inner).map ("    " ++ ·) := by
    apply List.map_congr_left
    intro line mem
    refine if_neg ?_
    have ne := (isWhole_of_mem_activationLines units free mem).ne
    simpa using ne
  have block : indent ("\n".intercalate (proxyLines units inner)) ++ "\n" =
      unlines ((activationLines units inner).map ("    " ++ ·)) := by
    rw [indent, textLines_proxyLines units free, indented, activationLines, List.map_append,
      List.map_singleton, intercalate_eq_unlines, unlines_append, unlines_cons, unlines_nil]
    simp only [String.append_assoc, String.append_empty]
  have code : (p.body.code directory .placed).text =
      "\x7b\n" ++ indent ("\n".intercalate (proxyLines units inner)) ++ "\n" ++ "\x7d" := by
    rw [Body.text_code, proxy, String.append_assoc]
    rfl
  have named : ∀ rest, "`. Do not edit." ++ ("\n" ++ rest) = "`. Do not edit.\n" ++ rest :=
    fun rest => (String.append_assoc ..).symm
  have opened : ∀ rest, "\x7b" ++ ("\n" ++ rest) = "\x7b\n" ++ rest :=
    fun rest => (String.append_assoc ..).symm
  rw [unlines_append, unlines_append, ← block]
  show _ ++ (p.body.code directory .placed).text ++ "\n" = _
  rw [code]
  simp only [unlines_cons, unlines_nil, named, opened, String.append_assoc, String.append_empty]

end Proxy

lemma exists_hasProxy {g : Graph} {config : Config} {c : Container}
    (built : g.container config = .ok c) {inner : Definition} {fileBased : Bool}
    {always : List String} (hk : g.find? inner.id = some (.autoloaded inner fileBased always)) :
    ∃ body, (Definition.autoloaded inner fileBased always).Gives g body ∧
      c.HasProxy config inner.id (g.activationUnits always inner.id) body := by
  obtain ⟨em, hem, factories, files⟩ := exists_emission built hk
  have gives := fun b => Graph.gives_of_emit hem (b := b)
  obtain ⟨⟨body, placed⟩, -, h⟩ := bind_eq_ok.1 hem
  cases h
  have free : '\n' ∉ (factoryName inner.id ++ innerSuffix).toList := fun feed => by
    have taken : factoryName inner.id ++ innerSuffix ∈
        memberNames inner.id (.autoloaded inner fileBased always) := by
      simp [memberNames]
    exact absurd (isNameChar_of_mem_memberNames taken feed) (by decide)
  refine ⟨body, gives body List.mem_cons_self, ?_, ?_⟩
  · exact ⟨_, factories List.mem_cons_self, rfl, rfl⟩
  · refine ⟨_, factories (List.mem_cons_of_mem _ List.mem_cons_self), rfl, ?_⟩
    cases fileBased with
    | false => exact .inl ⟨rfl, lines_of_proxy config.directory _ free rfl⟩
    | true => exact .inr ⟨_, files (List.mem_append_right _ List.mem_cons_self), rfl, rfl,
        written_of_proxy config.directory _ free rfl⟩

/-! ### Resolved graphs -/

open Wiring

variable {w : Wiring} {g : Graph}

/-- The source of each class that the body behind a proxy comes to construct is activated. -/
lemma Wiring.Yields.exists_of_construct {roots : List Identifier} (yields : w.Yields roots g)
    {always : List String} {config : Config} {c : Container}
    (built : (w.wrapEntries always g).container config = .ok c) {k : Identifier} {d : Definition}
    (hk : (w.wrapEntries always g).find? k = some d) {body : Body}
    (gives : d.Gives (w.wrapEntries always g) body) {b : Construction}
    (way : Relation.ReflTransGen c.Enters body (.construct b)) (units : List String) :
    ∃ d' cls, (w.wrapEntries always g).find? b.cls = some d' ∧ d'.core = .cls cls ∧
      ∀ x, cls.sourceUnit = some x → x ∈ (w.wrapEntries always g).activationUnits units k := by
  obtain ⟨j, d', needed, hj, gives⟩ := yields.exists_gives_of_enters built hk gives way
  obtain ⟨cls, core, hid⟩ := Graph.core_of_gives gives
  obtain rfl : j = b.cls := by
    rw [← yields.keyed always j d' hj, ← Definition.id_core, core]
    exact hid
  refine ⟨d', cls, hj, core, fun x hx => ?_⟩
  have defined : (w.wrapEntries always g).contains k := by simp [hk]
  apply Graph.mem_activationUnits (contains_of_dependsOn yields) defined needed
  rw [Graph.unit?, hj, Option.bind_some, ← Definition.sourceUnit?_core, core]
  exact hx

/-- Proxies activate the sources of everything that is built behind them, dependencies first. -/
theorem activates_of_compile {config : Config} {entry : Option Identifier} {files : Artifacts}
    (h : w.resolveFor entry = .ok g) (compiles : g.compile config = .ok files) :
    ∃ c, g.container config = .ok c ∧ files = c.artifacts config ∧ c.IsWritten config files ∧
      ∀ k inner fileBased always, g.find? k = some (.autoloaded inner fileBased always) →
        ∃ units body, c.HasProxy config k units body ∧ g.Activates c k always units body := by
  obtain ⟨c, built, artifacts⟩ := Graph.exists_container_of_compile compiles
  obtain ⟨g₀, always, yields, activated, rfl⟩ := resolve_eq_ok.1 (resolve_of_resolveFor h)
  have written : c.IsWritten config files := artifacts ▸
    isWritten_of_container built (yields.keyed always) (yields.nodup_entryPoints always)
  refine ⟨c, built, artifacts, written, fun k inner fileBased units hk => ?_⟩
  obtain ⟨-, -, rfl⟩ := yields.cases_autoloaded hk
  have named := yields.keyed units k (.autoloaded inner fileBased units) hk
  obtain rfl : inner.id = k := named
  obtain ⟨body, gives, proxy⟩ := exists_hasProxy built hk
  have nodup : units.Nodup := nodup_alwaysActivated activated
  have closed : ∀ {a b}, (w.wrapEntries units g₀).DependsOn a b →
      (w.wrapEntries units g₀).contains b := contains_of_dependsOn yields
  have defined : (w.wrapEntries units g₀).contains inner.id := by simp [hk]
  refine ⟨_, body, proxy, nodup_firstOccurrences _, ?_, ?_, ?_⟩
  · exact Graph.isPrefix_activationUnits nodup inner.id
  · intro b way
    exact yields.exists_of_construct built hk gives way units
  · intro own a b needed edge oneWay x y hx hy
    exact Graph.sublist_activationUnits closed defined nodup own needed edge oneWay hx hy

/-- A graph has a proxy for an identifier, and what it always activates passes a test. -/
def Graph.proxyPasses (g : Graph) (k : Identifier) (test : List String → Bool) : Bool :=
  match g.find? k with
  | some (.autoloaded _ _ always) => test always
  | _ => false

lemma Graph.exists_of_proxyPasses {k : Identifier} {test : List String → Bool}
    (h : g.proxyPasses k test = true) : ∃ inner fileBased always,
      g.find? k = some (.autoloaded inner fileBased always) ∧ test always = true := by
  simp only [proxyPasses] at h
  split at h
  · next inner fileBased always hk => exact ⟨inner, fileBased, always, hk, h⟩
  · cases h

/-- A desk and a clock behind proxies. The desk needs the clock, and a store, which is a disk that
needs the clock, too. -/
def deskWiring : Wiring where
  config := { autoload := { always := ["Boot"] } }
  provider := Metadata.provider <| .ofList
    [("Desk",
      { source := some "desk"
        parameters := [{ name := "store", type := some "Store" },
          { name := "clock", type := some "Clock" }] }),
      ("Disk",
        { source := some "disk", parameters := [{ name := "clock", type := some "Clock" }] }),
      ("Clock", { source := some "clock" }), ("Boot", { source := some "boot" })]
  mode := .compile
  entries := ⟨[{ ids := ["Desk"], fileBased := true, autoload := true },
    { ids := ["Clock"], autoload := true }]⟩
  hints := ⟨.ofList [("Store", .byClass "Disk" {})], []⟩

/-- The desk activates the clock before itself: it needs the clock, and the clock needs nothing. -/
theorem activates_deskWiring :
    ∃ g files c units body inner fileBased, deskWiring.resolveFor none = .ok g ∧
      g.compile deskWiring.config = .ok files ∧ g.container deskWiring.config = .ok c ∧
      .proxy ["boot", "clock", "disk", "desk"] "Desk__autoloaded" ∈ c.bodies ∧
      g.find? "Desk" = some (.autoloaded inner fileBased ["boot"]) ∧
      c.IsWritten deskWiring.config files ∧ c.HasProxy deskWiring.config "Desk" units body ∧
      g.Activates c "Desk" ["boot"] units body ∧
      ["clock", "desk"].Sublist units := by
  have resolves : deskWiring.passesWithin 60 ["Desk", "Clock"] (fun g =>
      g.containerPasses deskWiring.config (fun c =>
          decide (.proxy ["boot", "clock", "disk", "desk"] "Desk__autoloaded" ∈ c.bodies))
        && g.proxyPasses "Desk" (fun always => decide (always = ["boot"]))
        && decide (g.unit? "Desk" = some "desk" ∧ g.unit? "Clock" = some "clock")
        && decide (g.contains "Clock" ∧ "Desk" ∉ g.dependencyOrder "Clock")
        && decide ("Clock" ∈ g.edges "Desk")
        && decide ((∀ a ∈ g.dependencyOrder "Desk", ∀ b ∈ g.dependencyOrder "Desk",
            ∀ x ∈ g.unit? a, g.unit? b = some x → a = b) ∧
          ∀ a ∈ g.dependencyOrder "Desk", ∀ x ∈ g.unit? a, x ∉ ["boot"])) = true := by
    decide +kernel
  obtain ⟨g, hg, passes⟩ := exists_of_passesWithin resolves
  simp only [Bool.and_eq_true, decide_eq_true_eq] at passes
  obtain ⟨⟨⟨⟨⟨builds, proxied⟩, ⟨ofDesk, ofClock⟩⟩, ⟨present, unneeded⟩⟩, edge⟩, own⟩ := passes
  obtain ⟨c, hc, listed⟩ := Graph.exists_of_containerPasses builds
  obtain ⟨inner, fileBased, always, hk, boots⟩ := Graph.exists_of_proxyPasses proxied
  obtain rfl := of_decide_eq_true boots
  have h : deskWiring.resolveFor none = .ok g := hg
  have compiles := Graph.compile_of_container hc
  obtain ⟨c', hc', -, written, activates⟩ := activates_of_compile h compiles
  cases hc.symm.trans hc'
  obtain ⟨units, body, proxy, activates⟩ := activates "Desk" inner fileBased ["boot"] hk
  obtain ⟨g₀, always, yields, eq⟩ := exists_of_resolveFor h
  have closed : ∀ {a b}, g.DependsOn a b → g.contains b := by
    rw [← eq]
    exact contains_of_dependsOn yields
  have defined : g.contains "Desk" := by simp [hk]
  have depends : g.DependsOn "Desk" "Clock" := by
    rw [← Graph.edge_eq_dependsOn closed]
    exact edge
  have oneWay : ¬Relation.ReflTransGen g.DependsOn "Clock" "Desk" :=
    fun way => unneeded ((Graph.mem_dependencyOrder_iff closed present).2 way)
  have own := (Graph.hasOwnUnits_iff closed defined).2 own
  have before := activates.ordered own "Desk" "Clock" .refl depends oneWay "desk" "clock" ofDesk
    ofClock
  exact ⟨g, _, c, units, body, inner, fileBased, h, compiles, hc, of_decide_eq_true listed, hk,
    written, proxy, activates, before⟩

end Injector
