import PointsTo.Proofs.Program.Meaning
import PointsTo.Proofs.FirstOccurrences

namespace PointsTo

section lookups
variable {ε δ α β γ : Type}

theorem mapError_elim {x : Except ε α} {p : Option ε} {a : α} (found : x = p.elim (.ok a) .error) (f : ε → δ) :
    x.mapError f = (p.map f).elim (.ok a) .error := by
  cases p with
  | none => exact congrArg (Except.mapError f) found
  | some e => exact congrArg (Except.mapError f) found

/-- Two things are looked up, of which `p` and `q` say what is wrong with them. What is wrong first is reported. -/
theorem lookups_cases {x : Except ε α} {y : Except ε β} {p q : Option ε} {a : α} {b : β}
    (first : x = p.elim (.ok a) .error) (second : y = q.elim (.ok b) .error) {next : α → β → Except ε γ}
    {P : γ → Prop} (found : p = none → q = none → ∃ c, next a b = .ok c ∧ P c) :
    (∃ c, x >>= (fun a => y >>= next a) = .ok c ∧ P c) ∨
      ∃ e, x >>= (fun a => y >>= next a) = .error e ∧ (p.toList ++ q.toList).head? = some e := by
  subst first second
  cases p with
  | some e => exact Or.inr ⟨e, rfl, rfl⟩
  | none =>
    cases q with
    | some e => exact Or.inr ⟨e, rfl, rfl⟩
    | none => exact Or.inl (found rfl rfl)

end lookups

namespace Graph
variable (g : Graph) (edge : Edge)

@[simp] theorem callSites_appendEdge : (g.appendEdge edge).callSites = g.callSites := by
  unfold appendEdge
  split <;> rfl

@[simp] theorem indirectCalls_appendEdge : (g.appendEdge edge).indirectCalls = g.indirectCalls := by
  unfold appendEdge
  split <;> rfl

end Graph

namespace Loader

/-- What has been loaded is what the description describes. -/
structure Represents (l : Loader) (d : Description) : Prop where
  named : d.WellNamed
  program : d.Describes ⟨l.graph, l.callGraph⟩
  names : ∀ (name : String) (n : NodeId), l.names[name]? = some n ↔ name ∈ d.names ∧ n = d.nodeOf name

namespace Represents
variable {l : Loader} {d : Description} (rep : l.Represents d)

include rep

theorem nodes_size : l.graph.nodes.size = d.names.length := by
  have length := congrArg List.length rep.program.nodes
  simpa [Description.names] using length

theorem functions_size : l.graph.functions.size = d.functionNames.length := by
  have length := congrArg List.length rep.program.functions
  simpa using length

theorem sound : l.Sound where
  built := rep.program.built
  plain := rep.program.plain
  names name n known := by
    obtain ⟨member, rfl⟩ := (rep.names name n).mp known
    rw [rep.nodes_size]
    exact List.idxOf_lt_length_of_mem member

theorem node_eq (name : String) : l.node name = (d.nodeProblem name).elim (.ok (d.nodeOf name)) .error := by
  unfold Loader.node Description.nodeProblem
  by_cases known : name ∈ d.names
  · rw [(rep.names name _).mpr ⟨known, rfl⟩, if_pos known]
    rfl
  · have none : l.names[name]? = none := by
      rw [Option.eq_none_iff_forall_ne_some]
      exact fun n found => known ((rep.names name n).mp found).1
    rw [none, if_neg known]
    rfl

theorem nodes_eq {n : NodeId} {entry : NodeEntry} (found : d.nodes[n]? = some entry) :
    l.graph.nodes[n]? = some (d.nodeFor entry) := by
  have listed := congrArg (·[n]?) rep.program.nodes
  simpa [found] using listed

theorem functionOf?_eq {name : String} (known : name ∈ d.names) :
    l.graph.functionOf? (d.nodeOf name) =
      if name ∈ d.functionNames then some (d.functionOf name) else none := by
  obtain ⟨entry, found, same⟩ := Description.exists_nodes_nodeOf known
  rw [Graph.functionOf?, rep.nodes_eq found, Description.nodeFor, NodeEntry.kind, same]
  have function := Description.mem_functionNames_iff rep.named.distinct found same
  cases sort : entry.sort <;> simp [function, sort]

theorem function_eq (name : String) :
    l.function name = (d.functionProblem name).elim (.ok (d.functionOf name)) .error := by
  rw [Loader.function, rep.node_eq, Description.nodeProblem, Description.functionProblem]
  by_cases known : name ∈ d.names
  · have found := rep.functionOf?_eq known
    rw [if_pos known, if_pos known]
    by_cases function : name ∈ d.functionNames
    · rw [if_pos function] at found ⊢
      simp only [Option.elim, bind, Except.bind, found]
    · rw [if_neg function] at found ⊢
      simp only [Option.elim, bind, Except.bind, found]
  · have other : name ∉ d.functionNames := fun function => known (Description.mem_names_of_function function)
    rw [if_neg known, if_neg known, if_neg other]
    rfl

theorem nodeOf_lt {name : String} (known : name ∈ d.names) : d.nodeOf name < l.graph.nodes.size := by
  rw [rep.nodes_size]
  exact List.idxOf_lt_length_of_mem known

theorem mem_edges {entry : EdgeEntry} : d.edgeFor entry ∈ l.graph.edges ↔ d.edgeFor entry ∈ d.edges.map d.edgeFor := by
  rw [← List.mem_eraseDups, ← rep.program.edges, Array.mem_toList_iff]

theorem insertEdge {entry : EdgeEntry} (source : entry.source ∈ d.names) (target : entry.target ∈ d.names)
    (log : Array Event) :
    { l with graph := (l.graph.insertEdge (d.edgeFor entry)).1, log }.Represents
      { d with edges := d.edges ++ [entry] } := by
  have wf : l.graph.WellFormed := rep.program.built.wellFormed
  have built : (l.graph.insertEdge (d.edgeFor entry)).1.Built :=
    rep.program.built.insertEdge _ (rep.nodeOf_lt source) (rep.nodeOf_lt target)
  have named : { d with edges := d.edges ++ [entry] }.WellNamed := { rep.named with
    edges := by
      intro known member
      rcases List.mem_append.mp member with old | new
      · exact rep.named.edges known old
      · rw [List.mem_singleton.mp new]
        exact ⟨source, target⟩ }
  refine ⟨named, ?_, rep.names⟩
  have edges : (d.edges ++ [entry]).map d.edgeFor = d.edges.map d.edgeFor ++ [d.edgeFor entry] := List.map_append
  by_cases old : d.edgeFor entry ∈ l.graph.edges
  · rw [wf.insertEdge_of_mem old]
    exact { rep.program with
      edges := by
        change l.graph.edges.toList = ((d.edges ++ [entry]).map d.edgeFor).eraseDups
        rw [edges, eraseDups_concat_of_mem (rep.mem_edges.mp old)]
        exact rep.program.edges }
  · rw [wf.insertEdge_of_not_mem old] at built ⊢
    exact { rep.program with
      nodes := (congrArg Array.toList (Graph.nodes_appendEdge ..)).trans rep.program.nodes
      functions := (congrArg Array.toList (Graph.functions_appendEdge ..)).trans rep.program.functions
      edges := by
        change (l.graph.appendEdge (d.edgeFor entry)).edges.toList = ((d.edges ++ [entry]).map d.edgeFor).eraseDups
        rw [edges, eraseDups_concat_of_not_mem (fun listed => old (rep.mem_edges.mpr listed)), Graph.edges_appendEdge,
          Array.toList_push]
        exact congrArg (· ++ [d.edgeFor entry]) rep.program.edges
      callSites := (congrArg Array.toList (Graph.callSites_appendEdge ..)).trans rep.program.callSites
      indirectCalls := (congrArg Array.toList (Graph.indirectCalls_appendEdge ..)).trans rep.program.indirectCalls
      fieldLimit := (Graph.fieldLimit_appendEdge ..).trans rep.program.fieldLimit
      plain := rep.program.plain.of_nodes_eq (Graph.nodes_appendEdge ..)
      built }

omit rep in
/-- Beside the edge there may be something to note. -/
theorem addEdge_eq {entry : EdgeEntry} {source target : NodeId} (atSource : l.node entry.source = .ok source)
    (atTarget : l.node entry.target = .ok target) :
    ∃ log, l.addEdge entry =
      .ok { l with graph := (l.graph.insertEdge ⟨source, target, entry.kind⟩).1, log } := by
  have noted : ∃ log, (if entry.offset.isSome && entry.family ≠ .gep then
      l.record (.ignoredOffset entry.source entry.target) else l) = { l with log } := by
    split
    · exact ⟨_, rfl⟩
    · exact ⟨_, rfl⟩
  obtain ⟨log, noted⟩ := noted
  unfold Loader.addEdge
  rw [noted, atSource, atTarget, mapError_ok_bind, mapError_ok_bind]
  dsimp only
  cases l.graph.insertEdge ⟨source, target, entry.kind⟩ with
  | mk graph e =>
    cases e with
    | some _ => exact ⟨log, rfl⟩
    | none => exact ⟨_, rfl⟩

theorem addEdge_cases (entry : EdgeEntry) :
    (∃ m, l.addEdge entry = .ok m ∧ m.Represents { d with edges := d.edges ++ [entry] }) ∨
      ∃ error, l.addEdge entry = .error error ∧ (d.edgeProblems entry).head? = some error := by
  refine lookups_cases (mapError_elim (rep.node_eq entry.source) _) (mapError_elim (rep.node_eq entry.target) _) ?_
  intro noneS noneT
  have source := Option.map_eq_none_iff.mp noneS
  have target := Option.map_eq_none_iff.mp noneT
  have atSource := rep.node_eq entry.source
  have atTarget := rep.node_eq entry.target
  rw [source] at atSource
  rw [target] at atTarget
  obtain ⟨log, added⟩ := addEdge_eq atSource atTarget
  rw [addEdge, atSource, atTarget] at added
  exact ⟨_, added, rep.insertEdge (Description.nodeProblem_eq_none.mp source)
    (Description.nodeProblem_eq_none.mp target) log⟩

theorem callSites_size : l.graph.callSites.size = d.directCalls.length + d.indirectCalls.length := by
  have length := congrArg List.length rep.program.callSites
  rw [d.length_callSites] at length
  exact length

theorem functionOf_mem {name : String} (function : name ∈ d.functionNames) :
    d.functionOf name ∈ l.callGraph.functions := by
  have listed : d.functionOf name ∈ List.range d.functionNames.length :=
    List.mem_range.mpr (List.idxOf_lt_length_of_mem function)
  rw [← rep.program.mentioned] at listed
  exact Array.mem_toList_iff.mp listed

section directCall
variable (first : d.indirectCalls = []) {call : DirectCallEntry} (caller : call.caller ∈ d.functionNames)
  (callee : call.callee ∈ d.functionNames)

include first

theorem new_site : l.graph.callSites.size = d.directCalls.length := by
  rw [rep.callSites_size, first]
  rfl

include caller callee

/-- The call site is new, and so is its edge. -/
theorem new_callEdge :
    (l.callGraph.addEdge l.graph.callSites.size (d.functionOf call.caller) (d.functionOf call.callee)).1 =
      l.callGraph.append ⟨d.directCalls.length, d.functionOf call.caller, d.functionOf call.callee⟩ := by
  have filed : l.callGraph.WellFormed := rep.program.filed
  have new : ¬ ∃ edge ∈ l.callGraph.edges, edge.site = d.directCalls.length ∧
      edge.callee = d.functionOf call.callee := by
    rintro ⟨edge, member, same, _⟩
    have listed : edge ∈ d.callEdges := by
      rw [← rep.program.calls]
      exact Array.mem_toList_iff.mpr member
    exact Nat.ne_of_lt (Description.site_lt_of_mem_callEdges listed) same
  rw [rep.new_site first, CallGraph.addEdge_of_new filed new,
    filed.mention_of_mem ⟨rep.functionOf_mem caller, rep.functionOf_mem callee⟩]

theorem directCall :
    { l with
      graph := (l.graph.addCallSite call.label (some (d.functionOf call.caller))).1
      callGraph := (l.callGraph.addEdge l.graph.callSites.size (d.functionOf call.caller)
        (d.functionOf call.callee)).1.setType l.graph.callSites.size .direct }.Represents
      { d with directCalls := d.directCalls ++ [call] } := by
  have filed := (rep.program.filed.addEdge l.graph.callSites.size (d.functionOf call.caller)
    (d.functionOf call.callee)).setType l.graph.callSites.size .direct
  have calls : (l.callGraph.append
      ⟨d.directCalls.length, d.functionOf call.caller, d.functionOf call.callee⟩).edges.toList =
      { d with directCalls := d.directCalls ++ [call] }.callEdges := by
    rw [CallGraph.append, Array.toList_push, rep.program.calls]
    exact List.mapIdx_concat.symm
  have named : { d with directCalls := d.directCalls ++ [call] }.WellNamed := { rep.named with
    directCalls := by
      intro known member
      rcases List.mem_append.mp member with old | new
      · exact rep.named.directCalls known old
      · rw [List.mem_singleton.mp new]
        exact ⟨caller, callee⟩ }
  rw [rep.new_callEdge first caller callee, rep.new_site first] at filed
  rw [rep.new_callEdge first caller callee, rep.new_site first]
  refine ⟨named, ?_, rep.names⟩
  exact { rep.program with
    callSites := by
      rw [Description.callSites, first, List.map_append, List.map_nil, List.append_nil]
      have sites := rep.program.callSites
      rw [Description.callSites, first, List.map_nil, List.append_nil] at sites
      exact Array.toList_push.trans (congrArg (· ++ _) sites)
    indirectCalls := by
      rw [Description.pointers, first]
      have calls := rep.program.indirectCalls
      rw [Description.pointers, first] at calls
      exact calls
    plain := rep.program.plain.of_nodes_eq rfl
    built := rep.program.built.callSite ..
    calls
    callsAt := fun site => by
      rw [← Description.filter_callEdges, ← calls]
      exact filed.edgesAt_eq site
    types := fun site => by
      have types := rep.program.types site
      rw [CallGraph.type?, CallGraph.setType, Std.TreeMap.getElem?_insert, List.length_append, List.length_singleton]
      rcases Nat.lt_trichotomy site d.directCalls.length with before | rfl | beyond
      · rw [if_pos before] at types
        rw [if_neg (by simpa using Nat.ne_of_gt before), if_pos (Nat.lt_succ_of_lt before)]
        exact types
      · rw [if_pos (Nat.compare_eq_eq.mpr rfl), if_pos (Nat.lt_succ_self _)]
      · rw [if_neg (Nat.not_lt.mpr (Nat.le_of_lt beyond))] at types
        rw [if_neg (by simpa using Nat.ne_of_lt beyond), if_neg (Nat.not_lt.mpr (Nat.succ_le_of_lt beyond))]
        exact types
    filed }

end directCall

theorem addDirectCall_cases (first : d.indirectCalls = []) (call : DirectCallEntry) :
    (∃ m, l.addDirectCall call = .ok m ∧ m.Represents { d with directCalls := d.directCalls ++ [call] }) ∨
      ∃ error, l.addDirectCall call = .error error ∧ (d.directCallProblems call).head? = some error := by
  refine lookups_cases (mapError_elim (rep.function_eq call.caller) _) (mapError_elim (rep.function_eq call.callee) _) ?_
  intro noneR noneE
  have caller := Description.functionProblem_eq_none.mp (Option.map_eq_none_iff.mp noneR)
  have callee := Description.functionProblem_eq_none.mp (Option.map_eq_none_iff.mp noneE)
  exact ⟨_, rfl, rep.directCall first caller callee⟩

theorem indirectCall {call : IndirectCallEntry} (caller : ∀ name ∈ call.caller, name ∈ d.functionNames)
    (pointer : call.pointer ∈ d.names) :
    { l with
      graph := (l.graph.addCallSite call.label (call.caller.map d.functionOf)).1.addIndirectCall
        l.graph.callSites.size (d.nodeOf call.pointer) }.Represents
      { d with indirectCalls := d.indirectCalls ++ [call] } := by
  have named : { d with indirectCalls := d.indirectCalls ++ [call] }.WellNamed := { rep.named with
    indirectCalls := by
      intro known member
      rcases List.mem_append.mp member with old | new
      · exact rep.named.indirectCalls known old
      · rw [List.mem_singleton.mp new]
        exact ⟨caller, pointer⟩ }
  refine ⟨named, ?_, rep.names⟩
  exact { rep.program with
    callSites := by
      rw [Description.callSites, List.map_append, ← List.append_assoc]
      exact Array.toList_push.trans (congrArg (· ++ _) rep.program.callSites)
    indirectCalls := by
      rw [Description.pointers, List.mapIdx_concat, ← rep.callSites_size]
      exact Array.toList_push.trans (congrArg (· ++ _) rep.program.indirectCalls)
    plain := rep.program.plain.of_nodes_eq rfl
    built := (rep.program.built.callSite ..).indirectCall .. }

theorem mapM_function (caller : Option String) (label : String) :
    (caller.mapM fun name => (l.function name).mapError (LoadError.inCall .caller label)) =
      ((caller.bind d.functionProblem).map (.inCall .caller label)).elim (.ok (caller.map d.functionOf)) .error := by
  cases caller with
  | none => rfl
  | some name =>
    change (l.function name).mapError _ >>= (fun f => pure (some f)) = _
    rw [rep.function_eq name, Option.bind_some]
    cases d.functionProblem name <;> rfl

theorem addIndirectCall_cases (call : IndirectCallEntry) :
    (∃ m, l.addIndirectCall call = .ok m ∧ m.Represents { d with indirectCalls := d.indirectCalls ++ [call] }) ∨
      ∃ error, l.addIndirectCall call = .error error ∧ (d.indirectCallProblems call).head? = some error := by
  refine lookups_cases (rep.mapM_function call.caller call.label) (mapError_elim (rep.node_eq call.pointer) _) ?_
  intro noneR noneP
  have caller (name : String) (member : name ∈ call.caller) : name ∈ d.functionNames := by
    rw [Option.mem_def.mp member] at noneR
    exact Description.functionProblem_eq_none.mp (Option.map_eq_none_iff.mp noneR)
  have pointer := Description.nodeProblem_eq_none.mp (Option.map_eq_none_iff.mp noneP)
  exact ⟨_, rfl, rep.indirectCall caller pointer⟩

end Represents

/-- What a new node changes. -/
structure AddsNode (l : Loader) (entry : NodeEntry) (m : Loader) : Prop where
  nodes : m.graph.nodes.toList = l.graph.nodes.toList ++ [⟨entry.name, entry.kind l.graph.functions.size⟩]
  functions : m.graph.functions.toList =
    l.graph.functions.toList ++ if entry.sort = .function then [⟨entry.name, l.graph.nodes.size⟩] else []
  edges : m.graph.edges = l.graph.edges
  callSites : m.graph.callSites = l.graph.callSites
  indirectCalls : m.graph.indirectCalls = l.graph.indirectCalls
  fieldLimit : m.graph.fieldLimit = l.graph.fieldLimit
  callGraph : m.callGraph =
    if entry.sort = .function then l.callGraph.addFunction l.graph.functions.size else l.callGraph
  names : m.names = l.names.insert entry.name l.graph.nodes.size

theorem addNode_spec {l : Loader} {entry : NodeEntry} (new : l.names.contains entry.name = false) :
    ∃ m, l.addNode entry = .ok m ∧ l.AddsNode entry m := by
  unfold addNode
  rw [new]
  cases sort : entry.sort with
  | value => exact ⟨_, rfl, by constructor <;> simp [Graph.addValue, Graph.addNode, NodeEntry.kind, sort]⟩
  | object => exact ⟨_, rfl, by constructor <;> simp [Graph.addObject, Graph.addNode, NodeEntry.kind, sort]⟩
  | array => exact ⟨_, rfl, by constructor <;> simp [Graph.addArray, Graph.addNode, NodeEntry.kind, sort]⟩
  | function => exact ⟨_, rfl, by constructor <;> simp [NodeEntry.kind, sort]⟩

namespace Represents

variable {l m : Loader} {done : List NodeEntry} {entry : NodeEntry} (rep : l.Represents ⟨done, [], [], []⟩)

include rep

theorem mentioned_addsNode (added : l.AddsNode entry m) :
    m.callGraph.functions.toList = List.range (Description.functionNames ⟨done ++ [entry], [], [], []⟩).length := by
  have before := rep.program.mentioned
  rw [added.callGraph, Description.functionNames_concat, List.length_append]
  split
  · have new : l.graph.functions.size ∉ l.callGraph.functions := by
      rw [← Array.mem_toList_iff, before, List.mem_range, rep.functions_size]
      exact Nat.lt_irrefl _
    rw [rep.program.filed.addFunction_of_not_mem new, Array.toList_push, before, rep.functions_size,
      List.length_singleton, List.range_succ]
  · exact before

theorem addsNode (new : entry.name ∉ Description.names ⟨done, [], [], []⟩) (sound : m.Sound)
    (added : l.AddsNode entry m) : m.Represents ⟨done ++ [entry], [], [], []⟩ := by
  have size : l.graph.nodes.size = done.length := rep.nodes_size.trans (List.length_map ..)
  have filed : m.callGraph.WellFormed := by
    rw [added.callGraph]
    split
    · exact rep.program.filed.addFunction _
    · exact rep.program.filed
  have calls : m.callGraph.edges.toList = [] := by
    rw [added.callGraph]
    split
    · rw [CallGraph.edges_addFunction]
      exact rep.program.calls
    · exact rep.program.calls
  refine ⟨⟨?_, nofun, nofun, nofun⟩, ?_, fun name n => ?_⟩
  · rw [Description.names_concat, ← List.concat_eq_append]
    exact rep.named.distinct.concat new
  · exact {
      nodes := by
        rw [added.nodes, List.map_append, rep.program.nodes, rep.functions_size]
        congr 1
        · exact List.map_congr_left fun old member => (Description.nodeFor_concat_of_mem member).symm
        · exact congrArg (fun node => [node]) (Description.nodeFor_concat_new new).symm
      functions := by
        rw [added.functions, Description.functionNames_concat, List.map_append, rep.program.functions]
        congr 1
        · refine List.map_congr_left fun name member => ?_
          rw [Description.functionFor, Description.functionFor,
            Description.nodeOf_concat_of_mem (Description.mem_names_of_function member)]
        · split
          · rw [List.map_singleton, Description.functionFor, Description.nodeOf_concat_new new, size]
          · rfl
      edges := (congrArg Array.toList added.edges).trans rep.program.edges
      callSites := (congrArg Array.toList added.callSites).trans rep.program.callSites
      indirectCalls := (congrArg Array.toList added.indirectCalls).trans rep.program.indirectCalls
      fieldLimit := added.fieldLimit.trans rep.program.fieldLimit
      plain := sound.plain
      built := sound.built
      mentioned := rep.mentioned_addsNode added
      calls
      callsAt := fun site => by
        rw [filed.edgesAt_eq, calls]
        rfl
      types := fun site => by
        have types := rep.program.types site
        rw [CallGraph.type?, added.callGraph]
        split
        · rw [CallGraph.types_addFunction]
          exact types
        · exact types
      filed }
  · rw [added.names, Std.TreeMap.getElem?_insert, Description.names_concat]
    by_cases same : entry.name = name
    · subst same
      rw [if_pos (by simp), Description.nodeOf_concat_new new, size]
      simp [eq_comm]
    · rw [if_neg (by simpa using same), rep.names]
      have other : name ≠ entry.name := Ne.symm same
      simp only [List.mem_append, List.mem_singleton, other, or_false]
      exact and_congr_right fun known => by rw [Description.nodeOf_concat_of_mem known]

theorem addNode_cases (entry : NodeEntry) :
    (∃ m, l.addNode entry = .ok m ∧ m.Represents ⟨done ++ [entry], [], [], []⟩) ∨
      ∃ error, l.addNode entry = .error error ∧ error = .duplicateName entry.name ∧
        entry.name ∈ Description.names ⟨done, [], [], []⟩ := by
  have contains : l.names.contains entry.name = true ↔ entry.name ∈ Description.names ⟨done, [], [], []⟩ := by
    rw [Std.TreeMap.contains_eq_isSome_getElem?, Option.isSome_iff_exists]
    constructor
    · rintro ⟨n, found⟩
      exact ((rep.names _ n).mp found).1
    · exact fun known => ⟨_, (rep.names _ _).mpr ⟨known, rfl⟩⟩
  by_cases known : entry.name ∈ Description.names ⟨done, [], [], []⟩
  · refine Or.inr ⟨_, ?_, rfl, known⟩
    rw [addNode, if_pos (contains.mpr known)]
  · have new : l.names.contains entry.name = false :=
      Bool.eq_false_iff.mpr fun present => known (contains.mp present)
    obtain ⟨m, run, added⟩ := addNode_spec new
    exact Or.inl ⟨m, run, rep.addsNode known (rep.sound.addNode run) added⟩

end Represents

/-- A list of entries is worked off to its end, or to the first entry that is refused. After `done` the loader represents
the description `D done`. -/
theorem addAll_cases {α : Type} {add : Loader → α → Except LoadError Loader} {D : List α → Description}
    {Refused : List α → α → LoadError → Prop}
    (step : ∀ done entry l, l.Represents (D done) → (∃ m, add l entry = .ok m ∧ m.Represents (D (done ++ [entry]))) ∨
      ∃ error, add l entry = .error error ∧ Refused done entry error)
    {done rest : List α} {l : Loader} (start : l.Represents (D done)) :
    (∃ m, l.addAll add rest = .ok m ∧ m.Represents (D (done ++ rest))) ∨
      ∃ rejected, l.addAll add rest = .error rejected ∧ ∃ before entry after, done ++ rest = before ++ entry :: after ∧
        (D before).WellNamed ∧ Refused before entry rejected.error := by
  induction rest generalizing done l with
  | nil => exact Or.inl ⟨l, rfl, by rwa [List.append_nil]⟩
  | cons entry rest ih =>
    rw [addAll, List.foldlM_cons]
    rcases step done entry l start with ⟨m, run, next⟩ | ⟨error, run, refused⟩
    · rw [run]
      have outcome := ih next
      rw [List.append_assoc] at outcome
      exact outcome
    · rw [run]
      exact Or.inr ⟨⟨error, l.log⟩, rfl, done, entry, rest, rfl, start.named, refused⟩

theorem represents_empty : empty.Represents ⟨[], [], [], []⟩ where
  named := ⟨List.nodup_nil, nofun, nofun, nofun⟩
  program := {
    nodes := rfl
    functions := rfl
    edges := rfl
    callSites := rfl
    indirectCalls := rfl
    fieldLimit := rfl
    plain := Graph.plain_empty
    built := .empty
    mentioned := rfl
    calls := rfl
    callsAt := CallGraph.wellFormed_empty.edgesAt_eq
    types := fun site => by simp [empty, CallGraph.empty, CallGraph.type?]
    filed := CallGraph.wellFormed_empty }
  names name n := by simp [empty, Description.names]

end Loader

namespace Description

/-- While `d` is loaded, the work so far has led to the description `part`, or has met the first problem of `d`. -/
def Proceeds (d : Description) (work : Except Rejected Loader) (part : Description) : Prop :=
  (∃ l, work = .ok l ∧ l.Represents part) ∨
    ∃ rejected, work = .error rejected ∧ d.problems.head? = some rejected.error

theorem Proceeds.bind {d part whole : Description} {work : Except Rejected Loader}
    {next : Loader → Except Rejected Loader} (before : d.Proceeds work part)
    (after : ∀ l, l.Represents part → d.Proceeds (next l) whole) : d.Proceeds (work >>= next) whole := by
  rcases before with ⟨l, rfl, rep⟩ | ⟨rejected, rfl, first⟩
  · exact after l rep
  · exact Or.inr ⟨rejected, rfl, first⟩

theorem addNodes_proceeds (d : Description) :
    d.Proceeds (Loader.empty.addAll Loader.addNode d.nodes) ⟨d.nodes, [], [], []⟩ := by
  rcases Loader.addAll_cases (D := fun done => ⟨done, [], [], []⟩) (fun _ entry _ rep => rep.addNode_cases entry)
    Loader.represents_empty with done | ⟨rejected, run, before, entry, after, nodes, named, same, known⟩
  · exact Or.inl done
  · refine Or.inr ⟨rejected, run, ?_⟩
    rw [same]
    exact head?_problems_of_node nodes named known

theorem addEdges_proceeds {d : Description} {l : Loader} (rep : l.Represents ⟨d.nodes, [], [], []⟩) :
    d.Proceeds (l.addAll Loader.addEdge d.edges) ⟨d.nodes, d.edges, [], []⟩ := by
  rcases Loader.addAll_cases (D := fun done => ⟨d.nodes, done, [], []⟩) (fun _ entry _ rep => rep.addEdge_cases entry)
    rep with done | ⟨rejected, run, before, entry, after, edges, named, first⟩
  · exact Or.inl done
  · exact Or.inr ⟨rejected, run, head?_problems_of_edge edges named first⟩

theorem addDirectCalls_proceeds {d : Description} {l : Loader} (rep : l.Represents ⟨d.nodes, d.edges, [], []⟩) :
    d.Proceeds (l.addAll Loader.addDirectCall d.directCalls) ⟨d.nodes, d.edges, d.directCalls, []⟩ := by
  rcases Loader.addAll_cases (D := fun done => ⟨d.nodes, d.edges, done, []⟩)
    (fun _ call _ rep => rep.addDirectCall_cases rfl call)
    rep with done | ⟨rejected, run, before, call, after, calls, named, first⟩
  · exact Or.inl done
  · exact Or.inr ⟨rejected, run, head?_problems_of_directCall calls named first⟩

theorem addIndirectCalls_proceeds {d : Description} {l : Loader}
    (rep : l.Represents ⟨d.nodes, d.edges, d.directCalls, []⟩) :
    d.Proceeds (l.addAll Loader.addIndirectCall d.indirectCalls) d := by
  rcases Loader.addAll_cases (D := fun done => ⟨d.nodes, d.edges, d.directCalls, done⟩)
    (fun _ call _ rep => rep.addIndirectCall_cases call)
    rep with done | ⟨rejected, run, before, call, after, calls, named, first⟩
  · exact Or.inl done
  · exact Or.inr ⟨rejected, run, head?_problems_of_indirectCall calls named first⟩

theorem load_proceeds (d : Description) : d.Proceeds d.load d := by
  refine d.addNodes_proceeds.bind fun l rep => ?_
  refine (addEdges_proceeds rep).bind fun l rep => ?_
  refine (addDirectCalls_proceeds rep).bind fun l rep => ?_
  refine (addIndirectCalls_proceeds rep).bind fun l rep => ?_
  exact Or.inl ⟨_, rfl, rep.named, rep.program, rep.names⟩

/-- A description is loaded if its names are in order. What is loaded is the described program, and what is reported is
the first problem. -/
theorem load_exact (d : Description) :
    ((∃ l, d.load = .ok l) ↔ d.WellNamed) ∧ (∀ l, d.load = .ok l → d.Describes l.program) ∧
      ∀ rejected, d.load = .error rejected → d.problems.head? = some rejected.error := by
  rcases d.load_proceeds with ⟨l, loaded, rep⟩ | ⟨rejected, refused, first⟩
  · rw [loaded]
    refine ⟨⟨fun _ => rep.named, fun _ => ⟨l, rfl⟩⟩, ?_, nofun⟩
    intro l' same
    cases same
    exact rep.program
  · rw [refused]
    refine ⟨⟨nofun, fun named => ?_⟩, nofun, ?_⟩
    · rw [named.problems_eq_nil] at first
      cases first
    · intro rejected' same
      cases same
      exact first

example : problems ⟨[⟨"p", .value⟩, ⟨"p", .object⟩], [⟨.copy, "q", "p", none⟩], [⟨"call", "p", "f"⟩], []⟩ =
    [.duplicateName "p", .inEdge (.unknown "q"), .inCall .caller "call" (.notAFunction "p"),
      .inCall .callee "call" (.unknown "f")] := by decide +kernel

end Description

end PointsTo
