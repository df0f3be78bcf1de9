import Mathlib.Data.List.Induction
import Mathlib.Data.List.Nodup
import PointsTo.Proofs.Program.Loading
import PointsTo.Proofs.CallGraph.Tables

namespace PointsTo

/-- The kind of a described node, of which a function has the number `f`. -/
def NodeEntry.kind (entry : NodeEntry) (f : FuncId) : NodeKind :=
  match entry.sort with
  | .value => .value
  | .object => .object
  | .array => .array
  | .function => .function f

namespace Description

def names (d : Description) : List String := d.nodes.map (·.name)

def functionNames (d : Description) : List String := (d.nodes.filter (·.sort = .function)).map (·.name)

/-- Nodes are numbered in their order. -/
def nodeOf (d : Description) (name : String) : NodeId := d.names.idxOf name

/-- Functions are numbered among themselves. -/
def functionOf (d : Description) (name : String) : FuncId := d.functionNames.idxOf name

def nodeFor (d : Description) (entry : NodeEntry) : Node := ⟨entry.name, entry.kind (d.functionOf entry.name)⟩

def functionFor (d : Description) (name : String) : FunctionEntry := ⟨name, d.nodeOf name⟩

def edgeFor (d : Description) (entry : EdgeEntry) : Edge :=
  ⟨d.nodeOf entry.source, d.nodeOf entry.target, entry.kind⟩

/-- The call sites of the direct calls, and then those of the indirect calls. -/
def callSites (d : Description) : List CallSite :=
  d.directCalls.map (fun call => ⟨call.label, some (d.functionOf call.caller)⟩) ++
    d.indirectCalls.map fun call => ⟨call.label, call.caller.map d.functionOf⟩

/-- The function pointers of the indirect calls, whose sites come after those of the direct calls. -/
def pointers (d : Description) : List IndirectCall :=
  d.indirectCalls.mapIdx fun i call => ⟨d.directCalls.length + i, d.nodeOf call.pointer⟩

def callEdges (d : Description) : List CallEdge :=
  d.directCalls.mapIdx fun site call => ⟨site, d.functionOf call.caller, d.functionOf call.callee⟩

/-- The program is the described one. -/
structure Describes (d : Description) (p : Program) : Prop where
  nodes : p.graph.nodes.toList = d.nodes.map d.nodeFor
  functions : p.graph.functions.toList = d.functionNames.map d.functionFor
  edges : p.graph.edges.toList = (d.edges.map d.edgeFor).eraseDups
  callSites : p.graph.callSites.toList = d.callSites
  indirectCalls : p.graph.indirectCalls.toList = d.pointers
  fieldLimit : p.graph.fieldLimit = defaultFieldLimit
  plain : p.graph.Plain
  built : p.graph.Built
  mentioned : p.callGraph.functions.toList = List.range d.functionNames.length
  calls : p.callGraph.edges.toList = d.callEdges
  callsAt : ∀ site, p.callGraph.edgesAt site = (d.callEdges[site]?).toList
  types : ∀ site, p.callGraph.type? site = if site < d.directCalls.length then some .direct else none
  filed : p.callGraph.WellFormed

/-- The names are distinct, and each is used for what it stands for. -/
structure WellNamed (d : Description) : Prop where
  distinct : d.names.Nodup
  edges : ∀ entry ∈ d.edges, entry.source ∈ d.names ∧ entry.target ∈ d.names
  directCalls : ∀ call ∈ d.directCalls, call.caller ∈ d.functionNames ∧ call.callee ∈ d.functionNames
  indirectCalls : ∀ call ∈ d.indirectCalls,
    (∀ caller ∈ call.caller, caller ∈ d.functionNames) ∧ call.pointer ∈ d.names

def nodeProblem (d : Description) (name : String) : Option NameError :=
  if name ∈ d.names then none else some (.unknown name)

def functionProblem (d : Description) (name : String) : Option NameError :=
  if name ∈ d.functionNames then none
  else if name ∈ d.names then some (.notAFunction name)
  else some (.unknown name)

/-- The entries of a list that stand in it before. -/
def repeated (names : List String) : List String :=
  (names.zipIdx.filter fun entry => names.idxOf entry.1 < entry.2).map (·.1)

def nodeProblems (d : Description) : List LoadError := (repeated d.names).map .duplicateName

def edgeProblems (d : Description) (entry : EdgeEntry) : List LoadError :=
  ((d.nodeProblem entry.source).map .inEdge).toList ++ ((d.nodeProblem entry.target).map .inEdge).toList

def directCallProblems (d : Description) (call : DirectCallEntry) : List LoadError :=
  ((d.functionProblem call.caller).map (.inCall .caller call.label)).toList ++
    ((d.functionProblem call.callee).map (.inCall .callee call.label)).toList

def indirectCallProblems (d : Description) (call : IndirectCallEntry) : List LoadError :=
  ((call.caller.bind d.functionProblem).map (.inCall .caller call.label)).toList ++
    ((d.nodeProblem call.pointer).map (.inCall .pointer call.label)).toList

/-- All that is wrong with a description, in order. -/
def problems (d : Description) : List LoadError :=
  d.nodeProblems ++ d.edges.flatMap d.edgeProblems ++ d.directCalls.flatMap d.directCallProblems ++
    d.indirectCalls.flatMap d.indirectCallProblems

theorem nodeProblem_eq_none {d : Description} {name : String} : d.nodeProblem name = none ↔ name ∈ d.names := by
  unfold nodeProblem
  split <;> simp_all

theorem functionProblem_eq_none {d : Description} {name : String} :
    d.functionProblem name = none ↔ name ∈ d.functionNames := by
  unfold functionProblem
  split
  · simp_all
  · split <;> simp_all

theorem repeated_of_nodup {names : List String} (distinct : names.Nodup) : repeated names = [] := by
  rw [repeated, List.map_eq_nil_iff, List.filter_eq_nil_iff]
  intro entry member
  obtain ⟨bound, same⟩ := List.getElem?_eq_some_iff.mp (List.mem_zipIdx_iff_getElem?.mp member)
  simp [← same, distinct.idxOf_getElem]

theorem head?_repeated {done rest : List String} {name : String} (distinct : done.Nodup) (known : name ∈ done) :
    (repeated (done ++ name :: rest)).head? = some name := by
  have before : done.zipIdx.filter (fun entry => (done ++ name :: rest).idxOf entry.1 < entry.2) = [] := by
    rw [List.filter_eq_nil_iff]
    intro entry member
    obtain ⟨bound, same⟩ := List.getElem?_eq_some_iff.mp (List.mem_zipIdx_iff_getElem?.mp member)
    simp [← same, List.idxOf_append_of_mem (List.getElem_mem bound), distinct.idxOf_getElem]
  have first : (done ++ name :: rest).idxOf name < done.length := by
    rw [List.idxOf_append_of_mem known]
    exact List.idxOf_lt_length_of_mem known
  rw [repeated, List.zipIdx_append, List.filter_append, before, List.nil_append, List.zipIdx_cons,
    List.filter_cons_of_pos (by simpa using first)]
  rfl

theorem WellNamed.problems_eq_nil {d : Description} (named : d.WellNamed) : d.problems = [] := by
  simp only [problems, List.append_eq_nil_iff, List.flatMap_eq_nil_iff]
  refine ⟨⟨⟨?_, fun entry member => ?_⟩, fun call member => ?_⟩, fun call member => ?_⟩
  · rw [nodeProblems, repeated_of_nodup named.distinct]
    rfl
  · obtain ⟨source, target⟩ := named.edges entry member
    rw [edgeProblems, nodeProblem_eq_none.mpr source, nodeProblem_eq_none.mpr target]
    rfl
  · obtain ⟨caller, callee⟩ := named.directCalls call member
    rw [directCallProblems, functionProblem_eq_none.mpr caller, functionProblem_eq_none.mpr callee]
    rfl
  · obtain ⟨caller, pointer⟩ := named.indirectCalls call member
    have none : call.caller.bind d.functionProblem = none := by
      cases known : call.caller with
      | none => rfl
      | some name => exact functionProblem_eq_none.mpr (caller name known)
    rw [indirectCallProblems, none, nodeProblem_eq_none.mpr pointer]
    rfl

section first
variable {d : Description} {error : LoadError}

theorem head?_problems_of_node {before after : List NodeEntry} {entry : NodeEntry}
    (nodes : d.nodes = before ++ entry :: after) (named : WellNamed ⟨before, [], [], []⟩)
    (known : entry.name ∈ before.map (·.name)) : d.problems.head? = some (.duplicateName entry.name) := by
  have first : (repeated d.names).head? = some entry.name := by
    rw [names, nodes, List.map_append, List.map_cons]
    exact head?_repeated named.distinct known
  simp [problems, nodeProblems, first]

theorem head?_problems_of_edge {before after : List EdgeEntry} {entry : EdgeEntry}
    (edges : d.edges = before ++ entry :: after) (named : WellNamed ⟨d.nodes, before, [], []⟩)
    (first : (d.edgeProblems entry).head? = some error) : d.problems.head? = some error := by
  have none : d.nodeProblems ++ before.flatMap d.edgeProblems ++ [] ++ [] = [] := named.problems_eq_nil
  rw [List.append_nil, List.append_nil] at none
  rw [problems, edges, List.flatMap_append, ← List.append_assoc, none, List.flatMap_cons]
  simp [first]

theorem head?_problems_of_directCall {before after : List DirectCallEntry} {call : DirectCallEntry}
    (calls : d.directCalls = before ++ call :: after) (named : WellNamed ⟨d.nodes, d.edges, before, []⟩)
    (first : (d.directCallProblems call).head? = some error) : d.problems.head? = some error := by
  have none : d.nodeProblems ++ d.edges.flatMap d.edgeProblems ++ before.flatMap d.directCallProblems ++ [] = [] :=
    named.problems_eq_nil
  rw [List.append_nil] at none
  rw [problems, calls, List.flatMap_append, ← List.append_assoc, none, List.flatMap_cons]
  simp [first]

theorem head?_problems_of_indirectCall {before after : List IndirectCallEntry} {call : IndirectCallEntry}
    (calls : d.indirectCalls = before ++ call :: after) (named : WellNamed ⟨d.nodes, d.edges, d.directCalls, before⟩)
    (first : (d.indirectCallProblems call).head? = some error) : d.problems.head? = some error := by
  have none : d.nodeProblems ++ d.edges.flatMap d.edgeProblems ++ d.directCalls.flatMap d.directCallProblems ++
      before.flatMap d.indirectCallProblems = [] := named.problems_eq_nil
  rw [problems, calls, List.flatMap_append, ← List.append_assoc, none, List.flatMap_cons]
  simp [first]

end first

theorem mem_functionNames {d : Description} {name : String} :
    name ∈ d.functionNames ↔ ∃ entry ∈ d.nodes, entry.sort = .function ∧ entry.name = name := by
  simp [functionNames, and_assoc]

theorem mem_names_of_function {d : Description} {name : String} (function : name ∈ d.functionNames) :
    name ∈ d.names := by
  obtain ⟨entry, member, _, same⟩ := mem_functionNames.mp function
  exact List.mem_map.mpr ⟨entry, member, same⟩

theorem exists_nodes_nodeOf {d : Description} {name : String} (known : name ∈ d.names) :
    ∃ entry, d.nodes[d.nodeOf name]? = some entry ∧ entry.name = name := by
  have bound : d.nodeOf name < d.nodes.length := by
    simpa [names, nodeOf] using List.idxOf_lt_length_of_mem known
  refine ⟨d.nodes[d.nodeOf name], List.getElem?_eq_getElem bound, ?_⟩
  have found : d.names[d.nodeOf name]? = some name := List.getElem?_idxOf known
  simpa [names, bound] using found

/-- A name is that of a function if its node is one. -/
theorem mem_functionNames_iff {d : Description} (distinct : d.names.Nodup) {name : String} {entry : NodeEntry}
    (found : d.nodes[d.nodeOf name]? = some entry) (same : entry.name = name) :
    name ∈ d.functionNames ↔ entry.sort = .function := by
  have member := List.mem_of_getElem? found
  rw [mem_functionNames]
  constructor
  · rintro ⟨other, otherMember, function, otherSame⟩
    rw [← List.inj_on_of_nodup_map distinct otherMember member (otherSame.trans same.symm)]
    exact function
  · exact fun function => ⟨entry, member, function, same⟩

/-- The edge of a direct call has the number of its site, so that no other edge is at this site. -/
theorem filter_callEdges (d : Description) (site : CallSiteId) :
    d.callEdges.filter (·.site == site) = (d.callEdges[site]?).toList := by
  unfold callEdges
  generalize d.directCalls = calls
  induction calls using List.reverseRecOn with
  | nil => rfl
  | append_singleton calls call ih =>
    rw [List.mapIdx_concat, List.filter_append, ih]
    rcases Nat.lt_trichotomy site calls.length with before | rfl | beyond
    · simp [List.getElem?_append, before, Nat.ne_of_gt before]
    · simp
    · rw [List.getElem?_eq_none (by rw [List.length_mapIdx]; exact Nat.le_of_lt beyond),
        List.getElem?_eq_none (by rw [List.length_append, List.length_mapIdx]; exact beyond)]
      simp [Nat.ne_of_lt beyond]

theorem site_lt_of_mem_callEdges {d : Description} {edge : CallEdge} (member : edge ∈ d.callEdges) :
    edge.site < d.directCalls.length := by
  obtain ⟨site, bound, rfl⟩ := List.mem_mapIdx.mp member
  exact bound

theorem length_callSites (d : Description) : d.callSites.length = d.directCalls.length + d.indirectCalls.length := by
  simp [callSites]

section concat
variable {done : List NodeEntry} {entry : NodeEntry}

theorem names_concat : names ⟨done ++ [entry], [], [], []⟩ = names ⟨done, [], [], []⟩ ++ [entry.name] :=
  List.map_append

theorem functionNames_concat : functionNames ⟨done ++ [entry], [], [], []⟩ =
    functionNames ⟨done, [], [], []⟩ ++ if entry.sort = .function then [entry.name] else [] := by
  by_cases function : entry.sort = .function <;> simp [functionNames, function]

theorem nodeOf_concat_of_mem {name : String} (known : name ∈ names ⟨done, [], [], []⟩) :
    nodeOf ⟨done ++ [entry], [], [], []⟩ name = nodeOf ⟨done, [], [], []⟩ name := by
  rw [nodeOf, names_concat, List.idxOf_append_of_mem known]
  rfl

theorem nodeOf_concat_new (new : entry.name ∉ names ⟨done, [], [], []⟩) :
    nodeOf ⟨done ++ [entry], [], [], []⟩ entry.name = done.length := by
  rw [nodeOf, names_concat, List.idxOf_append_of_notMem new, List.idxOf_cons_self]
  exact List.length_map ..

theorem functionOf_concat_of_mem {name : String} (known : name ∈ functionNames ⟨done, [], [], []⟩) :
    functionOf ⟨done ++ [entry], [], [], []⟩ name = functionOf ⟨done, [], [], []⟩ name := by
  rw [functionOf, functionNames_concat, List.idxOf_append_of_mem known]
  rfl

theorem functionOf_concat_new (function : entry.sort = .function) (new : entry.name ∉ names ⟨done, [], [], []⟩) :
    functionOf ⟨done ++ [entry], [], [], []⟩ entry.name = (functionNames ⟨done, [], [], []⟩).length := by
  have other : entry.name ∉ functionNames ⟨done, [], [], []⟩ := fun known => new (mem_names_of_function known)
  rw [functionOf, functionNames_concat, if_pos function, List.idxOf_append_of_notMem other, List.idxOf_cons_self]
  rfl

theorem nodeFor_concat_of_mem {old : NodeEntry} (member : old ∈ done) :
    nodeFor ⟨done ++ [entry], [], [], []⟩ old = nodeFor ⟨done, [], [], []⟩ old := by
  unfold nodeFor NodeEntry.kind
  cases sort : old.sort with
  | value => rfl
  | object => rfl
  | array => rfl
  | function =>
    have known : old.name ∈ functionNames ⟨done, [], [], []⟩ := mem_functionNames.mpr ⟨old, member, sort, rfl⟩
    rw [functionOf_concat_of_mem known]

theorem nodeFor_concat_new (new : entry.name ∉ names ⟨done, [], [], []⟩) :
    nodeFor ⟨done ++ [entry], [], [], []⟩ entry =
      ⟨entry.name, entry.kind (functionNames ⟨done, [], [], []⟩).length⟩ := by
  unfold nodeFor NodeEntry.kind
  cases sort : entry.sort with
  | value => rfl
  | object => rfl
  | array => rfl
  | function => rw [functionOf_concat_new sort new]

end concat

end Description

end PointsTo
