import PointsTo.Program.Loader
import PointsTo.Proofs.Results
import PointsTo.Proofs.CallGraph.Growth
import PointsTo.Proofs.Graph.Assembly

namespace PointsTo

namespace Loader

/-- What holds of all that has been loaded so far. -/
structure Sound (l : Loader) : Prop where
  built : l.graph.Built
  plain : l.graph.Plain
  names : ∀ (name : String) (n : NodeId), l.names[name]? = some n → n < l.graph.nodes.size

theorem sound_empty : empty.Sound where
  built := .empty
  plain := Graph.plain_empty
  names name n known := by simp [empty] at known

namespace Sound
variable {l m : Loader}

theorem record (sound : l.Sound) (event : Event) : (l.record event).Sound :=
  ⟨sound.built, sound.plain, sound.names⟩

/-- A new name stands for the node that was added with it. -/
theorem names_insert (sound : l.Sound) {name : String} {size : Nat} (grown : size = l.graph.nodes.size + 1)
    (other : String) (n : NodeId) (known : (l.names.insert name l.graph.nodes.size)[other]? = some n) : n < size := by
  rw [Std.TreeMap.getElem?_insert] at known
  rw [grown]
  split at known
  · cases known
    exact Nat.lt_succ_self _
  · exact Nat.lt_succ_of_lt (sound.names other n known)

theorem addNode (sound : l.Sound) {entry : NodeEntry} (added : l.addNode entry = .ok m) : m.Sound := by
  have size (node : Node) : (l.graph.nodes.push node).size = l.graph.nodes.size + 1 := Array.size_push ..
  unfold Loader.addNode at added
  split at added
  · cases added
  · split at added
    all_goals cases added
    · exact ⟨sound.built.value _, sound.plain.addValue _, sound.names_insert (size _)⟩
    · exact ⟨sound.built.object _, sound.plain.addObject _, sound.names_insert (size _)⟩
    · exact ⟨sound.built.array _, sound.plain.addArray _, sound.names_insert (size _)⟩
    · exact ⟨sound.built.function _, sound.plain.addFunction _, sound.names_insert (size _)⟩

theorem node_lt (sound : l.Sound) {name : String} {n : NodeId} (found : l.node name = .ok n) :
    n < l.graph.nodes.size := by
  unfold Loader.node at found
  split at found
  · rename_i known
    cases found
    exact sound.names name _ known
  · cases found

/-- A graph with the same nodes may take the place of the one loaded so far. -/
theorem replace (sound : l.Sound) {graph : Graph} (built : graph.Built) (nodes : graph.nodes = l.graph.nodes) :
    { l with graph }.Sound where
  built := built
  plain := sound.plain.of_nodes_eq nodes
  names name n known := by
    change n < graph.nodes.size
    rw [nodes]
    exact sound.names name n known

theorem insertEdge (sound : l.Sound) {edge : Edge} {graph : Graph} {e : Option EdgeId}
    (source : edge.source < l.graph.nodes.size) (target : edge.target < l.graph.nodes.size)
    (result : l.graph.insertEdge edge = (graph, e)) : { l with graph }.Sound := by
  have inserted : { l with graph := (l.graph.insertEdge edge).1 }.Sound :=
    sound.replace (sound.built.insertEdge edge source target) (Graph.nodes_insertEdge ..)
  rw [result] at inserted
  exact inserted

theorem addEdge (sound : l.Sound) {entry : EdgeEntry} (added : l.addEdge entry = .ok m) : m.Sound := by
  unfold Loader.addEdge at added
  obtain ⟨source, foundS, added⟩ := bind_eq_ok_iff.mp added
  obtain ⟨target, foundT, added⟩ := bind_eq_ok_iff.mp added
  have inS := sound.node_lt (mapError_eq_ok_iff.mp foundS)
  have inT := sound.node_lt (mapError_eq_ok_iff.mp foundT)
  -- a note about an ignored offset may come first, and one about a repeated edge last
  split at added
  all_goals
    dsimp only at added
    split at added
    all_goals
      rename_i result
      cases added
  · exact (sound.record _).insertEdge inS inT result
  · exact ((sound.record _).insertEdge inS inT result).record _
  · exact sound.insertEdge inS inT result
  · exact (sound.insertEdge inS inT result).record _

theorem addCallSite (sound : l.Sound) (label : String) (caller : Option FuncId) :
    { l with graph := (l.graph.addCallSite label caller).1 }.Sound :=
  sound.replace (sound.built.callSite label caller) rfl

theorem addDirectCall (sound : l.Sound) {entry : DirectCallEntry} (added : l.addDirectCall entry = .ok m) :
    m.Sound := by
  unfold Loader.addDirectCall at added
  obtain ⟨caller, _, added⟩ := bind_eq_ok_iff.mp added
  obtain ⟨callee, _, added⟩ := bind_eq_ok_iff.mp added
  cases added
  have called := sound.addCallSite entry.label (some caller)
  exact ⟨called.built, called.plain, called.names⟩

theorem addIndirectCall (sound : l.Sound) {entry : IndirectCallEntry} (added : l.addIndirectCall entry = .ok m) :
    m.Sound := by
  unfold Loader.addIndirectCall at added
  obtain ⟨caller, _, added⟩ := bind_eq_ok_iff.mp added
  obtain ⟨pointer, _, added⟩ := bind_eq_ok_iff.mp added
  cases added
  have called := sound.addCallSite entry.label caller
  exact called.replace (called.built.indirectCall _ pointer) rfl

end Sound

/-- What adding one entry keeps, adding a list of them keeps. -/
theorem addAll_keeps {α : Type} {P : Loader → Prop} {add : Loader → α → Except LoadError Loader}
    (step : ∀ {l m : Loader} {entry : α}, P l → add l entry = .ok m → P m) {entries : List α} {l m : Loader}
    (start : P l) (added : l.addAll add entries = .ok m) : P m :=
  foldlM_keeps (fun _ _ _ _ held first => step held (mapError_eq_ok_iff.mp first)) start added

section calls
variable {l m : Loader}

theorem callGraph_addNode {entry : NodeEntry} (built : l.callGraph.Built) (added : l.addNode entry = .ok m) :
    m.callGraph.Built := by
  unfold Loader.addNode at added
  split at added
  · cases added
  · split at added
    all_goals cases added
    · exact built
    · exact built
    · exact built
    · exact built.function _

theorem callGraph_addEdge {entry : EdgeEntry} (built : l.callGraph.Built) (added : l.addEdge entry = .ok m) :
    m.callGraph.Built := by
  unfold Loader.addEdge at added
  obtain ⟨source, _, added⟩ := bind_eq_ok_iff.mp added
  obtain ⟨target, _, added⟩ := bind_eq_ok_iff.mp added
  split at added
  all_goals
    dsimp only at added
    split at added
    all_goals
      cases added
      exact built

theorem callGraph_addDirectCall {entry : DirectCallEntry} (built : l.callGraph.Built)
    (added : l.addDirectCall entry = .ok m) : m.callGraph.Built := by
  unfold Loader.addDirectCall at added
  obtain ⟨caller, _, added⟩ := bind_eq_ok_iff.mp added
  obtain ⟨callee, _, added⟩ := bind_eq_ok_iff.mp added
  cases added
  exact (built.edge _ caller callee).type _ .direct

theorem callGraph_addIndirectCall {entry : IndirectCallEntry} (built : l.callGraph.Built)
    (added : l.addIndirectCall entry = .ok m) : m.callGraph.Built := by
  unfold Loader.addIndirectCall at added
  obtain ⟨caller, _, added⟩ := bind_eq_ok_iff.mp added
  obtain ⟨pointer, _, added⟩ := bind_eq_ok_iff.mp added
  cases added
  exact built

end calls

end Loader

namespace Description
variable {d : Description} {l : Loader}

/-- What every step of the loading keeps holds of what is loaded. -/
theorem load_keeps {P : Loader → Prop} (empty : P .empty)
    (node : ∀ {l m : Loader} {entry : NodeEntry}, P l → l.addNode entry = .ok m → P m)
    (edge : ∀ {l m : Loader} {entry : EdgeEntry}, P l → l.addEdge entry = .ok m → P m)
    (directCall : ∀ {l m : Loader} {entry : DirectCallEntry}, P l → l.addDirectCall entry = .ok m → P m)
    (indirectCall : ∀ {l m : Loader} {entry : IndirectCallEntry}, P l → l.addIndirectCall entry = .ok m → P m)
    (record : ∀ {l : Loader} (event : Event), P l → P (l.record event)) (loaded : d.load = .ok l) : P l := by
  unfold Description.load at loaded
  obtain ⟨nodes, added, loaded⟩ := bind_eq_ok_iff.mp loaded
  have afterNodes := Loader.addAll_keeps node empty added
  obtain ⟨edges, added, loaded⟩ := bind_eq_ok_iff.mp loaded
  have afterEdges := Loader.addAll_keeps edge afterNodes added
  obtain ⟨direct, added, loaded⟩ := bind_eq_ok_iff.mp loaded
  have afterDirect := Loader.addAll_keeps directCall afterEdges added
  obtain ⟨calls, added, loaded⟩ := bind_eq_ok_iff.mp loaded
  have afterCalls := Loader.addAll_keeps indirectCall afterDirect added
  cases loaded
  exact record _ afterCalls

/-- A loaded graph is built by the operations on graphs, and has no field yet. -/
theorem load_sound (loaded : d.load = .ok l) : l.Sound :=
  load_keeps Loader.sound_empty (fun sound => sound.addNode) (fun sound => sound.addEdge)
    (fun sound => sound.addDirectCall) (fun sound => sound.addIndirectCall) (fun event sound => sound.record event)
    loaded

theorem load_callGraph_built (loaded : d.load = .ok l) : l.callGraph.Built :=
  load_keeps (P := fun l => l.callGraph.Built) .empty Loader.callGraph_addNode Loader.callGraph_addEdge
    Loader.callGraph_addDirectCall Loader.callGraph_addIndirectCall (fun _ built => built) loaded

end Description

end PointsTo
