import Mathlib.Data.List.Perm.Basic
import NullSafety.Proofs.Continuation
import NullSafety.Proofs.Departures
import NullSafety.Proofs.Summary
import NullSafety.Proofs.WellNested

/-!
# Notes taken along a source

The analysis and the check go through the nodes of a graph in orders of their own, and note what
they come across: findings, names that are not tracked, statements that were skipped. What is noted
at a node depends on its statement and on what the state before it says about the variables, and
nothing is ever noted at a marker.

Up to the order, such notes can be taken without a graph. The interpreter comes by the same
statements with the same states, in the order of the events.
-/

namespace NullSafety

/-! ## States regardless of their order -/

/-- The states say the same about every variable. -/
def State.Same (s t : State) : Prop := ∀ x, s.get? x = t.get? x

namespace State.Same

variable {s t s' t' : State}

theorem refl (s : State) : s.Same s := fun _ => rfl

theorem merge (h : s.Same t) (h' : s'.Same t') : (s.merge s').Same (t.merge t') := by
  intro x
  rw [State.get?_merge_eq_joinEntries, State.get?_merge_eq_joinEntries, h x, h' x]

theorem transfer (h : s.Same t) (stmt : Statement) : (stmt.transfer s).Same (stmt.transfer t) := by
  intro x
  rw [Statement.get?_transfer, Statement.get?_transfer, h x]

theorem names_perm (h : s.Same t) : s.names.Perm t.names := by
  apply (List.perm_ext_iff_of_nodup s.nodup t.nodup).mpr
  intro x
  show x ∈ s.names ↔ x ∈ t.names
  rw [← not_iff_not, ← State.get?_eq_none_iff, ← State.get?_eq_none_iff, h x]

theorem sameEntries (h : s.Same t) : s.sameEntries t = true := by
  have hsize : s.size = t.size := by
    have hlength := h.names_perm.length_eq
    rwa [State.names, State.names, List.length_map, List.length_map] at hlength
  unfold State.sameEntries
  rw [Bool.and_eq_true, decide_eq_true_iff, List.all_eq_true]
  refine ⟨hsize, ?_⟩
  intro v hv
  rw [decide_eq_true_iff, ← h v.name]
  exact State.find_of_mem s.nodup hv

end State.Same

theorem Variable.join_comm {v w : Variable} (h : v.name = w.name) : v.join w = w.join v := by
  unfold Variable.join
  rw [h, Bool.or_comm, Nullability.join_comm]

/-- Merging either way round leads to the same entries, if not in the same order. -/
theorem State.same_merge_comm (s t : State) : (s.merge t).Same (t.merge s) := by
  intro x
  rw [State.get?_merge_eq_joinEntries, State.get?_merge_eq_joinEntries]
  cases hs : s.get? x with
  | none => cases t.get? x <;> rfl
  | some v =>
      cases ht : t.get? x with
      | none => rfl
      | some w =>
          have hname := (State.name_of_get? hs).trans (State.name_of_get? ht).symm
          exact congrArg some (Variable.join_comm hname)

/-! ## Notes on a graph -/

/-- What is noted of a source, statement by statement. -/
structure Note (α : Type) where
  /-- What is noted at a statement, given the state before it. -/
  on : Statement → State → List α
  marker : ∀ role s, on (.marker role) s = []
  same : ∀ stmt {s t : State}, s.Same t → on stmt s = on stmt t

section

variable {α : Type} {out : Node → Option State}

/-- What arrives at a node, given the states after the nodes. -/
def Graph.arriving (g : Graph) (out : Node → Option State) (n : Node) : State :=
  State.mergeAll ((predecessors g.edges n).filterMap out)

/-- What is noted at the nodes of a graph, given the states after them. -/
def Graph.notes (g : Graph) (note : Note α) (out : Node → Option State) : List α :=
  g.nodes.flatMap fun n => note.on n.stmt (g.arriving out n)

namespace Graph.ContinuesTo

variable {g g' : Graph} (note : Note α)

theorem exists_notes (h : g.ContinuesTo g') (out : Node → Option State) :
    ∃ added, g'.nodes = g.nodes ++ added ∧ g'.notes note out =
      g.notes note out ++ added.flatMap fun n => note.on n.stmt (g'.arriving out n) := by
  obtain ⟨added, hnodes⟩ := h.nodes
  refine ⟨added, hnodes.symm, ?_⟩
  unfold Graph.notes
  rw [← hnodes, List.flatMap_append]
  congr 1
  apply List.flatMap_congr
  intro n hn
  unfold Graph.arriving
  rw [h.predecessors_eq hn]

/-- Nothing is noted at markers that have been added. -/
theorem notes_eq_of_markers (h : g.ContinuesTo g') (hg' : g'.Grown)
    (hadded : ∀ n ∈ g'.nodes, n ∉ g.nodes → ∃ role, n.stmt = .marker role) :
    g'.notes note out = g.notes note out := by
  obtain ⟨added, hnodes, hnotes⟩ := h.exists_notes note out
  have hnodup := hg'.nodup_nodes
  rw [hnodes, List.nodup_append] at hnodup
  have hnone : (added.flatMap fun n => note.on n.stmt (g'.arriving out n)) = [] := by
    rw [List.flatMap_eq_nil_iff]
    intro n hn
    obtain ⟨role, hrole⟩ := hadded n (by simp [hnodes, hn]) fun hold =>
      hnodup.2.2 n hold n hn rfl
    rw [hrole, note.marker]
  rw [hnotes, hnone, List.append_nil]

end Graph.ContinuesTo

theorem Graph.notes_grow {g : Graph} {stmt : Statement} {sources : List (Node × Edge.Kind)}
    (note : Note α) (h : g.Grown) (hs : ∀ s ∈ sources, g.owns s.1 = true) :
    (g.grow stmt sources).notes note out = g.notes note out ++
      note.on stmt (State.mergeAll ((sources.map Prod.fst).eraseDups.filterMap out)) := by
  obtain ⟨added, hnodes, hnotes⟩ := ((Graph.ContinuesTo.refl g).grow h hs).exists_notes note out
  rw [Graph.nodes_grow] at hnodes
  rw [hnotes, ← List.append_cancel_left hnodes, List.flatMap_singleton]
  unfold Graph.arriving
  rw [Graph.predecessors_grow_fresh h hs]
  rfl

/-! ## Notes of the interpreter -/

namespace Interpreter

/-- What is noted along the events. -/
def notes (note : Note α) (i : Interpreter) : List Event → List α
  | [] => []
  | event :: events =>
    (event.statement?.elim [] fun stmt => note.on stmt i.current) ++
      (i.step event).notes note events

variable {note : Note α} {i : Interpreter}

theorem run_append (i : Interpreter) (events more : List Event) :
    i.run (events ++ more) = (i.run events).run more :=
  List.foldl_append

theorem notes_append (events more : List Event) :
    i.notes note (events ++ more) = i.notes note events ++ (i.run events).notes note more := by
  induction events generalizing i with
  | nil => rfl
  | cons event events ih =>
      show _ ++ (i.step event).notes note (events ++ more) =
        (_ ++ (i.step event).notes note events) ++ ((i.step event).run events).notes note more
      rw [ih, List.append_assoc]

namespace Agrees

variable {b : Builder}

theorem notes_append (hc : b.Consistent) (h : Agrees out b i) (stmt : Statement) :
    (b.append stmt).graph.notes note out = b.graph.notes note out ++ note.on stmt i.current := by
  rw [Builder.graph_append, Graph.notes_grow note hc.forward.grown hc.owns_appendSource,
    h.mergeAll_appendSource]

/-- At one event the same is noted on both sides. -/
theorem notes_step (hc : b.Consistent) (h : Agrees out b i) (event : Event) :
    (b.step event).graph.notes note out = b.graph.notes note out ++
      event.statement?.elim [] fun stmt => note.on stmt i.current := by
  have hcont : b.graph.ContinuesTo (b.step event).graph := hc.continuesTo_run [event]
  have hgrown := (hc.step event).forward.grown
  -- an event that makes a marker, at which there is nothing to note
  have hmarker : ∀ role, event.statement? = some (.marker role) →
      (b.step event).graph.notes note out = b.graph.notes note out ++
        event.statement?.elim [] fun stmt => note.on stmt i.current := by
    intro role hrole
    obtain ⟨sources, hgraph, -⟩ := b.step_makes hrole
    rw [hrole, Option.elim_some, note.marker, List.append_nil]
    apply hcont.notes_eq_of_markers note hgrown
    intro n hn hnew
    rw [hgraph, Graph.nodes_grow] at hn
    rcases List.mem_append.mp hn with hn | hn
    · exact absurd hn hnew
    · rw [List.mem_singleton.mp hn]
      exact ⟨role, rfl⟩
  cases event with
  | declaration | assignment | expression | jump | enter => exact h.notes_append hc _
  | orElse => exact hmarker .orElse rfl
  | exit => exact hmarker .join rfl
  | finish =>
      rw [hcont.notes_eq_of_markers note hgrown b.marker_of_mem_finish]
      exact (List.append_nil _).symm

theorem notes_run (hc : b.Consistent) (h : Agrees out b i) (events : List Event)
    (hout : Solves out (b.run events).graph) :
    (b.run events).graph.notes note out = b.graph.notes note out ++ i.notes note events := by
  induction events generalizing b i with
  | nil => exact (List.append_nil _).symm
  | cons event events ih =>
      have hsolves := (hc.step event).solves_of_run events hout
      have hrest := ih (hc.step event) (h.step hc event hsolves) hout
      rw [h.notes_step hc event, List.append_assoc] at hrest
      exact hrest

end Agrees

end Interpreter

end

/-! ## Sources -/

/-- Whoever visits what control can get to, each once, visits all nodes. -/
theorem Graph.Forward.perm_nodes {g : Graph} (h : g.Forward) {order : List Node}
    (hnodup : order.Nodup) (hmem : ∀ n, n ∈ order ↔ g.flow.Reaches n) : order.Perm g.nodes := by
  rw [List.perm_ext_iff_of_nodup hnodup h.grown.nodup_nodes]
  intro n
  rw [hmem]
  exact ⟨h.grown.mem_of_reaches, h.reached n⟩

namespace Source

variable {α : Type} (s : Source)

theorem agrees_start (out : Node → Option State) : Interpreter.Agrees out s.start {} := by
  refine ⟨?_, fun _ => rfl, .nil⟩
  intro n hn
  cases hn

theorem solves : Solves s.analysis.after? (s.start.run (s.events ++ [.finish])).graph :=
  solves_after? s.forward

/-- The final state, by the interpreter. -/
theorem final_eq : s.analysis.final = (Interpreter.run {} (s.events ++ [.finish])).current := by
  have hframes : (s.start.run (s.events ++ [.finish])).frames = [] := by
    rw [Builder.run_concat]
    exact Builder.frames_finish _
  exact ((s.agrees_start _).run s.consistent_start _ s.solves).final_eq
    (s.consistent_start.run _) hframes

/-- Whoever visits the nodes of the graph, in whatever order, notes what the interpreter notes. -/
theorem notes_perm (note : Note α) {order : List Node} (hnodup : order.Nodup)
    (hmem : ∀ n, n ∈ order ↔ s.graph.flow.Reaches n) {f : Node → List α}
    (hf : ∀ n state, s.analysis.before? n = some state → f n = note.on n.stmt state) :
    (order.flatMap f).Perm (Interpreter.notes note {} (s.events ++ [.finish])) := by
  have hnotes : s.graph.notes note s.analysis.after? =
      Interpreter.notes note {} (s.events ++ [.finish]) :=
    (s.agrees_start _).notes_run s.consistent_start _ s.solves
  rw [← hnotes]
  apply (s.forward.perm_nodes hnodup hmem).flatMap
  intro n hn
  rw [hf n _ (Analysis.before?_eq s.forward.acyclic ((hmem n).mp hn))]
  rfl

end Source

/-! ## What a check notes -/

/-- The finding without the id of its node. -/
def Finding.forgetNode : Finding → Finding
  | .dereference name nullability place => .dereference name nullability { place with node := -1 }
  | .nullReturn name place => .nullReturn name { place with node := -1 }
  | .clean => .clean

namespace Check

/-- What an observation shows of itself once ids are forgotten. -/
def shown : Observation → Option (Finding ⊕ Issue)
  | .found finding => some (.inl finding.forgetNode)
  | .noticed issue => some (.inr issue)
  | .failed _ => none

theorem map_forgetNode_findings (observations : List Observation) :
    (observations.filterMap finding?).map Finding.forgetNode =
      (observations.filterMap shown).filterMap Sum.getLeft? := by
  rw [List.map_filterMap, List.filterMap_filterMap]
  apply List.filterMap_congr
  intro observation _
  cases observation <;> rfl

theorem filterMap_issue?_eq (observations : List Observation) :
    observations.filterMap issue? = (observations.filterMap shown).filterMap Sum.getRight? := by
  rw [List.filterMap_filterMap]
  apply List.filterMap_congr
  intro observation _
  cases observation <;> rfl

variable {m n : Node} {s t : State}

theorem shown_foundAt {make : Place → Finding} (h : m.stmt = n.stmt)
    (hmake : ∀ place id, (make { place with node := id }).forgetNode = (make place).forgetNode) :
    shown (foundAt m make) = shown (foundAt n make) := by
  unfold foundAt
  rw [h]
  cases n.stmt.ref.lineNumber? with
  | none => rfl
  | some line =>
      exact congrArg (fun finding => some (Sum.inl finding))
        (hmake ⟨n.stmt.text, n.id, n.stmt.ref.file, line⟩ m.id)

/-- What is shown at a node does not depend on anything but its statement. -/
theorem shown_observeIn (o : Options) (h : m.stmt = n.stmt) (s : State) :
    (observeIn o m s).filterMap shown = (observeIn o n s).filterMap shown := by
  have hdereference : ∀ x, (observeDereference o m s x).bind shown =
      (observeDereference o n s x).bind shown := by
    intro x
    unfold observeDereference untracked
    rw [h]
    split
    · rfl
    · split
      · exact shown_foundAt h fun _ _ => rfl
      · rfl
  have hreturn : (observeReturn o m s).bind shown = (observeReturn o n s).bind shown := by
    unfold observeReturn untracked
    rw [h]
    split
    · split
      · rfl
      · split
        · exact shown_foundAt h fun _ _ => rfl
        · rfl
    · rfl
  simp only [filterMap_observeIn, hdereference, hreturn, h]

theorem observeIn_congr (o : Options) (n : Node) (h : s.Same t) :
    observeIn o n s = observeIn o n t := by
  have hdereference : observeDereference o n s = observeDereference o n t := by
    ext1 x
    unfold observeDereference
    rw [h x]
  have hreturn : observeReturn o n s = observeReturn o n t := by
    unfold observeReturn
    split
    · rw [h]
    · rfl
  unfold observeIn
  rw [hdereference, hreturn]

end Check

namespace Note

/-- What a check shows. -/
def shown (o : Options) : Note (Finding ⊕ Issue) where
  on stmt s := (Check.observeIn o ⟨0, 0, stmt⟩ s).filterMap Check.shown
  marker role s := by
    rw [Check.observeIn_marker rfl]
    rfl
  same stmt s t h := by
    rw [Check.observeIn_congr o _ h]

/-- The statements that the analysis skips. -/
def skipped : Note Issue where
  on stmt _ := stmt.transferIssue?.toList
  marker _ _ := rfl
  same _ _ _ _ := rfl

end Note

namespace Source

theorem shown_perm (s : Source) (o : Options) :
    ((s.observations o).filterMap Check.shown).Perm
      (Interpreter.notes (.shown o) {} (s.events ++ [.finish])) := by
  unfold observations Check.observe
  rw [List.filterMap_flatMap]
  apply s.notes_perm (.shown o) (Flow.nodup_breadthFirst _) fun _ => Flow.mem_breadthFirst
  intro n state hstate
  rw [Check.observeNode_eq hstate]
  apply Check.shown_observeIn
  rfl

theorem skipped_perm (s : Source) :
    s.analysis.issues.Perm (Interpreter.notes .skipped {} (s.events ++ [.finish])) := by
  have hissues : s.analysis.issues =
      s.graph.flow.reversePostorder.flatMap fun n => n.stmt.transferIssue?.toList := by
    have hnodes : s.analysis.visits.map Visit.node = s.graph.flow.reversePostorder :=
      Analysis.map_node_pass _ _
    rw [← hnodes, List.flatMap_map]
    exact List.filterMap_eq_flatMap_toList _ _
  rw [hissues]
  exact s.notes_perm .skipped (Flow.nodup_reversePostorder _)
    (fun _ => Flow.mem_reversePostorder) fun _ _ _ => rfl

end Source

end NullSafety
