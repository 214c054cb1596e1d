import NullSafety.Analysis
import NullSafety.Proofs.Traversal

/-!
# The equations of the analysis

A pass knows a node exactly if control can get there. Without cycles, all that leads to a node has
been visited before the node is, so a single pass solves the equations of the analysis: before a
node stands the merge of what its predecessors leave, in the order of their edges, and after it
what its statement makes of that.
-/

namespace NullSafety

namespace Analysis

theorem pass_concat (edges : List Edge) (order : List Node) (n : Node) :
    pass edges (order ++ [n]) = pass edges order ++ [visit edges (pass edges order) n] := by
  unfold pass
  rw [List.foldl_append]
  rfl

/-- Going on with a pass keeps the visits made so far. -/
theorem pass_append (edges : List Edge) (left right : List Node) :
    ∃ later, pass edges (left ++ right) = pass edges left ++ later ∧
      later.map Visit.node = right := by
  induction right using List.reverseRecOn with
  | nil => exact ⟨[], by simp, rfl⟩
  | append_singleton right n ih =>
      obtain ⟨later, hpass, hnodes⟩ := ih
      refine ⟨later ++ [visit edges (pass edges (left ++ right)) n], ?_, ?_⟩
      · rw [← List.append_assoc, pass_concat, hpass, List.append_assoc]
      · rw [List.map_append, hnodes]
        rfl

theorem map_node_pass (edges : List Edge) (order : List Node) :
    (pass edges order).map Visit.node = order := by
  obtain ⟨later, hpass, hnodes⟩ := pass_append edges [] order
  rw [List.nil_append] at hpass
  rw [hpass]
  exact hnodes

theorem visitOf?_eq_none_iff {visits : List Visit} {n : Node} :
    visitOf? visits n = none ↔ n ∉ visits.map Visit.node := by
  simp [visitOf?]

theorem visitOf?_append (visits later : List Visit) (n : Node) :
    visitOf? (visits ++ later) n = (visitOf? visits n).or (visitOf? later n) :=
  List.find?_append

/-- What has been visited is not looked at again. -/
theorem visitOf?_pass_append {edges : List Edge} {left right : List Node} {n : Node}
    (h : n ∉ right) : visitOf? (pass edges (left ++ right)) n = visitOf? (pass edges left) n := by
  obtain ⟨later, hpass, hnodes⟩ := pass_append edges left right
  have hlater : visitOf? later n = none := visitOf?_eq_none_iff.mpr (hnodes ▸ h)
  rw [hpass, visitOf?_append, hlater, Option.or_none]

/-- Each node is visited once, with what was visited before it at hand. -/
theorem visitOf?_pass_middle {edges : List Edge} {left right : List Node} {n : Node}
    (h : (left ++ n :: right).Nodup) :
    visitOf? (pass edges (left ++ n :: right)) n = some (visit edges (pass edges left) n) := by
  obtain ⟨hn, -⟩ := List.nodup_cons.mp (List.nodup_middle.mp h)
  rw [List.mem_append, not_or] at hn
  have hleft : visitOf? (pass edges left) n = none := by
    rw [visitOf?_eq_none_iff, map_node_pass]
    exact hn.1
  have hself : visitOf? [visit edges (pass edges left) n] n =
      some (visit edges (pass edges left) n) := by
    simp [visitOf?, visit]
  rw [List.append_cons, visitOf?_pass_append hn.2, pass_concat, visitOf?_append, hleft, hself]
  rfl

theorem visitOf?_ofFlow_isSome {f : Flow} {n : Node} :
    (visitOf? (ofFlow f).visits n).isSome ↔ f.Reaches n := by
  rw [Option.isSome_iff_ne_none, Ne, visitOf?_eq_none_iff, not_not, ofFlow, map_node_pass,
    Flow.mem_reversePostorder]

theorem before?_isSome {f : Flow} {n : Node} :
    ((ofFlow f).before? n).isSome ↔ f.Reaches n := by
  rw [before?, Option.isSome_map, visitOf?_ofFlow_isSome]

theorem after?_isSome {f : Flow} {n : Node} : ((ofFlow f).after? n).isSome ↔ f.Reaches n := by
  rw [after?, Option.isSome_map, visitOf?_ofFlow_isSome]

/-- The visit of a node that control can get to, with all that leads to it taken into account. -/
theorem visitOf?_ofFlow {f : Flow} {n : Node} (h : f.Acyclic) (hn : f.Reaches n) :
    visitOf? (ofFlow f).visits n = some (visit f.edges (ofFlow f).visits n) := by
  have hnodup := Flow.nodup_reversePostorder f
  have hord := Flow.ordered_reversePostorder h
  obtain ⟨left, right, hsplit⟩ := List.append_of_mem (Flow.mem_reversePostorder.mpr hn)
  rw [hsplit] at hnodup hord
  -- the visits at hand when the node is visited say the same about its predecessors as all do
  have hsame : ∀ p ∈ predecessors f.edges n, visitOf? (pass f.edges (left ++ n :: right)) p =
      visitOf? (pass f.edges left) p := by
    intro p hp
    apply visitOf?_pass_append
    intro hright
    have hleft := hord.mem_left hnodup (List.mem_append_right _ hright)
      (leads_iff_mem_predecessors.mpr hp)
    exact List.disjoint_of_nodup_append hnodup hleft hright
  have hincoming : (predecessors f.edges n).filterMap (fun p =>
      (visitOf? (pass f.edges (left ++ n :: right)) p).map Visit.after) =
      (predecessors f.edges n).filterMap fun p =>
        (visitOf? (pass f.edges left) p).map Visit.after := by
    apply List.filterMap_congr
    intro p hp
    rw [hsame p hp]
  unfold ofFlow
  rw [hsplit, visitOf?_pass_middle hnodup, visit, visit, hincoming]

theorem before?_eq {f : Flow} {n : Node} (h : f.Acyclic) (hn : f.Reaches n) :
    (ofFlow f).before? n =
      some (State.mergeAll ((predecessors f.edges n).filterMap (ofFlow f).after?)) := by
  rw [before?, visitOf?_ofFlow h hn]
  rfl

theorem after?_eq {f : Flow} {n : Node} (h : f.Acyclic) (hn : f.Reaches n) :
    (ofFlow f).after? n = some (n.stmt.transfer
      (State.mergeAll ((predecessors f.edges n).filterMap (ofFlow f).after?))) := by
  rw [after?, visitOf?_ofFlow h hn]
  rfl

theorem after?_of_before? {f : Flow} {n : Node} {s : State} (h : f.Acyclic) (hn : f.Reaches n)
    (hs : (ofFlow f).before? n = some s) : (ofFlow f).after? n = some (n.stmt.transfer s) := by
  rw [before?_eq h hn] at hs
  rw [after?_eq h hn, Option.some.inj hs]

/-- The final state is the one after the node that reverse postorder lists last. -/
theorem after?_last {f : Flow} {left : List Node} {n : Node}
    (h : f.reversePostorder = left ++ [n]) : (ofFlow f).after? n = some (ofFlow f).final := by
  have hnodup := Flow.nodup_reversePostorder f
  rw [h] at hnodup
  have hvisit : visitOf? (pass f.edges (left ++ [n])) n =
      some (visit f.edges (pass f.edges left) n) :=
    visitOf?_pass_middle hnodup
  unfold after? final ofFlow
  rw [h, hvisit, pass_concat, List.getLast?_concat]
  rfl

end Analysis

end NullSafety
