import NullSafety.Proofs.Nesting

/-!
# From where control arrives

The graph of a builder can be told from the events. It runs forward and control gets everywhere in
it. A node has at most one predecessor, only a join may have two, and these are the ends of the two
branches of the `if` that it ends.
-/

namespace NullSafety

/-- From where control arrives at the join of an `if`, as numbers of events: from the end of the
body and from the end of the else branch, or from the condition if there is no else. If the body is
empty as well, that is one and the same. The join itself has the number `joinAt`. -/
def joinArrivals (joinAt conditionAt : Nat) (elseAt : Option Nat) : List Nat :=
  match elseAt with
  | some elseAt => [elseAt - 1, joinAt - 1]
  | none => if joinAt = conditionAt + 1 then [conditionAt] else [joinAt - 1, conditionAt]

/-- Only the first node of a graph laid out forward comes from nowhere. -/
theorem Graph.Forward.predecessors_eq_nil_iff {g : Graph} (h : g.Forward) {n : Node}
    (hn : n ∈ g.nodes) : predecessors g.edges n = [] ↔ n.id = 0 := by
  constructor
  · intro hnil
    obtain ⟨before, hpath⟩ := h.reached n hn
    rcases Flow.path_iff.mp hpath with ⟨-, hstart⟩ | ⟨passed, p, -, -, hlead⟩
    · have hfirst : g.nodes[0]? = some n := by
        rw [← List.head?_eq_getElem?]
        exact hstart
      exact h.grown.id_eq hfirst
    · have hp : p ∈ predecessors g.edges n := leads_iff_mem_predecessors.mp hlead
      rw [hnil] at hp
      cases hp
  · intro hid
    rw [List.eq_nil_iff_forall_not_mem]
    intro p hp
    obtain ⟨e, he, rfl, -⟩ := mem_predecessors.mp hp
    have hup := h.upward e he
    omega

namespace Builder

/-! ## How many ways arrive -/

/-- How many ways may arrive at a node with the statement. -/
def mostArrivals (stmt : Statement) : Nat := if stmt.isJoin then 2 else 1

/-- No node has more predecessors than it may have. -/
def FewArrivals (b : Builder) : Prop :=
  b.Consistent ∧
    ∀ n ∈ b.graph.nodes, (predecessors b.graph.edges n).length ≤ mostArrivals n.stmt

theorem FewArrivals.grow {b b' : Builder} (h : b.FewArrivals) (hc : b'.Consistent)
    {stmt : Statement} {sources : List (Node × Edge.Kind)}
    (hgraph : b'.graph = b.graph.grow stmt sources)
    (hs : ∀ s ∈ sources, b.graph.owns s.1 = true)
    (hfew : (sources.map Prod.fst).eraseDups.length ≤ mostArrivals stmt) : b'.FewArrivals := by
  refine ⟨hc, ?_⟩
  intro n hn
  rw [hgraph, Graph.nodes_grow] at hn
  rw [hgraph]
  rcases List.mem_append.mp hn with hn | hn
  · rw [Graph.predecessors_grow_of_mem h.1.forward.grown hs hn]
    exact h.2 n hn
  · rw [List.mem_singleton] at hn
    subst hn
    rw [Graph.predecessors_grow_fresh h.1.forward.grown hs]
    exact hfew

theorem length_appendSource_le (b : Builder) (stmt : Statement) :
    ((b.tail.toList.map fun tail => (tail, b.pending)).map Prod.fst).eraseDups.length ≤
      mostArrivals stmt := by
  have hmost : 1 ≤ mostArrivals stmt := by
    unfold mostArrivals
    split <;> omega
  cases b.tail with
  | none => exact Nat.zero_le _
  | some tail => exact hmost

theorem FewArrivals.step {b : Builder} (h : b.FewArrivals) (event : Event) :
    (b.step event).FewArrivals := by
  refine step_preserves ?_ ?_ ?_ ?_ h event
  · intro b stmt _ _ hb
    exact hb.grow (hb.1.append stmt) (graph_append b stmt) hb.1.owns_appendSource
      (b.length_appendSource_le stmt)
  · intro b stmt _ _ hb
    exact hb.grow (hb.1.enter stmt) (graph_enter b stmt) hb.1.owns_appendSource
      (b.length_appendSource_le stmt)
  · intro b frame rest hframes hopen hb
    exact hb.grow (hb.1.beginElse hframes hopen) (graph_beginElse b frame rest)
      (hb.1.owns_elseSource hframes) (Nat.le_refl 1)
  · intro b frame rest hframes hb
    refine hb.grow (hb.1.close hframes) (graph_close b frame rest)
      (hb.1.owns_closeSources hframes) ?_
    have hpair : ∀ m n : Node, [m, n].eraseDups.length ≤ 2 := by
      intro m n
      rw [eraseDups_pair]
      split <;> simp
    rw [Consistent.map_fst_branchExits]
    cases frame.bodyExit <;> exact hpair _ _

theorem fewArrivals_run (home : Nat) (name : Option String) (events : List Event) :
    (Builder.run { graph := { home, name } } events).FewArrivals := by
  refine run_preserves (fun _ event hb => hb.step event) ⟨consistent_new home name, ?_⟩ events
  intro n hn
  cases hn

/-! ## The ways that meet in a join -/

theorem ids_pair {g : Graph} (h : g.Grown) {m n : Node} (hm : g.owns m = true)
    (hn : g.owns n = true) :
    ([m, n].eraseDups).map Node.id = if n.id = m.id then [m.id] else [m.id, n.id] := by
  have hiff : n = m ↔ n.id = m.id :=
    ⟨congrArg Node.id, h.eq_of_id_eq (Graph.mem_of_owns hn) (Graph.mem_of_owns hm)⟩
  rw [eraseDups_pair]
  by_cases hid : n.id = m.id
  · rw [if_pos hid, if_pos (hiff.mpr hid)]
    rfl
  · rw [if_neg hid, if_neg (mt hiff.mp hid)]
    rfl

/-- The end of an `if` makes a join, at which control arrives from the ends of its branches. -/
theorem predecessors_join (home : Nat) (name : Option String) {events : List Event}
    {conditionAt : Nat} {elseAt : Option Nat} (h : InnermostIf events conditionAt elseAt)
    (hfinish : .finish ∉ events) :
    let b := Builder.run { graph := { home, name } } events
    (predecessors (b.step .exit).graph.edges (b.graph.fresh (.marker .join))).map Node.id =
      joinArrivals events.length conditionAt elseAt := by
  intro b
  have hc : b.Consistent := (consistent_new home name).run events
  obtain ⟨frame, rest, hframes, hcondition, hexit⟩ := frames_run_innermostIf home name h hfinish
  have hmem : frame ∈ b.frames := hframes ▸ List.mem_cons_self
  have hne : events ≠ [] := by
    rintro rfl
    cases hframes
  obtain ⟨tail, htail, htailId⟩ := exists_tail_run home name hfinish hne
  rw [step_exit_of_cons hframes, graph_close,
    Graph.predecessors_grow_fresh hc.forward.grown (hc.owns_closeSources hframes),
    Consistent.map_fst_branchExits]
  have hownTail := hc.owns_tail tail htail
  have htail' : b.tail.getD frame.condition = tail := by
    show (Builder.run { graph := { home, name } } events).tail.getD frame.condition = tail
    rw [htail]
    rfl
  rw [htail']
  unfold joinArrivals
  cases elseAt with
  | none =>
      -- the condition is the tail exactly if its event was the last one
      have hnone : frame.bodyExit = none := Option.map_eq_none_iff.mp hexit
      rw [hnone]
      show ([tail, frame.condition].eraseDups).map Node.id = _
      rw [ids_pair hc.forward.grown hownTail (hc.owns_condition frame hmem), hcondition]
      have hempty : conditionAt = tail.id ↔ events.length = conditionAt + 1 := by omega
      by_cases hid : conditionAt = tail.id
      · rw [if_pos hid, if_pos (hempty.mp hid), hid]
      · rw [if_neg hid, if_neg (mt hempty.mpr hid)]
        have hlast : tail.id = events.length - 1 := by omega
        rw [hlast]
  | some k =>
      obtain ⟨exit, hsome, hexitId⟩ := Option.map_eq_some_iff.mp hexit
      have hexitId : exit.id = k - 1 := hexitId
      -- the else lies in between, so the ends of the branches are two
      obtain ⟨hpos, hlt⟩ := h.elseAt_lt rfl
      rw [hsome]
      show ([exit, tail].eraseDups).map Node.id = _
      have hid : tail.id ≠ exit.id := by omega
      have hlast : tail.id = events.length - 1 := by omega
      rw [ids_pair hc.forward.grown (hc.owns_bodyExit frame hmem exit hsome) hownTail, if_neg hid,
        hexitId, hlast]

/-! ## The layout of a graph -/

/-- How a graph is laid out that was built from events, one node for each. -/
structure Layout (events : List Event) (g : Graph) : Prop where
  statements : g.nodes.map (fun n => some n.stmt) = events.map Event.statement?
  numbered : ∀ (i : Nat) (n : Node), g.nodes[i]? = some n → n.id = i
  upward : ∀ e ∈ g.edges, e.src.id < e.dst.id
  acyclic : ∀ n, ¬ Relation.TransGen (Leads g.edges) n n
  reached : ∀ n ∈ g.nodes, g.flow.Reaches n
  first : ∀ n ∈ g.nodes, predecessors g.edges n = [] ↔ n.id = 0
  few : ∀ n ∈ g.nodes, (predecessors g.edges n).length ≤ mostArrivals n.stmt
  /-- The end of an open `if`, wherever it stands, ends the innermost one. -/
  joined : ∀ before after, events = before ++ .exit :: after → 0 < openIfs before →
    (∃ conditionAt elseAt, InnermostIf before conditionAt elseAt) ∧
      ∀ conditionAt elseAt, InnermostIf before conditionAt elseAt →
        ∃ join, g.nodes[before.length]? = some join ∧
          (predecessors g.edges join).map Node.id =
            joinArrivals before.length conditionAt elseAt

/-- What arrives at a join is the same whatever happens after it. -/
theorem exists_join_run (home : Nat) (name : Option String) {before : List Event}
    {conditionAt : Nat} {elseAt : Option Nat} (h : InnermostIf before conditionAt elseAt)
    (hfinish : .finish ∉ before) (after : List Event) :
    let g := (Builder.run { graph := { home, name } } (before ++ .exit :: after)).graph
    ∃ join, g.nodes[before.length]? = some join ∧
      (predecessors g.edges join).map Node.id =
        joinArrivals before.length conditionAt elseAt := by
  intro g
  have hjoin := predecessors_join home name h hfinish
  have hsize := size_run home name hfinish
  have hg :
      g = (((Builder.run { graph := { home, name } } before).step .exit).run after).graph := by
    rw [← run_concat, ← run_append, List.append_assoc]
    rfl
  have hc : (Builder.run { graph := { home, name } } before).Consistent :=
    (consistent_new home name).run before
  generalize Builder.run { graph := { home, name } } before = b at *
  obtain ⟨sources, hgraph, -⟩ := b.step_makes (rfl : Event.statement? .exit = some _)
  have hgrows := (Grows.refl (hc.step .exit)).run after
  have hmade : (b.step .exit).graph.nodes[before.length]? =
      some (b.graph.fresh (.marker .join)) := by
    rw [hgraph, Graph.nodes_grow, ← hsize]
    exact List.getElem?_concat_length
  refine ⟨b.graph.fresh (.marker .join), ?_, ?_⟩
  · obtain ⟨later, hlater⟩ := hgrows.nodes
    obtain ⟨hlt, -⟩ := List.getElem?_eq_some_iff.mp hmade
    rw [hg, ← hlater, List.getElem?_append_left hlt]
    exact hmade
  · rw [hg, hgrows.arrivals _ (List.mem_of_getElem? hmade)]
    exact hjoin

theorem layout_run (home : Nat) (name : Option String) {events : List Event}
    (h : .finish ∉ events) :
    Layout events (Builder.run { graph := { home, name } } events).graph where
  statements := nodes_run { graph := { home, name } } h
  numbered := fun _ _ => (forward_run home name events).grown.id_eq
  upward := (forward_run home name events).upward
  acyclic := fun _ hcycle =>
    Nat.lt_irrefl _ ((forward_run home name events).id_lt_of_transGen hcycle)
  reached := (forward_run home name events).reached
  first := fun _ hn => (forward_run home name events).predecessors_eq_nil_iff hn
  few := (fewArrivals_run home name events).2
  joined := by
    rintro before after rfl hopen
    have hfinish : .finish ∉ before := fun hmem => h (List.mem_append_left _ hmem)
    refine ⟨exists_innermostIf hfinish hopen, ?_⟩
    intro conditionAt elseAt hinnermost
    exact exists_join_run home name hinnermost hfinish after

end Builder

/-- Whatever events a builder has taken, stray ones and ends of the source among them, its graph
runs forward and control gets everywhere in it. Only the first node has no predecessor, only a join
may have two, and the join of an `if` has the ends of its two branches. -/
theorem builder_graph_layout (home : Nat) (name : Option String) (events : List Event) :
    Builder.Layout (spellOut 0 events) (Builder.run { graph := { home, name } } events).graph := by
  rw [← Builder.run_spellOut { graph := { home, name } } events]
  exact Builder.layout_run home name (finish_notMem_spellOut 0 events)

/-- `if(a) { if(b) {} } else {} else { if(c) { f();` without end, and behind it a stray end. -/
def secondElse : List Event :=
  [.enter "a" [] {}, .enter "b" [] {}, .exit, .orElse, .orElse, .enter "c" [] {},
    .expression "f();" [] {}, .finish, .exit]

/-- The end of the source joins the outer `if` last, although a second else lies in between. -/
theorem builder_graph_layout_secondElse :
    let g := (Builder.run {} secondElse).graph
    g.nodes.map (fun n => (predecessors g.edges n).map Node.id) =
        [[], [0], [1], [0], [3], [4], [5], [6, 5], [2, 7], [8]] ∧
      ∃ before after, spellOut 0 secondElse = before ++ .exit :: after ∧ 0 < openIfs before ∧
        InnermostIf before 0 (some 3) ∧ ∃ join, g.nodes[8]? = some join ∧
          (predecessors g.edges join).map Node.id = joinArrivals 8 0 (some 3) := by
  intro g
  have hbody : Within false [.enter "b" [] {}, .exit] := .nested .nil .nil
  have hother : Within true [.orElse, .enter "c" [] {}, .expression "f();" [] {}, .exit] :=
    .orElse (.nested (.plain rfl .nil) .nil)
  have hinnermost : InnermostIf ((spellOut 0 secondElse).take 8) 0 (some 3) :=
    @InnermostIf.second [] _ _ _ _ _ hbody hother
  have hopen : 0 < openIfs ((spellOut 0 secondElse).take 8) := by decide
  obtain ⟨-, hjoined⟩ := (builder_graph_layout 0 none secondElse).joined _ [.exit] rfl hopen
  exact ⟨by decide, _, _, rfl, hopen, hinnermost, hjoined 0 (some 3) hinnermost⟩

end NullSafety
