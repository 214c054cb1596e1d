import NullSafety.Proofs.Departures

/-!
# Finished graphs

When the source has ended, every way through the graph of a builder ends at the tail, and so does
the analysis. From each node lead the edges that its statement asks for.
-/

namespace NullSafety

/-- If edges lead on from every node but one, every way ends there. -/
theorem Graph.Forward.reflTransGen_sink {g : Graph} (h : g.Forward) {sink : Node}
    (hon : ∀ n ∈ g.nodes, n ≠ sink → ∃ m, Leads g.edges n m) {n : Node} (hn : n ∈ g.nodes) :
    Relation.ReflTransGen (Leads g.edges) n sink := by
  -- an edge leads to a later node, so there are fewer still to come
  induction hrest : g.size - n.id using Nat.strongRecOn generalizing n with
  | _ rest ih =>
      by_cases hsink : n = sink
      · rw [hsink]
      · obtain ⟨m, hm⟩ := hon n hn hsink
        obtain ⟨e, he, rfl, rfl⟩ := mem_successors.mp hm
        have hup := h.upward e he
        have hown := (h.grown.owns_ends e he).2
        have hlt := Graph.id_lt_size_of_owns hown
        exact .head hm (ih (g.size - e.dst.id) (by omega) (Graph.mem_of_owns hown) rfl)

namespace Event

variable {event : Event} {stmt : Statement}

theorem isJoin_iff (h : event.statement? = some stmt) : stmt.isJoin = true ↔ event = .exit := by
  cases event with
  | exit =>
      cases h
      exact ⟨fun _ => rfl, fun _ => rfl⟩
  | finish => cases h
  | _ =>
      cases h
      exact ⟨nofun, nofun⟩

theorem eq_enter (h : event.statement? = some stmt) (hkind : stmt.kind = .conditionEntry) :
    ∃ condition dereferences ref, event = .enter condition dereferences ref := by
  cases event with
  | enter condition dereferences ref => exact ⟨condition, dereferences, ref, rfl⟩
  | finish => cases h
  | _ =>
      cases h
      cases hkind

end Event

theorem getElem?_succ_middle {α : Type} (before : List α) (a : α) (after : List α) :
    (before ++ a :: after)[before.length + 1]? = after.head? := by
  rw [List.getElem?_append_right (Nat.le_add_right _ 1), Nat.add_sub_cancel_left,
    List.getElem?_cons_succ, List.head?_eq_getElem?]

namespace Builder

/-- The node with a number is that of the event with the number. -/
theorem getElem?_run (home : Nat) (name : Option String) {events : List Event}
    (h : .finish ∉ events) (i : Nat) :
    (Builder.run { graph := { home, name } } events).graph.nodes[i]?.map (fun n => some n.stmt) =
      events[i]?.map Event.statement? := by
  have hnodes := congrArg (fun stmts => stmts[i]?) (nodes_run { graph := { home, name } } h)
  rw [List.map_nil, List.nil_append] at hnodes
  simpa only [List.getElem?_map] using hnodes

/-- A join was made right after a node exactly if an end of an `if` follows right after its
event. -/
theorem joinsNext_run (home : Nat) (name : Option String) {events : List Event}
    (h : .finish ∉ events) (n : Node) :
    (Builder.run { graph := { home, name } } events).graph.joinsNext n = true ↔
      events[n.id + 1]? = some .exit := by
  have hnext := getElem?_run home name h (n.id + 1)
  unfold Graph.joinsNext
  cases hevent : events[n.id + 1]? with
  | none =>
      rw [hevent, Option.map_none, Option.map_eq_none_iff] at hnext
      rw [hnext]
      exact ⟨nofun, nofun⟩
  | some event =>
      rw [hevent, Option.map_some] at hnext
      obtain ⟨next, hnode, hstmt⟩ := Option.map_eq_some_iff.mp hnext
      rw [hnode, Option.some.injEq]
      exact Event.isJoin_iff hstmt.symm

theorem Poised.kind_tail_ne {b : Builder} (h : b.Poised) (hframes : b.frames = []) {tail : Node}
    (htail : b.tail = some tail) : tail.stmt.kind ≠ .conditionEntry := by
  intro hkind
  obtain ⟨rest, hrest⟩ := h.entered tail htail hkind
  rw [hframes] at hrest
  cases hrest

/-- What is drawn from a node when no frame is open. -/
theorem Balanced.kinds_perm {b : Builder} (h : b.Balanced) (hp : b.Poised) (hframes : b.frames = [])
    {tail n : Node} (htail : b.tail = some tail) (hn : n ∈ b.graph.nodes) :
    ((departures b.graph.edges n).map Edge.kind ++ kindsFrom n [(tail, .fallThrough)]).Perm
      (b.graph.onward n) := by
  have hpending : b.pending = .fallThrough := by
    rw [hp.pending tail htail]
    exact if_neg (hp.kind_tail_ne hframes htail)
  have hdues : b.dues = [(tail, .fallThrough)] := by
    unfold dues
    rw [htail, hframes, hpending]
    rfl
  unfold Balanced at h
  rw [hdues] at h
  have hkinds : (kindsFrom n (drawn b.graph.edges ++ [(tail, .fallThrough)])).Perm
      (kindsFrom n b.graph.ledger) := (h.filter _).map _
  rw [kindsFrom_append, kindsFrom_drawn,
    Graph.kindsFrom_ledger hp.consistent.forward.grown hn] at hkinds
  exact hkinds

/-- From the tail nothing is drawn. -/
theorem Balanced.departures_tail {b : Builder} (h : b.Balanced) (hp : b.Poised)
    (hframes : b.frames = []) {tail : Node} (htail : b.tail = some tail) :
    departures b.graph.edges tail = [] := by
  have hmem := Graph.mem_of_owns (hp.consistent.owns_tail tail htail)
  have hlength := (h.kinds_perm hp hframes htail hmem).length_eq
  have hkind := hp.kind_tail_ne hframes htail
  have hone : b.graph.onward tail = [.fallThrough] := by
    unfold Graph.onward
    rw [if_neg fun hboth => hkind hboth.1]
    exact if_neg hkind
  have hself : kindsFrom tail [(tail, .fallThrough)] = [.fallThrough] :=
    kindsFrom_self tail [.fallThrough]
  rw [hone, hself, List.length_append, List.length_map] at hlength
  exact List.eq_nil_of_length_eq_zero (Nat.succ.inj hlength)

/-- From every other node is drawn what it asks for. -/
theorem Balanced.departures_perm {b : Builder} (h : b.Balanced) (hp : b.Poised)
    (hframes : b.frames = []) {tail n : Node} (htail : b.tail = some tail) (hn : n ∈ b.graph.nodes)
    (hne : n ≠ tail) : ((departures b.graph.edges n).map Edge.kind).Perm (b.graph.onward n) := by
  have hkinds := h.kinds_perm hp hframes htail hn
  have hnone : kindsFrom n [(tail, .fallThrough)] = [] := by
    apply kindsFrom_eq_nil
    intro s hs
    rw [List.mem_singleton.mp hs]
    exact Ne.symm hne
  rw [hnone, List.append_nil] at hkinds
  exact hkinds

theorem Balanced.successors_eq_nil_iff {b : Builder} (h : b.Balanced) (hp : b.Poised)
    (hframes : b.frames = []) {tail n : Node} (htail : b.tail = some tail)
    (hn : n ∈ b.graph.nodes) : successors b.graph.edges n = [] ↔ n = tail := by
  constructor
  · intro hnil
    by_contra hne
    have hkinds := h.departures_perm hp hframes htail hn hne
    have hnone : departures b.graph.edges n = [] := List.map_eq_nil_iff.mp hnil
    rw [hnone] at hkinds
    exact b.graph.onward_ne_nil n hkinds.nil_eq.symm
  · rintro rfl
    exact List.map_eq_nil_iff.mpr (h.departures_tail hp hframes htail)

end Builder

theorem mem_departures {edges : List Edge} {n : Node} {e : Edge} :
    e ∈ departures edges n ↔ e ∈ edges ∧ e.src = n := by
  simp [departures]

/-- The one edge out of a node. -/
theorem departures_eq_singleton {edges : List Edge} {n : Node} {kind : Edge.Kind}
    (h : ((departures edges n).map Edge.kind).Perm [kind]) :
    ∃ next, departures edges n = [⟨n, next, kind⟩] := by
  obtain ⟨e, he, hkind⟩ := List.map_eq_singleton_iff.mp (List.perm_singleton.mp h)
  have hsrc : e.src = n := (mem_departures.mp (he ▸ List.mem_singleton_self e)).2
  refine ⟨e.dst, he.trans ?_⟩
  rw [← hsrc, ← hkind]

/-- How control leaves the condition of an `if` that is followed by the events `after`: for either
outcome by an edge of its own, except where the `if` ends right away. -/
def Branches (g : Graph) (n : Node) (after : List Event) : Prop :=
  if after.head? = some .exit then
    ∃ join, g.nodes[n.id + 1]? = some join ∧ join.stmt = .marker .join ∧
      departures g.edges n = [⟨n, join, .branchTrue⟩]
  else ((departures g.edges n).map Edge.kind).Perm [.branchTrue, .branchFalse]

/-- How a graph looks that was built from events, one node for each, and finished: control passes
through it to the node `tail`. -/
structure Finished (events : List Event) (g : Graph) (tail : Node) : Prop where
  tail_mem : tail ∈ g.nodes
  sink : ∀ n ∈ g.nodes, successors g.edges n = [] ↔ n = tail
  between : ∀ n ∈ g.nodes, g.flow.Reaches n ∧ Relation.ReflTransGen (Leads g.edges) n tail
  final : (Analysis.ofFlow g.flow).after? tail = some (Analysis.ofFlow g.flow).final
  plain : ∀ n ∈ g.nodes, n.stmt.kind ≠ .conditionEntry → n ≠ tail →
    ∃ next, departures g.edges n = [⟨n, next, .fallThrough⟩]
  condition : ∀ n ∈ g.nodes, n.stmt.kind = .conditionEntry →
    ∃ before condition dereferences ref after,
      events = before ++ .enter condition dereferences ref :: after ∧ before.length = n.id ∧
        Branches g n after

namespace Builder

/-- The events around the one that made a condition. -/
theorem exists_enter (home : Nat) (name : Option String) {events : List Event}
    (h : .finish ∉ events) {n : Node}
    (hn : n ∈ (Builder.run { graph := { home, name } } events).graph.nodes)
    (hkind : n.stmt.kind = .conditionEntry) :
    ∃ before condition dereferences ref after,
      events = before ++ .enter condition dereferences ref :: after ∧ before.length = n.id := by
  have hgrown := (forward_run home name events).grown
  have hnode := Graph.owns_iff.mp (hgrown.owns_iff_mem.mpr hn)
  have hstmt := getElem?_run home name h n.id
  rw [hnode, Option.map_some] at hstmt
  obtain ⟨event, hevent, hmade⟩ := Option.map_eq_some_iff.mp hstmt.symm
  obtain ⟨condition, dereferences, ref, rfl⟩ := Event.eq_enter hmade hkind
  obtain ⟨hlt, hget⟩ := List.getElem?_eq_some_iff.mp hevent
  refine ⟨events.take n.id, condition, dereferences, ref, events.drop (n.id + 1), ?_, ?_⟩
  · rw [← hget, List.getElem_cons_drop, List.take_append_drop]
  · exact List.length_take_of_le (Nat.le_of_lt hlt)

/-- Where an `if` ends right away, its condition leads to the join. -/
theorem leads_join (home : Nat) (name : Option String) {before after : List Event}
    {condition : String} {dereferences : List String} {ref : SourceRef}
    (h : .finish ∉ before ++ .enter condition dereferences ref :: .exit :: after) {n : Node}
    (hid : before.length = n.id) :
    let g := (Builder.run { graph := { home, name } }
      (before ++ .enter condition dereferences ref :: .exit :: after)).graph
    n ∈ g.nodes → ∃ join, g.nodes[n.id + 1]? = some join ∧ join.stmt = .marker .join ∧
      Leads g.edges n join := by
  intro g hn
  have hgrown : g.Grown := (forward_run home name _).grown
  have hsplit : before ++ .enter condition dereferences ref :: .exit :: after =
      (before ++ [.enter condition dereferences ref]) ++ .exit :: after := by
    rw [List.append_assoc]
    rfl
  -- when the end comes, the `if` is the innermost, and nothing has happened in it
  have hinnermost :
      InnermostIf (before ++ [.enter condition dereferences ref]) before.length none := .first .nil
  have hfinish : .finish ∉ before ++ [.enter condition dereferences ref] := by
    rw [hsplit] at h
    exact fun hmem => h (List.mem_append_left _ hmem)
  obtain ⟨join, hjoin, harrive⟩ := exists_join_run home name hinnermost hfinish after
  rw [← hsplit, List.length_append, List.length_singleton, hid] at hjoin harrive
  refine ⟨join, hjoin, ?_, ?_⟩
  · have hstmt := getElem?_run home name h (n.id + 1)
    have hexit : (before ++ .enter condition dereferences ref :: .exit :: after)[n.id + 1]? =
        some .exit := by
      rw [← hid, getElem?_succ_middle]
      rfl
    rw [hjoin, hexit] at hstmt
    exact Option.some.inj (Option.some.inj hstmt)
  · have hone : (predecessors g.edges join).map Node.id = [n.id] := by
      rw [harrive, joinArrivals, if_pos rfl]
    obtain ⟨p, hp, hpid⟩ := List.map_eq_singleton_iff.mp hone
    have hmem : p ∈ predecessors g.edges join := hp ▸ List.mem_singleton_self p
    obtain ⟨e, he, -, hsrc⟩ := mem_predecessors.mp hmem
    have hown : p ∈ g.nodes := hsrc ▸ Graph.mem_of_owns (hgrown.owns_ends e he).1
    rw [leads_iff_mem_predecessors, ← hgrown.eq_of_id_eq hown hn hpid]
    exact hmem

/-- The edges out of a condition, when no frame is open. -/
theorem branches_run (home : Nat) (name : Option String) {before after : List Event}
    {condition : String} {dereferences : List String} {ref : SourceRef}
    (h : .finish ∉ before ++ .enter condition dereferences ref :: after) {n : Node}
    (hid : before.length = n.id) (hkind : n.stmt.kind = .conditionEntry) :
    let g := (Builder.run { graph := { home, name } }
      (before ++ .enter condition dereferences ref :: after)).graph
    n ∈ g.nodes → ((departures g.edges n).map Edge.kind).Perm (g.onward n) →
      Branches g n after := by
  intro g hn hkinds
  have hjoins := joinsNext_run home name h n
  rw [← hid, getElem?_succ_middle] at hjoins
  unfold Branches
  by_cases hexit : after.head? = some .exit
  · obtain ⟨rest, rfl⟩ := List.head?_eq_some_iff.mp hexit
    rw [Graph.onward, if_pos ⟨hkind, hjoins.mpr hexit⟩] at hkinds
    obtain ⟨next, hnext⟩ := departures_eq_singleton hkinds
    obtain ⟨join, hjoin, hstmt, hlead⟩ := leads_join home name h hid hn
    have hsucc : successors g.edges n = [next] := congrArg (List.map Edge.dst) hnext
    have hjoin_eq : join = next := List.mem_singleton.mp (hsucc ▸ hlead)
    rw [if_pos hexit]
    exact ⟨join, hjoin, hstmt, hjoin_eq ▸ hnext⟩
  · rw [Graph.onward, if_neg fun hboth => hexit (hjoins.mp hboth.2), Statement.onward,
      if_pos hkind] at hkinds
    rw [if_neg hexit]
    exact hkinds

/-- The graph of a builder without open frames is finished. -/
theorem finished_run (home : Nat) (name : Option String) {events : List Event}
    (h : .finish ∉ events) {tail : Node} :
    let b := Builder.run { graph := { home, name } } events
    b.frames = [] → b.tail = some tail → Finished events b.graph tail := by
  intro b hframes htail
  obtain ⟨hp, hb⟩ : b.Poised ∧ b.Balanced := balanced_run home name events
  have hforward := hp.consistent.forward
  have hsink : ∀ n ∈ b.graph.nodes, successors b.graph.edges n = [] ↔ n = tail := fun n hn =>
    hb.successors_eq_nil_iff hp hframes htail hn
  constructor
  case tail_mem => exact Graph.mem_of_owns (hp.consistent.owns_tail tail htail)
  case sink => exact hsink
  case between =>
    intro n hn
    refine ⟨hforward.reached n hn, hforward.reflTransGen_sink ?_ hn⟩
    intro n hn hne
    exact List.exists_mem_of_ne_nil _ fun hnil => hne ((hsink n hn).mp hnil)
  case final =>
    rcases List.eq_nil_or_concat' b.graph.flow.reversePostorder with hnil | ⟨left, n, hlast⟩
    · rw [tail_eq_none hp.consistent hnil] at htail
      cases htail
    · have hn := tail_eq_last hp.consistent hframes hlast
      rw [htail] at hn
      cases hn
      exact Analysis.after?_last hlast
  case plain =>
    intro n hn hkind hne
    have hkinds := hb.departures_perm hp hframes htail hn hne
    rw [Graph.onward, if_neg fun hboth => hkind hboth.1, Statement.onward, if_neg hkind] at hkinds
    exact departures_eq_singleton hkinds
  case condition =>
    intro n hn hkind
    have hne : n ≠ tail := fun heq => hp.kind_tail_ne hframes htail (heq ▸ hkind)
    have hkinds := hb.departures_perm hp hframes htail hn hne
    obtain ⟨before, condition, dereferences, ref, after, rfl, hid⟩ :=
      exists_enter home name h hn hkind
    exact ⟨before, condition, dereferences, ref, after, rfl, hid,
      branches_run home name h hid hkind hn hkinds⟩

end Builder

/-- A source that has ended, whatever events it consists of, stray ones and earlier ends among them,
and that has at least one node: control passes from the start through every node to the tail, which
alone leads nowhere and after which the final state holds. A condition has one edge for either
outcome, and every other node one that falls through. If an `if` ends right away, its condition
has only the edge for the true outcome, to the join. -/
theorem finished_graph_shape (home : Nat) (name : Option String) (events : List Event)
    (h : (Builder.run { graph := { home, name } } (events ++ [.finish])).graph.nodes ≠ []) :
    let b := Builder.run { graph := { home, name } } (events ++ [.finish])
    ∃ tail, b.tail = some tail ∧
      Finished (spellOut 0 (events ++ [.finish])) b.graph tail := by
  intro b
  have hframes : b.frames = [] := by
    show (Builder.run { graph := { home, name } } (events ++ [.finish])).frames = []
    rw [Builder.run_concat]
    exact Builder.frames_finish _
  have hspelled : Builder.run { graph := { home, name } } (spellOut 0 (events ++ [.finish])) = b :=
    Builder.run_spellOut { graph := { home, name } } (events ++ [Event.finish])
  cases htail : b.tail with
  | none => exact absurd (((Builder.consistent_new home name).run _).started htail).1 h
  | some tail =>
      refine ⟨tail, rfl, ?_⟩
      rw [← hspelled] at hframes htail ⊢
      exact Builder.finished_run home name (finish_notMem_spellOut 0 _) hframes htail

/-- `if(a) {} else { if(b) {} }`, its end, a stray end of an `if`, and `if(c) { f();` without
end. -/
def halfOpen : List Event :=
  [.enter "a" [] {}, .orElse, .enter "b" [] {}, .exit, .exit, .finish, .exit, .enter "c" [] {},
    .expression "f();" [] {}]

theorem finished_graph_shape_halfOpen :
    let b := Builder.run {} (halfOpen ++ [.finish])
    b.graph.nodes.map (fun n =>
        (departures b.graph.edges n).map fun e => (e.dst.id, e.kind)) =
      [[(1, .branchFalse), (4, .branchTrue)], [(2, .fallThrough)], [(3, .branchTrue)],
        [(4, .fallThrough)], [(5, .fallThrough)], [(6, .fallThrough)],
        [(7, .branchTrue), (8, .branchFalse)], [(8, .fallThrough)], []] ∧
      ∃ tail, b.tail = some tail ∧ tail.id = 8 ∧
        Finished (spellOut 0 (halfOpen ++ [.finish])) b.graph tail := by
  have hnodes : (Builder.run {} (halfOpen ++ [.finish])).graph.nodes ≠ [] := by decide
  have hid : (Builder.run {} (halfOpen ++ [.finish])).tail.map Node.id = some 8 := by decide
  obtain ⟨tail, htail, hfinished⟩ := finished_graph_shape 0 none halfOpen hnodes
  rw [htail] at hid
  exact ⟨by decide, tail, htail, Option.some.inj hid, hfinished⟩

end NullSafety
