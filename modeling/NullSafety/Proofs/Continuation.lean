import Mathlib.Data.List.Flatten
import NullSafety.Proofs.Exploration
import NullSafety.Proofs.Interpreter

/-!
# Code that follows

A builder that takes more events adds to its graph and takes nothing back: the new edges all lead to
new nodes. So control arrives at an old node as it did before, and the states there stay. The orders
of the traversals do change, since new nodes come in between. But the old nodes keep their order
among themselves: a breadth-first loop over the larger graph, seen through the old nodes alone, is
the loop over the smaller graph that now and then rests.

What is found in a source is therefore found, in the same order, however the source goes on.
-/

namespace NullSafety

/-! ## Loops that rest now and then -/

theorem Ends.unique {σ : Type} {turn : σ → Option σ} {s u v : σ} (hu : Ends turn s u)
    (hv : Ends turn s v) : u = v := by
  induction hu with
  | stop hnone =>
      rcases hv with _ | ⟨ht, -⟩
      · rfl
      · rw [hnone] at ht
        cases ht
  | turn hsome _ ih =>
      rcases hv with hnone | ⟨ht, hv⟩
      · rw [hsome] at hnone
        cases hnone
      · rw [hsome] at ht
        cases ht
        exact ih hv

/-- A loop seen through a map is another loop, if each turn is a turn of that or changes nothing. -/
theorem Ends.map {σ τ : Type} {turn : σ → Option σ} {turn' : τ → Option τ} (view : σ → τ)
    (hturn : ∀ s t, turn s = some t → turn' (view s) = some (view t) ∨ view s = view t)
    (hstop : ∀ s, turn s = none → turn' (view s) = none) {s u : σ} (h : Ends turn s u) :
    Ends turn' (view s) (view u) := by
  induction h with
  | stop hnone => exact .stop (hstop _ hnone)
  | turn hsome _ ih =>
      rcases hturn _ _ hsome with hturn | hrest
      · exact .turn hturn ih
      · rw [hrest]
        exact ih

namespace Traversal

theorem filter_unseen (old seen ns : List Node) :
    (unseen seen ns).filter (· ∈ old) =
      unseen (seen.filter (· ∈ old)) (ns.filter (· ∈ old)) := by
  induction ns generalizing seen with
  | nil => rfl
  | cons n ns ih =>
      by_cases hold : n ∈ old <;> by_cases hseen : n ∈ seen <;> simp [unseen, hold, hseen, ih]

/-- What the old nodes show of a breadth-first loop. -/
def Breadth.among (old : List Node) (b : Breadth) : Breadth :=
  ⟨b.taken.filter (· ∈ old), b.queue.filter (· ∈ old), b.seen.filter (· ∈ old)⟩

/-- Among the old nodes, taking one of them looks as it would without the other nodes, and taking
another is not seen at all. -/
theorem Breadth.ends_among {edges edges' : List Edge} {old : List Node}
    (hsucc : ∀ n, (successors edges' n).filter (· ∈ old) = successors edges n)
    (hold : ∀ n, n ∉ old → successors edges n = []) {b u : Breadth}
    (h : Ends (Breadth.turn edges') b u) :
    Ends (Breadth.turn edges) (b.among old) (u.among old) := by
  apply h.map
  · rintro ⟨taken, queue, seen⟩ t ht
    rcases queue with _ | ⟨n, queue⟩
    · cases ht
    · cases ht
      by_cases hn : n ∈ old
      · left
        simp [among, turn, hn, filter_unseen, hsucc]
      · right
        simp [among, hn, filter_unseen, hsucc, hold n hn, unseen]
  · rintro ⟨taken, queue, seen⟩ hnone
    rcases queue with _ | ⟨n, queue⟩
    · rfl
    · cases hnone

end Traversal

/-- Elements that give nothing can be left out. -/
theorem flatMap_filter_eq {α β : Type} {f : α → List β} {p : α → Bool} {l : List α}
    (h : ∀ a ∈ l, p a = false → f a = []) : (l.filter p).flatMap f = l.flatMap f := by
  induction l with
  | nil => rfl
  | cons a l ih =>
      have hl := ih fun b hb => h b (List.mem_cons_of_mem a hb)
      cases ha : p a with
      | true => rw [List.filter_cons_of_pos ha, List.flatMap_cons, List.flatMap_cons, hl]
      | false =>
          rw [List.filter_cons_of_neg (by simp [ha]), List.flatMap_cons, hl,
            h a List.mem_cons_self ha, List.nil_append]

theorem Check.observeIn_marker {o : Options} {n : Node} {s : State} {role : Statement.Role}
    (h : n.stmt = .marker role) : observeIn o n s = [] := by
  unfold observeIn observeReturn
  rw [h]
  rfl

/-! ## Graphs that have been added to -/

namespace Graph

/-- The second graph is the first with nodes added to it, and with edges to these. -/
structure ContinuesTo (g g' : Graph) : Prop where
  nodes : g.nodes <+: g'.nodes
  edges : ∃ later, g'.edges = g.edges ++ later ∧ ∀ e ∈ later, e.dst ∉ g.nodes

namespace ContinuesTo

variable {g g' : Graph}

theorem refl (g : Graph) : g.ContinuesTo g where
  nodes := List.prefix_refl _
  edges := ⟨[], (List.append_nil _).symm, by simp⟩

theorem grow (h : g.ContinuesTo g') (hg' : g'.Grown) {stmt : Statement}
    {sources : List (Node × Edge.Kind)} (hs : ∀ s ∈ sources, g'.owns s.1 = true) :
    g.ContinuesTo (g'.grow stmt sources) := by
  obtain ⟨later, hedges, hlater⟩ := h.edges
  obtain ⟨new, hgrown, hdst, -⟩ := edges_grow hg' stmt hs
  refine ⟨?_, later ++ new, ?_, ?_⟩
  · rw [nodes_grow]
    exact h.nodes.trans (List.prefix_append _ _)
  · rw [hgrown, hedges, List.append_assoc]
  · intro e he hmem
    rcases List.mem_append.mp he with he | he
    · exact hlater e he hmem
    · have hown := hg'.owns_iff_mem.mpr (h.nodes.subset hmem)
      rw [hdst e he, not_owns_fresh] at hown
      cases hown

theorem predecessors_eq (h : g.ContinuesTo g') {n : Node} (hn : n ∈ g.nodes) :
    predecessors g'.edges n = predecessors g.edges n := by
  obtain ⟨later, hedges, hlater⟩ := h.edges
  have hnone : predecessors later n = [] := by
    rw [List.eq_nil_iff_forall_not_mem]
    intro p hp
    obtain ⟨e, he, rfl, -⟩ := mem_predecessors.mp hp
    exact hlater e he hn
  rw [hedges, predecessors_append, hnone, List.append_nil]

/-- What a node of the larger graph leads to, seen through the smaller one. -/
theorem filter_successors (h : g.ContinuesTo g') (hg : g.Grown) (n : Node) :
    (successors g'.edges n).filter (· ∈ g.nodes) = successors g.edges n := by
  obtain ⟨later, hedges, hlater⟩ := h.edges
  have hleft : (successors g.edges n).filter (· ∈ g.nodes) = successors g.edges n := by
    rw [List.filter_eq_self]
    intro m hm
    obtain ⟨e, he, -, rfl⟩ := mem_successors.mp hm
    exact decide_eq_true (mem_of_owns (hg.owns_ends e he).2)
  have hright : (successors later n).filter (· ∈ g.nodes) = [] := by
    rw [List.filter_eq_nil_iff]
    intro m hm
    obtain ⟨e, he, -, rfl⟩ := mem_successors.mp hm
    simpa using hlater e he
  rw [hedges, successors_append, List.filter_append, hleft, hright, List.append_nil]

/-- Breadth first, the nodes of the smaller graph come in the order that they have there. -/
theorem filter_breadthFirst (h : g.ContinuesTo g') (hg : g.Grown) :
    g'.flow.breadthFirst.filter (· ∈ g.nodes) = g.flow.breadthFirst := by
  obtain ⟨added, hnodes⟩ := h.nodes
  cases hlist : g.nodes with
  | nil =>
      have hnone : g.flow.start? = none := by
        show g.nodes.head? = none
        rw [hlist]
        rfl
      simp [Flow.breadthFirst, hnone]
  | cons s rest =>
      have hs : g.flow.start? = some s := by
        show g.nodes.head? = some s
        rw [hlist]
        rfl
      have hs' : g'.flow.start? = some s := by
        show g'.nodes.head? = some s
        rw [← hnodes, hlist]
        rfl
      obtain ⟨seen, hends⟩ := g.flow.explored.ends_breadthFirst s hs
      obtain ⟨seen', hends'⟩ := g'.flow.explored.ends_breadthFirst s hs'
      have hlost : ∀ n, n ∉ g.nodes → successors g.edges n = [] := by
        intro n hn
        rw [List.eq_nil_iff_forall_not_mem]
        intro m hm
        obtain ⟨e, he, rfl, -⟩ := mem_successors.mp hm
        exact hn (mem_of_owns (hg.owns_ends e he).1)
      have hamong := Traversal.Breadth.ends_among (h.filter_successors hg) hlost hends'
      have hbegin : Traversal.Breadth.among g.nodes ⟨[], [s], [s]⟩ = ⟨[], [s], [s]⟩ := by
        simp [Traversal.Breadth.among, hlist]
      rw [hbegin] at hamong
      rw [← hlist]
      exact congrArg Traversal.Breadth.taken (hamong.unique hends)

section

variable (h : g.ContinuesTo g') (hg : g.Forward) (hg' : g'.Forward)

include h hg hg'

/-- The states at the nodes of the smaller graph are those that it has by itself. -/
theorem states_eq : ∀ n, g.flow.Reaches n →
    (Analysis.ofFlow g'.flow).before? n = (Analysis.ofFlow g.flow).before? n ∧
      (Analysis.ofFlow g'.flow).after? n = (Analysis.ofFlow g.flow).after? n := by
  refine hg.acyclic.induction ?_
  intro n hn ih
  have hmem := hg.grown.mem_of_reaches hn
  have hn' := hg'.reached n (h.nodes.subset hmem)
  have hincoming : (predecessors g'.edges n).filterMap (Analysis.ofFlow g'.flow).after? =
      (predecessors g.edges n).filterMap (Analysis.ofFlow g.flow).after? := by
    rw [h.predecessors_eq hmem]
    apply List.filterMap_congr
    intro p hp
    obtain ⟨e, he, -, rfl⟩ := mem_predecessors.mp hp
    have hreach := hg.reached _ (mem_of_owns (hg.grown.owns_ends e he).1)
    exact (ih _ hreach (leads_iff_mem_predecessors.mpr hp)).2
  constructor
  · rw [Analysis.before?_eq hg'.acyclic hn', Analysis.before?_eq hg.acyclic hn]
    exact congrArg (fun incoming => some (State.mergeAll incoming)) hincoming
  · rw [Analysis.after?_eq hg'.acyclic hn', Analysis.after?_eq hg.acyclic hn]
    exact congrArg (fun incoming => some (n.stmt.transfer (State.mergeAll incoming))) hincoming

/-- What is noticed at the nodes of the smaller graph, in the larger one. -/
theorem observe_filter (o : Options) :
    Check.observe o (Analysis.ofFlow g'.flow) (g'.flow.breadthFirst.filter (· ∈ g.nodes)) =
      Check.observe o (Analysis.ofFlow g.flow) g.flow.breadthFirst := by
  rw [h.filter_breadthFirst hg.grown]
  apply List.flatMap_congr
  intro n hn
  unfold Check.observeNode
  rw [(h.states_eq hg hg' n (Flow.mem_breadthFirst.mp hn)).1]

theorem observe_sublist (o : Options) :
    (Check.observe o (Analysis.ofFlow g.flow) g.flow.breadthFirst).Sublist
      (Check.observe o (Analysis.ofFlow g'.flow) g'.flow.breadthFirst) := by
  rw [← h.observe_filter hg hg']
  exact List.filter_sublist.flatMap _

/-- Markers that have been added show nothing. -/
theorem observe_eq (o : Options)
    (hadded : ∀ n ∈ g'.nodes, n ∉ g.nodes → ∃ role, n.stmt = .marker role) :
    Check.observe o (Analysis.ofFlow g'.flow) g'.flow.breadthFirst =
      Check.observe o (Analysis.ofFlow g.flow) g.flow.breadthFirst := by
  rw [← h.observe_filter hg hg']
  symm
  apply flatMap_filter_eq
  intro n hn hnew
  have hreach := Flow.mem_breadthFirst.mp hn
  obtain ⟨role, hrole⟩ :=
    hadded n (hg'.grown.mem_of_reaches hreach) (of_decide_eq_false hnew)
  obtain ⟨s, hs⟩ := Option.isSome_iff_exists.mp (Analysis.before?_isSome.mpr hreach)
  rw [Check.observeNode_eq hs, Check.observeIn_marker hrole]

end

end ContinuesTo

end Graph

/-! ## Builders that go on -/

namespace Builder

/-- Whatever events a builder takes, its graph is only added to. -/
theorem Consistent.continuesTo_run {b : Builder} (h : b.Consistent) (events : List Event) :
    b.graph.ContinuesTo (b.run events).graph := by
  have hboth : (b.run events).Consistent ∧ b.graph.ContinuesTo (b.run events).graph := by
    refine h.run_preserves (P := fun b' => b'.Consistent ∧ b.graph.ContinuesTo b'.graph) ?_
      ⟨h, .refl _⟩ events
    rintro b' b'' stmt sources hc hgraph - hs ⟨hc', hcont⟩
    refine ⟨hc, ?_⟩
    rw [hgraph]
    exact hcont.grow hc'.forward.grown hs
  exact hboth.2

/-- The end of the source adds nothing but joins. -/
theorem marker_of_mem_finish (b : Builder) :
    ∀ n ∈ (b.step .finish).graph.nodes, n ∉ b.graph.nodes → ∃ role, n.stmt = .marker role := by
  refine closeAll_preserves (P := fun b' => ∀ n ∈ b'.graph.nodes, n ∉ b.graph.nodes →
    ∃ role, n.stmt = .marker role) ?_ b.frames b rfl (fun n hn hnew => absurd hn hnew)
  intro b' frame rest _ hb' n hn hnew
  rw [graph_close, Graph.nodes_grow] at hn
  rcases List.mem_append.mp hn with hn | hn
  · exact hb' n hn hnew
  · rw [List.mem_singleton.mp hn]
    exact ⟨.join, rfl⟩

end Builder

/-! ## Sources -/

/-- The line that an event was written on can be read, if it has one. -/
def Event.lineReadable (event : Event) : Bool :=
  event.statement?.all fun stmt => stmt.ref.lineNumber?.isSome

theorem mem_spellOut {depth : Nat} {events : List Event} {event : Event}
    (h : event ∈ spellOut depth events) : event ∈ events ∨ event = .exit := by
  fun_induction spellOut depth events with
  | case1 => cases h
  | case2 depth events ih =>
      rcases List.mem_append.mp h with h | h
      · exact Or.inr (List.eq_of_mem_replicate h)
      · exact (ih h).imp_left (List.mem_cons_of_mem _)
  | case3 depth head events _ ih =>
      rcases List.mem_cons.mp h with rfl | h
      · exact Or.inl List.mem_cons_self
      · exact (ih h).imp_left (List.mem_cons_of_mem _)

/-- The events of a source, from which a new graph is to be built. -/
structure Source where
  home : Nat := 0
  name : Option String := none
  events : List Event

namespace Source

def start (s : Source) : Builder := { graph := { home := s.home, name := s.name } }

/-- The graph built from the source and its end. -/
def graph (s : Source) : Graph := (s.start.run (s.events ++ [.finish])).graph

def analysis (s : Source) : Analysis := Analysis.ofFlow s.graph.flow

/-- What a check of the source comes to. -/
def check (s : Source) (o : Options) : Except Failure Check.Outcome :=
  s.graph.check o (s.start.runIssues (s.events ++ [.finish]))

theorem consistent_start (s : Source) : s.start.Consistent :=
  Builder.consistent_new s.home s.name

theorem forward (s : Source) : s.graph.Forward := (s.consistent_start.run _).forward

/-- The graph of a source continues that of its first part. -/
theorem continuesTo_graph (s : Source) {first later : List Event} (h : s.events = first ++ later) :
    (s.start.run first).graph.ContinuesTo s.graph := by
  unfold graph
  rw [h, List.append_assoc, Builder.run_append]
  exact (s.consistent_start.run first).continuesTo_run _

/-- Every node of the graph comes from an event, or ends an `if` that the source left open. -/
theorem exists_of_mem_nodes (s : Source) {n : Node} (hn : n ∈ s.graph.nodes) :
    (∃ event ∈ s.events, event.statement? = some n.stmt) ∨ n.stmt = .marker .join := by
  have hspell : s.graph = (s.start.run (spellOut 0 (s.events ++ [.finish]))).graph :=
    congrArg Builder.graph (s.start.run_spellOut (s.events ++ [.finish])).symm
  have hnodes := s.start.nodes_run (finish_notMem_spellOut 0 (s.events ++ [.finish]))
  have hstmt : some n.stmt ∈ (spellOut 0 (s.events ++ [.finish])).map Event.statement? := by
    rw [hspell] at hn
    have hmem := List.mem_map_of_mem (f := fun n : Node => some n.stmt) hn
    rw [hnodes] at hmem
    exact hmem
  obtain ⟨event, hevent, hmakes⟩ := List.mem_map.mp hstmt
  rcases mem_spellOut hevent with hevent | rfl
  · rcases List.mem_append.mp hevent with hevent | hevent
    · exact Or.inl ⟨event, hevent, hmakes⟩
    · rw [List.mem_singleton.mp hevent] at hmakes
      cases hmakes
  · exact Or.inr (Option.some.inj hmakes).symm

theorem lineNumber?_isSome {s : Source} (h : ∀ event ∈ s.events, event.lineReadable = true) :
    ∀ n, s.graph.flow.Reaches n → n.stmt.ref.lineNumber?.isSome = true := by
  intro n hn
  rcases s.exists_of_mem_nodes (s.forward.grown.mem_of_reaches hn) with
    ⟨event, hevent, hmakes⟩ | hjoin
  · have hline := h event hevent
    unfold Event.lineReadable at hline
    rwa [hmakes] at hline
  · rw [hjoin]
    rfl

/-- A check of a source returns, if its lines can be read. -/
theorem exists_check {s : Source} (h : ∀ event ∈ s.events, event.lineReadable = true)
    (o : Options) : ∃ r, s.check o = .ok r :=
  Check.exists_outcome (Check.failure?_observe (lineNumber?_isSome h)) _

/-- All that is noticed in a source. -/
def observations (s : Source) (o : Options) : List Check.Observation :=
  Check.observe o s.analysis s.graph.flow.breadthFirst

/-- What is noticed in a source before it ends. -/
theorem observations_eq (s : Source) (o : Options) :
    s.observations o = Check.observe o (Analysis.ofFlow (s.start.run s.events).graph.flow)
      (s.start.run s.events).graph.flow.breadthFirst := by
  have hopen := s.consistent_start.run s.events
  have hgraph : s.graph = ((s.start.run s.events).step .finish).graph :=
    congrArg Builder.graph (Builder.run_concat _ _ _)
  unfold observations analysis
  rw [hgraph]
  exact (hopen.continuesTo_run [.finish]).observe_eq hopen.forward (hopen.step .finish).forward o
    (Builder.marker_of_mem_finish _)

end Source

theorem Check.not_isClean_of_mem {o : Options} {a : Analysis} {nodes : List Node}
    {finding : Finding} (h : finding ∈ (observe o a nodes).filterMap finding?) :
    finding.isClean = false := by
  obtain ⟨n, -, s, -, ⟨x, -, hfinding⟩ | hfinding⟩ := exists_of_mem_findings h
  · obtain ⟨v, line, -, -, -, -, rfl⟩ := dereferenceFinding?_eq_some_iff.mp hfinding
    rfl
  · obtain ⟨x, v, line, -, -, -, -, -, -, rfl⟩ := returnFinding?_eq_some hfinding
    rfl

/-- Apart from `clean`, a check reports what was found. -/
theorem Check.filter_not_isClean {o : Options} {a : Analysis} {nodes : List Node}
    {known : List Issue} {r : Outcome} (h : outcome o a nodes known = .ok r) :
    r.findings.filter (!·.isClean) = (observe o a nodes).filterMap finding? := by
  rw [findings_of_outcome h]
  split
  · rename_i hempty
    rw [List.isEmpty_iff.mp hempty]
    rfl
  · rw [List.filter_eq_self]
    intro finding hfinding
    rw [not_isClean_of_mem hfinding]
    rfl

/-- **Later code changes no earlier verdict.** However a source goes on, with `if`s left open or
not, everything found in its first part is found in the whole, in the same order and at the same
nodes, files and lines; and the states before and after the nodes of the first part are the same. -/
theorem earlier_verdicts_stay (home : Nat) (name : Option String) (first later : List Event)
    (o : Options) (hlines : ∀ event ∈ first ++ later, event.lineReadable = true) :
    let part : Source := { home, name, events := first }
    let whole : Source := { home, name, events := first ++ later }
    (∃ r r', part.check o = .ok r ∧ whole.check o = .ok r' ∧
      (r.findings.filter (!·.isClean)).Sublist r'.findings) ∧
    ∀ n ∈ (part.start.run first).graph.nodes, ∃ before after,
      part.analysis.before? n = some before ∧ whole.analysis.before? n = some before ∧
      part.analysis.after? n = some after ∧ whole.analysis.after? n = some after := by
  intro part whole
  have hc := part.consistent_start.run first
  have hpart : (part.start.run first).graph.ContinuesTo part.graph :=
    part.continuesTo_graph (List.append_nil first).symm
  have hwhole : (part.start.run first).graph.ContinuesTo whole.graph :=
    whole.continuesTo_graph rfl
  constructor
  · obtain ⟨r, hr⟩ := Source.exists_check (s := part)
      (fun event hevent => hlines event (List.mem_append_left _ hevent)) o
    obtain ⟨r', hr'⟩ := Source.exists_check (s := whole) hlines o
    refine ⟨r, r', hr, hr', ?_⟩
    have hsub : (r.findings.filter (!·.isClean)).Sublist (r'.findings.filter (!·.isClean)) := by
      rw [Check.filter_not_isClean hr, Check.filter_not_isClean hr']
      apply List.Sublist.filterMap
      show (part.observations o).Sublist (whole.observations o)
      rw [part.observations_eq o]
      exact hwhole.observe_sublist hc.forward whole.forward o
    exact hsub.trans List.filter_sublist
  · intro n hn
    have hreach := hc.forward.reached n hn
    obtain ⟨hbefore, hafter⟩ := hpart.states_eq hc.forward part.forward n hreach
    obtain ⟨hbefore', hafter'⟩ := hwhole.states_eq hc.forward whole.forward n hreach
    obtain ⟨before, hb⟩ := Option.isSome_iff_exists.mp (Analysis.before?_isSome.mpr hreach)
    obtain ⟨after, ha⟩ := Option.isSome_iff_exists.mp (Analysis.after?_isSome.mpr hreach)
    exact ⟨before, after, hbefore.trans hb, hbefore'.trans hb, hafter.trans ha, hafter'.trans ha⟩

/-- `int *p = NULL; if(a) { *p = 1; if(b) { *p = 2;` -/
def twoIfsOpen : List Event :=
  [.declaration "int *p = NULL;" (some "p") true true true [] {}, .enter "a" [] {},
   .expression "*p = 1;" ["p"] {}, .enter "b" [] {}, .expression "*p = 2;" ["p"] {}]

/-- `} } else { *p = 3; p = &x;` -/
def laterElse : List Event :=
  [.exit, .orElse, .expression "*p = 3;" ["p"] {}, .assignment "p = &x;" (some "p") false [] {}]

/-- The use in the else branch is reported between the two that were there before. -/
theorem earlier_verdicts_stay_twoIfsOpen :
    let part : Source := { events := twoIfsOpen }
    let whole : Source := { events := twoIfsOpen ++ laterElse }
    (∃ r r', part.check {} = .ok r ∧ whole.check {} = .ok r' ∧
      r.findings.map (·.place?.map Place.node) = [some 2, some 4] ∧
      r'.findings.map (·.place?.map Place.node) = [some 2, some 7, some 4] ∧
      (r.findings.filter (!·.isClean)).Sublist r'.findings) ∧
    ∃ n before after, (part.start.run twoIfsOpen).graph.nodes[4]? = some n ∧
      part.analysis.before? n = some before ∧ whole.analysis.before? n = some before ∧
      part.analysis.after? n = some after ∧ whole.analysis.after? n = some after := by
  intro part whole
  obtain ⟨⟨r, r', hr, hr', hsub⟩, hstates⟩ :=
    earlier_verdicts_stay 0 none twoIfsOpen laterElse {} (by decide)
  have hpart : (part.check {}).toOption.map (·.findings.map (·.place?.map Place.node)) =
      some [some 2, some 4] := by decide +kernel
  have hwhole : (whole.check {}).toOption.map (·.findings.map (·.place?.map Place.node)) =
      some [some 2, some 7, some 4] := by decide +kernel
  obtain ⟨n, hn⟩ : ∃ n, (part.start.run twoIfsOpen).graph.nodes[4]? = some n := ⟨_, rfl⟩
  obtain ⟨before, after, hsame⟩ := hstates n (List.mem_of_getElem? hn)
  rw [show part.check {} = .ok r from hr] at hpart
  rw [show whole.check {} = .ok r' from hr'] at hwhole
  refine ⟨⟨r, r', hr, hr', Option.some.inj hpart, Option.some.inj hwhole, hsub⟩, ?_⟩
  exact ⟨n, before, after, hn, hsame⟩

end NullSafety
