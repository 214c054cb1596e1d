import Mathlib.Data.List.Basic
import NullSafety.Builder.Basic
import NullSafety.Proofs.Grown

/-!
# The graphs of builders

Whatever events a builder takes, in whatever order, it only ever does one of four things: it
appends a node, opens a frame, begins an else branch or closes a frame. Each adds one node, with
edges from nodes that the builder holds on to. So the graph is laid out forward, and a node without
an edge out of it is one that the builder still holds on to: its tail, or the end of a first branch
whose frame is open.
-/

namespace NullSafety

namespace Builder

theorem graph_append (b : Builder) (stmt : Statement) :
    (b.append stmt).graph =
      b.graph.grow stmt (b.tail.toList.map fun tail => (tail, b.pending)) := by
  unfold append
  cases b.tail <;> rfl

theorem graph_enter (b : Builder) (stmt : Statement) :
    (b.enter stmt).graph =
      b.graph.grow stmt (b.tail.toList.map fun tail => (tail, b.pending)) :=
  graph_append b stmt

theorem graph_beginElse (b : Builder) (frame : Frame) (rest : List Frame) :
    (b.beginElse frame rest).graph =
      b.graph.grow (.marker .orElse) [(frame.condition, .branchFalse)] := rfl

theorem graph_close (b : Builder) (frame : Frame) (rest : List Frame) :
    (b.close frame rest).graph = b.graph.grow (.marker .join)
      (branchExits frame (b.tail.getD frame.condition)) := rfl

/-! ## Events that depend on the open frames -/

section

variable {b : Builder} {frame : Frame} {rest : List Frame}

theorem step_orElse_of_open (hframes : b.frames = frame :: rest) (hexit : frame.bodyExit = none) :
    b.step .orElse = b.beginElse frame rest := by
  simp [step, openElse?, hframes, hexit]

/-- A second else is a plain marker. -/
theorem step_orElse_of_taken {n : Node} (hframes : b.frames = frame :: rest)
    (hexit : frame.bodyExit = some n) : b.step .orElse = b.append (.marker .orElse) := by
  simp [step, openElse?, hframes, hexit]

theorem step_orElse_of_nil (hframes : b.frames = []) :
    b.step .orElse = b.append (.marker .orElse) := by
  simp [step, openElse?, hframes]

theorem step_exit_of_cons (hframes : b.frames = frame :: rest) :
    b.step .exit = b.close frame rest := by
  simp [step, hframes]

theorem step_exit_of_nil (hframes : b.frames = []) : b.step .exit = b.append (.marker .join) := by
  simp [step, hframes]

end

/-! ## Induction over events -/

section

variable {P : Builder → Prop}

theorem closeAll_preserves
    (hclose : ∀ b frame rest, b.frames = frame :: rest → P b → P (b.close frame rest)) :
    ∀ (frames : List Frame) (b : Builder), b.frames = frames → P b → P (b.closeAll frames)
  | [], _, _, hb => hb
  | frame :: rest, b, hframes, hb =>
      closeAll_preserves hclose rest (b.close frame rest) rfl (hclose b frame rest hframes hb)

theorem kind_ne_of_plain? {event : Event} {stmt : Statement} (h : event.plain? = some stmt) :
    stmt.kind ≠ .conditionEntry ∧ stmt.isJoin = false := by
  cases event <;> cases h <;> exact ⟨nofun, rfl⟩

/-- What the four operations of a builder preserve is preserved by every event. Only an `if` appends
a condition, and only where no frame is open a join is appended like a statement. -/
theorem step_preserves
    (happend : ∀ b stmt, stmt.kind ≠ .conditionEntry → (stmt.isJoin = true → b.frames = []) → P b →
      P (b.append stmt))
    (henter : ∀ b stmt, stmt.kind = .conditionEntry → stmt.isJoin = false → P b → P (b.enter stmt))
    (helse : ∀ b frame rest, b.frames = frame :: rest → frame.bodyExit = none → P b →
      P (b.beginElse frame rest))
    (hclose : ∀ b frame rest, b.frames = frame :: rest → P b → P (b.close frame rest))
    {b : Builder} (hb : P b) (event : Event) : P (b.step event) := by
  have hplain : ∀ stmt, event.plain? = some stmt → P (b.append stmt) := by
    intro stmt hstmt
    obtain ⟨hkind, hjoin⟩ := kind_ne_of_plain? hstmt
    exact happend b stmt hkind (fun h => absurd (hjoin.symm.trans h) nofun) hb
  have hmarker : P (b.append (.marker .orElse)) := happend b _ nofun nofun hb
  cases event with
  | declaration | assignment | expression | jump => exact hplain _ rfl
  | enter => exact henter b _ rfl rfl hb
  | orElse =>
      cases hframes : b.frames with
      | nil =>
          rw [step_orElse_of_nil hframes]
          exact hmarker
      | cons frame rest =>
          cases hexit : frame.bodyExit with
          | none =>
              rw [step_orElse_of_open hframes hexit]
              exact helse b frame rest hframes hexit hb
          | some n =>
              rw [step_orElse_of_taken hframes hexit]
              exact hmarker
  | exit =>
      cases hframes : b.frames with
      | nil =>
          rw [step_exit_of_nil hframes]
          exact happend b _ nofun (fun _ => hframes) hb
      | cons frame rest =>
          rw [step_exit_of_cons hframes]
          exact hclose b frame rest hframes hb
  | finish => exact closeAll_preserves hclose b.frames b rfl hb

theorem run_preserves (hstep : ∀ b event, P b → P (b.step event)) {b : Builder} (hb : P b)
    (events : List Event) : P (b.run events) := by
  induction events generalizing b with
  | nil => exact hb
  | cons event events ih => exact ih (hstep b event hb)

end

theorem run_append (b : Builder) (left right : List Event) :
    b.run (left ++ right) = (b.run left).run right :=
  List.foldl_append

theorem run_concat (b : Builder) (events : List Event) (event : Event) :
    b.run (events ++ [event]) = (b.run events).step event :=
  run_append b events [event]

theorem frames_closeAll : ∀ (frames : List Frame) (b : Builder), b.frames = frames →
    (b.closeAll frames).frames = []
  | [], _, hframes => hframes
  | _ :: rest, b, _ => frames_closeAll rest (b.close _ rest) rfl

/-- When the source has ended, no frame is open. -/
theorem frames_finish (b : Builder) : (b.step .finish).frames = [] :=
  frames_closeAll b.frames b rfl

/-! ## What holds of every builder -/

/-- What is true of a builder whatever events it has taken. -/
structure Consistent (b : Builder) : Prop where
  forward : b.graph.Forward
  started : b.tail = none → b.graph.nodes = [] ∧ b.frames = []
  owns_tail : ∀ n, b.tail = some n → b.graph.owns n = true
  owns_condition : ∀ frame ∈ b.frames, b.graph.owns frame.condition = true
  owns_bodyExit : ∀ frame ∈ b.frames, ∀ n, frame.bodyExit = some n → b.graph.owns n = true
  /-- A node from which no edge leads on is still held on to. -/
  held : ∀ n ∈ b.graph.nodes, (∀ m, ¬ Leads b.graph.edges n m) →
    b.tail = some n ∨ ∃ frame ∈ b.frames, frame.bodyExit = some n

theorem consistent_new (home : Nat) (name : Option String) :
    Consistent { graph := { home, name } } where
  forward := .new home name
  started := fun _ => ⟨rfl, rfl⟩
  owns_tail := by
    intro n hn
    cases hn
  owns_condition := by
    intro frame hframe
    cases hframe
  owns_bodyExit := by
    intro frame hframe
    cases hframe
  held := by
    intro n hn
    cases hn

/-- One more node keeps a builder consistent, if its edges come from nodes of the graph, among them
every node that the builder lets go of. -/
theorem Consistent.grow {b : Builder} (h : b.Consistent) (b' : Builder) (stmt : Statement)
    (sources : List (Node × Edge.Kind)) (hgraph : b'.graph = b.graph.grow stmt sources)
    (htail : b'.tail = some (b.graph.fresh stmt))
    (hs : ∀ s ∈ sources, b.graph.owns s.1 = true)
    (hfirst : sources = [] → b.graph.nodes = [])
    (hframes : ∀ frame ∈ b'.frames, b'.graph.owns frame.condition = true ∧
      ∀ n, frame.bodyExit = some n → b'.graph.owns n = true)
    (hheld : ∀ n, b.tail = some n ∨ (∃ frame ∈ b.frames, frame.bodyExit = some n) →
      (∃ s ∈ sources, s.1 = n) ∨ ∃ frame ∈ b'.frames, frame.bodyExit = some n) :
    b'.Consistent where
  forward := hgraph ▸ h.forward.grow stmt hs hfirst
  started := by
    intro hnone
    rw [htail] at hnone
    cases hnone
  owns_tail := by
    intro n hn
    rw [htail] at hn
    cases hn
    rw [hgraph, Graph.owns_grow]
    exact Graph.owns_fresh b.graph stmt
  owns_condition := fun frame hframe => (hframes frame hframe).1
  owns_bodyExit := fun frame hframe => (hframes frame hframe).2
  held := by
    intro n hn hend
    rw [hgraph] at hn hend
    rw [Graph.nodes_grow] at hn
    rcases List.mem_append.mp hn with hn | hn
    · have hold : ∀ m, ¬ Leads b.graph.edges n m := fun m hm =>
        hend m (Graph.leads_grow h.forward.grown hs hm)
      rcases hheld n (h.held n hn hold) with ⟨s, hmem, rfl⟩ | hframe
      · exact absurd (Graph.leads_grow_fresh h.forward.grown hs hmem) (hend _)
      · exact Or.inr hframe
    · rw [List.mem_singleton] at hn
      exact Or.inl (hn ▸ htail)

namespace Consistent

variable {b : Builder} {frame : Frame} {rest : List Frame}

theorem tail_eq_some (h : b.Consistent) (hframes : b.frames = frame :: rest) :
    ∃ tail, b.tail = some tail ∧ b.graph.owns tail = true := by
  cases htail : b.tail with
  | none =>
      have hnil := (h.started htail).2
      rw [hframes] at hnil
      cases hnil
  | some tail => exact ⟨tail, rfl, h.owns_tail tail htail⟩

/-- The source of the edge to a node that is appended. -/
theorem owns_appendSource (h : b.Consistent) :
    ∀ s ∈ b.tail.toList.map fun tail => (tail, b.pending), b.graph.owns s.1 = true := by
  intro s hs
  obtain ⟨tail, htail, rfl⟩ := List.mem_map.mp hs
  exact h.owns_tail tail (Option.mem_toList.mp htail)

theorem nodes_eq_nil (h : b.Consistent)
    (hnone : (b.tail.toList.map fun tail => (tail, b.pending)) = []) : b.graph.nodes = [] := by
  cases htail : b.tail with
  | none => exact (h.started htail).1
  | some tail =>
      rw [htail] at hnone
      cases hnone

theorem owns_frame_grow (h : b.Consistent) (stmt : Statement)
    (sources : List (Node × Edge.Kind)) (hframe : frame ∈ b.frames) :
    (b.graph.grow stmt sources).owns frame.condition = true ∧
      ∀ n, frame.bodyExit = some n → (b.graph.grow stmt sources).owns n = true := by
  simp only [Graph.owns_grow]
  exact ⟨Graph.owns_addNode (h.owns_condition frame hframe) stmt,
    fun n hn => Graph.owns_addNode (h.owns_bodyExit frame hframe n hn) stmt⟩

theorem append (h : b.Consistent) (stmt : Statement) : (b.append stmt).Consistent := by
  refine h.grow _ stmt _ (graph_append b stmt) rfl h.owns_appendSource h.nodes_eq_nil ?_ ?_
  · intro frame hframe
    rw [graph_append]
    exact h.owns_frame_grow stmt _ hframe
  · rintro n (htail | hframe)
    · exact Or.inl ⟨(n, b.pending), by simp [htail], rfl⟩
    · exact Or.inr hframe

theorem enter (h : b.Consistent) (stmt : Statement) : (b.enter stmt).Consistent := by
  refine h.grow _ stmt _ (graph_enter b stmt) rfl h.owns_appendSource h.nodes_eq_nil ?_ ?_
  · intro frame hframe
    rw [graph_enter]
    rcases List.mem_cons.mp hframe with rfl | hframe
    · refine ⟨?_, fun n hn => by cases hn⟩
      rw [Graph.owns_grow]
      exact Graph.owns_fresh b.graph stmt
    · exact h.owns_frame_grow stmt _ hframe
  · rintro n (htail | ⟨frame, hframe, hexit⟩)
    · exact Or.inl ⟨(n, b.pending), by simp [htail], rfl⟩
    · exact Or.inr ⟨frame, List.mem_cons_of_mem _ hframe, hexit⟩

theorem owns_elseSource (h : b.Consistent) (hframes : b.frames = frame :: rest) :
    ∀ s ∈ [(frame.condition, Edge.Kind.branchFalse)], b.graph.owns s.1 = true := by
  intro s hs
  rw [List.mem_singleton.mp hs]
  exact h.owns_condition frame (hframes ▸ List.mem_cons_self)

/-- The else branch begins at the condition, and its frame holds on to the tail instead. -/
theorem beginElse (h : b.Consistent) (hframes : b.frames = frame :: rest)
    (hopen : frame.bodyExit = none) : (b.beginElse frame rest).Consistent := by
  obtain ⟨tail, htail, hown⟩ := h.tail_eq_some hframes
  have hmem : frame ∈ b.frames := hframes ▸ List.mem_cons_self
  refine h.grow _ (.marker .orElse) _ (graph_beginElse b frame rest) rfl
    (h.owns_elseSource hframes) (by simp) ?_ ?_
  · intro frame' hframe'
    rw [graph_beginElse]
    rcases List.mem_cons.mp hframe' with rfl | hframe'
    · refine ⟨(h.owns_frame_grow _ _ hmem).1, ?_⟩
      intro n hn
      rw [Option.some.injEq, htail] at hn
      subst hn
      rw [Graph.owns_grow]
      exact Graph.owns_addNode hown _
    · exact h.owns_frame_grow _ _ (hframes ▸ List.mem_cons_of_mem _ hframe')
  · rintro n (hn | ⟨frame', hframe', hexit⟩)
    · exact Or.inr ⟨_, List.mem_cons_self, by rw [hn]; rfl⟩
    · rw [hframes] at hframe'
      rcases List.mem_cons.mp hframe' with rfl | hframe'
      · rw [hopen] at hexit
        cases hexit
      · exact Or.inr ⟨frame', List.mem_cons_of_mem _ hframe', hexit⟩

/-- The ends of the branches of a frame. -/
theorem map_fst_branchExits (frame : Frame) (tail : Node) :
    (branchExits frame tail).map Prod.fst =
      match frame.bodyExit with
      | none => [tail, frame.condition]
      | some n => [n, tail] := by
  unfold branchExits
  cases frame.bodyExit <;> rfl

theorem owns_closeSources (h : b.Consistent) (hframes : b.frames = frame :: rest) :
    ∀ s ∈ branchExits frame (b.tail.getD frame.condition), b.graph.owns s.1 = true := by
  obtain ⟨tail, htail, hown⟩ := h.tail_eq_some hframes
  have hmem : frame ∈ b.frames := hframes ▸ List.mem_cons_self
  intro s hs
  have hs' : s.1 ∈ (branchExits frame tail).map Prod.fst := by
    rw [htail] at hs
    exact List.mem_map_of_mem hs
  rw [map_fst_branchExits] at hs'
  cases hexit : frame.bodyExit with
  | none =>
      rw [hexit] at hs'
      rcases List.mem_pair.mp hs' with hs' | hs'
      · exact hs' ▸ hown
      · exact hs' ▸ h.owns_condition frame hmem
  | some n =>
      rw [hexit] at hs'
      rcases List.mem_pair.mp hs' with hs' | hs'
      · exact hs' ▸ h.owns_bodyExit frame hmem n hexit
      · exact hs' ▸ hown

/-- A join comes from the ends of both branches, and its frame is gone. -/
theorem close (h : b.Consistent) (hframes : b.frames = frame :: rest) :
    (b.close frame rest).Consistent := by
  have hfst := map_fst_branchExits frame (b.tail.getD frame.condition)
  have hsource : ∀ n, n ∈ (branchExits frame (b.tail.getD frame.condition)).map Prod.fst →
      ∃ s ∈ branchExits frame (b.tail.getD frame.condition), s.1 = n :=
    fun n hn => List.mem_map.mp hn
  refine h.grow _ (.marker .join) _ (graph_close b frame rest) rfl
    (h.owns_closeSources hframes) ?_ ?_ ?_
  · intro hnil
    rw [hnil] at hfst
    cases hexit : frame.bodyExit <;> rw [hexit] at hfst <;> cases hfst
  · intro frame' hframe'
    rw [graph_close]
    exact h.owns_frame_grow _ _ (hframes ▸ List.mem_cons_of_mem _ hframe')
  · rintro n (hn | ⟨frame', hframe', hexit⟩)
    · refine Or.inl (hsource n ?_)
      rw [hfst, hn]
      cases frame.bodyExit <;> simp
    · rw [hframes] at hframe'
      rcases List.mem_cons.mp hframe' with rfl | hframe'
      · refine Or.inl (hsource n ?_)
        rw [hfst, hexit]
        exact List.mem_cons_self
      · exact Or.inr ⟨frame', hframe', hexit⟩

theorem step (h : b.Consistent) (event : Event) : (b.step event).Consistent :=
  step_preserves (fun _ stmt _ _ hb => hb.append stmt) (fun _ stmt _ _ hb => hb.enter stmt)
    (fun _ _ _ hframes hexit hb => hb.beginElse hframes hexit)
    (fun _ _ _ hframes hb => hb.close hframes) h event

theorem run (h : b.Consistent) (events : List Event) : (b.run events).Consistent :=
  run_preserves (fun _ event hb => hb.step event) h events

section

variable {P : Builder → Prop}
  (hgrow : ∀ (b b' : Builder) (stmt : Statement) (sources : List (Node × Edge.Kind)),
    b'.Consistent → b'.graph = b.graph.grow stmt sources → b'.tail = some (b.graph.fresh stmt) →
    (∀ s ∈ sources, b.graph.owns s.1 = true) → P b → P b')

include hgrow

/-- An event only ever adds nodes, one at a time, each with edges from nodes of the graph. -/
theorem step_preserves (h : b.Consistent) (hb : P b) (event : Event) : P (b.step event) := by
  have hboth : (b.step event).Consistent ∧ P (b.step event) := by
    refine Builder.step_preserves (P := fun b => b.Consistent ∧ P b) ?_ ?_ ?_ ?_ ⟨h, hb⟩ event
    · rintro b stmt - - ⟨hc, hb⟩
      have hc' := hc.append stmt
      exact ⟨hc', hgrow b _ stmt _ hc' (graph_append b stmt) rfl hc.owns_appendSource hb⟩
    · rintro b stmt - - ⟨hc, hb⟩
      have hc' := hc.enter stmt
      exact ⟨hc', hgrow b _ stmt _ hc' (graph_enter b stmt) rfl hc.owns_appendSource hb⟩
    · rintro b frame rest hframes hopen ⟨hc, hb⟩
      have hc' := hc.beginElse hframes hopen
      exact ⟨hc', hgrow b _ _ _ hc' (graph_beginElse b frame rest) rfl
        (hc.owns_elseSource hframes) hb⟩
    · rintro b frame rest hframes ⟨hc, hb⟩
      have hc' := hc.close hframes
      exact ⟨hc', hgrow b _ _ _ hc' (graph_close b frame rest) rfl
        (hc.owns_closeSources hframes) hb⟩
  exact hboth.2

theorem run_preserves (h : b.Consistent) (hb : P b) (events : List Event) : P (b.run events) :=
  (Builder.run_preserves (P := fun b => b.Consistent ∧ P b)
    (fun _ event hb => ⟨hb.1.step event, hb.1.step_preserves hgrow hb.2 event⟩) ⟨h, hb⟩ events).2

end

end Consistent

/-! ## What a builder leaves as it is -/

/-- The second builder has come from the first: it has kept the nodes, and from where control
arrives at them. -/
structure Grows (b b' : Builder) : Prop where
  consistent : b'.Consistent
  nodes : b.graph.nodes <+: b'.graph.nodes
  arrivals : ∀ n ∈ b.graph.nodes,
    predecessors b'.graph.edges n = predecessors b.graph.edges n

namespace Grows

variable {b b' : Builder}

theorem refl (h : b.Consistent) : Grows b b := ⟨h, List.prefix_refl _, fun _ _ => rfl⟩

theorem grow (h : Grows b b') {b'' : Builder} {stmt : Statement}
    {sources : List (Node × Edge.Kind)} (hc : b''.Consistent)
    (hgraph : b''.graph = b'.graph.grow stmt sources)
    (hs : ∀ s ∈ sources, b'.graph.owns s.1 = true) : Grows b b'' where
  consistent := hc
  nodes := by
    rw [hgraph, Graph.nodes_grow]
    exact h.nodes.trans (List.prefix_append _ _)
  arrivals := by
    intro n hn
    rw [hgraph, Graph.predecessors_grow_of_mem h.consistent.forward.grown hs (h.nodes.subset hn)]
    exact h.arrivals n hn

theorem step (h : Grows b b') (event : Event) : Grows b (b'.step event) :=
  h.consistent.step_preserves (fun _ _ _ _ hc' hgraph _ hs hb => hb.grow hc' hgraph hs) h event

theorem run (h : Grows b b') (events : List Event) : Grows b (b'.run events) :=
  run_preserves (fun _ event hb => hb.step event) h events

end Grows

/-- The graph of a builder, whatever events it has taken, is laid out forward. -/
theorem forward_run (home : Nat) (name : Option String) (events : List Event) :
    (Builder.run { graph := { home, name } } events).graph.Forward :=
  ((consistent_new home name).run events).forward

end Builder

end NullSafety
