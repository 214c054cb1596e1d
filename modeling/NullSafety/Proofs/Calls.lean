import NullSafety.Proofs.BuilderGraph

/-!
# Events and the nodes they make

Every event makes one node, which becomes the tail. Only the end of the source makes as many as
there are `if`s open, and so does nothing that the ends of these `if`s would not do. Once it is
spelled out in this way, the events number the nodes.
-/

namespace NullSafety

namespace Event

/-- How many `if`s are open after an event, if `depth` were open before. -/
def depthAfter (depth : Nat) : Event → Nat
  | .enter .. => depth + 1
  | .exit => depth - 1
  | .finish => 0
  | _ => depth

/-- The statement of the node that an event makes. The end of the source has none of its own. -/
def statement? : Event → Option Statement
  | .enter condition dereferences ref => some (.condition condition dereferences ref)
  | .orElse => some (.marker .orElse)
  | .exit => some (.marker .join)
  | event => event.plain?

end Event

/-- How many `if`s are open after the events. -/
def openIfs (events : List Event) : Nat := events.foldl Event.depthAfter 0

/-- The events with every end of the source replaced by the ends of the `if`s that are open there,
if `depth` are open at the beginning. -/
def spellOut (depth : Nat) : List Event → List Event
  | [] => []
  | .finish :: events => List.replicate depth .exit ++ spellOut 0 events
  | event :: events => event :: spellOut (event.depthAfter depth) events

theorem finish_notMem_spellOut (depth : Nat) (events : List Event) :
    .finish ∉ spellOut depth events := by
  fun_induction spellOut depth events with
  | case1 => exact List.not_mem_nil
  | case2 depth events ih =>
      rw [List.mem_append, not_or]
      refine ⟨?_, ih⟩
      intro h
      cases List.eq_of_mem_replicate h
  | case3 depth event events hevent ih =>
      rw [List.mem_cons, not_or]
      exact ⟨fun h => hevent h.symm, ih⟩

theorem openIfs_concat (events : List Event) (event : Event) :
    openIfs (events ++ [event]) = event.depthAfter (openIfs events) := by
  unfold openIfs
  rw [List.foldl_append]
  rfl

namespace Builder

theorem depth_step (b : Builder) (event : Event) :
    (b.step event).depth = event.depthAfter b.depth := by
  unfold depth
  cases event with
  | declaration | assignment | expression | jump | enter => rfl
  | orElse =>
      cases hframes : b.frames with
      | nil =>
          rw [step_orElse_of_nil hframes, ← hframes]
          rfl
      | cons frame rest =>
          cases hexit : frame.bodyExit with
          | none =>
              rw [step_orElse_of_open hframes hexit]
              rfl
          | some n =>
              rw [step_orElse_of_taken hframes hexit, ← hframes]
              rfl
  | exit =>
      cases hframes : b.frames with
      | nil => rw [step_exit_of_nil hframes, append, hframes]; rfl
      | cons frame rest => rw [step_exit_of_cons hframes]; rfl
  | finish =>
      rw [frames_finish]
      rfl

/-- Closing all frames is taking as many ends of an `if`. -/
theorem closeAll_eq_run : ∀ (frames : List Frame) (b : Builder), b.frames = frames →
    b.closeAll frames = b.run (List.replicate frames.length .exit)
  | [], _, _ => rfl
  | frame :: rest, b, hframes => by
      have hrest := closeAll_eq_run rest (b.close frame rest) rfl
      show (b.close frame rest).closeAll rest =
        (b.step .exit).run (List.replicate rest.length .exit)
      rw [step_exit_of_cons hframes, hrest]

/-- Spelling out the ends of the source makes no difference to a builder. -/
theorem run_spellOut (b : Builder) (events : List Event) :
    b.run (spellOut b.depth events) = b.run events := by
  generalize hdepth : b.depth = depth
  fun_induction spellOut depth events generalizing b with
  | case1 => rfl
  | case2 depth events ih =>
      have hfinish : b.step .finish = b.run (List.replicate depth .exit) := by
        rw [← hdepth]
        exact closeAll_eq_run b.frames b rfl
      have hnone : (b.step .finish).depth = 0 := depth_step b .finish
      rw [run_append, ← hfinish, ih _ hnone]
      rfl
  | case3 depth event events hevent ih =>
      have hnext : (b.step event).depth = event.depthAfter depth := hdepth ▸ depth_step b event
      exact ih _ hnext

/-- An event that makes a node adds it to the graph, and it becomes the tail. -/
theorem step_makes (b : Builder) {event : Event} {stmt : Statement}
    (h : event.statement? = some stmt) :
    ∃ sources, (b.step event).graph = b.graph.grow stmt sources ∧
      (b.step event).tail = some (b.graph.fresh stmt) := by
  cases event with
  | declaration | assignment | expression | jump =>
      cases h
      exact ⟨_, graph_append b _, rfl⟩
  | enter =>
      cases h
      exact ⟨_, graph_enter b _, rfl⟩
  | orElse =>
      cases h
      cases hframes : b.frames with
      | nil =>
          rw [step_orElse_of_nil hframes]
          exact ⟨_, graph_append b _, rfl⟩
      | cons frame rest =>
          cases hexit : frame.bodyExit with
          | none =>
              rw [step_orElse_of_open hframes hexit]
              exact ⟨_, graph_beginElse b frame rest, rfl⟩
          | some n =>
              rw [step_orElse_of_taken hframes hexit]
              exact ⟨_, graph_append b _, rfl⟩
  | exit =>
      cases h
      cases hframes : b.frames with
      | nil =>
          rw [step_exit_of_nil hframes]
          exact ⟨_, graph_append b _, rfl⟩
      | cons frame rest =>
          rw [step_exit_of_cons hframes]
          exact ⟨_, graph_close b frame rest, rfl⟩
  | finish => cases h

theorem exists_statement? {event : Event} (h : event ≠ .finish) :
    ∃ stmt, event.statement? = some stmt := by
  cases event with
  | finish => exact absurd rfl h
  | _ => exact ⟨_, rfl⟩

/-- The nodes are the statements of the events, one after the other. -/
theorem nodes_run (b : Builder) {events : List Event} (h : .finish ∉ events) :
    (b.run events).graph.nodes.map (fun n => some n.stmt) =
      b.graph.nodes.map (fun n => some n.stmt) ++ events.map Event.statement? := by
  induction events using List.reverseRecOn with
  | nil => exact (List.append_nil _).symm
  | append_singleton events event ih =>
      rw [List.mem_append, not_or, List.mem_singleton] at h
      obtain ⟨stmt, hstmt⟩ := exists_statement? (Ne.symm h.2)
      obtain ⟨sources, hgraph, -⟩ := (b.run events).step_makes hstmt
      rw [run_concat, hgraph, Graph.nodes_grow, List.map_append, ih h.1, List.map_append,
        List.append_assoc, List.map_singleton, List.map_singleton, hstmt]
      rfl

/-- The nodes of a new builder, numbered by the events. -/
theorem size_run (home : Nat) (name : Option String) {events : List Event} (h : .finish ∉ events) :
    (Builder.run { graph := { home, name } } events).graph.size = events.length := by
  have hlength := congrArg List.length (nodes_run { graph := { home, name } } h)
  rw [List.length_append, List.length_map, List.length_map, List.length_map] at hlength
  exact hlength.trans (Nat.zero_add _)

/-- The tail is the node made last. -/
theorem tail_run (home : Nat) (name : Option String) (events : List Event) :
    (Builder.run { graph := { home, name } } events).tail =
      (Builder.run { graph := { home, name } } events).graph.nodes.getLast? := by
  refine (consistent_new home name).run_preserves
    (P := fun b => b.tail = b.graph.nodes.getLast?) ?_ rfl events
  intro b b' stmt sources _ hgraph htail _ _
  rw [htail, hgraph, Graph.nodes_grow, List.getLast?_concat]

/-- Once there has been an event, the tail is the node of the last one. -/
theorem exists_tail_run (home : Nat) (name : Option String) {events : List Event}
    (h : .finish ∉ events) (hne : events ≠ []) :
    ∃ tail, (Builder.run { graph := { home, name } } events).tail = some tail ∧
      tail.id + 1 = events.length := by
  have hsize := size_run home name h
  have hgrown := (forward_run home name events).grown
  have htail := tail_run home name events
  generalize Builder.run { graph := { home, name } } events = b at *
  have hpos := List.length_pos_of_ne_nil hne
  have hlt : b.graph.size - 1 < b.graph.nodes.length := by
    show b.graph.size - 1 < b.graph.size
    omega
  have hlast := List.getElem?_eq_getElem hlt
  have hid := hgrown.id_eq hlast
  rw [List.getLast?_eq_getElem?] at htail
  exact ⟨_, htail.trans hlast, by omega⟩

end Builder

end NullSafety
