import NullSafety.Proofs.Calls
import NullSafety.Proofs.Equations

/-!
# Events interpreted directly

A source can be analysed without a graph: keep what is known at the current point and, for each
open `if`, what was known at its condition and at the end of its first branch, and merge when the
`if` ends. This interpreter goes through the events once and holds no nodes, no edges and no order
of visits.

Building the graph and analysing it comes to the same, for events in any order. The states of the
analysis solve the equations of the finished graph. From where control arrives at a node is settled
when the node is made, so they solve the equations of every graph on the way, and each event can be
compared with the one node it adds.
-/

namespace NullSafety

/-- An open `if`: what was known at its condition and, once its else branch has begun, at the end
of its first branch. -/
structure Interpreter.Frame where
  condition : State
  bodyExit : Option State := none
  deriving DecidableEq

/-- The state at the current point, and the open frames, innermost first. -/
structure Interpreter where
  current : State := State.empty
  frames : List Interpreter.Frame := []
  deriving DecidableEq

namespace Interpreter

/-- What is known when an `if` ends: the first branch is merged with the second, or with the
condition if there is no second. -/
def Frame.close (frame : Frame) (current : State) : State :=
  match frame.bodyExit with
  | none => current.merge frame.condition
  | some exit => exit.merge current

def step (i : Interpreter) (event : Event) : Interpreter :=
  match event with
  | .enter .. => { i with frames := ⟨i.current, none⟩ :: i.frames }
  | .orElse =>
    match i.frames with
    | ⟨condition, none⟩ :: rest => ⟨condition, ⟨condition, some i.current⟩ :: rest⟩
    | _ => i
  | .exit =>
    match i.frames with
    | frame :: rest => ⟨frame.close i.current, rest⟩
    | [] => i
  | .finish => ⟨i.frames.foldl (fun current frame => frame.close current) i.current, []⟩
  | event =>
    match event.plain? with
    | some stmt => { i with current := stmt.transfer i.current }
    | none => i

def run (i : Interpreter) (events : List Event) : Interpreter := events.foldl step i

end Interpreter

/-! ## Merging a state with itself -/

theorem State.find_of_mem {v : Variable} {vars : List Variable}
    (hnodup : (vars.map Variable.name).Nodup) (hv : v ∈ vars) : find v.name vars = some v := by
  induction vars with
  | nil => exact absurd hv List.not_mem_nil
  | cons w ws ih =>
      obtain ⟨hw, hnodup⟩ := List.nodup_cons.mp hnodup
      rcases List.mem_cons.mp hv with rfl | hv
      · simp [find]
      · have hne : w.name ≠ v.name := fun he => hw (he ▸ List.mem_map_of_mem hv)
        have hfind := ih hnodup hv
        unfold find at hfind ⊢
        rw [List.find?_cons_of_neg (by simpa using hne), hfind]

theorem Variable.join_self (v : Variable) : v.join v = v := by
  unfold Variable.join
  rw [Bool.or_self, Nullability.join_self]

/-- Merging a state with itself changes nothing, not even the order of its entries. -/
theorem State.merge_self (s : State) : s.merge s = s := by
  apply State.ext
  show mergeList s.entries s.entries = s.entries
  have hfind : ∀ v ∈ s.entries, find v.name s.entries = some v :=
    fun v hv => find_of_mem s.nodup hv
  have hright : (s.entries.filter fun v => (find v.name s.entries).isNone) = [] := by
    rw [List.filter_eq_nil_iff]
    intro v hv
    rw [hfind v hv]
    exact Bool.false_ne_true
  unfold mergeList
  rw [hright, List.append_nil]
  refine (List.map_congr_left ?_).trans (List.map_id _)
  intro v hv
  rw [hfind v hv]
  exact v.join_self

/-! ## States that solve the equations of a graph -/

/-- The states after the nodes of a graph, where each is what its statement makes of what its
predecessors leave. -/
def Solves (out : Node → Option State) (g : Graph) : Prop :=
  ∀ n ∈ g.nodes, out n =
    some (n.stmt.transfer (State.mergeAll ((predecessors g.edges n).filterMap out)))

theorem solves_after? {g : Graph} (h : g.Forward) : Solves (Analysis.ofFlow g.flow).after? g :=
  fun n hn => Analysis.after?_eq h.acyclic (h.reached n hn)

section

variable {out : Node → Option State} {g : Graph} {stmt : Statement}
  {sources : List (Node × Edge.Kind)}

/-- The state after the node made last. -/
theorem Solves.out_fresh (h : g.Grown) (hs : ∀ s ∈ sources, g.owns s.1 = true)
    (hout : Solves out (g.grow stmt sources)) :
    out (g.fresh stmt) =
      some (stmt.transfer (State.mergeAll ((sources.map Prod.fst).eraseDups.filterMap out))) := by
  have hfresh := hout (g.fresh stmt) (by simp [Graph.nodes_grow])
  rwa [Graph.predecessors_grow_fresh h hs] at hfresh

end

/-- Two ends of branches that are one and the same node count once, which makes no difference. -/
theorem mergeAll_pair {out : Node → Option State} {m n : Node} {s t : State}
    (hm : out m = some s) (hn : out n = some t) :
    State.mergeAll ([m, n].eraseDups.filterMap out) = s.merge t := by
  rw [eraseDups_pair]
  split
  · rename_i hmn
    subst hmn
    have hst : s = t := Option.some.inj (hm.symm.trans hn)
    subst hst
    rw [State.merge_self]
    simp [hm, State.mergeAll]
  · simp [hm, hn, State.mergeAll]

namespace Builder

/-- The second builder has come from the first by events: what solves the equations of its graph
solved those of the first. -/
def Extends (b b' : Builder) : Prop :=
  b'.Consistent ∧ ∀ out, Solves out b'.graph → Solves out b.graph

theorem Grows.extends {b b' : Builder} (h : Grows b b') : Extends b b' := by
  refine ⟨h.consistent, ?_⟩
  intro out hout n hn
  rw [← h.arrivals n hn]
  exact hout n (h.nodes.subset hn)

/-- What solves the equations of a graph solves those of every graph on the way to it. -/
theorem Consistent.solves_of_run {b : Builder} {out : Node → Option State} (h : b.Consistent)
    (events : List Event) (hout : Solves out (b.run events).graph) : Solves out b.graph :=
  ((Grows.refl h).run events).extends.2 out hout

end Builder

/-! ## The builder and the interpreter side by side -/

namespace Interpreter

/-- The open frame of the interpreter holds the states after the nodes of the builder's frame. -/
def FrameAgrees (out : Node → Option State) (frame : NullSafety.Frame) (known : Frame) : Prop :=
  out frame.condition = some known.condition ∧ frame.bodyExit.map out = known.bodyExit.map some

/-- The interpreter holds the states after the nodes that the builder holds on to. -/
structure Agrees (out : Node → Option State) (b : Builder) (i : Interpreter) : Prop where
  current : ∀ n, b.tail = some n → out n = some i.current
  start : b.tail = none → i.current = State.empty
  frames : List.Forall₂ (FrameAgrees out) b.frames i.frames

namespace Agrees

variable {out : Node → Option State} {b : Builder} {i : Interpreter} {stmt : Statement}
  {frame : NullSafety.Frame} {rest : List NullSafety.Frame}

theorem frames_eq_nil (h : Agrees out b i) (hframes : b.frames = []) : i.frames = [] := by
  have hall := h.frames
  rwa [hframes, List.forall₂_nil_left_iff] at hall

/-- Where the builder has a frame, so has the interpreter. -/
theorem frames_eq_cons (h : Agrees out b i) (hframes : b.frames = frame :: rest) :
    ∃ known others, FrameAgrees out frame known ∧ List.Forall₂ (FrameAgrees out) rest others ∧
      i.frames = known :: others := by
  have hall := h.frames
  rw [hframes] at hall
  exact List.forall₂_cons_left_iff.mp hall

/-- What arrives at a node that is appended is the current state. -/
theorem mergeAll_appendSource (h : Agrees out b i) :
    State.mergeAll (((b.tail.toList.map fun tail => (tail, b.pending)).map
      Prod.fst).eraseDups.filterMap out) = i.current := by
  cases htail : b.tail with
  | none =>
      rw [h.start htail]
      rfl
  | some n =>
      have hone : [n].eraseDups = [n] := rfl
      show State.mergeAll ([n].eraseDups.filterMap out) = i.current
      rw [hone, List.filterMap_cons_some (h.current n htail)]
      rfl

theorem out_append (hc : b.Consistent) (h : Agrees out b i)
    (hout : Solves out (b.append stmt).graph) :
    out (b.graph.fresh stmt) = some (stmt.transfer i.current) := by
  rw [Builder.graph_append] at hout
  rw [hout.out_fresh hc.forward.grown hc.owns_appendSource, h.mergeAll_appendSource]

theorem append (hc : b.Consistent) (h : Agrees out b i)
    (hout : Solves out (b.append stmt).graph) :
    Agrees out (b.append stmt) { i with current := stmt.transfer i.current } where
  current := by
    intro n hn
    cases hn
    exact h.out_append hc hout
  start := by
    intro hn
    cases hn
  frames := h.frames

theorem enter (hc : b.Consistent) (h : Agrees out b i) (hstmt : stmt.transfer i.current = i.current)
    (hout : Solves out (b.enter stmt).graph) :
    Agrees out (b.enter stmt) { i with frames := ⟨i.current, none⟩ :: i.frames } := by
  have hfresh : out (b.graph.fresh stmt) = some i.current := hstmt ▸ h.out_append hc hout
  refine ⟨?_, ?_, .cons ⟨hfresh, rfl⟩ h.frames⟩
  · intro n hn
    cases hn
    exact hfresh
  · intro hn
    cases hn

theorem transfer_marker (role : Statement.Role) (s : State) :
    (Statement.marker role).transfer s = s := rfl

theorem beginElse {known : Frame} {others : List Frame} (hc : b.Consistent) (h : Agrees out b i)
    (hframes : b.frames = frame :: rest) (hcondition : out frame.condition = some known.condition)
    (hothers : List.Forall₂ (FrameAgrees out) rest others)
    (hout : Solves out (b.beginElse frame rest).graph) :
    Agrees out (b.beginElse frame rest)
      ⟨known.condition, ⟨known.condition, some i.current⟩ :: others⟩ := by
  obtain ⟨tail, htail, -⟩ := hc.tail_eq_some hframes
  have hfresh : out (b.graph.fresh (.marker .orElse)) = some known.condition := by
    have hone : [frame.condition].eraseDups = [frame.condition] := rfl
    rw [Builder.graph_beginElse] at hout
    rw [hout.out_fresh hc.forward.grown (hc.owns_elseSource hframes), transfer_marker]
    show some (State.mergeAll ([frame.condition].eraseDups.filterMap out)) = _
    rw [hone, List.filterMap_cons_some hcondition]
    rfl
  refine ⟨?_, ?_, .cons ⟨hcondition, ?_⟩ hothers⟩
  · intro n hn
    cases hn
    exact hfresh
  · intro hn
    cases hn
  · rw [htail]
    exact congrArg some (h.current tail htail)

/-- What arrives at a join is what the interpreter makes of the end of an `if`. -/
theorem close {known : Frame} {others : List Frame} (hc : b.Consistent) (h : Agrees out b i)
    (hframes : b.frames = frame :: rest) (hknown : FrameAgrees out frame known)
    (hothers : List.Forall₂ (FrameAgrees out) rest others)
    (hout : Solves out (b.close frame rest).graph) :
    Agrees out (b.close frame rest) ⟨known.close i.current, others⟩ := by
  obtain ⟨tail, htail, -⟩ := hc.tail_eq_some hframes
  obtain ⟨hcondition, hexit⟩ := hknown
  have hcurrent := h.current tail htail
  have hfresh : out (b.graph.fresh (.marker .join)) = some (known.close i.current) := by
    rw [Builder.graph_close] at hout
    rw [hout.out_fresh hc.forward.grown (hc.owns_closeSources hframes), transfer_marker,
      Builder.Consistent.map_fst_branchExits, htail]
    unfold Frame.close
    -- both sides have an else branch, or neither has
    cases hbody : frame.bodyExit with
    | none =>
        rw [hbody] at hexit
        cases hknownBody : known.bodyExit with
        | none => exact congrArg some (mergeAll_pair hcurrent hcondition)
        | some exit =>
            rw [hknownBody] at hexit
            cases hexit
    | some n =>
        rw [hbody] at hexit
        cases hknownBody : known.bodyExit with
        | none =>
            rw [hknownBody] at hexit
            cases hexit
        | some exit =>
            rw [hknownBody] at hexit
            exact congrArg some (mergeAll_pair (Option.some.inj hexit) hcurrent)
  refine ⟨?_, ?_, hothers⟩
  · intro n hn
    cases hn
    exact hfresh
  · intro hn
    cases hn

/-- Closing all frames, one by one on both sides. -/
theorem closeAll : ∀ (frames : List NullSafety.Frame) {b : Builder} {i : Interpreter},
    b.frames = frames → b.Consistent → Agrees out b i → Solves out (b.closeAll frames).graph →
    Agrees out (b.closeAll frames)
      ⟨i.frames.foldl (fun current frame => frame.close current) i.current, []⟩
  | [], b, i, hframes, _, h, _ => by
      rw [h.frames_eq_nil hframes]
      refine ⟨h.current, h.start, ?_⟩
      show List.Forall₂ _ b.frames []
      rw [hframes]
      exact .nil
  | frame :: rest, b, i, hframes, hc, h, hout => by
      obtain ⟨known, others, hknown, hothers, hall⟩ := h.frames_eq_cons hframes
      have hclosed := hc.close hframes
      have hsolves : Solves out (b.close frame rest).graph :=
        hclosed.solves_of_run [.finish] hout
      have hrest := closeAll rest rfl hclosed (h.close hc hframes hknown hothers hsolves) hout
      rw [hall, List.foldl_cons]
      exact hrest

/-- One event on both sides. -/
theorem step (hc : b.Consistent) (h : Agrees out b i) (event : Event)
    (hout : Solves out (b.step event).graph) : Agrees out (b.step event) (i.step event) := by
  cases event with
  | declaration | assignment | expression | jump => exact h.append hc hout
  | enter => exact h.enter hc rfl hout
  | orElse =>
      cases hframes : b.frames with
      | nil =>
          rw [Builder.step_orElse_of_nil hframes] at hout ⊢
          have hstep : i.step .orElse = i := by simp [Interpreter.step, h.frames_eq_nil hframes]
          rw [hstep]
          exact h.append hc hout
      | cons frame rest =>
          obtain ⟨⟨condition, bodyExit⟩, others, ⟨hcondition, hexit⟩, hothers, hall⟩ :=
            h.frames_eq_cons hframes
          -- both frames have an else branch already, or neither has
          cases hbody : frame.bodyExit with
          | none =>
              rw [hbody] at hexit
              cases bodyExit with
              | some exit => cases hexit
              | none =>
                  rw [Builder.step_orElse_of_open hframes hbody] at hout ⊢
                  have hstep : i.step .orElse =
                      ⟨condition, ⟨condition, some i.current⟩ :: others⟩ := by
                    simp [Interpreter.step, hall]
                  rw [hstep]
                  exact h.beginElse hc hframes hcondition hothers hout
          | some n =>
              rw [hbody] at hexit
              cases bodyExit with
              | none => cases hexit
              | some exit =>
                  rw [Builder.step_orElse_of_taken hframes hbody] at hout ⊢
                  have hstep : i.step .orElse = i := by simp [Interpreter.step, hall]
                  rw [hstep]
                  exact h.append hc hout
  | exit =>
      cases hframes : b.frames with
      | nil =>
          rw [Builder.step_exit_of_nil hframes] at hout ⊢
          have hstep : i.step .exit = i := by simp [Interpreter.step, h.frames_eq_nil hframes]
          rw [hstep]
          exact h.append hc hout
      | cons frame rest =>
          obtain ⟨known, others, hknown, hothers, hall⟩ := h.frames_eq_cons hframes
          rw [Builder.step_exit_of_cons hframes] at hout ⊢
          have hstep : i.step .exit = ⟨known.close i.current, others⟩ := by
            simp [Interpreter.step, hall]
          rw [hstep]
          exact h.close hc hframes hknown hothers hout
  | finish => exact h.closeAll b.frames rfl hc hout

theorem run (hc : b.Consistent) (h : Agrees out b i) (events : List Event)
    (hout : Solves out (b.run events).graph) : Agrees out (b.run events) (i.run events) := by
  induction events generalizing b i with
  | nil => exact h
  | cons event events ih =>
      have hsolves := (hc.step event).solves_of_run events hout
      exact ih (hc.step event) (h.step hc event hsolves) hout

end Agrees

end Interpreter

/-! ## The analysis of what a builder finishes -/

namespace Builder

/-- The node that a builder returns for an event, which is the one it adds. The end of the source
returns none. -/
def returned? (b : Builder) : Event → Option Node
  | .finish => none
  | event => (b.step event).tail

theorem returned?_eq_tail (b : Builder) {event : Event} (h : event ≠ .finish) :
    b.returned? event = (b.step event).tail := by
  cases event with
  | finish => exact absurd rfl h
  | _ => rfl

theorem tail_step (b : Builder) {event : Event} (h : event ≠ .finish) :
    ∃ n, (b.step event).tail = some n := by
  obtain ⟨stmt, hstmt⟩ := exists_statement? h
  obtain ⟨-, -, htail⟩ := b.step_makes hstmt
  exact ⟨_, htail⟩

theorem tail_eq_none {b : Builder} (h : b.Consistent) (hnil : b.graph.flow.reversePostorder = []) :
    b.tail = none := by
  cases htail : b.tail with
  | none => rfl
  | some n =>
      have hmem := h.forward.grown.owns_iff_mem.mp (h.owns_tail n htail)
      have hlisted := Flow.mem_reversePostorder.mpr (h.forward.reached n hmem)
      rw [hnil] at hlisted
      cases hlisted

/-- When the source has ended, the tail is the last node in reverse postorder: the last node leads
nowhere, and nothing else is held on to. -/
theorem tail_eq_last {b : Builder} (h : b.Consistent) (hframes : b.frames = [])
    {left : List Node} {n : Node} (hlast : b.graph.flow.reversePostorder = left ++ [n]) :
    b.tail = some n := by
  have hord := Flow.ordered_reversePostorder h.forward.acyclic
  have hreach : b.graph.flow.Reaches n := Flow.mem_reversePostorder.mp (by simp [hlast])
  rw [hlast] at hord
  rcases h.held n (h.forward.grown.mem_of_reaches hreach) (fun m => hord.not_leads_last) with
    htail | ⟨frame, hframe, -⟩
  · exact htail
  · rw [hframes] at hframe
    cases hframe

end Builder

/-- Where no frame is open, the final state is the current one. -/
theorem Interpreter.Agrees.final_eq {b : Builder} {i : Interpreter} (hc : b.Consistent)
    (hframes : b.frames = []) (h : Agrees (Analysis.ofFlow b.graph.flow).after? b i) :
    (Analysis.ofFlow b.graph.flow).final = i.current := by
  rcases List.eq_nil_or_concat' b.graph.flow.reversePostorder with hnil | ⟨left, n, hlast⟩
  · rw [h.start (Builder.tail_eq_none hc hnil)]
    show Analysis.final ⟨Analysis.pass _ _⟩ = State.empty
    rw [hnil]
    rfl
  · have hcurrent := h.current n (Builder.tail_eq_last hc hframes hlast)
    exact Option.some.inj ((Analysis.after?_last hlast).symm.trans hcurrent)

/-- **Building and analysing is interpreting.** Whatever events a source consists of, in whatever
order, followed by its end: in the analysis of the finished graph the state after the node that an
event returned is the interpreter's state after that event, and the final state is the
interpreter's last. Entries stand in the same order. -/
theorem analysis_eq_interpreter (home : Nat) (name : Option String) (events : List Event) :
    let start : Builder := { graph := { home, name } }
    let analysis := Analysis.ofFlow (start.run (events ++ [.finish])).graph.flow
    (∀ before event after, events ++ [.finish] = before ++ event :: after → event ≠ .finish →
      ∃ n, (start.run before).returned? event = some n ∧
        analysis.after? n = some (Interpreter.run {} (before ++ [event])).current) ∧
    analysis.final = (Interpreter.run {} (events ++ [.finish])).current := by
  intro start analysis
  have hstart : start.Consistent := Builder.consistent_new home name
  have hwhole := hstart.run (events ++ [.finish])
  have hout : Solves analysis.after? (start.run (events ++ [.finish])).graph :=
    solves_after? hwhole.forward
  have hagrees : Interpreter.Agrees analysis.after? start {} := by
    refine ⟨?_, fun _ => rfl, .nil⟩
    intro n hn
    cases hn
  constructor
  · intro before event after hsplit hevent
    obtain ⟨n, htail⟩ := (start.run before).tail_step hevent
    refine ⟨n, ((start.run before).returned?_eq_tail hevent).trans htail, ?_⟩
    rw [← Builder.run_concat] at htail
    have hsolves : Solves analysis.after? (start.run (before ++ [event])).graph := by
      refine (hstart.run (before ++ [event])).solves_of_run after ?_
      rw [← Builder.run_append, List.append_assoc, List.singleton_append, ← hsplit]
      exact hout
    exact (hagrees.run hstart (before ++ [event]) hsolves).current n htail
  · have hframes : (start.run (events ++ [.finish])).frames = [] := by
      rw [Builder.run_concat]
      exact Builder.frames_finish _
    exact (hagrees.run hstart (events ++ [.finish]) hout).final_eq hwhole hframes

/-- `int *p = &x; if(p) { p = NULL; } else {} else {` with its end in the middle of it, and a stray
end of an `if` behind. -/
def unbalanced : List Event :=
  [.declaration "int *p = &x;" (some "p") true false true [] {}, .enter "p" [] {},
   .assignment "p = NULL;" (some "p") true [] {}, .orElse, .orElse, .finish, .exit]

/-- The second else, where `p` is as at the condition, and the end, where it may be null. -/
theorem analysis_eq_interpreter_unbalanced :
    let analysis := Analysis.ofFlow (Builder.run {} (unbalanced ++ [.finish])).graph.flow
    (∃ n, (Builder.run {} (unbalanced.take 4)).returned? .orElse = some n ∧
      analysis.after? n = some (Interpreter.run {} (unbalanced.take 5)).current) ∧
    (Interpreter.run {} (unbalanced.take 5)).current.entries = [⟨"p", true, .assigned⟩] ∧
    analysis.final.entries = [⟨"p", true, .potentiallyNull⟩] := by
  obtain ⟨hstates, hfinal⟩ := analysis_eq_interpreter 0 none unbalanced
  refine ⟨hstates _ _ (unbalanced.drop 5 ++ [.finish]) rfl (by decide), by decide, ?_⟩
  exact (congrArg State.entries hfinal).trans (by decide)

end NullSafety
