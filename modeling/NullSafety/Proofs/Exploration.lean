import NullSafety.Proofs.Verdicts
import NullSafety.Workspace

/-!
# Three ways through a graph

Breadth first, depth first and by a pile of nodes: three loops that note differently what they have
met, on graphs that may run in cycles. Each loop is stated here once more as what it does in one
turn, with no count of steps. Left to itself it comes to an end, and there it has found the same
nodes as the others. So whoever walks in one order and looks up what was noted in another finds an
entry at every node.
-/

namespace NullSafety

open Relation

/-- Taking turns from `s` until there is none left comes to an end, at `u`. -/
inductive Ends {σ : Type} (turn : σ → Option σ) : σ → σ → Prop
  | stop {s : σ} (h : turn s = none) : Ends turn s s
  | turn {s t u : σ} (h : turn s = some t) (hu : Ends turn t u) : Ends turn s u

theorem Ends.preserves {σ : Type} {turn : σ → Option σ} {P : σ → Prop} {s u : σ}
    (h : Ends turn s u) (hturn : ∀ s t, turn s = some t → P s → P t) (hs : P s) : P u := by
  induction h with
  | stop _ => exact hs
  | turn ht _ ih => exact ih (hturn _ _ ht hs)

namespace Traversal

/-! ## Breadth first -/

/-- Where a breadth-first loop stands. -/
structure Breadth where
  /-- The nodes taken from the queue, in order. -/
  taken : List Node
  queue : List Node
  seen : List Node

/-- The first node of the queue is taken, and its successors not yet seen go to the end. -/
def Breadth.turn (edges : List Edge) : Breadth → Option Breadth
  | ⟨_, [], _⟩ => none
  | ⟨taken, n :: queue, seen⟩ =>
    let found := unseen seen (successors edges n)
    some ⟨taken ++ [n], queue ++ found, seen ++ found⟩

theorem ends_breadthLoop {edges : List Edge} (steps : Nat) (taken queue seen : List Node)
    (hsteps : queue.length + unseenEnds Edge.dst edges seen ≤ steps) :
    ∃ seen', Ends (Breadth.turn edges) ⟨taken, queue, seen⟩
      ⟨taken ++ breadthLoop edges steps queue seen, [], seen'⟩ := by
  fun_induction breadthLoop edges steps queue seen generalizing taken with
  | case1 queue seen =>
      have hq : queue = [] := List.eq_nil_of_length_eq_zero (by omega)
      subst hq
      rw [List.append_nil]
      exact ⟨seen, .stop rfl⟩
  | case2 seen =>
      rw [List.append_nil]
      exact ⟨seen, .stop rfl⟩
  | case3 steps n queue seen found ih =>
      have hless := Nat.le_trans (effort_take edges n queue seen) hsteps
      obtain ⟨seen', hends⟩ := ih (taken ++ [n]) (Nat.le_of_succ_le_succ hless)
      rw [List.append_assoc] at hends
      exact ⟨seen', .turn rfl hends⟩

/-! ## Depth first -/

/-- Where a depth-first loop stands. -/
structure Depth where
  /-- The nodes being visited, innermost first, each with the successors still to be tried. -/
  stack : List (Node × List Node)
  seen : List Node
  /-- The nodes finished, the last one first. -/
  order : List Node

/-- The innermost node tries its next successor, or is finished if it has none left. -/
def Depth.turn (edges : List Edge) : Depth → Option Depth
  | ⟨[], _, _⟩ => none
  | ⟨(n, []) :: stack, seen, order⟩ => some ⟨stack, seen, n :: order⟩
  | ⟨(n, m :: rest) :: stack, seen, order⟩ =>
    if m ∈ seen then some ⟨(n, rest) :: stack, seen, order⟩
    else some ⟨(m, successors edges m) :: (n, rest) :: stack, m :: seen, order⟩

theorem Visiting.ends {edges : List Edge} {start : Node} (steps : Nat)
    (stack : List (Node × List Node)) (seen order : List Node)
    (h : Visiting edges start stack seen order) (hsteps : effort edges stack seen ≤ steps) :
    ∃ seen', Ends (Depth.turn edges) ⟨stack, seen, order⟩
      ⟨[], seen', postorderLoop edges steps stack seen order⟩ := by
  fun_induction postorderLoop edges steps stack seen order with
  | case1 stack seen order =>
      cases stack with
      | nil => exact ⟨seen, .stop rfl⟩
      | cons p stack =>
          exfalso
          simp only [effort, stackEffort] at hsteps
          omega
  | case2 seen order => exact ⟨seen, .stop rfl⟩
  | case3 steps n stack seen order ih =>
      rw [effort_finish] at hsteps
      obtain ⟨seen', hends⟩ := ih h.finish (by omega)
      exact ⟨seen', .turn rfl hends⟩
  | case4 steps n m rest stack seen order hm ih =>
      rw [effort_skip] at hsteps
      obtain ⟨seen', hends⟩ := ih (h.skip hm) (by omega)
      exact ⟨seen', .turn (if_pos hm) hends⟩
  | case5 steps n m rest stack seen order hm ih =>
      have hlead : Leads edges n m := h.todo _ List.mem_cons_self m List.mem_cons_self
      have hless := effort_push rest stack hlead hm
      obtain ⟨seen', hends⟩ := ih (h.push hm) (by omega)
      exact ⟨seen', .turn (if_neg hm) hends⟩

theorem ends_reversePostorder (edges : List Edge) (start : Node) :
    ∃ seen, Ends (Depth.turn edges) ⟨[(start, successors edges start)], [start], []⟩
      ⟨[], seen, reversePostorder edges start⟩ :=
  (Visiting.init edges start).ends _ _ _ _ (effort_init edges start)

/-- The start is at the bottom of the stack until it is finished, which is the end. -/
def Depth.Rooted (start : Node) (d : Depth) : Prop :=
  (∃ above, d.stack.map Prod.fst = above ++ [start]) ∨
    (d.stack = [] ∧ d.order.head? = some start)

theorem Depth.Rooted.turn {edges : List Edge} {start : Node} {d d' : Depth}
    (hturn : Depth.turn edges d = some d') (h : d.Rooted start) : d'.Rooted start := by
  obtain ⟨stack, seen, order⟩ := d
  rcases h with ⟨above, habove⟩ | ⟨hnil, -⟩
  · rcases stack with _ | ⟨⟨n, rest⟩, stack⟩
    · cases hturn
    · rcases rest with _ | ⟨m, rest⟩
      · cases hturn
        rcases above with _ | ⟨k, above⟩
        · obtain ⟨rfl, hempty⟩ := List.cons.inj habove
          exact Or.inr ⟨List.map_eq_nil_iff.mp hempty, rfl⟩
        · exact Or.inl ⟨above, (List.cons.inj habove).2⟩
      · by_cases hm : m ∈ seen
        · rw [Depth.turn, if_pos hm] at hturn
          cases hturn
          exact Or.inl ⟨above, habove⟩
        · rw [Depth.turn, if_neg hm] at hturn
          cases hturn
          exact Or.inl ⟨m :: above, congrArg (m :: ·) habove⟩
  · subst hnil
    cases hturn

theorem head?_reversePostorder (edges : List Edge) (start : Node) :
    (reversePostorder edges start).head? = some start := by
  obtain ⟨seen, hends⟩ := ends_reversePostorder edges start
  rcases hends.preserves (fun _ _ => Depth.Rooted.turn) (Or.inl ⟨[], rfl⟩) with
    ⟨above, habove⟩ | ⟨-, hhead⟩
  · exact absurd habove.symm (List.append_ne_nil_of_right_ne_nil above (List.cons_ne_nil start []))
  · exact hhead

/-! ## By a pile -/

/-- Where a loop over a pile of nodes stands. -/
structure Pile where
  pile : List Node
  seen : List Node

/-- A node is taken from the top; one seen before is passed over, and a new one has all its
successors put on the pile. -/
def Pile.turn (edges : List Edge) : Pile → Option Pile
  | ⟨[], _⟩ => none
  | ⟨n :: pile, seen⟩ =>
    if n ∈ seen then some ⟨pile, seen⟩
    else some ⟨(successors edges n).reverse ++ pile, n :: seen⟩

/-- What a node puts on the pile is paid for by the edges that leave it. -/
theorem ends_reachLoop {edges : List Edge} (steps : Nat) (pile seen : List Node)
    (hsteps : pile.length + unseenEnds Edge.src edges seen ≤ steps) :
    Ends (Pile.turn edges) ⟨pile, seen⟩ ⟨[], reachLoop edges steps pile seen⟩ := by
  fun_induction reachLoop edges steps pile seen with
  | case1 pile seen =>
      have hp : pile = [] := List.eq_nil_of_length_eq_zero (by omega)
      subst hp
      exact .stop rfl
  | case2 steps seen => exact .stop rfl
  | case3 steps n pile seen hn ih =>
      rw [List.length_cons] at hsteps
      exact .turn (if_pos hn) (ih (by omega))
  | case4 steps n pile seen hn ih =>
      have hsrc := unseenEnds_cons Edge.src edges hn
      rw [← length_successors] at hsrc
      rw [List.length_cons] at hsteps
      refine .turn (if_neg hn) (ih ?_)
      rw [List.length_append, List.length_reverse]
      omega

theorem ends_reachable (edges : List Edge) (start : Node) :
    Ends (Pile.turn edges) ⟨[start], []⟩ ⟨[], reachable edges start⟩ := by
  have hle := unseenEnds_le Edge.src edges []
  exact ends_reachLoop _ _ _ (by rw [List.length_singleton]; omega)

/-- What a node seen leads to is on the pile or has been seen, and nothing gets there that cannot be
reached. -/
structure Pile.Gathers (edges : List Edge) (start : Node) (p : Pile) : Prop where
  nodup : p.seen.Nodup
  start_met : start ∈ p.pile ∨ start ∈ p.seen
  closed : ∀ n ∈ p.seen, ∀ m, Leads edges n m → m ∈ p.pile ∨ m ∈ p.seen
  reached : ∀ n, n ∈ p.pile ∨ n ∈ p.seen → ReflTransGen (Leads edges) start n

theorem Pile.Gathers.init (edges : List Edge) (start : Node) :
    Pile.Gathers edges start ⟨[start], []⟩ where
  nodup := List.nodup_nil
  start_met := Or.inl (List.mem_singleton_self start)
  closed := by
    intro n hn
    cases hn
  reached := by
    rintro n (hn | hn)
    · rw [List.mem_singleton.mp hn]
    · cases hn

theorem Pile.Gathers.turn {edges : List Edge} {start : Node} {p p' : Pile}
    (hturn : Pile.turn edges p = some p') (h : p.Gathers edges start) : p'.Gathers edges start := by
  obtain ⟨pile, seen⟩ := p
  rcases pile with _ | ⟨n, pile⟩
  · cases hturn
  · by_cases hn : n ∈ seen
    · rw [Pile.turn, if_pos hn] at hturn
      cases hturn
      -- passing over a node that has been seen loses nothing
      have hmet : ∀ k, k ∈ n :: pile ∨ k ∈ seen → k ∈ pile ∨ k ∈ seen := by
        rintro k (hk | hk)
        · rcases List.mem_cons.mp hk with rfl | hk
          · exact Or.inr hn
          · exact Or.inl hk
        · exact Or.inr hk
      exact ⟨h.nodup, hmet start h.start_met, fun k hk m hm => hmet m (h.closed k hk m hm),
        fun k hk => h.reached k (hk.imp_left (List.mem_cons_of_mem n))⟩
    · rw [Pile.turn, if_neg hn] at hturn
      cases hturn
      have hmet : ∀ k, k ∈ n :: pile ∨ k ∈ seen →
          k ∈ (successors edges n).reverse ++ pile ∨ k ∈ n :: seen := by
        rintro k (hk | hk)
        · rcases List.mem_cons.mp hk with rfl | hk
          · exact Or.inr List.mem_cons_self
          · exact Or.inl (List.mem_append_right _ hk)
        · exact Or.inr (List.mem_cons_of_mem n hk)
      have hreach := h.reached n (Or.inl List.mem_cons_self)
      refine ⟨List.nodup_cons.mpr ⟨hn, h.nodup⟩, hmet start h.start_met, ?_, ?_⟩
      · intro k hk m hm
        rcases List.mem_cons.mp hk with rfl | hk
        · exact Or.inl (List.mem_append_left _ (List.mem_reverse.mpr hm))
        · exact hmet m (h.closed k hk m hm)
      · rintro k (hk | hk)
        · rcases List.mem_append.mp hk with hk | hk
          · exact hreach.tail (List.mem_reverse.mp hk)
          · exact h.reached k (Or.inl (List.mem_cons_of_mem n hk))
        · rcases List.mem_cons.mp hk with rfl | hk
          · exact hreach
          · exact h.reached k (Or.inr hk)

theorem gathers_reachable (edges : List Edge) (start : Node) :
    Pile.Gathers edges start ⟨[], reachable edges start⟩ :=
  (ends_reachable edges start).preserves (fun _ _ => Pile.Gathers.turn) (.init edges start)

theorem mem_reachable {edges : List Edge} {start n : Node} :
    n ∈ reachable edges start ↔ ReflTransGen (Leads edges) start n := by
  have h := gathers_reachable edges start
  have hseen : ∀ k, k ∈ ([] : List Node) ∨ k ∈ reachable edges start → k ∈ reachable edges start :=
    fun k hk => hk.resolve_left List.not_mem_nil
  constructor
  · intro hn
    exact h.reached n (Or.inr hn)
  · intro hn
    induction hn with
    | refl => exact hseen _ h.start_met
    | tail _ hlead ih => exact hseen _ (h.closed _ ih _ hlead)

end Traversal

/-! ## Looking up what was noted -/

namespace Check

/-- A check of what control can get to returns, or meets a line that cannot be read. -/
theorem outcome_ofFlow (o : Options) (f : Flow) (known : List Issue) :
    (∃ r, outcome o (Analysis.ofFlow f) f.breadthFirst known = .ok r) ∨
      ∃ n, f.Reaches n ∧ n.stmt.ref.lineNumber? = none ∧
        outcome o (Analysis.ofFlow f) f.breadthFirst known = .error (.unreadableLine n) := by
  unfold outcome
  dsimp only
  cases hfail : (observe o (Analysis.ofFlow f) f.breadthFirst).findSome? failure? with
  | none => exact Or.inl ⟨_, rfl⟩
  | some e =>
      obtain ⟨observation, hobs, he⟩ := List.exists_of_findSome?_eq_some hfail
      obtain ⟨n, hn, hline, rfl⟩ := unreadableLine_of_observe hobs he
      exact Or.inr ⟨n, hn, hline, rfl⟩

end Check

theorem Snapshot.exists_ofNodes {a : Analysis} {nodes : List Node}
    (h : ∀ n ∈ nodes, (a.after? n).isSome) : ∃ rows, Snapshot.ofNodes a nodes = .ok rows := by
  induction nodes with
  | nil => exact ⟨[], rfl⟩
  | cons n nodes ih =>
      obtain ⟨rows, hrows⟩ := ih fun m hm => h m (List.mem_cons_of_mem _ hm)
      obtain ⟨state, hstate⟩ := Option.isSome_iff_exists.mp (h n List.mem_cons_self)
      have hrow : ∃ row, Snapshot.ofNode a n = .ok row := by
        unfold Snapshot.ofNode
        rw [hstate]
        cases n.stmt.name <;> exact ⟨_, rfl⟩
      obtain ⟨row, hrow⟩ := hrow
      unfold Snapshot.ofNodes at hrows ⊢
      rw [List.mapM_cons, hrow, hrows]
      exact ⟨row :: rows, rfl⟩

namespace Workspace

theorem study_addAnalysis (w : Workspace) (g : Nat) :
    (w.addAnalysis g).study w.studies.size = ⟨g, none⟩ := by
  simp [study, addAnalysis]

/-- A new analysis that is asked for anything has run on its graph as it is. -/
theorem analysis_ensureRun (w : Workspace) (g : Nat) :
    ((w.addAnalysis g).ensureRun w.studies.size).1.analysis w.studies.size =
      .ok (Analysis.ofFlow (w.flow g)) := by
  have hflow : (w.addAnalysis g).flow g = w.flow g := rfl
  have hrun : (w.addAnalysis g).ensureRun w.studies.size =
      (w.addAnalysis g).run w.studies.size := by
    unfold ensureRun
    rw [study_addAnalysis]
    rfl
  rw [hrun, run, study_addAnalysis, hflow]
  simp [analysis, study, addAnalysis, Array.getElem_modify]

theorem flow_ensureRun (w : Workspace) (a g : Nat) : (w.ensureRun a).1.flow g = w.flow g := by
  unfold ensureRun
  split <;> rfl

end Workspace

/-- What all ways through a graph have in common. -/
structure Flow.Explored (f : Flow) : Prop where
  nodup_breadthFirst : f.breadthFirst.Nodup
  nodup_reversePostorder : f.reversePostorder.Nodup
  mem_breadthFirst : ∀ n, n ∈ f.breadthFirst ↔ f.Reaches n
  mem_reversePostorder : ∀ n, n ∈ f.reversePostorder ↔ f.Reaches n
  mem_reachable_start : ∀ s, f.start? = some s →
    ∀ n, n ∈ Traversal.reachable f.edges s ↔ f.Reaches n
  mem_reachable : ∀ n m,
    m ∈ Traversal.reachable f.edges n ↔ ReflTransGen (Leads f.edges) n m
  head_reversePostorder : f.reversePostorder.head? = f.start?
  ends_breadthFirst : ∀ s, f.start? = some s → ∃ seen,
    Ends (Traversal.Breadth.turn f.edges) ⟨[], [s], [s]⟩ ⟨f.breadthFirst, [], seen⟩
  ends_reversePostorder : ∀ s, f.start? = some s → ∃ seen,
    Ends (Traversal.Depth.turn f.edges) ⟨[(s, successors f.edges s)], [s], []⟩
      ⟨[], seen, f.reversePostorder⟩
  ends_reachable : ∀ n,
    Ends (Traversal.Pile.turn f.edges) ⟨[n], []⟩ ⟨[], Traversal.reachable f.edges n⟩

theorem Flow.explored (f : Flow) : f.Explored where
  nodup_breadthFirst := f.nodup_breadthFirst
  nodup_reversePostorder := f.nodup_reversePostorder
  mem_breadthFirst _ := Flow.mem_breadthFirst
  mem_reversePostorder _ := Flow.mem_reversePostorder
  mem_reachable_start := by
    intro s hs n
    rw [Traversal.mem_reachable, Flow.reaches_iff, hs]
    constructor
    · intro hn
      exact ⟨s, rfl, hn⟩
    · rintro ⟨s', hs', hn⟩
      rwa [Option.some.inj hs']
  mem_reachable _ _ := Traversal.mem_reachable
  head_reversePostorder := by
    unfold Flow.reversePostorder
    split
    · rename_i hs
      rw [hs]
      rfl
    · rename_i s hs
      rw [hs]
      exact Traversal.head?_reversePostorder f.edges s
  ends_breadthFirst := by
    intro s hs
    have hle := Traversal.unseenEnds_le Edge.dst f.edges [s]
    unfold Flow.breadthFirst
    rw [hs]
    exact Traversal.ends_breadthLoop (f.edges.length + 1) [] [s] [s]
      (by rw [List.length_singleton]; omega)
  ends_reversePostorder := by
    intro s hs
    unfold Flow.reversePostorder
    rw [hs]
    exact Traversal.ends_reversePostorder f.edges s
  ends_reachable := Traversal.ends_reachable f.edges

/-- **All traversals agree.** On every graph, with cycles or without, and also where its edges lead
into other graphs: the three loops come to an end; breadth first and reverse postorder list the
nodes that control can get to, each once, and these are the nodes reachable from the start; what is
reachable from any node is what its successors lead to; and reverse postorder begins at the start.
So a check fails at nothing but a line that cannot be read, and showing the states of a graph by a
new analysis does not fail. -/
theorem traversals_agree :
    (∀ f : Flow, f.Explored) ∧
    (∀ (g : Graph) (o : Options) (known : List Issue),
      (∃ r, g.check o known = .ok r) ∨ ∃ n, g.flow.Reaches n ∧
        n.stmt.ref.lineNumber? = none ∧ g.check o known = .error (.unreadableLine n)) ∧
    ∀ (w : Workspace) (g : Nat),
      let fresh := w.addAnalysis g
      (∀ o, (∃ r, (fresh.check w.studies.size g o).2.2 = .ok r) ∨ ∃ n, (w.flow g).Reaches n ∧
        n.stmt.ref.lineNumber? = none ∧
        (fresh.check w.studies.size g o).2.2 = .error (.unreadableLine n)) ∧
      ∃ rows, (fresh.snapshots w.studies.size g).2.2 = .ok rows := by
  refine ⟨Flow.explored, fun g o known => Check.outcome_ofFlow o g.flow known, ?_⟩
  intro w g fresh
  have hrun := w.analysis_ensureRun g
  have hflow : (fresh.ensureRun w.studies.size).1.flow g = w.flow g :=
    fresh.flow_ensureRun w.studies.size g
  constructor
  · intro o
    unfold Workspace.check
    dsimp only
    rw [hrun, hflow]
    exact Check.outcome_ofFlow o (w.flow g) _
  · unfold Workspace.snapshots
    dsimp only
    rw [hrun, hflow]
    exact Snapshot.exists_ofNodes fun n hn =>
      Analysis.after?_isSome.mpr (Flow.mem_breadthFirst.mp hn)

-- two cycles, one of them a single node, and a node that control cannot get to
example :
    let node : Nat → Node := fun id => ⟨0, id, .expression "f();" [] {}⟩
    let edges := [(0, 1), (0, 2), (2, 1), (1, 1), (2, 0), (3, 0)].map fun e : Nat × Nat =>
      ({ src := node e.1, dst := node e.2 } : Edge)
    let f : Flow := { start? := some (node 0), edges }
    f.breadthFirst.map Node.id = [0, 1, 2] ∧ f.reversePostorder.map Node.id = [0, 2, 1] ∧
      (Traversal.reachable edges (node 1)).map Node.id = [1] := by
  decide

end NullSafety
