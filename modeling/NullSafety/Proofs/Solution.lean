import NullSafety.Proofs.Equations

/-!
# The one solution of the equations

What is known before and after a node can be said without any order of visits, by equations between
the states of neighbouring nodes. Only nodes that control can get to take part: an edge from
elsewhere brings nothing along.

Where control runs in no cycle, the pass over the nodes solves these equations, and nothing else
does.
-/

namespace NullSafety

namespace Flow

variable {f : Flow} {n : Node}

instance (f : Flow) : DecidablePred f.Reaches := fun _ => decidable_of_iff _ mem_reversePostorder

/-- From where control can really arrive at a node, in the order of the edges. -/
def arrivals (f : Flow) (n : Node) : List Node :=
  (predecessors f.edges n).filter fun p => f.Reaches p

/-- The states before and after the nodes that control can get to fit together: nothing is known at
the start; elsewhere what the nodes leave from where control arrives is merged, the first of them
with each of the others in turn; and after a node stands what its statement makes of that. -/
structure Solution (f : Flow) (before after : Node → State) : Prop where
  start : ∀ n, f.start? = some n → before n = State.empty
  merged : ∀ n, f.Reaches n → f.start? ≠ some n → ∃ first others,
    f.arrivals n = first :: others ∧
      before n = others.foldl (fun state p => state.merge (after p)) (after first)
  stepped : ∀ n, f.Reaches n → after n = n.stmt.transfer (before n)

theorem mem_arrivals {p : Node} : p ∈ f.arrivals n ↔ f.Reaches p ∧ Leads f.edges p n := by
  unfold arrivals
  rw [List.mem_filter, decide_eq_true_iff, leads_iff_mem_predecessors, and_comm]

/-- Without cycles, control does not come back to the start. -/
theorem Acyclic.arrivals_start (h : f.Acyclic) (hn : f.start? = some n) : f.arrivals n = [] := by
  rw [List.eq_nil_iff_forall_not_mem]
  intro p hp
  obtain ⟨hreach, hlead⟩ := mem_arrivals.mp hp
  obtain ⟨s, hs, hpath⟩ := reaches_iff.mp hreach
  have hsn : s = n := Option.some.inj (hs.symm.trans hn)
  subst hsn
  exact h s (reaches_start hs) (Relation.TransGen.tail' hpath hlead)

/-- Everywhere else it arrives from somewhere. -/
theorem Reaches.exists_arrivals (hn : f.Reaches n) (hstart : f.start? ≠ some n) :
    ∃ first others, f.arrivals n = first :: others := by
  obtain ⟨before, hpath⟩ := hn
  rcases path_iff.mp hpath with ⟨-, hs⟩ | ⟨passed, p, -, hp, hlead⟩
  · exact absurd hs hstart
  · exact List.exists_cons_of_ne_nil (List.ne_nil_of_mem (mem_arrivals.mpr ⟨⟨passed, hp⟩, hlead⟩))

/-- The equations for the states before the nodes, as one. -/
theorem Acyclic.before_eq_iff (h : f.Acyclic) (hn : f.Reaches n) {before after : Node → State} :
    before n = State.mergeAll ((f.arrivals n).map after) ↔
      (f.start? = some n → before n = State.empty) ∧
      (f.start? ≠ some n → ∃ first others, f.arrivals n = first :: others ∧
        before n = others.foldl (fun state p => state.merge (after p)) (after first)) := by
  by_cases hs : f.start? = some n
  · rw [h.arrivals_start hs]
    exact ⟨fun hb => ⟨fun _ => hb, fun hne => absurd hs hne⟩, fun hb => hb.1 hs⟩
  · obtain ⟨first, others, harrivals⟩ := hn.exists_arrivals hs
    rw [harrivals, List.map_cons, State.mergeAll, List.foldl_map]
    constructor
    · intro hb
      exact ⟨fun hs' => absurd hs' hs, fun _ => ⟨first, others, rfl, hb⟩⟩
    · rintro ⟨-, hb⟩
      obtain ⟨_, _, heq, hb⟩ := hb hs
      cases heq
      exact hb

end Flow

namespace Analysis

variable {f : Flow} {n : Node} {after : Node → State}

/-- The nodes from where control cannot arrive have no state, and drop out. -/
theorem filterMap_after?_predecessors
    (hafter : ∀ p, f.Reaches p → Leads f.edges p n → (ofFlow f).after? p = some (after p)) :
    (predecessors f.edges n).filterMap (ofFlow f).after? = (f.arrivals n).map after := by
  suffices hall : ∀ preds : List Node, (∀ p ∈ preds, Leads f.edges p n) →
      preds.filterMap (ofFlow f).after? = (preds.filter fun p => f.Reaches p).map after from
    hall _ fun p hp => leads_iff_mem_predecessors.mpr hp
  intro preds hlead
  induction preds with
  | nil => rfl
  | cons p rest ih =>
      have hrest := ih fun q hq => hlead q (List.mem_cons_of_mem _ hq)
      by_cases hp : f.Reaches p
      · have hsome := hafter p hp (hlead p List.mem_cons_self)
        rw [List.filterMap_cons_some hsome, List.filter_cons_of_pos (by simpa using hp),
          List.map_cons, hrest]
      · have hnone : (ofFlow f).after? p = none := by
          rw [← Option.not_isSome_iff_eq_none, after?_isSome]
          exact hp
        rw [List.filterMap_cons_none hnone, List.filter_cons_of_neg (by simpa using hp), hrest]

/-- The state before a node, from the states after the nodes from where control arrives. -/
theorem before?_eq_mergeAll (h : f.Acyclic) (hn : f.Reaches n)
    (hafter : ∀ p, f.Reaches p → Leads f.edges p n → (ofFlow f).after? p = some (after p)) :
    (ofFlow f).before? n = some (State.mergeAll ((f.arrivals n).map after)) := by
  rw [before?_eq h hn, filterMap_after?_predecessors hafter]

/-- Going along control flow, a solution agrees with the pass at every node. -/
theorem eq_of_solution {before : Node → State} (h : f.Acyclic) (hsol : f.Solution before after) :
    ∀ n, f.Reaches n →
      (ofFlow f).before? n = some (before n) ∧ (ofFlow f).after? n = some (after n) := by
  refine h.induction ?_
  intro n hn ih
  have hmerge : before n = State.mergeAll ((f.arrivals n).map after) :=
    (h.before_eq_iff hn).mpr ⟨hsol.start n, hsol.merged n hn⟩
  have hbefore : (ofFlow f).before? n = some (before n) := by
    rw [before?_eq_mergeAll h hn fun p hp hlead => (ih p hp hlead).2, hmerge]
  refine ⟨hbefore, ?_⟩
  rw [after?_of_before? h hn hbefore, hsol.stepped n hn]

/-- The states that the pass found solve the equations. -/
theorem solution_of_eq {before : Node → State} (h : f.Acyclic)
    (heq : ∀ n, f.Reaches n →
      (ofFlow f).before? n = some (before n) ∧ (ofFlow f).after? n = some (after n)) :
    f.Solution before after := by
  have hmerge : ∀ n, f.Reaches n → before n = State.mergeAll ((f.arrivals n).map after) := by
    intro n hn
    have hbefore := before?_eq_mergeAll h hn fun p hp _ => (heq p hp).2
    exact Option.some.inj ((heq n hn).1.symm.trans hbefore)
  refine ⟨?_, ?_, ?_⟩
  · intro n hs
    have hn := Flow.reaches_start hs
    exact ((h.before_eq_iff hn).mp (hmerge n hn)).1 hs
  · intro n hn hs
    exact ((h.before_eq_iff hn).mp (hmerge n hn)).2 hs
  · intro n hn
    have hafter := after?_of_before? h hn (heq n hn).1
    exact Option.some.inj ((heq n hn).2.symm.trans hafter)

end Analysis

/-- **One pass finds the one solution.** In a graph where control runs in no cycle, the analysis
knows exactly the nodes that control can get to, and states before and after these nodes solve the
equations exactly if they are the states that the analysis found. -/
theorem analysis_is_only_solution (g : Graph) (h : g.flow.Acyclic) :
    let analysis := Analysis.ofFlow g.flow
    (∀ n, ((analysis.before? n).isSome ↔ g.flow.Reaches n) ∧
      ((analysis.after? n).isSome ↔ g.flow.Reaches n)) ∧
    (∃ before after, g.flow.Solution before after) ∧
    ∀ before after, g.flow.Solution before after ↔ ∀ n, g.flow.Reaches n →
      analysis.before? n = some (before n) ∧ analysis.after? n = some (after n) := by
  intro analysis
  refine ⟨fun n => ⟨Analysis.before?_isSome, Analysis.after?_isSome⟩, ?_, ?_⟩
  · refine ⟨fun n => (analysis.before? n).getD .empty, fun n => (analysis.after? n).getD .empty,
      Analysis.solution_of_eq h ?_⟩
    intro n hn
    obtain ⟨s, hs⟩ := Option.isSome_iff_exists.mp (Analysis.before?_isSome.mpr hn)
    obtain ⟨t, ht⟩ := Option.isSome_iff_exists.mp (Analysis.after?_isSome.mpr hn)
    show analysis.before? n = _ ∧ analysis.after? n = _
    rw [hs, ht]
    exact ⟨rfl, rfl⟩
  · intro before after
    exact ⟨Analysis.eq_of_solution h, Analysis.solution_of_eq h⟩

/-- `int *p = NULL; if(c) p = &x; use(*p);` without a node for the condition, and with
`int *q = NULL;` in front of it where control never comes. -/
def deadCode : Graph :=
  let start : Node := ⟨0, 0, .declaration "int *p = NULL;" (some "p") true true true [] {}⟩
  let store : Node := ⟨0, 1, .assignment "p = &x;" (some "p") false [] {}⟩
  let use : Node := ⟨0, 2, .expression "use(*p);" ["p"] {}⟩
  let dead : Node := ⟨0, 3, .declaration "int *q = NULL;" (some "q") true true true [] {}⟩
  let nodes := [start, store, use, dead].foldl (fun g n => g.addNode n.stmt) ({} : Graph)
  [(start, use), (start, store), (store, use), (dead, use), (dead, start)].foldl
    (fun g e => g.addEdge e.1 e.2 .fallThrough) nodes

theorem deadCode_acyclic : deadCode.flow.Acyclic := by
  intro n _ hcycle
  exact Nat.lt_irrefl _ (rank_lt_of_transGen (fun n => (n.id + 1) % 4) (by decide) hcycle)

/-- Whatever solves the equations knows `p` where the ways meet again, and nothing of `q`. -/
theorem analysis_is_only_solution_deadCode :
    ∃ use, deadCode.nodes[2]? = some use ∧ deadCode.flow.Reaches use ∧
      (deadCode.flow.arrivals use).map Node.id = [0, 1] ∧
      (∃ before after, deadCode.flow.Solution before after) ∧
      ∀ before after, deadCode.flow.Solution before after →
        (before use).entries = [⟨"p", true, .potentiallyNull⟩] := by
  obtain ⟨-, hexists, honly⟩ := analysis_is_only_solution deadCode deadCode_acyclic
  have hreach : deadCode.flow.Reaches ⟨0, 2, .expression "use(*p);" ["p"] {}⟩ := by decide
  refine ⟨_, rfl, hreach, by decide, hexists, ?_⟩
  intro before after hsol
  have hbefore := ((honly before after).mp hsol _ hreach).1
  have hentries := congrArg (Option.map State.entries) hbefore
  rw [Option.map_some] at hentries
  exact Option.some.inj (hentries.symm.trans (by decide))

end NullSafety
