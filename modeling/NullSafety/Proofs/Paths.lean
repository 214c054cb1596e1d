import Mathlib.Logic.Relation
import NullSafety.Graph.Traversal
import NullSafety.Transfer

/-!
# Paths of control

A path is given by the node it arrives at and by the nodes it has passed before, in order. Its
state is what the statements of those nodes make of the empty state, one after the other. Nothing
is ever merged along a path: this is the semantics that an analysis of the whole graph is measured
by.
-/

namespace NullSafety

/-- Control may pass from `u` to `v` along one edge. -/
def Leads (edges : List Edge) (u v : Node) : Prop := v ∈ successors edges u

theorem leads_iff_mem_predecessors {edges : List Edge} {u v : Node} :
    Leads edges u v ↔ u ∈ predecessors edges v := by
  unfold Leads
  rw [mem_successors, mem_predecessors]
  constructor
  · rintro ⟨e, he, hs, hd⟩
    exact ⟨e, he, hd, hs⟩
  · rintro ⟨e, he, hd, hs⟩
    exact ⟨e, he, hs, hd⟩

/-- What every edge raises, every way along edges raises. -/
theorem rank_lt_of_transGen {edges : List Edge} (rank : Node → Nat)
    (h : ∀ e ∈ edges, rank e.src < rank e.dst) {u v : Node}
    (huv : Relation.TransGen (Leads edges) u v) : rank u < rank v := by
  have hlead : ∀ {u v : Node}, Leads edges u v → rank u < rank v := by
    intro u v hl
    obtain ⟨e, he, rfl, rfl⟩ := mem_successors.mp hl
    exact h e he
  induction huv with
  | single hl => exact hlead hl
  | tail _ hl ih => exact Nat.lt_trans ih (hlead hl)

namespace Flow

/-- `f.Path before n`: control can get from the start to `n` along edges, passing exactly the
nodes `before`, in this order. -/
inductive Path (f : Flow) : List Node → Node → Prop
  | start {n : Node} (h : f.start? = some n) : Path f [] n
  | step {before : List Node} {m n : Node} (h : Path f before m)
      (hn : n ∈ successors f.edges m) : Path f (before ++ [m]) n

/-- Control can get to the node at all. -/
def Reaches (f : Flow) (n : Node) : Prop := ∃ before, f.Path before n

/-- No node that control can get to lies on a cycle. -/
def Acyclic (f : Flow) : Prop :=
  ∀ n, f.Reaches n → ¬ Relation.TransGen (Leads f.edges) n n

theorem reaches_start {f : Flow} {n : Node} (h : f.start? = some n) : f.Reaches n :=
  ⟨[], .start h⟩

theorem Reaches.next {f : Flow} {m n : Node} (h : f.Reaches m) (hn : Leads f.edges m n) :
    f.Reaches n := by
  obtain ⟨before, hp⟩ := h
  exact ⟨before ++ [m], .step hp hn⟩

/-- Reaching is the closure of leading, from the start on. -/
theorem reaches_iff {f : Flow} {n : Node} :
    f.Reaches n ↔ ∃ s, f.start? = some s ∧ Relation.ReflTransGen (Leads f.edges) s n := by
  constructor
  · rintro ⟨before, hp⟩
    induction hp with
    | start h => exact ⟨_, h, .refl⟩
    | step _ hn ih =>
        obtain ⟨s, hs, hr⟩ := ih
        exact ⟨s, hs, hr.tail hn⟩
  · rintro ⟨s, hs, hr⟩
    induction hr with
    | refl => exact reaches_start hs
    | tail _ hn ih => exact ih.next hn

/-- A path that has passed some node has passed one that leads to where it is. -/
theorem path_iff {f : Flow} {before : List Node} {n : Node} :
    f.Path before n ↔ (before = [] ∧ f.start? = some n) ∨
      ∃ passed m, before = passed ++ [m] ∧ f.Path passed m ∧ Leads f.edges m n := by
  constructor
  · rintro (h | ⟨hp, hn⟩)
    · exact Or.inl ⟨rfl, h⟩
    · exact Or.inr ⟨_, _, rfl, hp, hn⟩
  · rintro (⟨rfl, h⟩ | ⟨passed, m, rfl, hp, hn⟩)
    · exact .start h
    · exact .step hp hn

end Flow

/-- What is known after the statements of the nodes, one after the other, when nothing was known
before them. -/
def pathState (before : List Node) : State :=
  before.foldl (fun state n => n.stmt.transfer state) State.empty

theorem pathState_concat (before : List Node) (n : Node) :
    pathState (before ++ [n]) = n.stmt.transfer (pathState before) := by
  unfold pathState
  rw [List.foldl_append]
  rfl

end NullSafety
