import Mathlib.Data.List.Nodup
import Mathlib.Data.List.TFAE
import Mathlib.Logic.Function.Basic
import Mathlib.Tactic.TFAE
import NullSafety.Proofs.Grown

/-!
# Adjacency kept in books

A graph reads its successors, its predecessors and the edge between two nodes off one list of
edges. Here the same is kept in books, each written when a node or an edge is added and never read
off another: the list of edges, an index by the two ids, and for every node the nodes behind it and
the nodes before it. Whatever is added, in whatever order and however often, the books say what the
graph reads off its edges; and where edges run between nodes of the graph, all of them say the same
thing once.
-/

namespace NullSafety

namespace Graph

/-- What a graph can be asked to add. -/
inductive Call where
  | node (stmt : Statement)
  | edge (src dst : Node) (kind : Edge.Kind)

/-- The edge that is asked for. -/
def Call.edge? : Call → Option Edge
  | .node _ => none
  | .edge src dst kind => some ⟨src, dst, kind⟩

def call (g : Graph) : Call → Graph
  | .node stmt => g.addNode stmt
  | .edge src dst kind => g.addEdge src dst kind

def callAll (g : Graph) (calls : List Call) : Graph := calls.foldl call g

/-- Every edge that is asked for runs between nodes which the graph owns at that time. -/
def OwnsEnds (g : Graph) : List Call → Prop
  | [] => True
  | .node stmt :: calls => (g.addNode stmt).OwnsEnds calls
  | .edge src dst kind :: calls =>
      (g.owns src = true ∧ g.owns dst = true) ∧ (g.addEdge src dst kind).OwnsEnds calls

instance decidableOwnsEnds : (g : Graph) → (calls : List Call) → Decidable (g.OwnsEnds calls)
  | _, [] => .isTrue trivial
  | g, .node stmt :: calls => decidableOwnsEnds (g.addNode stmt) calls
  | g, .edge src dst kind :: calls =>
      have := decidableOwnsEnds (g.addEdge src dst kind) calls
      inferInstanceAs (Decidable (_ ∧ _))

theorem home_addEdge (g : Graph) (src dst : Node) (kind : Edge.Kind) :
    (g.addEdge src dst kind).home = g.home := by
  unfold addEdge
  split <;> rfl

theorem Grown.callAll {g : Graph} (h : g.Grown) {calls : List Call} (howns : g.OwnsEnds calls) :
    (g.callAll calls).Grown := by
  induction calls generalizing g with
  | nil => exact h
  | cons c calls ih =>
      cases c with
      | node stmt => exact ih (h.addNode stmt) howns
      | edge src dst kind =>
          obtain ⟨⟨hsrc, hdst⟩, hrest⟩ := howns
          exact ih (h.addEdge hsrc hdst kind) hrest

theorem nodes_subset_callAll (g : Graph) (calls : List Call) :
    g.nodes ⊆ (g.callAll calls).nodes := by
  induction calls generalizing g with
  | nil => exact List.Subset.refl _
  | cons c calls ih =>
      refine List.Subset.trans ?_ (ih (g.call c))
      cases c with
      | node stmt => exact List.subset_append_left _ _
      | edge src dst kind =>
          rw [call, nodes_addEdge]
          exact List.Subset.refl _

/-- The ends of an edge that was asked for are nodes of the graph. -/
theorem mem_of_asked {g : Graph} {calls : List Call} (howns : g.OwnsEnds calls) {e : Edge}
    (he : e ∈ calls.filterMap Call.edge?) :
    e.src ∈ (g.callAll calls).nodes ∧ e.dst ∈ (g.callAll calls).nodes := by
  induction calls generalizing g with
  | nil => cases he
  | cons c calls ih =>
      cases c with
      | node stmt => exact ih howns he
      | edge src dst kind =>
          obtain ⟨⟨hsrc, hdst⟩, hrest⟩ := howns
          rcases List.mem_cons.mp he with rfl | he
          · have hkept := nodes_subset_callAll g (.edge src dst kind :: calls)
            exact ⟨hkept (mem_of_owns hsrc), hkept (mem_of_owns hdst)⟩
          · exact ih hrest he

/-! ## The edge between two nodes -/

/-- An edge that is there already stays; else the new one is found between its own ends. -/
theorem edge?_addEdge (g : Graph) (src dst : Node) (kind : Edge.Kind) (u v : Node) :
    (g.addEdge src dst kind).edge? u v =
      (g.edge? u v).or ([⟨src, dst, kind⟩].find? fun e : Edge => e.joins u v) := by
  unfold edge?
  rw [edges_addEdge]
  split
  · rename_i hthere
    cases hold : g.edges.find? fun e => e.joins u v with
    | some e => rfl
    | none =>
        -- the ids tell that the edge found for `src` and `dst` would be found for `u` and `v`
        obtain ⟨e, he, hsrc, hdst⟩ := edge?_isSome_iff.mp hthere
        have hapart : e.joins u v = false := by simpa using List.find?_eq_none.mp hold e he
        simp only [Edge.joins, hsrc, hdst] at hapart
        simp [Edge.joins, hapart]
  · rw [List.find?_append]

/-- Between two nodes there is the edge that was there, or else the first one asked for. -/
theorem edge?_callAll (g : Graph) (calls : List Call) (u v : Node) :
    (g.callAll calls).edge? u v =
      (g.edge? u v).or ((calls.filterMap Call.edge?).find? fun e => e.joins u v) := by
  induction calls generalizing g with
  | nil => exact (Option.or_none).symm
  | cons c calls ih =>
      cases c with
      | node stmt => exact ih (g.addNode stmt)
      | edge src dst kind =>
          have hasked : (Call.edge src dst kind :: calls).filterMap Call.edge? =
              [⟨src, dst, kind⟩] ++ calls.filterMap Call.edge? := rfl
          rw [hasked, List.find?_append, ← Option.or_assoc, ← edge?_addEdge]
          exact ih (g.addEdge src dst kind)

/-- Where no two edges have both ends in common, those at one node have no other end in common. -/
theorem nodup_otherEnds (side other : Edge → Node) {edges : List Edge}
    (h : (edges.map fun e => (side e, other e)).Nodup) (n : Node) :
    ((edges.filter fun e => side e = n).map other).Nodup := by
  refine List.Nodup.of_map (fun m => (n, m)) ?_
  have hends : ((edges.filter fun e => side e = n).map other).map (fun m => (n, m)) =
      (edges.filter fun e => side e = n).map fun e => (side e, other e) := by
    rw [List.map_map]
    refine List.map_congr_left fun e he => ?_
    have hside : side e = n := by simpa using (List.mem_filter.mp he).2
    rw [hside, Function.comp_apply]
  rw [hends]
  exact (List.filter_sublist.map _).nodup h

namespace Grown

variable {g : Graph}

/-- No two edges have the same two ids. -/
theorem nodup_ids (h : g.Grown) : (g.edges.map fun e => (e.src.id, e.dst.id)).Nodup := by
  induction h with
  | new home name => exact List.nodup_nil
  | addNode _ stmt ih => exact ih
  | @addEdge g _ src dst _ _ kind ih =>
      rw [edges_addEdge]
      split
      · exact ih
      · rename_i hnew
        rw [List.map_append, List.nodup_append]
        refine ⟨ih, List.nodup_singleton _, ?_⟩
        rintro ids hids _ hlast rfl
        rw [List.map_singleton, List.mem_singleton] at hlast
        obtain ⟨e, he, rfl⟩ := List.mem_map.mp hids
        obtain ⟨hsrc, hdst⟩ := Prod.mk.inj hlast
        exact hnew (edge?_isSome_iff.mpr ⟨e, he, hsrc, hdst⟩)

theorem mem_src (h : g.Grown) {e : Edge} (he : e ∈ g.edges) : e.src ∈ g.nodes :=
  mem_of_owns (h.owns_ends e he).1

theorem mem_dst (h : g.Grown) {e : Edge} (he : e ∈ g.edges) : e.dst ∈ g.nodes :=
  mem_of_owns (h.owns_ends e he).2

/-- Between nodes of the graph the ids of an edge tell its ends. -/
theorem joins_iff (h : g.Grown) {e : Edge} (hsrc : e.src ∈ g.nodes) (hdst : e.dst ∈ g.nodes)
    {u v : Node} (hu : u ∈ g.nodes) (hv : v ∈ g.nodes) :
    e.joins u v = true ↔ e.src = u ∧ e.dst = v := by
  simp only [Edge.joins, Bool.and_eq_true, decide_eq_true_eq]
  constructor
  · rintro ⟨hid, hid'⟩
    exact ⟨h.eq_of_id_eq hsrc hu hid, h.eq_of_id_eq hdst hv hid'⟩
  · rintro ⟨rfl, rfl⟩
    exact ⟨rfl, rfl⟩

/-- An edge of the graph is the one that its own ids find. -/
theorem edge?_of_mem (h : g.Grown) {e : Edge} (he : e ∈ g.edges) :
    g.edge? e.src e.dst = some e := by
  have hthere : (g.edge? e.src e.dst).isSome = true := edge?_isSome_iff.mpr ⟨e, he, rfl, rfl⟩
  obtain ⟨found, hfound⟩ := Option.isSome_iff_exists.mp hthere
  unfold edge? at hfound ⊢
  have hjoins := List.find?_some hfound
  simp only [Edge.joins, Bool.and_eq_true, decide_eq_true_eq] at hjoins
  have hsame : found = e := List.inj_on_of_nodup_map h.nodup_ids (List.mem_of_find?_eq_some hfound)
    he (by rw [hjoins.1, hjoins.2])
  rw [hfound, hsame]

theorem nodup_ends (h : g.Grown) : (g.edges.map fun e => (e.src, e.dst)).Nodup := by
  refine List.Nodup.of_map (fun p : Node × Node => (p.1.id, p.2.id)) ?_
  rw [List.map_map]
  exact h.nodup_ids

theorem nodup_successors (h : g.Grown) (u : Node) : (successors g.edges u).Nodup :=
  nodup_otherEnds Edge.src Edge.dst h.nodup_ends u

theorem nodup_predecessors (h : g.Grown) (v : Node) : (predecessors g.edges v).Nodup := by
  refine nodup_otherEnds Edge.dst Edge.src ?_ v
  refine List.Nodup.of_map Prod.swap ?_
  rw [List.map_map]
  exact h.nodup_ends

/-- The edges, the edge found by ids, the successors and the predecessors say the same. -/
theorem adjacent_tfae (h : g.Grown) {u v : Node} (hu : u ∈ g.nodes) (hv : v ∈ g.nodes) :
    [v ∈ successors g.edges u, u ∈ predecessors g.edges v, g.edge? u v ≠ none,
      ∃ e ∈ g.edges, e.src = u ∧ e.dst = v].TFAE := by
  tfae_have 1 ↔ 4 := mem_successors
  tfae_have 2 ↔ 4 := by
    rw [mem_predecessors]
    simp only [and_comm]
  tfae_have 3 ↔ 4 := by
    rw [← Option.isSome_iff_ne_none, edge?, List.find?_isSome]
    constructor
    · rintro ⟨e, he, hjoins⟩
      exact ⟨e, he, (h.joins_iff (h.mem_src he) (h.mem_dst he) hu hv).mp hjoins⟩
    · rintro ⟨e, he, hends⟩
      exact ⟨e, he, (h.joins_iff (h.mem_src he) (h.mem_dst he) hu hv).mpr hends⟩
  tfae_finish

end Grown

end Graph

/-! ## Books -/

/-- What a graph might write down, each by itself. -/
structure Books where
  nodes : List Node := []
  start? : Option Node := none
  edges : List Edge := []
  /-- The edge between two nodes, by their ids. -/
  index : Nat × Nat → Option Edge := fun _ => none
  behind : Node → List Node := fun _ => []
  before : Node → List Node := fun _ => []

namespace Books

/-- A node is written at the end, and as the start if there is none. -/
def addNode (home : Nat) (b : Books) (stmt : Statement) : Books :=
  let n : Node := ⟨home, b.nodes.length, stmt⟩
  { b with nodes := b.nodes ++ [n], start? := b.start?.or (some n) }

/-- An edge is written in all four books. -/
def write (b : Books) (e : Edge) : Books :=
  { b with
    edges := b.edges ++ [e]
    index := Function.update b.index (e.src.id, e.dst.id) (some e)
    behind := Function.update b.behind e.src (b.behind e.src ++ [e.dst])
    before := Function.update b.before e.dst (b.before e.dst ++ [e.src]) }

/-- Nothing is written if the index has an edge under these ids. -/
def addEdge (b : Books) (src dst : Node) (kind : Edge.Kind) : Books :=
  match b.index (src.id, dst.id) with
  | some _ => b
  | none => b.write ⟨src, dst, kind⟩

def call (home : Nat) (b : Books) : Graph.Call → Books
  | .node stmt => b.addNode home stmt
  | .edge src dst kind => b.addEdge src dst kind

def callAll (home : Nat) (b : Books) (calls : List Graph.Call) : Books :=
  calls.foldl (call home) b

/-- The books say what the graph reads off its nodes and edges. -/
structure Match (b : Books) (g : Graph) : Prop where
  nodes : b.nodes = g.nodes
  start? : b.start? = g.start?
  edges : b.edges = g.edges
  index : ∀ u v : Node, b.index (u.id, v.id) = g.edge? u v
  behind : ∀ n, b.behind n = successors g.edges n
  before : ∀ n, b.before n = predecessors g.edges n

namespace Match

variable {b : Books} {g : Graph}

theorem new (home : Nat) (name : Option String) : Match {} { home, name } where
  nodes := rfl
  start? := rfl
  edges := rfl
  index _ _ := rfl
  behind _ := rfl
  before _ := rfl

theorem addNode (h : b.Match g) (stmt : Statement) :
    (b.addNode g.home stmt).Match (g.addNode stmt) where
  nodes := by simp [Books.addNode, h.nodes, Graph.nodes_addNode, Graph.fresh, Graph.size]
  start? := by
    simp [Books.addNode, h.nodes, h.start?, Graph.start?, Graph.nodes_addNode, Graph.fresh,
      Graph.size, List.head?_append]
  edges := h.edges
  index := h.index
  behind := h.behind
  before := h.before

theorem write (h : b.Match g) {e : Edge} (hnew : g.edge? e.src e.dst = none) :
    (b.write e).Match { g with edges := g.edges ++ [e] } where
  nodes := h.nodes
  start? := h.start?
  edges := by rw [Books.write, h.edges]
  index := by
    intro u v
    have hfind : Graph.edge? { g with edges := g.edges ++ [e] } u v =
        (g.edge? u v).or ([e].find? fun e => e.joins u v) := List.find?_append
    rw [hfind, ← h.index u v]
    by_cases hids : (u.id, v.id) = (e.src.id, e.dst.id)
    · obtain ⟨hu, hv⟩ := Prod.mk.inj hids
      simp [Books.write, Edge.joins, hu, hv, h.index, hnew]
    · have hapart : e.joins u v = false := by
        rw [Bool.eq_false_iff]
        intro hjoins
        simp only [Edge.joins, Bool.and_eq_true, decide_eq_true_eq] at hjoins
        exact hids (by rw [hjoins.1, hjoins.2])
      simp [Books.write, Function.update_of_ne hids, hapart]
  behind := by
    intro n
    rw [successors_append, ← h.behind]
    by_cases hn : n = e.src
    · simp [Books.write, successors, hn]
    · simp [Books.write, successors, hn, Ne.symm hn]
  before := by
    intro n
    rw [predecessors_append, ← h.before]
    by_cases hn : n = e.dst
    · simp [Books.write, predecessors, hn]
    · simp [Books.write, predecessors, hn, Ne.symm hn]

theorem addEdge (h : b.Match g) (src dst : Node) (kind : Edge.Kind) :
    (b.addEdge src dst kind).Match (g.addEdge src dst kind) := by
  unfold Books.addEdge Graph.addEdge
  rw [h.index src dst]
  cases hedge : g.edge? src dst with
  | some e => exact h
  | none => exact h.write hedge

theorem callAll (h : b.Match g) (calls : List Graph.Call) :
    (b.callAll g.home calls).Match (g.callAll calls) := by
  induction calls generalizing b g with
  | nil => exact h
  | cons c calls ih =>
      cases c with
      | node stmt => exact ih (h.addNode stmt)
      | edge src dst kind =>
          have hrest := ih (h.addEdge src dst kind)
          rw [Graph.home_addEdge] at hrest
          exact hrest

end Match

/-- All books say the same thing once. The edges asked for are given in order. -/
structure InStep (b : Books) (asked : List Edge) : Prop where
  id_eq : ∀ (i : Nat) (n : Node), b.nodes[i]? = some n → n.id = i
  start_eq : b.start? = b.nodes[0]?
  adjacent : ∀ u ∈ b.nodes, ∀ v ∈ b.nodes,
    [v ∈ b.behind u, u ∈ b.before v, b.index (u.id, v.id) ≠ none,
      ∃ e ∈ b.edges, e.src = u ∧ e.dst = v].TFAE
  nodup_behind : ∀ u, (b.behind u).Nodup
  nodup_before : ∀ v, (b.before v).Nodup
  nodup_edges : (b.edges.map fun e => (e.src, e.dst)).Nodup
  /-- The index has the edges of the list, with their kinds. -/
  index_of_mem : ∀ e ∈ b.edges, b.index (e.src.id, e.dst.id) = some e
  /-- The edge between two nodes is the first one asked for, with the kind given there. -/
  index_eq_first : ∀ u ∈ b.nodes, ∀ v ∈ b.nodes,
    b.index (u.id, v.id) = asked.find? fun e => e.src = u ∧ e.dst = v
  behind_eq : ∀ u, b.behind u = (b.edges.filter fun e => e.src = u).map Edge.dst
  before_eq : ∀ v, b.before v = (b.edges.filter fun e => e.dst = v).map Edge.src

end Books

/-- Books that match a graph with edges between its own nodes are in step. -/
theorem Books.Match.inStep {b : Books} {g : Graph} {asked : List Edge} (h : b.Match g)
    (hg : g.Grown) (hasked : ∀ e ∈ asked, e.src ∈ g.nodes ∧ e.dst ∈ g.nodes)
    (hfirst : ∀ u v, g.edge? u v = asked.find? fun e => e.joins u v) : b.InStep asked where
  id_eq := by
    rw [h.nodes]
    exact fun _ _ => hg.id_eq
  start_eq := by rw [h.start?, h.nodes, Graph.start?, List.head?_eq_getElem?]
  adjacent := by
    rw [h.nodes, h.edges]
    intro u hu v hv
    rw [h.behind, h.before, h.index]
    exact hg.adjacent_tfae hu hv
  nodup_behind u := h.behind u ▸ hg.nodup_successors u
  nodup_before v := h.before v ▸ hg.nodup_predecessors v
  nodup_edges := h.edges ▸ hg.nodup_ends
  index_of_mem := by
    rw [h.edges]
    intro e he
    rw [h.index]
    exact hg.edge?_of_mem he
  index_eq_first := by
    rw [h.nodes]
    intro u hu v hv
    rw [h.index, hfirst]
    -- among nodes of the graph, equal ids are equal ends
    rw [← List.head?_filter, ← List.head?_filter]
    refine congrArg List.head? (List.filter_congr fun e he => ?_)
    obtain ⟨hsrc, hdst⟩ := hasked e he
    exact Bool.eq_iff_iff.mpr ((hg.joins_iff hsrc hdst hu hv).trans decide_eq_true_iff.symm)
  behind_eq := by
    rw [h.edges]
    exact h.behind
  before_eq := by
    rw [h.edges]
    exact h.before

/-- **Every book of a graph says the same.** Whatever nodes and edges are added, in whatever order
and however often, as long as edges run between nodes of the graph: books written side by side
match what the graph reads off its list of edges. In them the node at each place has that place as
its id, and the first node is the start; successors, predecessors, the index and the list of edges
agree on every pair of nodes and hold each edge once; successors and predecessors come in the order
of the edges; an edge has the kind with which it was first asked for; and no later call changes an
edge. -/
theorem books_in_step (home : Nat) (name : Option String) (calls : List Graph.Call)
    (h : Graph.OwnsEnds { home, name } calls) :
    let g := Graph.callAll { home, name } calls
    let b := Books.callAll home {} calls
    b.Match g ∧ b.InStep (calls.filterMap Graph.Call.edge?) ∧
      ∀ earlier later, calls = earlier ++ later → ∀ (u v : Node) (e : Edge),
        (Books.callAll home {} earlier).index (u.id, v.id) = some e →
          b.index (u.id, v.id) = some e := by
  intro g b
  have hmatch : ∀ cs, (Books.callAll home {} cs).Match (Graph.callAll { home, name } cs) :=
    (Books.Match.new home name).callAll
  refine ⟨hmatch calls, ?_, ?_⟩
  · refine (hmatch calls).inStep ((Graph.Grown.new home name).callAll h) ?_ ?_
    · exact fun e he => Graph.mem_of_asked h he
    · intro u v
      rw [Graph.edge?_callAll]
      rfl
  · rintro earlier later rfl u v e he
    rw [(hmatch _).index] at he ⊢
    have hsplit : Graph.callAll { home, name } (earlier ++ later) =
        (Graph.callAll { home, name } earlier).callAll later := List.foldl_append
    rw [hsplit, Graph.edge?_callAll, he]
    rfl

/-- A branch that leads back to itself and to its condition, and the edge into it asked for again
with another kind. -/
def edgeAskedTwice : List Graph.Call :=
  let stmt : Statement := .expression "f();" [] {}
  let node : Nat → Node := fun id => ⟨0, id, stmt⟩
  [.node stmt, .node stmt, .edge (node 0) (node 1) .branchTrue,
    .edge (node 1) (node 1) .fallThrough, .node stmt, .edge (node 1) (node 0) .fallThrough,
    .edge (node 0) (node 1) .branchFalse, .edge (node 0) (node 2) .branchFalse]

theorem books_in_step_edgeAskedTwice :
    let b := Books.callAll 0 {} edgeAskedTwice
    Graph.OwnsEnds {} edgeAskedTwice ∧ b.InStep (edgeAskedTwice.filterMap Graph.Call.edge?) ∧
      (b.index (0, 1)).map Edge.kind = some .branchTrue ∧
      b.edges.map (fun e => (e.src.id, e.dst.id)) = [(0, 1), (1, 1), (1, 0), (0, 2)] :=
  have howns : Graph.OwnsEnds {} edgeAskedTwice := by decide
  ⟨howns, (books_in_step 0 none edgeAskedTwice howns).2.1, by decide, by decide⟩

end NullSafety
