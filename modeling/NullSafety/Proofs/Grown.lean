import Mathlib.Data.List.Induction
import NullSafety.Proofs.Paths

/-!
# Graphs as they grow

A graph comes about by adding nodes and edges between its own nodes. In such a graph a node stands
at the place that its id names, so the id tells it from all others, and control never leaves the
graph.

A builder adds one node at a time, with edges from nodes that are there already. Such graphs are
moreover laid out forward: every edge leads to a later node, and control can get everywhere.
-/

namespace NullSafety

section

variable {α : Type} [BEq α] [LawfulBEq α]

theorem eraseDups_concat [DecidableEq α] (l : List α) (a : α) :
    (l ++ [a]).eraseDups = if a ∈ l then l.eraseDups else l.eraseDups ++ [a] := by
  rw [List.eraseDups_append]
  by_cases ha : a ∈ l
  · have hnone : [a].removeAll l = [] := by simpa [List.removeAll] using ha
    rw [if_pos ha, hnone]
    exact List.append_nil _
  · have hone : [a].removeAll l = [a] := by simpa [List.removeAll] using ha
    rw [if_neg ha, hone]
    rfl

theorem eraseDups_pair [DecidableEq α] (a b : α) :
    [a, b].eraseDups = if b = a then [a] else [a, b] := by
  have hconcat := eraseDups_concat [a] b
  by_cases h : b = a
  · rw [if_pos h]
    exact hconcat.trans (if_pos (List.mem_singleton.mpr h))
  · rw [if_neg h]
    exact hconcat.trans (if_neg (mt List.mem_singleton.mp h))

theorem nodup_eraseDups (l : List α) : l.eraseDups.Nodup := by
  classical
  induction l using List.reverseRecOn with
  | nil => exact List.nodup_nil
  | append_singleton l a ih =>
      rw [eraseDups_concat]
      split
      · exact ih
      · rename_i ha
        refine List.nodup_append.mpr ⟨ih, List.pairwise_singleton _ a, ?_⟩
        intro b hb c hc hbc
        rw [List.mem_singleton] at hc
        exact ha (List.mem_eraseDups.mp (hc ▸ hbc ▸ hb))

end

namespace Graph

/-- The graphs that can be made by adding nodes and edges between nodes of the graph. -/
inductive Grown : Graph → Prop
  | new (home : Nat) (name : Option String) : Grown { home, name }
  | addNode {g : Graph} (h : Grown g) (stmt : Statement) : Grown (g.addNode stmt)
  | addEdge {g : Graph} (h : Grown g) {src dst : Node} (hsrc : g.owns src = true)
      (hdst : g.owns dst = true) (kind : Edge.Kind) : Grown (g.addEdge src dst kind)

theorem owns_iff {g : Graph} {n : Node} : g.owns n = true ↔ g.nodes[n.id]? = some n := by
  simp [owns]

theorem mem_of_owns {g : Graph} {n : Node} (h : g.owns n = true) : n ∈ g.nodes :=
  List.mem_of_getElem? (owns_iff.mp h)

theorem id_lt_size_of_owns {g : Graph} {n : Node} (h : g.owns n = true) : n.id < g.size := by
  obtain ⟨hlt, -⟩ := List.getElem?_eq_some_iff.mp (owns_iff.mp h)
  exact hlt

theorem owns_addNode {g : Graph} {n : Node} (h : g.owns n = true) (stmt : Statement) :
    (g.addNode stmt).owns n = true := by
  rw [owns_iff, nodes_addNode]
  exact List.getElem?_append_left (id_lt_size_of_owns h) ▸ owns_iff.mp h

theorem owns_fresh (g : Graph) (stmt : Statement) :
    (g.addNode stmt).owns (g.fresh stmt) = true := by
  rw [owns_iff, nodes_addNode]
  exact List.getElem?_concat_length

theorem owns_addEdge {g : Graph} {n : Node} (src dst : Node) (kind : Edge.Kind) :
    (g.addEdge src dst kind).owns n = g.owns n := by
  unfold owns
  rw [nodes_addEdge]

theorem not_owns_fresh (g : Graph) (stmt : Statement) : g.owns (g.fresh stmt) = false := by
  rw [Bool.eq_false_iff]
  intro h
  exact absurd (id_lt_size_of_owns h) (Nat.lt_irrefl _)

theorem mem_edges_addEdge {g : Graph} {e : Edge} {src dst : Node} {kind : Edge.Kind}
    (h : e ∈ (g.addEdge src dst kind).edges) : e ∈ g.edges ∨ e = ⟨src, dst, kind⟩ := by
  rw [edges_addEdge] at h
  split at h
  · exact Or.inl h
  · rcases List.mem_append.mp h with h | h
    · exact Or.inl h
    · exact Or.inr (List.mem_singleton.mp h)

namespace Grown

variable {g : Graph}

/-- A node stands at the place that its id names. -/
theorem id_eq (h : g.Grown) : ∀ {i : Nat} {n : Node}, g.nodes[i]? = some n → n.id = i := by
  induction h with
  | new home name =>
      intro i n hn
      simp at hn
  | @addNode g _ stmt ih =>
      intro i n hn
      rw [nodes_addNode] at hn
      rcases Nat.lt_trichotomy i g.nodes.length with hlt | rfl | hgt
      · rw [List.getElem?_append_left hlt] at hn
        exact ih hn
      · rw [List.getElem?_concat_length] at hn
        cases hn
        rfl
      · rw [List.getElem?_eq_none (by rw [List.length_append, List.length_singleton]; omega)] at hn
        cases hn
  | addEdge _ _ _ kind ih =>
      intro i n hn
      rw [nodes_addEdge] at hn
      exact ih hn

theorem owns_iff_mem (h : g.Grown) {n : Node} : g.owns n = true ↔ n ∈ g.nodes := by
  constructor
  · exact mem_of_owns
  · intro hn
    obtain ⟨i, hi⟩ := List.mem_iff_getElem?.mp hn
    rw [owns_iff, h.id_eq hi]
    exact hi

/-- Two nodes of a graph with one id are one node. -/
theorem eq_of_id_eq (h : g.Grown) {m n : Node} (hm : m ∈ g.nodes) (hn : n ∈ g.nodes)
    (hid : m.id = n.id) : m = n := by
  have hm' := owns_iff.mp (h.owns_iff_mem.mpr hm)
  have hn' := owns_iff.mp (h.owns_iff_mem.mpr hn)
  rw [hid, hn'] at hm'
  exact (Option.some.inj hm').symm

theorem owns_ends (h : g.Grown) : ∀ e ∈ g.edges, g.owns e.src = true ∧ g.owns e.dst = true := by
  induction h with
  | new home name =>
      intro e he
      cases he
  | addNode _ stmt ih =>
      intro e he
      obtain ⟨hsrc, hdst⟩ := ih e he
      exact ⟨owns_addNode hsrc stmt, owns_addNode hdst stmt⟩
  | addEdge _ hsrc hdst kind ih =>
      intro e he
      rw [owns_addEdge, owns_addEdge]
      rcases mem_edges_addEdge he with he | rfl
      · exact ih e he
      · exact ⟨hsrc, hdst⟩

/-- Control never leaves the graph. -/
theorem mem_of_reaches (h : g.Grown) {n : Node} (hn : g.flow.Reaches n) : n ∈ g.nodes := by
  obtain ⟨before, hpath⟩ := hn
  rcases Flow.path_iff.mp hpath with ⟨-, hstart⟩ | ⟨passed, p, -, -, hlead⟩
  · exact List.mem_of_mem_head? hstart
  · obtain ⟨e, he, -, rfl⟩ := mem_successors.mp hlead
    exact mem_of_owns (h.owns_ends e he).2

end Grown

/-! ## One node at a time -/

/-- The graph with one more node and with edges to it from the sources, in their order. -/
def grow (g : Graph) (stmt : Statement) (sources : List (Node × Edge.Kind)) : Graph :=
  sources.foldl (fun grown s => grown.addEdge s.1 (g.fresh stmt) s.2) (g.addNode stmt)

theorem grow_concat (g : Graph) (stmt : Statement) (sources : List (Node × Edge.Kind))
    (s : Node × Edge.Kind) : g.grow stmt (sources ++ [s]) =
      (g.grow stmt sources).addEdge s.1 (g.fresh stmt) s.2 := by
  unfold grow
  rw [List.foldl_append]
  rfl

theorem nodes_grow (g : Graph) (stmt : Statement) (sources : List (Node × Edge.Kind)) :
    (g.grow stmt sources).nodes = g.nodes ++ [g.fresh stmt] := by
  induction sources using List.reverseRecOn with
  | nil => rfl
  | append_singleton sources s ih => rw [grow_concat, nodes_addEdge, ih]

theorem owns_grow {g : Graph} {n : Node} (stmt : Statement) (sources : List (Node × Edge.Kind)) :
    (g.grow stmt sources).owns n = (g.addNode stmt).owns n := by
  unfold owns
  rw [nodes_grow, nodes_addNode]

theorem Grown.grow {g : Graph} (h : g.Grown) (stmt : Statement)
    {sources : List (Node × Edge.Kind)} (hs : ∀ s ∈ sources, g.owns s.1 = true) :
    (g.grow stmt sources).Grown := by
  induction sources using List.reverseRecOn with
  | nil => exact h.addNode stmt
  | append_singleton sources s ih =>
      rw [grow_concat]
      refine (ih fun r hr => hs r (List.mem_append_left _ hr)).addEdge ?_ ?_ s.2
      · rw [owns_grow]
        exact owns_addNode (hs s (by simp)) stmt
      · rw [owns_grow]
        exact owns_fresh g stmt

theorem edge?_isSome_iff {g : Graph} {src dst : Node} :
    (g.edge? src dst).isSome = true ↔ ∃ e ∈ g.edges, e.src.id = src.id ∧ e.dst.id = dst.id := by
  simp [edge?, Edge.joins]

theorem edge?_addEdge_isSome {g : Graph} {src dst u v : Node} {kind : Edge.Kind} :
    ((g.addEdge src dst kind).edge? u v).isSome = true ↔
      (g.edge? u v).isSome = true ∨ (src.id = u.id ∧ dst.id = v.id) := by
  rw [edge?_isSome_iff, edge?_isSome_iff, edges_addEdge]
  by_cases hedge : (g.edge? src dst).isSome = true
  · obtain ⟨e, he, hsrc, hdst⟩ := edge?_isSome_iff.mp hedge
    rw [if_pos hedge]
    constructor
    · exact Or.inl
    · rintro (hold | ⟨hu, hv⟩)
      · exact hold
      · exact ⟨e, he, hsrc.trans hu, hdst.trans hv⟩
  · rw [if_neg hedge]
    constructor
    · rintro ⟨e, he, hid⟩
      rcases List.mem_append.mp he with he | he
      · exact Or.inl ⟨e, he, hid⟩
      · rw [List.mem_singleton] at he
        subst he
        exact Or.inr hid
    · rintro (⟨e, he, hid⟩ | hid)
      · exact ⟨e, List.mem_append_left _ he, hid⟩
      · exact ⟨_, List.mem_append_right _ (List.mem_singleton_self _), hid⟩

/-- Edges lead to the new node exactly from the sources. -/
theorem edge?_grow_isSome {g : Graph} (h : g.Grown) (stmt : Statement)
    {sources : List (Node × Edge.Kind)} (hs : ∀ s ∈ sources, g.owns s.1 = true) {n : Node}
    (hn : g.owns n = true) :
    ((g.grow stmt sources).edge? n (g.fresh stmt)).isSome = true ↔ n ∈ sources.map Prod.fst := by
  induction sources using List.reverseRecOn with
  | nil =>
      have hnone : ¬ ((g.grow stmt []).edge? n (g.fresh stmt)).isSome = true := by
        rw [edge?_isSome_iff]
        rintro ⟨e, he, -, hfresh⟩
        have hlt := id_lt_size_of_owns (h.owns_ends e he).2
        rw [hfresh] at hlt
        exact absurd hlt (Nat.lt_irrefl _)
      exact iff_of_false hnone List.not_mem_nil
  | append_singleton sources s ih =>
      have hid : s.1.id = n.id ↔ n = s.1 := by
        constructor
        · intro hid
          exact h.eq_of_id_eq (mem_of_owns hn) (mem_of_owns (hs s (by simp))) hid.symm
        · intro heq
          rw [heq]
      rw [grow_concat, edge?_addEdge_isSome, ih fun r hr => hs r (List.mem_append_left _ hr),
        and_iff_left rfl, hid, List.map_append, List.mem_append, List.map_singleton,
        List.mem_singleton]

/-- One more source gives one more edge, unless it has been a source before. -/
theorem edges_grow_concat {g : Graph} (h : g.Grown) (stmt : Statement)
    {sources : List (Node × Edge.Kind)} (hs : ∀ s ∈ sources, g.owns s.1 = true)
    {s : Node × Edge.Kind} (hown : g.owns s.1 = true) :
    (g.grow stmt (sources ++ [s])).edges =
      if s.1 ∈ sources.map Prod.fst then (g.grow stmt sources).edges
      else (g.grow stmt sources).edges ++ [⟨s.1, g.fresh stmt, s.2⟩] := by
  rw [grow_concat, edges_addEdge]
  exact if_congr (edge?_grow_isSome h stmt hs hown) rfl rfl

/-- The new edges come from the sources, from each once, in the order of first mention. -/
theorem edges_grow {g : Graph} (h : g.Grown) (stmt : Statement)
    {sources : List (Node × Edge.Kind)} (hs : ∀ s ∈ sources, g.owns s.1 = true) :
    ∃ new, (g.grow stmt sources).edges = g.edges ++ new ∧
      (∀ e ∈ new, e.dst = g.fresh stmt) ∧
      new.map Edge.src = (sources.map Prod.fst).eraseDups := by
  induction sources using List.reverseRecOn with
  | nil => exact ⟨[], (List.append_nil _).symm, by simp, rfl⟩
  | append_singleton sources s ih =>
      have hs' : ∀ r ∈ sources, g.owns r.1 = true := fun r hr => hs r (List.mem_append_left _ hr)
      obtain ⟨new, hedges, hdst, hsrc⟩ := ih hs'
      rw [edges_grow_concat h stmt hs' (hs s (by simp)), List.map_append, List.map_singleton,
        eraseDups_concat]
      by_cases hmem : s.1 ∈ sources.map Prod.fst
      · rw [if_pos hmem, if_pos hmem]
        exact ⟨new, hedges, hdst, hsrc⟩
      · rw [if_neg hmem, if_neg hmem]
        refine ⟨new ++ [⟨s.1, g.fresh stmt, s.2⟩], ?_, ?_, ?_⟩
        · rw [hedges, List.append_assoc]
        · intro e he
          rcases List.mem_append.mp he with he | he
          · exact hdst e he
          · rw [List.mem_singleton.mp he]
        · rw [List.map_append, hsrc]
          rfl

section

variable {g : Graph} {stmt : Statement} {sources : List (Node × Edge.Kind)}

theorem mem_edges_grow (h : g.Grown) (hs : ∀ s ∈ sources, g.owns s.1 = true) {e : Edge}
    (he : e ∈ (g.grow stmt sources).edges) :
    e ∈ g.edges ∨ (e.dst = g.fresh stmt ∧ ∃ s ∈ sources, e.src = s.1) := by
  obtain ⟨new, hedges, hdst, hsrc⟩ := edges_grow h stmt hs
  rw [hedges] at he
  rcases List.mem_append.mp he with he | he
  · exact Or.inl he
  · have hmem : e.src ∈ (sources.map Prod.fst).eraseDups := hsrc ▸ List.mem_map_of_mem he
    obtain ⟨s, hs', heq⟩ := List.mem_map.mp (List.mem_eraseDups.mp hmem)
    exact Or.inr ⟨hdst e he, s, hs', heq.symm⟩

/-- Control arrives at the new node from the sources. -/
theorem predecessors_grow_fresh (h : g.Grown) (hs : ∀ s ∈ sources, g.owns s.1 = true) :
    predecessors (g.grow stmt sources).edges (g.fresh stmt) =
      (sources.map Prod.fst).eraseDups := by
  obtain ⟨new, hedges, hdst, hsrc⟩ := edges_grow h stmt hs
  have hold : predecessors g.edges (g.fresh stmt) = [] := by
    rw [List.eq_nil_iff_forall_not_mem]
    intro p hp
    obtain ⟨e, he, hfresh, -⟩ := mem_predecessors.mp hp
    have hown := (h.owns_ends e he).2
    rw [hfresh, not_owns_fresh] at hown
    cases hown
  have hnew : new.filter (fun e => e.dst = g.fresh stmt) = new := by
    rw [List.filter_eq_self]
    intro e he
    simpa using hdst e he
  rw [hedges, predecessors_append, hold, List.nil_append, predecessors, hnew, hsrc]

/-- From where control arrives at a node is settled when the node is made. -/
theorem predecessors_grow_of_mem (h : g.Grown) (hs : ∀ s ∈ sources, g.owns s.1 = true) {n : Node}
    (hn : n ∈ g.nodes) :
    predecessors (g.grow stmt sources).edges n = predecessors g.edges n := by
  obtain ⟨new, hedges, hdst, -⟩ := edges_grow h stmt hs
  have hnew : predecessors new n = [] := by
    rw [List.eq_nil_iff_forall_not_mem]
    intro p hp
    obtain ⟨e, he, hend, -⟩ := mem_predecessors.mp hp
    have hown := h.owns_iff_mem.mpr hn
    rw [← hend, hdst e he, not_owns_fresh] at hown
    cases hown
  rw [hedges, predecessors_append, hnew, List.append_nil]

theorem leads_grow (h : g.Grown) (hs : ∀ s ∈ sources, g.owns s.1 = true) {u v : Node}
    (hlead : Leads g.edges u v) : Leads (g.grow stmt sources).edges u v := by
  obtain ⟨new, hedges, -, -⟩ := edges_grow h stmt hs
  unfold Leads at hlead ⊢
  rw [hedges, successors_append]
  exact List.mem_append_left _ hlead

theorem leads_grow_fresh (h : g.Grown) (hs : ∀ s ∈ sources, g.owns s.1 = true)
    {s : Node × Edge.Kind} (hmem : s ∈ sources) :
    Leads (g.grow stmt sources).edges s.1 (g.fresh stmt) := by
  rw [leads_iff_mem_predecessors, predecessors_grow_fresh h hs, List.mem_eraseDups]
  exact List.mem_map_of_mem hmem

end

/-! ## Forward layout -/

/-- A graph in which every edge leads to a later node and control can get everywhere. -/
structure Forward (g : Graph) : Prop where
  grown : g.Grown
  upward : ∀ e ∈ g.edges, e.src.id < e.dst.id
  reached : ∀ n ∈ g.nodes, g.flow.Reaches n

namespace Forward

variable {g : Graph}

theorem new (home : Nat) (name : Option String) : Forward { home, name } where
  grown := .new home name
  upward := by
    intro e he
    cases he
  reached := by
    intro n hn
    cases hn

theorem id_lt_of_transGen (h : g.Forward) {u v : Node}
    (huv : Relation.TransGen (Leads g.edges) u v) : u.id < v.id :=
  rank_lt_of_transGen Node.id h.upward huv

theorem acyclic (h : g.Forward) : g.flow.Acyclic := by
  intro n _ hcycle
  exact Nat.lt_irrefl _ (h.id_lt_of_transGen hcycle)

theorem reaches_grow (h : g.Forward) (stmt : Statement) {sources : List (Node × Edge.Kind)}
    (hs : ∀ s ∈ sources, g.owns s.1 = true) {n : Node} (hn : g.flow.Reaches n) :
    (g.grow stmt sources).flow.Reaches n := by
  obtain ⟨before, hpath⟩ := hn
  induction hpath with
  | @start n hstart =>
      apply Flow.reaches_start
      have hhead : g.nodes.head? = some n := hstart
      show (g.grow stmt sources).nodes.head? = some n
      rw [nodes_grow, List.head?_append, hhead]
      rfl
  | step _ hlead ih => exact ih.next (leads_grow h.grown hs hlead)

/-- A new node keeps the layout, if only the first comes from nowhere. -/
theorem grow (h : g.Forward) (stmt : Statement) {sources : List (Node × Edge.Kind)}
    (hs : ∀ s ∈ sources, g.owns s.1 = true) (hfirst : sources = [] → g.nodes = []) :
    (g.grow stmt sources).Forward where
  grown := h.grown.grow stmt hs
  upward := by
    intro e he
    rcases mem_edges_grow h.grown hs he with he | ⟨hdst, s, hs', hsrc⟩
    · exact h.upward e he
    · rw [hdst, hsrc]
      exact id_lt_size_of_owns (hs s hs')
  reached := by
    intro n hn
    rw [nodes_grow] at hn
    rcases List.mem_append.mp hn with hn | hn
    · exact h.reaches_grow stmt hs (h.reached n hn)
    · rw [List.mem_singleton] at hn
      subst hn
      cases sources with
      | nil =>
          apply Flow.reaches_start
          show (g.grow stmt []).nodes.head? = _
          rw [nodes_grow, hfirst rfl]
          rfl
      | cons s rest =>
          have hsource := h.reached s.1 (mem_of_owns (hs s List.mem_cons_self))
          exact (h.reaches_grow stmt hs hsource).next
            (leads_grow_fresh h.grown hs List.mem_cons_self)

end Forward

end Graph

end NullSafety
