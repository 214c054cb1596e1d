import Mathlib.Data.List.Perm.Basic
import NullSafety.Proofs.Arrivals
import NullSafety.Proofs.Interpreter

/-!
# Where control goes on

A builder owes edges: one from its tail, of the pending kind, and one for each open frame. What it
has drawn and what it owes is together always what its nodes ask for: a condition asks for an edge
for either outcome, every other node for one that falls through. Only where an `if` ends right away
its condition loses an edge, for both would lead to the join and the first of them stays.

When the source has ended, nothing is owed but from the tail. So the tail is the only node that
leads nowhere, and the kinds of the edges out of every other node are known.
-/

namespace NullSafety

/-- The edges out of a node. -/
def departures (edges : List Edge) (n : Node) : List Edge := edges.filter fun e => e.src = n

/-- The edges by where they come from and their kinds. -/
def drawn (edges : List Edge) : List (Node × Edge.Kind) := edges.map fun e => (e.src, e.kind)

/-- The kinds of the edges from one node. -/
def kindsFrom (n : Node) (edges : List (Node × Edge.Kind)) : List Edge.Kind :=
  (edges.filter fun s => s.1 = n).map Prod.snd

/-- The kinds of the edges that a statement asks for. -/
def Statement.onward (s : Statement) : List Edge.Kind :=
  if s.kind = .conditionEntry then [.branchTrue, .branchFalse] else [.fallThrough]

namespace Graph

/-- Whether a join was made right after the node. -/
def joinsNext (g : Graph) (n : Node) : Bool :=
  g.nodes[n.id + 1]?.any fun next => next.stmt.isJoin

/-- The kinds of the edges that a node of the graph asks for. -/
def onward (g : Graph) (n : Node) : List Edge.Kind :=
  if n.stmt.kind = .conditionEntry ∧ g.joinsNext n = true then [.branchTrue] else n.stmt.onward

/-- All that the nodes ask for. -/
def ledger (g : Graph) : List (Node × Edge.Kind) :=
  g.nodes.flatMap fun n => (g.onward n).map fun kind => (n, kind)

end Graph

theorem drawn_append (es fs : List Edge) : drawn (es ++ fs) = drawn es ++ drawn fs :=
  List.map_append

theorem kindsFrom_append (n : Node) (l r : List (Node × Edge.Kind)) :
    kindsFrom n (l ++ r) = kindsFrom n l ++ kindsFrom n r := by
  unfold kindsFrom
  rw [List.filter_append, List.map_append]

theorem kindsFrom_drawn (n : Node) (edges : List Edge) :
    kindsFrom n (drawn edges) = (departures edges n).map Edge.kind := by
  unfold kindsFrom drawn departures
  rw [List.filter_map, List.map_map]
  rfl

theorem kindsFrom_self (n : Node) (kinds : List Edge.Kind) :
    kindsFrom n (kinds.map fun kind => (n, kind)) = kinds := by
  simp [kindsFrom, List.filter_map, Function.comp_def]

theorem kindsFrom_eq_nil {n : Node} {l : List (Node × Edge.Kind)} (h : ∀ s ∈ l, s.1 ≠ n) :
    kindsFrom n l = [] := by
  unfold kindsFrom
  rw [List.filter_eq_nil_iff.mpr]
  · rfl
  · intro s hs
    simpa using h s hs

namespace Graph

section

variable {g : Graph} {stmt : Statement} {sources : List (Node × Edge.Kind)} {n : Node}

/-! ## What one more node asks for -/

/-- Sources that are all different give an edge each. -/
theorem drawn_grow (h : g.Grown) (hs : ∀ s ∈ sources, g.owns s.1 = true)
    (hnodup : (sources.map Prod.fst).Nodup) :
    drawn (g.grow stmt sources).edges = drawn g.edges ++ sources := by
  induction sources using List.reverseRecOn with
  | nil => exact (List.append_nil _).symm
  | append_singleton sources s ih =>
      have hs' : ∀ r ∈ sources, g.owns r.1 = true := fun r hr => hs r (List.mem_append_left _ hr)
      rw [List.map_append, List.map_singleton, List.nodup_append] at hnodup
      have hnew : s.1 ∉ sources.map Prod.fst := fun hmem =>
        hnodup.2.2 _ hmem _ (List.mem_singleton_self _) rfl
      rw [edges_grow_concat h stmt hs' (hs s (by simp)), if_neg hnew, drawn_append, ih hs' hnodup.1,
        List.append_assoc]
      rfl

/-- Of two edges from one node the first is drawn. -/
theorem drawn_grow_twice (h : g.Grown) {kind kind' : Edge.Kind} (hn : g.owns n = true) :
    drawn (g.grow stmt [(n, kind), (n, kind')]).edges = drawn g.edges ++ [(n, kind)] := by
  have hs : ∀ s ∈ [(n, kind)], g.owns s.1 = true := by
    intro s hs
    rw [List.mem_singleton.mp hs]
    exact hn
  have hstep : (g.grow stmt [(n, kind), (n, kind')]).edges = (g.grow stmt [(n, kind)]).edges :=
    (edges_grow_concat h stmt hs hn).trans (if_pos (List.mem_singleton_self n))
  rw [hstep]
  exact drawn_grow h hs (List.nodup_singleton _)

theorem onward_ne_nil (g : Graph) (n : Node) : g.onward n ≠ [] := by
  unfold onward Statement.onward
  split
  · exact List.cons_ne_nil _ _
  · split <;> exact List.cons_ne_nil _ _

theorem joinsNext_grow (hn : n.id + 1 < g.size) :
    (g.grow stmt sources).joinsNext n = g.joinsNext n := by
  unfold joinsNext
  rw [nodes_grow, List.getElem?_append_left hn]

theorem joinsNext_grow_last (hn : n.id + 1 = g.size) :
    (g.grow stmt sources).joinsNext n = stmt.isJoin := by
  have hnext : (g.nodes ++ [g.fresh stmt])[n.id + 1]? = some (g.fresh stmt) := by
    rw [hn]
    exact List.getElem?_concat_length
  unfold joinsNext
  rw [nodes_grow, hnext]
  rfl

theorem joinsNext_last (hn : n.id + 1 = g.size) : g.joinsNext n = false := by
  have hnext : g.nodes[n.id + 1]? = none := List.getElem?_eq_none (Nat.le_of_eq hn.symm)
  unfold joinsNext
  rw [hnext]
  rfl

/-- A node asks for what it asked for, unless it is a condition, and a join follows it at once. -/
theorem onward_grow (h : g.Grown) (hn : n ∈ g.nodes)
    (hnext : n.id + 1 = g.size → n.stmt.kind = .conditionEntry → stmt.isJoin = false) :
    (g.grow stmt sources).onward n = g.onward n := by
  unfold onward
  by_cases hkind : n.stmt.kind = .conditionEntry
  · have hlt := id_lt_size_of_owns (h.owns_iff_mem.mpr hn)
    have hsame : (g.grow stmt sources).joinsNext n = g.joinsNext n := by
      rcases Nat.lt_or_eq_of_le hlt with hlt | hlast
      · exact joinsNext_grow hlt
      · rw [joinsNext_grow_last hlast, joinsNext_last hlast, hnext hlast hkind]
    rw [hsame]
  · rw [if_neg fun hboth => hkind hboth.1, if_neg fun hboth => hkind hboth.1]

theorem ledger_grow :
    (g.grow stmt sources).ledger =
      (g.nodes.flatMap fun n => ((g.grow stmt sources).onward n).map fun kind => (n, kind)) ++
        stmt.onward.map fun kind => (g.fresh stmt, kind) := by
  have hsize : (g.fresh stmt).id + 1 = (g.grow stmt sources).size := by
    unfold size
    rw [nodes_grow, List.length_append]
    rfl
  have hfresh : (g.grow stmt sources).onward (g.fresh stmt) = stmt.onward := by
    unfold onward
    rw [joinsNext_last hsize, if_neg fun hboth => nomatch hboth.2]
    rfl
  unfold ledger
  rw [nodes_grow, List.flatMap_append, List.flatMap_singleton, hfresh]

/-- When a join follows the last node at once, and that is a condition, it asks for one edge
less. -/
theorem ledger_of_last (h : g.Grown) (hn : g.owns n = true) (hlast : n.id + 1 = g.size)
    (hkind : n.stmt.kind = .conditionEntry) (hjoin : stmt.isJoin = true) :
    g.ledger =
      (g.nodes.flatMap fun m => ((g.grow stmt sources).onward m).map fun kind => (m, kind)) ++
        [(n, .branchFalse)] := by
  obtain ⟨init, hinit⟩ : ∃ init, g.nodes = init ++ [n] := by
    rw [← List.getLast?_eq_some_iff, List.getLast?_eq_getElem?]
    have hindex : g.nodes.length - 1 = n.id := by
      show g.size - 1 = n.id
      omega
    rw [hindex]
    exact owns_iff.mp hn
  have hsize : g.size = init.length + 1 := by
    unfold size
    rw [hinit, List.length_append]
    rfl
  -- the nodes before it are followed by the same nodes as before
  have hbefore : ∀ m ∈ init, (g.grow stmt sources).onward m = g.onward m := by
    intro m hm
    obtain ⟨i, hi⟩ := List.mem_iff_getElem?.mp hm
    obtain ⟨hlt, -⟩ := List.getElem?_eq_some_iff.mp hi
    have hid : m.id = i := by
      apply h.id_eq
      rw [hinit, List.getElem?_append_left hlt]
      exact hi
    apply onward_grow h
    · rw [hinit]
      exact List.mem_append_left _ hm
    · intro hm'
      omega
  have hone : (g.grow stmt sources).onward n = [.branchTrue] := by
    unfold onward
    rw [joinsNext_grow_last hlast]
    exact if_pos ⟨hkind, hjoin⟩
  have htwo : g.onward n = [.branchTrue, .branchFalse] := by
    unfold onward
    rw [joinsNext_last hlast, if_neg fun hboth => nomatch hboth.2]
    exact if_pos hkind
  unfold ledger
  rw [hinit, List.flatMap_append, List.flatMap_append, List.flatMap_singleton,
    List.flatMap_singleton, hone, htwo, List.append_assoc]
  congr 1
  apply List.flatMap_congr
  intro m hm
  rw [hbefore m hm]

theorem Grown.nodup_nodes (h : g.Grown) : g.nodes.Nodup := by
  apply List.pairwise_iff_getElem.mpr
  intro i j hi hj hij heq
  have hid := h.id_eq (List.getElem?_eq_getElem hi)
  rw [heq, h.id_eq (List.getElem?_eq_getElem hj)] at hid
  omega

theorem kindsFrom_ledger (h : g.Grown) (hn : n ∈ g.nodes) : kindsFrom n g.ledger = g.onward n := by
  have hother : ∀ nodes : List Node, n ∉ nodes →
      kindsFrom n (nodes.flatMap fun m => (g.onward m).map fun kind => (m, kind)) = [] := by
    intro nodes hnodes
    apply kindsFrom_eq_nil
    intro s hs heq
    obtain ⟨m, hm, hs⟩ := List.mem_flatMap.mp hs
    obtain ⟨kind, -, rfl⟩ := List.mem_map.mp hs
    exact hnodes (heq ▸ hm)
  obtain ⟨left, right, hsplit⟩ := List.append_of_mem hn
  have hnodup := h.nodup_nodes
  rw [hsplit] at hnodup
  obtain ⟨hnot, -⟩ := List.nodup_cons.mp (List.nodup_middle.mp hnodup)
  rw [List.mem_append, not_or] at hnot
  unfold ledger
  rw [hsplit, List.flatMap_append, List.flatMap_cons, kindsFrom_append, kindsFrom_append,
    hother left hnot.1, hother right hnot.2, kindsFrom_self, List.nil_append, List.append_nil]

end

end Graph

/-! ## What a builder owes -/

/-- The edge that is owed for an open frame: the one to the else branch, or the one from the end of
the first branch to the join. -/
def Frame.due (frame : Frame) : Node × Edge.Kind :=
  match frame.bodyExit with
  | none => (frame.condition, .branchFalse)
  | some exit => (exit, if exit = frame.condition then .branchTrue else .fallThrough)

namespace Builder

/-- The edges that a builder owes. -/
def dues (b : Builder) : List (Node × Edge.Kind) :=
  (b.tail.toList.map fun tail => (tail, b.pending)) ++ b.frames.map Frame.due

/-- What is drawn and what is owed is what the nodes ask for. -/
def Balanced (b : Builder) : Prop := (drawn b.graph.edges ++ b.dues).Perm b.graph.ledger

/-- What the fields of a builder have to do with each other. -/
structure Poised (b : Builder) : Prop where
  consistent : b.Consistent
  last : ∀ n, b.tail = some n → n.id + 1 = b.graph.size
  pending : ∀ n, b.tail = some n →
    b.pending = if n.stmt.kind = .conditionEntry then .branchTrue else .fallThrough
  condition : ∀ frame ∈ b.frames, frame.condition.stmt.kind = .conditionEntry
  /-- Nothing has happened in an `if` yet whose condition is the tail. -/
  entered : ∀ n, b.tail = some n → n.stmt.kind = .conditionEntry →
    ∃ rest, b.frames = ⟨n, none⟩ :: rest
  earlier : ∀ frame ∈ b.frames, ∀ n, frame.bodyExit = some n → n.id + 1 < b.graph.size

theorem poised_new (home : Nat) (name : Option String) :
    Poised { graph := { home, name } } where
  consistent := consistent_new home name
  last := by
    intro n hn
    cases hn
  pending := by
    intro n hn
    cases hn
  condition := by
    intro frame hframe
    cases hframe
  entered := by
    intro n hn
    cases hn
  earlier := by
    intro frame hframe
    cases hframe

namespace Poised

variable {b : Builder} {frame : Frame} {rest : List Frame} {tail : Node}

theorem of_grow {b' : Builder} {stmt : Statement} {sources : List (Node × Edge.Kind)}
    (hc : b'.Consistent) (hgraph : b'.graph = b.graph.grow stmt sources)
    (htail : b'.tail = some (b.graph.fresh stmt))
    (hpending : b'.pending = if stmt.kind = .conditionEntry then .branchTrue else .fallThrough)
    (hentered : stmt.kind = .conditionEntry →
      ∃ rest, b'.frames = ⟨b.graph.fresh stmt, none⟩ :: rest)
    (hframes : ∀ frame ∈ b'.frames, frame.condition.stmt.kind = .conditionEntry ∧
      ∀ n, frame.bodyExit = some n → n.id < b.graph.size) : b'.Poised := by
  have hsize : b'.graph.size = b.graph.size + 1 := by
    unfold Graph.size
    rw [hgraph, Graph.nodes_grow, List.length_append]
    rfl
  have hfresh : ∀ n, b'.tail = some n → n = b.graph.fresh stmt := fun n hn =>
    Option.some.inj (hn.symm.trans htail)
  constructor
  case consistent => exact hc
  case last =>
    intro n hn
    rw [hfresh n hn, hsize]
    rfl
  case pending =>
    intro n hn
    rw [hfresh n hn]
    exact hpending
  case condition => exact fun frame hframe => (hframes frame hframe).1
  case entered =>
    intro n hn hkind
    rw [hfresh n hn] at hkind ⊢
    exact hentered hkind
  case earlier =>
    intro frame hframe n hn
    rw [hsize]
    exact Nat.succ_lt_succ ((hframes frame hframe).2 n hn)

/-- What holds of the frames that stay open. -/
theorem frames_kept (h : b.Poised) : ∀ frame ∈ b.frames,
    frame.condition.stmt.kind = .conditionEntry ∧
      ∀ n, frame.bodyExit = some n → n.id < b.graph.size :=
  fun frame hframe => ⟨h.condition frame hframe, fun n hn =>
    Nat.lt_of_succ_lt (h.earlier frame hframe n hn)⟩

theorem append (h : b.Poised) {stmt : Statement} (hkind : stmt.kind ≠ .conditionEntry) :
    (b.append stmt).Poised :=
  of_grow (h.consistent.append stmt) (graph_append b stmt) rfl (if_neg hkind).symm
    (fun hkind' => absurd hkind' hkind) h.frames_kept

theorem enter (h : b.Poised) {stmt : Statement} (hkind : stmt.kind = .conditionEntry) :
    (b.enter stmt).Poised := by
  refine of_grow (h.consistent.enter stmt) (graph_enter b stmt) rfl (if_pos hkind).symm
    (fun _ => ⟨b.frames, rfl⟩) ?_
  intro frame hframe
  rcases List.mem_cons.mp hframe with rfl | hframe
  · exact ⟨hkind, fun n hn => by cases hn⟩
  · exact h.frames_kept frame hframe

theorem beginElse (h : b.Poised) (hframes : b.frames = frame :: rest)
    (hopen : frame.bodyExit = none) : (b.beginElse frame rest).Poised := by
  obtain ⟨tail, htail, hown⟩ := h.consistent.tail_eq_some hframes
  refine of_grow (h.consistent.beginElse hframes hopen) (graph_beginElse b frame rest) rfl rfl
    nofun ?_
  intro frame' hframe'
  rcases List.mem_cons.mp hframe' with rfl | hframe'
  · refine ⟨h.condition frame (hframes ▸ List.mem_cons_self), ?_⟩
    intro n hn
    rw [Option.some.injEq, htail] at hn
    subst hn
    exact Graph.id_lt_size_of_owns hown
  · exact h.frames_kept frame' (hframes ▸ List.mem_cons_of_mem _ hframe')

theorem close (h : b.Poised) (hframes : b.frames = frame :: rest) :
    (b.close frame rest).Poised :=
  of_grow (h.consistent.close hframes) (graph_close b frame rest) rfl rfl nofun
    fun frame' hframe' => h.frames_kept frame' (hframes ▸ List.mem_cons_of_mem _ hframe')

/-- A condition that is the last node has just been entered. -/
theorem entered_of_last (h : b.Poised) {n : Node} (hn : n ∈ b.graph.nodes)
    (hlast : n.id + 1 = b.graph.size) (hkind : n.stmt.kind = .conditionEntry) :
    b.tail = some n ∧ ∃ rest, b.frames = ⟨n, none⟩ :: rest := by
  have htail : b.tail = some n := by
    cases htail : b.tail with
    | none =>
        rw [(h.consistent.started htail).1] at hn
        cases hn
    | some tail =>
        have hmem := Graph.mem_of_owns (h.consistent.owns_tail tail htail)
        have hid : tail.id = n.id := by
          have := h.last tail htail
          omega
        rw [h.consistent.forward.grown.eq_of_id_eq hmem hn hid]
  exact ⟨htail, h.entered n htail hkind⟩

/-- In the first branch, the pending edge is the one for a true condition as long as nothing has
happened there. -/
theorem pending_eq (h : b.Poised) (hframes : b.frames = frame :: rest) (htail : b.tail = some tail)
    (hopen : frame.bodyExit = none) :
    b.pending = if tail = frame.condition then .branchTrue else .fallThrough := by
  have hiff : tail.stmt.kind = .conditionEntry ↔ tail = frame.condition := by
    constructor
    · intro hkind
      obtain ⟨rest', hframes'⟩ := h.entered tail htail hkind
      rw [hframes] at hframes'
      cases hframes'
      rfl
    · rintro rfl
      exact h.condition frame (hframes ▸ List.mem_cons_self)
  rw [h.pending tail htail]
  exact if_congr hiff rfl rfl

/-- In the second branch, something has happened: the else. -/
theorem pending_eq_of_else (h : b.Poised) (hframes : b.frames = frame :: rest)
    (htail : b.tail = some tail) {exit : Node} (hexit : frame.bodyExit = some exit) :
    b.pending = .fallThrough ∧ exit ≠ tail := by
  constructor
  · rw [h.pending tail htail]
    apply if_neg
    intro hkind
    obtain ⟨rest', hframes'⟩ := h.entered tail htail hkind
    rw [hframes] at hframes'
    cases hframes'
    cases hexit
  · rintro rfl
    have hearlier := h.earlier frame (hframes ▸ List.mem_cons_self) exit hexit
    have hlast := h.last exit htail
    omega

/-- A frame is closed by what is owed from the tail and for the frame. -/
theorem branchExits_perm (h : b.Poised) (hframes : b.frames = frame :: rest)
    (htail : b.tail = some tail) :
    (branchExits frame tail).Perm [(tail, b.pending), frame.due] := by
  unfold branchExits Frame.due
  cases hexit : frame.bodyExit with
  | none =>
      rw [h.pending_eq hframes htail hexit]
      exact List.Perm.refl _
  | some exit =>
      rw [(h.pending_eq_of_else hframes htail hexit).1]
      exact List.Perm.swap _ _ _

end Poised

/-! ## The balance is kept -/

/-- One more node keeps the balance. Some of what was owed is drawn with it, and some may be
lost. -/
theorem Balanced.grow {b b' : Builder} (h : b.Balanced) {stmt : Statement}
    {sources paid lost kept : List (Node × Edge.Kind)}
    (hgraph : b'.graph = b.graph.grow stmt sources)
    (hdrawn : drawn (b.graph.grow stmt sources).edges = drawn b.graph.edges ++ paid)
    (hdues : b.dues.Perm (paid ++ lost ++ kept))
    (hdues' : b'.dues = (stmt.onward.map fun kind => (b.graph.fresh stmt, kind)) ++ kept)
    (hledger : b.graph.ledger =
      (b.graph.nodes.flatMap fun n =>
        ((b.graph.grow stmt sources).onward n).map fun kind => (n, kind)) ++ lost) :
    b'.Balanced := by
  unfold Balanced at h ⊢
  -- what is lost stands on both sides of the old balance, so the new one does without it
  rw [hledger] at h
  rw [hgraph, hdrawn, hdues', Graph.ledger_grow]
  rw [List.perm_iff_count] at h hdues ⊢
  intro s
  have hs := h s
  have hs' := hdues s
  simp only [List.count_append] at hs hs' ⊢
  omega

/-- Nothing is lost where no join follows a condition at once. -/
theorem Balanced.grow_all {b b' : Builder} (h : b.Balanced) (hc : b.Consistent) {stmt : Statement}
    {sources kept : List (Node × Edge.Kind)} (hgraph : b'.graph = b.graph.grow stmt sources)
    (hs : ∀ s ∈ sources, b.graph.owns s.1 = true) (hnodup : (sources.map Prod.fst).Nodup)
    (hdues : b.dues.Perm (sources ++ kept))
    (hdues' : b'.dues = (stmt.onward.map fun kind => (b.graph.fresh stmt, kind)) ++ kept)
    (hnext : ∀ n ∈ b.graph.nodes, n.id + 1 = b.graph.size → n.stmt.kind = .conditionEntry →
      stmt.isJoin = false) : b'.Balanced := by
  have hgrown := hc.forward.grown
  have hledger : b.graph.ledger =
      (b.graph.nodes.flatMap fun n =>
        ((b.graph.grow stmt sources).onward n).map fun kind => (n, kind)) ++ [] := by
    rw [List.append_nil]
    apply List.flatMap_congr
    intro n hn
    rw [Graph.onward_grow hgrown hn (hnext n hn)]
  rw [← List.append_nil sources] at hdues
  exact h.grow hgraph (Graph.drawn_grow hgrown hs hnodup) hdues hdues' hledger

namespace Balanced

variable {b : Builder} {frame : Frame} {rest : List Frame} {stmt : Statement}

theorem nodup_appendSource (b : Builder) :
    ((b.tail.toList.map fun tail => (tail, b.pending)).map Prod.fst).Nodup := by
  cases b.tail with
  | none => exact List.nodup_nil
  | some tail => exact List.nodup_singleton tail

theorem append (h : b.Balanced) (hp : b.Poised) (hkind : stmt.kind ≠ .conditionEntry)
    (hjoin : stmt.isJoin = true → b.frames = []) : (b.append stmt).Balanced := by
  have honward : stmt.onward = [.fallThrough] := if_neg hkind
  refine h.grow_all hp.consistent (graph_append b stmt) hp.consistent.owns_appendSource
    (nodup_appendSource b) (List.Perm.refl _) (by rw [honward]; rfl) ?_
  intro n hn hlast hcondition
  obtain ⟨-, rest, hframes⟩ := hp.entered_of_last hn hlast hcondition
  rw [Bool.eq_false_iff]
  intro hstmt
  rw [hjoin hstmt] at hframes
  cases hframes

theorem enter (h : b.Balanced) (hp : b.Poised) (hkind : stmt.kind = .conditionEntry)
    (hjoin : stmt.isJoin = false) : (b.enter stmt).Balanced := by
  have honward : stmt.onward = [.branchTrue, .branchFalse] := if_pos hkind
  exact h.grow_all hp.consistent (graph_enter b stmt) hp.consistent.owns_appendSource
    (nodup_appendSource b) (List.Perm.refl _) (by rw [honward]; rfl) fun _ _ _ _ => hjoin

/-- An else draws the edge that is owed for its frame, and then owes the one from the tail there. -/
theorem beginElse (h : b.Balanced) (hp : b.Poised) (hframes : b.frames = frame :: rest)
    (hopen : frame.bodyExit = none) : (b.beginElse frame rest).Balanced := by
  obtain ⟨tail, htail, -⟩ := hp.consistent.tail_eq_some hframes
  have hdue : frame.due = (frame.condition, .branchFalse) := by
    unfold Frame.due
    rw [hopen]
  have hdues : b.dues = (tail, b.pending) :: frame.due :: rest.map Frame.due := by
    unfold dues
    rw [htail, hframes]
    rfl
  have hdues' : (b.beginElse frame rest).dues =
      ((Statement.marker .orElse).onward.map fun kind => (b.graph.fresh (.marker .orElse), kind)) ++
        (tail, b.pending) :: rest.map Frame.due := by
    rw [hp.pending_eq hframes htail hopen]
    unfold dues Builder.beginElse
    rw [htail]
    rfl
  refine h.grow_all hp.consistent (graph_beginElse b frame rest)
    (hp.consistent.owns_elseSource hframes) (List.nodup_singleton _) ?_ hdues' fun _ _ _ _ => rfl
  rw [hdues, hdue]
  exact List.Perm.swap _ _ _

/-- The end of an `if` draws what is owed from the tail and for the frame, or loses the second where
both would come from the condition. -/
theorem close (h : b.Balanced) (hp : b.Poised) (hframes : b.frames = frame :: rest) :
    (b.close frame rest).Balanced := by
  have hgrown := hp.consistent.forward.grown
  obtain ⟨tail, htail, hown⟩ := hp.consistent.tail_eq_some hframes
  have hgraph := graph_close b frame rest
  have hs := hp.consistent.owns_closeSources hframes
  rw [htail, Option.getD_some] at hgraph hs
  have hdues : b.dues.Perm (branchExits frame tail ++ rest.map Frame.due) := by
    unfold dues
    rw [htail, hframes]
    exact (hp.branchExits_perm hframes htail).symm.append_right (rest.map Frame.due)
  -- both edges come from one node only if the `if` ends right away
  by_cases hempty : tail = frame.condition ∧ frame.bodyExit = none
  · obtain ⟨hcondition, hopen⟩ := hempty
    have hexits : branchExits frame tail = [(tail, .branchTrue), (tail, .branchFalse)] := by
      simp [branchExits, hopen, hcondition]
    have hkind : tail.stmt.kind = .conditionEntry :=
      hcondition ▸ hp.condition frame (hframes ▸ List.mem_cons_self)
    rw [hexits] at hgraph hdues
    exact h.grow hgraph (Graph.drawn_grow_twice hgrown hown) hdues rfl
      (Graph.ledger_of_last hgrown hown (hp.last tail htail) hkind rfl)
  · refine h.grow_all hp.consistent hgraph hs ?_ hdues rfl ?_
    · have hpair : ∀ {m n : Node}, m ≠ n → [m, n].Nodup := fun hne =>
        List.nodup_cons.mpr ⟨mt List.mem_singleton.mp hne, List.nodup_singleton _⟩
      rw [Consistent.map_fst_branchExits]
      cases hexit : frame.bodyExit with
      | none => exact hpair fun hcondition => hempty ⟨hcondition, hexit⟩
      | some exit => exact hpair (hp.pending_eq_of_else hframes htail hexit).2
    · intro n hn hlast hkind
      obtain ⟨htail', rest', hframes'⟩ := hp.entered_of_last hn hlast hkind
      rw [htail] at htail'
      rw [hframes] at hframes'
      cases htail'
      cases hframes'
      exact absurd ⟨rfl, rfl⟩ hempty

end Balanced

/-- The balance is kept by every event. -/
theorem balanced_step {b : Builder} (h : b.Poised ∧ b.Balanced) (event : Event) :
    (b.step event).Poised ∧ (b.step event).Balanced := by
  refine step_preserves (P := fun b => b.Poised ∧ b.Balanced) ?_ ?_ ?_ ?_ h event
  · intro b stmt hkind hjoin hb
    exact ⟨hb.1.append hkind, hb.2.append hb.1 hkind hjoin⟩
  · intro b stmt hkind hjoin hb
    exact ⟨hb.1.enter hkind, hb.2.enter hb.1 hkind hjoin⟩
  · intro b frame rest hframes hopen hb
    exact ⟨hb.1.beginElse hframes hopen, hb.2.beginElse hb.1 hframes hopen⟩
  · intro b frame rest hframes hb
    exact ⟨hb.1.close hframes, hb.2.close hb.1 hframes⟩

theorem balanced_run (home : Nat) (name : Option String) (events : List Event) :
    let b := Builder.run { graph := { home, name } } events
    b.Poised ∧ b.Balanced :=
  run_preserves (P := fun b => b.Poised ∧ b.Balanced) (fun _ event hb => balanced_step hb event)
    ⟨poised_new home name, List.Perm.refl _⟩ events

end Builder

end NullSafety
