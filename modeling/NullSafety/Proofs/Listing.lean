import Mathlib.Data.List.Perm.Basic
import NullSafety.Graph.Listing
import NullSafety.Proofs.Traversal

/-!
# The listing of a graph

The listing is made by a loop over a stack of successors that are still to be listed. Said
recursively, without a stack: the line of a node is followed by the lines of its successors, each
with the listing of the successor behind it if it has not been listed before. The rules below say
just this, with the nodes listed so far handed on from one successor to the next. They allow one
listing only, and the loop gives it. What is listed, and how often, is read off the rules.
-/

namespace NullSafety

open Relation

namespace Listing

open Traversal

/-- The nodes that have a line of their own, in order. -/
def listed : List Line → List Node
  | [] => []
  | .node n :: lines => n :: listed lines
  | .successor _ :: lines => listed lines

/-- The nodes that have a line as a successor, in order, once for each line. -/
def shown : List Line → List Node
  | [] => []
  | .node _ :: lines => shown lines
  | .successor n :: lines => n :: shown lines

theorem listed_append (lines more : List Line) :
    listed (lines ++ more) = listed lines ++ listed more := by
  fun_induction listed lines <;> simp_all [listed]

theorem shown_append (lines more : List Line) :
    shown (lines ++ more) = shown lines ++ shown more := by
  fun_induction shown lines <;> simp_all [shown]

/-- `Lists edges todo seen lines seen'`: the successors `todo` of a node are listed by `lines`, when
the nodes `seen` have been listed before and `seen'` have been then. -/
inductive Lists (edges : List Edge) :
    (todo seen : List Node) → (lines : List Line) → (seen' : List Node) → Prop
  | done {seen : List Node} : Lists edges [] seen [] seen
  | known {m : Node} {rest seen seen' : List Node} {lines : List Line} (hm : m ∈ seen)
      (hrest : Lists edges rest seen lines seen') :
      Lists edges (m :: rest) seen (.successor m :: lines) seen'
  | new {m : Node} {rest seen between seen' : List Node} {own lines : List Line} (hm : m ∉ seen)
      (hown : Lists edges (successors edges m) (m :: seen) own between)
      (hrest : Lists edges rest between lines seen') :
      Lists edges (m :: rest) seen (.successor m :: .node m :: own ++ lines) seen'

namespace Lists

variable {edges : List Edge} {todo seen seen' : List Node} {lines : List Line}

theorem unique (h : Lists edges todo seen lines seen') {lines' : List Line} {seen'' : List Node}
    (h' : Lists edges todo seen lines' seen'') : lines = lines' ∧ seen' = seen'' := by
  induction h generalizing lines' seen'' with
  | done =>
      cases h'
      exact ⟨rfl, rfl⟩
  | known hm _ ih =>
      cases h' with
      | known _ hrest =>
          obtain ⟨rfl, rfl⟩ := ih hrest
          exact ⟨rfl, rfl⟩
      | new hm' _ _ => exact absurd hm hm'
  | new hm _ _ ihown ihrest =>
      cases h' with
      | known hm' _ => exact absurd hm' hm
      | new _ hown hrest =>
          obtain ⟨rfl, rfl⟩ := ihown hown
          obtain ⟨rfl, rfl⟩ := ihrest hrest
          exact ⟨rfl, rfl⟩

/-- Every node with a line has been seen from then on. -/
theorem seen_eq (h : Lists edges todo seen lines seen') :
    seen' = (listed lines).reverse ++ seen := by
  induction h with
  | done => rfl
  | known _ _ ih => exact ih
  | new _ _ _ ihown ihrest =>
      rw [ihrest, ihown, listed_append]
      simp [listed]

theorem nodup (h : Lists edges todo seen lines seen') (hseen : seen.Nodup) : seen'.Nodup := by
  induction h with
  | done => exact hseen
  | known _ _ ih => exact ih hseen
  | new hm _ _ ihown ihrest => exact ihrest (ihown (List.nodup_cons.mpr ⟨hm, hseen⟩))

/-- There is one line for each successor to be listed, and one for each successor of a node that has
a line of its own. -/
theorem shown_perm (h : Lists edges todo seen lines seen') :
    (shown lines).Perm (todo ++ (listed lines).flatMap (successors edges)) := by
  induction h with
  | done => exact .refl _
  | known _ _ ih => exact ih.cons _
  | @new m rest _ _ _ own lines _ _ _ ihown ihrest =>
      -- what was listed below `m` stands before the rest instead of behind it
      rw [shown_append, listed_append]
      simp only [shown, listed, List.cons_append, List.flatMap_cons, List.flatMap_append]
      refine List.Perm.cons m ((ihown.append ihrest).trans ?_)
      rw [← List.append_assoc (successors edges m)]
      exact List.perm_append_comm_assoc _ rest _

theorem subset (h : Lists edges todo seen lines seen') : seen ⊆ seen' :=
  h.seen_eq ▸ List.subset_append_right _ _

/-- A successor with a line has been listed in the end. -/
theorem mem_seen (h : Lists edges todo seen lines seen') {m : Node} (hm : m ∈ shown lines) :
    m ∈ seen' := by
  induction h with
  | done => cases hm
  | known hk hrest ih =>
      rcases List.mem_cons.mp hm with rfl | hm
      · exact hrest.subset hk
      · exact ih hm
  | new _ hown hrest ihown ihrest =>
      rw [shown_append] at hm
      rcases List.mem_append.mp hm with hm | hm
      · rcases List.mem_cons.mp hm with rfl | hm
        · exact hrest.subset (hown.subset List.mem_cons_self)
        · exact hrest.subset (ihown hm)
      · exact ihrest hm

/-- A node with a line of its own is reached from a successor to be listed. -/
theorem exists_reflTransGen (h : Lists edges todo seen lines seen') {n : Node}
    (hn : n ∈ listed lines) : ∃ m ∈ todo, ReflTransGen (Leads edges) m n := by
  induction h with
  | done => cases hn
  | known _ _ ih =>
      obtain ⟨m, hm, hway⟩ := ih hn
      exact ⟨m, List.mem_cons_of_mem _ hm, hway⟩
  | @new k _ _ _ _ _ _ _ _ _ ihown ihrest =>
      rw [listed_append] at hn
      rcases List.mem_append.mp hn with hn | hn
      · rcases List.mem_cons.mp hn with rfl | hn
        · exact ⟨n, List.mem_cons_self, .refl⟩
        · obtain ⟨m, hm, hway⟩ := ihown hn
          exact ⟨k, List.mem_cons_self, .head hm hway⟩
      · obtain ⟨m, hm, hway⟩ := ihrest hn
        exact ⟨m, List.mem_cons_of_mem _ hm, hway⟩

end Lists

/-! ## The loop follows the rules -/

/-- The lists of a stack of successors, innermost first, are made one behind the other. -/
inductive ListsAll (edges : List Edge) :
    (stack : List (List Node)) → (seen : List Node) → (lines : List Line) → Prop
  | done {seen : List Node} : ListsAll edges [] seen []
  | next {todo seen between : List Node} {stack : List (List Node)} {own lines : List Line}
      (hown : Lists edges todo seen own between) (hrest : ListsAll edges stack between lines) :
      ListsAll edges (todo :: stack) seen (own ++ lines)

namespace ListsAll

variable {edges : List Edge} {m : Node} {rest seen : List Node} {stack : List (List Node)}
  {lines : List Line}

theorem known (hm : m ∈ seen) (h : ListsAll edges (rest :: stack) seen lines) :
    ListsAll edges ((m :: rest) :: stack) seen (.successor m :: lines) := by
  cases h with
  | next hown hrest => exact .next (.known hm hown) hrest

theorem new (hm : m ∉ seen)
    (h : ListsAll edges (successors edges m :: rest :: stack) (m :: seen) lines) :
    ListsAll edges ((m :: rest) :: stack) seen (.successor m :: .node m :: lines) := by
  cases h with
  | next hown h =>
      cases h with
      | next hrest hbelow =>
          rw [← List.append_assoc]
          exact .next (.new hm hown hrest) hbelow

end ListsAll

/-- A loop with steps enough for its effort lists the whole stack. -/
theorem listsAll_loop {edges : List Edge} {start : Node} (steps : Nat)
    (stack : List (Node × List Node)) (seen order : List Node)
    (h : Visiting edges start stack seen order) (hsteps : effort edges stack seen ≤ steps) :
    ListsAll edges (stack.map Prod.snd) seen (loop edges steps (stack.map Prod.snd) seen) := by
  fun_induction postorderLoop edges steps stack seen order with
  | case1 stack seen order =>
      cases stack with
      | nil => exact .done
      | cons p stack =>
          exfalso
          simp only [effort, stackEffort] at hsteps
          omega
  | case2 steps seen order => exact .done
  | case3 steps n stack seen order ih =>
      rw [effort_finish] at hsteps
      exact .next .done (ih h.finish (by omega))
  | case4 steps n m rest stack seen order hm ih =>
      rw [effort_skip] at hsteps
      rw [List.map_cons, loop, if_pos hm]
      exact (ih (h.skip hm) (by omega)).known hm
  | case5 steps n m rest stack seen order hm ih =>
      have hlead : Leads edges n m := h.todo _ List.mem_cons_self m List.mem_cons_self
      have hless := effort_push rest stack hlead hm
      rw [List.map_cons, loop, if_neg hm]
      exact (ih (h.push hm) (by omega)).new hm

theorem exists_lists_linesFrom (edges : List Edge) (start : Node) :
    ∃ lines seen, linesFrom edges start = .node start :: lines ∧
      Lists edges (successors edges start) [start] lines seen := by
  have hall : ListsAll edges [successors edges start] [start]
      (loop edges (2 * edges.length + 2) [successors edges start] [start]) :=
    listsAll_loop _ _ _ _ (Visiting.init edges start) (effort_init edges start)
  unfold linesFrom
  generalize loop edges (2 * edges.length + 2) [successors edges start] [start] = lines at hall ⊢
  cases hall with
  | next hown hrest =>
      cases hrest
      rw [List.append_nil]
      exact ⟨_, _, rfl, hown⟩

/-! ## Edges that leave listed nodes -/

/-- The successors of nodes without repetition are the ends of the edges that leave these nodes. -/
theorem flatMap_successors_perm (edges : List Edge) {nodes : List Node} (h : nodes.Nodup) :
    (nodes.flatMap (successors edges)).Perm
      ((edges.filter fun e => e.src ∈ nodes).map Edge.dst) := by
  induction nodes with
  | nil => simp
  | cons n nodes ih =>
      obtain ⟨hn, hnodup⟩ := List.nodup_cons.mp h
      -- the edges that leave `n` and those that leave the others, apart
      have hsplit := List.filter_append_perm (fun e : Edge => decide (e.src = n))
        (edges.filter fun e => e.src ∈ n :: nodes)
      have hhere : (edges.filter fun e => e.src ∈ n :: nodes).filter (fun e => e.src = n) =
          edges.filter fun e => e.src = n := by
        rw [List.filter_filter]
        refine List.filter_congr fun e _ => ?_
        by_cases he : e.src = n <;> simp [he]
      have hthere : (edges.filter fun e => e.src ∈ n :: nodes).filter
          (fun e => !decide (e.src = n)) = edges.filter fun e => e.src ∈ nodes := by
        rw [List.filter_filter]
        refine List.filter_congr fun e _ => ?_
        by_cases he : e.src = n
        · simp [he, hn]
        · simp [he]
      rw [hhere, hthere] at hsplit
      rw [List.flatMap_cons]
      refine ((ih hnodup).append_left _).trans ?_
      rw [successors, ← List.map_append]
      exact hsplit.map Edge.dst

/-! ## Lines as they are written -/

/-- The texts that begin with a mark. -/
def marked (mark : String) (texts : List String) : List String :=
  texts.filter fun text => mark.toList <+: text.toList

theorem marked_node (lines : List Line) :
    marked "Node:" (lines.map Line.text) = (listed lines).map fun n => "Node: " ++ n.stmt.text := by
  unfold marked
  fun_induction listed lines <;> simp_all [Line.text]

theorem marked_successor (lines : List Line) :
    marked "  Successor:" (lines.map Line.text) =
      (shown lines).map fun n => "  Successor: " ++ n.stmt.text := by
  unfold marked
  fun_induction shown lines <;> simp_all [Line.text]

end Listing

/-! ## The whole listing -/

namespace Flow

open Listing

/-- `f.ListedBy s lines`: the rules list the node `s` and all below it by `lines`. -/
def ListedBy (f : Flow) (s : Node) (lines : List Line) : Prop :=
  ∃ below seen, lines = .node s :: below ∧
    Lists f.edges (successors f.edges s) [s] below seen

variable {f : Flow} {s : Node} {lines : List Line}

theorem listedBy_listingLines (hs : f.start? = some s) : f.ListedBy s f.listingLines := by
  unfold listingLines
  rw [hs]
  exact exists_lists_linesFrom f.edges s

namespace ListedBy

theorem unique (h : f.ListedBy s lines) {lines' : List Line} (h' : f.ListedBy s lines') :
    lines = lines' := by
  obtain ⟨below, seen, rfl, hlists⟩ := h
  obtain ⟨below', seen', rfl, hlists'⟩ := h'
  rw [(hlists.unique hlists').1]

theorem nodup (h : f.ListedBy s lines) : (listed lines).Nodup := by
  obtain ⟨below, seen, rfl, hlists⟩ := h
  have hseen := hlists.nodup (List.nodup_singleton s)
  rw [hlists.seen_eq] at hseen
  rw [listed, ← List.nodup_reverse, List.reverse_cons]
  exact hseen

theorem shown_perm (h : f.ListedBy s lines) :
    (shown lines).Perm ((listed lines).flatMap (successors f.edges)) := by
  obtain ⟨below, seen, rfl, hlists⟩ := h
  exact hlists.shown_perm

theorem mem_listed (h : f.ListedBy s lines) (hs : f.start? = some s) {n : Node} :
    n ∈ listed lines ↔ f.Reaches n := by
  have hclosed : ∀ k ∈ listed lines, ∀ m, Leads f.edges k m → m ∈ shown lines :=
    fun k hk m hm => h.shown_perm.mem_iff.mpr (List.mem_flatMap.mpr ⟨k, hk, hm⟩)
  obtain ⟨below, seen, rfl, hlists⟩ := h
  refine mem_iff_reaches hs List.mem_cons_self ?_ ?_
  · intro k hk m hm
    have hseen := hlists.mem_seen (hclosed k hk m hm)
    rw [hlists.seen_eq] at hseen
    simpa [listed, or_comm] using hseen
  · intro k hk
    rcases List.mem_cons.mp hk with rfl | hk
    · exact .refl
    · obtain ⟨m, hm, hway⟩ := hlists.exists_reflTransGen hk
      exact .head hm hway

end ListedBy

end Flow

/-- **A listing has everything once, in depth-first order.** On every graph that has a start, with
cycles or without: the lines are those of the recursive listing, and no others; the lines that begin
with `Node:` are one for each node that control can get to; and those that begin with `  Successor:`
are one for each edge that leaves such a node. -/
theorem listing_depth_first (f : Flow) (s : Node) (hs : f.start? = some s) :
    let nodes := Listing.listed f.listingLines
    let leaving := f.edges.filter fun e => e.src ∈ nodes
    let texts := f.listingLines.map Listing.Line.text
    f.listing = "\n".intercalate texts ∧
    (∀ lines, f.ListedBy s lines ↔ lines = f.listingLines) ∧
    nodes.Nodup ∧ (∀ n, n ∈ nodes ↔ f.Reaches n) ∧
    Listing.marked "Node:" texts = nodes.map (fun n => "Node: " ++ n.stmt.text) ∧
    (Listing.shown f.listingLines).Perm (leaving.map Edge.dst) ∧
    (Listing.marked "  Successor:" texts).Perm
      (leaving.map fun e => "  Successor: " ++ e.dst.stmt.text) := by
  intro nodes leaving texts
  have h := Flow.listedBy_listingLines hs
  have hshown : (Listing.shown f.listingLines).Perm (leaving.map Edge.dst) :=
    h.shown_perm.trans (Listing.flatMap_successors_perm f.edges h.nodup)
  refine ⟨rfl, fun lines => ⟨fun hlines => hlines.unique h, fun hlines => hlines ▸ h⟩, h.nodup,
    fun n => h.mem_listed hs, Listing.marked_node _, hshown, ?_⟩
  rw [Listing.marked_successor]
  have htexts := hshown.map fun n => "  Successor: " ++ n.stmt.text
  rwa [List.map_map] at htexts

/-- A node with two ways to it, a cycle through the start, a node that leads to itself, and one that
control cannot get to. -/
def sharedAndCyclic : Flow :=
  let node : Nat → Node := fun id => ⟨0, id, .expression "f();" [] {}⟩
  { start? := some (node 0),
    edges := [(0, 2), (0, 1), (2, 1), (1, 1), (1, 0), (3, 2)].map fun e : Nat × Nat =>
      { src := node e.1, dst := node e.2 } }

theorem listing_depth_first_sharedAndCyclic :
    let start : Node := ⟨0, 0, .expression "f();" [] {}⟩
    let lines := sharedAndCyclic.listingLines
    sharedAndCyclic.start? = some start ∧ sharedAndCyclic.ListedBy start lines ∧
      (Listing.listed lines).map Node.id = [0, 2, 1] ∧
      (Listing.shown lines).map Node.id = [2, 1, 1, 0, 1] :=
  ⟨rfl, ((listing_depth_first sharedAndCyclic _ rfl).2.1 _).mpr rfl, by decide, by decide⟩

end NullSafety
