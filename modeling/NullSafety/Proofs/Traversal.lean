import Mathlib.Data.List.Induction
import Mathlib.Data.List.Nodup
import NullSafety.Proofs.Paths

/-!
# What the traversals visit

Both traversals list exactly the nodes that control can get to, each once. Where no such node lies
on a cycle, reverse postorder moreover lists every node before the nodes it leads to, which gives
an induction along control flow.

The loops count down steps. That they never run out is shown by an effort that each step lowers:
the work that is still open, and the edges whose ends have not been seen.
-/

namespace NullSafety

open Relation

namespace Traversal

/-! ## Edges with an unseen end -/

/-- How many edges have their end of the given side among the nodes not seen yet. -/
def unseenEnds (side : Edge → Node) (edges : List Edge) (seen : List Node) : Nat :=
  edges.countP fun e => side e ∉ seen

/-- Seeing a node takes exactly the edges that end there out of the count. -/
theorem unseenEnds_cons (side : Edge → Node) (edges : List Edge) {seen : List Node} {m : Node}
    (h : m ∉ seen) :
    unseenEnds side edges (m :: seen) + edges.countP (fun e => side e = m) =
      unseenEnds side edges seen := by
  unfold unseenEnds
  induction edges with
  | nil => rfl
  | cons e es ih =>
      rw [List.countP_cons, List.countP_cons, List.countP_cons]
      have hone : (if decide (side e ∉ m :: seen) = true then 1 else 0) +
          (if decide (side e = m) = true then 1 else 0) =
          if decide (side e ∉ seen) = true then 1 else 0 := by
        by_cases hm : side e = m
        · simp [hm, h]
        · simp [hm]
      omega

theorem unseenEnds_congr (side : Edge → Node) (edges : List Edge) {s t : List Node}
    (h : ∀ n, n ∈ s ↔ n ∈ t) : unseenEnds side edges s = unseenEnds side edges t := by
  unfold unseenEnds
  simp only [h]

theorem unseenEnds_le (side : Edge → Node) (edges : List Edge) (seen : List Node) :
    unseenEnds side edges seen ≤ edges.length :=
  List.countP_le_length

theorem length_successors (edges : List Edge) (n : Node) :
    (successors edges n).length = edges.countP fun e => e.src = n := by
  rw [successors, List.length_map, List.countP_eq_length_filter]

theorem countP_dst_pos {edges : List Edge} {m n : Node} (h : Leads edges n m) :
    0 < edges.countP fun e => e.dst = m := by
  obtain ⟨e, he, -, hd⟩ := mem_successors.mp h
  exact List.countP_pos_iff.mpr ⟨e, he, by simpa using hd⟩

/-! ## Depth first -/

/-- Every node of the list leads only to nodes that come after it. -/
def Ordered (edges : List Edge) : List Node → Prop
  | [] => True
  | n :: rest => (∀ m, Leads edges n m → m ∈ rest) ∧ Ordered edges rest

/-- The state of a depth-first visit. The nodes seen are those on the stack and those finished;
what a node on the stack leads to is still to be tried or has been seen, what a finished node leads
to has been seen, and every node on the stack was reached from those below it. -/
structure Visiting (edges : List Edge) (start : Node) (stack : List (Node × List Node))
    (seen order : List Node) : Prop where
  nodup : (stack.map Prod.fst ++ order).Nodup
  mem_seen : ∀ n, n ∈ seen ↔ n ∈ stack.map Prod.fst ∨ n ∈ order
  nested : (stack.map Prod.fst).Pairwise fun upper lower => TransGen (Leads edges) lower upper
  todo : ∀ p ∈ stack, ∀ m ∈ p.2, Leads edges p.1 m
  tried : ∀ p ∈ stack, ∀ m, Leads edges p.1 m → m ∈ p.2 ∨ m ∈ seen
  closed : ∀ n ∈ order, ∀ m, Leads edges n m → m ∈ seen
  start_seen : start ∈ seen
  reached : ∀ n ∈ seen, ReflTransGen (Leads edges) start n

/-- The steps for what is on the stack: one for each child that is left, and one to finish. -/
def stackEffort : List (Node × List Node) → Nat
  | [] => 0
  | (_, rest) :: stack => rest.length + 1 + stackEffort stack

/-- The steps that a depth-first visit may still take. -/
def effort (edges : List Edge) (stack : List (Node × List Node)) (seen : List Node) : Nat :=
  stackEffort stack + unseenEnds Edge.src edges seen + unseenEnds Edge.dst edges seen

namespace Visiting

variable {edges : List Edge} {start n m : Node} {rest : List Node}
  {stack : List (Node × List Node)} {seen order : List Node}

theorem init (edges : List Edge) (start : Node) :
    Visiting edges start [(start, successors edges start)] [start] [] where
  nodup := by simp
  mem_seen := by simp
  nested := by simp
  todo := by
    intro p hp m hm
    rw [List.mem_singleton] at hp
    subst hp
    exact hm
  tried := by
    intro p hp m hm
    rw [List.mem_singleton] at hp
    subst hp
    exact Or.inl hm
  closed := by simp
  start_seen := by simp
  reached := by
    intro n hn
    rw [List.mem_singleton] at hn
    subst hn
    exact .refl

/-- A node with nothing left to try is finished. -/
theorem finish (h : Visiting edges start ((n, []) :: stack) seen order) :
    Visiting edges start stack seen (n :: order) where
  nodup := List.nodup_middle.mpr h.nodup
  mem_seen := by
    intro k
    rw [h.mem_seen, List.map_cons, List.mem_cons, List.mem_cons]
    constructor
    · rintro ((hk | hk) | hk)
      · exact Or.inr (Or.inl hk)
      · exact Or.inl hk
      · exact Or.inr (Or.inr hk)
    · rintro (hk | hk | hk)
      · exact Or.inl (Or.inr hk)
      · exact Or.inl (Or.inl hk)
      · exact Or.inr hk
  nested := (List.pairwise_cons.mp h.nested).2
  todo := fun p hp => h.todo p (List.mem_cons_of_mem _ hp)
  tried := fun p hp => h.tried p (List.mem_cons_of_mem _ hp)
  closed := by
    intro k hk m hm
    rcases List.mem_cons.mp hk with rfl | hk
    · rcases h.tried (k, []) List.mem_cons_self m hm with hm' | hm'
      · exact absurd hm' List.not_mem_nil
      · exact hm'
    · exact h.closed k hk m hm
  start_seen := h.start_seen
  reached := h.reached

/-- A node seen before is passed over. -/
theorem skip (h : Visiting edges start ((n, m :: rest) :: stack) seen order) (hm : m ∈ seen) :
    Visiting edges start ((n, rest) :: stack) seen order where
  nodup := h.nodup
  mem_seen := h.mem_seen
  nested := h.nested
  todo := by
    intro p hp k hk
    rcases List.mem_cons.mp hp with rfl | hp
    · exact h.todo (n, m :: rest) List.mem_cons_self k (List.mem_cons_of_mem _ hk)
    · exact h.todo p (List.mem_cons_of_mem _ hp) k hk
  tried := by
    intro p hp k hk
    rcases List.mem_cons.mp hp with rfl | hp
    · rcases h.tried (n, m :: rest) List.mem_cons_self k hk with hk' | hk'
      · rcases List.mem_cons.mp hk' with rfl | hk'
        · exact Or.inr hm
        · exact Or.inl hk'
      · exact Or.inr hk'
    · exact h.tried p (List.mem_cons_of_mem _ hp) k hk
  closed := h.closed
  start_seen := h.start_seen
  reached := h.reached

/-- A new node goes on top of the stack. -/
theorem push (h : Visiting edges start ((n, m :: rest) :: stack) seen order) (hm : m ∉ seen) :
    Visiting edges start ((m, successors edges m) :: (n, rest) :: stack) (m :: seen) order := by
  have hlead : Leads edges n m := h.todo _ List.mem_cons_self m List.mem_cons_self
  have hnew : m ∉ ((n, rest) :: stack).map Prod.fst ++ order := by
    intro hmem
    rw [List.mem_append] at hmem
    exact hm ((h.mem_seen m).mpr hmem)
  refine ⟨List.nodup_cons.mpr ⟨hnew, h.nodup⟩, ?_, ?_, ?_, ?_, ?_, ?_, ?_⟩
  · intro k
    rw [List.mem_cons, h.mem_seen]
    simp only [List.map_cons, List.mem_cons, or_assoc]
  · refine List.pairwise_cons.mpr ⟨?_, h.nested⟩
    intro k hk
    rcases List.mem_cons.mp hk with rfl | hk
    · exact .single hlead
    · exact ((List.pairwise_cons.mp h.nested).1 k hk).tail hlead
  · intro p hp k hk
    rcases List.mem_cons.mp hp with rfl | hp
    · exact hk
    · rcases List.mem_cons.mp hp with rfl | hp
      · exact h.todo (n, m :: rest) List.mem_cons_self k (List.mem_cons_of_mem _ hk)
      · exact h.todo p (List.mem_cons_of_mem _ hp) k hk
  · intro p hp k hk
    rcases List.mem_cons.mp hp with rfl | hp
    · exact Or.inl hk
    · rcases List.mem_cons.mp hp with rfl | hp
      · rcases h.tried (n, m :: rest) List.mem_cons_self k hk with hk' | hk'
        · rcases List.mem_cons.mp hk' with rfl | hk'
          · exact Or.inr List.mem_cons_self
          · exact Or.inl hk'
        · exact Or.inr (List.mem_cons_of_mem _ hk')
      · exact (h.tried p (List.mem_cons_of_mem _ hp) k hk).imp_right (List.mem_cons_of_mem _)
  · intro k hk l hl
    exact List.mem_cons_of_mem _ (h.closed k hk l hl)
  · exact List.mem_cons_of_mem _ h.start_seen
  · intro k hk
    rcases List.mem_cons.mp hk with rfl | hk
    · have hn : n ∈ seen := (h.mem_seen n).mpr (Or.inl List.mem_cons_self)
      exact (h.reached n hn).tail hlead
    · exact h.reached k hk

/-- Without cycles, what a node leads to is finished when the node is: a node still on the stack
would lead back to it. -/
theorem ordered_finish (h : Visiting edges start ((n, []) :: stack) seen order)
    (hacyclic : ∀ k, ReflTransGen (Leads edges) start k → ¬ TransGen (Leads edges) k k)
    (hord : Ordered edges order) : Ordered edges (n :: order) := by
  refine ⟨?_, hord⟩
  intro m hm
  have hn : n ∈ seen := (h.mem_seen n).mpr (Or.inl List.mem_cons_self)
  have hseen : m ∈ seen := by
    rcases h.tried _ List.mem_cons_self m hm with hm' | hm'
    · exact absurd hm' List.not_mem_nil
    · exact hm'
  rcases (h.mem_seen m).mp hseen with hstack | horder
  · exfalso
    refine hacyclic n (h.reached n hn) ?_
    rcases List.mem_cons.mp hstack with rfl | hbelow
    · exact .single hm
    · exact ((List.pairwise_cons.mp h.nested).1 m hbelow).head hm
  · exact horder

end Visiting

theorem effort_finish (edges : List Edge) (n : Node) (stack : List (Node × List Node))
    (seen : List Node) : effort edges ((n, []) :: stack) seen = effort edges stack seen + 1 := by
  simp only [effort, stackEffort, List.length_nil]
  omega

theorem effort_skip (edges : List Edge) (n m : Node) (rest : List Node)
    (stack : List (Node × List Node)) (seen : List Node) :
    effort edges ((n, m :: rest) :: stack) seen = effort edges ((n, rest) :: stack) seen + 1 := by
  simp only [effort, stackEffort, List.length_cons]
  omega

/-- Pushing a node opens as many tries as it takes edges from unseen nodes out of the count, and
the edge along which it was found is no longer one into an unseen node. -/
theorem effort_push {edges : List Edge} {n m : Node} {seen : List Node} (rest : List Node)
    (stack : List (Node × List Node)) (hlead : Leads edges n m) (hm : m ∉ seen) :
    effort edges ((m, successors edges m) :: (n, rest) :: stack) (m :: seen) + 1 ≤
      effort edges ((n, m :: rest) :: stack) seen := by
  have hsrc := unseenEnds_cons Edge.src edges hm
  have hdst := unseenEnds_cons Edge.dst edges hm
  have hpos := countP_dst_pos hlead
  simp only [effort, stackEffort, List.length_cons, length_successors]
  omega

/-- A visit with steps enough for its effort ends with nothing on the stack. -/
theorem Visiting.run {edges : List Edge} {start : Node} (steps : Nat)
    (stack : List (Node × List Node)) (seen order : List Node)
    (h : Visiting edges start stack seen order) (hsteps : effort edges stack seen ≤ steps) :
    ∃ seen', Visiting edges start [] seen' (postorderLoop edges steps stack seen order) ∧
      ((∀ k, ReflTransGen (Leads edges) start k → ¬ TransGen (Leads edges) k k) →
        Ordered edges order → Ordered edges (postorderLoop edges steps stack seen order)) := by
  fun_induction postorderLoop edges steps stack seen order with
  | case1 stack seen order =>
      cases stack with
      | nil => exact ⟨seen, h, fun _ hord => hord⟩
      | cons p stack =>
          exfalso
          simp only [effort, stackEffort] at hsteps
          omega
  | case2 seen order => exact ⟨seen, h, fun _ hord => hord⟩
  | case3 steps n stack seen order ih =>
      rw [effort_finish] at hsteps
      obtain ⟨seen', hv, hord'⟩ := ih h.finish (by omega)
      exact ⟨seen', hv, fun hacyclic hord => hord' hacyclic (h.ordered_finish hacyclic hord)⟩
  | case4 steps n m rest stack seen order hm ih =>
      rw [effort_skip] at hsteps
      exact ih (h.skip hm) (by omega)
  | case5 steps n m rest stack seen order hm ih =>
      have hlead : Leads edges n m := h.todo _ List.mem_cons_self m List.mem_cons_self
      have hless := effort_push rest stack hlead hm
      exact ih (h.push hm) (by omega)

theorem effort_init (edges : List Edge) (start : Node) :
    effort edges [(start, successors edges start)] [start] ≤ 2 * edges.length + 2 := by
  have hsrc := unseenEnds_cons Edge.src edges (List.not_mem_nil (a := start))
  have hsrc' := unseenEnds_le Edge.src edges []
  have hdst := unseenEnds_le Edge.dst edges [start]
  simp only [effort, stackEffort, length_successors]
  omega

/-- The depth-first visit from a node, when it has ended. -/
theorem visiting_reversePostorder (edges : List Edge) (start : Node) :
    ∃ seen, Visiting edges start [] seen (reversePostorder edges start) ∧
      ((∀ k, ReflTransGen (Leads edges) start k → ¬ TransGen (Leads edges) k k) →
        Ordered edges (reversePostorder edges start)) := by
  obtain ⟨seen, hv, hord⟩ :=
    (Visiting.init edges start).run _ _ _ _ (effort_init edges start)
  exact ⟨seen, hv, fun hacyclic => hord hacyclic trivial⟩

/-! ## Breadth first -/

theorem mem_unseen {seen ns : List Node} {k : Node} :
    k ∈ unseen seen ns ↔ k ∈ ns ∧ k ∉ seen := by
  induction ns generalizing seen with
  | nil => simp [unseen]
  | cons n ns ih =>
      rw [unseen]
      by_cases hn : n ∈ seen
      · rw [if_pos hn, ih, List.mem_cons]
        constructor
        · rintro ⟨hk, hs⟩
          exact ⟨Or.inr hk, hs⟩
        · rintro ⟨rfl | hk, hs⟩
          · exact absurd hn hs
          · exact ⟨hk, hs⟩
      · rw [if_neg hn, List.mem_cons, ih, List.mem_cons, List.mem_cons, not_or]
        constructor
        · rintro (rfl | ⟨hk, -, hs⟩)
          · exact ⟨Or.inl rfl, hn⟩
          · exact ⟨Or.inr hk, hs⟩
        · rintro ⟨hk, hs⟩
          by_cases he : k = n
          · exact Or.inl he
          · exact Or.inr ⟨hk.resolve_left he, he, hs⟩

theorem nodup_unseen (seen ns : List Node) : (unseen seen ns).Nodup := by
  induction ns generalizing seen with
  | nil => exact List.nodup_nil
  | cons n ns ih =>
      rw [unseen]
      split
      · exact ih seen
      · refine List.nodup_cons.mpr ⟨?_, ih _⟩
        rw [mem_unseen]
        exact fun hn => hn.2 List.mem_cons_self

/-- Every node newly found takes an edge into an unseen node out of the count. -/
theorem length_add_unseenEnds_le {edges : List Edge} {found seen : List Node}
    (hnodup : found.Nodup) (hnew : ∀ m ∈ found, m ∉ seen)
    (hlead : ∀ m ∈ found, ∃ n, Leads edges n m) :
    found.length + unseenEnds Edge.dst edges (seen ++ found) ≤
      unseenEnds Edge.dst edges seen := by
  induction found generalizing seen with
  | nil => simp
  | cons m ms ih =>
      obtain ⟨hm, hms⟩ := List.nodup_cons.mp hnodup
      obtain ⟨n, hn⟩ := hlead m List.mem_cons_self
      have hcons := unseenEnds_cons Edge.dst edges (hnew m List.mem_cons_self)
      have hpos := countP_dst_pos hn
      have hrest : ms.length + unseenEnds Edge.dst edges (m :: seen ++ ms) ≤
          unseenEnds Edge.dst edges (m :: seen) := by
        refine ih hms ?_ fun k hk => hlead k (List.mem_cons_of_mem _ hk)
        intro k hk
        exact List.not_mem_cons_of_ne_of_not_mem (fun he => hm (he ▸ hk))
          (hnew k (List.mem_cons_of_mem _ hk))
      have hsame : unseenEnds Edge.dst edges (seen ++ m :: ms) =
          unseenEnds Edge.dst edges (m :: seen ++ ms) := by
        apply unseenEnds_congr
        intro k
        simp only [List.mem_append, List.mem_cons]
        exact ⟨by rintro (h | h | h) <;> simp [h], by rintro ((h | h) | h) <;> simp [h]⟩
      rw [hsame, List.length_cons]
      omega

/-- Taking a node from the queue costs a step, and what it adds to the queue is paid for by edges
whose ends have now been seen. -/
theorem effort_take (edges : List Edge) (n : Node) (queue seen : List Node) :
    (queue ++ unseen seen (successors edges n)).length +
        unseenEnds Edge.dst edges (seen ++ unseen seen (successors edges n)) + 1 ≤
      (n :: queue).length + unseenEnds Edge.dst edges seen := by
  have hfound := length_add_unseenEnds_le (nodup_unseen seen (successors edges n))
    (fun m hm => (mem_unseen.mp hm).2) (fun m hm => ⟨n, (mem_unseen.mp hm).1⟩)
  rw [List.length_append, List.length_cons]
  omega

/-- The state of a breadth-first visit: the nodes seen are those taken from the queue and those
still in it, and what a node taken leads to has been seen. -/
structure Spreading (edges : List Edge) (start : Node) (done queue seen : List Node) : Prop where
  seen_eq : seen = done ++ queue
  nodup : seen.Nodup
  closed : ∀ n ∈ done, ∀ m, Leads edges n m → m ∈ seen
  start_seen : start ∈ seen
  reached : ∀ n ∈ seen, ReflTransGen (Leads edges) start n

theorem Spreading.init (edges : List Edge) (start : Node) :
    Spreading edges start [] [start] [start] where
  seen_eq := rfl
  nodup := List.nodup_singleton start
  closed := by simp
  start_seen := List.mem_singleton_self start
  reached := by
    intro n hn
    rw [List.mem_singleton] at hn
    subst hn
    exact .refl

/-- Taking a node from the queue. -/
theorem Spreading.step {edges : List Edge} {start n : Node} {done queue seen : List Node}
    (h : Spreading edges start done (n :: queue) seen) :
    Spreading edges start (done ++ [n]) (queue ++ unseen seen (successors edges n))
      (seen ++ unseen seen (successors edges n)) := by
  have hn : n ∈ seen := by simp [h.seen_eq]
  refine ⟨by simp [h.seen_eq], ?_, ?_, List.mem_append_left _ h.start_seen, ?_⟩
  · refine List.nodup_append.mpr ⟨h.nodup, nodup_unseen _ _, ?_⟩
    intro a ha b hb hab
    subst hab
    exact (mem_unseen.mp hb).2 ha
  · intro k hk m hm
    rw [List.mem_append, mem_unseen]
    rcases List.mem_append.mp hk with hk | hk
    · exact Or.inl (h.closed k hk m hm)
    · rw [List.mem_singleton] at hk
      subst hk
      by_cases hs : m ∈ seen
      · exact Or.inl hs
      · exact Or.inr ⟨hm, hs⟩
  · intro k hk
    rcases List.mem_append.mp hk with hk | hk
    · exact h.reached k hk
    · exact (h.reached n hn).tail (mem_unseen.mp hk).1

theorem Spreading.run {edges : List Edge} {start : Node} (steps : Nat)
    (done queue seen : List Node) (h : Spreading edges start done queue seen)
    (hsteps : queue.length + unseenEnds Edge.dst edges seen ≤ steps) :
    Spreading edges start (done ++ breadthLoop edges steps queue seen) []
      (done ++ breadthLoop edges steps queue seen) := by
  fun_induction breadthLoop edges steps queue seen generalizing done with
  | case1 queue seen =>
      have hq : queue = [] := List.eq_nil_of_length_eq_zero (by omega)
      subst hq
      have he := h.seen_eq
      rw [List.append_nil] at he ⊢
      exact he ▸ h
  | case2 steps seen =>
      have he := h.seen_eq
      rw [List.append_nil] at he ⊢
      exact he ▸ h
  | case3 steps n queue seen found ih =>
      have hless := Nat.le_trans (effort_take edges n queue seen) hsteps
      have := ih (done ++ [n]) h.step (Nat.le_of_succ_le_succ hless)
      rwa [List.append_assoc] at this

theorem spreading_breadthFirst (edges : List Edge) (start : Node) :
    Spreading edges start (breadthFirst edges start) [] (breadthFirst edges start) := by
  have hle := unseenEnds_le Edge.dst edges [start]
  exact (Spreading.init edges start).run (edges.length + 1) _ _ _
    (by rw [List.length_singleton]; omega)

end Traversal

/-! ## What control can get to -/

namespace Flow

open Traversal

variable {f : Flow} {m n : Node}

theorem nodup_reversePostorder (f : Flow) : f.reversePostorder.Nodup := by
  unfold reversePostorder
  split
  · exact List.nodup_nil
  · obtain ⟨seen, hv, -⟩ := visiting_reversePostorder f.edges _
    exact hv.nodup

/-- A closed list that holds the start and only what can be reached from it is the list of all that
can be reached. -/
theorem mem_iff_reaches {s : Node} {nodes : List Node} (hs : f.start? = some s)
    (hstart : s ∈ nodes) (hclosed : ∀ k ∈ nodes, ∀ m, Leads f.edges k m → m ∈ nodes)
    (hreached : ∀ k ∈ nodes, ReflTransGen (Leads f.edges) s k) : n ∈ nodes ↔ f.Reaches n := by
  rw [reaches_iff]
  constructor
  · intro hn
    exact ⟨s, hs, hreached n hn⟩
  · rintro ⟨s', hs', hr⟩
    have he : s = s' := Option.some.inj (hs.symm.trans hs')
    subst he
    induction hr with
    | refl => exact hstart
    | tail _ hn ih => exact hclosed _ ih _ hn

theorem mem_reversePostorder : n ∈ f.reversePostorder ↔ f.Reaches n := by
  unfold reversePostorder
  split
  · rename_i hs
    simp [reaches_iff, hs]
  · rename_i s hs
    obtain ⟨seen, hv, -⟩ := visiting_reversePostorder f.edges s
    have hsame : ∀ k, k ∈ Traversal.reversePostorder f.edges s ↔ k ∈ seen := by
      intro k
      rw [hv.mem_seen]
      simp
    refine mem_iff_reaches hs ((hsame s).mpr hv.start_seen) ?_ ?_
    · intro k hk m hm
      exact (hsame m).mpr (hv.closed k hk m hm)
    · intro k hk
      exact hv.reached k ((hsame k).mp hk)

theorem ordered_reversePostorder (h : f.Acyclic) : Ordered f.edges f.reversePostorder := by
  unfold reversePostorder
  split
  · trivial
  · rename_i s hs
    obtain ⟨seen, -, hord⟩ := visiting_reversePostorder f.edges s
    exact hord fun k hk => h k (reaches_iff.mpr ⟨s, hs, hk⟩)

theorem nodup_breadthFirst (f : Flow) : f.breadthFirst.Nodup := by
  unfold breadthFirst
  split
  · exact List.nodup_nil
  · exact (spreading_breadthFirst f.edges _).nodup

theorem mem_breadthFirst : n ∈ f.breadthFirst ↔ f.Reaches n := by
  unfold breadthFirst
  split
  · rename_i hs
    simp [reaches_iff, hs]
  · rename_i s hs
    have h := spreading_breadthFirst f.edges s
    exact mem_iff_reaches hs h.start_seen h.closed h.reached

end Flow

/-! ## Induction along control flow -/

namespace Traversal

theorem Ordered.mem_of_leads {edges : List Edge} {nodes : List Node} {n p : Node}
    (h : Ordered edges nodes) (hp : p ∈ nodes) (hlead : Leads edges p n) : n ∈ nodes := by
  induction nodes with
  | nil => exact absurd hp List.not_mem_nil
  | cons k nodes ih =>
      rcases List.mem_cons.mp hp with rfl | hp
      · exact List.mem_cons_of_mem _ (h.1 _ hlead)
      · exact List.mem_cons_of_mem _ (ih h.2 hp)

/-- In an ordered list without repetition, what leads to a node stands before it. -/
theorem Ordered.mem_left {edges : List Edge} {left right : List Node} {n p : Node}
    (h : Ordered edges (left ++ n :: right)) (hnodup : (left ++ n :: right).Nodup)
    (hp : p ∈ left ++ n :: right) (hlead : Leads edges p n) : p ∈ left := by
  induction left with
  | nil =>
      -- `p` is `n` or comes after it, and either way `n` would come again after `p`
      exfalso
      obtain ⟨hn, -⟩ := List.nodup_cons.mp hnodup
      rcases List.mem_cons.mp hp with rfl | hp
      · exact hn (h.1 _ hlead)
      · exact hn (h.2.mem_of_leads hp hlead)
  | cons k left ih =>
      rcases List.mem_cons.mp hp with rfl | hp
      · exact List.mem_cons_self
      · exact List.mem_cons_of_mem _ (ih h.2 (List.nodup_cons.mp hnodup).2 hp)

/-- The last node of an ordered list leads nowhere. -/
theorem Ordered.not_leads_last {edges : List Edge} {left : List Node} {n m : Node}
    (h : Ordered edges (left ++ [n])) : ¬ Leads edges n m := by
  induction left with
  | nil => exact fun hlead => absurd (h.1 m hlead) List.not_mem_nil
  | cons k left ih => exact ih h.2

end Traversal

/-- Induction along control flow: what holds of a node whenever it holds of all nodes that lead to
it holds of every node that control can get to. -/
theorem Flow.Acyclic.induction {f : Flow} {P : Node → Prop} (h : f.Acyclic)
    (step : ∀ n, f.Reaches n → (∀ p, f.Reaches p → Leads f.edges p n → P p) → P n) :
    ∀ n, f.Reaches n → P n := by
  have hord := Flow.ordered_reversePostorder h
  have hnodup := Flow.nodup_reversePostorder f
  -- every initial part of the order has the property
  suffices hleft : ∀ left right, f.reversePostorder = left ++ right → ∀ n ∈ left, P n by
    intro n hn
    exact hleft _ [] (List.append_nil _).symm n (Flow.mem_reversePostorder.mpr hn)
  intro left
  induction left using List.reverseRecOn with
  | nil =>
      intro right _ n hn
      exact absurd hn List.not_mem_nil
  | append_singleton left k ih =>
      intro right hsplit n hn
      rw [List.append_assoc, List.singleton_append] at hsplit
      rcases List.mem_append.mp hn with hn | hn
      · exact ih _ hsplit n hn
      · rw [List.mem_singleton] at hn
        subst hn
        have hreach : f.Reaches n := Flow.mem_reversePostorder.mp (by simp [hsplit])
        refine step n hreach ?_
        intro p hp hlead
        have hmem : p ∈ left ++ n :: right := hsplit ▸ Flow.mem_reversePostorder.mpr hp
        exact ih _ hsplit p ((hsplit ▸ hord).mem_left (hsplit ▸ hnodup) hmem hlead)

/-! ## Positions in reverse postorder -/

namespace Traversal

/-- What a node of an ordered list leads to stands after it. -/
theorem Ordered.mem_right {edges : List Edge} {left right : List Node} {n m : Node}
    (h : Ordered edges (left ++ n :: right)) (hlead : Leads edges n m) : m ∈ right := by
  induction left with
  | nil => exact h.1 m hlead
  | cons k left ih => exact ih h.2

end Traversal

namespace Flow

/-- Where every edge that control can take raises a rank, control runs in no cycle. -/
theorem acyclic_of_rank {f : Flow} (rank : Node → Nat)
    (h : ∀ u v, f.Reaches u → Leads f.edges u v → rank u < rank v) : f.Acyclic := by
  intro n hn hcycle
  suffices hraised : ∀ m, TransGen (Leads f.edges) n m → f.Reaches m ∧ rank n < rank m from
    Nat.lt_irrefl _ (hraised n hcycle).2
  intro m hm
  induction hm with
  | single hlead => exact ⟨hn.next hlead, h n _ hn hlead⟩
  | tail _ hlead ih => exact ⟨ih.1.next hlead, Nat.lt_trans ih.2 (h _ _ ih.1 hlead)⟩

theorem getElem?_reversePostorder_iff {f : Flow} {n : Node} {i : Nat}
    (h : f.reversePostorder[i]? = some n) (k : Nat) :
    f.reversePostorder[k]? = some n ↔ k = i := by
  obtain ⟨hlt, -⟩ := List.getElem?_eq_some_iff.mp h
  constructor
  · intro hk
    exact ((List.getElem?_inj hlt f.nodup_reversePostorder).mp (h.trans hk.symm)).symm
  · rintro rfl
    exact h

end Flow

/-- **Reverse postorder is a topological order, exactly where control runs in no cycle.** Whatever
the edges and in whatever order they were added: each node that control can get to and each node
it leads to stand in the list once, the second strictly behind the first. -/
theorem reversePostorder_topological (f : Flow) :
    f.Acyclic ↔ ∀ u v, f.Reaches u → v ∈ successors f.edges u →
      ∃ i j : Nat, i < j ∧ (∀ k : Nat, f.reversePostorder[k]? = some u ↔ k = i) ∧
        ∀ k : Nat, f.reversePostorder[k]? = some v ↔ k = j := by
  constructor
  · intro h u v hu huv
    have hord := Flow.ordered_reversePostorder h
    obtain ⟨left, right, hsplit⟩ := List.append_of_mem (Flow.mem_reversePostorder.mpr hu)
    obtain ⟨between, after, hbehind⟩ := List.append_of_mem ((hsplit ▸ hord).mem_right huv)
    refine ⟨left.length, left.length + (between.length + 1), by omega,
      Flow.getElem?_reversePostorder_iff ?_, Flow.getElem?_reversePostorder_iff ?_⟩
    · rw [hsplit, List.getElem?_append_right (Nat.le_refl _), Nat.sub_self]
      rfl
    · rw [hsplit, hbehind, List.getElem?_append_right (Nat.le_add_right _ _),
        Nat.add_sub_cancel_left, List.getElem?_cons_succ,
        List.getElem?_append_right (Nat.le_refl _), Nat.sub_self]
      rfl
  · -- the position in the list is a rank
    intro h
    have hposition : ∀ {n : Node}, f.Reaches n →
        f.reversePostorder[f.reversePostorder.idxOf n]? = some n :=
      fun hn => List.getElem?_idxOf (Flow.mem_reversePostorder.mpr hn)
    refine Flow.acyclic_of_rank f.reversePostorder.idxOf ?_
    intro u v hu huv
    obtain ⟨i, j, hij, hi, hj⟩ := h u v hu huv
    rwa [(hi _).mp (hposition hu), (hj _).mp (hposition (hu.next huv))]

/-- Three ways from the first node to the last, the shortest one added first, and a cycle where
control never comes. -/
def shortcutFirst : Flow :=
  let node : Nat → Node := fun id => ⟨0, id, .expression "f();" [] {}⟩
  { start? := some (node 0),
    edges := [(0, 3), (0, 2), (0, 1), (1, 2), (2, 3), (4, 0), (4, 4)].map fun e : Nat × Nat =>
      { src := node e.1, dst := node e.2 } }

theorem reversePostorder_topological_shortcutFirst :
    let first : Node := ⟨0, 0, .expression "f();" [] {}⟩
    let last : Node := ⟨0, 3, .expression "f();" [] {}⟩
    shortcutFirst.Acyclic ∧ shortcutFirst.Reaches first ∧
      last ∈ successors shortcutFirst.edges first ∧
      ∃ i j : Nat, i < j ∧ (∀ k : Nat, shortcutFirst.reversePostorder[k]? = some first ↔ k = i) ∧
        ∀ k : Nat, shortcutFirst.reversePostorder[k]? = some last ↔ k = j := by
  intro first last
  have hraised : ∀ u ∈ shortcutFirst.reversePostorder,
      ∀ v ∈ successors shortcutFirst.edges u, u.id < v.id := by decide
  have hacyclic : shortcutFirst.Acyclic := Flow.acyclic_of_rank Node.id fun u v hu huv =>
    hraised u (Flow.mem_reversePostorder.mpr hu) v huv
  have hreach : shortcutFirst.Reaches first := Flow.reaches_start rfl
  have hlead : last ∈ successors shortcutFirst.edges first := by decide
  exact ⟨hacyclic, hreach, hlead,
    (reversePostorder_topological shortcutFirst).mp hacyclic first last hreach hlead⟩

end NullSafety
