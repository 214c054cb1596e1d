import Mathlib.Data.Nat.Find
import Mathlib.Data.Prod.Lex
import Mathlib.Order.WellFounded
import NullSafety.Proofs.Exploration

/-!
# The order of a breadth-first visit

A breadth-first visit lists a node where it first occurs among the start and the successors of the
nodes listed, in their order. This equation alone, in which no queue is left, gives the order:
nodes come nearest first, and nodes equally far from the start in the order in which the nodes one
step nearer found them.
-/

namespace NullSafety

namespace Traversal

/-! ## First occurrences -/

theorem unseen_congr {s t : List Node} (h : ∀ n, n ∈ s ↔ n ∈ t) (ns : List Node) :
    unseen s ns = unseen t ns := by
  induction ns generalizing s t with
  | nil => rfl
  | cons n ns ih =>
      have hcons : ∀ k, k ∈ n :: s ↔ k ∈ n :: t := by
        intro k
        rw [List.mem_cons, List.mem_cons, h]
      simp only [unseen, h n, ih h, ih hcons]

theorem unseen_append (seen ns ms : List Node) :
    unseen seen (ns ++ ms) = unseen seen ns ++ unseen (ns ++ seen) ms := by
  induction ns generalizing seen with
  | nil => rfl
  | cons n ns ih =>
      rw [List.cons_append, unseen, unseen]
      split
      · rename_i hn
        rw [ih]
        refine congrArg _ (unseen_congr ?_ ms)
        intro k
        simp only [List.cons_append, List.mem_cons, List.mem_append]
        constructor
        · exact Or.inr
        · rintro (rfl | hk)
          · exact Or.inr hn
          · exact hk
      · rw [ih, List.cons_append]
        refine congrArg (_ :: _ ++ ·) (unseen_congr ?_ ms)
        intro k
        simp only [List.cons_append, List.mem_cons, List.mem_append]
        tauto

/-- Nodes newly seen come in the order of their first occurrences. -/
theorem pairwise_unseen (seen ns : List Node) :
    (unseen seen ns).Pairwise fun m n => ns.idxOf m < ns.idxOf n := by
  induction ns generalizing seen with
  | nil => exact .nil
  | cons k ns ih =>
      have hlater : ∀ {s : List Node}, k ∈ s → (unseen s ns).Pairwise fun m n =>
          (k :: ns).idxOf m < (k :: ns).idxOf n := by
        intro s hk
        refine (ih s).imp_of_mem ?_
        intro m n hm hn hlt
        have hne : ∀ {j : Node}, j ∈ unseen s ns → k ≠ j := by
          rintro j hj rfl
          exact (mem_unseen.mp hj).2 hk
        rw [List.idxOf_cons_ne _ (hne hm), List.idxOf_cons_ne _ (hne hn)]
        exact Nat.succ_lt_succ hlt
      rw [unseen]
      split
      · rename_i hk
        exact hlater hk
      · refine List.pairwise_cons.mpr ⟨?_, hlater List.mem_cons_self⟩
        intro n hn
        have hne : k ≠ n := by
          rintro rfl
          exact (mem_unseen.mp hn).2 List.mem_cons_self
        rw [List.idxOf_cons_self, List.idxOf_cons_ne _ hne]
        exact Nat.succ_pos _

/-- What holds of every two places of a list in order holds of two nodes by their places. -/
theorem of_idxOf_lt {R : Node → Node → Prop} {ns : List Node} (h : ns.Pairwise R) {m n : Node}
    (hn : n ∈ ns) (hlt : ns.idxOf m < ns.idxOf n) : R m n := by
  have hidx : ns.idxOf n < ns.length := List.idxOf_lt_length_of_mem hn
  have hget := List.pairwise_iff_getElem.mp h _ _ (Nat.lt_trans hlt hidx) hidx hlt
  rwa [List.getElem_idxOf, List.getElem_idxOf] at hget

theorem idxOf_unseen_lt {seen ns : List Node} {m n : Node} (hm : m ∈ unseen seen ns)
    (hlt : ns.idxOf m < ns.idxOf n) :
    (unseen seen ns).idxOf m < (unseen seen ns).idxOf n := by
  rcases Nat.lt_trichotomy ((unseen seen ns).idxOf m) ((unseen seen ns).idxOf n) with h | h | h
  · exact h
  · rw [(List.idxOf_inj hm).mp h] at hlt
    exact absurd hlt (Nat.lt_irrefl _)
  · exact absurd hlt (Nat.lt_asymm (of_idxOf_lt (pairwise_unseen seen ns) hm h))

theorem idxOf_append_lt {ms : List Node} {m n : Node} (hm : m ∈ ms) (hn : n ∉ ms)
    (ns : List Node) : (ms ++ ns).idxOf m < (ms ++ ns).idxOf n := by
  rw [List.idxOf_append_of_mem hm, List.idxOf_append_of_notMem hn]
  exact Nat.lt_add_right _ (List.idxOf_lt_length_of_mem hm)

/-- A node occurs in the lists of the nodes `ns` before another one if the node in whose list it is
found comes before the first one in whose list the other is found, or both are found in one list in
this order. -/
theorem idxOf_flatMap_lt {list : Node → List Node} {p q m n : Node} {ns : List Node}
    (hp : p ∈ ns) (hm : m ∈ list p) (hfirst : ∀ k ∈ ns, n ∈ list k → ns.idxOf q ≤ ns.idxOf k)
    (hlt : ns.idxOf p < ns.idxOf q ∨ (p = q ∧ (list p).idxOf m < (list p).idxOf n)) :
    (ns.flatMap list).idxOf m < (ns.flatMap list).idxOf n := by
  induction ns with
  | nil => cases hp
  | cons k ns ih =>
      have hone : n ∈ list k → k = q := by
        intro hn
        by_contra hne
        have hle := hfirst k List.mem_cons_self hn
        rw [List.idxOf_cons_self, List.idxOf_cons_ne _ hne] at hle
        exact Nat.not_succ_le_zero _ hle
      rw [List.flatMap_cons]
      by_cases hkp : k = p
      · subst hkp
        by_cases hn : n ∈ list k
        · rw [List.idxOf_append_of_mem hm, List.idxOf_append_of_mem hn]
          rcases hlt with hlt | ⟨-, hlt⟩
          · rw [hone hn] at hlt
            exact absurd hlt (Nat.lt_irrefl _)
          · exact hlt
        · exact idxOf_append_lt hm hn _
      · have hkq : k ≠ q := by
          rintro rfl
          rcases hlt with hlt | ⟨rfl, -⟩
          · rw [List.idxOf_cons_self] at hlt
            exact Nat.not_lt_zero _ hlt
          · exact hkp rfl
        have hn : n ∉ list k := fun hn => hkq (hone hn)
        by_cases hmk : m ∈ list k
        · exact idxOf_append_lt hmk hn _
        · rw [List.idxOf_append_of_notMem hmk, List.idxOf_append_of_notMem hn]
          rw [List.idxOf_cons_ne _ hkp, List.idxOf_cons_ne _ hkq] at hlt
          refine Nat.add_lt_add_left (ih (List.mem_of_ne_of_mem (Ne.symm hkp) hp) ?_ ?_) _
          · intro j hj hnj
            have hkj : k ≠ j := by
              rintro rfl
              exact hn hnj
            have hle := hfirst j (List.mem_cons_of_mem k hj) hnj
            rw [List.idxOf_cons_ne _ hkq, List.idxOf_cons_ne _ hkj] at hle
            exact Nat.le_of_succ_le_succ hle
          · exact hlt.imp_left Nat.lt_of_succ_lt_succ

/-! ## The list without a queue -/

/-- The nodes seen are the start and the successors of the nodes taken, each at its first place. -/
structure Breadth.Lists (edges : List Edge) (start : Node) (b : Breadth) : Prop where
  seen_eq : b.seen = b.taken ++ b.queue
  seen_eq_unseen : b.seen = unseen [] (start :: b.taken.flatMap (successors edges))

theorem Breadth.Lists.init (edges : List Edge) (start : Node) :
    Breadth.Lists edges start ⟨[], [start], [start]⟩ where
  seen_eq := rfl
  seen_eq_unseen := rfl

theorem Breadth.Lists.turn {edges : List Edge} {start : Node} {b b' : Breadth}
    (hturn : Breadth.turn edges b = some b') (h : b.Lists edges start) : b'.Lists edges start := by
  obtain ⟨taken, queue, seen⟩ := b
  rcases queue with _ | ⟨n, queue⟩
  · cases hturn
  · cases hturn
    obtain ⟨hseen, hunseen⟩ := h
    dsimp only at hseen hunseen
    constructor
    · simp [hseen]
    · have hmem : ∀ k, k ∈ seen ↔ k ∈ (start :: taken.flatMap (successors edges)) ++ [] := by
        intro k
        rw [hunseen, mem_unseen, List.append_nil]
        simp
      rw [List.flatMap_append, List.flatMap_singleton, ← List.cons_append, unseen_append,
        ← hunseen, unseen_congr hmem]

end Traversal

namespace Flow

open Traversal

variable {f : Flow}

/-- The nodes listed are the start and all successors of nodes listed, each at its first place. -/
theorem breadthFirst_eq_unseen {s : Node} (hs : f.start? = some s) :
    f.breadthFirst = unseen [] (s :: f.breadthFirst.flatMap (successors f.edges)) := by
  obtain ⟨seen, hends⟩ := f.explored.ends_breadthFirst s hs
  obtain ⟨hseen, hunseen⟩ :=
    hends.preserves (fun _ _ => Breadth.Lists.turn) (Breadth.Lists.init f.edges s)
  rw [List.append_nil] at hseen
  exact hseen.symm.trans hunseen

theorem head_breadthFirst {s : Node} (hs : f.start? = some s) :
    ∃ rest, f.breadthFirst = s :: rest := by
  rw [breadthFirst_eq_unseen hs]
  exact ⟨_, rfl⟩

/-- What a node listed leads to comes before `n` if the node comes before the first one that leads
to `n`, or is that one and has it as an earlier successor. -/
theorem idxOf_lt_of_found {p q m n : Node} (hp : p ∈ f.breadthFirst) (hm : Leads f.edges p m)
    (hstart : f.start? ≠ some n)
    (hfirst : ∀ k ∈ f.breadthFirst, Leads f.edges k n →
      f.breadthFirst.idxOf q ≤ f.breadthFirst.idxOf k)
    (hlt : f.breadthFirst.idxOf p < f.breadthFirst.idxOf q ∨
      (p = q ∧ (successors f.edges p).idxOf m < (successors f.edges p).idxOf n)) :
    f.breadthFirst.idxOf m < f.breadthFirst.idxOf n := by
  have hreach := mem_breadthFirst.mp hp
  obtain ⟨s, hs, -⟩ := reaches_iff.mp hreach
  have hflat := idxOf_flatMap_lt hp hm hfirst hlt
  have hplaces : (s :: f.breadthFirst.flatMap (successors f.edges)).idxOf m <
      (s :: f.breadthFirst.flatMap (successors f.edges)).idxOf n := by
    have hsn : s ≠ n := by
      rintro rfl
      exact hstart hs
    rw [List.idxOf_cons_ne _ hsn]
    by_cases hsm : s = m
    · rw [hsm, List.idxOf_cons_self]
      exact Nat.succ_pos _
    · rw [List.idxOf_cons_ne _ hsm]
      exact Nat.succ_lt_succ hflat
  have hm' : m ∈ f.breadthFirst := mem_breadthFirst.mpr (hreach.next hm)
  rw [breadthFirst_eq_unseen hs] at hm' ⊢
  exact idxOf_unseen_lt hm' hplaces

/-! ## Distances -/

/-- The shortest ways from the start to the node pass `d` nodes. -/
structure AtDistance (f : Flow) (d : Nat) (n : Node) : Prop where
  exists_path : ∃ before, f.Path before n ∧ before.length = d
  le_length : ∀ before, f.Path before n → d ≤ before.length

theorem exists_atDistance {n : Node} : (∃ d, f.AtDistance d n) ↔ f.Reaches n := by
  classical
  constructor
  · rintro ⟨d, ⟨before, hpath, -⟩, -⟩
    exact ⟨before, hpath⟩
  · rintro ⟨before, hpath⟩
    have hsome : ∃ d, ∃ before, f.Path before n ∧ before.length = d := ⟨_, before, hpath, rfl⟩
    refine ⟨Nat.find hsome, Nat.find_spec hsome, ?_⟩
    exact fun way hway => Nat.find_min' hsome ⟨way, hway, rfl⟩

namespace AtDistance

variable {c d : Nat} {m n : Node}

theorem unique (hc : f.AtDistance c n) (hd : f.AtDistance d n) : c = d := by
  obtain ⟨way, hway, rfl⟩ := hc.exists_path
  obtain ⟨way', hway', rfl⟩ := hd.exists_path
  exact Nat.le_antisymm (hc.le_length way' hway') (hd.le_length way hway)

theorem mem (h : f.AtDistance d n) : n ∈ f.breadthFirst :=
  mem_breadthFirst.mpr (exists_atDistance.mp ⟨d, h⟩)

/-- One step further is at most one further from the start. -/
theorem le_succ (hm : f.AtDistance c m) (hn : f.AtDistance d n) (hlead : Leads f.edges m n) :
    d ≤ c + 1 := by
  obtain ⟨way, hway, rfl⟩ := hm.exists_path
  exact (hn.le_length _ (.step hway hlead)).trans_eq List.length_append

theorem zero_iff : f.AtDistance 0 n ↔ f.start? = some n := by
  constructor
  · rintro ⟨⟨before, hpath, hlength⟩, -⟩
    rcases path_iff.mp hpath with ⟨-, hstart⟩ | ⟨passed, m, rfl, -, -⟩
    · exact hstart
    · simp at hlength
  · intro hstart
    exact ⟨⟨[], .start hstart, rfl⟩, fun _ _ => Nat.zero_le _⟩

theorem start_ne (h : f.AtDistance (d + 1) n) : f.start? ≠ some n := by
  intro hstart
  exact absurd (h.unique (zero_iff.mpr hstart)) (Nat.succ_ne_zero d)

/-- A shortest way to a node is a shortest way to the node before it, and one step. -/
theorem exists_pred (h : f.AtDistance (d + 1) n) : ∃ p, f.AtDistance d p ∧ Leads f.edges p n := by
  obtain ⟨before, hpath, hlength⟩ := h.exists_path
  rcases path_iff.mp hpath with ⟨rfl, -⟩ | ⟨passed, p, rfl, hpassed, hlead⟩
  · cases hlength
  · refine ⟨p, ⟨⟨passed, hpassed, ?_⟩, ?_⟩, hlead⟩
    · simpa using hlength
    · intro way hway
      simpa using h.le_length _ (.step hway hlead)

end AtDistance

/-- Among the nodes a way can come from, one is listed first. -/
theorem exists_first {P : Node → Prop} (h : ∃ p, P p) :
    ∃ p, P p ∧ ∀ q, P q → f.breadthFirst.idxOf p ≤ f.breadthFirst.idxOf q := by
  obtain ⟨p, hp, hmin⟩ := (measure f.breadthFirst.idxOf).wf.has_min {p | P p} h
  exact ⟨p, hp, fun q hq => Nat.le_of_not_lt (hmin q hq)⟩

/-- Nodes are listed nearest first. -/
theorem AtDistance.le_of_idxOf_le {d : Nat} {n : Node} (hn : f.AtDistance d n) {c : Nat} {m : Node}
    (hm : f.AtDistance c m) (hle : f.breadthFirst.idxOf m ≤ f.breadthFirst.idxOf n) : c ≤ d := by
  -- on how far the later node is: the first node that leads to `m` comes no later than the nodes
  -- one step nearer that lead to `n`
  induction d generalizing n c m with
  | zero =>
      have hs := AtDistance.zero_iff.mp hn
      obtain ⟨rest, hrest⟩ := head_breadthFirst hs
      have hzero : f.breadthFirst.idxOf n = 0 := by rw [hrest, List.idxOf_cons_self]
      have hsame : m = n := (List.idxOf_inj hm.mem).mp (by omega)
      rw [hsame] at hm
      exact Nat.le_of_eq (hm.unique hn)
  | succ d ih =>
      cases c with
      | zero => exact Nat.zero_le _
      | succ c =>
          obtain ⟨r, hr, hlead⟩ := hn.exists_pred
          obtain ⟨k, hk, hkm⟩ := hm.exists_pred
          obtain ⟨p, ⟨hp, hpm⟩, hfirst⟩ := exists_first (f := f)
            (P := fun p => p ∈ f.breadthFirst ∧ Leads f.edges p m) ⟨k, hk.mem, hkm⟩
          have hpr : f.breadthFirst.idxOf p ≤ f.breadthFirst.idxOf r := by
            by_contra hlater
            refine absurd ?_ (Nat.not_lt.mpr hle)
            exact idxOf_lt_of_found hr.mem hlead hm.start_ne (fun q hq hqm => hfirst q ⟨hq, hqm⟩)
              (Or.inl (Nat.lt_of_not_le hlater))
          obtain ⟨b, hb⟩ := exists_atDistance.mpr (mem_breadthFirst.mp hp)
          have hbd : b ≤ d := ih hr hb hpr
          have hcb : c + 1 ≤ b + 1 := hb.le_succ hm hpm
          omega

/-- The node listed first among those at the given distance that lead to a node. -/
structure Finder (f : Flow) (d : Nat) (p n : Node) : Prop where
  atDistance : f.AtDistance d p
  leads : Leads f.edges p n
  first : ∀ q, f.AtDistance d q → Leads f.edges q n →
    f.breadthFirst.idxOf p ≤ f.breadthFirst.idxOf q

namespace Finder

variable {d : Nat} {p q m n : Node}

theorem unique (hp : f.Finder d p n) (hq : f.Finder d q n) : p = q :=
  (List.idxOf_inj hp.atDistance.mem).mp
    (Nat.le_antisymm (hp.first q hq.atDistance hq.leads) (hq.first p hp.atDistance hp.leads))

/-- No node listed before leads to the node, however far it is. -/
theorem le_of_leads (h : f.Finder d p n) (hn : f.AtDistance (d + 1) n) (hq : q ∈ f.breadthFirst)
    (hlead : Leads f.edges q n) : f.breadthFirst.idxOf p ≤ f.breadthFirst.idxOf q := by
  obtain ⟨c, hc⟩ := exists_atDistance.mpr (mem_breadthFirst.mp hq)
  have hfar : d + 1 ≤ c + 1 := hc.le_succ hn hlead
  by_contra hbefore
  have hnear : c ≤ d := h.atDistance.le_of_idxOf_le hc (Nat.le_of_not_le hbefore)
  have hsame : c = d := by omega
  subst hsame
  exact hbefore (h.first q hc hlead)

theorem idxOf_lt (hp : f.Finder d p m) (hq : f.Finder d q n) (hn : f.AtDistance (d + 1) n)
    (hlt : toLex (f.breadthFirst.idxOf p, (successors f.edges p).idxOf m) <
      toLex (f.breadthFirst.idxOf q, (successors f.edges q).idxOf n)) :
    f.breadthFirst.idxOf m < f.breadthFirst.idxOf n := by
  refine idxOf_lt_of_found hp.atDistance.mem hp.leads hn.start_ne
    (fun k hk hlead => hq.le_of_leads hn hk hlead) ?_
  rcases Prod.Lex.toLex_lt_toLex.mp hlt with hlt | ⟨heq, hlt⟩
  · exact Or.inl hlt
  · have hsame : p = q := (List.idxOf_inj hp.atDistance.mem).mp heq
    subst hsame
    exact Or.inr ⟨rfl, hlt⟩

end Finder

end Flow

/-- **A breadth-first visit lists nodes nearest first, then as they are found.** On every graph,
with cycles or without: the nodes listed, each once, are those at some distance from the start;
distances never fall along the list; a node at distance `d + 1` has exactly one node that is listed
first among the nodes at distance `d` that lead to it; and two nodes at that distance are listed in
the order of these nodes, and of their places among the successors where it is the same one. -/
theorem breadthFirst_nearest_first (f : Flow) :
    f.breadthFirst.Nodup ∧ (∀ n, n ∈ f.breadthFirst ↔ ∃ d, f.AtDistance d n) ∧
    (f.breadthFirst.Pairwise fun m n => ∀ c d, f.AtDistance c m → f.AtDistance d n → c ≤ d) ∧
    ∀ d, (∀ n, f.AtDistance (d + 1) n → ∃! p, f.Finder d p n) ∧
      ∀ m n p q, f.AtDistance (d + 1) m → f.AtDistance (d + 1) n → f.Finder d p m →
        f.Finder d q n → (f.breadthFirst.idxOf m < f.breadthFirst.idxOf n ↔
          toLex (f.breadthFirst.idxOf p, (successors f.edges p).idxOf m) <
            toLex (f.breadthFirst.idxOf q, (successors f.edges q).idxOf n)) := by
  refine ⟨f.nodup_breadthFirst, fun n => ?_, ?_, fun d => ⟨?_, ?_⟩⟩
  · rw [Flow.exists_atDistance, Flow.mem_breadthFirst]
  · refine List.pairwise_iff_getElem.mpr ?_
    intro i j hi hj hij c d hc hd
    refine hd.le_of_idxOf_le hc ?_
    rw [f.nodup_breadthFirst.idxOf_getElem, f.nodup_breadthFirst.idxOf_getElem]
    exact Nat.le_of_lt hij
  · intro n hn
    obtain ⟨p, ⟨hp, hlead⟩, hfirst⟩ := Flow.exists_first (f := f)
      (P := fun p => f.AtDistance d p ∧ Leads f.edges p n) hn.exists_pred
    have hfinder : f.Finder d p n := ⟨hp, hlead, fun q hq hqn => hfirst q ⟨hq, hqn⟩⟩
    exact ⟨p, hfinder, fun q hq => hq.unique hfinder⟩
  · intro m n p q hm hn hp hq
    constructor
    · intro hlt
      by_contra hnot
      rcases lt_or_eq_of_le (not_lt.mp hnot) with hback | heq
      · exact Nat.lt_asymm hlt (hq.idxOf_lt hp hm hback)
      · obtain ⟨hfinders, hplaces⟩ := Prod.mk.inj (toLex_inj.mp heq)
        have hsame : q = p := (List.idxOf_inj hq.atDistance.mem).mp hfinders
        subst hsame
        have hone : n = m := (List.idxOf_inj hq.leads).mp hplaces
        subst hone
        exact Nat.lt_irrefl _ hlt
    · exact hp.idxOf_lt hq hn

-- node 3 is found by node 2 before node 4 is found by node 1, which has it as its first successor;
-- edges back to the start and across change nothing
example :
    let node : Nat → Node := fun id => ⟨0, id, .expression "f();" [] {}⟩
    let edges := [(0, 2), (0, 1), (1, 4), (1, 3), (2, 3), (3, 0), (4, 3)].map fun e : Nat × Nat =>
      ({ src := node e.1, dst := node e.2 } : Edge)
    let f : Flow := { start? := some (node 0), edges }
    f.breadthFirst.map Node.id = [0, 2, 1, 3, 4] := by
  decide

end NullSafety
