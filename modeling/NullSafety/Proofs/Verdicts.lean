import NullSafety.Check
import NullSafety.Proofs.BuilderGraph
import NullSafety.Proofs.Summary

/-!
# Verdicts and paths

What a check reports, measured by the paths of control. A dereference is reported exactly if the
pointer is null on some path to it, and then once. Where the verdict is that a pointer is null, and
not only that it may be, no path on which it is a pointer says otherwise.
-/

namespace NullSafety

/-- The state knows the variable as a pointer. -/
def State.TracksPointer (s : State) (x : String) : Prop :=
  ∃ v, s.get? x = some v ∧ v.isPointer = true

/-- The state knows the variable as a pointer that is null. -/
def State.TracksNull (s : State) (x : String) : Prop :=
  ∃ v, s.get? x = some v ∧ v.isPointer = true ∧ v.nullability = .null

/-- The finding is about the dereference of a variable at a node. -/
def Finding.isDereferenceAt (finding : Finding) (n : Node) (x : String) : Bool :=
  match finding with
  | .dereference name _ place => name = some x && place.node = n.id
  | _ => false

/-- The graphs that builders finish, after whatever events. -/
def Graph.Built (g : Graph) : Prop :=
  ∃ home name events, g = ((Builder.run { graph := { home, name } } events).step .finish).graph

theorem Graph.Built.forward {g : Graph} (h : g.Built) : g.Forward := by
  obtain ⟨home, name, events, rfl⟩ := h
  rw [← Builder.run_concat]
  exact Builder.forward_run home name _

/-! ## What is found at a node -/

namespace Check

variable {o : Options} {n m : Node} {s : State} {x y : String} {finding : Finding}

/-- The place of a finding at a node whose line could be read. -/
def placeAt (n : Node) (line : Int) : Place := ⟨n.stmt.text, n.id, n.stmt.ref.file, line⟩

theorem finding?_foundAt (n : Node) (make : Place → Finding) :
    finding? (foundAt n make) =
      n.stmt.ref.lineNumber?.map fun line => make (placeAt n line) := by
  unfold foundAt
  cases n.stmt.ref.lineNumber? <;> rfl

/-- The finding that a dereference gives rise to. -/
def dereferenceFinding? (o : Options) (n : Node) (s : State) (x : String) : Option Finding :=
  (observeDereference o n s x).bind finding?

/-- The finding that a return gives rise to. -/
def returnFinding? (o : Options) (n : Node) (s : State) : Option Finding :=
  (observeReturn o n s).bind finding?

theorem dereferenceFinding?_eq_some_iff :
    dereferenceFinding? o n s x = some finding ↔
      ∃ v line, s.get? x = some v ∧ v.isPointer = true ∧ reportable o v.nullability = true ∧
        n.stmt.ref.lineNumber? = some line ∧
        finding = .dereference (some x) v.nullability (placeAt n line) := by
  unfold dereferenceFinding? observeDereference
  cases hx : s.get? x with
  | none => simp [untracked, finding?]
  | some v =>
      dsimp only
      by_cases hv : (v.isPointer && reportable o v.nullability) = true
      · rw [if_pos hv, Option.bind_some, finding?_foundAt, Option.map_eq_some_iff]
        rw [Bool.and_eq_true] at hv
        constructor
        · rintro ⟨line, hline, rfl⟩
          exact ⟨v, line, rfl, hv.1, hv.2, hline, rfl⟩
        · rintro ⟨w, line, hw, -, -, hline, rfl⟩
          cases hw
          exact ⟨line, hline, rfl⟩
      · rw [if_neg hv, Option.bind_none]
        rw [Bool.and_eq_true] at hv
        constructor
        · intro h
          cases h
        · rintro ⟨w, line, hw, hp, hr, -, -⟩
          cases hw
          exact absurd ⟨hp, hr⟩ hv

theorem returnFinding?_eq_some (h : returnFinding? o n s = some finding) :
    ∃ x v line, n.stmt.kind = .jump ∧ n.stmt.name = some x ∧ s.get? x = some v ∧
      v.isPointer = true ∧ v.nullability = .null ∧ n.stmt.ref.lineNumber? = some line ∧
      finding = .nullReturn (some x) (placeAt n line) := by
  unfold returnFinding? observeReturn at h
  split at h
  · rename_i x hkind hname
    cases hx : s.get? x with
    | none => simp [hx, untracked, finding?] at h
    | some v =>
        simp only [hx] at h
        split at h
        · rename_i hv
          simp only [Bool.and_eq_true, decide_eq_true_eq] at hv
          rw [Option.bind_some, finding?_foundAt, Option.map_eq_some_iff] at h
          obtain ⟨line, hline, rfl⟩ := h
          exact ⟨x, v, line, hkind, hname, hx, hv.1.2, hv.2, hline, rfl⟩
        · cases h
  · cases h

/-- Whatever is taken from the observations at a node, by its origin. -/
theorem filterMap_observeIn {α : Type} (view : Observation → Option α) (o : Options) (n : Node)
    (s : State) :
    (observeIn o n s).filterMap view =
      n.stmt.dereferences.eraseDups.filterMap (fun x => (observeDereference o n s x).bind view) ++
        ((observeReturn o n s).bind view).toList := by
  unfold observeIn
  rw [List.filterMap_append, List.filterMap_filterMap]
  congr 1
  cases observeReturn o n s with
  | none => rfl
  | some observation =>
      rw [Option.toList_some, Option.bind_some]
      cases h : view observation <;> simp [h]

theorem filterMap_finding?_observeIn (o : Options) (n : Node) (s : State) :
    (observeIn o n s).filterMap finding? =
      n.stmt.dereferences.eraseDups.filterMap (dereferenceFinding? o n s) ++
        (returnFinding? o n s).toList :=
  filterMap_observeIn finding? o n s

/-- Of all that is found at a node, only its own dereferences of a variable are about that. -/
theorem isDereferenceAt_of_dereferenceFinding?
    (h : dereferenceFinding? o m s y = some finding) :
    finding.isDereferenceAt n x = true ↔ y = x ∧ m.id = n.id := by
  obtain ⟨v, line, -, -, -, -, rfl⟩ := dereferenceFinding?_eq_some_iff.mp h
  unfold Finding.isDereferenceAt placeAt
  rw [Bool.and_eq_true, decide_eq_true_iff, decide_eq_true_iff, Option.some.injEq, Int.ofNat_inj]

theorem not_isDereferenceAt_of_returnFinding? (h : returnFinding? o m s = some finding) :
    finding.isDereferenceAt n x = false := by
  obtain ⟨y, v, line, -, -, -, -, -, -, rfl⟩ := returnFinding?_eq_some h
  rfl

/-- Another node finds nothing about this one. -/
theorem filter_isDereferenceAt_of_id_ne (hid : m.id ≠ n.id) :
    ((observeIn o m s).filterMap finding?).filter (·.isDereferenceAt n x) = [] := by
  rw [filterMap_finding?_observeIn, List.filter_eq_nil_iff]
  intro finding hfinding
  rcases List.mem_append.mp hfinding with hfinding | hfinding
  · obtain ⟨y, -, hy⟩ := List.mem_filterMap.mp hfinding
    rw [isDereferenceAt_of_dereferenceFinding? hy]
    exact fun h => hid h.2
  · rw [not_isDereferenceAt_of_returnFinding? (Option.mem_toList.mp hfinding)]
    decide

theorem filter_isDereferenceAt_names {names : List String} (hnodup : names.Nodup) :
    (names.filterMap (dereferenceFinding? o n s)).filter (·.isDereferenceAt n x) =
      if x ∈ names then (dereferenceFinding? o n s x).toList else [] := by
  induction names with
  | nil => rfl
  | cons y names ih =>
      obtain ⟨hy, hnodup⟩ := List.nodup_cons.mp hnodup
      have hhead : ∀ finding, dereferenceFinding? o n s y = some finding →
          (finding.isDereferenceAt n x = true ↔ y = x) := by
        intro finding hfinding
        rw [isDereferenceAt_of_dereferenceFinding? hfinding]
        exact and_iff_left rfl
      by_cases hyx : y = x
      · subst hyx
        rw [if_pos List.mem_cons_self]
        rw [if_neg hy] at ih
        cases hfinding : dereferenceFinding? o n s y with
        | none => rw [List.filterMap_cons_none hfinding, ih hnodup, Option.toList_none]
        | some finding =>
            have hself : finding.isDereferenceAt n y = true := (hhead finding hfinding).mpr rfl
            rw [List.filterMap_cons_some hfinding, List.filter_cons, if_pos hself, ih hnodup,
              Option.toList_some]
      · have hmem : x ∈ y :: names ↔ x ∈ names := by
          rw [List.mem_cons]
          exact or_iff_right (Ne.symm hyx)
        simp only [hmem]
        rw [← ih hnodup]
        cases hfinding : dereferenceFinding? o n s y with
        | none => rw [List.filterMap_cons_none hfinding]
        | some finding =>
            have hother := mt (hhead finding hfinding).mp hyx
            rw [List.filterMap_cons_some hfinding, List.filter_cons, if_neg hother]

/-- A node finds at most one thing about its dereference of a variable. -/
theorem filter_isDereferenceAt_self (hx : x ∈ n.stmt.dereferences) :
    ((observeIn o n s).filterMap finding?).filter (·.isDereferenceAt n x) =
      (dereferenceFinding? o n s x).toList := by
  have hreturn : (returnFinding? o n s).toList.filter (·.isDereferenceAt n x) = [] := by
    rw [List.filter_eq_nil_iff]
    intro finding hfinding
    rw [not_isDereferenceAt_of_returnFinding? (Option.mem_toList.mp hfinding)]
    decide
  rw [filterMap_finding?_observeIn, List.filter_append, hreturn, List.append_nil,
    filter_isDereferenceAt_names (nodup_eraseDups _), if_pos (List.mem_eraseDups.mpr hx)]

/-! ## What is found in a graph -/

/-- A result known in part is a result. -/
theorem exists_ok_of_toOption {ε α β : Type} {e : Except ε α} {f : α → β} {b : β}
    (h : e.toOption.map f = some b) : ∃ a, e = .ok a ∧ f a = b := by
  cases e with
  | error _ => cases h
  | ok a => exact ⟨a, rfl, Option.some.inj h⟩

theorem flatMap_eq_of_only {α β : Type} {f : α → List β} {l : List α} {a : α} (hnodup : l.Nodup)
    (ha : a ∈ l) (honly : ∀ b ∈ l, b ≠ a → f b = []) : l.flatMap f = f a := by
  obtain ⟨left, right, rfl⟩ := List.append_of_mem ha
  obtain ⟨hnot, -⟩ := List.nodup_cons.mp (List.nodup_middle.mp hnodup)
  rw [List.mem_append, not_or] at hnot
  have hleft : left.flatMap f = [] := by
    rw [List.flatMap_eq_nil_iff]
    intro b hb
    exact honly b (List.mem_append_left _ hb) fun he => hnot.1 (he ▸ hb)
  have hright : right.flatMap f = [] := by
    rw [List.flatMap_eq_nil_iff]
    intro b hb
    exact honly b (List.mem_append_right _ (List.mem_cons_of_mem _ hb)) fun he => hnot.2 (he ▸ hb)
  rw [List.flatMap_append, List.flatMap_cons, hleft, hright, List.nil_append, List.append_nil]

section

variable {a : Analysis} {nodes : List Node} {known : List Issue} {r : Outcome}

theorem observeNode_eq (hs : a.before? n = some s) : observeNode o a n = observeIn o n s := by
  unfold observeNode
  rw [hs]

/-- Where ids tell nodes apart, all that is found about a dereference is found at its node. -/
theorem filter_isDereferenceAt_observe (hnodup : nodes.Nodup) (hn : n ∈ nodes)
    (hid : ∀ m ∈ nodes, m.id = n.id → m = n) (hs : a.before? n = some s)
    (hx : x ∈ n.stmt.dereferences) :
    ((observe o a nodes).filterMap finding?).filter (·.isDereferenceAt n x) =
      (dereferenceFinding? o n s x).toList := by
  unfold observe
  rw [List.filterMap_flatMap, List.filter_flatMap, flatMap_eq_of_only hnodup hn,
    observeNode_eq hs, filter_isDereferenceAt_self hx]
  intro m hm hne
  unfold observeNode
  cases a.before? m with
  | none => rfl
  | some t => exact filter_isDereferenceAt_of_id_ne fun he => hne (hid m hm he)

/-- A finding comes from one of the nodes. -/
theorem exists_of_mem_findings
    (h : finding ∈ (observe o a nodes).filterMap finding?) :
    ∃ n ∈ nodes, ∃ s, a.before? n = some s ∧
      ((∃ x ∈ n.stmt.dereferences, dereferenceFinding? o n s x = some finding) ∨
        returnFinding? o n s = some finding) := by
  unfold observe at h
  rw [List.filterMap_flatMap] at h
  obtain ⟨n, hn, hfinding⟩ := List.mem_flatMap.mp h
  cases hs : a.before? n with
  | none =>
      unfold observeNode at hfinding
      simp [hs, finding?] at hfinding
  | some s =>
      rw [observeNode_eq hs, filterMap_finding?_observeIn] at hfinding
      refine ⟨n, hn, s, hs, ?_⟩
      rcases List.mem_append.mp hfinding with hfinding | hfinding
      · obtain ⟨x, hx, hfinding⟩ := List.mem_filterMap.mp hfinding
        exact Or.inl ⟨x, List.mem_eraseDups.mp hx, hfinding⟩
      · exact Or.inr (Option.mem_toList.mp hfinding)

/-- What a check that returns comes to. -/
theorem eq_of_outcome (h : outcome o a nodes known = .ok r) :
    r = ⟨if ((observe o a nodes).filterMap finding?).isEmpty then [.clean]
        else (observe o a nodes).filterMap finding?,
      known ++ a.issues ++ (observe o a nodes).filterMap issue?⟩ := by
  unfold outcome at h
  dsimp only at h
  split at h
  · cases h
  · cases h
    rfl

/-- A check that returns reports what was found, or that nothing was. -/
theorem findings_of_outcome (h : outcome o a nodes known = .ok r) :
    r.findings = if ((observe o a nodes).filterMap finding?).isEmpty then [.clean]
      else (observe o a nodes).filterMap finding? := by
  rw [eq_of_outcome h]

/-- Its issues are those already known, those of the analysis and its own. -/
theorem issues_of_outcome (h : outcome o a nodes known = .ok r) :
    r.issues = known ++ a.issues ++ (observe o a nodes).filterMap issue? := by
  rw [eq_of_outcome h]

theorem exists_outcome (h : ∀ observation ∈ observe o a nodes, failure? observation = none)
    (known : List Issue) : ∃ r, outcome o a nodes known = .ok r := by
  unfold outcome
  dsimp only
  rw [List.findSome?_eq_none_iff.mpr h]
  exact ⟨_, rfl⟩

/-- Whether nothing was found makes no difference to what was found about a dereference. -/
theorem filter_findings_of_outcome (h : outcome o a nodes known = .ok r) :
    r.findings.filter (·.isDereferenceAt n x) =
      ((observe o a nodes).filterMap finding?).filter (·.isDereferenceAt n x) := by
  rw [findings_of_outcome h]
  split
  · rename_i hempty
    rw [List.isEmpty_iff.mp hempty]
    rfl
  · rfl

end

/-- The only thing that fails at a node is reading its line. -/
theorem unreadableLine_of_failure? {observation : Observation} {e : Failure}
    (hobs : observation ∈ observeIn o n s) (he : failure? observation = some e) :
    n.stmt.ref.lineNumber? = none ∧ e = .unreadableLine n := by
  have hfound : ∀ make, failure? (foundAt n make) = some e →
      n.stmt.ref.lineNumber? = none ∧ e = .unreadableLine n := by
    intro make hfail
    unfold foundAt at hfail
    split at hfail
    · cases hfail
    · rename_i hline
      exact ⟨hline, (Option.some.inj hfail).symm⟩
  rcases List.mem_append.mp hobs with hobs | hobs
  · obtain ⟨x, -, hobs⟩ := List.mem_filterMap.mp hobs
    unfold observeDereference at hobs
    split at hobs
    · cases hobs
      cases he
    · split at hobs
      · cases hobs
        exact hfound _ he
      · cases hobs
  · have hobs := Option.mem_toList.mp hobs
    unfold observeReturn at hobs
    split at hobs
    · split at hobs
      · cases hobs
        cases he
      · split at hobs
        · cases hobs
          exact hfound _ he
        · cases hobs
    · cases hobs

/-- A check of what control can get to fails at nothing but a line. -/
theorem unreadableLine_of_observe {f : Flow} {observation : Observation} {e : Failure}
    (hobs : observation ∈ observe o (Analysis.ofFlow f) f.breadthFirst)
    (he : failure? observation = some e) :
    ∃ n, f.Reaches n ∧ n.stmt.ref.lineNumber? = none ∧ e = .unreadableLine n := by
  obtain ⟨n, hn, hobs⟩ := List.mem_flatMap.mp hobs
  have hreach := Flow.mem_breadthFirst.mp hn
  obtain ⟨s, hs⟩ := Option.isSome_iff_exists.mp (Analysis.before?_isSome.mpr hreach)
  rw [observeNode_eq hs] at hobs
  exact ⟨n, hreach, unreadableLine_of_failure? hobs he⟩

/-- A check of what control can get to returns, if the lines there can be read. -/
theorem failure?_observe {f : Flow}
    (hline : ∀ n, f.Reaches n → n.stmt.ref.lineNumber?.isSome = true) :
    ∀ observation ∈ observe o (Analysis.ofFlow f) f.breadthFirst, failure? observation = none := by
  intro observation hobs
  rw [Option.eq_none_iff_forall_ne_some]
  intro e he
  obtain ⟨n, hn, hnone, -⟩ := unreadableLine_of_observe hobs he
  have hsome := hline n hn
  rw [hnone] at hsome
  cases hsome

end Check

/-! ## Exactness -/

theorem Flow.pathFacts_null_iff {f : Flow} {x : String} {n : Node} :
    f.pathFacts x n .null ↔ ∃ before, f.Path before n ∧ (pathState before).TracksNull x := by
  unfold Flow.pathFacts State.TracksNull
  simp only [Fact.ofEntry_eq_null_iff]

theorem Check.reportable_default (k : Nullability) : reportable {} k = k.mayBeNull := by
  cases k <;> rfl

/-- By default a dereference gives rise to a finding exactly if some path makes it null. -/
theorem Check.dereferenceFinding?_isSome_iff {f : Flow} {n : Node} {s : State} {x : String}
    (hsum : SumsUp (f.pathFacts x n) (s.get? x))
    (hline : n.stmt.ref.lineNumber?.isSome = true) :
    (dereferenceFinding? {} n s x).isSome = true ↔
      ∃ before, f.Path before n ∧ (pathState before).TracksNull x := by
  obtain ⟨line, hline⟩ := Option.isSome_iff_exists.mp hline
  rw [← Flow.pathFacts_null_iff, ← hsum.reportable_iff, Option.isSome_iff_exists]
  constructor
  · rintro ⟨finding, hfinding⟩
    obtain ⟨v, -, hv, hp, hr, -, -⟩ := dereferenceFinding?_eq_some_iff.mp hfinding
    exact ⟨v, hv, hp, reportable_default v.nullability ▸ hr⟩
  · rintro ⟨v, hv, hp, hr⟩
    exact ⟨_, dereferenceFinding?_eq_some_iff.mpr
      ⟨v, line, hv, hp, (reportable_default v.nullability).symm ▸ hr, hline, rfl⟩⟩

/-- **Dereference findings are exact.** In a graph without cycles, and in particular in every graph
that a builder finishes, a check by the default options returns, and for every name that a node
dereferences it reports a finding exactly if on some path to the node the name is a null pointer,
and never more than one. -/
theorem dereference_findings_exact (g : Graph)
    (hg : (g.Grown ∧ g.flow.Acyclic) ∨ g.Built)
    (hlines : ∀ n ∈ g.nodes, n.stmt.ref.lineNumber?.isSome = true) (known : List Issue) :
    ∃ r, g.check {} known = .ok r ∧
      ∀ n, g.flow.Reaches n → ∀ x ∈ n.stmt.dereferences,
        ((∃ finding ∈ r.findings, finding.isDereferenceAt n x = true) ↔
          ∃ before, g.flow.Path before n ∧ (pathState before).TracksNull x) ∧
        (r.findings.filter (·.isDereferenceAt n x)).length ≤ 1 := by
  have hboth : g.Grown ∧ g.flow.Acyclic := by
    rcases hg with hg | hg
    · exact hg
    · exact ⟨hg.forward.grown, hg.forward.acyclic⟩
  obtain ⟨hgrown, hacyclic⟩ := hboth
  have hline : ∀ n, g.flow.Reaches n → n.stmt.ref.lineNumber?.isSome = true :=
    fun n hn => hlines n (hgrown.mem_of_reaches hn)
  obtain ⟨r, hr⟩ := Check.exists_outcome (Check.failure?_observe hline) known
  refine ⟨r, hr, ?_⟩
  intro n hn x hx
  obtain ⟨s, hs, hsum⟩ := Analysis.sumsUp_pathFacts hacyclic x n hn
  have hfilter : r.findings.filter (·.isDereferenceAt n x) =
      (Check.dereferenceFinding? {} n s x).toList := by
    rw [Check.filter_findings_of_outcome hr]
    refine Check.filter_isDereferenceAt_observe (Flow.nodup_breadthFirst _)
      (Flow.mem_breadthFirst.mpr hn) ?_ hs hx
    intro m hm hid
    exact hgrown.eq_of_id_eq (hgrown.mem_of_reaches (Flow.mem_breadthFirst.mp hm))
      (hgrown.mem_of_reaches hn) hid
  constructor
  · rw [← Check.dereferenceFinding?_isSome_iff hsum (hline n hn)]
    have hmem : (∃ finding ∈ r.findings, finding.isDereferenceAt n x = true) ↔
        ∃ finding, finding ∈ r.findings.filter (·.isDereferenceAt n x) := by
      simp only [List.mem_filter]
    rw [hmem, hfilter]
    simp only [Option.mem_toList, Option.isSome_iff_exists]
  · rw [hfilter]
    exact Option.length_toList_le

/-- `int *p = NULL; if(c) { p = &x; } *p = 1;` -/
def storeInBranch : Graph :=
  (Builder.step (Builder.run {}
    [.declaration "int *p = NULL;" (some "p") true true true [] {}, .enter "c" [] {},
     .assignment "p = &x;" (some "p") false [] {}, .exit, .expression "*p = 1;" ["p"] {}])
    .finish).graph

theorem storeInBranch_built : storeInBranch.Built := ⟨0, none, _, rfl⟩

/-- The use behind the branch, which only the path around the branch makes null. -/
theorem dereference_findings_exact_storeInBranch :
    ∃ r n, storeInBranch.check {} [] = .ok r ∧ storeInBranch.nodes[4]? = some n ∧
      ((∃ finding ∈ r.findings, finding.isDereferenceAt n "p" = true) ↔
        ∃ before, storeInBranch.flow.Path before n ∧ (pathState before).TracksNull "p") ∧
      (r.findings.filter (·.isDereferenceAt n "p")).length ≤ 1 := by
  obtain ⟨r, hr, hexact⟩ :=
    dereference_findings_exact storeInBranch (Or.inr storeInBranch_built) (by decide) []
  obtain ⟨n, hn⟩ : ∃ n, storeInBranch.nodes[4]? = some n := ⟨_, rfl⟩
  have hmem : n ∈ storeInBranch.nodes := List.mem_of_getElem? hn
  have hx : "p" ∈ n.stmt.dereferences := by
    cases hn
    decide
  obtain ⟨hiff, hone⟩ := hexact n (storeInBranch_built.forward.reached n hmem) "p" hx
  exact ⟨r, n, hr, hn, hiff, hone⟩

/-! ## Definite verdicts -/

theorem State.tracksNull_of_pointer {s : State} {x : String}
    (h : Fact.ofEntry (s.get? x) ≠ .nonNull) (hp : s.TracksPointer x) : s.TracksNull x := by
  obtain ⟨v, hv, hpointer⟩ := hp
  by_cases hnull : v.nullability = .null
  · exact ⟨v, hv, hpointer, hnull⟩
  · exact absurd (Fact.ofEntry_eq_nonNull_iff.mpr ⟨v, hv, hpointer, hnull⟩) h

/-- What stands behind a definite verdict on a variable in front of a node. -/
theorem Flow.tracksNull_on_paths {f : Flow} {n : Node} {s : State} {x : String}
    (hsum : SumsUp (f.pathFacts x n) (s.get? x)) (hnull : s.TracksNull x) :
    (∃ before, f.Path before n ∧ (pathState before).TracksPointer x) ∧
      ∀ before, f.Path before n → (pathState before).TracksPointer x →
        (pathState before).TracksNull x := by
  obtain ⟨v, hv, hp, hn⟩ := hnull
  rw [hv] at hsum
  obtain ⟨hsome, hnone⟩ := hsum.null_of_definite hp hn
  constructor
  · obtain ⟨before, hpath, w, hw, hwp, -⟩ := Flow.pathFacts_null_iff.mp hsome
    exact ⟨before, hpath, w, hw, hwp⟩
  · intro before hpath
    exact State.tracksNull_of_pointer fun hfact => hnone ⟨before, hpath, hfact⟩

/-- Paths that all make a variable null leave no doubt. -/
theorem Flow.tracksNull_of_paths {f : Flow} {n : Node} {s : State} {x : String}
    (hsum : SumsUp (f.pathFacts x n) (s.get? x)) (hn : f.Reaches n)
    (hall : ∀ before, f.Path before n → (pathState before).TracksNull x) : s.TracksNull x := by
  refine hsum.definite_of_all_null (Flow.exists_pathFacts hn) ?_
  rintro k ⟨before, hpath, rfl⟩
  exact Fact.ofEntry_eq_null_iff.mpr (hall before hpath)

/-- A finding that calls a pointer null, and not only possibly so, was made at a node in front of
which the analysis holds it for null. -/
theorem Check.tracksNull_of_definite {o : Options} {n : Node} {s : State} {finding : Finding}
    (hid : finding.id = "nullDeref" ∨ finding.id = "nullReturn")
    (h : (∃ x ∈ n.stmt.dereferences, dereferenceFinding? o n s x = some finding) ∨
      returnFinding? o n s = some finding) :
    ∃ x, ∃ place : Place, place.node = n.id ∧ s.TracksNull x ∧
      (finding = .dereference (some x) .null place ∨ finding = .nullReturn (some x) place) := by
  rcases h with ⟨x, -, hfinding⟩ | hfinding
  · obtain ⟨v, line, hv, hp, -, -, rfl⟩ := dereferenceFinding?_eq_some_iff.mp hfinding
    have hnull : v.nullability = .null := by
      by_contra hnull
      simp only [Finding.id, if_neg hnull] at hid
      exact absurd hid (by decide)
    exact ⟨x, placeAt n line, rfl, ⟨v, hv, hp, hnull⟩, Or.inl (by rw [hnull])⟩
  · obtain ⟨x, v, line, -, -, hv, hp, hnull, -, rfl⟩ := returnFinding?_eq_some hfinding
    exact ⟨x, placeAt n line, rfl, ⟨v, hv, hp, hnull⟩, Or.inr rfl⟩

/-- **Definite verdicts are definite.** In front of every node that control can get to in a graph
without cycles, a variable held for a null pointer is a pointer on some path and null on every path
on which it is a pointer; and one that every path makes a null pointer is held for exactly that. So
every finding that calls a pointer null, by whatever options, names one that is not null on no path
on which it is a pointer. -/
theorem definite_verdicts_on_paths (g : Graph) (h : g.flow.Acyclic) :
    (∀ n, g.flow.Reaches n → ∃ s, (Analysis.ofFlow g.flow).before? n = some s ∧ ∀ x,
      (s.TracksNull x →
        (∃ before, g.flow.Path before n ∧ (pathState before).TracksPointer x) ∧
        ∀ before, g.flow.Path before n → (pathState before).TracksPointer x →
          (pathState before).TracksNull x) ∧
      ((∀ before, g.flow.Path before n → (pathState before).TracksNull x) → s.TracksNull x)) ∧
    ∀ o known r, g.check o known = .ok r → ∀ finding ∈ r.findings,
      finding.id = "nullDeref" ∨ finding.id = "nullReturn" →
      ∃ n x, ∃ place : Place, g.flow.Reaches n ∧ place.node = n.id ∧
        (finding = .dereference (some x) .null place ∨ finding = .nullReturn (some x) place) ∧
        (∃ before, g.flow.Path before n ∧ (pathState before).TracksPointer x) ∧
        ∀ before, g.flow.Path before n → (pathState before).TracksPointer x →
          (pathState before).TracksNull x := by
  constructor
  · intro n hn
    obtain ⟨s, hs⟩ := Option.isSome_iff_exists.mp (Analysis.before?_isSome.mpr hn)
    refine ⟨s, hs, ?_⟩
    intro x
    obtain ⟨t, ht, hsum⟩ := Analysis.sumsUp_pathFacts h x n hn
    have hst : t = s := Option.some.inj (ht.symm.trans hs)
    subst hst
    exact ⟨Flow.tracksNull_on_paths hsum, Flow.tracksNull_of_paths hsum hn⟩
  · intro o known r hr finding hfinding hid
    rw [Check.findings_of_outcome hr] at hfinding
    split at hfinding
    · rw [List.mem_singleton.mp hfinding] at hid
      exact absurd hid (by decide)
    · obtain ⟨n, hn, s, hs, hfrom⟩ := Check.exists_of_mem_findings hfinding
      obtain ⟨x, place, hplace, hnull, heq⟩ := Check.tracksNull_of_definite hid hfrom
      have hreach := Flow.mem_breadthFirst.mp hn
      obtain ⟨t, ht, hsum⟩ := Analysis.sumsUp_pathFacts h x n hreach
      have hst : t = s := Option.some.inj (ht.symm.trans hs)
      subst hst
      exact ⟨n, x, place, hreach, hplace, heq, Flow.tracksNull_on_paths hsum hnull⟩

/-- `if(c) { int *p = NULL; } *p = 1;` -/
def declareInBranch : Graph :=
  (Builder.step (Builder.run {}
    [.enter "c" [] {}, .declaration "int *p = NULL;" (some "p") true true true [] {}, .exit,
     .expression "*p = 1;" ["p"] {}]) .finish).graph

theorem declareInBranch_built : declareInBranch.Built := ⟨0, none, _, rfl⟩

/-- Only one of the two paths to the use knows the variable at all, and the verdict is definite. -/
theorem definite_verdicts_on_paths_declareInBranch :
    ∃ n s, declareInBranch.nodes[3]? = some n ∧
      (Analysis.ofFlow declareInBranch.flow).before? n = some s ∧ s.TracksNull "p" ∧
      (∃ before, declareInBranch.flow.Path before n ∧ (pathState before).TracksPointer "p") ∧
      ∀ before, declareInBranch.flow.Path before n → (pathState before).TracksPointer "p" →
        (pathState before).TracksNull "p" := by
  have hforward := declareInBranch_built.forward
  obtain ⟨n, hn⟩ : ∃ n, declareInBranch.nodes[3]? = some n := ⟨_, rfl⟩
  have hreach := hforward.reached n (List.mem_of_getElem? hn)
  obtain ⟨s, hs, hverdict⟩ :=
    (definite_verdicts_on_paths declareInBranch hforward.acyclic).1 n hreach
  have hget : ((Analysis.ofFlow declareInBranch.flow).before? n).bind (·.get? "p") =
      some ⟨"p", true, .null⟩ := by
    cases hn
    decide +kernel
  rw [hs, Option.bind_some] at hget
  have hnull : s.TracksNull "p" := ⟨_, hget, rfl, rfl⟩
  exact ⟨n, s, hn, hs, hnull, (hverdict "p").1 hnull⟩

end NullSafety
