import NullSafety.Proofs.Continuation

/-!
# Names never heard of

A statement that uses a name nobody has declared or assigned is not judged but noted. The state
before the statement decides, and that is one for all paths. Still the note is exact: entries are
never dropped, neither by a statement nor where paths meet, and none comes from nowhere. So a name
has no entry before a node exactly if no path to the node passes a declaration or an assignment of
it, be it as a pointer or not.
-/

namespace NullSafety

/-- The statement makes a variable known, whatever it was before. -/
def Statement.MakesKnown (stmt : Statement) (x : String) : Prop :=
  (stmt.kind = .declaration ∨ stmt.kind = .assignment) ∧ stmt.name = some x

/-- No path to the node has passed a declaration or an assignment of the variable. -/
def Flow.Unheard (f : Flow) (n : Node) (x : String) : Prop :=
  ¬ ∃ before, f.Path before n ∧ ∃ m ∈ before, m.stmt.MakesKnown x

/-- The variable that a finding is about. -/
def Finding.variable? : Finding → Option String
  | .dereference name _ _ => name
  | .nullReturn name _ => name
  | .clean => none

/-! ## Entries on paths -/

theorem Statement.entryAfter_eq_none_iff {stmt : Statement} {x : String}
    {entry : Option Variable} :
    stmt.entryAfter x entry = none ↔ entry = none ∧ ¬ stmt.MakesKnown x := by
  unfold Statement.entryAfter Statement.MakesKnown
  by_cases hname : stmt.name = some x
  · rw [if_pos hname]
    cases hkind : stmt.kind with
    | declaration => simp [hname]
    | assignment => cases entry <;> simp [hname]
    | expression | jump | conditionEntry | branchMarker => simp
  · rw [if_neg hname]
    exact (and_iff_left fun h => hname h.2).symm

/-- A path knows the variables that its statements made known. -/
theorem get?_pathState_eq_none_iff {before : List Node} {x : String} :
    (pathState before).get? x = none ↔ ∀ m ∈ before, ¬ m.stmt.MakesKnown x := by
  induction before using List.reverseRecOn with
  | nil =>
      constructor
      · rintro - m ⟨⟩
      · intro _
        rfl
  | append_singleton before m ih =>
      rw [get?_pathState_concat, Statement.entryAfter_eq_none_iff, ih]
      simp only [List.mem_append, List.mem_singleton]
      constructor
      · rintro ⟨hbefore, hm⟩ l (hl | rfl)
        · exact hbefore l hl
        · exact hm
      · intro h
        exact ⟨fun l hl => h l (Or.inl hl), h m (Or.inr rfl)⟩

theorem Fact.ofEntry_eq_untracked_iff {entry : Option Variable} :
    ofEntry entry = .untracked ↔ entry = none := by
  cases entry with
  | none => simp [ofEntry]
  | some v =>
      unfold ofEntry
      cases hp : v.isPointer <;> by_cases h : v.nullability = .null <;> simp [hp, h]

/-- Merging paths gives a variable an entry exactly if one of them does. -/
theorem SumsUp.eq_none_iff {facts : Fact → Prop} {entry : Option Variable}
    (h : SumsUp facts entry) : entry = none ↔ ∀ k, facts k → k = .untracked := by
  constructor
  · rintro rfl k hk
    cases h with
    | untracked hs hn hp =>
        cases k with
        | untracked => rfl
        | scalar => exact absurd hk hs
        | null => exact absurd hk hn
        | nonNull => exact absurd hk hp
  · intro hall
    cases h with
    | untracked => rfl
    | scalar hs => cases hall _ hs
    | null hn => cases hall _ hn
    | nonNull _ hp => cases hall _ hp
    | mixed hn => cases hall _ hn

theorem Flow.get?_eq_none_iff {f : Flow} {n : Node} {s : State} {x : String}
    (hsum : SumsUp (f.pathFacts x n) (s.get? x)) : s.get? x = none ↔ f.Unheard n x := by
  rw [hsum.eq_none_iff]
  unfold Flow.Unheard
  constructor
  · rintro hall ⟨before, hpath, m, hm, hknown⟩
    have hfact := hall _ ⟨before, hpath, rfl⟩
    rw [Fact.ofEntry_eq_untracked_iff, get?_pathState_eq_none_iff] at hfact
    exact hfact m hm hknown
  · rintro hnone k ⟨before, hpath, rfl⟩
    rw [Fact.ofEntry_eq_untracked_iff, get?_pathState_eq_none_iff]
    exact fun m hm hknown => hnone ⟨before, hpath, m, hm, hknown⟩

/-! ## What is noted and found at a node -/

namespace Check

variable {o : Options} {a : Analysis} {n : Node} {s : State} {x y : String} {issue : Issue}

/-- The issues noted when a node is visited. -/
def issuesAt (o : Options) (a : Analysis) (n : Node) : List Issue :=
  (observeNode o a n).filterMap issue?

/-- What is found when a node is visited. -/
def findingsAt (o : Options) (a : Analysis) (n : Node) : List Finding :=
  (observeNode o a n).filterMap finding?

/-- The issue about a use of a name that is not tracked. -/
def unknownIssue (n : Node) (use name : String) : Issue :=
  ⟨.unknownVariable, use ++ " of untracked name '" ++ name ++ "'", some n.stmt.text⟩

theorem unknownIssue_inj {use : String} (h : unknownIssue n use x = unknownIssue n use y) :
    x = y := by
  have hmessage := congrArg Issue.message h
  exact (String.append_right_inj _).mp ((String.append_left_inj _).mp hmessage)

theorem unknownIssue_dereference_ne_return :
    unknownIssue n "dereference" x ≠ unknownIssue n "return" y := by
  intro h
  have hfirst := congrArg (fun issue : Issue => issue.message.toList.head?) h
  simp [unknownIssue] at hfirst

theorem issue?_foundAt (n : Node) (make : Place → Finding) : issue? (foundAt n make) = none := by
  unfold foundAt
  cases n.stmt.ref.lineNumber? <;> rfl

theorem dereferenceIssue?_eq_some_iff :
    (observeDereference o n s x).bind issue? = some issue ↔
      s.get? x = none ∧ issue = unknownIssue n "dereference" x := by
  unfold observeDereference
  cases hx : s.get? x with
  | none =>
      simp only [true_and]
      exact Option.some_inj.trans eq_comm
  | some v =>
      dsimp only
      split
      · simp [issue?_foundAt]
      · simp

theorem returnIssue?_eq_some_iff :
    (observeReturn o n s).bind issue? = some issue ↔
      ∃ x, n.stmt.kind = .jump ∧ n.stmt.name = some x ∧ s.get? x = none ∧
        issue = unknownIssue n "return" x := by
  unfold observeReturn
  split
  · rename_i y hkind hname
    rw [hkind, hname]
    cases hy : s.get? y with
    | none =>
        constructor
        · rintro ⟨⟩
          exact ⟨y, rfl, rfl, hy, rfl⟩
        · rintro ⟨x, -, ⟨⟩, -, rfl⟩
          rfl
    | some v =>
        dsimp only
        constructor
        · split
          · simp [issue?_foundAt]
          · simp
        · rintro ⟨x, -, ⟨⟩, hx, -⟩
          rw [hy] at hx
          cases hx
  · rename_i hnot
    constructor
    · rintro ⟨⟩
    · rintro ⟨x, hkind, hname, -, -⟩
      exact absurd hname (hnot x hkind)

/-- The notes at a node are about names without an entry, dereferenced or returned there. -/
theorem mem_issuesAt_iff (hs : a.before? n = some s) :
    issue ∈ issuesAt o a n ↔
      (∃ x ∈ n.stmt.dereferences, s.get? x = none ∧ issue = unknownIssue n "dereference" x) ∨
      ∃ x, n.stmt.kind = .jump ∧ n.stmt.name = some x ∧ s.get? x = none ∧
        issue = unknownIssue n "return" x := by
  unfold issuesAt
  rw [observeNode_eq hs, filterMap_observeIn, List.mem_append, Option.mem_toList,
    returnIssue?_eq_some_iff]
  simp only [List.mem_filterMap, List.mem_eraseDups, dereferenceIssue?_eq_some_iff]

/-- Each of them is made once. -/
theorem nodup_issuesAt (hs : a.before? n = some s) : (issuesAt o a n).Nodup := by
  unfold issuesAt
  rw [observeNode_eq hs, filterMap_observeIn, List.nodup_append]
  refine ⟨?_, ?_, ?_⟩
  · refine List.Nodup.filterMap ?_ (nodup_eraseDups _)
    intro x y issue hx hy
    obtain ⟨-, rfl⟩ := dereferenceIssue?_eq_some_iff.mp hx
    obtain ⟨-, hsame⟩ := dereferenceIssue?_eq_some_iff.mp hy
    exact unknownIssue_inj hsame
  · cases (observeReturn o n s).bind issue? <;> simp
  · intro issue hissue issue' hissue' hsame
    obtain ⟨x, -, hx⟩ := List.mem_filterMap.mp hissue
    obtain ⟨-, rfl⟩ := dereferenceIssue?_eq_some_iff.mp hx
    obtain ⟨y, -, -, -, rfl⟩ := returnIssue?_eq_some_iff.mp (Option.mem_toList.mp hissue')
    exact unknownIssue_dereference_ne_return hsame

theorem dereferenceUnknown_mem_iff (hs : a.before? n = some s) :
    unknownIssue n "dereference" x ∈ issuesAt o a n ↔
      x ∈ n.stmt.dereferences ∧ s.get? x = none := by
  rw [mem_issuesAt_iff hs]
  constructor
  · rintro (⟨y, hy, hnone, hsame⟩ | ⟨y, -, -, -, hsame⟩)
    · rw [unknownIssue_inj hsame]
      exact ⟨hy, hnone⟩
    · exact absurd hsame unknownIssue_dereference_ne_return
  · rintro ⟨hx, hnone⟩
    exact Or.inl ⟨x, hx, hnone, rfl⟩

theorem returnUnknown_mem_iff (hs : a.before? n = some s) :
    unknownIssue n "return" x ∈ issuesAt o a n ↔
      n.stmt.kind = .jump ∧ n.stmt.name = some x ∧ s.get? x = none := by
  rw [mem_issuesAt_iff hs]
  constructor
  · rintro (⟨y, -, -, hsame⟩ | ⟨y, hkind, hname, hnone, hsame⟩)
    · exact absurd hsame.symm unknownIssue_dereference_ne_return
    · rw [unknownIssue_inj hsame]
      exact ⟨hkind, hname, hnone⟩
  · rintro ⟨hkind, hname, hnone⟩
    exact Or.inr ⟨x, hkind, hname, hnone, rfl⟩

/-- A finding is about a variable that has an entry. -/
theorem get?_ne_none_of_mem_findingsAt {finding : Finding} (hs : a.before? n = some s)
    (hfinding : finding ∈ findingsAt o a n) (hx : finding.variable? = some x) :
    s.get? x ≠ none := by
  unfold findingsAt at hfinding
  rw [observeNode_eq hs, filterMap_finding?_observeIn] at hfinding
  rcases List.mem_append.mp hfinding with hfinding | hfinding
  · obtain ⟨y, -, hy⟩ := List.mem_filterMap.mp hfinding
    obtain ⟨v, line, hv, -, -, -, rfl⟩ := dereferenceFinding?_eq_some_iff.mp hy
    cases hx
    rw [hv]
    exact Option.some_ne_none v
  · obtain ⟨y, v, line, -, -, hv, -, -, -, rfl⟩ :=
      returnFinding?_eq_some (Option.mem_toList.mp hfinding)
    cases hx
    rw [hv]
    exact Option.some_ne_none v

theorem issues_eq_flatMap {nodes : List Node} {known : List Issue} {r : Outcome}
    (h : outcome o a nodes known = .ok r) :
    r.issues = known ++ a.issues ++ nodes.flatMap (issuesAt o a) := by
  rw [issues_of_outcome h]
  unfold observe
  rw [List.filterMap_flatMap]
  rfl

theorem findings_eq_flatMap {nodes : List Node} {known : List Issue} {r : Outcome}
    (h : outcome o a nodes known = .ok r) :
    r.findings.filter (!·.isClean) = nodes.flatMap (findingsAt o a) := by
  rw [filter_not_isClean h]
  unfold observe
  rw [List.filterMap_flatMap]
  rfl

end Check

/-- **Notes about unknown names are exact.** Take a check, by any options, of a graph without
cycles. Its own issues, and its findings, are those of the nodes that control can get to, each
visited once. At such a node it is noted that a name is dereferenced, or returned, without being
tracked exactly if the node does so and no path to it has passed a declaration or an assignment of
the name. Nothing is noted twice, and nothing is found there about such a name. -/
theorem unknown_names_exact (g : Graph) (h : g.flow.Acyclic) (o : Options) (known : List Issue)
    (r : Check.Outcome) (hr : g.check o known = .ok r) :
    let a := Analysis.ofFlow g.flow
    r.issues = known ++ a.issues ++ g.flow.breadthFirst.flatMap (Check.issuesAt o a) ∧
    r.findings.filter (!·.isClean) = g.flow.breadthFirst.flatMap (Check.findingsAt o a) ∧
    ∀ n, g.flow.Reaches n → g.flow.breadthFirst.count n = 1 ∧ (Check.issuesAt o a n).Nodup ∧
      ∀ x,
        (Check.unknownIssue n "dereference" x ∈ Check.issuesAt o a n ↔
          x ∈ n.stmt.dereferences ∧ g.flow.Unheard n x) ∧
        (Check.unknownIssue n "return" x ∈ Check.issuesAt o a n ↔
          n.stmt.kind = .jump ∧ n.stmt.name = some x ∧ g.flow.Unheard n x) ∧
        (g.flow.Unheard n x → ∀ finding ∈ Check.findingsAt o a n, finding.variable? ≠ some x) := by
  intro a
  refine ⟨Check.issues_eq_flatMap hr, Check.findings_eq_flatMap hr, ?_⟩
  intro n hn
  obtain ⟨s, hs⟩ := Option.isSome_iff_exists.mp (Analysis.before?_isSome.mpr hn)
  have hunheard : ∀ x, s.get? x = none ↔ g.flow.Unheard n x := by
    intro x
    obtain ⟨t, ht, hsum⟩ := Analysis.sumsUp_pathFacts h x n hn
    cases ht.symm.trans hs
    exact Flow.get?_eq_none_iff hsum
  refine ⟨?_, Check.nodup_issuesAt hs, ?_⟩
  · exact List.count_eq_one_of_mem g.flow.nodup_breadthFirst (Flow.mem_breadthFirst.mpr hn)
  · intro x
    simp only [← hunheard]
    refine ⟨Check.dereferenceUnknown_mem_iff hs, Check.returnUnknown_mem_iff hs, ?_⟩
    intro hnone finding hfinding hx
    exact Check.get?_ne_none_of_mem_findingsAt hs hfinding hx hnone

/-- `if(c) { int *p = NULL; } *p = *u + *u; return u;` -/
def useBehindBranch : Graph :=
  (Builder.step (Builder.run {}
    [.enter "c" [] {}, .declaration "int *p = NULL;" (some "p") true true true [] {}, .exit,
     .expression "*p = *u + *u;" ["p", "u", "u"] {}, .jump "return u;" (some "u") [] {}])
    .finish).graph

theorem useBehindBranch_built : useBehindBranch.Built := ⟨0, none, _, rfl⟩

/-- One path declares `p` and none declares `u`, which is noted once where it is dereferenced and
once where it is returned. -/
theorem unknown_names_exact_useBehindBranch :
    ∃ r n, useBehindBranch.check {} [] = .ok r ∧ useBehindBranch.nodes[3]? = some n ∧
      r.issues.map Issue.message =
        ["dereference of untracked name 'u'", "return of untracked name 'u'"] ∧
      useBehindBranch.flow.Unheard n "u" ∧ ¬ useBehindBranch.flow.Unheard n "p" := by
  have hforward := useBehindBranch_built.forward
  have hcheck : (useBehindBranch.check {} []).toOption.map (·.issues.map Issue.message) =
      some ["dereference of untracked name 'u'", "return of untracked name 'u'"] := by
    decide +kernel
  obtain ⟨n, hn⟩ : ∃ n, useBehindBranch.nodes[3]? = some n := ⟨_, rfl⟩
  have hissues : Check.issuesAt {} (Analysis.ofFlow useBehindBranch.flow) n =
      [Check.unknownIssue n "dereference" "u"] := by
    cases hn
    decide +kernel
  obtain ⟨r, hr, hmessages⟩ := Check.exists_ok_of_toOption hcheck
  obtain ⟨-, -, hexact⟩ := unknown_names_exact useBehindBranch hforward.acyclic {} [] r hr
  obtain ⟨-, -, hnames⟩ := hexact n (hforward.reached n (List.mem_of_getElem? hn))
  refine ⟨r, n, hr, hn, hmessages, ?_, ?_⟩
  · exact ((hnames "u").1.mp (by rw [hissues]; exact List.mem_singleton_self _)).2
  · intro hunheard
    have hp : "p" ∈ n.stmt.dereferences := by
      cases hn
      decide
    have hmem := (hnames "p").1.mpr ⟨hp, hunheard⟩
    rw [hissues, List.mem_singleton] at hmem
    exact absurd (Check.unknownIssue_inj hmem) (by decide)

end NullSafety
