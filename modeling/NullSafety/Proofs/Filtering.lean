import NullSafety.Proofs.Continuation

/-!
# What options leave out

Options decide what is reported, and nothing else. Each finding passes a gate of its own, behind the
look at the state and the note of a name that is not tracked. So a check by any options observes
what a check by the default options does, less the findings that are not asked for; and where the
latter comes to an end without failing, so does the former.
-/

namespace NullSafety

/-- Whether a finding is of a kind that the options ask for. -/
def Options.asksFor (o : Options) (finding : Finding) : Bool :=
  if finding.id = "nullDerefPossible" then o.reportPossible
  else if finding.id = "nullReturn" then o.reportReturns
  else true

namespace Check

variable {o : Options} {n : Node} {s : State} {x : String}

/-- What is observed stays, unless it is a finding that is not asked for. -/
def keeps (o : Options) : Observation → Bool
  | .found finding => o.asksFor finding
  | .noticed _ => true
  | .failed _ => true

/-! ## One gate -/

/-- A finding behind a gate `asked` of its own, where the default gate is open. -/
theorem gate_eq_filter {make : Place → Finding} {due asked : Bool}
    (hasks : ∀ place, o.asksFor (make place) = asked)
    (hline : due = true → failure? (foundAt n make) = none) :
    (if due && asked then some (foundAt n make) else none) =
      (if due then some (foundAt n make) else none).filter (keeps o) := by
  cases due with
  | false => rfl
  | true =>
      have hkeeps : keeps o (foundAt n make) = asked := by
        have hreadable := hline rfl
        unfold foundAt at hreadable ⊢
        split at hreadable
        · exact hasks _
        · cases hreadable
      rw [Bool.true_and, if_pos rfl, Option.filter_some, hkeeps]

theorem reportable_eq (o : Options) (k : Nullability) :
    reportable o k = (reportable {} k && (decide (k = .null) || o.reportPossible)) := by
  cases k <;> simp [reportable]

theorem asksFor_dereference (name : Option String) (k : Nullability) (place : Place) :
    o.asksFor (.dereference name k place) = (decide (k = .null) || o.reportPossible) := by
  unfold Options.asksFor
  cases k <;> simp [Finding.id]

theorem observeDereference_eq_filter
    (h : ∀ observation ∈ observeDereference {} n s x, failure? observation = none) :
    observeDereference o n s x = (observeDereference {} n s x).filter (keeps o) := by
  unfold observeDereference at h ⊢
  cases hx : s.get? x with
  | none => rfl
  | some v =>
      rw [hx] at h
      dsimp only at h ⊢
      rw [reportable_eq o, ← Bool.and_assoc]
      refine gate_eq_filter (asksFor_dereference (some x) v.nullability) ?_
      intro hdue
      exact h _ (by rw [if_pos hdue]; rfl)

theorem observeReturn_eq_filter
    (h : ∀ observation ∈ observeReturn {} n s, failure? observation = none) :
    observeReturn o n s = (observeReturn {} n s).filter (keeps o) := by
  unfold observeReturn at h ⊢
  split
  · rename_i x hkind hname
    rw [hkind, hname] at h
    dsimp only at h ⊢
    cases hx : s.get? x with
    | none => rfl
    | some v =>
        rw [hx] at h
        dsimp only at h ⊢
        rw [Bool.true_and] at h ⊢
        rw [Bool.and_assoc, Bool.and_comm]
        refine gate_eq_filter (fun place => rfl) ?_
        intro hdue
        exact h _ (by rw [if_pos hdue]; rfl)
  · rfl

/-! ## All that is observed -/

theorem observeIn_eq_filter
    (h : ∀ observation ∈ observeIn {} n s, failure? observation = none) :
    observeIn o n s = (observeIn {} n s).filter (keeps o) := by
  unfold observeIn at h ⊢
  rw [List.filter_append, List.filter_filterMap, ← Option.toList_filter,
    ← observeReturn_eq_filter fun observation hobs =>
      h observation (List.mem_append_right _ (Option.mem_toList.mpr hobs))]
  congr 1
  apply List.filterMap_congr
  intro x hx
  apply observeDereference_eq_filter
  intro observation hobs
  exact h observation (List.mem_append_left _ (List.mem_filterMap.mpr ⟨x, hx, hobs⟩))

section

variable {a : Analysis} {nodes : List Node} {known : List Issue} {r : Outcome}

theorem observe_eq_filter
    (h : ∀ observation ∈ observe {} a nodes, failure? observation = none) :
    observe o a nodes = (observe {} a nodes).filter (keeps o) := by
  unfold observe at h ⊢
  rw [List.filter_flatMap]
  apply List.flatMap_congr
  intro n hn
  have hnode : ∀ observation ∈ observeNode {} a n, failure? observation = none :=
    fun observation hobs => h observation (List.mem_flatMap.mpr ⟨n, hn, hobs⟩)
  unfold observeNode at hnode ⊢
  cases hs : a.before? n with
  | none => rfl
  | some s =>
      rw [hs] at hnode
      exact observeIn_eq_filter hnode

theorem filterMap_finding?_filter_keeps (o : Options) (observations : List Observation) :
    (observations.filter (keeps o)).filterMap finding? =
      (observations.filterMap finding?).filter o.asksFor := by
  rw [List.filterMap_filter, List.filter_filterMap]
  apply List.filterMap_congr
  intro observation _
  cases observation with
  | found finding => cases h : o.asksFor finding <;> simp [keeps, finding?, h, Option.filter_some]
  | noticed issue => rfl
  | failed failure => rfl

theorem filterMap_issue?_filter_keeps (o : Options) (observations : List Observation) :
    (observations.filter (keeps o)).filterMap issue? = observations.filterMap issue? := by
  rw [List.filterMap_filter]
  apply List.filterMap_congr
  intro observation _
  cases observation with
  | found finding => cases h : o.asksFor finding <;> simp [keeps, issue?, h]
  | noticed issue => rfl
  | failed failure => rfl

/-- A check that returns has met nothing that fails. -/
theorem failure?_of_outcome (h : outcome o a nodes known = .ok r) :
    ∀ observation ∈ observe o a nodes, failure? observation = none := by
  unfold outcome at h
  dsimp only at h
  split at h
  · cases h
  · rename_i hnone
    exact List.findSome?_eq_none_iff.mp hnone

/-- A check that found nothing says so, and otherwise does not. -/
theorem eq_singleton_of_clean_mem (h : outcome o a nodes known = .ok r)
    (hclean : Finding.clean ∈ r.findings) : r.findings = [.clean] := by
  rw [findings_of_outcome h] at hclean ⊢
  split
  · rfl
  · rename_i hsome
    rw [if_neg hsome] at hclean
    exact absurd (not_isClean_of_mem hclean) (by decide)

/-- What a check by any options comes to, where one by the default options returns. -/
theorem outcome_eq_filter (h : outcome {} a nodes known = .ok r) (o : Options) :
    ∃ r', outcome o a nodes known = .ok r' ∧
      (r'.findings = if (r.findings.filter o.asksFor).isEmpty then [.clean]
        else r.findings.filter o.asksFor) ∧
      r'.issues = r.issues := by
  have hfails := failure?_of_outcome h
  have hobserve := observe_eq_filter (o := o) hfails
  have hfails' : ∀ observation ∈ observe o a nodes, failure? observation = none := by
    rw [hobserve]
    exact fun observation hobs => hfails observation (List.mem_of_mem_filter hobs)
  obtain ⟨r', hr'⟩ := exists_outcome hfails' known
  refine ⟨r', hr', ?_, ?_⟩
  · rw [findings_of_outcome hr', findings_of_outcome h, hobserve, filterMap_finding?_filter_keeps]
    -- where nothing was found at all, `clean` passes the filter
    cases (observe {} a nodes).filterMap finding? with
    | nil => rfl
    | cons finding found => rfl
  · rw [eq_of_outcome hr', eq_of_outcome h, hobserve, filterMap_issue?_filter_keeps]

end

end Check

/-- **Options only filter findings.** Where a check by the default options returns, a check by any
options does too. Its findings are those of the default that are asked for, in the same order, or
`clean` alone if none is; and its issues are the same. -/
theorem options_only_filter (g : Graph) (known : List Issue) (r : Check.Outcome)
    (h : g.check {} known = .ok r) (o : Options) :
    ∃ r', g.check o known = .ok r' ∧
      (r'.findings = if (r.findings.filter o.asksFor).isEmpty then [.clean]
        else r.findings.filter o.asksFor) ∧
      (.clean ∈ r'.findings → r'.findings = [.clean]) ∧
      r'.issues = r.issues := by
  obtain ⟨r', hr', hfindings, hissues⟩ := Check.outcome_eq_filter h o
  exact ⟨r', hr', hfindings, Check.eq_singleton_of_clean_mem hr', hissues⟩

/-- `int *p = NULL; if(c) { p = &x; } *p = *u; int *z = NULL; return z;` -/
def possibleAndReturn : Graph :=
  (Builder.step (Builder.run {}
    [.declaration "int *p = NULL;" (some "p") true true true [] {}, .enter "c" [] {},
     .assignment "p = &x;" (some "p") false [] {}, .exit, .expression "*p = *u;" ["p", "u"] {},
     .declaration "int *z = NULL;" (some "z") true true true [] {},
     .jump "return z;" (some "z") [] {}]) .finish).graph

/-- Without possible dereferences the return is left, and without returns nothing; the issue about
`u`, met at the same statement, stays either way. -/
theorem options_only_filter_possibleAndReturn :
    ∃ r, possibleAndReturn.check {} [] = .ok r ∧
      r.findings.map Finding.id = ["nullDerefPossible", "nullReturn"] ∧ r.issues.length = 1 ∧
      (∃ r', possibleAndReturn.check { reportPossible := false } [] = .ok r' ∧
        r'.findings.map Finding.id = ["nullReturn"] ∧ r'.issues = r.issues) ∧
      ∃ r', possibleAndReturn.check ⟨[], false, false⟩ [] = .ok r' ∧
        r'.findings = [.clean] ∧ r'.issues = r.issues := by
  have hcheck : (possibleAndReturn.check {} []).toOption.map
      (fun r => (r.findings, r.issues.length)) =
      some ([.dereference (some "p") .potentiallyNull ⟨"*p = *u;", 4, "", 0⟩,
        .nullReturn (some "z") ⟨"return z;", 6, "", 0⟩], 1) := by
    decide +kernel
  obtain ⟨r, hr, hparts⟩ := Check.exists_ok_of_toOption hcheck
  obtain ⟨hfindings, hissues⟩ := Prod.mk.inj hparts
  obtain ⟨r₁, hr₁, hkept₁, -, hsame₁⟩ :=
    options_only_filter possibleAndReturn [] r hr { reportPossible := false }
  obtain ⟨r₂, hr₂, hkept₂, -, hsame₂⟩ :=
    options_only_filter possibleAndReturn [] r hr ⟨[], false, false⟩
  rw [hfindings] at hkept₁ hkept₂
  refine ⟨r, hr, ?_, hissues, ⟨r₁, hr₁, ?_, hsame₁⟩, r₂, hr₂, ?_, hsame₂⟩
  · rw [hfindings]
    decide
  · rw [hkept₁]
    decide
  · rw [hkept₂]
    decide

end NullSafety
