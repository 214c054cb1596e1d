import NullSafety.Proofs.Notes

/-!
# Branches that change places

Which branch of an `if` comes first is a matter of how the condition is put, and should not show in
what is found. It does show in a graph: nodes are numbered and visited otherwise, and where the
branches meet the entries of the merged state stand in another order. But the order of entries is
something that no statement and no check ever looks at. So each branch is interpreted from the same
state, wherever it stands, and whatever follows is interpreted from states that say the same.
-/

namespace NullSafety

/-! ## Interpreters that know the same -/

namespace Interpreter

/-- The frames say the same about every variable. -/
structure Frame.Same (f g : Frame) : Prop where
  condition : f.condition.Same g.condition
  bodyExit : Option.Rel State.Same f.bodyExit g.bodyExit

/-- The interpreters say the same about every variable, now and in their frames. -/
structure Same (i j : Interpreter) : Prop where
  current : i.current.Same j.current
  frames : List.Forall₂ Frame.Same i.frames j.frames

theorem Frame.Same.refl (f : Frame) : f.Same f := by
  refine ⟨.refl _, ?_⟩
  cases f.bodyExit with
  | none => exact .none
  | some exit => exact .some (.refl exit)

theorem Frame.Same.close {f g : Frame} {s t : State} (h : f.Same g) (hs : s.Same t) :
    (f.close s).Same (g.close t) := by
  obtain ⟨condition, exit⟩ := f
  obtain ⟨condition', exit'⟩ := g
  obtain ⟨hcondition, hexit⟩ := h
  cases hexit with
  | none => exact hs.merge hcondition
  | some hexit => exact hexit.merge hs

theorem Frame.same_foldl_close {fs gs : List Frame} {s t : State}
    (h : List.Forall₂ Frame.Same fs gs) (hs : s.Same t) :
    (fs.foldl (fun current frame => frame.close current) s).Same
      (gs.foldl (fun current frame => frame.close current) t) := by
  induction h generalizing s t with
  | nil => exact hs
  | cons hframe _ ih => exact ih (hframe.close hs)

namespace Same

variable {i j : Interpreter}

theorem step (h : i.Same j) (event : Event) : (i.step event).Same (j.step event) := by
  obtain ⟨s, frames⟩ := i
  obtain ⟨t, frames'⟩ := j
  obtain ⟨hs, hframes⟩ := h
  cases event with
  | declaration | assignment | expression | jump => exact ⟨hs.transfer _, hframes⟩
  | enter => exact ⟨hs, .cons ⟨hs, .none⟩ hframes⟩
  | orElse =>
      cases hframes with
      | nil => exact ⟨hs, .nil⟩
      | @cons f g fs gs hframe hrest =>
          obtain ⟨condition, exit⟩ := f
          obtain ⟨condition', exit'⟩ := g
          obtain ⟨hcondition, hexit⟩ := hframe
          cases hexit with
          | none => exact ⟨hcondition, .cons ⟨hcondition, .some hs⟩ hrest⟩
          | some hexit => exact ⟨hs, .cons ⟨hcondition, .some hexit⟩ hrest⟩
  | exit =>
      cases hframes with
      | nil => exact ⟨hs, .nil⟩
      | cons hframe hrest => exact ⟨hframe.close hs, hrest⟩
  | finish => exact ⟨Frame.same_foldl_close hframes hs, .nil⟩

theorem run (h : i.Same j) (events : List Event) : (i.run events).Same (j.run events) := by
  induction events generalizing i j with
  | nil => exact h
  | cons event events ih => exact ih (h.step event)

theorem notes_eq {α : Type} (h : i.Same j) (note : Note α) (events : List Event) :
    i.notes note events = j.notes note events := by
  induction events generalizing i j with
  | nil => rfl
  | cons event events ih =>
      unfold notes
      rw [ih (h.step event)]
      congr 1
      cases event.statement? with
      | none => rfl
      | some stmt => exact note.same stmt h.current

end Same

end Interpreter

/-! ## Events that nest, interpreted -/

/-- The events of an `if` with both branches. -/
def ifElse (condition : String) (dereferences : List String) (ref : SourceRef)
    (body other : List Event) : List Event :=
  .enter condition dereferences ref :: (body ++ .orElse :: (other ++ [.exit]))

/-- Whatever is open around them, the events lead from one state to another, and this is noted. -/
structure Performs {α : Type} (note : Note α) (events : List Event) (s t : State)
    (taken : List α) : Prop where
  run : ∀ frames, Interpreter.run ⟨s, frames⟩ events = ⟨t, frames⟩
  notes : ∀ frames, Interpreter.notes note ⟨s, frames⟩ events = taken

namespace Performs

variable {α : Type} {note : Note α} {events more body other : List Event} {s t u : State}
  {taken taken' : List α} (condition : String) (dereferences : List String) (ref : SourceRef)

theorem append (h : Performs note events s t taken) (hmore : Performs note more t u taken') :
    Performs note (events ++ more) s u (taken ++ taken') where
  run := by
    intro frames
    rw [Interpreter.run_append, h.run, hmore.run]
  notes := by
    intro frames
    rw [Interpreter.notes_append, h.run, h.notes, hmore.notes]

theorem plain {event : Event} {stmt : Statement} (h : event.plain? = some stmt) (s : State) :
    Performs note [event] s (stmt.transfer s) (note.on stmt s) := by
  cases event with
  | declaration | assignment | expression | jump =>
      cases h
      exact ⟨fun _ => rfl, fun _ => List.append_nil _⟩
  | enter | orElse | exit | finish => cases h

/-- The single branch is merged with the condition. -/
theorem branch (h : Performs note body s t taken) :
    Performs note (.enter condition dereferences ref :: (body ++ [.exit])) s (t.merge s)
      (note.on (.condition condition dereferences ref) s ++ taken) where
  run := by
    intro frames
    show Interpreter.run ⟨s, ⟨s, none⟩ :: frames⟩ (body ++ [.exit]) = _
    rw [Interpreter.run_append, h.run]
    rfl
  notes := by
    intro frames
    show note.on (.condition condition dereferences ref) s ++
      Interpreter.notes note ⟨s, ⟨s, none⟩ :: frames⟩ (body ++ [.exit]) = _
    rw [Interpreter.notes_append, h.run, h.notes]
    show _ ++ (taken ++ (note.on (.marker .join) t ++ [])) = _
    rw [note.marker, List.append_nil, List.append_nil]

/-- Both branches begin at the condition. -/
theorem branches (h : Performs note body s t taken) (hother : Performs note other s u taken') :
    Performs note (ifElse condition dereferences ref body other) s (t.merge u)
      (note.on (.condition condition dereferences ref) s ++ (taken ++ taken')) where
  run := by
    intro frames
    show Interpreter.run ⟨s, ⟨s, none⟩ :: frames⟩ (body ++ .orElse :: (other ++ [.exit])) = _
    rw [Interpreter.run_append, h.run]
    show Interpreter.run ⟨s, ⟨s, some t⟩ :: frames⟩ (other ++ [.exit]) = _
    rw [Interpreter.run_append, hother.run]
    rfl
  notes := by
    intro frames
    show note.on (.condition condition dereferences ref) s ++
      Interpreter.notes note ⟨s, ⟨s, none⟩ :: frames⟩ (body ++ .orElse :: (other ++ [.exit])) = _
    rw [Interpreter.notes_append, h.run, h.notes]
    show _ ++ (taken ++ (note.on (.marker .orElse) t ++
      Interpreter.notes note ⟨s, ⟨s, some t⟩ :: frames⟩ (other ++ [.exit]))) = _
    rw [Interpreter.notes_append, hother.run, hother.notes]
    show _ ++ (taken ++ (_ ++ (taken' ++ (note.on (.marker .join) u ++ [])))) = _
    rw [note.marker, note.marker, List.nil_append, List.append_nil, List.append_nil]

end Performs

/-- Events that nest know nothing of what is open around them. -/
theorem WellNested.performs {α : Type} {events : List Event} (h : WellNested events)
    (note : Note α) (s : State) : ∃ t taken, Performs note events s t taken := by
  induction h generalizing s with
  | nil => exact ⟨s, [], fun _ => rfl, fun _ => rfl⟩
  | plain hplain _ ih =>
      obtain ⟨stmt, hstmt⟩ := Option.isSome_iff_exists.mp hplain
      obtain ⟨t, taken, hrest⟩ := ih (stmt.transfer s)
      exact ⟨t, _, (Performs.plain hstmt s).append hrest⟩
  | @branch condition dereferences ref _ _ _ _ ihbody ihrest =>
      obtain ⟨t, taken, hbody⟩ := ihbody s
      obtain ⟨u, taken', hrest⟩ := ihrest (t.merge s)
      have hall := (hbody.branch condition dereferences ref).append hrest
      rw [List.cons_append, List.append_assoc] at hall
      exact ⟨u, _, hall⟩
  | @branchElse condition dereferences ref _ _ _ _ _ _ ihbody ihother ihrest =>
      obtain ⟨t, taken, hbody⟩ := ihbody s
      obtain ⟨u, taken', hother⟩ := ihother s
      obtain ⟨v, taken'', hrest⟩ := ihrest (t.merge u)
      have hall := (hbody.branches condition dereferences ref hother).append hrest
      rw [ifElse, List.cons_append, List.append_assoc, List.cons_append, List.append_assoc] at hall
      exact ⟨v, _, hall⟩

/-! ## Changing places -/

section

variable {first second : List Event} (hfirst : WellNested first) (hsecond : WellNested second)
  (condition : String) (dereferences : List String) (ref : SourceRef)

include hfirst hsecond

/-- Whichever branch of an `if` stands first, the same is noted, and the same is known behind it. -/
theorem Interpreter.swap {α : Type} (note : Note α) (i : Interpreter) :
    (i.notes note (ifElse condition dereferences ref first second)).Perm
        (i.notes note (ifElse condition dereferences ref second first)) ∧
      (i.run (ifElse condition dereferences ref first second)).Same
        (i.run (ifElse condition dereferences ref second first)) := by
  obtain ⟨s, frames⟩ := i
  obtain ⟨t, taken, ht⟩ := hfirst.performs note s
  obtain ⟨u, taken', hu⟩ := hsecond.performs note s
  have htu := ht.branches condition dereferences ref hu
  have hut := hu.branches condition dereferences ref ht
  constructor
  · rw [htu.notes, hut.notes]
    exact List.perm_append_comm.append_left _
  · rw [htu.run, hut.run]
    exact ⟨State.same_merge_comm t u, List.forall₂_same.mpr fun frame _ => .refl frame⟩

/-- So it is in the middle of a source. -/
theorem Interpreter.swap_within {α : Type} (note : Note α) (i : Interpreter)
    (before after : List Event) :
    (i.notes note (before ++ ifElse condition dereferences ref first second ++ after)).Perm
        (i.notes note (before ++ ifElse condition dereferences ref second first ++ after)) ∧
      (i.run (before ++ ifElse condition dereferences ref first second ++ after)).Same
        (i.run (before ++ ifElse condition dereferences ref second first ++ after)) := by
  obtain ⟨hnotes, hrun⟩ :=
    Interpreter.swap hfirst hsecond condition dereferences ref note (i.run before)
  simp only [notes_append, run_append]
  refine ⟨?_, hrun.run after⟩
  rw [hrun.notes_eq note after]
  exact (hnotes.append_left _).append_right _

end

/-! ## Checks of two sources -/

namespace Source

variable {s s' : Source} {o : Options}

/-- Sources in which the same is shown are reported alike. -/
theorem findings_perm {r r' : Check.Outcome} (hr : s.check o = .ok r) (hr' : s'.check o = .ok r')
    (h : ((s.observations o).filterMap Check.shown).Perm
      ((s'.observations o).filterMap Check.shown)) :
    (r.findings.map Finding.forgetNode).Perm (r'.findings.map Finding.forgetNode) := by
  have hfound : (((s.observations o).filterMap Check.finding?).map Finding.forgetNode).Perm
      (((s'.observations o).filterMap Check.finding?).map Finding.forgetNode) := by
    rw [Check.map_forgetNode_findings, Check.map_forgetNode_findings]
    exact h.filterMap _
  have hempty : ((s.observations o).filterMap Check.finding?).isEmpty =
      ((s'.observations o).filterMap Check.finding?).isEmpty := by
    have hlength := hfound.length_eq
    rw [List.length_map, List.length_map] at hlength
    rw [Bool.eq_iff_iff, List.isEmpty_iff_length_eq_zero, List.isEmpty_iff_length_eq_zero, hlength]
  have hfindings : r.findings = if ((s.observations o).filterMap Check.finding?).isEmpty then
      [.clean] else (s.observations o).filterMap Check.finding? := Check.findings_of_outcome hr
  have hfindings' : r'.findings = if ((s'.observations o).filterMap Check.finding?).isEmpty then
      [.clean] else (s'.observations o).filterMap Check.finding? := Check.findings_of_outcome hr'
  rw [hfindings, hfindings', hempty]
  split
  · exact .refl _
  · exact hfound

/-- The issues of a check that the builder did not raise. -/
theorem ofKind_issues {r : Check.Outcome} (hr : s.check o = .ok r) {kind : Issue.Kind}
    (hkind : kind ≠ .structuralInconsistency) :
    Issue.ofKind kind r.issues = Issue.ofKind kind s.analysis.issues ++
      Issue.ofKind kind ((s.observations o).filterMap Check.issue?) := by
  have hknown : Issue.ofKind kind (s.start.runIssues (s.events ++ [.finish])) = [] := by
    apply List.filter_eq_nil_iff.mpr
    intro issue hissue
    rw [decide_eq_true_iff, Builder.kind_of_mem_runIssues hissue]
    exact hkind.symm
  have hissues : r.issues = s.start.runIssues (s.events ++ [.finish]) ++ s.analysis.issues ++
      (s.observations o).filterMap Check.issue? := Check.issues_of_outcome hr
  rw [hissues]
  unfold Issue.ofKind at hknown ⊢
  rw [List.filter_append, List.filter_append, hknown, List.nil_append]

theorem issues_perm {r r' : Check.Outcome} (hr : s.check o = .ok r) (hr' : s'.check o = .ok r')
    (hshown : ((s.observations o).filterMap Check.shown).Perm
      ((s'.observations o).filterMap Check.shown))
    (hskipped : s.analysis.issues.Perm s'.analysis.issues) {kind : Issue.Kind}
    (hkind : kind ≠ .structuralInconsistency) :
    (Issue.ofKind kind r.issues).Perm (Issue.ofKind kind r'.issues) := by
  have hissues : ((s.observations o).filterMap Check.issue?).Perm
      ((s'.observations o).filterMap Check.issue?) := by
    rw [Check.filterMap_issue?_eq, Check.filterMap_issue?_eq]
    exact hshown.filterMap _
  rw [ofKind_issues hr hkind, ofKind_issues hr' hkind]
  exact (hskipped.filter _).append (hissues.filter _)

end Source

/-- **Branches may change places.** Take any source with an `if` in it whose two branches nest, and
let the branches change places. Apart from the ids of nodes, a check finds the same, each finding as
often as before; it meets the same names that are not tracked and the same statements that cannot be
made sense of; and the final states have the same entries. -/
theorem swapped_branches_agree (home : Nat) (name : Option String)
    (before after first second : List Event) (hfirst : WellNested first)
    (hsecond : WellNested second) (condition : String) (dereferences : List String)
    (ref : SourceRef) (o : Options)
    (hlines : ∀ event ∈ before ++ ifElse condition dereferences ref first second ++ after,
      event.lineReadable = true) :
    let source : List Event → List Event → Source := fun body other =>
      { home, name, events := before ++ ifElse condition dereferences ref body other ++ after }
    ∃ r r', (source first second).check o = .ok r ∧ (source second first).check o = .ok r' ∧
      (r.findings.map Finding.forgetNode).Perm (r'.findings.map Finding.forgetNode) ∧
      (∀ kind, kind = .unknownVariable ∨ kind = .malformedInput →
        (Issue.ofKind kind r.issues).Perm (Issue.ofKind kind r'.issues)) ∧
      (source first second).analysis.final.sameEntries (source second first).analysis.final =
        true := by
  intro source
  have hlines' : ∀ event ∈ (source second first).events, event.lineReadable = true := by
    intro event hevent
    apply hlines
    simp only [source, ifElse, List.mem_append, List.mem_cons] at hevent ⊢
    tauto
  have hswap : ∀ {α : Type} (note : Note α),
      (Interpreter.notes note {} ((source first second).events ++ [.finish])).Perm
        (Interpreter.notes note {} ((source second first).events ++ [.finish])) ∧
      (Interpreter.run {} ((source first second).events ++ [.finish])).Same
        (Interpreter.run {} ((source second first).events ++ [.finish])) := by
    intro α note
    simp only [source, List.append_assoc _ after]
    exact Interpreter.swap_within hfirst hsecond condition dereferences ref note {} before
      (after ++ [.finish])
  obtain ⟨r, hr⟩ := Source.exists_check (s := source first second) hlines o
  obtain ⟨r', hr'⟩ := Source.exists_check (s := source second first) hlines' o
  have hshown := ((source first second).shown_perm o).trans
    ((hswap (.shown o)).1.trans ((source second first).shown_perm o).symm)
  have hskipped := (source first second).skipped_perm.trans
    ((hswap .skipped).1.trans (source second first).skipped_perm.symm)
  refine ⟨r, r', hr, hr', Source.findings_perm hr hr' hshown, ?_, ?_⟩
  · rintro kind (rfl | rfl)
    · exact Source.issues_perm hr hr' hshown hskipped (by decide)
    · exact Source.issues_perm hr hr' hshown hskipped (by decide)
  · rw [Source.final_eq, Source.final_eq]
    exact (hswap .skipped).2.current.sameEntries

/-- `int *q = NULL; *q = 1;` -/
def nullInBranch : List Event :=
  [.declaration "int *q = NULL;" (some "q") true true true [] {}, .expression "*q = 1;" ["q"] {}]

/-- `p = NULL; if(d) { *u = 2; } ? = 3; int r;` -/
def strayInBranch : List Event :=
  [.assignment "p = NULL;" (some "p") true [] {}, .enter "d" [] {},
   .expression "*u = 2;" ["u"] {}, .exit, .assignment "? = 3;" none false [] {},
   .declaration "int r;" (some "r") false false false [] {}]

theorem wellNested_nullInBranch : WellNested nullInBranch := .plain rfl (.plain rfl .nil)

theorem wellNested_strayInBranch : WellNested strayInBranch := by
  have hbody : WellNested [.expression "*u = 2;" ["u"] {}] := .plain rfl .nil
  exact .plain rfl (.branch hbody (.plain rfl (.plain rfl .nil)))

/-- The uses of `p` and `q` behind the `if` are found either way, although the states there list
their entries differently. -/
theorem swapped_branches_agree_nullInBranch :
    let source : List Event → List Event → Source := fun body other =>
      { events := [.declaration "int *p = &x;" (some "p") true false true [] {}] ++
          ifElse "c" [] {} body other ++ [.expression "*p = *q;" ["p", "q"] {}] }
    (source nullInBranch strayInBranch).analysis.final.names = ["p", "q", "r"] ∧
    (source strayInBranch nullInBranch).analysis.final.names = ["p", "r", "q"] ∧
    ∃ r r', (source nullInBranch strayInBranch).check {} = .ok r ∧
      (source strayInBranch nullInBranch).check {} = .ok r' ∧
      (r.findings.map Finding.forgetNode).Perm (r'.findings.map Finding.forgetNode) ∧
      (∀ kind, kind = .unknownVariable ∨ kind = .malformedInput →
        (Issue.ofKind kind r.issues).Perm (Issue.ofKind kind r'.issues)) ∧
      r.findings.length = 3 ∧ r.issues.length = 2 ∧
      (source nullInBranch strayInBranch).analysis.final.sameEntries
        (source strayInBranch nullInBranch).analysis.final = true := by
  intro source
  obtain ⟨r, r', hr, hr', hfindings, hissues, hfinal⟩ := swapped_branches_agree 0 none
    [.declaration "int *p = &x;" (some "p") true false true [] {}]
    [.expression "*p = *q;" ["p", "q"] {}] nullInBranch strayInBranch wellNested_nullInBranch
    wellNested_strayInBranch "c" [] {} {} (by decide)
  have hcount : ((source nullInBranch strayInBranch).check {}).toOption.map
      (fun r => (r.findings.length, r.issues.length)) = some (3, 2) := by
    decide +kernel
  rw [show (source nullInBranch strayInBranch).check {} = .ok r from hr] at hcount
  obtain ⟨hfound, hmet⟩ := Prod.mk.inj (Option.some.inj hcount)
  exact ⟨by decide +kernel, by decide +kernel, r, r', hr, hr', hfindings, hissues, hfound, hmet,
    hfinal⟩

end NullSafety
