import NullSafety.Builder.Account
import NullSafety.Proofs.Calls

/-!
# Events that nest, and complaints about those that do not

A grammar says which events nest: plain statements, and `if`s with at most one else each, which
begin and end around events that nest in turn. A builder knows nothing of the grammar. It keeps
its open frames and complains about single events, and after a complaint it goes on.

The two agree: a builder has nothing to say about a source exactly if its events nest. What it
complains about can be counted without a builder, from what is open before each event.
-/

namespace NullSafety

/-! ## The grammar -/

/-- The events that nest. Every `if` among them is ended among them, and has at most one else. -/
inductive WellNested : List Event → Prop
  | nil : WellNested []
  | plain {event : Event} {rest : List Event} (h : event.plain?.isSome = true)
      (hrest : WellNested rest) : WellNested (event :: rest)
  | branch {condition : String} {dereferences : List String} {ref : SourceRef}
      {body rest : List Event} (hbody : WellNested body) (hrest : WellNested rest) :
      WellNested (.enter condition dereferences ref :: (body ++ .exit :: rest))
  | branchElse {condition : String} {dereferences : List String} {ref : SourceRef}
      {body other rest : List Event} (hbody : WellNested body) (hother : WellNested other)
      (hrest : WellNested rest) :
      WellNested
        (.enter condition dereferences ref :: (body ++ .orElse :: (other ++ .exit :: rest)))

theorem WellNested.append {events more : List Event} (h : WellNested events)
    (hmore : WellNested more) : WellNested (events ++ more) := by
  induction h with
  | nil => exact hmore
  | plain hplain _ ih => exact .plain hplain ih
  | branch hbody _ _ ih =>
      simp only [List.cons_append, List.append_assoc]
      exact .branch hbody ih
  | branchElse hbody hother _ _ _ ih =>
      simp only [List.cons_append, List.append_assoc]
      exact .branchElse hbody hother ih

/-! ## What is open -/

/-- What is open after an event: for each open `if`, innermost first, whether its else branch has
begun. -/
def Event.openAfter (opened : List Bool) : Event → List Bool
  | .enter .. => false :: opened
  | .orElse =>
    match opened with
    | false :: rest => true :: rest
    | opened => opened
  | .exit => opened.tail
  | .finish => []
  | _ => opened

/-- What is open after the events, from the first on. -/
def openBranches (events : List Event) : List Bool := events.foldl Event.openAfter []

/-- Each event with what is open when it comes. -/
def placed (opened : List Bool) : List Event → List (List Bool × Event)
  | [] => []
  | event :: events => (opened, event) :: placed (event.openAfter opened) events

/-- An else that comes where no `if` is open, or where the innermost one has an else already. -/
def isStrayElse (p : List Bool × Event) : Bool := p.2 = .orElse ∧ p.1.head? ≠ some false

/-- An end that comes where no `if` is open. -/
def isStrayExit (p : List Bool × Event) : Bool := p.2 = .exit ∧ p.1 = []

theorem placed_append (opened : List Bool) (events more : List Event) :
    placed opened (events ++ more) =
      placed opened events ++ placed (events.foldl Event.openAfter opened) more := by
  induction events generalizing opened with
  | nil => rfl
  | cons event events ih => simp [placed, ih]

theorem openAfter_of_plain? {event : Event} (h : event.plain?.isSome = true)
    (opened : List Bool) : event.openAfter opened = opened := by
  cases event with
  | declaration | assignment | expression | jump => rfl
  | enter | orElse | exit | finish => cases h

/-- Events that nest leave open what was open. -/
theorem WellNested.foldl_openAfter {events : List Event} (h : WellNested events)
    (opened : List Bool) : events.foldl Event.openAfter opened = opened := by
  induction h generalizing opened with
  | nil => rfl
  | plain hplain _ ih => rw [List.foldl_cons, openAfter_of_plain? hplain, ih]
  | branch _ _ ihbody ih => simp [Event.openAfter, ihbody, ih]
  | branchElse _ _ _ ihbody ihother ih => simp [Event.openAfter, ihbody, ihother, ih]

/-- None of the events is out of place, and in the end nothing is open. -/
def Faultless (opened : List Bool) (events : List Event) : Prop :=
  (∀ p ∈ placed opened events, isStrayElse p = false ∧ isStrayExit p = false) ∧
    events.foldl Event.openAfter opened = []

theorem not_stray_of_plain? {event : Event} (h : event.plain?.isSome = true)
    (opened : List Bool) :
    isStrayElse (opened, event) = false ∧ isStrayExit (opened, event) = false := by
  cases event with
  | declaration | assignment | expression | jump => exact ⟨rfl, rfl⟩
  | enter | orElse | exit | finish => cases h

/-- Wherever they come, events that nest are all in place. -/
theorem WellNested.not_stray {events : List Event} (h : WellNested events) (opened : List Bool) :
    ∀ p ∈ placed opened events, isStrayElse p = false ∧ isStrayExit p = false := by
  induction h generalizing opened with
  | nil =>
      intro p hp
      cases hp
  | plain hplain _ ih =>
      intro p hp
      rcases List.mem_cons.mp hp with rfl | hp
      · exact not_stray_of_plain? hplain opened
      · rw [openAfter_of_plain? hplain] at hp
        exact ih opened p hp
  | branch hbody _ ihbody ih =>
      intro p hp
      simp only [placed, placed_append, hbody.foldl_openAfter, Event.openAfter, List.tail_cons,
        List.mem_cons, List.mem_append] at hp
      rcases hp with rfl | hp | rfl | hp
      · exact ⟨rfl, rfl⟩
      · exact ihbody _ p hp
      · exact ⟨rfl, rfl⟩
      · exact ih opened p hp
  | branchElse hbody hother _ ihbody ihother ih =>
      intro p hp
      simp only [placed, placed_append, hbody.foldl_openAfter, hother.foldl_openAfter,
        Event.openAfter, List.tail_cons, List.mem_cons, List.mem_append] at hp
      rcases hp with rfl | hp | rfl | hp | rfl | hp
      · exact ⟨rfl, rfl⟩
      · exact ihbody _ p hp
      · exact ⟨rfl, rfl⟩
      · exact ihother _ p hp
      · exact ⟨rfl, rfl⟩
      · exact ih opened p hp

/-! ## The grammar with `if`s open -/

/-- Events that nest but for the ends of the `if`s that are open when they begin, and for an else
of each of these that has none yet. -/
inductive Completes : List Bool → List Event → Prop
  | done {events : List Event} (h : WellNested events) : Completes [] events
  | exit {hasElse : Bool} {opened : List Bool} {body rest : List Event} (hbody : WellNested body)
      (hrest : Completes opened rest) : Completes (hasElse :: opened) (body ++ .exit :: rest)
  | orElse {opened : List Bool} {body other rest : List Event} (hbody : WellNested body)
      (hother : WellNested other) (hrest : Completes opened rest) :
      Completes (false :: opened) (body ++ .orElse :: (other ++ .exit :: rest))

namespace Completes

theorem nested_append {opened : List Bool} {nested events : List Event}
    (hnested : WellNested nested) (h : Completes opened events) :
    Completes opened (nested ++ events) := by
  cases h with
  | done h => exact .done (hnested.append h)
  | exit hbody hrest =>
      rw [← List.append_assoc]
      exact .exit (hnested.append hbody) hrest
  | orElse hbody hother hrest =>
      rw [← List.append_assoc]
      exact .orElse (hnested.append hbody) hother hrest

/-- The end that an open `if` waits for makes it one that nests. -/
theorem enter {opened : List Bool} {events : List Event} (condition : String)
    (dereferences : List String) (ref : SourceRef) (h : Completes (false :: opened) events) :
    Completes opened (.enter condition dereferences ref :: events) := by
  cases h with
  | @exit _ _ body rest hbody hrest =>
      have hif : WellNested (.enter condition dereferences ref :: (body ++ .exit :: [])) :=
        .branch hbody .nil
      simpa using nested_append hif hrest
  | @orElse _ body other rest hbody hother hrest =>
      have hif : WellNested (.enter condition dereferences ref ::
          (body ++ .orElse :: (other ++ .exit :: []))) := .branchElse hbody hother .nil
      simpa using nested_append hif hrest

theorem beginElse {opened : List Bool} {events : List Event}
    (h : Completes (true :: opened) events) :
    Completes (false :: opened) (.orElse :: events) := by
  cases h with
  | exit hbody hrest => exact .orElse .nil hbody hrest

/-- Events without fault complete what is open. -/
theorem of_faultless {opened : List Bool} {events : List Event} (hfinish : .finish ∉ events)
    (h : Faultless opened events) : Completes opened events := by
  induction events generalizing opened with
  | nil =>
      obtain rfl : opened = [] := h.2
      exact .done .nil
  | cons event events ih =>
      obtain ⟨hplaced, hclosed⟩ := h
      rw [List.mem_cons, not_or] at hfinish
      obtain ⟨helse, hexit⟩ := hplaced (opened, event) List.mem_cons_self
      have hrest : Completes (event.openAfter opened) events :=
        ih hfinish.2 ⟨fun p hp => hplaced p (List.mem_cons_of_mem _ hp), hclosed⟩
      cases event with
      | declaration | assignment | expression | jump =>
          exact nested_append (.plain rfl .nil) hrest
      | enter condition dereferences ref => exact hrest.enter condition dereferences ref
      | orElse =>
          -- the innermost `if` is open and has no else
          rcases opened with _ | ⟨_ | _, opened⟩
          · cases helse
          · exact hrest.beginElse
          · cases helse
      | exit =>
          rcases opened with _ | ⟨hasElse, opened⟩
          · cases hexit
          · exact .exit .nil hrest
      | finish => exact absurd rfl hfinish.1

end Completes

theorem wellNested_iff_faultless {events : List Event} (hfinish : .finish ∉ events) :
    WellNested events ↔ Faultless [] events := by
  constructor
  · intro h
    exact ⟨h.not_stray [], h.foldl_openAfter []⟩
  · intro h
    cases Completes.of_faultless hfinish h with
    | done h => exact h

/-! ## What a builder complains about -/

namespace Builder

/-- What is open for a builder. -/
def openBranches (b : Builder) : List Bool := b.frames.map fun frame => frame.bodyExit.isSome

theorem openBranches_step (b : Builder) (event : Event) :
    (b.step event).openBranches = event.openAfter b.openBranches := by
  unfold openBranches
  cases event with
  | declaration | assignment | expression | jump | enter => rfl
  | orElse =>
      rcases hframes : b.frames with _ | ⟨frame, rest⟩
      · rw [step_orElse_of_nil hframes, append, hframes]
        rfl
      · cases hexit : frame.bodyExit with
        | none =>
            rw [step_orElse_of_open hframes hexit]
            simp [beginElse, Event.openAfter, hexit]
        | some n =>
            rw [step_orElse_of_taken hframes hexit, append, hframes]
            simp [Event.openAfter, hexit]
  | exit =>
      rcases hframes : b.frames with _ | ⟨frame, rest⟩
      · rw [step_exit_of_nil hframes, append, hframes]
        rfl
      · rw [step_exit_of_cons hframes]
        rfl
  | finish =>
      rw [frames_finish]
      rfl

theorem openBranches_run (b : Builder) (events : List Event) :
    (b.run events).openBranches = events.foldl Event.openAfter b.openBranches := by
  induction events generalizing b with
  | nil => rfl
  | cons event events ih =>
      rw [List.foldl_cons, ← openBranches_step]
      exact ih (b.step event)

theorem kind_of_mem_issues {b : Builder} {event : Event} {issue : Issue}
    (h : issue ∈ b.issues event) : issue.kind = .structuralInconsistency := by
  cases event with
  | declaration | assignment | expression | jump | enter => cases h
  | orElse | exit =>
      simp only [issues] at h
      split at h
      · cases h
      · rw [List.mem_singleton.mp h]
  | finish =>
      obtain ⟨frame, -, rfl⟩ := List.mem_map.mp h
      rfl

/-- All that a builder complains about is how the branches nest. -/
theorem kind_of_mem_runIssues {b : Builder} {events : List Event} {issue : Issue}
    (h : issue ∈ b.runIssues events) : issue.kind = .structuralInconsistency := by
  induction events generalizing b with
  | nil => cases h
  | cons event events ih =>
      rcases List.mem_append.mp h with h | h
      · exact kind_of_mem_issues h
      · exact ih h

theorem ofKind_runIssues (b : Builder) (events : List Event) :
    Issue.ofKind .structuralInconsistency (b.runIssues events) = b.runIssues events := by
  apply List.filter_eq_self.mpr
  intro issue hissue
  exact decide_eq_true (kind_of_mem_runIssues hissue)

/-- An event gives rise to one complaint if it is out of place, and to none otherwise. -/
theorem length_issues (b : Builder) {event : Event} (h : event ≠ .finish) :
    (b.issues event).length =
      (if isStrayElse (b.openBranches, event) then 1 else 0) +
        if isStrayExit (b.openBranches, event) then 1 else 0 := by
  unfold openBranches
  cases event with
  | declaration | assignment | expression | jump | enter => rfl
  | orElse =>
      rcases hframes : b.frames with _ | ⟨frame, rest⟩
      · simp [issues, openElse?, hframes, isStrayElse, isStrayExit]
      · cases hexit : frame.bodyExit <;>
          simp [issues, openElse?, hframes, hexit, isStrayElse, isStrayExit]
  | exit =>
      rcases hframes : b.frames with _ | ⟨frame, rest⟩ <;>
        simp [issues, hframes, isStrayElse, isStrayExit]
  | finish => exact absurd rfl h

/-- The complaints about events and the end behind them: one for each event out of place, and one
for each `if` that is still open. -/
theorem length_runIssues (b : Builder) {events : List Event} (h : .finish ∉ events) :
    (b.runIssues (events ++ [.finish])).length =
      (placed b.openBranches events).countP isStrayElse +
        (placed b.openBranches events).countP isStrayExit +
        (events.foldl Event.openAfter b.openBranches).length := by
  induction events generalizing b with
  | nil => simp [runIssues, issues, placed, openBranches]
  | cons event events ih =>
      rw [List.mem_cons, not_or] at h
      have hfirst := b.length_issues (Ne.symm h.1)
      have hrest := ih (b.step event) h.2
      rw [openBranches_step] at hrest
      simp only [List.cons_append, runIssues, List.length_append, placed, List.countP_cons,
        List.foldl_cons]
      omega

theorem runIssues_eq_nil_iff (b : Builder) {events : List Event} (h : .finish ∉ events) :
    b.runIssues (events ++ [.finish]) = [] ↔ Faultless b.openBranches events := by
  rw [← List.length_eq_zero_iff, b.length_runIssues h, Nat.add_eq_zero_iff, Nat.add_eq_zero_iff,
    List.countP_eq_zero, List.countP_eq_zero, List.length_eq_zero_iff]
  unfold Faultless
  simp only [Bool.not_eq_true, forall_and]

end Builder

/-- **A builder complains exactly about what does not nest.** On whatever events, followed by the
end of the source, a new builder records nothing exactly if the events nest. In every case the
issues about the structure are as many as the elses out of place, the ends out of place and the
`if`s still open at the end; and what is open is what the builder holds open. -/
theorem complaints_iff_illNested (home : Nat) (name : Option String) (events : List Event)
    (h : .finish ∉ events) :
    let start : Builder := { graph := { home, name } }
    let log := start.runIssues (events ++ [.finish])
    (log = [] ↔ WellNested events) ∧
    (Issue.ofKind .structuralInconsistency log).length =
      (placed [] events).countP isStrayElse + (placed [] events).countP isStrayExit +
        (openBranches events).length ∧
    ∀ before after, events = before ++ after →
      (start.run before).frames.map (fun frame => frame.bodyExit.isSome) =
        openBranches before := by
  intro start log
  refine ⟨?_, ?_, ?_⟩
  · rw [wellNested_iff_faultless h]
    exact start.runIssues_eq_nil_iff h
  · rw [start.ofKind_runIssues]
    exact start.length_runIssues h
  · intro before after _
    exact start.openBranches_run before

/-- `} if(a) { if(b) {} else {} else {} } else { if(c) {`: an end, an else too many, and two `if`s
that do not end. -/
def fourFaults : List Event :=
  [.exit, .enter "a" [] {}, .enter "b" [] {}, .orElse, .orElse, .exit, .orElse, .enter "c" [] {},
    .expression "f();" [] {}]

theorem complaints_iff_illNested_fourFaults :
    let log := Builder.runIssues {} (fourFaults ++ [.finish])
    .finish ∉ fourFaults ∧ ¬ WellNested fourFaults ∧
      (Issue.ofKind .structuralInconsistency log).length = 4 ∧
      openBranches fourFaults = [false, true] := by
  intro log
  have hfinish : .finish ∉ fourFaults := by decide
  obtain ⟨hempty, hcount, -⟩ := complaints_iff_illNested 0 none fourFaults hfinish
  refine ⟨hfinish, ?_, hcount.trans (by decide), by decide⟩
  intro hnested
  exact absurd (hempty.mpr hnested) (by decide)

end NullSafety
