import NullSafety.Proofs.Calls

/-!
# How events nest

Which `if` an else or an end belongs to can be read off the events alone: it is the last one that
has been begun and not ended, whatever stray events lie around it. The frames of a builder keep
track of exactly that: the innermost frame is that of the innermost `if`.
-/

namespace NullSafety

/-! ## Events inside an `if` -/

/-- Events inside an `if` that leave it open: of the `if`s among them every one is ended among them.
`elses` tells whether there may be an else on their own level. Where the else branch has begun
already, such an else is one too many. -/
inductive Within : (elses : Bool) → List Event → Prop
  | nil {elses : Bool} : Within elses []
  | plain {elses : Bool} {event : Event} {events : List Event} (h : event.plain?.isSome = true)
      (hrest : Within elses events) : Within elses (event :: events)
  | orElse {events : List Event} (hrest : Within true events) : Within true (.orElse :: events)
  | nested {elses : Bool} {condition : String} {dereferences : List String} {ref : SourceRef}
      {inner events : List Event} (hinner : Within true inner) (hrest : Within elses events) :
      Within elses (.enter condition dereferences ref :: (inner ++ .exit :: events))

/-- `InnermostIf events conditionAt elseAt`: the last `if` that is open behind the events has its
condition in the event number `conditionAt`, and its else, if it has one yet, in the event number
`elseAt`. -/
inductive InnermostIf : List Event → (conditionAt : Nat) → (elseAt : Option Nat) → Prop
  | first {outer body : List Event} {condition : String} {dereferences : List String}
      {ref : SourceRef} (hbody : Within false body) :
      InnermostIf (outer ++ .enter condition dereferences ref :: body) outer.length none
  | second {outer body other : List Event} {condition : String} {dereferences : List String}
      {ref : SourceRef} (hbody : Within false body) (hother : Within true other) :
      InnermostIf (outer ++ .enter condition dereferences ref :: (body ++ .orElse :: other))
        outer.length (some (outer.length + 1 + body.length))

theorem Within.append {elses : Bool} {events more : List Event} (h : Within elses events)
    (hmore : Within elses more) : Within elses (events ++ more) := by
  induction h with
  | nil => exact hmore
  | plain hplain _ ih => exact .plain hplain (ih hmore)
  | orElse _ ih => exact .orElse (ih hmore)
  | nested hinner _ _ ih =>
      rw [List.cons_append, List.append_assoc, List.cons_append]
      exact .nested hinner (ih hmore)

theorem Within.allowElse {elses : Bool} {events : List Event} (h : Within elses events) :
    Within true events := by
  induction h with
  | nil => exact .nil
  | plain hplain _ ih => exact .plain hplain ih
  | orElse _ ih => exact .orElse ih
  | nested hinner _ _ ih => exact .nested hinner ih

theorem depthAfter_of_plain? {event : Event} (h : event.plain?.isSome = true) (depth : Nat) :
    event.depthAfter depth = depth := by
  cases event with
  | declaration | assignment | expression | jump => rfl
  | enter | orElse | exit | finish => cases h

theorem Within.depth_eq {elses : Bool} {events : List Event} (h : Within elses events)
    (depth : Nat) : events.foldl Event.depthAfter depth = depth := by
  induction h generalizing depth with
  | nil => rfl
  | plain hplain _ ih => rw [List.foldl_cons, depthAfter_of_plain? hplain, ih]
  | orElse _ ih => exact ih depth
  | nested _ _ ihinner ih =>
      rw [List.foldl_cons, List.foldl_append, ihinner, List.foldl_cons]
      exact ih depth

namespace InnermostIf

variable {events : List Event} {conditionAt : Nat} {elseAt : Option Nat}

/-- The events from the condition on. -/
theorem exists_body (h : InnermostIf events conditionAt elseAt) :
    ∃ outer condition dereferences ref body, Within true body ∧
      events = outer ++ .enter condition dereferences ref :: body := by
  cases h with
  | first hbody => exact ⟨_, _, _, _, _, hbody.allowElse, rfl⟩
  | second hbody hother => exact ⟨_, _, _, _, _, hbody.allowElse.append (.orElse hother), rfl⟩

/-- Going on inside the innermost `if` leaves it the innermost. -/
theorem append (h : InnermostIf events conditionAt elseAt) {more : List Event}
    (hmore : Within elseAt.isSome more) : InnermostIf (events ++ more) conditionAt elseAt := by
  cases h with
  | first hbody =>
      rw [List.append_assoc, List.cons_append]
      exact .first (hbody.append hmore)
  | second hbody hother =>
      rw [List.append_assoc, List.cons_append, List.append_assoc, List.cons_append]
      exact .second hbody (hother.append hmore)

/-- The first else begins the else branch. -/
theorem orElse (h : InnermostIf events conditionAt none) :
    InnermostIf (events ++ [.orElse]) conditionAt (some events.length) := by
  cases h with
  | @first outer body condition dereferences ref hbody =>
      have hsecond : InnermostIf
          (outer ++ .enter condition dereferences ref :: (body ++ .orElse :: []))
          outer.length (some (outer.length + 1 + body.length)) := .second hbody .nil
      have hlength : outer.length + 1 + body.length =
          (outer ++ .enter condition dereferences ref :: body).length := by
        rw [List.length_append, List.length_cons]
        omega
      rw [hlength] at hsecond
      rw [List.append_assoc]
      exact hsecond

theorem elseAt_lt (h : InnermostIf events conditionAt elseAt) {k : Nat} (hk : elseAt = some k) :
    0 < k ∧ k < events.length := by
  cases h with
  | first _ => cases hk
  | second _ _ =>
      cases hk
      simp only [List.length_append, List.length_cons]
      omega

end InnermostIf

/-- Where an `if` is open, one is the innermost. -/
theorem exists_innermostIf {events : List Event} (h : .finish ∉ events)
    (hopen : 0 < openIfs events) : ∃ conditionAt elseAt, InnermostIf events conditionAt elseAt := by
  -- when an `if` ends, the one around it is found among fewer events still
  induction hlength : events.length using Nat.strongRecOn generalizing events with
  | _ length ih =>
      rcases List.eq_nil_or_concat' events with rfl | ⟨init, event, rfl⟩
      · exact absurd hopen (Nat.lt_irrefl 0)
      · rw [List.mem_append, not_or, List.mem_singleton] at h
        rw [List.length_append, List.length_singleton] at hlength
        rw [openIfs_concat] at hopen
        cases event with
        | declaration | assignment | expression | jump =>
            obtain ⟨i, j, hi⟩ := ih init.length (by omega) h.1 hopen rfl
            exact ⟨i, j, hi.append (.plain rfl .nil)⟩
        | enter => exact ⟨init.length, none, .first .nil⟩
        | orElse =>
            obtain ⟨i, j, hi⟩ := ih init.length (by omega) h.1 hopen rfl
            cases j with
            | none => exact ⟨i, _, hi.orElse⟩
            | some k => exact ⟨i, some k, hi.append (.orElse .nil)⟩
        | exit =>
            have hinit : 1 < openIfs init := Nat.lt_of_sub_pos hopen
            obtain ⟨i, j, hi⟩ := ih init.length (by omega) h.1 (by omega) rfl
            obtain ⟨outer, condition, dereferences, ref, body, hbody, rfl⟩ := hi.exists_body
            have houter : 0 < openIfs outer := by
              unfold openIfs at hinit ⊢
              rw [List.foldl_append, List.foldl_cons, hbody.depth_eq] at hinit
              exact Nat.lt_of_succ_lt_succ hinit
            rw [List.mem_append, not_or] at h
            rw [List.length_append, List.length_cons] at hlength
            obtain ⟨i, j, hi⟩ := ih outer.length (by omega) h.1.1 houter rfl
            refine ⟨i, j, ?_⟩
            rw [List.append_assoc, List.cons_append]
            exact hi.append (.nested hbody .nil)
        | finish => exact absurd rfl h.2

/-! ## The frames of a builder -/

namespace Builder

theorem frames_step_plain (b : Builder) {event : Event} (h : event.plain?.isSome = true) :
    (b.step event).frames = b.frames := by
  cases event with
  | declaration | assignment | expression | jump => rfl
  | enter | orElse | exit | finish => cases h

theorem run_nested (b : Builder) (condition : String) (dereferences : List String) (ref : SourceRef)
    (inner events : List Event) :
    b.run (.enter condition dereferences ref :: (inner ++ .exit :: events)) =
      (((b.step (.enter condition dereferences ref)).run inner).step .exit).run events :=
  run_append (b.step (.enter condition dereferences ref)) inner (.exit :: events)

/-- Events inside an `if` do not touch the frames around it. -/
theorem frames_run_within {elses : Bool} {events : List Event} (h : Within elses events)
    {b : Builder} {frame : Frame} {rest : List Frame} (hframes : b.frames = frame :: rest) :
    ∃ frame', (b.run events).frames = frame' :: rest := by
  induction h generalizing b frame rest with
  | nil => exact ⟨frame, hframes⟩
  | plain hplain _ ih => exact ih ((b.frames_step_plain hplain).trans hframes)
  | orElse _ ih =>
      cases hexit : frame.bodyExit with
      | none => exact ih (congrArg frames (step_orElse_of_open hframes hexit))
      | some n => exact ih ((congrArg frames (step_orElse_of_taken hframes hexit)).trans hframes)
  | @nested _ condition dereferences ref inner events _ _ ihinner ih =>
      obtain ⟨frame', hinner⟩ := ihinner
        (rfl : (b.step (.enter condition dereferences ref)).frames = _ :: b.frames)
      rw [run_nested]
      exact ih ((congrArg frames (step_exit_of_cons hinner)).trans hframes)

/-- Nor its own frame, unless they hold the first else. -/
theorem frames_run_within_same {elses : Bool} {events : List Event} (h : Within elses events)
    {b : Builder} {frame : Frame} {rest : List Frame} (hframes : b.frames = frame :: rest)
    (helse : elses = true → ∃ n, frame.bodyExit = some n) :
    (b.run events).frames = frame :: rest := by
  induction h generalizing b with
  | nil => exact hframes
  | plain hplain _ ih => exact ih ((b.frames_step_plain hplain).trans hframes) helse
  | orElse _ ih =>
      obtain ⟨n, hexit⟩ := helse rfl
      exact ih ((congrArg frames (step_orElse_of_taken hframes hexit)).trans hframes) helse
  | @nested _ condition dereferences ref inner events hinner _ _ ih =>
      obtain ⟨frame', hframes'⟩ := frames_run_within hinner
        (rfl : (b.step (.enter condition dereferences ref)).frames = _ :: b.frames)
      rw [run_nested]
      exact ih ((congrArg frames (step_exit_of_cons hframes')).trans hframes) helse

/-- The innermost frame is that of the innermost `if`. It holds the node of the condition and, once
there is an else, the node made just before it. -/
theorem frames_run_innermostIf (home : Nat) (name : Option String) {events : List Event}
    {conditionAt : Nat} {elseAt : Option Nat} (h : InnermostIf events conditionAt elseAt)
    (hfinish : .finish ∉ events) :
    ∃ frame rest, (Builder.run { graph := { home, name } } events).frames = frame :: rest ∧
      frame.condition.id = conditionAt ∧
      frame.bodyExit.map Node.id = elseAt.map (· - 1) := by
  -- up to the else, if there is one
  have hfirst : ∀ (outer body : List Event) (condition : String) (dereferences : List String)
      (ref : SourceRef), Within false body → .finish ∉ outer →
      ∃ node rest, (Builder.run { graph := { home, name } }
        (outer ++ .enter condition dereferences ref :: body)).frames = ⟨node, none⟩ :: rest ∧
        node.id = outer.length := by
    intro outer body condition dereferences ref hbody houter
    rw [run_append]
    exact ⟨_, _, frames_run_within_same hbody rfl nofun, size_run home name houter⟩
  cases h with
  | first hbody =>
      obtain ⟨node, rest, hframes, hid⟩ := hfirst _ _ _ _ _ hbody fun hmem =>
        hfinish (List.mem_append_left _ hmem)
      exact ⟨_, rest, hframes, hid, rfl⟩
  | @second outer body other condition dereferences ref hbody hother =>
      have hsplit : outer ++ .enter condition dereferences ref :: (body ++ .orElse :: other) =
          (outer ++ .enter condition dereferences ref :: body) ++ .orElse :: other := by
        rw [List.append_assoc, List.cons_append]
      rw [hsplit] at hfinish ⊢
      rw [List.mem_append, not_or] at hfinish
      obtain ⟨node, rest, hframes, hid⟩ := hfirst outer body condition dereferences ref hbody
        fun hmem => hfinish.1 (List.mem_append_left _ hmem)
      obtain ⟨tail, htail, htailId⟩ := exists_tail_run home name hfinish.1 (by simp)
      rw [run_append]
      refine ⟨⟨node, some tail⟩, rest, ?_, hid, ?_⟩
      · refine frames_run_within_same hother ?_ fun _ => ⟨tail, rfl⟩
        rw [step_orElse_of_open hframes rfl, beginElse, htail]
        rfl
      · rw [List.length_append, List.length_cons] at htailId
        have hexit : tail.id = outer.length + 1 + body.length - 1 := by omega
        exact congrArg some hexit

end Builder

end NullSafety
