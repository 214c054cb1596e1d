import NullSafety.Proofs.Cutting

/-!
# Depth enough for a cut

A cut is given a depth of calls that it may make. Where every move goes forward, each call begins
behind the token at which it was made, or at that token with a call of another kind, so less and
less of the list lies ahead. From a depth on that grows with what lies ahead, the cut comes to an
end, and more depth changes nothing: it settles.

What counts as forward is left open here. All that is asked of the links is that some set of
cursors, a stretch, is not left by following them. One stretch is the whole list, if no link leads
back; another is the inside of a body, if the links in it nest.
-/

namespace NullSafety

namespace TokenList

/-- An opening bracket is linked to the token at `k`. -/
def Linked (ts : TokenList) (i k : Nat) : Prop :=
  Cut.isOpener (ts.textAt i) = true ∧ ts.link? i = some k

/-- No opening bracket is linked to a token in front of it. -/
def LinksForward (ts : TokenList) : Prop := ∀ i k, ts.Linked i k → i ≤ k

theorem lt_size_of_link? {ts : TokenList} {i k : Nat} (h : ts.link? i = some k) : i < ts.size := by
  obtain ⟨token, htoken, -⟩ := Option.bind_eq_some_iff.mp h
  exact (Array.getElem?_eq_some_iff.mp htoken).1

theorem linksForward_iff {ts : TokenList} :
    ts.LinksForward ↔ ∀ i < ts.size, ∀ k ∈ ts.link? i,
      Cut.isOpener (ts.textAt i) = true → i ≤ k := by
  constructor
  · intro h i _ k hlink hopener
    exact h i k ⟨hopener, hlink⟩
  · rintro h i k ⟨hopener, hlink⟩
    exact h i (lt_size_of_link? hlink) k hlink hopener

instance (ts : TokenList) : Decidable ts.LinksForward := decidable_of_iff _ linksForward_iff.symm

/-- How much of the list lies ahead of a cursor. -/
def ahead (ts : TokenList) : Cursor → Nat
  | none => 0
  | some i => ts.size - (i + 1) + 1

theorem ahead_next (ts : TokenList) {i j : Nat} (h : i ≤ j) :
    ts.ahead (ts.next j) < ts.ahead (some i) := by
  unfold next
  split
  · simp only [ahead]
    omega
  · exact Nat.succ_pos _

theorem ahead_le (ts : TokenList) (cursor : Cursor) : ts.ahead cursor ≤ ts.size + 1 := by
  cases cursor with
  | none => exact Nat.zero_le _
  | some i =>
      simp only [ahead]
      omega

theorem linked_of_parenAt {ts : TokenList} {i j k : Nat}
    (h : ts.parenAt (ts.next i) = some (j, k)) :
    ts.next i = some j ∧ j = i + 1 ∧ ts.Linked j k := by
  unfold next at h ⊢
  split at h
  · rename_i hlt
    rw [if_pos hlt]
    simp only [parenAt] at h
    split at h
    · rename_i htext
      obtain ⟨link, hlink, heq⟩ := Option.map_eq_some_iff.mp h
      obtain ⟨rfl, rfl⟩ := Prod.mk.inj heq
      exact ⟨rfl, rfl, by rw [htext]; decide, hlink⟩
    · cases h
  · cases h

/-- From one cursor to another there is less ahead, unless the first is at the limit or the end. -/
structure Advances (ts : TokenList) (limit : Nat) (cursor cursor' : Cursor) : Prop where
  le : ts.ahead cursor' ≤ ts.ahead cursor
  lt : ∀ i, cursor = some i → i ≠ limit → ts.ahead cursor' < ts.ahead cursor

theorem Advances.refl_limit (ts : TokenList) (limit : Nat) :
    ts.Advances limit (some limit) (some limit) := by
  refine ⟨Nat.le_refl _, ?_⟩
  rintro _ ⟨⟩ hne
  exact absurd rfl hne

theorem Advances.refl_none (ts : TokenList) (limit : Nat) : ts.Advances limit none none :=
  ⟨Nat.le_refl _, fun _ h => nomatch h⟩

theorem Advances.of_lt {ts : TokenList} {limit : Nat} {cursor cursor' : Cursor}
    (h : ts.ahead cursor' < ts.ahead cursor) : ts.Advances limit cursor cursor' :=
  ⟨Nat.le_of_lt h, fun _ _ _ => h⟩

end TokenList

namespace Cut

/-- A set of cursors that a cut up to a limit does not leave: it goes on to the next token unless
it is at the limit, and from an opening bracket to the token behind its link, which lies ahead. -/
structure Stretch (ts : TokenList) (limit : Nat) (within : Cursor → Prop) : Prop where
  next : ∀ i, within (some i) → i ≠ limit → within (ts.next i)
  behind : ∀ i k, within (some i) → ts.Linked i k → i ≤ k ∧ within (ts.next k)

/-- From a keyword, a cut may go on behind the head in parentheses. -/
theorem Stretch.head {ts : TokenList} {limit i j k : Nat} {within : Cursor → Prop}
    (h : Stretch ts limit within) (hwithin : within (some i)) (hi : i ≠ limit)
    (hparen : ts.parenAt (ts.next i) = some (j, k)) : i ≤ k ∧ within (ts.next k) := by
  obtain ⟨hnext, rfl, hlinked⟩ := TokenList.linked_of_parenAt hparen
  obtain ⟨hle, hbehind⟩ := h.behind (i + 1) k (hnext ▸ h.next i hwithin hi) hlinked
  exact ⟨Nat.le_of_succ_le hle, hbehind⟩

/-- Where no link leads back, all cursors together are such a set. -/
theorem stretch_of_linksForward {ts : TokenList} (h : ts.LinksForward) (limit : Nat) :
    Stretch ts limit fun _ => True :=
  ⟨fun _ _ _ => trivial, fun i k _ hlinked => ⟨h i k hlinked, trivial⟩⟩

theorem enough_lt (ts : TokenList) : 2 * (ts.size + 1) < enough ts := by
  have hsquare := Nat.le_mul_self (ts.size + 1)
  unfold enough
  rw [Nat.mul_assoc]
  omega

/-! ## Statements -/

section

variable {ts : TokenList} {limit : Nat}

/-- The last token that one step of a statement takes. -/
def lastTaken (ts : TokenList) (i : Nat) : Nat :=
  if isOpener (ts.textAt i) then (ts.link? i).getD i else i

theorem lastTaken_cases (ts : TokenList) (i : Nat) :
    lastTaken ts i = i ∨ ts.Linked i (lastTaken ts i) := by
  unfold lastTaken
  split
  · rename_i hopener
    cases hlink : ts.link? i with
    | none => exact Or.inl rfl
    | some k => exact Or.inr ⟨hopener, hlink⟩
  · exact Or.inl rfl

/-- More steps than tokens ahead make no difference. -/
theorem statementLoop_succ (steps : Nat) (cursor : Cursor) (h : ts.ahead cursor ≤ steps) :
    statementLoop ts limit (steps + 1) cursor = statementLoop ts limit steps cursor := by
  induction steps generalizing cursor with
  | zero =>
      cases cursor with
      | none => rfl
      | some i => exact absurd h (Nat.not_succ_le_zero _)
  | succ steps ih =>
      cases cursor with
      | none => rfl
      | some i =>
          rw [statementLoop, statementLoop]
          by_cases hback : lastTaken ts i < i
          · simp only [lastTaken] at hback
            simp only [hback, if_true]
          · have hless := ts.ahead_next (Nat.le_of_not_lt hback)
            have hrest := ih (ts.next (lastTaken ts i)) (by omega)
            simp only [lastTaken] at hrest
            simp only [hrest]

theorem statementLoop_eq {steps : Nat} {cursor : Cursor} (h : ts.ahead cursor ≤ steps) :
    statementLoop ts limit steps cursor = statementLoop ts limit (ts.ahead cursor) cursor := by
  induction h with
  | refl => rfl
  | step hle ih => rw [statementLoop_succ _ cursor hle, ih]

theorem statementFrom_eq (cursor : Cursor) :
    statementFrom ts cursor limit = statementLoop ts limit (ts.ahead cursor) cursor :=
  statementLoop_eq (ts.ahead_le cursor)

theorem statementFrom_none : statementFrom ts none limit = .ok ([], none) := rfl

theorem statementFrom_limit : statementFrom ts (some limit) limit = .ok ([], some limit) := by
  unfold statementFrom
  rw [statementLoop, if_pos rfl]

theorem statementFrom_end {i : Nat} (hi : i ≠ limit) (htext : ts.textAt i = ";") :
    statementFrom ts (some i) limit = .ok ([], ts.next i) := by
  unfold statementFrom
  rw [statementLoop, if_neg hi, if_pos htext]

/-- What is taken before the next step is taken whole, and the rest is a statement of its own. -/
theorem statementFrom_take {i : Nat} (hi : i ≠ limit) (htext : ts.textAt i ≠ ";")
    (hforward : i ≤ lastTaken ts i) :
    statementFrom ts (some i) limit =
      (statementFrom ts (ts.next (lastTaken ts i)) limit >>= fun rest =>
        .ok (List.range' i (lastTaken ts i + 1 - i) ++ rest.1, rest.2)) := by
  have hless := ts.ahead_next hforward
  have hroom := ts.ahead_le (some i)
  have hrest : statementLoop ts limit ts.size (ts.next (lastTaken ts i)) =
      statementFrom ts (ts.next (lastTaken ts i)) limit := by
    rw [statementFrom_eq]
    exact statementLoop_eq (by omega)
  rw [← hrest]
  unfold statementFrom lastTaken at *
  rw [statementLoop, if_neg hi, if_neg htext]
  simp only [Nat.not_lt.mpr hforward, if_false]

/-- A statement in a stretch comes to an end in it, and has gone forward. -/
theorem exists_statementFrom {within : Cursor → Prop} (hstretch : Stretch ts limit within)
    (cursor : Cursor) (hcursor : within cursor) :
    ∃ tokens cursor', statementFrom ts cursor limit = .ok (tokens, cursor') ∧ within cursor' ∧
      ts.Advances limit cursor cursor' := by
  induction hahead : ts.ahead cursor using Nat.strongRecOn generalizing cursor with
  | _ n ih =>
      cases cursor with
      | none => exact ⟨[], none, statementFrom_none, hcursor, .refl_none ts limit⟩
      | some i =>
          by_cases hi : i = limit
          · subst hi
            exact ⟨[], some i, statementFrom_limit, hcursor, .refl_limit ts i⟩
          · by_cases htext : ts.textAt i = ";"
            · exact ⟨[], ts.next i, statementFrom_end hi htext, hstretch.next i hcursor hi,
                .of_lt (ts.ahead_next (Nat.le_refl i))⟩
            · have hlast : i ≤ lastTaken ts i ∧ within (ts.next (lastTaken ts i)) := by
                rcases lastTaken_cases ts i with heq | hlinked
                · rw [heq]
                  exact ⟨Nat.le_refl i, hstretch.next i hcursor hi⟩
                · exact hstretch.behind i _ hcursor hlinked
              have hless := ts.ahead_next hlast.1
              obtain ⟨rest, cursor', hrest, hwithin, hadvances⟩ :=
                ih _ (hahead ▸ hless) _ hlast.2 rfl
              refine ⟨List.range' i (lastTaken ts i + 1 - i) ++ rest, cursor', ?_, hwithin,
                .of_lt (Nat.lt_of_le_of_lt hadvances.le hless)⟩
              rw [statementFrom_take hi htext hlast.1, hrest]
              rfl

theorem passStatement_eq {cursor cursor' : Cursor} {tokens : List Nat}
    (h : statementFrom ts cursor limit = .ok (tokens, cursor')) :
    passStatement ts cursor limit = ⟨[], .ok cursor'⟩ := by
  unfold passStatement
  rw [h]
  rfl

theorem statement_eq {cursor cursor' : Cursor} {tokens : List Nat}
    (h : statementFrom ts cursor limit = .ok (tokens, cursor')) :
    statement ts cursor limit =
      ⟨if tokens.isEmpty then [] else [.statement tokens], .ok cursor'⟩ := by
  unfold statement
  rw [h]
  show (if tokens.isEmpty then pure cursor' else _ : Cut Cursor) = _
  split <;> rfl

end

/-! ## Depth enough -/

/-- From a depth on, a cut is the same at every depth; it comes to an end, and its pieces and its
result are as said. -/
def Settles {α : Type} (depth : Nat) (cut : Nat → Cut α) (P : List Piece → α → Prop) : Prop :=
  ∃ pieces a, (∀ steps, depth ≤ steps → cut steps = ⟨pieces, .ok a⟩) ∧ P pieces a

namespace Settles

variable {α β : Type} {depth depth' : Nat} {cut : Nat → Cut α} {P Q : List Piece → α → Prop}

theorem pure {a : α} (h : P [] a) : Settles depth (fun _ => (Pure.pure a : Cut α)) P :=
  ⟨[], a, fun _ _ => rfl, h⟩

theorem mono (h : Settles depth cut P) (hdepth : depth ≤ depth')
    (hP : ∀ pieces a, P pieces a → Q pieces a) : Settles depth' cut Q := by
  obtain ⟨pieces, a, hcut, ha⟩ := h
  exact ⟨pieces, a, fun steps hsteps => hcut steps (Nat.le_trans hdepth hsteps), hP pieces a ha⟩

/-- A cut that takes one step and goes on as another. -/
theorem step {cut' : Nat → Cut α} (h : Settles depth cut P) (hdepth : depth < depth')
    (hstep : ∀ steps, cut' (steps + 1) = cut steps) : Settles depth' cut' P := by
  obtain ⟨pieces, a, hcut, ha⟩ := h
  refine ⟨pieces, a, ?_, ha⟩
  rintro (_ | steps) hsteps
  · exact absurd hsteps (Nat.not_le_of_lt (Nat.zero_lt_of_lt hdepth))
  · rw [hstep, hcut steps (by omega)]

theorem bind {Q : List Piece → β → Prop} {next : Nat → α → Cut β} (h : Settles depth cut P)
    (hnext : ∀ pieces a, P pieces a →
      Settles depth (fun steps => next steps a) fun more b => Q (pieces ++ more) b) :
    Settles depth (fun steps => cut steps >>= next steps) Q := by
  obtain ⟨pieces, a, hcut, ha⟩ := h
  obtain ⟨more, b, hmore, hb⟩ := hnext pieces a ha
  refine ⟨pieces ++ more, b, ?_, hb⟩
  intro steps hsteps
  have hlater : next steps a = ⟨more, .ok b⟩ := hmore steps hsteps
  show (cut steps >>= next steps) = _
  rw [hcut steps hsteps, mk_ok_bind, hlater]

theorem emit {piece : Piece} (h : Settles depth cut fun pieces a => P (piece :: pieces) a) :
    Settles depth (fun steps => Cut.emit piece >>= fun _ => cut steps) P := by
  obtain ⟨pieces, a, hcut, ha⟩ := h
  refine ⟨piece :: pieces, a, ?_, ha⟩
  intro steps hsteps
  show (⟨[piece], .ok ()⟩ >>= fun _ => cut steps) = _
  rw [mk_ok_bind, hcut steps hsteps]
  rfl

/-- The depth that is left after a step. -/
theorem shift (h : Settles (depth + 1) cut P) :
    Settles depth (fun steps => cut (steps + 1)) P := by
  obtain ⟨pieces, a, hcut, ha⟩ := h
  exact ⟨pieces, a, fun steps hsteps => hcut _ (Nat.succ_le_succ hsteps), ha⟩

theorem const {c : Cut α} {pieces : List Piece} {a : α} (hc : c = ⟨pieces, .ok a⟩)
    (h : P pieces a) : Settles depth (fun _ => c) P :=
  ⟨pieces, a, fun _ _ => hc, h⟩

theorem unique (h : Settles depth cut P) (h' : Settles depth' cut Q) :
    ∃ pieces a, P pieces a ∧ Q pieces a := by
  obtain ⟨pieces, a, hcut, ha⟩ := h
  obtain ⟨pieces', a', hcut', ha'⟩ := h'
  have hsame := (hcut _ (Nat.le_add_right depth depth')).symm.trans
    (hcut' _ (Nat.le_add_left depth' depth))
  cases hsame
  exact ⟨pieces, a, ha, ha'⟩

end Settles

/-! ## One step at a time -/

section

variable {ts : TokenList} {limit i j k : Nat}

/-- The else at a cursor, where there is one before the limit. -/
def elseAt? (ts : TokenList) (limit : Nat) : Cursor → Option Nat
  | none => none
  | some j => if j ≠ limit ∧ ts.textAt j = "else" then some j else none

theorem eq_of_elseAt? {cursor : Cursor} (h : elseAt? ts limit cursor = some j) :
    cursor = some j ∧ j ≠ limit := by
  cases cursor with
  | none => cases h
  | some j' =>
      rw [elseAt?] at h
      split at h
      · rename_i helse
        cases h
        exact ⟨rfl, helse.1⟩
      · cases h

/-- A bracket that begins a block, with its link. -/
theorem block_cases (ts : TokenList) (i : Nat) :
    (ts.textAt i = "\x7b" ∧ ∃ k, ts.link? i = some k) ∨
      (ts.textAt i = "\x7b" → ts.link? i = none) := by
  by_cases hblock : ts.textAt i = "\x7b"
  · cases hlink : ts.link? i with
    | none => exact Or.inr fun _ => rfl
    | some k => exact Or.inl ⟨hblock, k, rfl⟩
  · exact Or.inr fun h => absurd h hblock

/-- A keyword that begins an `if` with a condition. -/
theorem cond_cases (ts : TokenList) (i : Nat) :
    (ts.textAt i = "if" ∧ ∃ j k, ts.parenAt (ts.next i) = some (j, k)) ∨
      (ts.textAt i = "if" → ts.parenAt (ts.next i) = none) := by
  by_cases hif : ts.textAt i = "if"
  · cases hparen : ts.parenAt (ts.next i) with
    | none => exact Or.inr fun _ => rfl
    | some head => exact Or.inl ⟨hif, head.1, head.2, rfl⟩
  · exact Or.inr fun h => absurd h hif

theorem passBranch_limit (steps : Nat) :
    passBranch ts limit (steps + 1) (some limit) = pure (some limit) := by
  rw [passBranch, if_pos rfl]

theorem passBranch_cond (steps : Nat) (hi : i ≠ limit) (htext : ts.textAt i = "if")
    (hparen : ts.parenAt (ts.next i) = some (j, k)) :
    passBranch ts limit (steps + 1) (some i) =
      (passBranch ts limit steps (ts.next k) >>= fun cursor =>
        (elseAt? ts limit cursor).elim (pure cursor) fun j =>
          passBranch ts limit steps (ts.next j)) := by
  have hblock : ¬ "if" = "\x7b" := by decide
  simp only [passBranch, hi, htext, hblock, hparen, if_false, if_true]
  congr 1
  funext cursor
  cases cursor with
  | none => rfl
  | some j =>
      dsimp only
      rw [elseAt?]
      split <;> rfl

theorem passBranch_statement (steps : Nat) (hi : i ≠ limit)
    (hblock : ts.textAt i = "\x7b" → ts.link? i = none)
    (hif : ts.textAt i = "if" → ts.parenAt (ts.next i) = none)
    (hloop : isLoopKeyword (ts.textAt i) = false) :
    passBranch ts limit (steps + 1) (some i) = passStatement ts (some i) limit := by
  rw [passBranch, if_neg hi]
  split
  · rename_i h
    rw [hblock h]
  · split
    · rename_i h
      rw [hif h]
    · rw [hloop]
      rfl

theorem branch_limit (steps : Nat) :
    branch ts limit (steps + 1) (some limit) = pure (some limit) := by
  rw [branch, if_pos rfl]

theorem branch_statement (steps : Nat) (hi : i ≠ limit)
    (hblock : ts.textAt i = "\x7b" → ts.link? i = none) (hif : ts.textAt i ≠ "if")
    (hloop : isLoopKeyword (ts.textAt i) = false) (hend : ts.textAt i ≠ ";") :
    branch ts limit (steps + 1) (some i) = statement ts (some i) limit := by
  have hno : ¬ (ts.textAt i = "\x7b" ∧ (ts.link? i).isSome = true) := by
    rintro ⟨htext, hlink⟩
    rw [hblock htext] at hlink
    cases hlink
  rw [branch, if_neg hi, if_neg hno, if_neg hif, hloop, if_neg hend]
  rfl

theorem conditional_head (steps : Nat) (hparen : ts.parenAt (ts.next i) = some (j, k)) :
    conditional ts limit (steps + 1) i =
      (emit (.enter i (ts.between j k)) >>= fun _ =>
        branch ts limit steps (ts.next k) >>= fun cursor =>
          ((elseAt? ts limit cursor).elim (pure cursor) fun j =>
            emit .orElse >>= fun _ => branch ts limit steps (ts.next j)) >>= fun cursor =>
              emit .exit >>= fun _ => pure cursor) := by
  rw [conditional, hparen]
  dsimp only
  congr 1
  funext _
  congr 1
  funext cursor
  cases cursor with
  | none => rfl
  | some j =>
      dsimp only
      rw [elseAt?]
      split
      · exact (bind_assoc _ _ _).symm
      · rfl

theorem conditional_headless (hparen : ts.parenAt (ts.next i) = none) :
    ∃ issue, ∀ steps, conditional ts limit (steps + 1) i =
      (emit (.issue issue) >>= fun _ => passStatement ts (ts.next i) limit) := by
  refine ⟨⟨.malformedInput, "'if' without a parenthesised condition", none⟩, fun steps => ?_⟩
  rw [conditional, hparen]

theorem range_limit (steps : Nat) : range ts limit (steps + 1) (some limit) = pure () := by
  rw [range, if_pos rfl]

theorem range_else (hi : i ≠ limit) (htext : ts.textAt i = "else") :
    ∃ issue, ∀ steps, range ts limit (steps + 1) (some i) =
      (emit (.issue issue) >>= fun _ => range ts limit steps (ts.next i)) := by
  have hother : ¬ "else" = "\x7b" ∧ ¬ "else" = ";" ∧ ¬ "else" = "if" ∧
      isLoopKeyword "else" = false := by decide
  refine ⟨⟨.structuralInconsistency, "'else' token outside of an 'if' statement", none⟩,
    fun steps => ?_⟩
  rw [range, if_neg hi, htext]
  simp only [hother, false_and, if_false, if_true, Bool.false_eq_true]

end

/-! ## Passing over -/

/-- What passing over something leaves, and where it goes on. -/
structure Passed (ts : TokenList) (limit : Nat) (within : Cursor → Prop) (cursor : Cursor)
    (pieces : List Piece) (cursor' : Cursor) : Prop where
  issues : ∀ piece ∈ pieces, ∃ issue, piece = .issue issue
  within : within cursor'
  advances : ts.Advances limit cursor cursor'

namespace Passed

variable {ts : TokenList} {limit : Nat} {within : Cursor → Prop} {start cursor cursor' : Cursor}
  {pieces more : List Piece}

/-- Passing over what is behind a cursor. -/
theorem behind (h : Passed ts limit within cursor pieces cursor')
    (hless : ts.ahead cursor < ts.ahead start) : Passed ts limit within start pieces cursor' :=
  ⟨h.issues, h.within, .of_lt (Nat.lt_of_le_of_lt h.advances.le hless)⟩

theorem issue (h : Passed ts limit within cursor pieces cursor') (i : Issue) :
    Passed ts limit within cursor (.issue i :: pieces) cursor' := by
  refine ⟨?_, h.within, h.advances⟩
  intro piece hpiece
  rcases List.mem_cons.mp hpiece with rfl | hpiece
  · exact ⟨i, rfl⟩
  · exact h.issues piece hpiece

theorem append (h : Passed ts limit within start pieces cursor)
    (hmore : Passed ts limit within cursor more cursor') :
    Passed ts limit within start (pieces ++ more) cursor' := by
  refine ⟨?_, hmore.within, Nat.le_trans hmore.advances.le h.advances.le, ?_⟩
  · intro piece hpiece
    rcases List.mem_append.mp hpiece with hpiece | hpiece
    · exact h.issues piece hpiece
    · exact hmore.issues piece hpiece
  · intro i hstart hi
    exact Nat.lt_of_le_of_lt hmore.advances.le (h.advances.lt i hstart hi)

end Passed

section

variable {ts : TokenList} {limit : Nat} {within : Cursor → Prop}

theorem settles_passStatement (hstretch : Stretch ts limit within) {cursor : Cursor}
    (hcursor : within cursor) (depth : Nat) :
    Settles depth (fun _ => passStatement ts cursor limit) (Passed ts limit within cursor) := by
  obtain ⟨tokens, cursor', hfrom, hwithin, hadvances⟩ :=
    exists_statementFrom hstretch cursor hcursor
  exact .const (passStatement_eq hfrom) ⟨nofun, hwithin, hadvances⟩

theorem settles_passLoop (hstretch : Stretch ts limit within) {i : Nat} (hwithin : within (some i))
    (hi : i ≠ limit)
    (hbranch : ∀ cursor, within cursor → ts.ahead cursor < ts.ahead (some i) →
      Settles (2 * ts.ahead cursor + 1) (fun steps => passBranch ts limit steps cursor)
        (Passed ts limit within cursor)) :
    Settles (2 * ts.ahead (some i)) (fun steps => passLoop ts limit steps i)
      (Passed ts limit within (some i)) := by
  by_cases hdo : ts.textAt i = "do"
  · have hless := ts.ahead_next (Nat.le_refl i)
    have hbody := hbranch _ (hstretch.next i hwithin hi) hless
    refine .step (.emit (.bind hbody ?_)) (by omega) fun steps => by rw [passLoop, if_pos hdo]
    intro pieces cursor hpassed
    -- the body may end at any token; only a `while` there belongs to the loop
    by_cases hwhile : ts.textOf cursor = "while"
    · simp only [if_pos hwhile]
      exact (settles_passStatement hstretch hpassed.within _).mono (Nat.le_refl _)
        fun _ _ hend => ((hpassed.append hend).behind hless).issue _
    · simp only [if_neg hwhile]
      refine .pure ?_
      rw [List.append_nil]
      exact (hpassed.behind hless).issue _
  · cases hparen : ts.parenAt (ts.next i) with
    | some head =>
        obtain ⟨j, k⟩ := head
        obtain ⟨hle, hbehind⟩ := hstretch.head hwithin hi hparen
        have hless := ts.ahead_next hle
        have hbody := (hbranch _ hbehind hless).mono (Nat.le_refl _)
          fun _ _ hpassed => (hpassed.behind hless).issue (loopIssue ts i)
        exact .step (.emit hbody) (by omega) fun steps => by rw [passLoop, if_neg hdo, hparen]
    | none =>
        have hend := (settles_passStatement hstretch hwithin 0).mono (Nat.le_refl _)
          fun _ _ hpassed => hpassed.issue (loopIssue ts i)
        exact .step (.emit hend) (Nat.mul_pos Nat.two_pos (Nat.succ_pos _))
          fun steps => by rw [passLoop, if_neg hdo, hparen]

/-- An `if` is passed over with its branches, given that what is behind its keyword is. -/
theorem settles_passCond (hstretch : Stretch ts limit within) {i j k : Nat}
    (hwithin : within (some i)) (hi : i ≠ limit) (hif : ts.textAt i = "if")
    (hparen : ts.parenAt (ts.next i) = some (j, k))
    (hbranch : ∀ cursor, within cursor → ts.ahead cursor < ts.ahead (some i) →
      Settles (2 * ts.ahead cursor + 1) (fun steps => passBranch ts limit steps cursor)
        (Passed ts limit within cursor)) :
    Settles (2 * ts.ahead (some i) + 1) (fun steps => passBranch ts limit steps (some i))
      (Passed ts limit within (some i)) := by
  obtain ⟨hle, hbehind⟩ := hstretch.head hwithin hi hparen
  have hless := ts.ahead_next hle
  refine .step (.bind (hbranch _ hbehind hless) ?_) (by omega)
    fun steps => passBranch_cond steps hi hif hparen
  intro pieces cursor hpassed
  cases helse : elseAt? ts limit cursor with
  | none =>
      refine .pure ?_
      rw [List.append_nil]
      exact hpassed.behind hless
  | some j =>
      obtain ⟨rfl, hj⟩ := eq_of_elseAt? helse
      have hless' := ts.ahead_next (Nat.le_refl j)
      have hroom := hpassed.advances.le
      have hother := hbranch _ (hstretch.next j hpassed.within hj) (by omega)
      exact hother.mono (by omega) fun _ _ hmore =>
        (hpassed.append (hmore.behind hless')).behind hless

/-- In a stretch, everything that is passed over comes to an end. The induction is on what lies
ahead; a loop is passed over from its own token, which is why it has a depth of its own. -/
theorem settles_passBranch (hstretch : Stretch ts limit within) (cursor : Cursor)
    (hcursor : within cursor) :
    Settles (2 * ts.ahead cursor + 1) (fun steps => passBranch ts limit steps cursor)
      (Passed ts limit within cursor) := by
  induction hahead : ts.ahead cursor using Nat.strongRecOn generalizing cursor with
  | _ n ih =>
      subst hahead
      have hbranch : ∀ cursor', within cursor' → ts.ahead cursor' < ts.ahead cursor → _ :=
        fun cursor' hwithin hless => ih _ hless cursor' hwithin rfl
      cases cursor with
      | none =>
          exact .step (.pure ⟨nofun, hcursor, .refl_none ts limit⟩) (Nat.lt_succ_self _)
            fun _ => rfl
      | some i =>
          by_cases hi : i = limit
          · subst hi
            exact .step (.pure ⟨nofun, hcursor, .refl_limit ts i⟩) (Nat.lt_succ_self _)
              passBranch_limit
          · rcases block_cases ts i with ⟨hblock, k, hlink⟩ | hblock
            · have hlinked : ts.Linked i k := ⟨by rw [hblock]; decide, hlink⟩
              obtain ⟨hle, hbehind⟩ := hstretch.behind i k hcursor hlinked
              exact .step (.pure ⟨nofun, hbehind, .of_lt (ts.ahead_next hle)⟩) (Nat.lt_succ_self _)
                fun _ => passBranch_block hi hblock hlink
            · cases hloop : isLoopKeyword (ts.textAt i) with
              | true =>
                  exact .step (settles_passLoop hstretch hcursor hi hbranch) (Nat.lt_succ_self _)
                    fun _ => passBranch_loop hi hloop
              | false =>
                  rcases cond_cases ts i with ⟨hif, j, k, hparen⟩ | hif
                  · exact settles_passCond hstretch hcursor hi hif hparen hbranch
                  · exact .step (settles_passStatement hstretch hcursor _) (Nat.lt_succ_self _)
                      fun steps => passBranch_statement steps hi hblock hif hloop

end

/-! ## Cutting

For each kind of cut, what is left to show about it when what it is made of settles. -/

section

variable {ts : TokenList} {limit i : Nat}

/-- An `if`, by its condition, its first branch and whether there is an else behind that. -/
theorem settles_conditional {P : Nat → List Piece → Cursor → Prop}
    {Q : List Piece → Cursor → Prop}
    (hheadless : ∀ issue, ts.parenAt (ts.next i) = none →
      Settles 0 (fun _ => passStatement ts (ts.next i) limit)
        fun pieces => Q (.issue issue :: pieces))
    (hbody : ∀ j k, ts.parenAt (ts.next i) = some (j, k) →
      ts.ahead (ts.next k) < ts.ahead (some i) ∧
      Settles (2 * ts.ahead (ts.next k) + 1) (fun steps => branch ts limit steps (ts.next k)) (P k))
    (hlast : ∀ j k pieces cursor, ts.parenAt (ts.next i) = some (j, k) → P k pieces cursor →
      elseAt? ts limit cursor = none →
      Q (.enter i (ts.between j k) :: (pieces ++ [.exit])) cursor)
    (helse : ∀ j k pieces l, ts.parenAt (ts.next i) = some (j, k) → P k pieces (some l) →
      elseAt? ts limit (some l) = some l → ts.ahead (ts.next l) ≤ ts.ahead (ts.next k) ∧
      Settles (2 * ts.ahead (ts.next l) + 1) (fun steps => branch ts limit steps (ts.next l))
        fun more => Q (.enter i (ts.between j k) :: (pieces ++ (.orElse :: more ++ [.exit])))) :
    Settles (2 * ts.ahead (some i)) (fun steps => conditional ts limit steps i) Q := by
  cases hparen : ts.parenAt (ts.next i) with
  | none =>
      obtain ⟨issue, hstep⟩ := @conditional_headless ts limit i hparen
      exact .step (.emit (hheadless issue hparen)) (Nat.mul_pos Nat.two_pos (Nat.succ_pos _)) hstep
  | some head =>
      obtain ⟨j, k⟩ := head
      obtain ⟨hless, hfirst⟩ := hbody j k hparen
      refine .step (.emit (.bind hfirst ?_)) (by omega) fun steps => conditional_head steps hparen
      intro pieces cursor hpieces
      cases hother : elseAt? ts limit cursor with
      | none => exact .emit (.pure (hlast j k pieces cursor hparen hpieces hother))
      | some l =>
          obtain ⟨rfl, -⟩ := eq_of_elseAt? hother
          obtain ⟨hroom, hsecond⟩ := helse j k pieces l hparen hpieces hother
          -- the second branch is no deeper than the first, so they have the same depth to spare
          have hmarked : Settles (2 * ts.ahead (ts.next k) + 1)
              (fun steps => emit .orElse >>= fun _ => branch ts limit steps (ts.next l))
              fun more => Q (.enter i (ts.between j k) :: (pieces ++ (more ++ [.exit]))) :=
            .emit (hsecond.mono (by omega) fun _ _ h => h)
          exact .bind hmarked fun _ _ h => .emit (.pure h)

/-- A branch, by what it begins with. -/
theorem settles_branch {Q : List Piece → Cursor → Prop} (hlimit : i = limit → Q [] (some i))
    (hblock : ∀ k, i ≠ limit → ts.textAt i = "\x7b" → ts.link? i = some k →
      Settles (2 * ts.ahead (ts.next i) + 1) (fun steps => range ts k steps (ts.next i))
        fun pieces _ => Q pieces (ts.next k))
    (hcond : i ≠ limit → ts.textAt i = "if" →
      Settles (2 * ts.ahead (some i)) (fun steps => conditional ts limit steps i) Q)
    (hloop : i ≠ limit → isLoopKeyword (ts.textAt i) = true →
      Settles (2 * ts.ahead (some i) + 1) (fun steps => passBranch ts limit steps (some i)) Q)
    (hempty : i ≠ limit → ts.textAt i = ";" → Q [] (ts.next i))
    (hplain : i ≠ limit → (ts.textAt i = "\x7b" → ts.link? i = none) → ts.textAt i ≠ "if" →
      isLoopKeyword (ts.textAt i) = false →
      Settles 0 (fun _ => statement ts (some i) limit) Q) :
    Settles (2 * ts.ahead (some i) + 1) (fun steps => branch ts limit steps (some i)) Q := by
  by_cases hi : i = limit
  · subst hi
    exact .step (.pure (hlimit rfl)) (Nat.lt_succ_self _) branch_limit
  · rcases block_cases ts i with ⟨htext, k, hlink⟩ | hopen
    · have hless := ts.ahead_next (Nat.le_refl i)
      refine .step (.bind (hblock k hi htext hlink) ?_) (by omega)
        fun _ => branch_block hi htext hlink
      intro pieces _ hpieces
      refine .pure ?_
      rw [List.append_nil]
      exact hpieces
    · by_cases hif : ts.textAt i = "if"
      · exact .step (hcond hi hif) (Nat.lt_succ_self _) fun _ => branch_if hi hif
      · cases hkeyword : isLoopKeyword (ts.textAt i) with
        | true =>
            -- cutting a loop is passing over it, with the first step of both taken
            exact .step (hloop hi hkeyword).shift (Nat.lt_succ_self _)
              fun _ => branch_loop hi hkeyword
        | false =>
            by_cases hend : ts.textAt i = ";"
            · exact .step (.pure (hempty hi hend)) (Nat.lt_succ_self _)
                fun _ => branch_empty hi hend
            · exact .step (hplain hi hopen hif hkeyword) (Nat.succ_pos _)
                fun steps => branch_statement steps hi hopen hif hkeyword hend

theorem settles_range {P : List Piece → Cursor → Prop} {Q : List Piece → Prop}
    (hbranch : Settles (2 * ts.ahead (some i) + 1) (fun steps => branch ts limit steps (some i)) P)
    (hlimit : i = limit → Q [])
    (helse : ∀ issue, i ≠ limit →
      Settles (2 * ts.ahead (ts.next i) + 1) (fun steps => range ts limit steps (ts.next i))
        fun pieces _ => Q (.issue issue :: pieces))
    (hrest : ∀ pieces cursor, i ≠ limit → P pieces cursor →
      ts.ahead cursor < ts.ahead (some i) ∧
      Settles (2 * ts.ahead cursor + 1) (fun steps => range ts limit steps cursor)
        fun more _ => Q (pieces ++ more)) :
    Settles (2 * ts.ahead (some i) + 1) (fun steps => range ts limit steps (some i))
      fun pieces _ => Q pieces := by
  by_cases hi : i = limit
  · subst hi
    exact .step (.pure (hlimit rfl)) (Nat.lt_succ_self _) range_limit
  · by_cases htext : ts.textAt i = "else"
    · have hless := ts.ahead_next (Nat.le_refl i)
      obtain ⟨issue, hstep⟩ := range_else hi htext
      exact .step (.emit (helse issue hi)) (by omega) hstep
    · refine .step (.bind hbranch.shift ?_) (Nat.lt_succ_self _) fun _ => range_eq_branch hi htext
      intro pieces cursor hpieces
      obtain ⟨hless, hmore⟩ := hrest pieces cursor hi hpieces
      exact hmore.mono (by omega) fun _ _ h => h

end

end Cut

end NullSafety
