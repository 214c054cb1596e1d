import NullSafety.Proofs.Rendering
import NullSafety.Proofs.Settling

/-!
# Cuts that come to an end

Links may be missing, cross each other or lead past the limit. As long as none of them leads back,
every cut comes to an end, and that a branch is cut or only passed over makes no difference to
where it ends, although the two go different ways about it: a block is walked through or jumped
over, and an `if` without a condition is a statement with its keyword or without.
-/

namespace NullSafety

namespace Cut

/-! ## Where a branch ends -/

section

variable {ts : TokenList} {limit : Nat}

/-- Passing over the branch at a cursor ends at another. -/
def PassesTo (ts : TokenList) (limit : Nat) (cursor cursor' : Cursor) : Prop :=
  Settles (2 * ts.ahead cursor + 1) (fun steps => passBranch ts limit steps cursor)
    fun _ behind => behind = cursor'

theorem PassesTo.advances (hforward : ts.LinksForward) {cursor cursor' : Cursor}
    (h : PassesTo ts limit cursor cursor') : ts.Advances limit cursor cursor' := by
  have hpassed := settles_passBranch (stretch_of_linksForward hforward limit) cursor trivial
  obtain ⟨pieces, behind, rfl, hbehind⟩ := h.unique hpassed
  exact hbehind.advances

/-- An `if` is passed over with its first branch, and with the second if there is an else. -/
theorem passesTo_cond (hforward : ts.LinksForward) {i j k : Nat} {cursor cursor' : Cursor}
    (hi : i ≠ limit) (hif : ts.textAt i = "if") (hparen : ts.parenAt (ts.next i) = some (j, k))
    (hbody : PassesTo ts limit (ts.next k) cursor)
    (hbehind : (elseAt? ts limit cursor).elim (cursor' = cursor) fun j =>
      PassesTo ts limit (ts.next j) cursor') :
    PassesTo ts limit (some i) cursor' := by
  obtain ⟨hle, -⟩ := (stretch_of_linksForward hforward limit).head trivial hi hparen
  have hless := ts.ahead_next hle
  refine .step (.bind hbody ?_) (by omega) fun steps => passBranch_cond steps hi hif hparen
  rintro pieces _ rfl
  have hroom := (PassesTo.advances hforward hbody).le
  cases helse : elseAt? ts limit _ with
  | none =>
      rw [helse] at hbehind
      exact .pure hbehind.symm
  | some j =>
      rw [helse] at hbehind
      obtain ⟨rfl, -⟩ := eq_of_elseAt? helse
      have hless' := ts.ahead_next (Nat.le_refl j)
      exact Settles.mono hbehind (by omega) fun _ _ h => h

theorem passesTo_statement {i : Nat} {cursor : Cursor} {tokens : List Nat} (hi : i ≠ limit)
    (hblock : ts.textAt i = "\x7b" → ts.link? i = none)
    (hif : ts.textAt i = "if" → ts.parenAt (ts.next i) = none)
    (hloop : isLoopKeyword (ts.textAt i) = false)
    (hfrom : statementFrom ts (some i) limit = .ok (tokens, cursor)) :
    PassesTo ts limit (some i) cursor :=
  .step (.const (passStatement_eq hfrom) rfl) (Nat.lt_succ_self _) fun steps =>
    passBranch_statement steps hi hblock hif hloop

/-- Without a condition, an `if` is passed over like a statement, and the keyword itself makes no
difference to where that ends. -/
theorem passesTo_headless {i : Nat} {cursor : Cursor} {tokens : List Nat} (hi : i ≠ limit)
    (hif : ts.textAt i = "if") (hparen : ts.parenAt (ts.next i) = none)
    (hrest : statementFrom ts (ts.next i) limit = .ok (tokens, cursor)) :
    PassesTo ts limit (some i) cursor := by
  have hword : ¬ "if" = "\x7b" ∧ ¬ "if" = ";" ∧ isLoopKeyword "if" = false ∧
      isOpener "if" = false := by decide
  have hlast : lastTaken ts i = i := by
    rw [lastTaken, hif, hword.2.2.2]
    rfl
  have hwhole : statementFrom ts (some i) limit = .ok (List.range' i 1 ++ tokens, cursor) := by
    rw [statementFrom_take hi (hif ▸ hword.2.1) (Nat.le_of_eq hlast.symm), hlast, hrest,
      Nat.add_sub_cancel_left]
    rfl
  exact passesTo_statement hi (fun h => absurd (hif.symm.trans h) hword.1) (fun _ => hparen)
    (hif ▸ hword.2.2.1) hwhole

theorem settles_conditional_passesTo (hforward : ts.LinksForward) {i : Nat} (hi : i ≠ limit)
    (hif : ts.textAt i = "if")
    (hbranch : ∀ cursor, ts.ahead cursor < ts.ahead (some i) →
      Settles (2 * ts.ahead cursor + 1) (fun steps => branch ts limit steps cursor)
        fun _ => PassesTo ts limit cursor) :
    Settles (2 * ts.ahead (some i)) (fun steps => conditional ts limit steps i)
      fun _ => PassesTo ts limit (some i) := by
  have hstretch := stretch_of_linksForward hforward limit
  have hless : ∀ {j k}, ts.parenAt (ts.next i) = some (j, k) →
      ts.ahead (ts.next k) < ts.ahead (some i) := fun hparen =>
    ts.ahead_next (hstretch.head trivial hi hparen).1
  refine settles_conditional (P := fun k _ => PassesTo ts limit (ts.next k)) ?_ ?_ ?_ ?_
  · intro issue hparen
    obtain ⟨tokens, cursor, hrest, -, -⟩ := exists_statementFrom hstretch (ts.next i) trivial
    exact .const (passStatement_eq hrest) (passesTo_headless hi hif hparen hrest)
  · intro j k hparen
    exact ⟨hless hparen, hbranch _ (hless hparen)⟩
  · intro j k pieces cursor hparen hbody hlast
    exact passesTo_cond hforward hi hif hparen hbody (by rw [hlast]; rfl)
  · intro j k pieces l hparen hbody helse
    have hroom := (PassesTo.advances hforward hbody).le
    have hbehind := ts.ahead_next (Nat.le_refl l)
    have hbefore := hless hparen
    refine ⟨by omega, (hbranch _ (by omega)).mono (Nat.le_refl _) ?_⟩
    intro more cursor hother
    exact passesTo_cond hforward hi hif hparen hbody (by rw [helse]; exact hother)

/-- A branch ends where it is passed over to, given that everything behind its first token ends. -/
theorem settles_branch_passesTo (hforward : ts.LinksForward) {i : Nat}
    (hbranch : ∀ cursor, ts.ahead cursor < ts.ahead (some i) →
      Settles (2 * ts.ahead cursor + 1) (fun steps => branch ts limit steps cursor)
        fun _ => PassesTo ts limit cursor)
    (hrange : ∀ limit cursor, ts.ahead cursor < ts.ahead (some i) →
      Settles (2 * ts.ahead cursor + 1) (fun steps => range ts limit steps cursor)
        fun _ _ => True) :
    Settles (2 * ts.ahead (some i) + 1) (fun steps => branch ts limit steps (some i))
      fun _ => PassesTo ts limit (some i) := by
  have hstretch := stretch_of_linksForward hforward limit
  refine settles_branch ?_ ?_ ?_ ?_ ?_ ?_
  · rintro rfl
    exact .step (.pure rfl) (Nat.lt_succ_self _) passBranch_limit
  · intro k hi hblock hlink
    have hpass : PassesTo ts limit (some i) (ts.next k) :=
      .step (.pure rfl) (Nat.lt_succ_self _) fun _ => passBranch_block hi hblock hlink
    exact (hrange k _ (ts.ahead_next (Nat.le_refl i))).mono (Nat.le_refl _) fun _ _ _ => hpass
  · intro hi hif
    exact settles_conditional_passesTo hforward hi hif hbranch
  · intro hi hloop
    -- a loop is never cut, so both sides are the same call
    obtain ⟨pieces, cursor, hcut, -⟩ := settles_passBranch hstretch (some i) trivial
    exact ⟨pieces, cursor, hcut, pieces, cursor, hcut, rfl⟩
  · intro hi hend
    -- passed over, a lone semicolon is a statement without tokens
    have hword : ¬ ";" = "\x7b" ∧ ¬ ";" = "if" ∧ isLoopKeyword ";" = false := by decide
    rw [← hend] at hword
    exact passesTo_statement hi (absurd · hword.1) (absurd · hword.2.1) hword.2.2
      (statementFrom_end hi hend)
  · intro hi hblock hif hloop
    obtain ⟨tokens, cursor, hfrom, -, -⟩ := exists_statementFrom hstretch (some i) trivial
    exact .const (statement_eq hfrom) (passesTo_statement hi hblock (absurd · hif) hloop hfrom)

/-- Where no link leads back, every cut comes to an end, and a branch ends where passing over it
does. The induction is on what lies ahead, for all limits at once: a block has its own. -/
theorem settles_cut (hforward : ts.LinksForward) (cursor : Cursor) :
    (∀ limit, Settles (2 * ts.ahead cursor + 1) (fun steps => branch ts limit steps cursor)
      fun _ => PassesTo ts limit cursor) ∧
    ∀ limit, Settles (2 * ts.ahead cursor + 1) (fun steps => range ts limit steps cursor)
      fun _ _ => True := by
  induction hahead : ts.ahead cursor using Nat.strongRecOn generalizing cursor with
  | _ n ih =>
      subst hahead
      cases cursor with
      | none =>
          constructor
          · intro limit
            have hpass : PassesTo ts limit none none :=
              .step (.pure rfl) (Nat.lt_succ_self _) fun _ => rfl
            exact .step (.pure hpass) (Nat.lt_succ_self _) fun _ => rfl
          · intro limit
            exact .step (.pure trivial) (Nat.lt_succ_self _) fun _ => rfl
      | some i =>
          have hrange : ∀ limit cursor, _ := fun limit cursor hless =>
            (ih _ hless cursor rfl).2 limit
          have hbranch : ∀ limit, _ := fun limit => settles_branch_passesTo hforward
            (fun cursor hless => (ih _ hless cursor rfl).1 limit) hrange
          refine ⟨hbranch, fun limit => settles_range (hbranch limit) ?_ ?_ ?_⟩
          · exact fun _ => trivial
          · exact fun _ _ => hrange limit _ (ts.ahead_next (Nat.le_refl i))
          · intro pieces cursor hi hpass
            have hless := (PassesTo.advances hforward hpass).lt i rfl hi
            exact ⟨hless, hrange limit cursor hless⟩

end

end Cut

/-- **Reading comes to an end.** Where no opening bracket is linked to a token in front of it and
the numbers of variables can be read, every body is read without a fault, however else its links
lead: they may be missing, cross each other, lead to themselves or past the end of the body. The
depth that is needed grows with the length of the list, and more of it changes nothing. -/
theorem read_terminates (ts : TokenList) (o : Options) (scope : Scope) (opening closing : Nat)
    (hstart : scope.bodyStart = some opening) (hend : scope.bodyEnd = some closing)
    (hforward : ts.LinksForward) (hnumeric : ∀ t ∈ ts.tokens, t.hasNumericId = true) :
    ∃ pieces : List Piece,
      (∀ steps, 2 * (ts.size + 1) < steps →
        Cut.range ts closing steps (ts.next opening) = ⟨pieces, .ok ()⟩) ∧
      scope.read ts o = (pieces.flatMap (Piece.items ts o), none) := by
  obtain ⟨pieces, ⟨⟩, hcut, -⟩ := (Cut.settles_cut hforward (ts.next opening)).2 closing
  have hroom := ts.ahead_le (ts.next opening)
  have hrange : ∀ steps, 2 * (ts.size + 1) < steps →
      Cut.range ts closing steps (ts.next opening) = ⟨pieces, .ok ()⟩ :=
    fun steps hsteps => hcut steps (by omega)
  have hbody : Cut.body ts opening closing = ⟨pieces, .ok ()⟩ := hrange _ (Cut.enough_lt ts)
  exact ⟨pieces, hrange, Scope.read_of_body hnumeric o hstart hend hbody⟩

/-- `{ do { if ( } x ) while ;` in a body that ends at the first closing brace: the inner brace is
linked to itself, and the parenthesis to the one behind the end of the body. -/
def tangled : TokenList where
  tokens := #[{ text := "\x7b", link := some 5 }, { text := "do" },
    { text := "\x7b", link := some 2 }, { text := "if" }, { text := "(", link := some 7 },
    { text := "\x7d" }, { text := "x" }, { text := ")" }, { text := "while" }, { text := ";" }]

theorem read_terminates_tangled :
    tangled.LinksForward ∧
      (∀ steps, 22 < steps → (Cut.range tangled 5 steps (some 1)).result = .ok ()) ∧
      Scope.read { bodyStart := some 0, bodyEnd := some 5 } tangled {} =
        ([.issue ⟨.malformedInput, "unsupported construct 'do' skipped", some "do"⟩,
          .event (.enter "\x7d x" [] ⟨"", none, some 3⟩),
          .issue ⟨.malformedInput, "unsupported construct 'while' skipped", some "while"⟩,
          .event .exit], none) := by
  have hforward : tangled.LinksForward := by decide +kernel
  obtain ⟨pieces, hrange, hread⟩ := read_terminates tangled {}
    { bodyStart := some 0, bodyEnd := some 5 } 0 5 rfl rfl hforward (by decide +kernel)
  refine ⟨hforward, ?_, ?_⟩
  · intro steps hsteps
    exact congrArg Cut.result (hrange steps hsteps)
  · refine Prod.ext ?_ ?_
    · decide +kernel
    · rw [hread]

/-- **A branch ends where passing over it ends.** Where no opening bracket is linked to a token in
front of it and the numbers of variables can be read: from every token or from the end, and up to
every limit, cutting a branch and passing over it both come to an end, at the same cursor, and
everything that was cut can be read. -/
theorem branch_ends_where_passed (ts : TokenList) (o : Options) (limit : Nat) (cursor : Cursor)
    (hforward : ts.LinksForward) (hnumeric : ∀ t ∈ ts.tokens, t.hasNumericId = true) :
    ∃ behind : Cursor, ∀ steps, 2 * (ts.size + 1) < steps →
      (Cut.passBranch ts limit steps cursor).result = .ok behind ∧
      (Cut.branch ts limit steps cursor).result = .ok behind ∧
      (ts.readPieces o none (Cut.branch ts limit steps cursor).pieces).2 = none := by
  obtain ⟨pieces, _, hcut, issues, behind, hpass, rfl⟩ := (Cut.settles_cut hforward cursor).1 limit
  have hroom := ts.ahead_le cursor
  refine ⟨behind, ?_⟩
  intro steps hsteps
  have hbranch : Cut.branch ts limit steps cursor = ⟨pieces, .ok behind⟩ := hcut steps (by omega)
  have hpassed : Cut.passBranch ts limit steps cursor = ⟨issues, .ok behind⟩ :=
    hpass steps (by omega)
  rw [hbranch, hpassed, TokenList.readPieces_eq hnumeric]
  exact ⟨rfl, rfl, rfl⟩

/-- `if ( c ) if x ; else { y ;` where the brace is linked to itself. -/
def headlessInside : TokenList where
  tokens := #[{ text := "if" }, { text := "(", link := some 3 }, { text := "c" }, { text := ")" },
    { text := "if" }, { text := "x" }, { text := ";" }, { text := "else" },
    { text := "\x7b", link := some 8 }, { text := "y" }, { text := ";" }]

theorem branch_ends_where_passed_headlessInside :
    headlessInside.LinksForward ∧ ∀ steps, 24 < steps →
      (Cut.passBranch headlessInside 10 steps (some 0)).result = .ok (some 9) ∧
      (Cut.branch headlessInside 10 steps (some 0)).result = .ok (some 9) := by
  have hforward : headlessInside.LinksForward := by decide +kernel
  obtain ⟨behind, hbehind⟩ := branch_ends_where_passed headlessInside {} 10 (some 0) hforward
    (by decide +kernel)
  have hends : (Cut.passBranch headlessInside 10 25 (some 0)).result.toOption = some (some 9) := by
    decide +kernel
  rw [(hbehind 25 (by decide)).1] at hends
  cases hends
  exact ⟨hforward, fun steps hsteps => ⟨(hbehind steps hsteps).1, (hbehind steps hsteps).2.1⟩⟩

end NullSafety
