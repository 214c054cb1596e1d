import NullSafety.FunctionGraph
import NullSafety.Proofs.Cutting
import NullSafety.Proofs.WellNested

/-!
# What is read always nests

Links between tokens may be missing, cross each other or lead past the limit; then tokens are cut
twice or not at all. However they lead, a cut that comes to an end has ended every `if` that it
has begun, and given none of them two else branches. So a builder that takes what is read has
nothing to complain about. The structural issues of a function are those about an else token that
was met where no `if` was waiting for it.
-/

namespace NullSafety

/-! ## Pieces that nest -/

/-- The issue about an else token that belongs to no `if`. -/
def Issue.elseOutsideIf : Issue :=
  ⟨.structuralInconsistency, "'else' token outside of an 'if' statement", none⟩

/-- An issue that a cut may record: if it is about the structure, it is about an else token. -/
def Recordable (ts : TokenList) (issue : Issue) : Prop :=
  issue.kind = .structuralInconsistency →
    issue = .elseOutsideIf ∧ ∃ i, ts.textAt i = "else"

/-- Pieces that nest, with issues anywhere between them. -/
inductive Interlocked (ts : TokenList) : List Piece → Prop
  | nil : Interlocked ts []
  | statement {rest : List Piece} (tokens : List Nat) (hrest : Interlocked ts rest) :
      Interlocked ts (.statement tokens :: rest)
  | issue {rest : List Piece} {issue : Issue} (h : Recordable ts issue)
      (hrest : Interlocked ts rest) : Interlocked ts (.issue issue :: rest)
  | branch {body rest : List Piece} (keyword : Nat) (condition : List Nat)
      (hbody : Interlocked ts body) (hrest : Interlocked ts rest) :
      Interlocked ts (.enter keyword condition :: (body ++ .exit :: rest))
  | branchElse {body other rest : List Piece} (keyword : Nat) (condition : List Nat)
      (hbody : Interlocked ts body) (hother : Interlocked ts other)
      (hrest : Interlocked ts rest) :
      Interlocked ts
        (.enter keyword condition :: (body ++ .orElse :: (other ++ .exit :: rest)))

namespace Interlocked

variable {ts : TokenList} {pieces more : List Piece}

theorem append (h : Interlocked ts pieces) (hmore : Interlocked ts more) :
    Interlocked ts (pieces ++ more) := by
  induction h with
  | nil => exact hmore
  | statement tokens _ ih => exact .statement tokens ih
  | issue hissue _ ih => exact .issue hissue ih
  | branch keyword condition hbody _ _ ih =>
      simp only [List.cons_append, List.append_assoc]
      exact .branch keyword condition hbody ih
  | branchElse keyword condition hbody hother _ _ _ ih =>
      simp only [List.cons_append, List.append_assoc]
      exact .branchElse keyword condition hbody hother ih

/-- What a cut may record is all that it records. -/
theorem recordable (h : Interlocked ts pieces) {issue : Issue} (hissue : .issue issue ∈ pieces) :
    Recordable ts issue := by
  induction h with
  | nil => cases hissue
  | statement tokens _ ih => simpa using ih (by simpa using hissue)
  | issue hfirst _ ih =>
      rcases List.mem_cons.mp hissue with heq | hissue
      · cases heq
        exact hfirst
      · exact ih hissue
  | branch keyword condition _ _ ihbody ih =>
      simp only [List.mem_cons, List.mem_append, reduceCtorEq, false_or] at hissue
      rcases hissue with hissue | hissue
      · exact ihbody hissue
      · exact ih hissue
  | branchElse keyword condition _ _ _ ihbody ihother ih =>
      simp only [List.mem_cons, List.mem_append, reduceCtorEq, false_or] at hissue
      rcases hissue with hissue | hissue | hissue
      · exact ihbody hissue
      · exact ihother hissue
      · exact ih hissue

end Interlocked

/-! ## Cuts that end -/

namespace Cut

/-- A cut that comes to an end leaves pieces that nest. -/
def Nests (ts : TokenList) {α : Type} (c : Cut α) : Prop :=
  ∀ a, c.result = .ok a → Interlocked ts c.pieces

section

variable {ts : TokenList} {α β : Type}

/-- A cut in two parts ends only if both parts do. -/
theorem bind_eq_ok {c : Cut α} {f : α → Cut β} {b : β} (h : (c >>= f).result = .ok b) :
    ∃ a, c.result = .ok a ∧ (f a).result = .ok b ∧
      (c >>= f).pieces = c.pieces ++ (f a).pieces := by
  obtain ⟨pieces, fault | a⟩ := c
  · cases h
  · exact ⟨a, rfl, h, rfl⟩

theorem nests_of_pieces_eq_nil {c : Cut α} (h : c.pieces = []) : Nests ts c := by
  intro a _
  rw [h]
  exact .nil

theorem nests_pure (a : α) : Nests ts (pure a : Cut α) := nests_of_pieces_eq_nil rfl

theorem nests_fail (fault : TokenFault) : Nests ts (fail fault : Cut α) :=
  nests_of_pieces_eq_nil rfl

theorem Nests.bind {c : Cut α} {f : α → Cut β} (hc : Nests ts c) (hf : ∀ a, Nests ts (f a)) :
    Nests ts (c >>= f) := by
  intro b hb
  obtain ⟨a, ha, hb, hpieces⟩ := bind_eq_ok hb
  rw [hpieces]
  exact (hc a ha).append (hf a b hb)

theorem nests_issue {issue : Issue} (h : Recordable ts issue) : Nests ts (emit (.issue issue)) :=
  fun _ _ => .issue h .nil

theorem recordable_of_malformed {message : String} {statement : Option String} :
    Recordable ts ⟨.malformedInput, message, statement⟩ := nofun

end

section

variable (ts : TokenList) (limit : Nat)

theorem pieces_passStatement (cursor : Cursor) : (passStatement ts cursor limit).pieces = [] := by
  unfold passStatement
  cases statementFrom ts cursor limit <;> rfl

theorem nests_passStatement (cursor : Cursor) : Nests ts (passStatement ts cursor limit) :=
  nests_of_pieces_eq_nil (pieces_passStatement ts limit cursor)

theorem nests_statement (cursor : Cursor) : Nests ts (statement ts cursor limit) := by
  have hemit : ∀ tokens, Nests ts (emit (.statement tokens)) :=
    fun tokens _ _ => .statement tokens .nil
  refine Nests.bind (nests_of_pieces_eq_nil rfl) ?_
  rintro ⟨tokens, cursor⟩
  dsimp only
  split
  · exact nests_pure cursor
  · exact (hemit tokens).bind fun _ => nests_pure cursor

/-- Nothing but issues is left by what is passed over. -/
theorem nests_pass (steps : Nat) :
    (∀ cursor, Nests ts (passBranch ts limit steps cursor)) ∧
      ∀ i, Nests ts (passLoop ts limit steps i) := by
  induction steps with
  | zero =>
      constructor
      · intro cursor
        unfold passBranch
        exact nests_fail _
      · intro i
        unfold passLoop
        exact nests_fail _
  | succ steps ih =>
      obtain ⟨ihbranch, ihloop⟩ := ih
      have hstatement := nests_passStatement ts limit
      constructor
      · rintro (_ | i)
        · exact nests_pure none
        · unfold passBranch
          split_ifs
          · exact nests_pure _
          · split
            · exact nests_pure _
            · exact hstatement _
          · split
            · exact hstatement _
            · refine (ihbranch _).bind ?_
              rintro (_ | j)
              · exact nests_pure none
              · dsimp only
                split_ifs
                · exact ihbranch _
                · exact nests_pure _
          · exact ihloop i
          · exact hstatement _
      · intro i
        unfold passLoop
        refine (nests_issue recordable_of_malformed).bind fun _ => ?_
        split_ifs
        · refine (ihbranch _).bind fun cursor => ?_
          split_ifs
          · exact hstatement cursor
          · exact nests_pure cursor
        · split
          · exact ihbranch _
          · exact hstatement _

end

/-- An `if` is ended once its branches are, and has one else at most. -/
theorem nests_conditional {ts : TokenList} {limit steps : Nat}
    (hbranch : ∀ cursor, Nests ts (branch ts limit steps cursor)) (i : Nat) :
    Nests ts (conditional ts limit (steps + 1) i) := by
  unfold conditional
  dsimp only
  split
  · exact (nests_issue recordable_of_malformed).bind fun _ => nests_passStatement ts limit _
  · intro cursor hcursor
    obtain ⟨-, -, h, hpieces⟩ := bind_eq_ok hcursor
    obtain ⟨behind, hend, h, hpieces'⟩ := bind_eq_ok h
    have hbody := hbranch _ behind hend
    rw [hpieces, hpieces']
    rcases behind with _ | j
    · exact .branch i _ hbody .nil
    · dsimp only at h ⊢
      split_ifs at h ⊢
      · obtain ⟨-, -, h, hpieces⟩ := bind_eq_ok h
        obtain ⟨_, hother, -, hpieces'⟩ := bind_eq_ok h
        rw [hpieces, hpieces']
        exact .branchElse i _ hbody (hbranch _ _ hother) .nil
      · exact .branch i _ hbody .nil

/-- However the links lead, what is cut nests. The induction is on the depth that is left, for all
three kinds of cut at once. -/
theorem nests_cut (ts : TokenList) (steps : Nat) :
    (∀ limit cursor, Nests ts (range ts limit steps cursor)) ∧
      (∀ limit cursor, Nests ts (branch ts limit steps cursor)) ∧
      ∀ limit i, Nests ts (conditional ts limit steps i) := by
  induction steps with
  | zero =>
      refine ⟨?_, ?_, ?_⟩
      · intro limit cursor
        unfold range
        exact nests_fail _
      · intro limit cursor
        unfold branch
        exact nests_fail _
      · intro limit i
        unfold conditional
        exact nests_fail _
  | succ steps ih =>
      obtain ⟨ihrange, ihbranch, ihconditional⟩ := ih
      have hloop := fun limit => (nests_pass ts limit steps).2
      refine ⟨?_, ?_, fun limit i => nests_conditional (ihbranch limit) i⟩
      · rintro limit (_ | i)
        · exact nests_pure ()
        · unfold range
          split_ifs with _ _ _ _ _ helse
          · exact nests_pure ()
          · exact (ihrange _ _).bind fun _ => ihrange limit _
          · exact ihrange limit _
          · exact (ihconditional limit i).bind fun _ => ihrange limit _
          · exact (hloop limit i).bind fun _ => ihrange limit _
          · have hrecord : Recordable ts .elseOutsideIf := fun _ => ⟨rfl, i, helse⟩
            exact (nests_issue hrecord).bind fun _ => ihrange limit _
          · exact (nests_statement ts limit _).bind fun _ => ihrange limit _
      · rintro limit (_ | i)
        · exact nests_pure none
        · unfold branch
          split_ifs
          · exact nests_pure _
          · exact (ihrange _ _).bind fun _ => nests_pure _
          · exact ihconditional limit i
          · exact hloop limit i
          · exact nests_pure _
          · exact nests_statement ts limit _

theorem nests_body (ts : TokenList) (opening closing : Nat) : Nests ts (body ts opening closing) :=
  (nests_cut ts (enough ts)).1 closing (ts.next opening)

end Cut

/-! ## Pieces read as events -/

namespace TokenList

variable {ts : TokenList} {o : Options}

theorem exists_ok_of_bind {α β : Type} {r : Except TokenFault α} {f : α → Except TokenFault β}
    {b : β} (h : (r >>= f) = .ok b) : ∃ a, r = .ok a ∧ f a = .ok b := by
  cases r with
  | error fault => cases h
  | ok a => exact ⟨a, rfl, h⟩

/-- A statement is read as a plain one, whatever is in it. -/
theorem plain?_readStatement {first : Nat} {rest : List Nat} {event : Event}
    (h : ts.readStatement o first rest = .ok event) : event.plain?.isSome = true := by
  unfold readStatement at h
  dsimp only at h
  split_ifs at h
  · obtain ⟨returned, -, h⟩ := exists_ok_of_bind h
    obtain ⟨names, -, h⟩ := exists_ok_of_bind h
    cases h
    rfl
  · obtain ⟨returned, -, h⟩ := exists_ok_of_bind h
    obtain ⟨names, -, h⟩ := exists_ok_of_bind h
    cases h
    rfl
  · split at h
    · obtain ⟨names, -, h⟩ := exists_ok_of_bind h
      cases h
      rfl
    · split at h
      · obtain ⟨target, -, h⟩ := exists_ok_of_bind h
        obtain ⟨names, -, h⟩ := exists_ok_of_bind h
        cases h
        rfl
      · obtain ⟨names, -, h⟩ := exists_ok_of_bind h
        cases h
        rfl

theorem readPieces_cons {piece : Piece} {rest : List Piece} {items : List Item}
    (h : ts.readPieces o none (piece :: rest) = (items, none)) :
    ∃ first later, ts.readPiece o piece = .ok first ∧
      ts.readPieces o none rest = (later, none) ∧ items = first ++ later := by
  unfold readPieces at h
  cases hpiece : ts.readPiece o piece with
  | error fault =>
      rw [hpiece] at h
      cases h
  | ok first =>
      rw [hpiece] at h
      obtain ⟨hitems, hfault⟩ := Prod.mk.inj h
      exact ⟨first, (ts.readPieces o none rest).1, rfl, Prod.ext rfl hfault, hitems.symm⟩

theorem readPieces_append {pieces more : List Piece} {items : List Item}
    (h : ts.readPieces o none (pieces ++ more) = (items, none)) :
    ∃ left right, ts.readPieces o none pieces = (left, none) ∧
      ts.readPieces o none more = (right, none) ∧ items = left ++ right := by
  induction pieces generalizing items with
  | nil => exact ⟨[], items, rfl, h, rfl⟩
  | cons piece pieces ih =>
      obtain ⟨first, later, hpiece, hlater, rfl⟩ := readPieces_cons h
      obtain ⟨left, right, hleft, hright, rfl⟩ := ih hlater
      refine ⟨first ++ left, right, ?_, hright, (List.append_assoc _ _ _).symm⟩
      unfold readPieces
      rw [hpiece, hleft]

/-- A cut that did not end is not read to its end. -/
theorem readPieces_fault (fault : TokenFault) (pieces : List Piece) :
    (ts.readPieces o (some fault) pieces).2 ≠ none := by
  induction pieces with
  | nil => exact nofun
  | cons piece pieces ih =>
      unfold readPieces
      cases ts.readPiece o piece with
      | error e => exact nofun
      | ok items => exact ih

/-- What is read from a statement: one plain event, or nothing if there is nothing of it. -/
theorem readPiece_statement {tokens : List Nat} {items : List Item}
    (h : ts.readPiece o (.statement tokens) = .ok items) :
    items = [] ∨ ∃ event : Event, event.plain?.isSome = true ∧ items = [.event event] := by
  cases tokens with
  | nil =>
      cases h
      exact Or.inl rfl
  | cons first rest =>
      obtain ⟨event, hevent, h⟩ := exists_ok_of_bind h
      cases h
      exact Or.inr ⟨event, plain?_readStatement hevent, rfl⟩

theorem readPiece_enter {keyword : Nat} {condition : List Nat} {items : List Item}
    (h : ts.readPiece o (.enter keyword condition) = .ok items) :
    ∃ text names ref, items = [.event (.enter text names ref)] := by
  obtain ⟨names, -, h⟩ := exists_ok_of_bind h
  cases h
  exact ⟨_, _, _, rfl⟩

end TokenList

namespace Interlocked

variable {ts : TokenList} {o : Options} {pieces : List Piece} {items : List Item}

/-- Pieces that nest are read as events that nest. -/
theorem wellNested (h : Interlocked ts pieces)
    (hread : ts.readPieces o none pieces = (items, none)) :
    WellNested (items.filterMap Item.event?) := by
  induction h generalizing items with
  | nil =>
      cases hread
      exact .nil
  | statement tokens _ ih =>
      obtain ⟨first, later, hfirst, hlater, rfl⟩ := TokenList.readPieces_cons hread
      rcases TokenList.readPiece_statement hfirst with rfl | ⟨event, hplain, rfl⟩
      · exact ih hlater
      · exact .plain hplain (ih hlater)
  | issue _ _ ih =>
      obtain ⟨first, later, hfirst, hlater, rfl⟩ := TokenList.readPieces_cons hread
      cases hfirst
      show WellNested (later.filterMap Item.event?)
      exact ih hlater
  | branch keyword condition _ _ ihbody ih =>
      obtain ⟨first, later, hfirst, hlater, rfl⟩ := TokenList.readPieces_cons hread
      obtain ⟨text, names, ref, rfl⟩ := TokenList.readPiece_enter hfirst
      obtain ⟨body, behind, hbody, hbehind, rfl⟩ := TokenList.readPieces_append hlater
      obtain ⟨last, rest, hlast, hrest, rfl⟩ := TokenList.readPieces_cons hbehind
      cases hlast
      simp only [List.cons_append, List.nil_append, List.filterMap_cons, List.filterMap_append,
        Item.event?]
      exact .branch (ihbody hbody) (ih hrest)
  | branchElse keyword condition _ _ _ ihbody ihother ih =>
      obtain ⟨first, later, hfirst, hlater, rfl⟩ := TokenList.readPieces_cons hread
      obtain ⟨text, names, ref, rfl⟩ := TokenList.readPiece_enter hfirst
      obtain ⟨body, behind, hbody, hbehind, rfl⟩ := TokenList.readPieces_append hlater
      obtain ⟨turn, second, hturn, hsecond, rfl⟩ := TokenList.readPieces_cons hbehind
      obtain ⟨other, after, hother, hafter, rfl⟩ := TokenList.readPieces_append hsecond
      obtain ⟨last, rest, hlast, hrest, rfl⟩ := TokenList.readPieces_cons hafter
      cases hturn
      cases hlast
      simp only [List.cons_append, List.nil_append, List.filterMap_cons, List.filterMap_append,
        Item.event?]
      exact .branchElse (ihbody hbody) (ihother hother) (ih hrest)

end Interlocked

/-- An issue that is read was recorded when the tokens were cut. -/
theorem TokenList.issue_mem_pieces {ts : TokenList} {o : Options} {pieces : List Piece}
    {items : List Item} {issue : Issue} (h : ts.readPieces o none pieces = (items, none))
    (hissue : issue ∈ items.filterMap Item.issue?) : .issue issue ∈ pieces := by
  induction pieces generalizing items with
  | nil =>
      cases h
      cases hissue
  | cons piece pieces ih =>
      obtain ⟨first, later, hfirst, hlater, rfl⟩ := readPieces_cons h
      rw [List.filterMap_append, List.mem_append] at hissue
      rcases hissue with hissue | hissue
      · cases piece with
        | statement tokens =>
            rcases readPiece_statement hfirst with rfl | ⟨event, -, rfl⟩ <;> cases hissue
        | enter =>
            obtain ⟨text, names, ref, rfl⟩ := readPiece_enter hfirst
            cases hissue
        | orElse | exit =>
            cases hfirst
            cases hissue
        | issue recorded =>
            cases hfirst
            rw [List.mem_singleton.mp hissue]
            exact List.mem_cons_self
      · exact List.mem_cons_of_mem _ (ih hlater hissue)

/-! ## The graph of what is read -/

theorem WellNested.finish_notMem {events : List Event} (h : WellNested events) :
    .finish ∉ events := by
  induction h with
  | nil => exact List.not_mem_nil
  | @plain event rest hplain _ ih =>
      rw [List.mem_cons, not_or]
      refine ⟨?_, ih⟩
      rintro rfl
      cases hplain
  | branch _ _ ihbody ih => simp [ihbody, ih]
  | branchElse _ _ _ ihbody ihother ih => simp [ihbody, ihother, ih]

namespace Builder

/-- Events that nest leave no frame open. -/
theorem frames_run_wellNested (home : Nat) (name : Option String) {events : List Event}
    (h : WellNested events) : (Builder.run { graph := { home, name } } events).frames = [] := by
  have hopen := openBranches_run { graph := { home, name } } events
  rw [h.foldl_openAfter] at hopen
  exact List.map_eq_nil_iff.mp hopen

/-- Where no frame is open, the end of the source changes nothing. -/
theorem step_finish_of_nil {b : Builder} (h : b.frames = []) : b.step .finish = b := by
  show b.closeAll b.frames = b
  rw [h]
  rfl

theorem runIssues_wellNested (home : Nat) (name : Option String) {events : List Event}
    (h : WellNested events) :
    Builder.runIssues { graph := { home, name } } (events ++ [.finish]) = [] := by
  have hfinish := h.finish_notMem
  rw [runIssues_eq_nil_iff _ hfinish]
  exact (wellNested_iff_faultless hfinish).mp h

end Builder

/-- Where the builder has nothing to say, the issues are those that were read. -/
theorem Item.buildIssues_eq {b : Builder} {items : List Item}
    (h : b.runIssues (items.filterMap Item.event? ++ [.finish]) = []) :
    Item.buildIssues b items = items.filterMap Item.issue? := by
  induction items generalizing b with
  | nil => exact (List.append_nil _).symm.trans h
  | cons item items ih =>
      cases item with
      | event e =>
          have hsplit : b.issues e = [] ∧
              (b.step e).runIssues (items.filterMap Item.event? ++ [.finish]) = [] :=
            List.append_eq_nil_iff.mp h
          show b.issues e ++ Item.buildIssues (b.step e) items = _
          rw [hsplit.1, ih hsplit.2]
          rfl
      | issue i => exact congrArg (i :: ·) (ih h)

/-- What is read of a scope nests, and what it records about the structure is about else tokens. -/
theorem Scope.wellNested_read {s : Scope} {ts : TokenList} {o : Options} {items : List Item}
    (h : s.read ts o = (items, none)) :
    WellNested (items.filterMap Item.event?) ∧
      ∀ issue ∈ items.filterMap Item.issue?, Recordable ts issue := by
  unfold Scope.read at h
  split at h
  · rename_i opening closing _ _
    have hnests := Cut.nests_body ts opening closing
    dsimp only at h
    generalize Cut.body ts opening closing = walked at h hnests
    obtain ⟨pieces, fault | ⟨⟨⟩⟩⟩ := walked
    · exact absurd (congrArg Prod.snd h) (TokenList.readPieces_fault fault pieces)
    · have hinterlocked := hnests () rfl
      exact ⟨hinterlocked.wellNested h, fun issue hissue =>
        hinterlocked.recordable (TokenList.issue_mem_pieces h hissue)⟩
  · cases h
    refine ⟨.nil, ?_⟩
    intro issue hissue
    rw [List.mem_singleton.mp hissue]
    exact Cut.recordable_of_malformed

/-- **What is read of a scope always nests.** Whatever tokens there are and however their links
lead: if the scope can be read at all, the events nest. So the builder that takes them has no open
frame when they end, the end of the source adds nothing, and the graph comes with exactly the
issues that were read. Those about the structure are all about else tokens outside of an `if`. -/
theorem read_nests (s : Scope) (ts : TokenList) (o : Options) (items : List Item)
    (h : s.read ts o = (items, none)) :
    let events := items.filterMap Item.event?
    let b := Builder.run { graph := { name := s.name } } events
    WellNested events ∧ b.depth = 0 ∧ b.step .finish = b ∧
    ∃ f, FunctionGraph.ofScope s ts o = .ok f ∧ f.graph = b.graph ∧
      f.issues = items.filterMap Item.issue? ∧
      ∀ issue ∈ f.issues, issue.kind = .structuralInconsistency →
        issue = ⟨.structuralInconsistency, "'else' token outside of an 'if' statement", none⟩ ∧
          ∃ i, ts.textAt i = "else" := by
  intro events b
  obtain ⟨hnested, hrecordable⟩ := Scope.wellNested_read h
  have hframes : b.frames = [] := Builder.frames_run_wellNested 0 s.name hnested
  have hfinish : b.step .finish = b := Builder.step_finish_of_nil hframes
  have hissues := Item.buildIssues_eq (Builder.runIssues_wellNested 0 s.name hnested)
  refine ⟨hnested, congrArg List.length hframes, hfinish, ⟨b.graph, items.filterMap Item.issue?⟩,
    ?_, rfl, rfl, hrecordable⟩
  unfold FunctionGraph.ofScope
  rw [h]
  show Except.ok (FunctionGraph.mk (b.step .finish).graph
    (Item.buildIssues { graph := { name := s.name } } items)) = _
  rw [hfinish, hissues]

/-- `{ if(c) { else x } } else ;` in a body that ends at the first closing brace: the block of the
`if` is linked to the second one, so its end lies behind the end of the body. -/
def overshooting : TokenList where
  tokens := #[{ text := "\x7b" }, { text := "if" }, { text := "(", link := some 4 },
    { text := "c" }, { text := ")" }, { text := "\x7b", link := some 9 }, { text := "else" },
    { text := "x" }, { text := "\x7d" }, { text := "\x7d" }, { text := "else" }, { text := ";" }]

theorem read_nests_overshooting :
    let s : Scope := { bodyStart := some 0, bodyEnd := some 8 }
    let events : List Event := [.enter "c" [] ⟨"", none, some 1⟩,
      .expression "x \x7d;" [] ⟨"", none, some 7⟩, .orElse, .exit]
    (s.read overshooting {}).1.filterMap Item.event? = events ∧ WellNested events ∧
      (Builder.run {} events).depth = 0 ∧
      ∃ f, FunctionGraph.ofScope s overshooting {} = .ok f ∧
        f.issues = [⟨.structuralInconsistency, "'else' token outside of an 'if' statement",
          none⟩] := by
  intro s events
  have hread : s.read overshooting {} =
      ([.event (.enter "c" [] ⟨"", none, some 1⟩), .issue .elseOutsideIf,
        .event (.expression "x \x7d;" [] ⟨"", none, some 7⟩), .event .orElse, .event .exit],
        none) := by
    decide +kernel
  obtain ⟨hnested, hdepth, -, f, hf, -, hissues, -⟩ := read_nests s overshooting {} _ hread
  exact ⟨by rw [hread]; rfl, hnested, hdepth, f, hf, hissues⟩

end NullSafety
