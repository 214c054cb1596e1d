import NullSafety.FunctionGraph
import NullSafety.Proofs.Cutting

/-!
# Reading structured source code

A body whose tokens show structured source is read as exactly what its phrases say, one after the
other. What a plain statement says is stated here without a loop over its tokens: which token
declares, where the first equals sign outside brackets is, and which names are dereferenced are
each found in the list as a whole.
-/

namespace NullSafety

/-! ## What the pieces say -/

/-- A token has no number of a variable, or one that can be read. -/
def Token.hasNumericId (t : Token) : Bool :=
  match t.varId with
  | none => true
  | some id => id.isMissing || id.value?.isSome

def Token.isVariable (t : Token) : Bool := (t.varId.bind Numeral.value?).any (· ≠ 0)

namespace TokenList

def isVariable (ts : TokenList) (i : Nat) : Bool := ts.tokens[i]?.any Token.isVariable

/-- The name of a variable that is all there is. -/
def soleVariable? (ts : TokenList) : List Nat → Option String
  | [i] => if ts.isVariable i then some (ts.textAt i) else none
  | _ => none

/-- The names of the variables that tokens dereference, in order. -/
def dereferencedNames (ts : TokenList) (tokens : List Nat) : List String :=
  tokens.filterMap fun i => (ts.dereferenced? i).bind fun operand => ts.soleVariable? [operand]

/-- The text of a statement. -/
def statementText (ts : TokenList) (tokens : List Nat) : String :=
  " ".intercalate (tokens.map ts.spellingAt) ++ ";"

/-- The event of a declaration by token `i` of a statement, with the tokens after it. -/
def declarationEvent (ts : TokenList) (o : Options) (text : String) (i : Nat) (after : List Nat) :
    Event :=
  let equals := firstOutside? "=" (after.map ts.textAt)
  let initializer := equals.elim [] fun k => after.drop (k + 1)
  .declaration text (some (ts.textAt i)) ((ts.declares? i).any DeclaredVariable.isPointer)
    (ts.spellsNull o initializer) equals.isSome (ts.dereferencedNames initializer) (ts.refAt i)

/-- The event of a plain statement: a jump if it begins like one, else a declaration if one of its
tokens declares a variable, else an assignment if the first equals sign outside brackets has
something before it, else an expression. -/
def statementEvent (ts : TokenList) (o : Options) (first : Nat) (rest : List Nat) : Event :=
  let tokens := first :: rest
  if ts.textAt first ∈ ["return", "break", "continue", "goto"] then
    .jump (ts.statementText tokens)
      (if ts.textAt first = "return" then ts.soleVariable? rest else none)
      (ts.dereferencedNames tokens) (ts.refAt first)
  else
    match tokens.dropWhile fun i => (ts.declares? i).isNone with
    | i :: after => ts.declarationEvent o (ts.statementText tokens) i after
    | [] =>
      match firstOutside? "=" (tokens.map ts.textAt) with
      | some (k + 1) =>
        .assignment (ts.statementText tokens) (ts.soleVariable? (tokens.take (k + 1)))
          (ts.spellsNull o (tokens.drop (k + 2))) (ts.dereferencedNames tokens)
          (ts.refAt (tokens.getD (k + 1) first))
      | _ =>
        .expression (ts.statementText tokens) (ts.dereferencedNames tokens) (ts.refAt first)

end TokenList

/-- What a piece says. -/
def Piece.items (ts : TokenList) (o : Options) : Piece → List Item
  | .statement [] => []
  | .statement (first :: rest) => [.event (ts.statementEvent o first rest)]
  | .enter keyword condition =>
    [.event (.enter (" ".intercalate (condition.map ts.spellingAt))
      (ts.dereferencedNames condition) (ts.refAt keyword))]
  | .orElse => [.event .orElse]
  | .exit => [.event .exit]
  | .issue i => [.issue i]

/-! ## Reading the pieces -/

/-- The index of the first text that equals the given one and is outside all brackets, where
`depth` of them are open in front of the texts. -/
def outsideFrom? (depth : Int) (s : String) (texts : List String) : Option Nat :=
  (List.range texts.length).find? fun k => texts[k]? = some s ∧ depth + level (texts.take k) = 0

theorem firstOutside?_eq_outsideFrom? (s : String) (texts : List String) :
    firstOutside? s texts = outsideFrom? 0 s texts := by
  unfold firstOutside? outsideFrom?
  simp only [Int.zero_add]

theorem outsideFrom?_cons (depth : Int) (s t : String) (texts : List String) :
    outsideFrom? depth s (t :: texts) =
      if t = s ∧ depth = 0 then some 0
      else (outsideFrom? (depth + opened t) s texts).map (· + 1) := by
  have hfirst : ((t :: texts)[0]? = some s ∧ depth + level ((t :: texts).take 0) = 0) ↔
      t = s ∧ depth = 0 := by
    simp [level]
  have hlater : ((fun k => decide ((t :: texts)[k]? = some s ∧
      depth + level ((t :: texts).take k) = 0)) ∘ Nat.succ) =
        fun k => decide (texts[k]? = some s ∧ depth + opened t + level (texts.take k) = 0) := by
    funext k
    simp [level, Int.add_assoc]
  unfold outsideFrom?
  rw [List.length_cons, List.range_succ_eq_map, List.find?_cons, List.find?_map, hlater]
  by_cases h : t = s ∧ depth = 0
  · simp [h, level]
  · rw [if_neg h, decide_eq_false (mt hfirst.mp h)]

namespace TokenList

variable {ts : TokenList}

theorem topLevel?_cons {s : String} (hs : isBracket s = false) (depth : Int) (index i : Nat)
    (rest : List Nat) :
    ts.topLevel? s depth index (i :: rest) =
      if ts.textAt i = s ∧ depth = 0 then some index
      else ts.topLevel? s (depth + opened (ts.textAt i)) (index + 1) rest := by
  rw [topLevel?]
  cases hbracket : isBracket (ts.textAt i) with
  | true =>
      have hne : ¬ (ts.textAt i = s ∧ depth = 0) := by
        rintro ⟨rfl, -⟩
        rw [hs] at hbracket
        cases hbracket
      rw [if_neg hne]
      unfold opened
      by_cases hopener : Cut.isOpener (ts.textAt i) = true
      · rw [if_pos hopener, if_pos hopener]
      · have hcloser : Cut.isCloser (ts.textAt i) = true := by
          simpa [isBracket, hopener] using hbracket
        rw [if_neg hopener, if_neg hopener, if_pos hcloser, if_pos hcloser]
        rfl
  | false =>
      obtain ⟨hopener, hcloser⟩ := Bool.or_eq_false_iff.mp hbracket
      rw [opened_of_not_bracket hbracket, Int.add_zero, hopener, hcloser]
      simp only [Bool.false_eq_true, if_false, and_comm]

theorem topLevel?_eq {s : String} (hs : isBracket s = false) (depth : Int) (index : Nat)
    (tokens : List Nat) :
    ts.topLevel? s depth index tokens =
      (outsideFrom? depth s (tokens.map ts.textAt)).map (· + index) := by
  induction tokens generalizing depth index with
  | nil => rfl
  | cons i rest ih =>
      rw [List.map_cons, outsideFrom?_cons, topLevel?_cons hs]
      by_cases h : ts.textAt i = s ∧ depth = 0
      · rw [if_pos h, if_pos h, Option.map_some, Nat.zero_add]
      · rw [if_neg h, if_neg h, ih, Option.map_map]
        congr 1
        funext k
        exact (Nat.add_right_comm k 1 index).symm

/-- The first equals sign outside brackets is found wherever it is. -/
theorem topLevel?_equals (tokens : List Nat) :
    ts.topLevel? "=" 0 0 tokens = firstOutside? "=" (tokens.map ts.textAt) := by
  rw [topLevel?_eq (by decide), firstOutside?_eq_outsideFrom?]
  exact Option.map_id'

theorem declaration?_eq (tokens : List Nat) :
    ts.declaration? tokens =
      match tokens.dropWhile fun i => (ts.declares? i).isNone with
      | i :: after => (ts.declares? i).map fun v => (i, v, after)
      | [] => none := by
  induction tokens with
  | nil => rfl
  | cons i rest ih =>
      cases hdeclares : ts.declares? i with
      | some v => simp [declaration?, hdeclares]
      | none => simp [declaration?, hdeclares, ih]

end TokenList

theorem Token.isJumpKeyword_iff {s : String} :
    Token.isJumpKeyword s = true ↔ s ∈ ["return", "break", "continue", "goto"] := by
  simp [Token.isJumpKeyword, or_assoc]

theorem any_value?_of_isMissing {id : Numeral} (h : id.isMissing = true) :
    id.value?.any (· ≠ 0) = false := by
  cases id with
  | number value => simp_all [Numeral.isMissing, Numeral.value?]
  | text digits =>
      have hdigits : digits = "" := of_decide_eq_true h
      rw [hdigits]
      decide +kernel

theorem Token.namesVariable_eq {t : Token} (h : t.hasNumericId = true) :
    t.namesVariable = .ok t.isVariable := by
  unfold hasNumericId at h
  unfold namesVariable isVariable
  cases hid : t.varId with
  | none => rfl
  | some id =>
      rw [hid] at h
      dsimp only [Option.bind_some] at h ⊢
      cases hmissing : id.isMissing with
      | true =>
          rw [any_value?_of_isMissing hmissing]
          rfl
      | false =>
          rw [hmissing, Bool.false_or] at h
          obtain ⟨value, hvalue⟩ := Option.isSome_iff_exists.mp h
          rw [hvalue]
          rfl

section

variable {ts : TokenList} (hnumeric : ∀ t ∈ ts.tokens, t.hasNumericId = true)

include hnumeric

theorem TokenList.namesVariable_eq (i : Nat) : ts.namesVariable i = .ok (ts.isVariable i) := by
  unfold TokenList.namesVariable TokenList.isVariable
  cases htoken : ts.tokens[i]? with
  | none => rfl
  | some t => exact Token.namesVariable_eq (hnumeric t (Array.mem_of_getElem? htoken))

theorem TokenList.variableAt_eq (tokens : List Nat) :
    ts.variableAt tokens = .ok (ts.soleVariable? tokens) := by
  match tokens with
  | [] => rfl
  | [i] =>
      show (ts.namesVariable i >>= fun isVariable =>
        .ok (if isVariable then some (ts.textAt i) else none)) = _
      rw [TokenList.namesVariable_eq hnumeric]
      rfl
  | _ :: _ :: _ => rfl

theorem TokenList.dereferences_eq (tokens : List Nat) :
    ts.dereferences tokens = .ok (ts.dereferencedNames tokens) := by
  induction tokens with
  | nil => rfl
  | cons i rest ih =>
      unfold TokenList.dereferences TokenList.dereferencedNames
      rw [List.filterMap_cons]
      cases hoperand : ts.dereferenced? i with
      | none => exact ih
      | some operand =>
          simp only [TokenList.namesVariable_eq hnumeric, ih, Option.bind_some,
            TokenList.soleVariable?]
          cases ts.isVariable operand with
          | true => rfl
          | false => rfl

theorem TokenList.readStatement_eq (o : Options) (first : Nat) (rest : List Nat) :
    ts.readStatement o first rest = .ok (ts.statementEvent o first rest) := by
  unfold TokenList.readStatement TokenList.statementEvent
  simp only [TokenList.variableAt_eq hnumeric, TokenList.dereferences_eq hnumeric,
    TokenList.topLevel?_equals, TokenList.declaration?_eq]
  by_cases hjump : ts.textAt first ∈ ["return", "break", "continue", "goto"]
  · rw [if_pos (Token.isJumpKeyword_iff.mpr hjump), if_pos hjump]
    by_cases hreturn : ts.textAt first = "return"
    · rw [if_pos hreturn, if_pos hreturn]
      rfl
    · rw [if_neg hreturn, if_neg hreturn]
      rfl
  · rw [if_neg (mt Token.isJumpKeyword_iff.mp hjump), if_neg hjump]
    cases hdeclared : (first :: rest).dropWhile fun i => (ts.declares? i).isNone with
    | nil =>
        cases firstOutside? "=" ((first :: rest).map ts.textAt) with
        | none => rfl
        | some k =>
            cases k with
            | zero => rfl
            | succ k => rfl
    | cons i after =>
        have hdeclares := List.head?_dropWhile_not (fun i => (ts.declares? i).isNone)
          (first :: rest)
        rw [hdeclared] at hdeclares
        obtain ⟨v, hv⟩ := Option.isSome_iff_exists.mp (Option.isNone_eq_false_iff.mp hdeclares)
        unfold TokenList.declarationEvent
        simp only [hv, Option.map_some, Option.any_some]
        cases firstOutside? "=" (after.map ts.textAt) with
        | none => rfl
        | some k => rfl

theorem TokenList.readPiece_eq (o : Options) (piece : Piece) :
    ts.readPiece o piece = .ok (piece.items ts o) := by
  cases piece with
  | statement tokens =>
      cases tokens with
      | nil => rfl
      | cons first rest =>
          rw [TokenList.readPiece, TokenList.readStatement_eq hnumeric]
          rfl
  | enter keyword condition =>
      rw [TokenList.readPiece, TokenList.dereferences_eq hnumeric]
      rfl
  | orElse | exit | issue => rfl

theorem TokenList.readPieces_eq (o : Options) (fault : Option TokenFault) (pieces : List Piece) :
    ts.readPieces o fault pieces = (pieces.flatMap (Piece.items ts o), fault) := by
  induction pieces with
  | nil => rfl
  | cons piece rest ih =>
      unfold TokenList.readPieces
      rw [TokenList.readPiece_eq hnumeric, ih]
      rfl

/-- A body that is cut whole is read as what its pieces say. -/
theorem Scope.read_of_body {scope : Scope} {opening closing : Nat} {pieces : List Piece}
    (o : Options) (hstart : scope.bodyStart = some opening) (hend : scope.bodyEnd = some closing)
    (hbody : Cut.body ts opening closing = ⟨pieces, .ok ()⟩) :
    scope.read ts o = (pieces.flatMap (Piece.items ts o), none) := by
  unfold Scope.read
  simp only [hstart, hend, hbody]
  exact TokenList.readPieces_eq hnumeric o none pieces

end

/-- **Reading undoes rendering.** Take any phrases in which every else belongs to its own `if`, and
tokens that show them between the two ends of a body, with brackets linked and the numbers of
variables readable. The body is then read as what the phrases say, in order and nothing else:
nothing for a lone semicolon, one event for a plain statement, an `if` and its else and its end
around the events of the branches, and no event for a loop, which is passed over as an issue. -/
theorem read_rendered (ts : TokenList) (o : Options) (scope : Scope) (opening closing : Nat)
    (program : List Phrase) (hstart : scope.bodyStart = some opening)
    (hend : scope.bodyEnd = some closing)
    (hclosing : closing = opening + 1 + (Phrase.textsAll program).length)
    (hsize : closing < ts.size) (hshows : ts.Shows (opening + 1) (Phrase.textsAll program))
    (hsettled : Phrase.SettledAll program)
    (hnumeric : ∀ t ∈ ts.tokens, t.hasNumericId = true) :
    scope.read ts o =
      ((Phrase.piecesAll ts (opening + 1) program).flatMap (Piece.items ts o), none) := by
  have hstands : Phrase.StandUpTo program ts closing (opening + 1) :=
    ⟨hsettled, ⟨[], (List.append_nil _).symm ▸ hshows⟩, hclosing.symm⟩
  unfold Scope.read
  simp only [hstart, hend, Cut.body_phrases hsize hstands]
  exact TokenList.readPieces_eq hnumeric o none _

theorem Balanced.of_words {texts : List String} (h : ∀ s ∈ texts, isBracket s = false) :
    Balanced texts := by
  induction texts with
  | nil => exact .nil
  | cons s texts ih =>
      exact .word (h s List.mem_cons_self) (ih fun t ht => h t (List.mem_cons_of_mem s ht))

/-- `int *p = NULL; if(c) { p = f(x); } else if(d) return p; do while(x); while(y);` -/
def elseIfAndLoops : List Phrase :=
  [.plain ⟨⟨["int", "*", "p", "=", "NULL"], .of_words (by decide)⟩,
    by decide, by decide, by decide⟩,
   .condElse ⟨["c"], .of_words (by decide)⟩
    (.block [.plain ⟨⟨["p", "=", "f", "(", "x", ")"],
      .word (by decide) (.word (by decide) (.word (by decide)
        (Phrase.balanced_parenthesised ⟨["x"], .of_words (by decide)⟩ .nil)))⟩,
      by decide, by decide, by decide⟩])
    (.cond ⟨["d"], .of_words (by decide)⟩
      (.plain ⟨⟨["return", "p"], .of_words (by decide)⟩, by decide, by decide, by decide⟩)),
   .doWhile (.loop .while ⟨["x"], .of_words (by decide)⟩ .empty) ⟨["y"], .of_words (by decide)⟩]

def elseIfAndLoopsTokens : TokenList where
  tokens := #[{ text := "\x7b" }, { text := "int" }, { text := "*" },
    { text := "p", varId := some (.number 1), decl := some 0 }, { text := "=" }, { text := "NULL" },
    { text := ";" }, { text := "if" }, { text := "(", link := some 10 }, { text := "c" },
    { text := ")" }, { text := "\x7b", link := some 19 },
    { text := "p", varId := some (.number 1), decl := some 0 }, { text := "=" }, { text := "f" },
    { text := "(", link := some 17 }, { text := "x" }, { text := ")" }, { text := ";" },
    { text := "\x7d" }, { text := "else" }, { text := "if" }, { text := "(", link := some 24 },
    { text := "d" }, { text := ")" }, { text := "return" },
    { text := "p", varId := some (.number 1), decl := some 0 }, { text := ";" }, { text := "do" },
    { text := "while" }, { text := "(", link := some 32 }, { text := "x" }, { text := ")" },
    { text := ";" }, { text := "while" }, { text := "(", link := some 37 }, { text := "y" },
    { text := ")" }, { text := ";" }, { text := "\x7d" }]
  declared := #[{ isPointer := true, nameToken := some 3 }]

theorem read_rendered_elseIfAndLoops :
    Scope.read { bodyStart := some 0, bodyEnd := some 39 } elseIfAndLoopsTokens {} =
      ([.event (.declaration "int * p = NULL;" (some "p") true true true [] ⟨"", none, some 3⟩),
        .event (.enter "c" [] ⟨"", none, some 7⟩),
        .event (.assignment "p = f ( x );" (some "p") false [] ⟨"", none, some 13⟩),
        .event .orElse, .event (.enter "d" [] ⟨"", none, some 21⟩),
        .event (.jump "return p;" (some "p") [] ⟨"", none, some 25⟩), .event .exit, .event .exit,
        .issue ⟨.malformedInput, "unsupported construct 'do' skipped", some "do"⟩,
        .issue ⟨.malformedInput, "unsupported construct 'while' skipped", some "( x"⟩], none) := by
  have hread := read_rendered elseIfAndLoopsTokens {} { bodyStart := some 0, bodyEnd := some 39 } 0
    39 elseIfAndLoops rfl rfl (by decide) (by decide) ⟨by decide +kernel, by decide +kernel⟩
    (by simp [elseIfAndLoops, Phrase.SettledAll, Phrase.Settled, Phrase.endsOpen])
    (by decide +kernel)
  exact hread.trans (by decide +kernel)

end NullSafety
