import NullSafety.Token.Reading

/-!
# Structured source code

What well-formed source looks like before it is a list of tokens: phrases built from plain
statements, blocks, `if` statements and loops, each with its texts. Plain statements and conditions
are lists of texts whose brackets are balanced; what is in them is left open.

A token list shows some texts if it has them one after the other and its brackets are linked as
they stand in the texts. The pieces of a phrase are what there is to be cut from tokens that show
it.
-/

namespace NullSafety

/-! ## Brackets -/

/-- An opening bracket and the one that closes it. -/
def bracketPairs : List (String × String) := [("(", ")"), ("[", "]"), ("\x7b", "\x7d")]

def isBracket (s : String) : Bool := Cut.isOpener s || Cut.isCloser s

/-- Texts in which every bracket has its partner. -/
inductive Balanced : List String → Prop
  | nil : Balanced []
  | word {s : String} {texts : List String} :
      isBracket s = false → Balanced texts → Balanced (s :: texts)
  | group {opener closer : String} {inner texts : List String} :
      (opener, closer) ∈ bracketPairs → Balanced inner → Balanced texts →
      Balanced (opener :: (inner ++ closer :: texts))

/-- How many more brackets a text opens than it closes. -/
def opened (s : String) : Int := if Cut.isOpener s then 1 else if Cut.isCloser s then -1 else 0

/-- How deep in brackets one is after some texts. -/
def level : List String → Int
  | [] => 0
  | s :: texts => opened s + level texts

/-- The index of the first text that equals the given one and is outside all brackets. -/
def firstOutside? (s : String) (texts : List String) : Option Nat :=
  (List.range texts.length).find? fun k => texts[k]? = some s ∧ level (texts.take k) = 0

/-- How far behind the first text, an opening bracket, its partner is: where the level is zero
again. -/
def partner? (texts : List String) : Option Nat :=
  (List.range texts.length).find? fun k => level (texts.take (k + 1)) = 0

theorem level_append (left right : List String) :
    level (left ++ right) = level left + level right := by
  induction left with
  | nil => exact (Int.zero_add _).symm
  | cons s left ih => rw [List.cons_append, level, level, ih, Int.add_assoc]

theorem opened_of_not_bracket {s : String} (h : isBracket s = false) : opened s = 0 := by
  unfold isBracket at h
  rw [Bool.or_eq_false_iff] at h
  simp [opened, h.1, h.2]

theorem isOpener_of_pair {opener closer : String} (h : (opener, closer) ∈ bracketPairs) :
    Cut.isOpener opener = true := by
  have hall : ∀ pair ∈ bracketPairs, Cut.isOpener pair.1 = true := by decide
  exact hall _ h

theorem opened_of_pair {opener closer : String} (h : (opener, closer) ∈ bracketPairs) :
    opened opener = 1 ∧ opened closer = -1 := by
  have hall : ∀ pair ∈ bracketPairs, opened pair.1 = 1 ∧ opened pair.2 = -1 := by decide
  exact hall _ h

namespace Balanced

theorem append {left right : List String} (hleft : Balanced left) (hright : Balanced right) :
    Balanced (left ++ right) := by
  induction hleft with
  | nil => exact hright
  | word hs _ ih => exact .word hs ih
  | group hpair hinner _ _ ih =>
      rw [List.cons_append, List.append_assoc, List.cons_append]
      exact .group hpair hinner ih

theorem level_eq {texts : List String} (h : Balanced texts) : level texts = 0 := by
  induction h with
  | nil => rfl
  | word hs _ ih => rw [level, opened_of_not_bracket hs, ih, Int.zero_add]
  | group hpair _ _ hinner hrest =>
      obtain ⟨hopen, hclose⟩ := opened_of_pair hpair
      rw [level, level_append, level, hopen, hclose, hinner, hrest]
      rfl

/-- Balanced texts never close more than they have opened. -/
theorem level_take_nonneg {texts : List String} (h : Balanced texts) (k : Nat) :
    0 ≤ level (texts.take k) := by
  induction h generalizing k with
  | nil => simp [level]
  | word hs _ ih =>
      cases k with
      | zero => simp [level]
      | succ k =>
          rw [List.take_succ_cons, level, opened_of_not_bracket hs, Int.zero_add]
          exact ih k
  | @group opener closer inner texts hpair hbalanced _ hinner hrest =>
      obtain ⟨hopen, hclose⟩ := opened_of_pair hpair
      cases k with
      | zero => simp [level]
      | succ k =>
          rw [List.take_succ_cons, level, hopen, List.take_append, level_append]
          have hfirst := hinner k
          -- the closing bracket is only taken behind the whole of what it closes
          rcases Nat.lt_or_ge inner.length k with hk | hk
          · obtain ⟨m, hm⟩ := Nat.exists_eq_add_of_lt hk
            have hmore : k - inner.length = m + 1 := by omega
            rw [hmore, List.take_succ_cons, level, hclose]
            have hsecond := hrest m
            omega
          · rw [Nat.sub_eq_zero_of_le hk]
            simp only [List.take_zero, level]
            exact Int.add_nonneg (by decide) (Int.add_nonneg hfirst (Int.le_refl 0))

end Balanced

theorem partner?_group {opener closer : String} {inner : List String} (rest : List String)
    (hpair : (opener, closer) ∈ bracketPairs) (h : Balanced inner) :
    partner? (opener :: (inner ++ closer :: rest)) = some (inner.length + 1) := by
  obtain ⟨hopen, hclose⟩ := opened_of_pair hpair
  unfold partner?
  rw [List.find?_range_eq_some]
  refine ⟨?_, ?_, ?_⟩
  · have htake : (inner ++ closer :: rest).take (inner.length + 1) = inner ++ [closer] := by
      rw [List.take_append, List.take_of_length_le (Nat.le_succ _)]
      simp
    rw [List.take_succ_cons, htake, level, level_append, h.level_eq, hopen]
    simp [level, hclose]
  · simp
  · intro j hj
    rw [List.take_succ_cons, level, hopen, List.take_append_of_le_length (by omega)]
    have hinner := h.level_take_nonneg j
    have hne : 1 + level (inner.take j) ≠ 0 := by omega
    simpa using hne

/-! ## Phrases -/

structure BalancedText where
  texts : List String
  balanced : Balanced texts

/-- Whether a text begins something other than a plain statement. -/
def isReserved (s : String) : Bool :=
  s = "\x7b" || s = "if" || s = "else" || Cut.isLoopKeyword s

/-- A plain statement without its semicolon: there is something of it, it has no semicolon of its
own outside brackets, and it begins like no other phrase. -/
structure PlainText extends BalancedText where
  nonempty : texts ≠ []
  unended : firstOutside? ";" texts = none
  start : ∀ s ∈ texts.head?, isReserved s = false

inductive LoopKeyword where
  | while
  | for
  | switch
  deriving DecidableEq

def LoopKeyword.text : LoopKeyword → String
  | .while => "while"
  | .for => "for"
  | .switch => "switch"

theorem LoopKeyword.isLoopKeyword_text (keyword : LoopKeyword) :
    Cut.isLoopKeyword keyword.text = true := by
  cases keyword <;> rfl

theorem LoopKeyword.text_ne_do (keyword : LoopKeyword) : keyword.text ≠ "do" := by
  cases keyword <;> decide

/-- A statement of structured source code. -/
inductive Phrase where
  | empty
  | plain (statement : PlainText)
  | block (body : List Phrase)
  | cond (condition : BalancedText) (body : Phrase)
  | condElse (condition : BalancedText) (body other : Phrase)
  | loop (keyword : LoopKeyword) (head : BalancedText) (body : Phrase)
  | doWhile (body : Phrase) (head : BalancedText)

namespace Phrase

mutual

/-- The texts of a phrase. -/
def texts : Phrase → List String
  | .empty => [";"]
  | .plain statement => statement.texts ++ [";"]
  | .block body => "\x7b" :: (textsAll body ++ ["\x7d"])
  | .cond condition body => "if" :: "(" :: (condition.texts ++ ")" :: body.texts)
  | .condElse condition body other =>
    "if" :: "(" :: (condition.texts ++ ")" :: (body.texts ++ "else" :: other.texts))
  | .loop keyword head body => keyword.text :: "(" :: (head.texts ++ ")" :: body.texts)
  | .doWhile body head => "do" :: (body.texts ++ "while" :: "(" :: (head.texts ++ [")", ";"]))

def textsAll : List Phrase → List String
  | [] => []
  | phrase :: rest => phrase.texts ++ textsAll rest

end

/-- Whether a phrase ends in an `if` that an else behind it would belong to. -/
def endsOpen : Phrase → Bool
  | .cond .. => true
  | .condElse _ _ other => other.endsOpen
  | .loop _ _ body => body.endsOpen
  | _ => false

mutual

/-- Every else is written where it belongs to its own `if`, and to none inside the first branch. -/
def Settled : Phrase → Prop
  | .empty => True
  | .plain _ => True
  | .block body => SettledAll body
  | .cond _ body => body.Settled
  | .condElse _ body other => body.endsOpen = false ∧ body.Settled ∧ other.Settled
  | .loop _ _ body => body.Settled
  | .doWhile body _ => body.Settled

def SettledAll : List Phrase → Prop
  | [] => True
  | phrase :: rest => phrase.Settled ∧ SettledAll rest

end

/-- The issues of the loops met when a phrase at a position is passed over. Blocks are not looked
into. -/
def loopIssues (ts : TokenList) (i : Nat) : Phrase → List Issue
  | .cond condition body => body.loopIssues ts (i + condition.texts.length + 3)
  | .condElse condition body other =>
    body.loopIssues ts (i + condition.texts.length + 3) ++
      other.loopIssues ts (i + condition.texts.length + 3 + body.texts.length + 1)
  | .loop _ head body => Cut.loopIssue ts i :: body.loopIssues ts (i + head.texts.length + 3)
  | .doWhile body _ => Cut.loopIssue ts i :: body.loopIssues ts (i + 1)
  | _ => []

mutual

/-- The pieces of a phrase whose first token is at a position. -/
def pieces (ts : TokenList) (i : Nat) : Phrase → List Piece
  | .empty => []
  | .plain statement => [.statement (List.range' i statement.texts.length)]
  | .block body => piecesAll ts (i + 1) body
  | .cond condition body =>
    .enter i (List.range' (i + 2) condition.texts.length) ::
      (body.pieces ts (i + condition.texts.length + 3) ++ [.exit])
  | .condElse condition body other =>
    .enter i (List.range' (i + 2) condition.texts.length) ::
      (body.pieces ts (i + condition.texts.length + 3) ++ .orElse ::
        (other.pieces ts (i + condition.texts.length + 3 + body.texts.length + 1) ++ [.exit]))
  | .loop keyword head body => (loopIssues ts i (.loop keyword head body)).map .issue
  | .doWhile body head => (loopIssues ts i (.doWhile body head)).map .issue

def piecesAll (ts : TokenList) (i : Nat) : List Phrase → List Piece
  | [] => []
  | phrase :: rest => phrase.pieces ts i ++ piecesAll ts (i + phrase.texts.length) rest

end

/-- A phrase has a first text, and never begins with an else. -/
theorem texts_eq_cons (phrase : Phrase) :
    ∃ first rest, phrase.texts = first :: rest ∧ first ≠ "else" := by
  cases phrase with
  | empty | block | cond | condElse | doWhile => exact ⟨_, _, by rw [texts], by decide⟩
  | loop keyword head body => exact ⟨_, _, by rw [texts], by cases keyword <;> decide⟩
  | plain statement =>
      obtain ⟨first, rest, hcons⟩ := List.exists_cons_of_ne_nil statement.nonempty
      have hstart := statement.start first (by simp [hcons])
      refine ⟨first, rest ++ [";"], by rw [texts, hcons]; rfl, ?_⟩
      rintro rfl
      exact absurd hstart (by decide)

theorem length_texts_pos (phrase : Phrase) : 0 < phrase.texts.length := by
  obtain ⟨first, rest, htexts, -⟩ := phrase.texts_eq_cons
  simp [htexts]

section

variable (condition head : BalancedText) (body other : Phrase) (keyword : LoopKeyword)

theorem length_texts_plain (statement : PlainText) :
    (plain statement).texts.length = statement.texts.length + 1 := by
  simp [texts]

theorem length_texts_block (phrases : List Phrase) :
    (block phrases).texts.length = (textsAll phrases).length + 2 := by
  simp [texts]

theorem length_texts_cond :
    (cond condition body).texts.length = condition.texts.length + 3 + body.texts.length := by
  simp only [texts, List.length_cons, List.length_append]
  omega

theorem length_texts_condElse :
    (condElse condition body other).texts.length =
      condition.texts.length + 3 + body.texts.length + 1 + other.texts.length := by
  simp only [texts, List.length_cons, List.length_append]
  omega

theorem length_texts_loop :
    (loop keyword head body).texts.length = head.texts.length + 3 + body.texts.length := by
  simp only [texts, List.length_cons, List.length_append]
  omega

theorem length_texts_doWhile :
    (doWhile body head).texts.length = 1 + body.texts.length + head.texts.length + 4 := by
  simp only [texts, List.length_cons, List.length_append, List.length_nil]
  omega

end

theorem not_isBracket_keyword (keyword : LoopKeyword) : isBracket keyword.text = false := by
  cases keyword <;> decide

/-- A head in parentheses and what follows it. -/
theorem balanced_parenthesised (head : BalancedText) {texts : List String} (h : Balanced texts) :
    Balanced ("(" :: (head.texts ++ ")" :: texts)) :=
  .group (by decide) head.balanced h

mutual

theorem balanced_texts : ∀ phrase : Phrase, Balanced phrase.texts
  | .empty => by
      rw [texts]
      exact .word (by decide) .nil
  | .plain statement => by
      rw [texts]
      exact statement.balanced.append (.word (by decide) .nil)
  | .block body => by
      rw [texts]
      exact .group (by decide) (balanced_textsAll body) .nil
  | .cond condition body => by
      rw [texts]
      exact .word (by decide) (balanced_parenthesised condition (balanced_texts body))
  | .condElse condition body other => by
      have hother : Balanced ("else" :: other.texts) := .word (by decide) (balanced_texts other)
      rw [texts]
      exact .word (by decide)
        (balanced_parenthesised condition ((balanced_texts body).append hother))
  | .loop keyword head body => by
      rw [texts]
      exact .word (not_isBracket_keyword keyword)
        (balanced_parenthesised head (balanced_texts body))
  | .doWhile body head => by
      have hend : Balanced [";"] := .word (by decide) .nil
      have hwhile : Balanced ("while" :: "(" :: (head.texts ++ [")", ";"])) :=
        .word (by decide) (balanced_parenthesised head hend)
      rw [texts]
      exact .word (by decide) ((balanced_texts body).append hwhile)

theorem balanced_textsAll : ∀ phrases : List Phrase, Balanced (textsAll phrases)
  | [] => by
      rw [textsAll]
      exact .nil
  | phrase :: rest => by
      rw [textsAll]
      exact (balanced_texts phrase).append (balanced_textsAll rest)

end

end Phrase

/-! ## Tokens that show texts -/

/-- The tokens from a position on have the texts, and each opening bracket among them is linked to
its partner. -/
structure TokenList.Shows (ts : TokenList) (i : Nat) (texts : List String) : Prop where
  text : ∀ k, (h : k < texts.length) → ts.textAt (i + k) = texts[k]
  link : ∀ k, (h : k < texts.length) → Cut.isOpener texts[k] = true →
    ts.link? (i + k) = (partner? (texts.drop k)).map (i + k + ·)

namespace TokenList.Shows

variable {ts : TokenList} {i : Nat} {left right texts : List String}

/-- What is shown behind some of the texts. -/
theorem behind (h : ts.Shows i (left ++ right)) : ts.Shows (i + left.length) right where
  text := by
    intro k hk
    have htext := h.text (left.length + k) (by simp [hk])
    rw [List.getElem_append_right (Nat.le_add_right _ _)] at htext
    simpa [Nat.add_assoc] using htext
  link := by
    intro k hk hopener
    have hlink := h.link (left.length + k) (by simp [hk])
    rw [List.getElem_append_right (Nat.le_add_right _ _), List.drop_length_add_append] at hlink
    simp only [Nat.add_sub_cancel_left] at hlink
    rw [Nat.add_assoc]
    exact hlink hopener

theorem tail {s : String} (h : ts.Shows i (s :: texts)) : ts.Shows (i + 1) texts := by
  have hall : ts.Shows i ([s] ++ texts) := h
  exact hall.behind

theorem head {s : String} (h : ts.Shows i (s :: texts)) : ts.textAt i = s :=
  h.text 0 (Nat.zero_lt_succ _)

/-- A bracket is linked to the one behind what it encloses. -/
theorem group_link {opener closer : String} {inner : List String}
    (h : ts.Shows i (opener :: (inner ++ closer :: texts)))
    (hpair : (opener, closer) ∈ bracketPairs) (hinner : Balanced inner) :
    ts.link? i = some (i + inner.length + 1) := by
  have hlink := h.link 0 (Nat.zero_lt_succ _) (isOpener_of_pair hpair)
  rw [List.drop_zero, partner?_group texts hpair hinner] at hlink
  exact hlink

end TokenList.Shows

end NullSafety
