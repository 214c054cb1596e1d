import NullSafety.Proofs.Grammar

/-!
# Cutting structured source code

Tokens that show structured source are cut into exactly the pieces of its phrases. Cursors, limits
and links are followed from token to token; the phrases say where each of them leads. A phrase is
cut, or passed over, from its first token to the one behind its last, whatever follows it, unless
that is an else which the end of the phrase would take for its own.

A phrase costs two steps in depth, one for itself and one for its keyword, and is longer than the
phrases in it. So twice its length is depth enough.
-/

namespace NullSafety

/-! ## Cuts as a monad -/

namespace Cut

theorem mk_ok_bind {α β : Type} (pieces : List Piece) (a : α) (f : α → Cut β) :
    ((⟨pieces, .ok a⟩ : Cut α) >>= f) = ⟨pieces ++ (f a).pieces, (f a).result⟩ := rfl

instance : LawfulMonad Cut := LawfulMonad.mk' Cut
  (by
    rintro α ⟨pieces, _ | a⟩
    · rfl
    · exact congrArg (Cut.mk · _) (List.append_nil pieces))
  (fun _ _ => rfl)
  (by
    rintro α β γ ⟨pieces, _ | a⟩ f g
    · rfl
    · show ((⟨pieces ++ (f a).pieces, (f a).result⟩ : Cut β) >>= g) =
        ⟨pieces ++ (f a >>= g).pieces, (f a >>= g).result⟩
      obtain ⟨later, _ | b⟩ := f a
      · rfl
      · exact congrArg (Cut.mk · _) (List.append_assoc pieces later _))

end Cut

/-! ## Plain statements -/

theorem firstOutside?_eq_none {s : String} {texts : List String} :
    firstOutside? s texts = none ↔
      ∀ k, texts[k]? = some s → level (texts.take k) ≠ 0 := by
  unfold firstOutside?
  rw [List.find?_range_eq_none]
  simp only [Bool.not_eq_true', decide_eq_false_iff_not, not_and]
  refine ⟨fun h k hk => ?_, fun h k _ hk => h k hk⟩
  obtain ⟨hlt, -⟩ := List.getElem?_eq_some_iff.mp hk
  exact h k hlt hk

/-- What is not found in some texts is not found behind a part of them that closes its brackets. -/
theorem firstOutside?_behind {s : String} {left right : List String} (hleft : level left = 0)
    (h : firstOutside? s (left ++ right) = none) : firstOutside? s right = none := by
  rw [firstOutside?_eq_none] at h ⊢
  intro k hk
  have hwhole := h (left.length + k) (by
    rwa [List.getElem?_append_right (Nat.le_add_right _ _), Nat.add_sub_cancel_left])
  rwa [List.take_length_add_append, level_append, hleft, Int.zero_add] at hwhole

theorem ne_of_firstOutside?_cons {s t : String} {texts : List String}
    (h : firstOutside? s (t :: texts) = none) : t ≠ s := by
  rintro rfl
  exact firstOutside?_eq_none.mp h 0 rfl rfl

/-- A condition in parentheses has no semicolon outside them. -/
theorem unended_whileHead (head : BalancedText) :
    firstOutside? ";" ("while" :: "(" :: (head.texts ++ [")"])) = none := by
  rw [firstOutside?_eq_none]
  rintro (_ | _ | k) hk
  · exact absurd (Option.some.inj hk) (by decide)
  · exact absurd (Option.some.inj hk) (by decide)
  · have hinside : k < head.texts.length := by
      refine Nat.lt_of_not_le fun hle => ?_
      rw [List.getElem?_cons_succ, List.getElem?_cons_succ, List.getElem?_append_right hle] at hk
      have hlast := List.mem_singleton.mp (List.mem_of_getElem? hk)
      exact absurd hlast (by decide)
    have hopened : opened "while" = 0 ∧ opened "(" = 1 := by decide
    have hnonneg := head.balanced.level_take_nonneg k
    rw [List.take_succ_cons, List.take_succ_cons,
      List.take_append_of_le_length (Nat.le_of_lt hinside), level, level, hopened.1, hopened.2]
    omega

theorem TokenList.next_of_lt {ts : TokenList} {i : Nat} (h : i + 1 < ts.size) :
    ts.next i = some (i + 1) := if_pos h

namespace Cut

variable {ts : TokenList} {limit : Nat}

/-- One step takes a token, or a group of them from an opening bracket to its partner. -/
theorem statementLoop_take {i last steps : Nat} {tokens : List Nat} {cursor : Cursor}
    (hi : i ≠ limit) (hend : ts.textAt i ≠ ";")
    (hlast : (if isOpener (ts.textAt i) then (ts.link? i).getD i else i) = last) (hle : i ≤ last)
    (hlt : last + 1 < ts.size)
    (hrest : statementLoop ts limit steps (some (last + 1)) = .ok (tokens, cursor)) :
    statementLoop ts limit (steps + 1) (some i) =
      .ok (List.range' i (last + 1 - i) ++ tokens, cursor) := by
  have hforward : ¬ last < i := Nat.not_lt.mpr hle
  simp only [statementLoop, hi, hend, hlast, hforward, if_false, TokenList.next_of_lt hlt, hrest]
  rfl

/-- The tokens of a plain statement are taken up to its semicolon. -/
theorem statementLoop_balanced {texts : List String} (hbalanced : Balanced texts)
    (hlimit : limit < ts.size) {i steps : Nat} {rest : List String}
    (hended : firstOutside? ";" texts = none) (hshows : ts.Shows i (texts ++ ";" :: rest))
    (hwithin : i + texts.length < limit) (hsteps : texts.length ≤ steps) :
    statementLoop ts limit (steps + 1) (some i) =
      .ok (List.range' i texts.length, some (i + texts.length + 1)) := by
  -- each word and each group is one step, and a group is passed by its link, unseen
  induction hbalanced generalizing i steps with
  | nil =>
      have hi : i ≠ limit := Nat.ne_of_lt hwithin
      have hnext : ts.next i = some (i + 1) := TokenList.next_of_lt (by omega)
      simp only [statementLoop, hi, if_false, hshows.head, if_true, hnext]
      rfl
  | @word s texts hs _ ih =>
      obtain ⟨steps, rfl⟩ := Nat.exists_eq_add_of_le' (Nat.le_trans (Nat.succ_pos _) hsteps)
      rw [List.length_cons] at hwithin hsteps
      have hopener : isOpener s = false := (Bool.or_eq_false_iff.mp hs).1
      have hlevel : level [s] = 0 := (Balanced.word hs .nil).level_eq
      have hrest := ih (firstOutside?_behind hlevel hended) hshows.tail (by omega)
        (Nat.le_of_succ_le_succ hsteps)
      have hlast : (if isOpener (ts.textAt i) then (ts.link? i).getD i else i) = i := by
        rw [hshows.head, hopener]
        rfl
      rw [statementLoop_take (Nat.ne_of_lt (by omega))
        (hshows.head ▸ ne_of_firstOutside?_cons hended) hlast (Nat.le_refl i) (by omega) hrest,
        Nat.add_sub_cancel_left, List.range'_append_1, List.length_cons]
      simp only [Nat.add_assoc, Nat.add_comm 1]
  | @group opener closer inner texts hpair hinner _ _ ih =>
      have hlength : (opener :: (inner ++ closer :: texts)).length =
          inner.length + 1 + 1 + texts.length := by
        simp only [List.length_cons, List.length_append]
        omega
      rw [hlength] at hwithin hsteps ⊢
      obtain ⟨steps, rfl⟩ := Nat.exists_eq_add_of_le' (Nat.le_trans (by omega : 1 ≤ _) hsteps)
      rw [List.cons_append, List.append_assoc, List.cons_append] at hshows
      have hlevel : level (opener :: (inner ++ [closer])) = 0 :=
        (Balanced.group hpair hinner .nil).level_eq
      have htexts : firstOutside? ";" texts = none := by
        refine firstOutside?_behind hlevel ?_
        rwa [List.cons_append, List.append_assoc, List.singleton_append]
      have hbehind : ts.Shows (i + (inner.length + 1) + 1) (texts ++ ";" :: rest) := by
        have hclosed := hshows.tail.behind.tail
        rwa [Nat.add_right_comm i] at hclosed
      have hroom : texts.length ≤ steps := by omega
      have hrest := ih htexts hbehind (by omega) hroom
      have hlast : (if isOpener (ts.textAt i) then (ts.link? i).getD i else i) =
          i + (inner.length + 1) := by
        rw [hshows.head, isOpener_of_pair hpair, hshows.group_link hpair hinner]
        rfl
      rw [statementLoop_take (Nat.ne_of_lt (by omega))
        (hshows.head ▸ ne_of_firstOutside?_cons hended) hlast (Nat.le_add_right _ _) (by omega)
        hrest, Nat.add_assoc i, Nat.add_sub_cancel_left, List.range'_append_1, Nat.add_assoc i]

theorem statementFrom_balanced {texts rest : List String} {i : Nat} (hbalanced : Balanced texts)
    (hlimit : limit < ts.size) (hended : firstOutside? ";" texts = none)
    (hshows : ts.Shows i (texts ++ ";" :: rest)) (hwithin : i + texts.length + 1 ≤ limit) :
    statementFrom ts (some i) limit =
      .ok (List.range' i texts.length, some (i + texts.length + 1)) :=
  statementLoop_balanced hbalanced hlimit hended hshows hwithin (by omega)

theorem passStatement_balanced {texts rest : List String} {i : Nat} (hbalanced : Balanced texts)
    (hlimit : limit < ts.size) (hended : firstOutside? ";" texts = none)
    (hshows : ts.Shows i (texts ++ ";" :: rest)) (hwithin : i + texts.length + 1 ≤ limit) :
    passStatement ts (some i) limit = ⟨[], .ok (some (i + texts.length + 1))⟩ := by
  unfold passStatement
  rw [statementFrom_balanced hbalanced hlimit hended hshows hwithin]
  rfl

/-- The end of a `do` loop is passed over like a plain statement. -/
theorem passStatement_whileHead (head : BalancedText) {rest : List String} {i : Nat}
    (hlimit : limit < ts.size)
    (hshows : ts.Shows i (("while" :: "(" :: (head.texts ++ [")"])) ++ ";" :: rest))
    (hwithin : i + head.texts.length + 4 ≤ limit) :
    passStatement ts (some i) limit = ⟨[], .ok (some (i + head.texts.length + 4))⟩ := by
  have hbalanced : Balanced ("while" :: "(" :: (head.texts ++ [")"])) :=
    .word (by decide) (Phrase.balanced_parenthesised head .nil)
  have hend : i + ("while" :: "(" :: (head.texts ++ [")"])).length + 1 =
      i + head.texts.length + 4 := by
    simp only [List.length_cons, List.length_append, List.length_nil]
    omega
  rw [passStatement_balanced hbalanced hlimit (unended_whileHead head) hshows (hend ▸ hwithin),
    hend]

theorem statement_plain (plain : PlainText) {rest : List String} {i : Nat}
    (hlimit : limit < ts.size) (hshows : ts.Shows i (plain.texts ++ ";" :: rest))
    (hwithin : i + plain.texts.length + 1 ≤ limit) :
    statement ts (some i) limit =
      ⟨[.statement (List.range' i plain.texts.length)],
        .ok (some (i + plain.texts.length + 1))⟩ := by
  have hsome : (List.range' i plain.texts.length).isEmpty = false := by
    rw [List.isEmpty_eq_false_iff, Ne, List.range'_eq_nil_iff, List.length_eq_zero_iff]
    exact plain.nonempty
  unfold statement
  rw [statementFrom_balanced plain.balanced hlimit plain.unended hshows hwithin]
  show (if (List.range' i plain.texts.length).isEmpty then _ else _ : Cut Cursor) = _
  rw [hsome]
  rfl

end Cut

/-! ## Where phrases stand -/

/-- A phrase begins at a position and ends before a limit, and if an else behind it would be taken
for its own, there is none. -/
structure Phrase.StandsAt (phrase : Phrase) (ts : TokenList) (limit i : Nat) : Prop where
  settled : phrase.Settled
  shown : ∃ rest, ts.Shows i (phrase.texts ++ rest)
  within : i + phrase.texts.length ≤ limit
  clear : phrase.endsOpen = true → i + phrase.texts.length ≠ limit →
    ts.textAt (i + phrase.texts.length) ≠ "else"

namespace TokenList.Shows

variable {ts : TokenList} {i : Nat} {keyword : String} {head : BalancedText} {texts : List String}

theorem parenAt (h : ts.Shows i (keyword :: "(" :: (head.texts ++ ")" :: texts)))
    (hsize : i + 1 < ts.size) :
    ts.parenAt (ts.next i) = some (i + 1, i + head.texts.length + 2) := by
  have hlink := h.tail.group_link (by decide) head.balanced
  rw [TokenList.next_of_lt hsize, TokenList.parenAt, if_pos h.tail.head, hlink,
    Nat.add_right_comm i 1]
  rfl

theorem behindHead (h : ts.Shows i (keyword :: "(" :: (head.texts ++ ")" :: texts))) :
    ts.Shows (i + head.texts.length + 3) texts := by
  have hbehind := h.tail.tail.behind.tail
  have hposition : i + 1 + 1 + head.texts.length + 1 = i + head.texts.length + 3 := by omega
  rwa [hposition] at hbehind

end TokenList.Shows

namespace Phrase.StandsAt

variable {ts : TokenList} {limit i : Nat} {condition head : BalancedText}
  {body other phrase : Phrase} {keyword : LoopKeyword}

theorem lt_limit (h : phrase.StandsAt ts limit i) : i < limit := by
  have hpos := phrase.length_texts_pos
  have hwithin := h.within
  omega

theorem ne_limit (h : phrase.StandsAt ts limit i) : i ≠ limit := Nat.ne_of_lt h.lt_limit

theorem next_eq (h : phrase.StandsAt ts limit (i + 1)) (hlimit : limit < ts.size) :
    ts.next i = some (i + 1) :=
  TokenList.next_of_lt (Nat.lt_trans h.lt_limit hlimit)

theorem textAt_first {first : String} {tail : List String} (h : phrase.StandsAt ts limit i)
    (htexts : phrase.texts = first :: tail) : ts.textAt i = first := by
  obtain ⟨rest, hshows⟩ := h.shown
  rw [htexts] at hshows
  exact hshows.head

theorem parenAt {first : String} {tail : List String} (h : phrase.StandsAt ts limit i)
    (hlimit : limit < ts.size)
    (htexts : phrase.texts = first :: "(" :: (head.texts ++ ")" :: tail)) :
    ts.parenAt (ts.next i) = some (i + 1, i + head.texts.length + 2) := by
  obtain ⟨rest, hshows⟩ := h.shown
  rw [htexts] at hshows
  simp only [List.cons_append, List.append_assoc] at hshows
  exact hshows.parenAt (Nat.lt_of_le_of_lt h.lt_limit hlimit)

theorem plain_shown {statement : PlainText} (h : (plain statement).StandsAt ts limit i) :
    ∃ rest, ts.Shows i (statement.texts ++ ";" :: rest) := by
  obtain ⟨rest, hshows⟩ := h.shown
  rw [texts, List.append_assoc] at hshows
  exact ⟨rest, hshows⟩

theorem plain_start {statement : PlainText} (h : (plain statement).StandsAt ts limit i) :
    isReserved (ts.textAt i) = false := by
  obtain ⟨first, tail, hcons⟩ := List.exists_cons_of_ne_nil statement.nonempty
  have htexts : (plain statement).texts = first :: (tail ++ [";"]) := by
    rw [texts, hcons]
    rfl
  rw [h.textAt_first htexts]
  exact statement.start first (by simp [hcons])

theorem plain_ne_end {statement : PlainText} (h : (plain statement).StandsAt ts limit i) :
    ts.textAt i ≠ ";" := by
  obtain ⟨rest, hshows⟩ := h.plain_shown
  obtain ⟨first, tail, hcons⟩ := List.exists_cons_of_ne_nil statement.nonempty
  have hunended := statement.unended
  rw [hcons] at hshows hunended
  rw [hshows.head]
  exact ne_of_firstOutside?_cons hunended

theorem block_link {phrases : List Phrase} (h : (block phrases).StandsAt ts limit i) :
    ts.link? i = some (i + (textsAll phrases).length + 1) := by
  obtain ⟨rest, hshows⟩ := h.shown
  simp only [texts, List.cons_append, List.append_assoc] at hshows
  exact hshows.group_link (by decide) (balanced_textsAll phrases)

/-- The body behind a head in parentheses. -/
theorem headed {first : String} (h : phrase.StandsAt ts limit i)
    (htexts : phrase.texts = first :: "(" :: (head.texts ++ ")" :: body.texts))
    (hsettled : body.Settled) (hopen : body.endsOpen = true → phrase.endsOpen = true) :
    body.StandsAt ts limit (i + head.texts.length + 3) := by
  have hend : i + head.texts.length + 3 + body.texts.length = i + phrase.texts.length := by
    rw [htexts]
    simp only [List.length_cons, List.length_append]
    omega
  obtain ⟨rest, hshows⟩ := h.shown
  refine ⟨hsettled, ⟨rest, ?_⟩, hend ▸ h.within, ?_⟩
  · rw [htexts] at hshows
    simp only [List.cons_append, List.append_assoc] at hshows
    exact hshows.behindHead
  · rw [hend]
    exact fun hbody => h.clear (hopen hbody)

theorem cond_body (h : (cond condition body).StandsAt ts limit i) :
    body.StandsAt ts limit (i + condition.texts.length + 3) :=
  h.headed rfl h.settled (fun _ => rfl)

theorem loop_body (h : (loop keyword head body).StandsAt ts limit i) :
    body.StandsAt ts limit (i + head.texts.length + 3) :=
  h.headed rfl h.settled id

theorem condElse_shown (h : (condElse condition body other).StandsAt ts limit i) :
    ∃ rest, ts.Shows (i + condition.texts.length + 3)
      (body.texts ++ "else" :: (other.texts ++ rest)) := by
  obtain ⟨rest, hshows⟩ := h.shown
  simp only [texts, List.cons_append, List.append_assoc] at hshows
  exact ⟨rest, hshows.behindHead⟩

theorem condElse_body (h : (condElse condition body other).StandsAt ts limit i) :
    body.StandsAt ts limit (i + condition.texts.length + 3) := by
  have hsettled := h.settled
  rw [Settled] at hsettled
  obtain ⟨rest, hshows⟩ := h.condElse_shown
  have hwithin := h.within
  rw [length_texts_condElse] at hwithin
  refine ⟨hsettled.2.1, ⟨_, hshows⟩, by omega, ?_⟩
  intro hopen
  rw [hsettled.1] at hopen
  cases hopen

theorem condElse_else (h : (condElse condition body other).StandsAt ts limit i) :
    ts.textAt (i + condition.texts.length + 3 + body.texts.length) = "else" := by
  obtain ⟨rest, hshows⟩ := h.condElse_shown
  exact hshows.behind.head

theorem condElse_other (h : (condElse condition body other).StandsAt ts limit i) :
    other.StandsAt ts limit (i + condition.texts.length + 3 + body.texts.length + 1) := by
  have hsettled := h.settled
  rw [Settled] at hsettled
  obtain ⟨rest, hshows⟩ := h.condElse_shown
  have hend : i + condition.texts.length + 3 + body.texts.length + 1 + other.texts.length =
      i + (condElse condition body other).texts.length := by
    rw [length_texts_condElse]
    omega
  refine ⟨hsettled.2.2, ⟨rest, hshows.behind.tail⟩, hend ▸ h.within, ?_⟩
  rw [hend]
  exact h.clear

theorem doWhile_shown (h : (doWhile body head).StandsAt ts limit i) :
    ∃ rest, ts.Shows (i + 1)
      (body.texts ++ (("while" :: "(" :: (head.texts ++ [")"])) ++ ";" :: rest)) := by
  obtain ⟨rest, hshows⟩ := h.shown
  simp only [texts, List.cons_append, List.append_assoc, List.nil_append] at hshows
  refine ⟨rest, ?_⟩
  simp only [List.cons_append, List.append_assoc, List.nil_append]
  exact hshows.tail

theorem doWhile_body (h : (doWhile body head).StandsAt ts limit i) :
    body.StandsAt ts limit (i + 1) := by
  obtain ⟨rest, hshows⟩ := h.doWhile_shown
  have hwithin := h.within
  rw [length_texts_doWhile] at hwithin
  refine ⟨h.settled, ⟨_, hshows⟩, by omega, ?_⟩
  intro _ _
  rw [hshows.behind.head]
  decide

end Phrase.StandsAt

/-! ## Passing over phrases -/

namespace Cut

section

variable {ts : TokenList} {limit i j closing steps : Nat} {issues more : List Piece}
  {cursor : Cursor}

theorem ne_of_isLoopKeyword {s : String} (h : isLoopKeyword s = true) : s ≠ "\x7b" ∧ s ≠ "if" := by
  constructor
  all_goals
    rintro rfl
    exact absurd h (by decide)

theorem passBranch_block (hi : i ≠ limit) (htext : ts.textAt i = "\x7b")
    (hlink : ts.link? i = some closing) :
    passBranch ts limit (steps + 1) (some i) = ⟨[], .ok (ts.next closing)⟩ := by
  simp only [passBranch, hi, htext, hlink, if_false, if_true]
  rfl

theorem passBranch_plain (hi : i ≠ limit) (htext : isReserved (ts.textAt i) = false) :
    passBranch ts limit (steps + 1) (some i) = passStatement ts (some i) limit := by
  simp only [isReserved, Bool.or_eq_false_iff, decide_eq_false_iff_not] at htext
  simp only [passBranch, hi, htext, if_false, Bool.false_eq_true]

theorem passBranch_loop (hi : i ≠ limit) (htext : isLoopKeyword (ts.textAt i) = true) :
    passBranch ts limit (steps + 1) (some i) = passLoop ts limit steps i := by
  obtain ⟨hblock, hif⟩ := ne_of_isLoopKeyword htext
  simp only [passBranch, hi, hblock, hif, htext, if_false, if_true]

theorem passBranch_if (hi : i ≠ limit) (htext : ts.textAt i = "if")
    (hparen : ts.parenAt (ts.next i) = some (i + 1, closing))
    (hbody : passBranch ts limit steps (ts.next closing) = ⟨issues, .ok (some j)⟩)
    (hclear : j ≠ limit → ts.textAt j ≠ "else") :
    passBranch ts limit (steps + 1) (some i) = ⟨issues, .ok (some j)⟩ := by
  have helse : ¬ (j ≠ limit ∧ ts.textAt j = "else") := fun h => hclear h.1 h.2
  have hblock : ¬ "if" = "\x7b" := by decide
  simp only [passBranch, hi, htext, hblock, hparen, hbody, mk_ok_bind, helse, if_false, if_true]
  exact congrArg (Cut.mk · _) (List.append_nil issues)

theorem passBranch_ifElse (hi : i ≠ limit) (htext : ts.textAt i = "if")
    (hparen : ts.parenAt (ts.next i) = some (i + 1, closing))
    (hbody : passBranch ts limit steps (ts.next closing) = ⟨issues, .ok (some j)⟩)
    (hj : j ≠ limit) (helse : ts.textAt j = "else")
    (hother : passBranch ts limit steps (ts.next j) = ⟨more, .ok cursor⟩) :
    passBranch ts limit (steps + 1) (some i) = ⟨issues ++ more, .ok cursor⟩ := by
  have hblock : ¬ "if" = "\x7b" := by decide
  simp only [passBranch, hi, htext, hblock, hparen, hbody, mk_ok_bind, hj, helse, hother, if_false,
    if_true, ne_eq, not_false_eq_true, and_self]

theorem passLoop_headed (htext : ts.textAt i ≠ "do")
    (hparen : ts.parenAt (ts.next i) = some (i + 1, closing))
    (hbody : passBranch ts limit steps (ts.next closing) = ⟨issues, .ok cursor⟩) :
    passLoop ts limit (steps + 1) i = ⟨.issue (loopIssue ts i) :: issues, .ok cursor⟩ := by
  simp only [passLoop, htext, hparen, hbody, if_false]
  rfl

theorem passLoop_do (htext : ts.textAt i = "do")
    (hbody : passBranch ts limit steps (ts.next i) = ⟨issues, .ok (some j)⟩)
    (hwhile : ts.textAt j = "while")
    (hend : passStatement ts (some j) limit = ⟨[], .ok cursor⟩) :
    passLoop ts limit (steps + 1) i = ⟨.issue (loopIssue ts i) :: issues, .ok cursor⟩ := by
  simp only [passLoop, htext, hbody, mk_ok_bind, TokenList.textOf, hwhile, hend, if_true]
  exact congrArg (fun later => Cut.mk (_ :: later) _) (List.append_nil issues)

end

/-- A phrase is passed over from its first token to the one behind its last, and the loops met on
the way are reported. -/
theorem passBranch_phrase {ts : TokenList} {limit : Nat} (hlimit : limit < ts.size) :
    ∀ (phrase : Phrase) {i steps : Nat}, phrase.StandsAt ts limit i →
      2 * phrase.texts.length < steps →
      passBranch ts limit steps (some i) =
        ⟨(phrase.loopIssues ts i).map .issue, .ok (some (i + phrase.texts.length))⟩
  | .empty, i, steps + 1, h, _ => by
      obtain ⟨rest, hshows⟩ := h.shown
      have hwithin := h.within
      rw [Phrase.texts] at hshows
      rw [passBranch_plain h.ne_limit (by rw [hshows.head]; decide)]
      exact passStatement_balanced .nil hlimit rfl hshows hwithin
  | .plain statement, i, steps + 1, h, _ => by
      obtain ⟨rest, hshows⟩ := h.plain_shown
      have hwithin := h.within
      rw [Phrase.length_texts_plain] at hwithin ⊢
      rw [passBranch_plain h.ne_limit h.plain_start]
      exact passStatement_balanced statement.balanced hlimit statement.unended hshows hwithin
  | .block phrases, i, steps + 1, h, _ => by
      have hwithin := h.within
      rw [Phrase.length_texts_block] at hwithin ⊢
      rw [passBranch_block h.ne_limit (h.textAt_first rfl) h.block_link,
        TokenList.next_of_lt (by omega)]
      rfl
  | .cond condition body, i, steps + 1, h, hsteps => by
      -- what follows the body follows the whole, and it is no else
      have hclear := h.clear rfl
      rw [Phrase.length_texts_cond] at hclear hsteps ⊢
      have hroom : 2 * body.texts.length < steps := by omega
      have hbody := passBranch_phrase hlimit body h.cond_body hroom
      rw [← h.cond_body.next_eq hlimit] at hbody
      simp only [← Nat.add_assoc] at hclear ⊢
      exact passBranch_if h.ne_limit (h.textAt_first rfl) (h.parenAt hlimit rfl) hbody hclear
  | .condElse condition body other, i, steps + 1, h, hsteps => by
      have hwithin := h.within
      rw [Phrase.length_texts_condElse] at hwithin hsteps ⊢
      have hroom : 2 * body.texts.length < steps ∧ 2 * other.texts.length < steps := by omega
      have hbody := passBranch_phrase hlimit body h.condElse_body hroom.1
      have hother := passBranch_phrase hlimit other h.condElse_other hroom.2
      rw [← h.condElse_body.next_eq hlimit] at hbody
      rw [← h.condElse_other.next_eq hlimit] at hother
      rw [Phrase.loopIssues, List.map_append]
      simp only [← Nat.add_assoc]
      exact passBranch_ifElse h.ne_limit (h.textAt_first rfl) (h.parenAt hlimit rfl) hbody
        (by omega) h.condElse_else hother
  | .loop keyword head body, i, steps + 2, h, hsteps => by
      have hfirst := h.textAt_first rfl
      rw [Phrase.length_texts_loop] at hsteps ⊢
      have hroom : 2 * body.texts.length < steps := by omega
      have hbody := passBranch_phrase hlimit body h.loop_body hroom
      rw [← h.loop_body.next_eq hlimit] at hbody
      rw [passBranch_loop h.ne_limit (hfirst ▸ keyword.isLoopKeyword_text), Phrase.loopIssues,
        List.map_cons]
      simp only [← Nat.add_assoc]
      exact passLoop_headed (hfirst ▸ keyword.text_ne_do) (h.parenAt hlimit rfl) hbody
  | .doWhile body head, i, steps + 2, h, hsteps => by
      have hwithin := h.within
      have hfirst := h.textAt_first rfl
      obtain ⟨rest, hshows⟩ := h.doWhile_shown
      rw [Phrase.length_texts_doWhile] at hwithin hsteps ⊢
      have hroom : 2 * body.texts.length < steps := by omega
      have hbody := passBranch_phrase hlimit body h.doWhile_body hroom
      rw [← h.doWhile_body.next_eq hlimit] at hbody
      rw [passBranch_loop h.ne_limit (hfirst ▸ rfl), Phrase.loopIssues, List.map_cons]
      have htail := passStatement_whileHead head hlimit hshows.behind (by omega)
      have hend : i + 1 + body.texts.length + head.texts.length + 4 =
          i + (1 + body.texts.length + head.texts.length + 4) := by omega
      rw [hend] at htail
      exact passLoop_do hfirst hbody hshows.behind.head htail

end Cut

/-! ## Cutting phrases -/

namespace Cut

section

variable {ts : TokenList} {limit i j closing steps : Nat} {cut more : List Piece}
  {cursor : Cursor}

theorem branch_block (hi : i ≠ limit) (htext : ts.textAt i = "\x7b")
    (hlink : ts.link? i = some closing) :
    branch ts limit (steps + 1) (some i) =
      (range ts closing steps (ts.next i) >>= fun _ => pure (ts.next closing)) := by
  simp only [branch, hi, htext, hlink, if_false, if_true, Option.isSome_some, and_self,
    Option.getD_some]

theorem branch_if (hi : i ≠ limit) (htext : ts.textAt i = "if") :
    branch ts limit (steps + 1) (some i) = conditional ts limit steps i := by
  have hblock : ¬ "if" = "\x7b" := by decide
  simp only [branch, hi, htext, hblock, if_false, if_true, false_and]

/-- A loop is passed over, wherever it is. -/
theorem branch_loop (hi : i ≠ limit) (htext : isLoopKeyword (ts.textAt i) = true) :
    branch ts limit (steps + 1) (some i) = passBranch ts limit (steps + 1) (some i) := by
  obtain ⟨hblock, hif⟩ := ne_of_isLoopKeyword htext
  rw [passBranch_loop hi htext]
  simp only [branch, hi, hblock, hif, htext, if_false, if_true, false_and]

theorem branch_empty (hi : i ≠ limit) (htext : ts.textAt i = ";") :
    branch ts limit (steps + 1) (some i) = ⟨[], .ok (ts.next i)⟩ := by
  have hother : ¬ ";" = "\x7b" ∧ ¬ ";" = "if" ∧ isLoopKeyword ";" = false := by decide
  simp only [branch, hi, htext, hother, if_false, if_true, false_and]
  rfl

theorem branch_plain (hi : i ≠ limit) (htext : isReserved (ts.textAt i) = false)
    (hend : ts.textAt i ≠ ";") :
    branch ts limit (steps + 1) (some i) = statement ts (some i) limit := by
  simp only [isReserved, Bool.or_eq_false_iff, decide_eq_false_iff_not] at htext
  simp only [branch, hi, htext, hend, if_false, false_and, Bool.false_eq_true]

/-- A stretch that does not begin with an else is a branch and what follows it. -/
theorem range_eq_branch (hi : i ≠ limit) (htext : ts.textAt i ≠ "else") :
    range ts limit (steps + 1) (some i) =
      (branch ts limit (steps + 1) (some i) >>= range ts limit steps) := by
  rw [range, branch, if_neg hi, if_neg hi]
  by_cases hblock : ts.textAt i = "\x7b" ∧ (ts.link? i).isSome = true
  · simp only [if_pos hblock, bind_assoc, pure_bind]
  · rw [if_neg hblock, if_neg hblock]
    by_cases hend : ts.textAt i = ";"
    · have hother : ¬ ";" = "if" ∧ isLoopKeyword ";" = false := by decide
      simp only [hend, hother, if_true, if_false, Bool.false_eq_true, pure_bind]
    · rw [if_neg hend]
      by_cases hif : ts.textAt i = "if"
      · rw [if_pos hif, if_pos hif]
      · rw [if_neg hif, if_neg hif]
        by_cases hloop : isLoopKeyword (ts.textAt i) = true
        · rw [if_pos hloop, if_pos hloop]
        · rw [if_neg hloop, if_neg hloop, if_neg htext, if_neg hend]

theorem conditional_if {tokens : List Nat}
    (hparen : ts.parenAt (ts.next i) = some (i + 1, closing))
    (htokens : ts.between (i + 1) closing = tokens)
    (hbody : branch ts limit steps (ts.next closing) = ⟨cut, .ok (some j)⟩)
    (hclear : j ≠ limit → ts.textAt j ≠ "else") :
    conditional ts limit (steps + 1) i = ⟨.enter i tokens :: (cut ++ [.exit]), .ok (some j)⟩ := by
  have helse : ¬ (j ≠ limit ∧ ts.textAt j = "else") := fun h => hclear h.1 h.2
  simp only [conditional, hparen, htokens, hbody, mk_ok_bind, helse, if_false]
  rfl

theorem conditional_ifElse {tokens : List Nat}
    (hparen : ts.parenAt (ts.next i) = some (i + 1, closing))
    (htokens : ts.between (i + 1) closing = tokens)
    (hbody : branch ts limit steps (ts.next closing) = ⟨cut, .ok (some j)⟩)
    (hj : j ≠ limit) (helse : ts.textAt j = "else")
    (hother : branch ts limit steps (ts.next j) = ⟨more, .ok cursor⟩) :
    conditional ts limit (steps + 1) i =
      ⟨.enter i tokens :: (cut ++ .orElse :: (more ++ [.exit])), .ok cursor⟩ := by
  simp only [conditional, hparen, htokens, hbody, mk_ok_bind, hj, helse, hother, if_true, ne_eq,
    not_false_eq_true, and_self]
  rfl

end

end Cut

/-- The tokens of a head in parentheses. -/
theorem TokenList.between_add (ts : TokenList) (i n : Nat) :
    ts.between (i + 1) (i + n + 2) = List.range' (i + 2) n := by
  have hlt : i + 1 < i + n + 2 := by omega
  have hlength : i + n + 2 - (i + 1 + 1) = n := by omega
  simp only [TokenList.between, hlt, if_true, hlength]

/-- The phrases stand one after the other from a position to a limit. -/
structure Phrase.StandUpTo (phrases : List Phrase) (ts : TokenList) (limit i : Nat) : Prop where
  settled : SettledAll phrases
  shown : ∃ rest, ts.Shows i (textsAll phrases ++ rest)
  upTo : i + (textsAll phrases).length = limit

namespace Phrase

variable {ts : TokenList} {limit i : Nat} {phrase : Phrase} {phrases : List Phrase}

theorem StandUpTo.rest (h : StandUpTo (phrase :: phrases) ts limit i) :
    StandUpTo phrases ts limit (i + phrase.texts.length) := by
  have hsettled := h.settled
  have hupTo := h.upTo
  obtain ⟨rest, hshows⟩ := h.shown
  rw [SettledAll] at hsettled
  rw [textsAll, List.length_append, ← Nat.add_assoc] at hupTo
  rw [textsAll, List.append_assoc] at hshows
  exact ⟨hsettled.2, ⟨rest, hshows.behind⟩, hupTo⟩

/-- Behind a phrase is the limit or another phrase, and neither is an else. -/
theorem StandUpTo.first (h : StandUpTo (phrase :: phrases) ts limit i) :
    phrase.StandsAt ts limit i := by
  have hsettled := h.settled
  have hrest := h.rest
  obtain ⟨rest, hshows⟩ := h.shown
  rw [SettledAll] at hsettled
  rw [textsAll, List.append_assoc] at hshows
  refine ⟨hsettled.1, ⟨_, hshows⟩, hrest.upTo ▸ Nat.le_add_right _ _, ?_⟩
  intro _ hne
  cases phrases with
  | nil => exact absurd hrest.upTo hne
  | cons next phrases =>
      obtain ⟨first, tail, htexts, hfirst⟩ := next.texts_eq_cons
      have hnext := hshows.behind
      rw [textsAll, htexts] at hnext
      rw [hnext.head]
      exact hfirst

theorem StandsAt.body (h : (block phrases).StandsAt ts limit i) :
    StandUpTo phrases ts (i + (textsAll phrases).length + 1) (i + 1) := by
  obtain ⟨rest, hshows⟩ := h.shown
  simp only [texts, List.cons_append, List.append_assoc] at hshows
  refine ⟨h.settled, ⟨_, hshows.tail⟩, ?_⟩
  exact Nat.add_right_comm i 1 _

end Phrase

namespace Cut

mutual

/-- A phrase is cut into its pieces, from its first token to the one behind its last. -/
theorem branch_phrase {ts : TokenList} {limit : Nat} (hlimit : limit < ts.size) :
    ∀ (phrase : Phrase) {i steps : Nat}, phrase.StandsAt ts limit i →
      2 * phrase.texts.length < steps →
      branch ts limit steps (some i) =
        ⟨phrase.pieces ts i, .ok (some (i + phrase.texts.length))⟩
  | .empty, i, steps + 1, h, _ => by
      have hfirst := h.textAt_first rfl
      have hsize := Nat.lt_of_le_of_lt h.lt_limit hlimit
      rw [branch_empty h.ne_limit hfirst, TokenList.next_of_lt hsize, Phrase.texts, Phrase.pieces]
      rfl
  | .plain statement, i, steps + 1, h, _ => by
      obtain ⟨rest, hshows⟩ := h.plain_shown
      have hwithin := h.within
      rw [Phrase.length_texts_plain] at hwithin ⊢
      rw [branch_plain h.ne_limit h.plain_start h.plain_ne_end, Phrase.pieces]
      exact statement_plain statement hlimit hshows hwithin
  | .block phrases, i, steps + 1, h, hsteps => by
      have hwithin := h.within
      rw [Phrase.length_texts_block] at hwithin hsteps ⊢
      have hroom : 2 * (Phrase.textsAll phrases).length + 1 < steps := by omega
      have hbody := range_phrases (by omega) phrases h.body hroom
      rw [branch_block h.ne_limit (h.textAt_first rfl) h.block_link,
        TokenList.next_of_lt (Nat.lt_of_le_of_lt h.lt_limit hlimit), hbody, mk_ok_bind,
        TokenList.next_of_lt (by omega), Phrase.pieces]
      exact congrArg (Cut.mk · _) (List.append_nil _)
  | .cond condition body, i, steps + 2, h, hsteps => by
      have hclear := h.clear rfl
      rw [Phrase.length_texts_cond] at hclear hsteps ⊢
      have hroom : 2 * body.texts.length < steps := by omega
      have hbody := branch_phrase hlimit body h.cond_body hroom
      rw [← h.cond_body.next_eq hlimit] at hbody
      rw [branch_if h.ne_limit (h.textAt_first rfl), Phrase.pieces]
      simp only [← Nat.add_assoc] at hclear ⊢
      exact conditional_if (h.parenAt hlimit rfl) (ts.between_add _ _) hbody hclear
  | .condElse condition body other, i, steps + 2, h, hsteps => by
      have hwithin := h.within
      rw [Phrase.length_texts_condElse] at hwithin hsteps ⊢
      have hroom : 2 * body.texts.length < steps ∧ 2 * other.texts.length < steps := by omega
      have hbody := branch_phrase hlimit body h.condElse_body hroom.1
      have hother := branch_phrase hlimit other h.condElse_other hroom.2
      rw [← h.condElse_body.next_eq hlimit] at hbody
      rw [← h.condElse_other.next_eq hlimit] at hother
      rw [branch_if h.ne_limit (h.textAt_first rfl), Phrase.pieces]
      simp only [← Nat.add_assoc]
      exact conditional_ifElse (h.parenAt hlimit rfl) (ts.between_add _ _) hbody (by omega)
        h.condElse_else hother
  | .loop keyword head body, i, steps + 1, h, hsteps => by
      have hfirst := h.textAt_first rfl
      rw [branch_loop h.ne_limit (hfirst ▸ keyword.isLoopKeyword_text), Phrase.pieces]
      exact passBranch_phrase hlimit _ h hsteps
  | .doWhile body head, i, steps + 1, h, hsteps => by
      have hfirst := h.textAt_first rfl
      rw [branch_loop h.ne_limit (hfirst ▸ rfl), Phrase.pieces]
      exact passBranch_phrase hlimit _ h hsteps

/-- Phrases that fill a stretch are cut into their pieces. -/
theorem range_phrases {ts : TokenList} {limit : Nat} (hlimit : limit < ts.size) :
    ∀ (phrases : List Phrase) {i steps : Nat}, Phrase.StandUpTo phrases ts limit i →
      2 * (Phrase.textsAll phrases).length + 1 < steps →
      range ts limit steps (some i) = ⟨Phrase.piecesAll ts i phrases, .ok ()⟩
  | [], i, steps + 1, h, _ => by
      have hi : i = limit := h.upTo
      rw [range, if_pos hi, Phrase.piecesAll]
      rfl
  | phrase :: phrases, i, steps + 1, h, hsteps => by
      obtain ⟨first, tail, htexts, hfirst⟩ := phrase.texts_eq_cons
      have hpos := phrase.length_texts_pos
      rw [Phrase.textsAll, List.length_append] at hsteps
      have hroom : 2 * phrase.texts.length < steps + 1 ∧
          2 * (Phrase.textsAll phrases).length + 1 < steps := by omega
      have hbranch := branch_phrase hlimit phrase h.first hroom.1
      have hrest := range_phrases hlimit phrases h.rest hroom.2
      rw [range_eq_branch h.first.ne_limit (h.first.textAt_first htexts ▸ hfirst), hbranch,
        mk_ok_bind, hrest, Phrase.piecesAll]

end

/-- A body that shows structured source is cut into the pieces of its phrases. -/
theorem body_phrases {ts : TokenList} {opening closing : Nat} {phrases : List Phrase}
    (hsize : closing < ts.size) (h : Phrase.StandUpTo phrases ts closing (opening + 1)) :
    body ts opening closing = ⟨Phrase.piecesAll ts (opening + 1) phrases, .ok ()⟩ := by
  have hupTo := h.upTo
  have hsquare := Nat.le_mul_self (ts.size + 1)
  have henough : 2 * (Phrase.textsAll phrases).length + 1 < enough ts := by
    unfold enough
    rw [Nat.mul_assoc]
    omega
  unfold body
  rw [TokenList.next_of_lt (by omega)]
  exact range_phrases hsize phrases h henough

end Cut

end NullSafety
