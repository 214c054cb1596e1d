import Mathlib.Data.List.Flatten
import NullSafety.Proofs.Rendering
import NullSafety.Proofs.Settling

/-!
# Document order

Where the links inside a body nest, a cut never gets past its limit: behind a bracket inside the
limit, the link is inside it too, and the limit of a block is a bracket of its own. So what is cut
comes in the order of the source, token by token, and no token is cut twice. The texts do not
matter for this. Keywords may stand where they make no sense, and brackets without a link are
tokens like others.
-/

namespace NullSafety

/-! ## Links that nest -/

namespace TokenList

/-- An opening bracket is linked to a closing one of its kind further on, and so is every bracket
between them that has a link; no link leads out of another. -/
structure LinksNest (ts : TokenList) (opening closing : Nat) : Prop where
  linked : ts.Linked opening closing
  lt : opening < closing
  lt_size : closing < ts.size
  matched : ∀ i k, opening ≤ i → i < closing → ts.Linked i k →
    i < k ∧ (ts.textAt i, ts.textAt k) ∈ bracketPairs
  nests : ∀ i k j l, opening ≤ i → i < closing → ts.Linked i k → i < j → j < k →
    ts.Linked j l → l < k

theorem linksNest_iff {ts : TokenList} {opening closing : Nat} :
    ts.LinksNest opening closing ↔
      ts.Linked opening closing ∧ opening < closing ∧ closing < ts.size ∧
      (∀ i < closing, ∀ k ∈ ts.link? i, opening ≤ i → ts.Linked i k →
        i < k ∧ (ts.textAt i, ts.textAt k) ∈ bracketPairs) ∧
      ∀ i < closing, ∀ k ∈ ts.link? i, opening ≤ i → ts.Linked i k →
        ∀ j < k, ∀ l ∈ ts.link? j, i < j → ts.Linked j l → l < k := by
  constructor
  · rintro ⟨hlinked, hlt, hsize, hmatched, hnests⟩
    refine ⟨hlinked, hlt, hsize, ?_, ?_⟩
    · intro i hi k _ hle hlinked
      exact hmatched i k hle hi hlinked
    · intro i hi k _ hle hlinked j hj l _ hij hlinked'
      exact hnests i k j l hle hi hlinked hij hj hlinked'
  · rintro ⟨hlinked, hlt, hsize, hmatched, hnests⟩
    refine ⟨hlinked, hlt, hsize, ?_, ?_⟩
    · intro i k hle hi hlinked
      exact hmatched i hi k hlinked.2 hle hlinked
    · intro i k j l hle hi hlinked hij hj hlinked'
      exact hnests i hi k hlinked.2 hle hlinked j hj l hlinked'.2 hij hlinked'

instance (ts : TokenList) (i k : Nat) : Decidable (ts.Linked i k) :=
  inferInstanceAs (Decidable (_ ∧ _))

set_option synthInstance.maxSize 512 in
instance (ts : TokenList) (opening closing : Nat) : Decidable (ts.LinksNest opening closing) :=
  decidable_of_iff _ linksNest_iff.symm

namespace LinksNest

variable {ts : TokenList} {opening closing i k : Nat}

theorem link_lt (h : ts.LinksNest opening closing) (hi : opening < i) (hi' : i < closing)
    (hlinked : ts.Linked i k) : i < k ∧ k < closing :=
  ⟨(h.matched i k (Nat.le_of_lt hi) hi' hlinked).1,
    h.nests opening closing i k (Nat.le_refl _) h.lt h.linked hi hi' hlinked⟩

/-- The links inside a bracket of the body nest as well. -/
theorem inner (h : ts.LinksNest opening closing) (hi : opening < i) (hi' : i < closing)
    (hlinked : ts.Linked i k) : ts.LinksNest i k := by
  obtain ⟨hlt, hlt'⟩ := h.link_lt hi hi' hlinked
  refine ⟨hlinked, hlt, Nat.lt_trans hlt' h.lt_size, ?_, ?_⟩
  · intro j l hj hj' hlinked'
    exact h.matched j l (by omega) (by omega) hlinked'
  · intro j l m n hj hj'
    exact h.nests j l m n (by omega) (by omega)

theorem not_linked_closing (h : ts.LinksNest opening closing) : ¬ ts.Linked closing k := by
  have hclosers : ∀ pair ∈ bracketPairs, Cut.isOpener pair.2 = false := by decide
  rintro ⟨hopener, -⟩
  have hpair := (h.matched opening closing (Nat.le_refl _) h.lt h.linked).2
  rw [hclosers _ hpair] at hopener
  cases hopener

theorem next_eq (h : ts.LinksNest opening closing) (hi : i < closing) :
    ts.next i = some (i + 1) :=
  next_of_lt (Nat.lt_of_le_of_lt hi h.lt_size)

end LinksNest

theorem eq_of_next {ts : TokenList} {i j : Nat} (h : ts.next i = some j) : j = i + 1 := by
  unfold next at h
  split at h
  · exact (Option.some.inj h).symm
  · cases h

/-- Of two tokens of the list, the one with less ahead is further on. -/
theorem ahead_le_iff {ts : TokenList} {i j : Nat} (hi : i < ts.size) :
    ts.ahead (some j) ≤ ts.ahead (some i) ↔ i ≤ j := by
  simp only [ahead]
  omega

theorem ahead_lt_iff {ts : TokenList} {i j : Nat} (hj : j < ts.size) :
    ts.ahead (some j) < ts.ahead (some i) ↔ i < j := by
  simp only [ahead]
  omega

end TokenList

namespace Cut

/-- A cursor behind one bracket and not behind the other. -/
def Inside (opening closing : Nat) (cursor : Cursor) : Prop :=
  ∃ i, cursor = some i ∧ opening < i ∧ i ≤ closing

theorem stretch_of_linksNest {ts : TokenList} {opening closing : Nat}
    (h : ts.LinksNest opening closing) : Stretch ts closing (Inside opening closing) where
  next := by
    rintro i ⟨_, ⟨⟩, hi, hle⟩ hne
    have hi' : i < closing := Nat.lt_of_le_of_ne hle hne
    exact ⟨i + 1, h.next_eq hi', Nat.lt_succ_of_lt hi, hi'⟩
  behind := by
    rintro i k ⟨_, ⟨⟩, hi, hle⟩ hlinked
    have hne : i ≠ closing := by
      rintro rfl
      exact h.not_linked_closing hlinked
    obtain ⟨hlt, hlt'⟩ := h.link_lt hi (Nat.lt_of_le_of_ne hle hne) hlinked
    exact ⟨Nat.le_of_lt hlt, k + 1, h.next_eq hlt', by omega, hlt'⟩

end Cut

/-! ## Pieces in order -/

/-- The tokens of a statement or of a condition. -/
def Piece.tokens : Piece → List Nat
  | .statement tokens => tokens
  | .enter _ condition => condition
  | _ => []

/-- All tokens that belong to a piece, the keyword of an `if` among them. -/
def Piece.positions : Piece → List Nat
  | .statement tokens => tokens
  | .enter keyword condition => keyword :: condition
  | _ => []

/-- The tokens of the pieces, one piece after the other, go strictly forward from a position to
one behind them. -/
structure InOrder (first behind : Nat) (pieces : List Piece) : Prop where
  increasing : (pieces.flatMap Piece.positions).Pairwise (· < ·)
  between : ∀ i ∈ pieces.flatMap Piece.positions, first ≤ i ∧ i < behind

namespace InOrder

variable {first middle behind : Nat} {pieces more : List Piece}

theorem nil (first behind : Nat) : InOrder first behind [] :=
  ⟨.nil, nofun⟩

theorem append (h : InOrder first middle pieces) (hmore : InOrder middle behind more)
    (hfirst : first ≤ middle) (hbehind : middle ≤ behind) :
    InOrder first behind (pieces ++ more) := by
  refine ⟨?_, ?_⟩
  · rw [List.flatMap_append, List.pairwise_append]
    refine ⟨h.increasing, hmore.increasing, ?_⟩
    intro i hi j hj
    exact Nat.lt_of_lt_of_le (h.between i hi).2 (hmore.between j hj).1
  · intro i hi
    rw [List.flatMap_append, List.mem_append] at hi
    rcases hi with hi | hi
    · exact ⟨(h.between i hi).1, Nat.lt_of_lt_of_le (h.between i hi).2 hbehind⟩
    · exact ⟨Nat.le_trans hfirst (hmore.between i hi).1, (hmore.between i hi).2⟩

/-- Pieces in a part of the source are in order in the whole. -/
theorem widen {first' behind' : Nat} (h : InOrder first behind pieces) (hfirst : first' ≤ first)
    (hbehind : behind ≤ behind') : InOrder first' behind' pieces := by
  refine ⟨h.increasing, ?_⟩
  intro i hi
  obtain ⟨hle, hlt⟩ := h.between i hi
  exact ⟨Nat.le_trans hfirst hle, Nat.lt_of_lt_of_le hlt hbehind⟩

/-- A piece without tokens makes no difference. -/
theorem mark {piece : Piece} (h : InOrder first behind pieces) (hpiece : piece.positions = []) :
    InOrder first behind (piece :: pieces) := by
  have hsame : (piece :: pieces).flatMap Piece.positions = pieces.flatMap Piece.positions := by
    rw [List.flatMap_cons, hpiece, List.nil_append]
  exact ⟨hsame ▸ h.increasing, hsame ▸ h.between⟩

theorem of_issues (h : ∀ piece ∈ pieces, ∃ issue, piece = .issue issue) (first behind : Nat) :
    InOrder first behind pieces := by
  induction pieces with
  | nil => exact nil first behind
  | cons piece pieces ih =>
      obtain ⟨issue, rfl⟩ := h piece List.mem_cons_self
      exact (ih fun piece hpiece => h piece (List.mem_cons_of_mem _ hpiece)).mark rfl

theorem single {piece : Piece} (hincreasing : piece.positions.Pairwise (· < ·))
    (hbetween : ∀ i ∈ piece.positions, first ≤ i ∧ i < behind) :
    InOrder first behind [piece] := by
  have hsame : [piece].flatMap Piece.positions = piece.positions := List.flatMap_singleton _ _
  exact ⟨hsame.symm ▸ hincreasing, hsame.symm ▸ hbetween⟩

end InOrder

namespace Cut

/-- What is cut from a position on is in order up to where the cut goes on, which is not behind the
limit, and further on unless the cut began at the limit. -/
structure CutsTo (limit first behind : Nat) (pieces : List Piece) : Prop where
  le : first ≤ behind
  le_limit : behind ≤ limit
  lt : first ≠ limit → first < behind
  inOrder : InOrder first behind pieces

/-- The same, where the cut goes on at a cursor. -/
def CutsFrom (limit first : Nat) (pieces : List Piece) (cursor : Cursor) : Prop :=
  ∃ behind, cursor = some behind ∧ CutsTo limit first behind pieces

section

variable {ts : TokenList} {opening limit i : Nat}

/-- The tokens of a statement follow each other without a gap, and it goes on behind them. -/
theorem exists_range'_of_statementLoop {steps : Nat} {tokens : List Nat} {cursor : Cursor}
    (h : statementLoop ts limit steps (some i) = .ok (tokens, cursor)) :
    ∃ n, tokens = List.range' i n ∧ ∀ j, cursor = some j → i + n ≤ j := by
  induction steps generalizing i tokens with
  | zero => cases h
  | succ steps ih =>
      rw [statementLoop] at h
      split at h
      · cases h
        exact ⟨0, rfl, fun j hj => Nat.le_of_eq (Option.some.inj hj)⟩
      · split at h
        · cases h
          exact ⟨0, rfl, fun j hj => Nat.le_of_lt (TokenList.eq_of_next hj ▸ Nat.lt_succ_self i)⟩
        · change (if lastTaken ts i < i then _ else
            statementLoop ts limit steps (ts.next (lastTaken ts i)) >>= fun rest =>
              .ok (List.range' i (lastTaken ts i + 1 - i) ++ rest.1, rest.2)) = _ at h
          split at h
          · cases h
          · cases hrest : statementLoop ts limit steps (ts.next (lastTaken ts i)) with
            | error fault =>
                rw [hrest] at h
                cases h
            | ok rest =>
                rw [hrest] at h
                cases h
                cases hnext : ts.next (lastTaken ts i) with
                | none =>
                    -- the last token of the list was taken
                    have hnone : statementLoop ts limit steps none = .ok ([], none) := by
                      cases steps <;> rfl
                    rw [hnext, hnone] at hrest
                    cases hrest
                    refine ⟨_, List.append_nil _, ?_⟩
                    rintro j ⟨⟩
                | some j =>
                    obtain rfl := TokenList.eq_of_next hnext
                    rw [hnext] at hrest
                    obtain ⟨n, htokens, hbehind⟩ := ih hrest
                    have hgap : i + (lastTaken ts i + 1 - i) = lastTaken ts i + 1 := by omega
                    refine ⟨lastTaken ts i + 1 - i + n, ?_, ?_⟩
                    · rw [← List.range'_append_1, hgap, htokens]
                    · intro j hj
                      rw [← Nat.add_assoc, hgap]
                      exact hbehind j hj

theorem CutsFrom.of_passed (h : ts.LinksNest opening limit) (hi : i ≤ limit) {pieces : List Piece}
    {cursor : Cursor} (hpassed : Passed ts limit (Inside opening limit) (some i) pieces cursor) :
    CutsFrom limit i pieces cursor := by
  obtain ⟨behind, rfl, -, hlimit⟩ := hpassed.within
  have hsize := h.lt_size
  refine ⟨behind, rfl, ?_, hlimit, ?_, .of_issues hpassed.issues _ _⟩
  · exact (TokenList.ahead_le_iff (by omega)).mp hpassed.advances.le
  · intro hne
    exact (TokenList.ahead_lt_iff (by omega)).mp (hpassed.advances.lt i rfl hne)

theorem CutsFrom.of_statement (h : ts.LinksNest opening limit) (hi : opening < i)
    (hle : i ≤ limit) : ∃ pieces cursor, statement ts (some i) limit = ⟨pieces, .ok cursor⟩ ∧
      CutsFrom limit i pieces cursor := by
  obtain ⟨tokens, cursor, hfrom, hinside, hadvances⟩ :=
    exists_statementFrom (stretch_of_linksNest h) (some i) ⟨i, rfl, hi, hle⟩
  obtain ⟨n, rfl, hbehind⟩ := exists_range'_of_statementLoop hfrom
  have hpassed : Passed ts limit (Inside opening limit) (some i) [] cursor :=
    ⟨nofun, hinside, hadvances⟩
  obtain ⟨behind, rfl, hcuts⟩ := CutsFrom.of_passed h hle hpassed
  refine ⟨_, _, statement_eq hfrom, behind, rfl, hcuts.le, hcuts.le_limit, hcuts.lt, ?_⟩
  split
  · exact .nil _ _
  · refine .single List.pairwise_lt_range' ?_
    intro j hj
    have hend := hbehind behind rfl
    have hmem := List.mem_range'_1.mp hj
    omega

/-- The keyword of an `if` with its condition. -/
theorem inOrder_enter (ts : TokenList) {i j k : Nat} (hj : i < j) (hk : j < k) :
    InOrder i (k + 1) [.enter i (ts.between j k)] := by
  have hmem : ∀ l ∈ ts.between j k, j < l ∧ l < k := by
    intro l hl
    simp only [TokenList.between, if_pos hk] at hl
    have := List.mem_range'_1.mp hl
    omega
  refine .single (List.pairwise_cons.mpr ⟨?_, List.pairwise_lt_range'⟩) ?_
  · intro l hl
    exact Nat.lt_trans hj (hmem l hl).1
  · intro l hl
    rcases List.mem_cons.mp hl with rfl | hl
    · omega
    · have := hmem l hl
      omega

/-- An `if` is cut in order, given that everything behind its keyword is. -/
theorem settles_conditional_inOrder (h : ts.LinksNest opening limit) (hi : opening < i)
    (hlt : i < limit)
    (hbranch : ∀ j, i < j → j ≤ limit →
      Settles (2 * ts.ahead (some j) + 1) (fun steps => branch ts limit steps (some j))
        (CutsFrom limit j)) :
    Settles (2 * ts.ahead (some i)) (fun steps => conditional ts limit steps i)
      (CutsFrom limit i) := by
  have hstretch := stretch_of_linksNest h
  have hsize := h.lt_size
  -- the parenthesis is not the end of the body itself, which is no opening bracket
  have hhead : ∀ {j k}, ts.parenAt (ts.next i) = some (j, k) → i < j ∧ j < k ∧ k < limit := by
    intro j k hparen
    obtain ⟨-, rfl, hlinked⟩ := TokenList.linked_of_parenAt hparen
    have hne : i + 1 ≠ limit := by
      rintro rfl
      exact h.not_linked_closing hlinked
    obtain ⟨hjk, hk⟩ := h.link_lt (by omega) (by omega) hlinked
    exact ⟨Nat.lt_succ_self i, hjk, hk⟩
  refine settles_conditional (P := fun k => CutsFrom limit (k + 1)) ?_ ?_ ?_ ?_
  · intro issue hparen
    have hinside := hstretch.next i ⟨i, rfl, hi, Nat.le_of_lt hlt⟩ (Nat.ne_of_lt hlt)
    refine (settles_passStatement hstretch hinside 0).mono (Nat.le_refl _) ?_
    intro pieces cursor hpassed
    have hwhole := (hpassed.behind (ts.ahead_next (Nat.le_refl i))).issue issue
    exact .of_passed h (Nat.le_of_lt hlt) hwhole
  · intro j k hparen
    obtain ⟨hij, hjk, hk⟩ := hhead hparen
    refine ⟨ts.ahead_next (by omega), ?_⟩
    rw [h.next_eq hk]
    exact hbranch (k + 1) (by omega) hk
  · rintro j k pieces _ hparen ⟨q, rfl, hcuts⟩ -
    obtain ⟨hij, hjk, hk⟩ := hhead hparen
    have hle := hcuts.le
    have hexit : InOrder q q [.exit] := (InOrder.nil q q).mark rfl
    have hlater := hcuts.inOrder.append hexit hle (Nat.le_refl q)
    have hwhole := (inOrder_enter ts hij hjk).append hlater (by omega) (by omega)
    exact ⟨q, rfl, by omega, hcuts.le_limit, fun _ => by omega, hwhole⟩
  · rintro j k pieces q hparen ⟨_, ⟨⟩, hcuts⟩ helse
    obtain ⟨hij, hjk, hk⟩ := hhead hparen
    have hle := hcuts.le
    have hq : q < limit := Nat.lt_of_le_of_ne hcuts.le_limit (eq_of_elseAt? helse).2
    rw [h.next_eq hk, h.next_eq hq]
    refine ⟨(TokenList.ahead_le_iff (by omega)).mpr (by omega), ?_⟩
    refine (hbranch (q + 1) (by omega) hq).mono (Nat.le_refl _) ?_
    rintro more _ ⟨r, rfl, hmore⟩
    have hqr := hmore.le
    have hexit : InOrder r r [.exit] := (InOrder.nil r r).mark rfl
    have hother : InOrder q r (.orElse :: more) :=
      (hmore.inOrder.widen (Nat.le_succ q) (Nat.le_refl r)).mark rfl
    have hlater := hcuts.inOrder.append (hother.append hexit (by omega) (Nat.le_refl r)) hle
      (by omega)
    have hwhole := (inOrder_enter ts hij hjk).append hlater (by omega) (by omega)
    exact ⟨r, rfl, by omega, hmore.le_limit, fun _ => by omega, hwhole⟩

/-- A branch is cut in order, given that everything behind its first token is: a branch up to the
same limit, and the inside of a block up to a limit of its own. -/
theorem settles_branch_inOrder (h : ts.LinksNest opening limit) (hi : opening < i)
    (hle : i ≤ limit)
    (hbranch : ∀ j, i < j → j ≤ limit →
      Settles (2 * ts.ahead (some j) + 1) (fun steps => branch ts limit steps (some j))
        (CutsFrom limit j))
    (hrange : ∀ k, ts.LinksNest i k →
      Settles (2 * ts.ahead (some (i + 1)) + 1) (fun steps => range ts k steps (some (i + 1)))
        fun pieces _ => InOrder (i + 1) k pieces) :
    Settles (2 * ts.ahead (some i) + 1) (fun steps => branch ts limit steps (some i))
      (CutsFrom limit i) := by
  have hstretch := stretch_of_linksNest h
  refine settles_branch ?_ ?_ ?_ ?_ ?_ ?_
  · rintro rfl
    exact ⟨i, rfl, Nat.le_refl i, Nat.le_refl i, absurd rfl, .nil i i⟩
  · intro k hne hblock hlink
    -- inside the block its own bracket is the limit, and the links nest there as well
    have hlt : i < limit := Nat.lt_of_le_of_ne hle hne
    have hlinked : ts.Linked i k := ⟨by rw [hblock]; decide, hlink⟩
    obtain ⟨hik, hk⟩ := h.link_lt hi hlt hlinked
    rw [h.next_eq hlt, h.next_eq hk]
    refine (hrange k (h.inner hi hlt hlinked)).mono (Nat.le_refl _) ?_
    intro pieces _ hpieces
    exact ⟨k + 1, rfl, by omega, hk, fun _ => by omega,
      hpieces.widen (Nat.le_succ i) (Nat.le_succ k)⟩
  · intro hne hif
    exact settles_conditional_inOrder h hi (Nat.lt_of_le_of_ne hle hne) hbranch
  · intro hne hloop
    exact (settles_passBranch hstretch (some i) ⟨i, rfl, hi, hle⟩).mono (Nat.le_refl _)
      fun _ _ => .of_passed h hle
  · intro hne hend
    have hlt : i < limit := Nat.lt_of_le_of_ne hle hne
    exact ⟨i + 1, h.next_eq hlt, Nat.le_succ i, hlt, fun _ => Nat.lt_succ_self i, .nil _ _⟩
  · intro hne hblock hif hloop
    obtain ⟨pieces, cursor, hstatement, hcuts⟩ := CutsFrom.of_statement h hi hle
    exact .const hstatement hcuts

theorem settles_range_inOrder (h : ts.LinksNest opening limit) (hle : i ≤ limit)
    (hbranch : Settles (2 * ts.ahead (some i) + 1) (fun steps => branch ts limit steps (some i))
      (CutsFrom limit i))
    (hrange : ∀ j, i < j → j ≤ limit →
      Settles (2 * ts.ahead (some j) + 1) (fun steps => range ts limit steps (some j))
        fun pieces _ => InOrder j limit pieces) :
    Settles (2 * ts.ahead (some i) + 1) (fun steps => range ts limit steps (some i))
      fun pieces _ => InOrder i limit pieces := by
  refine settles_range hbranch ?_ ?_ ?_
  · rintro rfl
    exact .nil i i
  · intro issue hne
    have hlt : i < limit := Nat.lt_of_le_of_ne hle hne
    rw [h.next_eq hlt]
    refine (hrange (i + 1) (Nat.lt_succ_self i) hlt).mono (Nat.le_refl _) ?_
    intro pieces _ hpieces
    exact (hpieces.widen (Nat.le_succ i) (Nat.le_refl limit)).mark rfl
  · rintro pieces _ hne ⟨behind, rfl, hcuts⟩
    have hlt := hcuts.lt hne
    have hsize := Nat.lt_of_le_of_lt hcuts.le_limit h.lt_size
    refine ⟨(TokenList.ahead_lt_iff hsize).mpr hlt, ?_⟩
    refine (hrange behind hlt hcuts.le_limit).mono (Nat.le_refl _) ?_
    intro more _ hmore
    exact hcuts.inOrder.append hmore hcuts.le hcuts.le_limit

/-- Where the links nest, a cut between two linked brackets is in order. The induction is on what
lies ahead, for all pairs of brackets around the position at once: a block has its own. -/
theorem settles_inOrder (h : ts.LinksNest opening limit) (hi : opening < i) (hle : i ≤ limit) :
    Settles (2 * ts.ahead (some i) + 1) (fun steps => branch ts limit steps (some i))
      (CutsFrom limit i) ∧
    Settles (2 * ts.ahead (some i) + 1) (fun steps => range ts limit steps (some i))
      fun pieces _ => InOrder i limit pieces := by
  induction hahead : ts.ahead (some i) using Nat.strongRecOn generalizing i opening limit with
  | _ n ih =>
      subst hahead
      have hlater : ∀ {opening' limit' : Nat} (j : Nat), ts.LinksNest opening' limit' →
          opening' < j → i < j → j ≤ limit' → _ := fun j hnest hopening hlt hlimit =>
        ih _ ((TokenList.ahead_lt_iff (Nat.lt_of_le_of_lt hlimit hnest.lt_size)).mpr hlt)
          hnest hopening hlimit rfl
      have hbranch := settles_branch_inOrder h hi hle
        (fun j hlt hlimit => (hlater j h (Nat.lt_trans hi hlt) hlt hlimit).1)
        fun k hinner => (hlater (i + 1) hinner (Nat.lt_succ_self i) (Nat.lt_succ_self i)
          hinner.lt).2
      exact ⟨hbranch, settles_range_inOrder h hle hbranch
        fun j hlt hlimit => (hlater j h (Nat.lt_trans hi hlt) hlt hlimit).2⟩

/-- A body is cut whole and in order. -/
theorem body_inOrder (h : ts.LinksNest opening limit) :
    ∃ pieces, body ts opening limit = ⟨pieces, .ok ()⟩ ∧ InOrder (opening + 1) limit pieces := by
  have hfirst : opening < opening + 1 := Nat.lt_succ_self opening
  obtain ⟨pieces, ⟨⟩, hcut, hpieces⟩ := (settles_inOrder h hfirst h.lt).2
  have hroom := ts.ahead_le (some (opening + 1))
  have henough := enough_lt ts
  refine ⟨pieces, ?_, hpieces⟩
  unfold body
  rw [h.next_eq h.lt]
  exact hcut _ (by omega)

end

end Cut

/-! ## Events in order -/

/-- Where an event is in the source. -/
def Event.ref? : Event → Option SourceRef
  | .declaration _ _ _ _ _ _ ref => some ref
  | .assignment _ _ _ _ ref => some ref
  | .expression _ _ ref => some ref
  | .jump _ _ _ ref => some ref
  | .enter _ _ ref => some ref
  | .orElse => none
  | .exit => none
  | .finish => none

section

variable (ts : TokenList) (o : Options)

/-- The event of a statement is at one of its tokens. -/
theorem TokenList.ref?_statementEvent (first : Nat) (rest : List Nat) :
    ∃ i ∈ first :: rest, (ts.statementEvent o first rest).ref? = some (ts.refAt i) := by
  unfold statementEvent
  dsimp only
  split
  · exact ⟨first, List.mem_cons_self, rfl⟩
  · split
    · rename_i i after hdeclared
      have hmem : i ∈ (first :: rest).dropWhile fun i => (ts.declares? i).isNone := by
        rw [hdeclared]
        exact List.mem_cons_self
      exact ⟨i, (List.dropWhile_sublist _).mem hmem, rfl⟩
    · split
      · rename_i k _
        refine ⟨(first :: rest).getD (k + 1) first, ?_, rfl⟩
        rw [List.getD_eq_getElem?_getD]
        cases hget : (first :: rest)[k + 1]? with
        | none => exact List.mem_cons_self
        | some i => exact List.mem_of_getElem? hget
      · exact ⟨first, List.mem_cons_self, rfl⟩

theorem Piece.exists_refs (piece : Piece) :
    ∃ refs : List Nat, refs.Sublist piece.positions ∧
      ((piece.items ts o).filterMap Item.event?).filterMap Event.ref? = refs.map ts.refAt := by
  cases piece with
  | statement tokens =>
      cases tokens with
      | nil => exact ⟨[], .slnil, rfl⟩
      | cons first rest =>
          obtain ⟨i, hi, href⟩ := ts.ref?_statementEvent o first rest
          refine ⟨[i], List.singleton_sublist.mpr hi, ?_⟩
          show [ts.statementEvent o first rest].filterMap Event.ref? = [ts.refAt i]
          rw [List.filterMap_cons_some href, List.filterMap_nil]
  | enter keyword condition =>
      exact ⟨[keyword], List.singleton_sublist.mpr List.mem_cons_self, rfl⟩
  | orElse | exit | issue => exact ⟨[], .slnil, rfl⟩

/-- The events of pieces are at tokens of theirs, in the order of the pieces. -/
theorem Piece.exists_refs_flatMap (pieces : List Piece) :
    ∃ refs : List Nat, refs.Sublist (pieces.flatMap Piece.positions) ∧
      ((pieces.flatMap (Piece.items ts o)).filterMap Item.event?).filterMap Event.ref? =
        refs.map ts.refAt := by
  induction pieces with
  | nil => exact ⟨[], .slnil, rfl⟩
  | cons piece pieces ih =>
      obtain ⟨refs, hrefs, heq⟩ := piece.exists_refs ts o
      obtain ⟨more, hmore, hmoreEq⟩ := ih
      refine ⟨refs ++ more, hrefs.append hmore, ?_⟩
      rw [List.flatMap_cons, List.filterMap_append, List.filterMap_append, heq, hmoreEq,
        List.map_append]

end

theorem Piece.tokens_sublist_positions (piece : Piece) :
    piece.tokens.Sublist piece.positions := by
  cases piece with
  | enter keyword condition => exact List.sublist_cons_self _ _
  | statement | orElse | exit | issue => exact List.Sublist.refl _

/-- **Reading follows the source.** Take a body between two brackets that are linked to each other,
in which every bracket that has a link is linked to a matching one and the links nest, and in which
the numbers of variables can be read; its texts may be any. It is cut into pieces and read without
a fault. The events that have a place in the source have it strictly inside the body, and each
strictly behind the one before; and the tokens of all statements and conditions, one after the
other, go strictly forward too, so no token is in two of them. -/
theorem read_in_document_order (ts : TokenList) (o : Options) (scope : Scope)
    (opening closing : Nat) (hstart : scope.bodyStart = some opening)
    (hend : scope.bodyEnd = some closing) (hnest : ts.LinksNest opening closing)
    (hnumeric : ∀ t ∈ ts.tokens, t.hasNumericId = true) :
    ∃ (pieces : List Piece) (refs : List Nat),
      Cut.body ts opening closing = ⟨pieces, .ok ()⟩ ∧
      scope.read ts o = (pieces.flatMap (Piece.items ts o), none) ∧
      ((scope.read ts o).1.filterMap Item.event?).filterMap Event.ref? = refs.map ts.refAt ∧
      (∀ i ∈ refs, opening < i ∧ i < closing) ∧ refs.Pairwise (· < ·) ∧
      (∀ i ∈ pieces.flatMap Piece.tokens, opening < i ∧ i < closing) ∧
      (pieces.flatMap Piece.tokens).Pairwise (· < ·) := by
  obtain ⟨pieces, hbody, horder⟩ := Cut.body_inOrder hnest
  have hread := Scope.read_of_body hnumeric o hstart hend hbody
  obtain ⟨refs, hrefs, heq⟩ := Piece.exists_refs_flatMap ts o pieces
  have htokens : (pieces.flatMap Piece.tokens).Sublist (pieces.flatMap Piece.positions) :=
    List.Sublist.flatMap_right pieces fun piece _ => piece.tokens_sublist_positions
  exact ⟨pieces, refs, hbody, hread, by rw [hread]; exact heq,
    fun i hi => horder.between i (hrefs.mem hi), horder.increasing.sublist hrefs,
    fun i hi => horder.between i (htokens.mem hi), horder.increasing.sublist htokens⟩

/-- `{ int p = f ( x ) ; if ( p ) { else p = 0 ; } else do if ; while ( p ) ; return p ; if }` -/
def strayKeywords : TokenList where
  tokens := #[{ text := "\x7b", link := some 33 }, { text := "int" },
    { text := "p", varId := some (.number 1), decl := some 0 }, { text := "=" }, { text := "f" },
    { text := "(", link := some 7 }, { text := "x" }, { text := ")" }, { text := ";" },
    { text := "if" }, { text := "(", link := some 12 },
    { text := "p", varId := some (.number 1), decl := some 0 }, { text := ")" },
    { text := "\x7b", link := some 19 }, { text := "else" },
    { text := "p", varId := some (.number 1), decl := some 0 }, { text := "=" }, { text := "0" },
    { text := ";" }, { text := "\x7d" }, { text := "else" }, { text := "do" }, { text := "if" },
    { text := ";" }, { text := "while" }, { text := "(", link := some 27 },
    { text := "p", varId := some (.number 1), decl := some 0 }, { text := ")" }, { text := ";" },
    { text := "return" }, { text := "p", varId := some (.number 1), decl := some 0 },
    { text := ";" }, { text := "if" }, { text := "\x7d" }]
  declared := #[{ isPointer := true, nameToken := some 2 }]

theorem read_in_document_order_strayKeywords :
    let read := Scope.read { bodyStart := some 0, bodyEnd := some 33 } strayKeywords {}
    strayKeywords.LinksNest 0 33 ∧ read.2 = none ∧
      (read.1.filterMap Item.event?).filterMap Event.ref? =
        [⟨"", none, some 2⟩, ⟨"", none, some 9⟩, ⟨"", none, some 16⟩, ⟨"", none, some 29⟩] ∧
      ((Cut.body strayKeywords 0 33).pieces.flatMap Piece.tokens).Pairwise (· < ·) := by
  have hnest : strayKeywords.LinksNest 0 33 := by decide +kernel
  obtain ⟨pieces, refs, hbody, hread, -, -, -, -, htokens⟩ :=
    read_in_document_order strayKeywords {} { bodyStart := some 0, bodyEnd := some 33 } 0 33 rfl
      rfl hnest (by decide +kernel)
  refine ⟨hnest, ?_, by decide +kernel, ?_⟩
  · rw [hread]
  · rw [hbody]
    exact htokens

end NullSafety
