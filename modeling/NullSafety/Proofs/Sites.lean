import Mathlib.Data.List.Induction
import Mathlib.Data.List.TakeWhile
import NullSafety.Dereference

/-!
# The sites of a text

Where a text dereferences a name can be said place by place, by what stands around the place: a star
with a name behind it, or the beginning of a name with an arrow behind it. The search does not look
at places one by one. It goes through the text once for each shape, takes what it finds, and goes on
behind it, so that a place inside of what was taken is never looked at; and what the two searches
found is put in order afterwards.

Nothing is hidden this way. What a star takes holds no other star. What an arrow takes holds other
places where a name could begin, but these belong to the same name.
-/

namespace NullSafety

namespace Dereference

open Text

/-! ## Sites, place by place -/

/-- A whole name in front of the rest of a text: it begins as a name does, and the run of its
characters does not go on in the rest. -/
structure NameBefore (name rest : List Char) : Prop where
  begins : ∃ c ∈ name.head?, isNameStart c = true
  word : ∀ c ∈ name, isWord c = true
  ends : ∀ c ∈ rest.head?, isWord c = false

/-- A star, and behind it, apart from blanks, a name. -/
inductive Starred : List Char → Site → Prop
  | intro {before blanks name rest : List Char} (hblanks : ∀ c ∈ blanks, isBlank c = true)
      (hname : NameBefore name rest) :
      Starred (before ++ '*' :: (blanks ++ (name ++ rest))) ⟨before.length, name⟩

/-- A run of characters of names, as long as it is, and behind it, apart from blanks, an arrow. The
name begins where the run has the first character that a name may begin with. -/
inductive Arrowed : List Char → Site → Prop
  | intro {before stem name blanks rest : List Char}
      (hbefore : ∀ c ∈ before.getLast?, isWord c = false)
      (hstem : ∀ c ∈ stem, isWord c = true ∧ isNameStart c = false)
      (hname : NameBefore name (blanks ++ '-' :: '>' :: rest))
      (hblanks : ∀ c ∈ blanks, isBlank c = true) :
      Arrowed (before ++ (stem ++ (name ++ (blanks ++ '-' :: '>' :: rest))))
        ⟨before.length + stem.length, name⟩

/-! ## What the shapes find -/

/-- A text is split where a class of characters ends. -/
theorem span_iff {p : Char → Bool} {cs left right : List Char} :
    cs.takeWhile p = left ∧ cs.dropWhile p = right ↔
      cs = left ++ right ∧ (∀ c ∈ left, p c = true) ∧ ∀ c ∈ right.head?, p c = false := by
  constructor
  · rintro ⟨rfl, rfl⟩
    refine ⟨List.takeWhile_append_dropWhile.symm, fun c hc => List.mem_takeWhile_imp hc, ?_⟩
    intro c hc
    have hnot := List.head?_dropWhile_not p cs
    rw [Option.mem_def.mp hc] at hnot
    exact hnot
  · rintro ⟨rfl, hleft, hright⟩
    rw [List.takeWhile_append_of_pos hleft, List.dropWhile_append_of_pos hleft]
    cases right with
    | nil => exact ⟨List.append_nil left, rfl⟩
    | cons c right =>
        have hc : ¬ p c = true := by
          rw [hright c rfl]
          exact Bool.false_ne_true
        rw [List.takeWhile_cons_of_neg hc, List.dropWhile_cons_of_neg hc, List.append_nil]
        exact ⟨rfl, rfl⟩

theorem nameAt_eq_some_iff {cs name : List Char} :
    nameAt cs = some name ↔
      cs.takeWhile isWord = name ∧ ∃ c ∈ name.head?, isNameStart c = true := by
  unfold nameAt
  split
  · rename_i hword
    rw [hword]
    constructor
    · rintro ⟨⟩
    · rintro ⟨rfl, c, ⟨⟩, -⟩
  · rename_i c rest hword
    rw [hword]
    split
    · rename_i hc
      constructor
      · rintro ⟨⟩
        exact ⟨rfl, c, rfl, hc⟩
      · rintro ⟨rfl, -⟩
        rfl
    · rename_i hc
      constructor
      · rintro ⟨⟩
      · rintro ⟨rfl, d, ⟨⟩, hd⟩
        exact absurd hd hc

theorem nameBefore_of_nameAt {cs name : List Char} (h : nameAt cs = some name) :
    cs = name ++ cs.dropWhile isWord ∧ NameBefore name (cs.dropWhile isWord) := by
  obtain ⟨htake, hbegins⟩ := nameAt_eq_some_iff.mp h
  obtain ⟨hsplit, hword, hends⟩ := span_iff.mp ⟨htake, rfl⟩
  exact ⟨hsplit, hbegins, hword, hends⟩

theorem NameBefore.nameAt_append {name rest : List Char} (h : NameBefore name rest) :
    nameAt (name ++ rest) = some name ∧ (name ++ rest).dropWhile isWord = rest := by
  obtain ⟨htake, hdrop⟩ := span_iff.mpr ⟨rfl, h.word, h.ends⟩
  exact ⟨nameAt_eq_some_iff.mpr ⟨htake, h.begins⟩, hdrop⟩

/-! The classes of characters involved have nothing in common, names and their beginnings apart. -/

theorem isNameStart_of_isBlank {c : Char} (h : isBlank c = true) : isNameStart c = false := by
  have hapart : ∀ r ∈ blankRanges, ∀ t ∈ nameStartRanges, r.2 < t.1 ∨ t.2 < r.1 := by decide
  obtain ⟨r, hr, hlo, hhi⟩ := (inRanges_iff increasing_blankRanges).mp h
  rw [← Bool.not_eq_true]
  intro hname
  obtain ⟨t, ht, hlo', hhi'⟩ := (inRanges_iff increasing_nameStartRanges).mp hname
  have := hapart r hr t ht
  omega

theorem isBlank_of_isNameStart {c : Char} (h : isNameStart c = true) : isBlank c = false := by
  rw [← Bool.not_eq_true]
  intro hblank
  rw [isNameStart_of_isBlank hblank] at h
  exact Bool.false_ne_true h

theorem NameBefore.exists_cons {name rest : List Char} (h : NameBefore name rest) :
    ∃ c cs, name = c :: cs ∧ isNameStart c = true := by
  obtain ⟨c, hc, hstart⟩ := h.begins
  obtain ⟨cs, rfl⟩ := List.head?_eq_some_iff.mp hc
  exact ⟨c, cs, rfl, hstart⟩

theorem starShape_eq_some_iff {cs name : List Char} {taken : Nat} :
    starShape cs = some (taken, name) ↔
      ∃ blanks rest, cs = '*' :: (blanks ++ (name ++ rest)) ∧ (∀ c ∈ blanks, isBlank c = true) ∧
        NameBefore name rest ∧ taken = 1 + blanks.length + name.length := by
  constructor
  · intro h
    unfold starShape at h
    split at h
    · rename_i cs
      obtain ⟨found, hfound, hpair⟩ := Option.map_eq_some_iff.mp h
      obtain ⟨rfl, rfl⟩ := Prod.mk.inj hpair
      obtain ⟨hname, hbefore⟩ := nameBefore_of_nameAt hfound
      obtain ⟨hsplit, hblanks, -⟩ := span_iff.mp ⟨(rfl : cs.takeWhile isBlank = _), rfl⟩
      exact ⟨_, _, by rw [← hname, ← hsplit], hblanks, hbefore, rfl⟩
    · cases h
  · rintro ⟨blanks, rest, rfl, hblanks, hname, rfl⟩
    obtain ⟨c, cs, rfl, hc⟩ := hname.exists_cons
    obtain ⟨htake, hdrop⟩ : (blanks ++ (c :: cs ++ rest)).takeWhile isBlank = blanks ∧
        (blanks ++ (c :: cs ++ rest)).dropWhile isBlank = c :: cs ++ rest := by
      refine span_iff.mpr ⟨rfl, hblanks, ?_⟩
      rintro d ⟨⟩
      exact isBlank_of_isNameStart hc
    simp only [starShape, htake, hdrop, hname.nameAt_append.1, Option.map_some]

theorem arrowShape_eq_some_iff {cs name : List Char} {taken : Nat} :
    arrowShape cs = some (taken, name) ↔
      ∃ blanks rest, cs = name ++ (blanks ++ '-' :: '>' :: rest) ∧
        (∀ c ∈ blanks, isBlank c = true) ∧ NameBefore name (blanks ++ '-' :: '>' :: rest) ∧
        taken = name.length + blanks.length + 2 := by
  constructor
  · intro h
    unfold arrowShape at h
    split at h
    · cases h
    · rename_i found hfound
      obtain ⟨hname, hbefore⟩ := nameBefore_of_nameAt hfound
      dsimp only at h
      split at h
      · rename_i rest harrow
        obtain ⟨rfl, rfl⟩ := Prod.mk.inj (Option.some.inj h)
        obtain ⟨hsplit, hblanks, -⟩ := span_iff.mp ⟨rfl, harrow⟩
        rw [hsplit] at hbefore
        exact ⟨_, rest, by rw [← hsplit, ← hname], hblanks, hbefore, rfl⟩
      · cases h
  · rintro ⟨blanks, rest, rfl, hblanks, hname, rfl⟩
    obtain ⟨hat, hdrop⟩ := hname.nameAt_append
    obtain ⟨htake, harrow⟩ : (blanks ++ '-' :: '>' :: rest).takeWhile isBlank = blanks ∧
        (blanks ++ '-' :: '>' :: rest).dropWhile isBlank = '-' :: '>' :: rest := by
      refine span_iff.mpr ⟨rfl, hblanks, ?_⟩
      rintro c ⟨⟩
      decide
    unfold arrowShape
    simp only [hat, hdrop, htake, harrow]

/-! ## One search -/

section

variable {shape : Shape} {text cs name : List Char} {s : Site} {position skip : Nat}

theorem position_of_mem_scan (h : s ∈ scan shape position skip cs) :
    position + skip ≤ s.position := by
  fun_induction scan shape position skip cs with
  | case1 => cases h
  | case2 position skip c cs ih =>
      have := ih h
      omega
  | case3 position c cs taken name _ ih =>
      rcases List.mem_cons.mp h with rfl | h
      · exact Nat.le_refl _
      · have := ih h
        omega
  | case4 position c cs _ ih =>
      have := ih h
      omega

theorem pairwise_scan (shape : Shape) (position skip : Nat) (cs : List Char) :
    (scan shape position skip cs).Pairwise fun s t => s.position < t.position := by
  fun_induction scan shape position skip cs with
  | case1 => exact .nil
  | case2 position skip c cs ih => exact ih
  | case3 position c cs taken name _ ih =>
      refine .cons ?_ ih
      intro s hs
      have := position_of_mem_scan hs
      show position < s.position
      omega
  | case4 position c cs _ ih => exact ih

/-- None of the sites before a place takes anything at the place or behind it. -/
def Free (shape : Shape) (text : List Char) (found : List Site) (place : Nat) : Prop :=
  ∀ t ∈ found, t.position < place → ∀ taken name,
    shape (text.drop t.position) = some (taken, name) → t.position + taken ≤ place

theorem free_cons_iff {found : List Site} {place taken : Nat}
    (h : shape (text.drop position) = some (taken, name)) :
    Free shape text (⟨position, name⟩ :: found) place ↔
      (position < place → position + taken ≤ place) ∧ Free shape text found place := by
  unfold Free
  rw [List.forall_mem_cons]
  refine and_congr_left' ?_
  constructor
  · intro hfree hlt
    exact hfree hlt taken name h
  · intro hle hlt taken' name' h'
    rw [h] at h'
    cases h'
    exact hle hlt

/-- A search has found nothing before it begins. -/
theorem free_scan {place : Nat} (h : place ≤ position) :
    Free shape text (scan shape position skip cs) place := by
  intro t ht hlt
  have := position_of_mem_scan ht
  omega

/-- A search finds a site exactly if its shape is there and nothing found before takes its place. -/
theorem mem_scan_iff (hnil : shape [] = none) (hcs : text.drop position = cs) :
    s ∈ scan shape position skip cs ↔
      position + skip ≤ s.position ∧
      (∃ taken, shape (text.drop s.position) = some (taken, s.name)) ∧
      Free shape text (scan shape position skip cs) s.position := by
  have hnext : ∀ {position c cs}, text.drop position = c :: cs → text.drop (position + 1) = cs := by
    intro position c cs h
    rw [← List.tail_drop, h]
    rfl
  fun_induction scan shape position skip cs with
  | case1 position skip =>
      -- behind the end of the text no shape is found
      constructor
      · rintro ⟨⟩
      · rintro ⟨hle, ⟨taken, hshape⟩, -⟩
        have hend : text.drop s.position = [] := by
          rw [List.drop_eq_nil_iff] at hcs ⊢
          omega
        rw [hend, hnil] at hshape
        cases hshape
  | case2 position skip c cs ih =>
      refine (ih (hnext hcs)).trans ?_
      rw [Nat.add_right_comm, Nat.add_assoc]
  | case3 position c cs taken name hshape ih =>
      rw [← hcs] at hshape
      rw [List.mem_cons, free_cons_iff hshape]
      refine (or_congr_right (ih (hnext hcs))).trans ?_
      constructor
      · rintro (rfl | ⟨hle, hfound, hfree⟩)
        · exact ⟨Nat.le_refl _, ⟨taken, hshape⟩, fun h => absurd h (Nat.lt_irrefl _),
            free_scan (Nat.le_succ _)⟩
        · exact ⟨by omega, hfound, fun _ => by omega, hfree⟩
      · rintro ⟨hle, ⟨taken', hfound⟩, htaken, hfree⟩
        rcases Nat.lt_or_eq_of_le hle with hlt | heq
        · have := htaken hlt
          exact Or.inr ⟨by omega, ⟨taken', hfound⟩, hfree⟩
        · -- at this very place there is only the one site
          obtain ⟨place, name'⟩ := s
          cases heq
          cases hshape.symm.trans hfound
          exact Or.inl rfl
  | case4 position c cs hshape ih =>
      rw [← hcs] at hshape
      refine (ih (hnext hcs)).trans ?_
      refine and_congr_left ?_
      rintro ⟨⟨taken, hfound⟩, -⟩
      have hne : position ≠ s.position := by
        rintro rfl
        rw [hshape] at hfound
        cases hfound
      omega

end

/-! ## Stars -/

section

variable {text took rest : List Char} {s t : Site} {i j : Nat}

theorem exists_before (h : text.drop i = rest) (hne : rest ≠ []) :
    ∃ before, text = before ++ rest ∧ before.length = i := by
  refine ⟨text.take i, ?_, ?_⟩
  · rw [← h, List.take_append_drop]
  · rw [← h, Ne, List.drop_eq_nil_iff] at hne
    rw [List.length_take]
    omega

/-- The characters that are taken at a place, by their places in the text. -/
theorem getElem?_eq_of_drop (h : text.drop i = took ++ rest) (hi : i ≤ j)
    (hj : j < i + took.length) : text[j]? = took[j - i]? := by
  have hindex : i + (j - i) = j := by omega
  have hlt : j - i < took.length := by omega
  calc text[j]? = (text.drop i)[j - i]? := by rw [List.getElem?_drop, hindex]
    _ = (took ++ rest)[j - i]? := by rw [h]
    _ = took[j - i]? := List.getElem?_append_left hlt

theorem Starred.getElem? (h : Starred text s) : text[s.position]? = some '*' := by
  cases h
  simp

theorem Arrowed.getElem? (h : Arrowed text s) :
    ∃ c, text[s.position]? = some c ∧ isNameStart c = true := by
  cases h with
  | intro _ _ hname _ =>
      obtain ⟨c, cs, hcons, hc⟩ := hname.exists_cons
      refine ⟨c, ?_, hc⟩
      simp [hcons]

/-- No star is hidden by another: what is taken behind it are blanks and characters of names. -/
theorem mem_scan_starShape_iff : s ∈ scan starShape 0 0 text ↔ Starred text s := by
  constructor
  · intro h
    obtain ⟨-, ⟨taken, hshape⟩, -⟩ := (mem_scan_iff rfl List.drop_zero).mp h
    obtain ⟨blanks, rest, htext, hblanks, hname, -⟩ := starShape_eq_some_iff.mp hshape
    obtain ⟨before, rfl, hposition⟩ := exists_before htext (List.cons_ne_nil _ _)
    obtain ⟨position, name⟩ := s
    cases hposition
    exact .intro hblanks hname
  · intro h
    refine (mem_scan_iff rfl List.drop_zero).mpr ⟨Nat.zero_le _, ?_, ?_⟩
    · cases h with
      | intro hblanks hname =>
          rw [List.drop_left]
          exact ⟨_, starShape_eq_some_iff.mpr ⟨_, _, rfl, hblanks, hname, rfl⟩⟩
    · intro t _ hlt taken name hshape
      obtain ⟨blanks, rest, htext, hblanks, hname, rfl⟩ := starShape_eq_some_iff.mp hshape
      by_contra hinside
      rw [← List.append_assoc, ← List.cons_append] at htext
      have hstar := h.getElem?
      have hlength : ('*' :: (blanks ++ name)).length = 1 + blanks.length + name.length := by
        rw [List.length_cons, List.length_append]
        omega
      rw [getElem?_eq_of_drop htext hlt.le (by omega)] at hstar
      obtain ⟨d, hd⟩ : ∃ d, s.position - t.position = d + 1 := Nat.exists_eq_add_one.mpr (by omega)
      rw [hd, List.getElem?_cons_succ] at hstar
      rcases List.mem_append.mp (List.mem_of_getElem? hstar) with hmem | hmem
      · exact absurd (hblanks _ hmem) (by decide)
      · exact absurd (hname.word _ hmem) (by decide +kernel)

/-! ## Arrows -/

/-- Every text ends with a run of a class of characters, perhaps an empty one. -/
theorem exists_run (p : Char → Bool) (cs : List Char) :
    ∃ before run, cs = before ++ run ∧ (∀ c ∈ run, p c = true) ∧
      ∀ c ∈ before.getLast?, p c = false := by
  induction cs using List.reverseRecOn with
  | nil => exact ⟨[], [], rfl, by simp, by simp⟩
  | append_singleton cs c ih =>
      cases hc : p c with
      | true =>
          obtain ⟨before, run, rfl, hrun, hbefore⟩ := ih
          refine ⟨before, run ++ [c], List.append_assoc _ _ _, ?_, hbefore⟩
          intro d hd
          rcases List.mem_append.mp hd with hd | hd
          · exact hrun d hd
          · rw [List.mem_singleton.mp hd]
            exact hc
      | false =>
          refine ⟨cs ++ [c], [], (List.append_nil _).symm, by simp, ?_⟩
          intro d hd
          rw [List.getLast?_concat] at hd
          cases hd
          exact hc

/-- Between the beginning of its run and a name, no name begins. -/
theorem Arrowed.first (h : Arrowed text s) (hlt : i < s.position)
    (hword : ∀ j d, i ≤ j → j < s.position → text[j]? = some d → isWord d = true) {d : Char}
    (hd : text[i]? = some d) : isNameStart d = false := by
  cases h with
  | @intro before stem name blanks rest hbefore hstem _ _ =>
      dsimp only at hlt hword
      rcases Nat.lt_or_ge i before.length with hi | hi
      · -- the run would go on in front of where it begins
        obtain ⟨e, he⟩ : ∃ e, before.getLast? = some e := by
          rw [← Option.isSome_iff_exists, List.getLast?_isSome]
          rintro rfl
          cases hi
        have hlast := hword (before.length - 1) e (by omega) (by omega)
          (by rw [List.getElem?_append_left (by omega), ← List.getLast?_eq_getElem?, he])
        rw [hbefore e he] at hlast
        cases hlast
      · rw [List.getElem?_append_right hi, List.getElem?_append_left (by omega)] at hd
        exact (hstem d (List.mem_of_getElem? hd)).2

/-- Neither does one begin in what an arrow takes behind its name. -/
theorem not_isNameStart_behind {blanks : List Char} {c : Char}
    (hblanks : ∀ c ∈ blanks, isBlank c = true) (hc : c ∈ blanks ++ ['-', '>']) :
    isNameStart c = false := by
  rcases List.mem_append.mp hc with hc | hc
  · exact isNameStart_of_isBlank (hblanks c hc)
  · simp only [List.mem_cons, List.not_mem_nil, or_false] at hc
    rcases hc with rfl | rfl <;> decide

/-- What an arrow takes earlier in the text ends in front of the name. -/
theorem le_of_arrowShape {taken : Nat} {name : List Char} (h : Arrowed text s)
    (hlt : i < s.position) (hshape : arrowShape (text.drop i) = some (taken, name)) :
    i + taken ≤ s.position := by
  obtain ⟨blanks, rest, htext, hblanks, hname, rfl⟩ := arrowShape_eq_some_iff.mp hshape
  by_contra hinside
  obtain ⟨c, hc, hstart⟩ := h.getElem?
  have hin : s.position < i + name.length := by
    by_contra hbehind
    have htail : text.drop (i + name.length) = (blanks ++ ['-', '>']) ++ rest := by
      rw [← List.drop_drop, htext, List.drop_left, List.append_assoc]
      rfl
    rw [getElem?_eq_of_drop htail (by omega) (by simp; omega)] at hc
    rw [not_isNameStart_behind hblanks (List.mem_of_getElem? hc)] at hstart
    cases hstart
  -- so both are in one run, and the name taken begins earlier in it
  obtain ⟨d, ds, rfl, hd⟩ := hname.exists_cons
  have hfirst : text[i]? = some d := by
    rw [getElem?_eq_of_drop htext (Nat.le_refl i) (by simp)]
    simp
  have hword : ∀ j e, i ≤ j → j < s.position → text[j]? = some e → isWord e = true := by
    intro j e hij hjs he
    rw [getElem?_eq_of_drop htext hij (by omega)] at he
    exact hname.word e (List.mem_of_getElem? he)
  rw [h.first hlt hword hfirst] at hd
  cases hd

theorem Arrowed.mem_scan (h : Arrowed text s) : s ∈ scan arrowShape 0 0 text := by
  refine (mem_scan_iff rfl List.drop_zero).mpr ⟨Nat.zero_le _, ?_, ?_⟩
  · cases h with
    | intro _ _ hname hblanks =>
        rw [← List.append_assoc, List.drop_left' List.length_append]
        exact ⟨_, arrowShape_eq_some_iff.mpr ⟨_, _, rfl, hblanks, hname, rfl⟩⟩
  · intro t _ hlt taken name hshape
    exact le_of_arrowShape h hlt hshape

/-- Where a name may begin earlier in its run, that is its site. -/
theorem Arrowed.earlier {before left right name blanks : List Char} {c : Char}
    (hbefore : ∀ d ∈ before.getLast?, isWord d = false)
    (hrun : ∀ d ∈ left ++ c :: right, isWord d = true)
    (hleft : ∀ d ∈ left, isNameStart d = false) (hc : isNameStart c = true)
    (hname : NameBefore name (blanks ++ '-' :: '>' :: rest))
    (hblanks : ∀ d ∈ blanks, isBlank d = true) :
    Arrowed (before ++ (left ++ c :: right) ++ (name ++ (blanks ++ '-' :: '>' :: rest)))
      ⟨before.length + left.length, c :: (right ++ name)⟩ := by
  have hwhole : NameBefore (c :: (right ++ name)) (blanks ++ '-' :: '>' :: rest) := by
    refine ⟨⟨c, rfl, hc⟩, ?_, hname.ends⟩
    intro d hd
    rw [← List.cons_append, List.mem_append] at hd
    rcases hd with hd | hd
    · exact hrun d (List.mem_append_right _ hd)
    · exact hname.word d hd
  have harrowed := Arrowed.intro hbefore
    (fun d hd => ⟨hrun d (List.mem_append_left _ hd), hleft d hd⟩) hwhole hblanks
  simpa using harrowed

/-- An arrow is found from the first place of its run where a name may begin, and from no other. -/
theorem mem_scan_arrowShape_iff : s ∈ scan arrowShape 0 0 text ↔ Arrowed text s := by
  refine ⟨?_, Arrowed.mem_scan⟩
  intro h
  obtain ⟨-, ⟨taken, hshape⟩, hfree⟩ := (mem_scan_iff rfl List.drop_zero).mp h
  obtain ⟨blanks, rest, htext, hblanks, hname, -⟩ := arrowShape_eq_some_iff.mp hshape
  obtain ⟨pre, rfl, hposition⟩ := exists_before htext (by simp)
  obtain ⟨before, stem, rfl, hstem, hbefore⟩ := exists_run isWord pre
  have hlater : ∀ c ∈ stem, isNameStart c = false := by
    by_contra hnot
    have hsome : (stem.find? isNameStart).isSome = true := by
      rw [List.find?_isSome]
      simpa using hnot
    obtain ⟨c, hc⟩ := Option.isSome_iff_exists.mp hsome
    obtain ⟨hstart, left, right, rfl, hleft⟩ := List.find?_eq_some_iff_append.mp hc
    -- the search would have come by there first, and taken the whole name
    have hearlier := (Arrowed.earlier hbefore hstem (fun d hd => by simpa using hleft d hd) hstart
      hname hblanks).mem_scan
    obtain ⟨-, ⟨taken', hshape'⟩, -⟩ := (mem_scan_iff rfl List.drop_zero).mp hearlier
    obtain ⟨_, _, -, -, -, htaken⟩ := arrowShape_eq_some_iff.mp hshape'
    rw [List.length_append, List.length_append, List.length_cons] at hposition
    have hlt : before.length + left.length < s.position := by omega
    have hle : before.length + left.length + taken' ≤ s.position :=
      hfree _ hearlier hlt taken' _ hshape'
    rw [List.length_cons, List.length_append] at htaken
    omega
  rw [List.length_append] at hposition
  rw [List.append_assoc]
  obtain ⟨position, name⟩ := s
  cases hposition
  exact .intro hbefore (fun c hc => ⟨hstem c hc, hlater c hc⟩) hname hblanks

theorem position_ne_of_starred (hs : Starred text s) (ht : Arrowed text t) :
    s.position ≠ t.position := by
  intro h
  obtain ⟨c, hc, hstart⟩ := ht.getElem?
  rw [← h, hs.getElem?] at hc
  cases hc
  exact absurd hstart (by decide)

end

/-! ## Both searches together -/

section

variable {s t : Site} {ss ts : List Site}

theorem mem_insertSite : t ∈ insertSite s ts ↔ t = s ∨ t ∈ ts := by
  induction ts with
  | nil => simp [insertSite]
  | cons u ts ih =>
      unfold insertSite
      split
      · exact List.mem_cons
      · rw [List.mem_cons, ih, List.mem_cons]
        exact or_left_comm

theorem pairwise_insertSite (hts : ts.Pairwise fun s t => s.position < t.position)
    (hs : ∀ t ∈ ts, t.position ≠ s.position) :
    (insertSite s ts).Pairwise fun s t => s.position < t.position := by
  induction ts with
  | nil => exact List.pairwise_singleton _ s
  | cons u ts ih =>
      obtain ⟨hu, hts⟩ := List.pairwise_cons.mp hts
      unfold insertSite
      split
      · rename_i hlt
        refine .cons ?_ (.cons hu hts)
        intro t ht
        rcases List.mem_cons.mp ht with rfl | ht
        · exact hlt
        · exact Nat.lt_trans hlt (hu t ht)
      · rename_i hge
        refine .cons ?_ (ih hts fun t ht => hs t (List.mem_cons_of_mem _ ht))
        intro t ht
        rcases mem_insertSite.mp ht with rfl | ht
        · exact Nat.lt_of_le_of_ne (Nat.le_of_not_lt hge) (hs u List.mem_cons_self)
        · exact hu t ht

theorem mem_foldr_insertSite : t ∈ ss.foldr insertSite ts ↔ t ∈ ss ∨ t ∈ ts := by
  induction ss with
  | nil => simp
  | cons s ss ih => rw [List.foldr_cons, mem_insertSite, ih, List.mem_cons, or_assoc]

theorem pairwise_foldr_insertSite (hss : ss.Pairwise fun s t => s.position < t.position)
    (hts : ts.Pairwise fun s t => s.position < t.position)
    (hne : ∀ s ∈ ss, ∀ t ∈ ts, t.position ≠ s.position) :
    (ss.foldr insertSite ts).Pairwise fun s t => s.position < t.position := by
  induction ss with
  | nil => exact hts
  | cons s ss ih =>
      obtain ⟨hs, hss⟩ := List.pairwise_cons.mp hss
      refine pairwise_insertSite (ih hss fun u hu => hne u (List.mem_cons_of_mem _ hu)) ?_
      intro t ht
      rcases mem_foldr_insertSite.mp ht with ht | ht
      · exact (hs t ht).ne'
      · exact hne s List.mem_cons_self t ht

end

theorem mem_sites_iff {text : List Char} {s : Site} :
    s ∈ sites text ↔ Starred text s ∨ Arrowed text s := by
  unfold sites
  rw [mem_foldr_insertSite, mem_scan_starShape_iff, mem_scan_arrowShape_iff]
  exact or_comm

theorem pairwise_sites (text : List Char) :
    (sites text).Pairwise fun s t => s.position < t.position := by
  refine pairwise_foldr_insertSite (pairwise_scan _ _ _ _) (pairwise_scan _ _ _ _) ?_
  intro s hs t ht
  exact position_ne_of_starred (mem_scan_starShape_iff.mp ht) (mem_scan_arrowShape_iff.mp hs)

end Dereference

/-- **Dereferences are found place by place.** The names dereferenced in a text are those of its
sites, in the order of their places and each once: every star with a name behind it, and every run
of characters of names with an arrow behind it, from the first of them on that a name may begin
with. None is hidden by another. -/
theorem dereference_sites_exact (text : String) :
    ∃ found : List Dereference.Site,
      Dereference.names text = found.map (fun s => String.ofList s.name) ∧
      found.Pairwise (fun s t => s.position < t.position) ∧
      ∀ s, s ∈ found ↔
        Dereference.Starred text.toList s ∨ Dereference.Arrowed text.toList s := by
  refine ⟨Dereference.sites text.toList, rfl, Dereference.pairwise_sites _, ?_⟩
  intro s
  exact Dereference.mem_sites_iff

end NullSafety
