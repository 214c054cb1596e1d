/-!
Character classes given by tables of code points. A table is a list of ranges, both ends
included, in increasing order and without overlap. `inRanges_iff` says that the search, which
relies on that order, misses nothing.
-/

namespace NullSafety.Text

/-- Whether a code point lies in a range of the table. The search stops at the first range that
begins above it. -/
def inRanges (code : Nat) : List (Nat × Nat) → Bool
  | [] => false
  | (lo, hi) :: rest =>
    if code < lo then false
    else if code ≤ hi then true
    else inRanges code rest

/-- The ranges are in increasing order, none is empty, and no two overlap. -/
def increasing : List (Nat × Nat) → Bool
  | [] => true
  | [(lo, hi)] => lo ≤ hi
  | (lo, hi) :: (lo', hi') :: rest => lo ≤ hi && hi < lo' && increasing ((lo', hi') :: rest)

theorem increasing_tail {r : Nat × Nat} {table : List (Nat × Nat)}
    (h : increasing (r :: table) = true) : increasing table = true := by
  cases table with
  | nil => rfl
  | cons s rest =>
    simp only [increasing, Bool.and_eq_true] at h
    exact h.2

theorem lt_of_increasing {r s : Nat × Nat} {table : List (Nat × Nat)}
    (h : increasing (r :: table) = true) (hs : s ∈ table) : r.2 < s.1 := by
  induction table generalizing r with
  | nil => exact absurd hs List.not_mem_nil
  | cons t rest ih =>
    have ht : r.2 < t.1 := by
      simp only [increasing, Bool.and_eq_true, decide_eq_true_eq] at h
      exact h.1.2
    rcases List.mem_cons.mp hs with rfl | hs
    · exact ht
    · have hle : t.1 ≤ t.2 := by
        have h' := increasing_tail h
        cases rest with
        | nil => simpa [increasing] using h'
        | cons u us =>
          simp only [increasing, Bool.and_eq_true, decide_eq_true_eq] at h'
          exact h'.1.1
      have := ih (increasing_tail h) hs
      omega

theorem inRanges_iff {code : Nat} {table : List (Nat × Nat)} (h : increasing table = true) :
    inRanges code table = true ↔ ∃ r ∈ table, r.1 ≤ code ∧ code ≤ r.2 := by
  induction table with
  | nil => simp [inRanges]
  | cons r rest ih =>
    have hle : r.1 ≤ r.2 := by
      cases rest with
      | nil => simpa [increasing] using h
      | cons s ss =>
        simp only [increasing, Bool.and_eq_true, decide_eq_true_eq] at h
        exact h.1.1
    rw [inRanges]
    split
    · rename_i hlt
      refine ⟨fun hf => absurd hf (by simp), ?_⟩
      rintro ⟨s, hs, hlo, hhi⟩
      rcases List.mem_cons.mp hs with rfl | hs
      · omega
      · have := lt_of_increasing h hs
        omega
    · split
      · rename_i hlo hhi
        exact ⟨fun _ => ⟨r, List.mem_cons_self, by omega, hhi⟩, fun _ => rfl⟩
      · rename_i hlo hhi
        rw [ih (increasing_tail h)]
        refine ⟨fun ⟨s, hs, hb⟩ => ⟨s, List.mem_cons_of_mem _ hs, hb⟩, ?_⟩
        rintro ⟨s, hs, hb⟩
        rcases List.mem_cons.mp hs with rfl | hs
        · omega
        · exact ⟨s, hs, hb⟩

end NullSafety.Text
