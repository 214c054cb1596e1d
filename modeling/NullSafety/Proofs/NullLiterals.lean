import Mathlib.Data.List.TakeWhile
import Mathlib.Logic.Relation
import NullSafety.Options

/-!
# Spellings of the null pointer

Spellings of the null pointer are taken from the environment, as a list with commas between them.
Blanks do not count, neither in the list nor in a text that is compared with it. There are three
ways in which that may be done: cutting blanks off at the ends, putting the words of a text
together, and leaving the blanks out one by one. They agree on which texts have nothing but blanks
in them, and the last two on what is left of a text.
-/

namespace NullSafety

namespace Text

/-! ## Leaving out the blanks -/

/-- The runs of characters between blanks. -/
def words (cs : List Char) : List (List Char) := (cs.splitOnP isBlank).filter (· ≠ [])

theorem toList_removeBlanks (s : String) :
    (removeBlanks s).toList = s.toList.filter fun c => !isBlank c := by
  simp [removeBlanks]

theorem removeBlanks_ofList (cs : List Char) :
    removeBlanks (String.ofList cs) = String.ofList (cs.filter fun c => !isBlank c) := by
  simp [removeBlanks]

theorem flatten_splitOnP (p : Char → Bool) (cs : List Char) :
    (cs.splitOnP p).flatten = cs.filter fun c => !p c := by
  induction cs with
  | nil => rfl
  | cons c cs ih =>
      rw [List.splitOnP_cons_eq_if_modifyHead]
      cases hc : p c with
      | true => simpa [hc] using ih
      | false =>
          cases hparts : cs.splitOnP p with
          | nil => exact absurd hparts (List.splitOnP_ne_nil p cs)
          | cons part parts =>
              rw [hparts] at ih
              simpa [hc] using ih

theorem flatten_words (cs : List Char) : (words cs).flatten = cs.filter fun c => !isBlank c := by
  unfold words
  rw [List.flatten_filter_ne_nil, flatten_splitOnP]

theorem removeBlanks_eq_words (s : String) :
    removeBlanks s = String.ofList (words s.toList).flatten := by
  rw [flatten_words, ← removeBlanks_ofList, String.ofList_toList]

theorem trimList_eq_nil_iff {drop : Char → Bool} {cs : List Char} :
    trimList drop cs = [] ↔ cs.filter (fun c => !drop c) = [] := by
  rw [trimList, List.reverse_eq_nil_iff, List.dropWhile_eq_nil_iff, List.filter_eq_nil_iff]
  simp only [List.mem_reverse, Bool.not_eq_true', Bool.not_eq_false]
  constructor
  · -- what is left at the front begins with a character that is not dropped
    intro h
    have hnone : ((cs.dropWhile drop).any fun c => !drop c) = false := by
      rw [List.any_eq_false]
      intro c hc
      simp [h c hc]
    rw [List.any_dropWhile, Bool.not_eq_false'] at hnone
    exact List.all_eq_true.mp hnone
  · intro h c hc
    exact h c ((List.dropWhile_sublist drop).subset hc)

theorem trim_eq_empty_iff {s : String} : trim s = "" ↔ removeBlanks s = "" := by
  rw [← String.toList_eq_nil_iff, ← String.toList_eq_nil_iff, toList_removeBlanks,
    ← trimList_eq_nil_iff, trim, String.toList_ofList]

/-! ## Respacing -/

/-- The second text is the first with one blank put in. -/
def BlankAdded (s t : String) : Prop :=
  ∃ before c after, isBlank c = true ∧ s.toList = before ++ after ∧ t.toList = before ++ c :: after

/-- One text becomes the other when blanks are put in and taken out. -/
def Respaced : String → String → Prop := Relation.EqvGen BlankAdded

theorem Respaced.removeBlanks_eq {s t : String} (h : Respaced s t) :
    removeBlanks s = removeBlanks t := by
  induction h with
  | rel s t h =>
      obtain ⟨before, c, after, hc, hs, ht⟩ := h
      rw [← String.toList_inj, toList_removeBlanks, toList_removeBlanks, hs, ht,
        List.filter_append, List.filter_append, List.filter_cons_of_neg (by simp [hc])]
  | refl s => rfl
  | symm s t _ ih => exact ih.symm
  | trans s t u _ _ ih ih' => exact ih.trans ih'

/-! ## Parts between separators -/

theorem fields_eq_splitOn (separator : Char) (cs : List Char) :
    fields separator cs = cs.splitOn separator := by
  induction cs with
  | nil => rfl
  | cons c cs ih =>
      rw [fields, List.splitOn_cons_eq_if_modifyHead, ih]
      by_cases hc : c = separator
      · rw [if_pos hc, if_pos (beq_iff_eq.mpr hc)]
      · rw [if_neg hc, if_neg (mt beq_iff_eq.mp hc)]
        cases hparts : cs.splitOn separator with
        | nil => exact absurd hparts (List.splitOn_ne_nil separator cs)
        | cons part parts => rfl

/-- What is kept can be chosen before or after the text is cut, if the separator is kept. -/
theorem splitOn_filter {keep : Char → Bool} {separator : Char} (h : keep separator = true)
    (cs : List Char) :
    (cs.filter keep).splitOn separator = (cs.splitOn separator).map (List.filter keep) := by
  induction cs with
  | nil => rfl
  | cons c cs ih =>
      by_cases hc : c = separator
      · subst hc
        rw [List.filter_cons_of_pos h, List.splitOn_cons_eq_if_modifyHead,
          List.splitOn_cons_eq_if_modifyHead, if_pos BEq.rfl, if_pos BEq.rfl, ih]
        rfl
      · rw [List.splitOn_cons_eq_if_modifyHead c cs, if_neg (mt beq_iff_eq.mp hc)]
        cases hparts : cs.splitOn separator with
        | nil => exact absurd hparts (List.splitOn_ne_nil separator cs)
        | cons part parts =>
            rw [hparts] at ih
            cases hkeep : keep c with
            | true =>
                rw [List.filter_cons_of_pos hkeep, List.splitOn_cons_eq_if_modifyHead,
                  if_neg (mt beq_iff_eq.mp hc), ih]
                simp [hkeep]
            | false =>
                rw [List.filter_cons_of_neg (by simp [hkeep]), ih]
                simp [hkeep]

end Text

namespace Options

theorem nullLiterals_ofEnvironment {env : Environment} {raw : String}
    (h : env.lookup "NULLFLOW_NULL_LITERALS" = some raw) (hne : raw ≠ "") :
    (ofEnvironment env).1.nullLiterals = readLiterals raw := by
  unfold ofEnvironment
  simp [h, hne]

theorem mem_readLiterals {raw s : String} :
    s ∈ readLiterals raw ↔
      s ≠ "" ∧ ∃ part ∈ raw.toList.splitOn ',', Text.removeBlanks (String.ofList part) = s := by
  unfold readLiterals
  rw [List.mem_filter, List.mem_map, Text.fields_eq_splitOn, decide_eq_true_iff, and_comm]

/-- The empty text needs no case of its own: nothing is left of it. -/
theorem isNullLiteral_iff {o : Options} (h : "" ∉ o.nullLiterals) {t : String} :
    o.isNullLiteral t = true ↔ Text.removeBlanks t ∈ o.nullLiterals := by
  unfold isNullLiteral
  rw [Bool.and_eq_true, decide_eq_true_iff, List.contains_iff_mem]
  refine and_iff_right_of_imp fun ht => ?_
  rintro rfl
  exact h ht

/-- The blanks may go first, and then the list is cut. -/
theorem readLiterals_eq (raw : String) :
    readLiterals raw =
      (((Text.removeBlanks raw).toList.splitOn ',').map String.ofList).filter (· ≠ "") := by
  unfold readLiterals
  rw [Text.fields_eq_splitOn, Text.toList_removeBlanks, Text.splitOn_filter (by decide),
    List.map_map]
  refine congrArg (List.filter _) (List.map_congr_left fun part _ => ?_)
  exact Text.removeBlanks_ofList part

theorem readLiterals_intercalate {spellings : List String} (hne : spellings ≠ [])
    (h : ∀ s ∈ spellings, s ≠ "" ∧ ',' ∉ s.toList ∧ s.toList.any Text.isBlank = false) :
    readLiterals (",".intercalate spellings) = spellings := by
  have hbare : ∀ s ∈ spellings, s.toList.filter (fun c => !Text.isBlank c) = s.toList := by
    intro s hs
    rw [List.filter_eq_self]
    intro c hc
    have hc := List.any_eq_false.mp (h s hs).2.2 c hc
    simpa using hc
  have hcut : (",".intercalate spellings).toList.splitOn ',' = spellings.map String.toList := by
    rw [String.toList_intercalate]
    refine List.splitOn_intercalate ',' ?_ (by simpa using hne)
    intro part hpart hcomma
    obtain ⟨s, hs, rfl⟩ := List.mem_map.mp hpart
    exact (h s hs).2.1 hcomma
  have hparts : (Text.removeBlanks (",".intercalate spellings)).toList.splitOn ',' =
      spellings.map String.toList := by
    rw [Text.toList_removeBlanks, Text.splitOn_filter (by decide), hcut, List.map_map]
    exact List.map_congr_left hbare
  rw [readLiterals_eq, hparts, List.map_map]
  simp only [Function.comp_def, String.ofList_toList, List.map_id']
  rw [List.filter_eq_self]
  intro s hs
  exact decide_eq_true (h s hs).1

/-- The same list from the words of those parts that have something between the blanks at their
ends. -/
theorem readLiterals_eq_words (raw : String) :
    readLiterals raw = ((raw.toList.splitOn ',').filter fun part =>
      Text.trim (String.ofList part) ≠ "").map fun part =>
        String.ofList (Text.words part).flatten := by
  unfold readLiterals
  rw [Text.fields_eq_splitOn, List.filter_map]
  simp only [Text.flatten_words, ← Text.removeBlanks_ofList]
  refine congrArg (List.map _) (List.filter_congr fun part _ => ?_)
  simp only [Function.comp_apply, ne_eq, Text.trim_eq_empty_iff]

end Options

/-- **Spellings of the null pointer match regardless of spacing.** If the environment gives a list
of spellings that is not empty, a text spells the null pointer exactly if something is left of it
without its blanks, and that is what is left of some part of the list. So blanks may be put in and
taken out, in the text or in the list. Any spellings that are not empty and have no comma and no
blank in them can be given: joined with commas, they are the ones that are read. And it makes no
difference to the list or the text by which of the three ways the blanks are dealt with. -/
theorem null_literals_ignore_spacing (env : Environment) (raw : String)
    (hraw : env.lookup "NULLFLOW_NULL_LITERALS" = some raw) (hne : raw ≠ "") :
    let o := (Options.ofEnvironment env).1
    (∀ t, o.isNullLiteral t = true ↔ Text.removeBlanks t ≠ "" ∧
      ∃ part ∈ raw.toList.splitOn ',',
        Text.removeBlanks (String.ofList part) = Text.removeBlanks t) ∧
    (∀ t t', Text.Respaced t t' → o.isNullLiteral t = o.isNullLiteral t') ∧
    (∀ env' raw', env'.lookup "NULLFLOW_NULL_LITERALS" = some raw' → raw' ≠ "" →
      Text.Respaced raw raw' →
      ∀ t, (Options.ofEnvironment env').1.isNullLiteral t = o.isNullLiteral t) ∧
    (∀ spellings : List String, spellings ≠ [] →
      (∀ s ∈ spellings, s ≠ "" ∧ ',' ∉ s.toList ∧ s.toList.any Text.isBlank = false) →
      raw = ",".intercalate spellings → o.nullLiterals = spellings) ∧
    (o.nullLiterals = ((raw.toList.splitOn ',').filter fun part =>
      Text.trim (String.ofList part) ≠ "").map fun part =>
        String.ofList (Text.words part).flatten) ∧
    ∀ t, o.isNullLiteral t =
      (t ≠ "" && o.nullLiterals.contains (String.ofList (Text.words t.toList).flatten)) := by
  intro o
  have hliterals : o.nullLiterals = Options.readLiterals raw :=
    Options.nullLiterals_ofEnvironment hraw hne
  have hiff : ∀ t, o.isNullLiteral t = true ↔ Text.removeBlanks t ∈ Options.readLiterals raw := by
    intro t
    rw [← hliterals]
    apply Options.isNullLiteral_iff
    rw [hliterals, Options.mem_readLiterals]
    exact fun h => h.1 rfl
  refine ⟨?_, ?_, ?_, ?_, ?_, ?_⟩
  · intro t
    rw [hiff, Options.mem_readLiterals]
  · intro t t' h
    rw [Bool.eq_iff_iff, hiff, hiff, h.removeBlanks_eq]
  · intro env' raw' hraw' hne' h t
    have hsame : (Options.ofEnvironment env').1.nullLiterals = o.nullLiterals := by
      rw [Options.nullLiterals_ofEnvironment hraw' hne', hliterals, Options.readLiterals_eq,
        Options.readLiterals_eq, h.removeBlanks_eq]
    unfold Options.isNullLiteral
    rw [hsame]
  · rintro spellings hspellings h rfl
    rw [hliterals, Options.readLiterals_intercalate hspellings h]
  · rw [hliterals, Options.readLiterals_eq_words]
  · intro t
    rw [← Text.removeBlanks_eq_words]
    rfl

/-- A list with wide blanks, a blank part, and a spelling with blanks in it. -/
def spacedList : String := " NIL ,\u3000,( void\t*) 0"

def spacedEnvironment : Environment :=
  [("NULLFLOW_REPORT_RETURNS", "off"), ("NULLFLOW_NULL_LITERALS", spacedList)]

theorem null_literals_ignore_spacing_spacedList :
    let o := (Options.ofEnvironment spacedEnvironment).1
    let p := (Options.ofEnvironment [("NULLFLOW_NULL_LITERALS", "NIL,nil")]).1
    o.isNullLiteral "(void*)\u00a00" = true ∧ o.isNullLiteral " " = false ∧
      o.isNullLiteral "NIL" = o.isNullLiteral "N IL" ∧ p.nullLiterals = ["NIL", "nil"] := by
  intro o p
  have hlist : spacedEnvironment.lookup "NULLFLOW_NULL_LITERALS" = some spacedList := by decide
  have hplain : List.lookup "NULLFLOW_NULL_LITERALS" [("NULLFLOW_NULL_LITERALS", "NIL,nil")] =
      some "NIL,nil" := by decide
  obtain ⟨hexact, hrespaced, -⟩ :=
    null_literals_ignore_spacing spacedEnvironment spacedList hlist (by decide)
  obtain ⟨-, -, -, hrestored, -⟩ := null_literals_ignore_spacing _ "NIL,nil" hplain (by decide)
  refine ⟨?_, ?_, ?_, ?_⟩
  · rw [hexact]
    exact ⟨by decide +kernel, "( void\t*) 0".toList, by decide +kernel, by decide +kernel⟩
  · rw [Bool.eq_false_iff, Ne, hexact]
    exact fun h => h.1 (by decide +kernel)
  · apply hrespaced
    exact .rel _ _ ⟨['N'], ' ', ['I', 'L'], by decide, by decide, by decide⟩
  · exact hrestored ["NIL", "nil"] (by decide) (by decide +kernel) (by decide +kernel)

end NullSafety
