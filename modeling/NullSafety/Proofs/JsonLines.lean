import Mathlib.Data.List.Induction
import NullSafety.Proofs.JsonReading
import NullSafety.Report.Line

/-!
# Findings as lines of JSON

A value printed on one line is printed in printable ASCII characters, whatever the texts in it are,
so that the lines of several findings can be told apart. Each line is read as the object of its
finding: sorting the members by their keys loses none, and no key stands in an object twice. There
are no lines at all if one number in the findings has too many digits to be written.
-/

namespace NullSafety

namespace Json

/-! ## One line -/

/-- Nothing but printable ASCII characters. -/
def Printable (text : List Char) : Prop := ∀ c ∈ text, 0x20 ≤ c.toNat ∧ c.toNat ≤ 0x7e

instance : DecidablePred Printable := fun text =>
  decidable_of_iff (text.all fun c => decide (0x20 ≤ c.toNat ∧ c.toNat ≤ 0x7e)) (by
    simp only [List.all_eq_true, decide_eq_true_eq, Printable])

namespace Printable

theorem append {a b : List Char} (ha : Printable a) (hb : Printable b) : Printable (a ++ b) := by
  intro c hc
  rcases List.mem_append.mp hc with hc | hc
  · exact ha c hc
  · exact hb c hc

theorem flatMap {α : Type} {items : List α} {f : α → List Char}
    (h : ∀ item ∈ items, Printable (f item)) : Printable (items.flatMap f) := by
  intro c hc
  obtain ⟨item, hitem, hc⟩ := List.mem_flatMap.mp hc
  exact h item hitem c hc

theorem nil : Printable [] := fun _ hc => absurd hc List.not_mem_nil

theorem intercalate {sep : List Char} (hsep : Printable sep) {texts : List (List Char)}
    (h : ∀ text ∈ texts, Printable text) : Printable (sep.intercalate texts) := by
  cases texts with
  | nil =>
      rw [List.intercalate_nil]
      exact nil
  | cons text texts =>
      rw [intercalate_cons]
      refine (h text List.mem_cons_self).append (.flatMap fun next hnext => ?_)
      exact hsep.append (h next (List.mem_cons_of_mem text hnext))

theorem newline_notMem {text : List Char} (h : Printable text) : '\n' ∉ text := fun hmem =>
  absurd (h '\n' hmem).1 (by decide)

end Printable

theorem printable_hexDigits (width value : Nat) : Printable (Text.hexDigits width value) := by
  have hdigit : ∀ d < 16, Printable ["0123456789abcdef".toList.getD d '0'] := by decide
  induction width generalizing value with
  | zero => exact .nil
  | succ width ih =>
      exact (ih (value / 16)).append (hdigit (value % 16) (Nat.mod_lt value (by decide)))

theorem printable_unitEscape (u : Nat) : Printable (unitEscape u) := by
  have hmark : Printable ['\\', 'u'] := by decide
  exact hmark.append (printable_hexDigits 4 u)

theorem printable_escapeChar (c : Char) : Printable (escapeChar c) := by
  unfold escapeChar
  split_ifs with hquote hslash hline hreturn htab hback hfeed hplain hplane
  · decide
  · decide
  · decide
  · decide
  · decide
  · decide
  · decide
  · intro d hd
    rwa [List.mem_singleton.mp hd]
  · exact printable_unitEscape _
  · exact (printable_unitEscape _).append (printable_unitEscape _)

theorem printable_quoteString (s : String) : Printable (quoteString s).toList := by
  have hquote : Printable ['"'] := by decide
  rw [quoteString, String.toList_ofList]
  exact (hquote.append (.flatMap fun c _ => printable_escapeChar c)).append hquote

theorem printable_toDigits (n : Nat) : Printable (Nat.toDigits 10 n) := by
  intro c hc
  have hdigit := isDigit_of_mem_toDigits hc
  simp only [Char.isDigit, Bool.and_eq_true, decide_eq_true_eq] at hdigit
  have hlow : 48 ≤ c.toNat := hdigit.1
  have hhigh : c.toNat ≤ 57 := hdigit.2
  omega

theorem printable_toString (n : Int) : Printable (toString n).toList := by
  cases n with
  | ofNat n =>
      rw [toList_toString_ofNat]
      exact printable_toDigits n
  | negSucc n =>
      have hminus : Printable ['-'] := by decide
      rw [toList_toString_negSucc]
      exact hminus.append (printable_toDigits (n + 1))

theorem printable_oneLine {opening closing : String} (hopening : Printable opening.toList)
    (hclosing : Printable closing.toList) (depth : Nat) {items : List String}
    (h : ∀ text ∈ items, Printable text.toList) :
    Printable (oneLine opening closing depth items).toList := by
  have hsep : Printable ", ".toList := by decide
  unfold oneLine
  rw [String.toList_append, String.toList_append, String.toList_intercalate]
  exact (hopening.append (hsep.intercalate (List.forall_mem_map.mpr h))).append hclosing

/-- Every text in a value is escaped: the value stands on one line. -/
theorem printInvariant_printable :
    PrintInvariant oneLine fun _ text => Printable text.toList where
  null := by decide
  bool := by decide
  int := printable_toString
  str := printable_quoteString
  arr depth items texts hitems :=
    printable_oneLine (by decide) (by decide) depth
      (forall_mem_of_forall₂ hitems fun _ _ htext => htext)
  obj depth members texts hmembers := by
    have hcolon : Printable ": ".toList := by decide
    refine printable_oneLine (by decide) (by decide) depth (forall_mem_of_forall₂ hmembers ?_)
    rintro m _ ⟨value, hvalue, rfl⟩
    rw [String.toList_append, String.toList_append]
    exact ((printable_quoteString m.1).append hcolon).append hvalue

/-- Texts on one line each are the lines of what they are joined to. -/
theorem splitOn_intercalate_of_printable {lines : List String} (hne : lines ≠ [])
    (h : ∀ line ∈ lines, Printable line.toList) :
    ("\n".intercalate lines).toList.splitOn '\n' = lines.map String.toList := by
  rw [String.toList_intercalate]
  refine List.splitOn_intercalate '\n' ?_ (mt List.map_eq_nil_iff.mp hne)
  exact List.forall_mem_map.mpr fun line hline => (h line hline).newline_notMem

/-! ## Members in order -/

theorem perm_insertMember (m : String × Json) (ms : List (String × Json)) :
    (insertMember m ms).Perm (m :: ms) := by
  induction ms with
  | nil => exact .refl [m]
  | cons n ms ih =>
      unfold insertMember
      split
      · exact .refl _
      · exact (ih.cons n).trans (.swap m n ms)

theorem sorted_insertMember {m : String × Json} {ms : List (String × Json)}
    (h : ms.Pairwise fun a b => a.1 ≤ b.1) :
    (insertMember m ms).Pairwise fun a b => a.1 ≤ b.1 := by
  induction ms with
  | nil => exact List.pairwise_singleton _ m
  | cons n ms ih =>
      obtain ⟨hfirst, hrest⟩ := List.pairwise_cons.mp h
      unfold insertMember
      split
      · rename_i hlt
        refine List.pairwise_cons.mpr ⟨fun b hb => ?_, h⟩
        rcases List.mem_cons.mp hb with rfl | hb
        · exact hlt.le
        · exact hlt.le.trans (hfirst b hb)
      · rename_i hge
        refine List.pairwise_cons.mpr ⟨fun b hb => ?_, ih hrest⟩
        rcases List.mem_cons.mp ((perm_insertMember m ms).mem_iff.mp hb) with rfl | hb
        · exact not_lt.mp hge
        · exact hfirst b hb

theorem perm_sortMembers (ms : List (String × Json)) : (sortMembers ms).Perm ms := by
  induction ms using List.reverseRecOn with
  | nil => exact .refl []
  | append_singleton ms m ih =>
      rw [sortMembers, List.foldl_append]
      refine (perm_insertMember m (sortMembers ms)).trans ?_
      exact (ih.cons m).trans (List.perm_append_singleton m ms).symm

theorem sorted_sortMembers (ms : List (String × Json)) :
    (sortMembers ms).Pairwise fun a b => a.1 ≤ b.1 := by
  induction ms using List.reverseRecOn with
  | nil => exact .nil
  | append_singleton ms m ih =>
      rw [sortMembers, List.foldl_append]
      exact sorted_insertMember ih

/-- Members with different keys are sorted strictly. -/
theorem increasing_sortMembers {ms : List (String × Json)} (h : (ms.map Prod.fst).Nodup) :
    ((sortMembers ms).map Prod.fst).Pairwise (· < ·) := by
  have hnodup : ((sortMembers ms).map Prod.fst).Nodup :=
    ((perm_sortMembers ms).map Prod.fst).nodup_iff.mpr h
  refine ((List.pairwise_map.mpr (sorted_sortMembers ms)).and hnodup).imp ?_
  rintro a b ⟨hle, hne⟩
  exact lt_of_le_of_ne hle hne

end Json

/-! ## Findings -/

theorem Finding.nodup_keys (f : Finding) (function : Option String) :
    ((f.members function).map Prod.fst).Nodup := by
  cases f <;> cases function <;> simp [members, placeMembers]

theorem Finding.isSome_print?_nameJson (name : Option String) (depth : Nat) :
    ((nameJson name).print? Json.oneLine depth).isSome := by
  cases name <;> rfl

/-- A finding can be written as an object if its numbers can be written. -/
theorem Finding.isSome_jsonLine? (f : Finding) (function : Option String) :
    (f.jsonLine? function).isSome ↔ ∀ place ∈ f.place?,
      Text.isWritable place.node = true ∧ Text.isWritable place.line = true := by
  have hcwe : Text.isWritable cwe = true := by decide +kernel
  have hmembers : (f.jsonLine? function).isSome ↔
      ∀ m ∈ f.members function, (m.2.print? Json.oneLine 1).isSome := by
    rw [jsonLine?, Json.compact?, Json.isSome_print?_obj]
    simp only [(Json.perm_sortMembers _).mem_iff]
  rw [hmembers]
  cases f <;> cases function <;>
    simp [members, placeMembers, place?, isSome_print?_nameJson, hcwe]

/-- The lines of a text are those of its findings: no line has a line break in it. -/
theorem splitOn_of_jsonLines? {findings : List Finding} (hne : findings ≠ [])
    {function : Option String} {text : String} (h : jsonLines? findings function = some text) :
    List.Forall₂ (fun f line => ∃ s, f.jsonLine? function = some s ∧ line = s.toList)
      findings (text.toList.splitOn '\n') := by
  obtain ⟨lines, hlines, rfl⟩ := Option.map_eq_some_iff.mp h
  have hall := forall₂_of_mapM hlines
  have hprintable : ∀ line ∈ lines, Json.Printable line.toList :=
    forall_mem_of_forall₂ hall fun _ _ => Json.printInvariant_printable.of_print?
  have hlines_ne : lines ≠ [] := by
    rintro rfl
    exact hne (List.forall₂_nil_right_iff.mp hall)
  rw [Json.splitOn_intercalate_of_printable hlines_ne hprintable, List.forall₂_map_right_iff]
  exact hall.imp fun f s hs => ⟨s, hs, rfl⟩

/-- **Lines of JSON can be read back.** For every list of findings that is not empty, whatever texts
are in them, and in every function or none: if no number in them has too many digits, there is a
text with one line for each finding, and a line is read as an object with the members of its
finding, no key twice and the keys in order. If one number has too many, there is no text. -/
theorem json_lines_read_back (findings : List Finding) (function : Option String)
    (h : findings ≠ []) :
    ((∀ f ∈ findings, ∀ place ∈ f.place?,
        Text.isWritable place.node = true ∧ Text.isWritable place.line = true) →
      ∃ text, jsonLines? findings function = some text ∧
        (text.toList.splitOn '\n').length = findings.length ∧
        List.Forall₂ (fun f line => ∃ members, Json.read? line = some (.obj members) ∧
          members.Perm (f.members function) ∧ (members.map Prod.fst).Pairwise (· < ·))
          findings (text.toList.splitOn '\n')) ∧
    ((∃ f ∈ findings, ∃ place ∈ f.place?,
        Text.isWritable place.node = false ∨ Text.isWritable place.line = false) →
      jsonLines? findings function = none) := by
  have hsome : (jsonLines? findings function).isSome ↔ ∀ f ∈ findings, ∀ place ∈ f.place?,
      Text.isWritable place.node = true ∧ Text.isWritable place.line = true := by
    rw [jsonLines?, Option.isSome_map, isSome_mapM]
    simp only [Finding.isSome_jsonLine?]
  constructor
  · intro hwritable
    obtain ⟨text, htext⟩ := Option.isSome_iff_exists.mp (hsome.mpr hwritable)
    have hlines := splitOn_of_jsonLines? h htext
    refine ⟨text, htext, hlines.length_eq.symm, hlines.imp ?_⟩
    rintro f _ ⟨line, hline, rfl⟩
    exact ⟨_, Json.read?_of_compact? hline, Json.perm_sortMembers _,
      Json.increasing_sortMembers (f.nodup_keys function)⟩
  · rintro ⟨f, hf, place, hplace, hlong⟩
    rw [← Option.not_isSome_iff_eq_none, hsome]
    intro hwritable
    obtain ⟨hnode, hline⟩ := hwritable f hf place hplace
    rcases hlong with hlong | hlong
    · exact Bool.false_ne_true (hlong.symm.trans hnode)
    · exact Bool.false_ne_true (hlong.symm.trans hline)

/-- A finding of each kind. The texts would break a line, end a string or a member, and stand for
escapes; there is a character beyond the first plane, a variable that is not known, and a number of
as many digits as there may be. -/
def hostileFindings : List Finding :=
  [.dereference (some "p\", \"cwe\": 0\x7d\n\x7b") .null ⟨"*p = \"\\n😀\x00\";", -7, "a\r\nb.c", 12⟩,
   .clean,
   .nullReturn none ⟨"return \\u0041\x7f;", 3, "", 1 - Nat.pow 10 Text.maxDigits⟩]

theorem json_lines_read_back_hostileFindings :
    hostileFindings ≠ [] ∧ ∃ text, jsonLines? hostileFindings (some "f\n") = some text ∧
      (text.toList.splitOn '\n').length = 3 ∧
      List.Forall₂ (fun f line => ∃ members, Json.read? line = some (.obj members) ∧
        members.Perm (f.members (some "f\n")) ∧ (members.map Prod.fst).Pairwise (· < ·))
        hostileFindings (text.toList.splitOn '\n') := by
  have h : hostileFindings ≠ [] := List.cons_ne_nil _ _
  exact ⟨h, (json_lines_read_back hostileFindings (some "f\n") h).1 (by decide +kernel)⟩

/-- A finding on a line whose number has one digit too many. -/
def overlongLine : List Finding :=
  [.nullReturn (some "p") ⟨"return p;", 0, "a.c", Nat.pow 10 Text.maxDigits⟩]

/-- Not every list of findings can be written as lines of JSON. -/
theorem overlong_line_unwritten : overlongLine ≠ [] ∧ jsonLines? overlongLine none = none := by
  constructor
  · exact List.cons_ne_nil _ _
  · decide +kernel

end NullSafety
