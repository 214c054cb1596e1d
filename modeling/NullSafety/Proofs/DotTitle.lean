import NullSafety.Proofs.DotReading

/-!
# The title of a DOT file

The title of a graph is written into its DOT file as it is, between two quotes, while the texts of
nodes are written with escapes. So a title is read back as it was given exactly if it has nothing to
escape. Any other does harm: a line break in it makes two lines of its statement, a quote ends the
label early, and a backslash takes the next character with it. But every text can be shown as
the title of a graph, by one who gives it with its escapes.
-/

namespace NullSafety

namespace Dot

/-! ## Labels -/

/-- The label of the whole graph, where a statement gives it one. -/
def label? : List Token → Option (List Char)
  | [.word key, .sign '=', value, .sign ';'] =>
      if key = "label".toList then value.value? else none
  | _ => none

/-- The line is a statement from its start to its end. -/
def isStatement (line : List Char) : Bool :=
  (sentence? (scan .between line)).isSome || (label? (scan .between line)).isSome

/-- The labels that a file gives its graph. -/
def labels (lines : List (List Char)) : List (List Char) :=
  lines.filterMap fun line => label? (scan .between line)

theorem labels_cons (line : List Char) (lines : List (List Char)) :
    labels (line :: lines) = (label? (scan .between line)).toList ++ labels lines := by
  unfold labels
  rw [List.filterMap_cons]
  cases label? (scan .between line) <;> rfl

/-- A statement about the nodes or the edges gives the graph no label. -/
theorem label?_of_sentence? {tokens : List Token} (h : (sentence? tokens).isSome) :
    label? tokens = none := by
  unfold label?
  split
  · cases h
  · rfl

/-! ## Texts that are read back -/

def Token.isQuoted : Token → Bool
  | .text _ => true
  | .broken => true
  | _ => false

/-- The reader is inside a quoted string. -/
def Mode.isOpen : Mode → Bool
  | .inText _ => true
  | .escaped _ => true
  | _ => false

/-- A quote that is ahead opens a string with the next character, or comes after it. -/
theorem isOpen_outside {c : Char} {cs : List Char} (h : '"' ∈ c :: cs) :
    '"' ∈ cs ∨ (outside c).2.isOpen = true := by
  rcases List.mem_cons.mp h with rfl | h
  · exact .inr rfl
  · exact .inl h

/-- No quote goes unnoticed, wherever the reader stands. -/
theorem exists_isQuoted {mode : Mode} {cs : List Char} (h : '"' ∈ cs ∨ mode.isOpen = true) :
    ∃ token ∈ scan mode cs, token.isQuoted = true := by
  fun_induction scan mode cs with
  | case1 => simp [Mode.isOpen] at h
  | case2 w => simp [Mode.isOpen] at h
  | case3 t => exact ⟨.broken, List.mem_singleton_self _, rfl⟩
  | case4 t => exact ⟨.broken, List.mem_singleton_self _, rfl⟩
  | case5 c cs ih =>
      have hquote : '"' ∈ c :: cs := h.resolve_right (by decide)
      obtain ⟨token, htoken, hquoted⟩ := ih (isOpen_outside hquote)
      exact ⟨token, List.mem_append_right _ htoken, hquoted⟩
  | case6 w c cs hc ih =>
      have hquote : '"' ∈ c :: cs := h.resolve_right Bool.false_ne_true
      refine ih (.inl ((List.mem_cons.mp hquote).resolve_left ?_))
      rintro rfl
      cases hc
  | case7 w c cs hc ih =>
      have hquote : '"' ∈ c :: cs := h.resolve_right Bool.false_ne_true
      obtain ⟨token, htoken, hquoted⟩ := ih (isOpen_outside hquote)
      exact ⟨token, List.mem_cons_of_mem _ (List.mem_append_right _ htoken), hquoted⟩
  | case8 t cs ih => exact ih (.inr rfl)
  | case9 t cs ih => exact ⟨.text t, List.mem_cons_self, rfl⟩
  | case10 t c cs hslash hquote ih => exact ih (.inr rfl)
  | case11 t c cs d hd ih => exact ih (.inr rfl)
  | case12 t c cs hnone => exact ⟨.broken, List.mem_singleton_self _, rfl⟩

theorem unescapeChar?_eq_some {c d : Char} (h : unescapeChar? c = some d) :
    escapeChar d = ['\\', c] := by
  unfold unescapeChar? at h
  split at h
  · rename_i hc
    cases h
    rcases hc with rfl | rfl <;> rfl
  · split at h
    · rename_i hc
      cases h
      rw [hc]
      rfl
    · cases h

/-- What is read as a text up to the end of a statement was written with the escapes of that text.
A backslash is read in two steps, so the induction goes through both modes of a quoted string. -/
theorem eq_escape_of_scan {s : List Char} (hline : '\n' ∉ s) {value : Token} {w : List Char}
    (hvalue : value.value? = some w) (t : List Char) :
    (scan (.inText t) (s ++ "\";".toList) = [value, .sign ';'] →
      ∃ u, w = t ++ u ∧ s = u.flatMap escapeChar) ∧
    (scan (.escaped t) (s ++ "\";".toList) = [value, .sign ';'] →
      ∃ u, w = t ++ u ∧ '\\' :: s = u.flatMap escapeChar) := by
  induction s generalizing t with
  | nil =>
      constructor
      · intro h
        have htext : .text t = value := (List.cons.inj h).1
        subst htext
        cases hvalue
        exact ⟨[], (List.append_nil _).symm, rfl⟩
      · intro h
        cases (List.cons.inj h).2
  | cons c s ih =>
      have hc : c ≠ '\n' := fun hc => hline (hc ▸ List.mem_cons_self)
      have ih := ih fun h => hline (List.mem_cons_of_mem c h)
      constructor
      · intro h
        rw [List.cons_append, scan] at h
        split at h
        · rename_i hslash
          obtain ⟨u, hu, hs⟩ := (ih t).2 h
          exact ⟨u, hu, hslash ▸ hs⟩
        · rename_i hslash
          split at h
          · -- the quote of the title would be the end of its label, and that at the end is one more
            have hrest : scan .between (s ++ "\";".toList) = [.sign ';'] := (List.cons.inj h).2
            obtain ⟨token, htoken, hquoted⟩ :=
              @exists_isQuoted .between (s ++ "\";".toList) (.inl (by simp))
            rw [hrest, List.mem_singleton] at htoken
            subst htoken
            cases hquoted
          · rename_i hquote
            obtain ⟨u, hu, hs⟩ := (ih (t ++ [c])).1 h
            refine ⟨c :: u, by rw [hu, List.append_assoc, List.singleton_append], ?_⟩
            rw [List.flatMap_cons, ← hs, escapeChar, if_neg hslash, if_neg hquote, if_neg hc]
            rfl
      · intro h
        rw [List.cons_append, scan] at h
        split at h
        · rename_i d hd
          obtain ⟨u, hu, hs⟩ := (ih (t ++ [d])).1 h
          refine ⟨d :: u, by rw [hu, List.append_assoc, List.singleton_append], ?_⟩
          rw [List.flatMap_cons, ← hs, unescapeChar?_eq_some hd]
          rfl
        · cases (List.cons.inj h).2

/-! ## The line of the title -/

/-- The line that shows a title. -/
def titleLine (title : String) : String := "  label=\"" ++ title ++ "\";"

theorem titleLines_eq (title : String) :
    titleLines title = if title = "" then [] else [titleLine title] := rfl

theorem toList_titleLine (title : String) :
    (titleLine title).toList = "  label=\"".toList ++ (title.toList ++ "\";".toList) := by
  simp [titleLine]

theorem scan_graphLabel (rest : List Char) :
    scan .between ("  label=\"".toList ++ rest) =
      .word "label".toList :: .sign '=' :: scan (.inText []) rest := rfl

theorem label?_cons_cons_eq_some_iff {tokens : List Token} {t : List Char} :
    label? (.word "label".toList :: .sign '=' :: tokens) = some t ↔
      ∃ value, tokens = [value, .sign ';'] ∧ value.value? = some t := by
  constructor
  · intro h
    unfold label? at h
    split at h
    · rename_i key value heq
      cases heq
      exact ⟨value, rfl, by simpa using h⟩
    · cases h
  · rintro ⟨value, rfl, hvalue⟩
    simpa [label?] using hvalue

/-- As long as the title is on one line, its label reads as a text exactly if the title is that
text with its escapes. -/
theorem label?_titleLine {title : String} (hline : '\n' ∉ title.toList) (t : List Char) :
    label? (scan .between (titleLine title).toList) = some t ↔
      title.toList = t.flatMap escapeChar := by
  rw [toList_titleLine, scan_graphLabel, label?_cons_cons_eq_some_iff]
  constructor
  · rintro ⟨value, htokens, hvalue⟩
    obtain ⟨u, hu, htitle⟩ := (eq_escape_of_scan hline hvalue []).1 htokens
    rw [htitle, hu, List.nil_append]
  · intro htitle
    rw [htitle]
    exact ⟨.text t, scan_escape [] t ";".toList, rfl⟩

theorem isStatement_titleLine (title : String) :
    isStatement (titleLine title).toList =
      (label? (scan .between (titleLine title).toList)).isSome := by
  unfold isStatement
  rw [toList_titleLine, scan_graphLabel]
  rfl

/-! ## What has nothing to escape -/

theorem toList_escape (s : String) : (escape s).toList = s.toList.flatMap escapeChar := by
  simp [escape]

theorem newline_notMem_escape (s : String) : '\n' ∉ (escape s).toList := by
  rw [toList_escape, List.mem_flatMap]
  rintro ⟨c, -, hc⟩
  exact newline_notMem_escapeChar c hc

theorem escapeChar_eq_singleton_iff {c : Char} :
    escapeChar c = [c] ↔ c ≠ '\\' ∧ c ≠ '"' ∧ c ≠ '\n' := by
  unfold escapeChar
  split_ifs with hslash hquote hline
  · simp [hslash]
  · simp [hquote]
  · simp [hline]
  · simp [hslash, hquote, hline]

theorem length_escapeChar_pos (c : Char) : 0 < (escapeChar c).length := by
  unfold escapeChar
  split_ifs <;> exact Nat.zero_lt_succ _

/-- An escaped text is never shorter than the text. -/
theorem length_le_length_escape (s : List Char) : s.length ≤ (s.flatMap escapeChar).length := by
  induction s with
  | nil => exact Nat.le_refl 0
  | cons c s ih =>
      have hc := length_escapeChar_pos c
      rw [List.flatMap_cons, List.length_append, List.length_cons]
      omega

theorem flatMap_escapeChar_eq_self_iff {s : List Char} :
    s.flatMap escapeChar = s ↔ ∀ c ∈ s, escapeChar c = [c] := by
  induction s with
  | nil => simp
  | cons c s ih =>
      rw [List.flatMap_cons, List.forall_mem_cons, ← ih]
      constructor
      · intro h
        -- the first escape takes up one character only, or what follows would be too long
        have hlength := congrArg List.length h
        have hs := length_le_length_escape s
        have hc := length_escapeChar_pos c
        rw [List.length_append, List.length_cons] at hlength
        refine List.append_inj (show escapeChar c ++ _ = [c] ++ s from h) ?_
        rw [List.length_singleton]
        omega
      · rintro ⟨hc, hs⟩
        rw [hc, hs]
        rfl

theorem eq_escape_self_iff {s : String} :
    s = escape s ↔ '\\' ∉ s.toList ∧ '"' ∉ s.toList ∧ '\n' ∉ s.toList := by
  rw [← String.toList_inj, toList_escape, eq_comm, flatMap_escapeChar_eq_self_iff]
  simp only [escapeChar_eq_singleton_iff]
  constructor
  · intro h
    exact ⟨fun hc => (h _ hc).1 rfl, fun hc => (h _ hc).2.1 rfl, fun hc => (h _ hc).2.2 rfl⟩
  · rintro ⟨hslash, hquote, hline⟩ c hc
    exact ⟨fun h => hslash (h ▸ hc), fun h => hquote (h ▸ hc), fun h => hline (h ▸ hc)⟩

theorem escape_eq_empty_iff {s : String} : escape s = "" ↔ s = "" := by
  constructor
  · intro h
    have hlength := length_le_length_escape s.toList
    rw [← toList_escape, h] at hlength
    exact String.toList_eq_nil_iff.mp (List.eq_nil_of_length_eq_zero (Nat.le_zero.mp hlength))
  · rintro rfl
    rfl

end Dot

/-! ## The lines of a file -/

theorem splitOn_intercalate_eq_flatMap (c : Char) {parts : List (List Char)} (h : parts ≠ []) :
    ([c].intercalate parts).splitOn c = parts.flatMap (List.splitOn c) := by
  induction parts with
  | nil => exact absurd rfl h
  | cons part rest ih =>
      cases rest with
      | nil => simp [List.intercalate]
      | cons next rest =>
          have hjoin : [c].intercalate (part :: next :: rest) =
              part ++ c :: [c].intercalate (next :: rest) := by
            simp [List.intercalate]
          rw [hjoin, List.splitOn_append_cons_self, ih (List.cons_ne_nil _ _),
            ← List.flatMap_cons]

theorem length_splitOn (c : Char) (s : List Char) : (s.splitOn c).length = s.count c + 1 := by
  induction s with
  | nil => rfl
  | cons d s ih =>
      rw [List.splitOn_cons_eq_if_modifyHead, List.count_cons]
      split
      · rw [List.length_cons, ih]
      · rw [List.length_modifyHead, ih, Nat.add_zero]

namespace Graph

variable (g : Graph) (title : Option String)

/-- The lines of a file that come after the title. -/
def drawing (g : Graph) : List String :=
  "  node [shape=box, fontname=monospace, fontsize=10];" ::
    (g.nodes.map Dot.nodeLine ++ (g.edges.map Dot.edgeLine ++ ["\x7d"]))

theorem dotLines_eq_titleLines :
    g.dotLines title =
      "digraph CFG \x7b" :: (Dot.titleLines (g.effectiveTitle title) ++ g.drawing) := by
  simp [dotLines, drawing]

theorem length_drawing : g.drawing.length = 2 + g.nodes.length + g.edges.length := by
  simp only [drawing, List.length_cons, List.length_append, List.length_map, List.length_nil]
  omega

theorem newline_notMem_drawing {line : String} (h : line ∈ g.drawing) : '\n' ∉ line.toList := by
  refine @newline_notMem_dotLines g (some "") rfl line ?_
  rw [dotLines_of_untitled rfl]
  exact List.mem_cons_of_mem _ h

/-- All lines but that of the title are statements, and none of them is a label. -/
theorem sentence?_isSome {line : String} (h : line ∈ "digraph CFG \x7b" :: g.drawing) :
    (Dot.sentence? (Dot.scan .between line.toList)).isSome := by
  simp only [drawing, List.mem_cons, List.mem_append, List.mem_map, List.not_mem_nil,
    or_false] at h
  rcases h with rfl | rfl | ⟨n, -, rfl⟩ | ⟨e, -, rfl⟩ | rfl
  · rfl
  · rfl
  · rw [Dot.sentence?_nodeLine]
    rfl
  · rw [Dot.sentence?_edgeLine]
    rfl
  · rfl

/-- The lines of a file: only that of the title may fall into several. -/
theorem splitOn_dot_eq :
    (g.dot title).toList.splitOn '\n' = "digraph CFG \x7b".toList ::
      ((Dot.titleLines (g.effectiveTitle title)).flatMap (fun line => line.toList.splitOn '\n') ++
        g.drawing.map String.toList) := by
  have hrest : g.drawing.flatMap (fun line => line.toList.splitOn '\n') =
      g.drawing.map String.toList := by
    rw [List.map_eq_flatMap]
    exact List.flatMap_congr fun line hline =>
      List.splitOn_eq_singleton (g.newline_notMem_drawing hline)
  rw [dot, String.toList_intercalate, dotLines_eq_titleLines]
  refine (splitOn_intercalate_eq_flatMap '\n' (List.cons_ne_nil _ _)).trans ?_
  rw [List.flatMap_cons, List.flatMap_map, List.flatMap_append, hrest,
    List.splitOn_eq_singleton (by decide)]
  rfl

theorem label?_opening : Dot.label? (Dot.scan .between "digraph CFG \x7b".toList) = none := rfl

theorem labels_drawing : Dot.labels (g.drawing.map String.toList) = [] := by
  unfold Dot.labels
  rw [List.filterMap_map, List.filterMap_eq_nil_iff]
  intro line hline
  exact Dot.label?_of_sentence? (g.sentence?_isSome (List.mem_cons_of_mem _ hline))

variable {g title}

/-- The lines of a file with a title on one line. -/
theorem splitOn_dot_of_titled (h : g.effectiveTitle title ≠ "")
    (hline : '\n' ∉ (g.effectiveTitle title).toList) :
    (g.dot title).toList.splitOn '\n' = "digraph CFG \x7b".toList ::
      (Dot.titleLine (g.effectiveTitle title)).toList :: g.drawing.map String.toList := by
  have htitle : '\n' ∉ (Dot.titleLine (g.effectiveTitle title)).toList := by
    rw [Dot.toList_titleLine]
    simp [hline]
  rw [splitOn_dot_eq, Dot.titleLines_eq, if_neg h, List.flatMap_singleton,
    List.splitOn_eq_singleton htitle, List.singleton_append]

theorem length_splitOn_dot :
    ((g.dot title).toList.splitOn '\n').length =
      3 + (if g.effectiveTitle title = "" then 0 else 1) + g.nodes.length + g.edges.length +
        (g.effectiveTitle title).toList.count '\n' := by
  have htitle : ((Dot.titleLines (g.effectiveTitle title)).flatMap
      (fun line => line.toList.splitOn '\n')).length =
      (if g.effectiveTitle title = "" then 0 else 1) +
        (g.effectiveTitle title).toList.count '\n' := by
    rw [Dot.titleLines_eq]
    split
    · rename_i hempty
      rw [hempty]
      rfl
    · rw [List.flatMap_singleton, length_splitOn, Dot.toList_titleLine, List.count_append,
        List.count_append, Nat.add_comm]
      simp
  rw [splitOn_dot_eq, List.length_cons, List.length_append, htitle, List.length_map,
    length_drawing]
  omega

/-- The lines of a file without a title. -/
theorem splitOn_dot_of_untitled (h : g.effectiveTitle title = "") :
    (g.dot title).toList.splitOn '\n' =
      "digraph CFG \x7b".toList :: g.drawing.map String.toList := by
  rw [splitOn_dot_eq, Dot.titleLines_eq, if_pos h, List.flatMap_nil, List.nil_append]

theorem isStatement_of_mem {line : List Char}
    (h : line ∈ "digraph CFG \x7b".toList :: g.drawing.map String.toList) :
    Dot.isStatement line = true := by
  obtain ⟨text, htext, rfl⟩ : ∃ text ∈ "digraph CFG \x7b" :: g.drawing, text.toList = line :=
    List.mem_map.mp h
  unfold Dot.isStatement
  rw [g.sentence?_isSome htext, Bool.true_or]

/-- The file is as it should be, and the graph has the text for its label. -/
structure ShowsTitle (g : Graph) (title : Option String) (text : String) : Prop where
  length : ((g.dot title).toList.splitOn '\n').length =
    3 + (if g.effectiveTitle title = "" then 0 else 1) + g.nodes.length + g.edges.length
  statements : ∀ line ∈ (g.dot title).toList.splitOn '\n', Dot.isStatement line = true
  labels : Dot.labels ((g.dot title).toList.splitOn '\n') =
    if text = "" then [] else [text.toList]

namespace ShowsTitle

variable {text : String}

/-- No line break: the number of lines would be wrong. -/
theorem newline_notMem (h : g.ShowsTitle title text) :
    '\n' ∉ (g.effectiveTitle title).toList := by
  have hlength := h.length
  rw [length_splitOn_dot] at hlength
  exact List.count_eq_zero.mp (by omega)

theorem iff_of_untitled (h : g.effectiveTitle title = "") :
    g.ShowsTitle title text ↔ text = "" := by
  have hlabels : Dot.labels ((g.dot title).toList.splitOn '\n') = [] := by
    rw [splitOn_dot_of_untitled h, Dot.labels_cons, label?_opening, g.labels_drawing]
    rfl
  constructor
  · intro hshows
    by_contra htext
    have hnone := hshows.labels
    rw [hlabels, if_neg htext] at hnone
    cases hnone
  · rintro rfl
    refine ⟨?_, ?_, hlabels⟩
    · rw [length_splitOn_dot, h]
      rfl
    · rw [splitOn_dot_of_untitled h]
      exact fun line => isStatement_of_mem

theorem iff_of_titled (h : g.effectiveTitle title ≠ "")
    (hline : '\n' ∉ (g.effectiveTitle title).toList) :
    g.ShowsTitle title text ↔
      (g.effectiveTitle title).toList = text.toList.flatMap Dot.escapeChar := by
  have hlines := splitOn_dot_of_titled h hline
  have hlabels : Dot.labels ((g.dot title).toList.splitOn '\n') =
      (Dot.label? (Dot.scan .between (Dot.titleLine (g.effectiveTitle title)).toList)).toList := by
    rw [hlines, Dot.labels_cons, Dot.labels_cons, label?_opening, g.labels_drawing,
      List.append_nil]
    rfl
  rw [← Dot.label?_titleLine hline]
  constructor
  · intro hshows
    have hsome : Dot.isStatement (Dot.titleLine (g.effectiveTitle title)).toList = true := by
      apply hshows.statements
      rw [hlines]
      exact List.mem_cons_of_mem _ List.mem_cons_self
    rw [Dot.isStatement_titleLine, Option.isSome_iff_exists] at hsome
    obtain ⟨label, hlabel⟩ := hsome
    have htext := hshows.labels
    rw [hlabels, hlabel] at htext
    split at htext
    · cases htext
    · rw [hlabel]
      exact congrArg some (List.singleton_inj.mp htext)
  · intro hlabel
    have htext : text ≠ "" := by
      rintro rfl
      rw [Dot.label?_titleLine hline] at hlabel
      exact h (String.toList_eq_nil_iff.mp hlabel)
    refine ⟨?_, ?_, ?_⟩
    · rw [length_splitOn_dot, List.count_eq_zero.mpr hline, Nat.add_zero]
    · intro line hmem
      rw [hlines, List.mem_cons, List.mem_cons, or_left_comm, ← List.mem_cons] at hmem
      rcases hmem with rfl | hmem
      · rw [Dot.isStatement_titleLine, hlabel]
        rfl
      · exact isStatement_of_mem hmem
    · rw [hlabels, hlabel, if_neg htext]
      rfl

end ShowsTitle

end Graph

/-- **What a title does to a DOT file.** A file has one line too many for each line break in its
title. It has as many lines as it should, each of them a statement by itself, and a certain text for
the label of the graph, if and only if the title shown is that text with its escapes. So the
title itself is what is read, and the file is whole, exactly if there is no backslash, no quote and
no line break in the title. -/
theorem title_intact_iff_plain (g : Graph) (title : Option String) :
    let shown := g.effectiveTitle title
    ((g.dot title).toList.splitOn '\n').length = 3 + (if shown = "" then 0 else 1) +
        g.nodes.length + g.edges.length + shown.toList.count '\n' ∧
      (∀ text, g.ShowsTitle title text ↔ shown = Dot.escape text) ∧
      (g.ShowsTitle title shown ↔
        '\\' ∉ shown.toList ∧ '"' ∉ shown.toList ∧ '\n' ∉ shown.toList) := by
  intro shown
  have hshows : ∀ text, g.ShowsTitle title text ↔ shown = Dot.escape text := by
    intro text
    by_cases h : shown = ""
    · rw [Graph.ShowsTitle.iff_of_untitled h, h, ← Dot.escape_eq_empty_iff]
      exact eq_comm
    · rw [← String.toList_inj, Dot.toList_escape]
      constructor
      · intro htext
        exact (Graph.ShowsTitle.iff_of_titled h htext.newline_notMem).mp htext
      · intro htext
        refine (Graph.ShowsTitle.iff_of_titled h ?_).mpr htext
        rw [htext, ← Dot.toList_escape]
        exact Dot.newline_notMem_escape text
  exact ⟨Graph.length_splitOn_dot, hshows, (hshows shown).trans Dot.eq_escape_self_iff⟩

/-- The graph of a function whose name has quotes in it. -/
def literalOperator : Graph :=
  { name := some "operator\"\"_km", nodes := [⟨0, 0, .expression "convert();" [] {}⟩] }

/-- The name of a function can break the file of its graph: the line of the title is no statement,
and the graph has no label. -/
theorem function_name_breaks_file :
    let lines := (literalOperator.dot none).toList.splitOn '\n'
    literalOperator.effectiveTitle none = "operator\"\"_km" ∧
      lines.map Dot.isStatement = [true, false, true, true, true] ∧ Dot.labels lines = [] := by
  decide +kernel

end NullSafety
