import Mathlib.Data.List.Forall2
import Mathlib.Data.Option.Basic
import NullSafety.Proofs.JsonReading
import NullSafety.Report

/-!
# The markup of a page

What stands in the findings cannot change the markup of their page. The characters that markup is
made of are `<`, `>` and the two quotes: which of them stand on a page, and in which order, follows
from which findings get a card and which cards have a file and a function, and from nothing else.
A reader of pages, which knows tags, attributes and character references and nothing of how these
pages come about, finds the statement of every finding as it was. There is a page unless the number
of a line on it has too many digits.
-/

namespace NullSafety

namespace Html

/-! ## Pages as tags and text -/

inductive Piece where
  | text (t : List Char)
  /-- What stands between the angle brackets. -/
  | tag (t : List Char)
  deriving DecidableEq

/-- Where the reader stands, with what it has read of a text or a tag. -/
inductive Mode where
  | inText (t : List Char)
  | inTag (t : List Char)
  /-- In the value of an attribute, up to the next quote of its kind. -/
  | inValue (quote : Char) (t : List Char)
  deriving DecidableEq

/-- What ends at a character, and where the reader stands then. -/
def next : Mode → Char → List Piece × Mode
  | .inText t, c => if c = '<' then ([.text t], .inTag []) else ([], .inText (t ++ [c]))
  | .inTag t, c =>
    if c = '>' then ([.tag t], .inText [])
    else if c = '"' ∨ c = '\'' then ([], .inValue c (t ++ [c]))
    else ([], .inTag (t ++ [c]))
  | .inValue quote t, c =>
    ([], if c = quote then .inTag (t ++ [c]) else .inValue quote (t ++ [c]))

/-- What a text adds to the pieces, and where the reader stands behind it. -/
def scan : Mode → List Char → List Piece × Mode
  | m, [] => ([], m)
  | m, c :: cs => ((next m c).1 ++ (scan (next m c).2 cs).1, (scan (next m c).2 cs).2)

/-- The tags of a page and the texts between them. A tag that does not end is none. -/
def pieces (page : List Char) : List Piece :=
  match scan (.inText []) page with
  | (ps, .inText t) => ps ++ [.text t]
  | (ps, _) => ps

/-- The text up to the end of an element, without the tags in it. -/
def contentUpTo (closing : List Char) : List Piece → List Char
  | [] => []
  | .text t :: ps => t ++ contentUpTo closing ps
  | .tag t :: ps => if t = closing then [] else contentUpTo closing ps

/-- The start tag of the element for a statement. -/
def statementTag : List Char := "div class=\"stmt\"".toList

/-- The contents of the elements for statements, in order. -/
def statements : List Piece → List (List Char)
  | [] => []
  | .text _ :: ps => statements ps
  | .tag t :: ps =>
    if t = statementTag then contentUpTo "/div".toList ps :: statements ps
    else statements ps

/-! ## Character references -/

/-- The character a reference stands for, without its semicolon. -/
def named? (name : List Char) : Option Char :=
  match name with
  | '#' :: digits =>
    if digits ≠ [] ∧ digits.all Char.isDigit then some (Char.ofNat (Nat.ofDigitChars 10 digits 0))
    else none
  | _ =>
    [("amp".toList, '&'), ("lt".toList, '<'), ("gt".toList, '>'), ("quot".toList, '"'),
      ("apos".toList, '\'')].lookup name

/-- The reference behind an ampersand, and how many characters it takes. -/
def reference? (cs : List Char) : Option (Char × Nat) :=
  let name := cs.takeWhile (· ≠ ';')
  if name = cs then none else (named? name).map fun c => (c, name.length + 1)

/-- Text with its references replaced; `skip` characters are still to be passed over. -/
def unescape : (skip : Nat) → List Char → List Char
  | _, [] => []
  | skip + 1, _ :: cs => unescape skip cs
  | 0, c :: cs =>
    if c = '&' then
      match reference? cs with
      | some (d, n) => d :: unescape n cs
      | none => c :: unescape 0 cs
    else c :: unescape 0 cs

theorem unescape_escapeChar (c : Char) (rest : List Char) :
    unescape 0 (escapeChar c ++ rest) = c :: unescape 0 rest := by
  unfold escapeChar
  split_ifs with hand hless hgreater hsingle hdouble
  · subst hand
    rfl
  · subst hless
    rfl
  · subst hgreater
    rfl
  · subst hsingle
    rfl
  · subst hdouble
    rfl
  · rw [List.singleton_append, unescape, if_neg hand]

theorem unescape_escape (s : String) : unescape 0 (escape s).toList = s.toList := by
  rw [escape, String.toList_ofList]
  induction s.toList with
  | nil => rfl
  | cons c cs ih => rw [List.flatMap_cons, unescape_escapeChar, ih]

/-! ## Marks -/

/-- The characters that markup is made of. -/
def isMark (c : Char) : Bool := c == '<' || c == '>' || c == '"' || c == '\''

theorem not_isMark_of_isDigit {c : Char} (h : c.isDigit = true) : isMark c = false := by
  have hne : ∀ d : Char, d.isDigit = false → c ≠ d := fun _ => Json.ne_of_isDigit h
  simp [isMark, hne '<' rfl, hne '>' rfl, hne '"' rfl, hne '\'' rfl]

theorem any_isMark_escapeChar (c : Char) : (escapeChar c).any isMark = false := by
  unfold escapeChar
  split_ifs with hand hless hgreater hsingle hdouble
  · rfl
  · rfl
  · rfl
  · rfl
  · rfl
  · simp [isMark, hless, hgreater, hsingle, hdouble]

/-- Nothing that markup is made of is left in an escaped text. -/
theorem notMem_escape {c : Char} (hc : isMark c = true) (s : String) : c ∉ (escape s).toList := by
  intro h
  rw [escape, String.toList_ofList] at h
  obtain ⟨d, -, hd⟩ := List.mem_flatMap.mp h
  exact List.any_eq_false.mp (any_isMark_escapeChar d) c hd hc

/-! ## Reading the statements -/

theorem scan_append (m : Mode) (a b : List Char) :
    scan m (a ++ b) =
      ((scan m a).1 ++ (scan (scan m a).2 b).1, (scan (scan m a).2 b).2) := by
  induction a generalizing m with
  | nil => rfl
  | cons c a ih => rw [List.cons_append, scan, ih, scan, List.append_assoc]

theorem scan_inText {a : List Char} (h : '<' ∉ a) (t : List Char) :
    scan (.inText t) a = ([], .inText (t ++ a)) := by
  induction a generalizing t with
  | nil => rw [List.append_nil, scan]
  | cons c a ih =>
      obtain ⟨hc, ha⟩ := not_or.mp (mt List.mem_cons.mpr h)
      rw [scan, next, if_neg (Ne.symm hc), ih ha, List.append_assoc]
      rfl

theorem scan_inValue {quote : Char} {a : List Char} (h : quote ∉ a) (t : List Char) :
    scan (.inValue quote t) a = ([], .inValue quote (t ++ a)) := by
  induction a generalizing t with
  | nil => rw [List.append_nil, scan]
  | cons c a ih =>
      obtain ⟨hc, ha⟩ := not_or.mp (mt List.mem_cons.mpr h)
      rw [scan, next, if_neg (Ne.symm hc), ih ha, List.append_assoc]
      rfl

/-- A part of a page with these elements for statements in it, outside of tags at both ends. -/
def Shows (part : List Char) (contents : List (List Char)) : Prop :=
  ∀ t, ∃ ps t', scan (.inText t) part = (ps, .inText t') ∧
    ∀ qs, statements (ps ++ qs) = contents ++ statements qs

/-- Whether a text is outside of tags at its end, if it is at its start, and has no element for a
statement in it. -/
def isQuiet (a : List Char) : Bool :=
  match (scan (.inText []) a).2 with
  | .inText _ => Piece.tag statementTag ∉ (scan (.inText []) a).1
  | _ => false

theorem statements_append {ps : List Piece} (h : Piece.tag statementTag ∉ ps) (qs : List Piece) :
    statements (ps ++ qs) = statements qs := by
  induction ps with
  | nil => rfl
  | cons p ps ih =>
      obtain ⟨hp, hps⟩ := not_or.mp (mt List.mem_cons.mpr h)
      cases p with
      | text t => exact ih hps
      | tag t =>
          have ht : t ≠ statementTag := fun ht => hp (ht ▸ rfl)
          rw [List.cons_append, statements, if_neg ht, ih hps]

namespace Shows

theorem append {a b : List Char} {xs ys : List (List Char)} (ha : Shows a xs) (hb : Shows b ys) :
    Shows (a ++ b) (xs ++ ys) := by
  intro t
  obtain ⟨ps, t', hscan, hps⟩ := ha t
  obtain ⟨qs, t'', hscan', hqs⟩ := hb t'
  refine ⟨ps ++ qs, t'', by rw [scan_append, hscan, hscan'], fun rs => ?_⟩
  rw [List.append_assoc, hps, hqs, List.append_assoc]

/-- Text without an opening angle bracket is all text. -/
theorem of_text {a : List Char} (h : '<' ∉ a) : Shows a [] := fun t =>
  ⟨[], t ++ a, scan_inText h t, fun _ => rfl⟩

/-- Text of a page itself is checked by reading it: what stands in front of it does not matter. -/
theorem of_isQuiet {a : List Char} (h : isQuiet a = true) : Shows a [] := by
  by_cases hless : '<' ∈ a
  · -- at the first tag the reader forgets the text in front of it
    obtain ⟨b, d, rfl, hb⟩ := List.eq_append_cons_of_mem hless
    have hscan : ∀ t, scan (.inText t) (b ++ '<' :: d) =
        (.text (t ++ b) :: (scan (.inTag []) d).1, (scan (.inTag []) d).2) := by
      intro t
      rw [scan_append, scan_inText hb]
      rfl
    rw [isQuiet, hscan] at h
    intro t
    split at h
    · rename_i t' hmode
      have htag : Piece.tag statementTag ∉ .text (t ++ b) :: (scan (.inTag []) d).1 := by
        simpa using h
      have hmode' : (scan (.inTag []) d).2 = .inText t' := hmode
      exact ⟨_, t', by rw [hscan, hmode'], statements_append htag⟩
    · cases h
  · exact of_text hless

theorem add {a b : String} {xs : List (List Char)} (ha : Shows a.toList xs)
    (hb : Shows b.toList []) : Shows (a ++ b).toList xs := by
  rw [String.toList_append]
  simpa using ha.append hb

theorem join {α : Type} {items : List α} {parts : List String} {content : α → List Char}
    (h : List.Forall₂ (fun item part => Shows part.toList [content item]) items parts) :
    Shows (String.join parts).toList (items.map content) := by
  induction h with
  | nil => exact of_text List.not_mem_nil
  | cons hfirst _ ih =>
      rw [List.map_cons, String.join_cons, String.toList_append]
      exact hfirst.append ih

end Shows

theorem quiet {a : String} (h : isQuiet a.toList = true) : Shows a.toList [] := .of_isQuiet h

theorem shows_escape (s : String) : Shows (escape s).toList [] := .of_text (notMem_escape rfl s)

/-- The start tag of a card: an escaped text does not end the value of its attribute. -/
theorem shows_cardTag (word : String) :
    Shows ("\n  <div class=\"card sev-" ++ escape word ++ "\">\n").toList [] := by
  intro t
  have hopening : scan (.inText t) "\n  <div class=\"card sev-".toList =
      ([.text (t ++ ['\n'] ++ [' '] ++ [' '])], .inValue '"' "div class=\"card sev-".toList) := rfl
  have hclosing : ∀ w, scan (.inValue '"' w) "\">\n".toList =
      ([.tag (w ++ ['"'])], .inText ['\n']) := fun _ => rfl
  have hword := scan_inValue (notMem_escape (c := '"') rfl word) "div class=\"card sev-".toList
  rw [String.toList_append, String.toList_append]
  exact ⟨_, _, by rw [scan_append, scan_append, hopening, hword, hclosing], fun _ => rfl⟩

theorem shows_location (s : String) : Shows (location s).toList [] := by
  unfold location
  split
  · exact .of_text List.not_mem_nil
  · exact ((quiet rfl).add (shows_escape s)).add (quiet rfl)

/-- The element for a statement, behind a part of the page without one. -/
theorem Shows.addStatement {a : String} (h : Shows a.toList []) (s : String) :
    Shows (a ++ "    <div class=\"stmt\"><code>" ++ escape s ++ "</code></div>\n").toList
      [(escape s).toList] := by
  intro t
  obtain ⟨ps, t', hbefore, hps⟩ := h t
  have hopening : scan (.inText t') "    <div class=\"stmt\"><code>".toList =
      ([.text (t' ++ [' '] ++ [' '] ++ [' '] ++ [' ']), .tag statementTag, .text [],
        .tag "code".toList], .inText []) := rfl
  have htext := scan_inText (notMem_escape (c := '<') rfl s) []
  have hclosing : ∀ w, scan (.inText w) "</code></div>\n".toList =
      ([.text w, .tag "/code".toList, .text [], .tag "/div".toList], .inText ['\n']) := fun _ => rfl
  rw [String.toList_append, String.toList_append, String.toList_append]
  refine ⟨_, _, by rw [scan_append, scan_append, scan_append, hbefore, hopening, htext, hclosing],
    fun qs => ?_⟩
  simp only [List.append_assoc, hps]
  change ([] ++ ([] ++ (escape s).toList ++ ([] ++ []))) :: statements qs = _
  simp only [List.nil_append, List.append_nil, List.singleton_append]

/-- A card shows its statement and no other. -/
theorem shows_markup (c : Card) (fileAndLine : String) :
    Shows (c.markup fileAndLine).toList [(escape c.place.text).toList] := by
  unfold Card.markup
  have hseverity := shows_escape c.severity.word
  have hid := shows_escape c.id
  have hfile := shows_location fileAndLine
  have hfunction := shows_location c.inFunction
  have hmessage := shows_escape c.message
  refine ((((Shows.addStatement ?before c.place.text).add (quiet ?_)).add (quiet ?_)).add
    (quiet ?_)).add (quiet ?_)
  case before =>
    refine (Shows.add ?_ hmessage).add (quiet ?_)
    refine ((((((((((((shows_cardTag c.severity.word).add (quiet ?_)).add hseverity).add
      (quiet ?_)).add hid).add (quiet ?_)).add (quiet ?_)).add hfile).add (quiet ?_)).add
      (quiet ?_)).add hfunction).add (quiet ?_)).add (quiet ?_)
    all_goals decide +kernel
  all_goals decide +kernel

theorem shows_header : Shows header.toList [] := by
  unfold header
  repeat' refine Shows.add ?_ (quiet (by decide +kernel))
  exact quiet (by decide +kernel)

theorem shows_cleanCard : Shows cleanCard.toList [] :=
  ((quiet (by decide +kernel)).add (shows_escape Finding.cleanMessage)).add
    (quiet (by decide +kernel))

theorem isDigit_of_mem_toString {n : Nat} {c : Char} (h : c ∈ (toString n).toList) :
    c.isDigit = true := by
  rw [Nat.toString_eq_ofList_toDigits, String.toList_ofList] at h
  exact Json.isDigit_of_mem_toDigits h

theorem shows_footer (total : Nat) : Shows (footer total).toList [] := by
  have htotal : Shows (toString total).toList [] :=
    .of_text fun h => absurd (isDigit_of_mem_toString h) (by decide)
  have hplural : Shows (if total = 1 then "" else "s" : String).toList [] := by
    split
    · exact quiet (by decide +kernel)
    · exact quiet (by decide +kernel)
  exact ((((quiet (by decide +kernel)).add htotal).add (quiet (by decide +kernel))).add
    hplural).add (quiet (by decide +kernel))

theorem shows_of_render? {c : Card} {shown : String} (h : c.render? = some shown) :
    Shows shown.toList [(escape c.place.text).toList] := by
  obtain ⟨fileAndLine, -, rfl⟩ := Option.map_eq_some_iff.mp h
  exact shows_markup c fileAndLine

theorem shows_of_page? {cards : List Card} {page : String} (h : page? cards = some page) :
    Shows page.toList (cards.map fun c => (escape c.place.text).toList) := by
  obtain ⟨shown, hshown, rfl⟩ := Option.map_eq_some_iff.mp h
  have hcards : Shows (if cards.isEmpty then cleanCard else String.join shown).toList
      (cards.map fun c => (escape c.place.text).toList) := by
    cases cards with
    | nil => exact shows_cleanCard
    | cons c cards => exact .join ((forall₂_of_mapM hshown).imp fun _ _ => shows_of_render?)
  rw [String.toList_append, String.toList_append]
  simpa using (shows_header.append hcards).append (shows_footer cards.length)

theorem Shows.statements_pieces {part : List Char} {contents : List (List Char)}
    (h : Shows part contents) : statements (pieces part) = contents := by
  obtain ⟨ps, t, hscan, hps⟩ := h []
  rw [pieces, hscan, hps, statements, statements, List.append_nil]

/-! ## The marks of a page -/

/-- The characters of a text that markup is made of. -/
def marks (s : String) : List Char := s.toList.filter isMark

theorem marks_append (s t : String) : marks (s ++ t) = marks s ++ marks t := by
  rw [marks, String.toList_append, List.filter_append, marks, marks]

theorem marks_escape (s : String) : marks (escape s) = [] := by
  refine List.filter_eq_nil_iff.mpr fun c hc hmark => ?_
  exact notMem_escape hmark s hc

/-- Of a place on a card, only whether there is one can be told from its marks. -/
theorem marks_location {s t : String} (h : s = "" ↔ t = "") :
    marks (location s) = marks (location t) := by
  unfold location
  by_cases hs : s = ""
  · rw [if_pos hs, if_pos (h.mp hs)]
  · rw [if_neg hs, if_neg (mt h.mpr hs)]
    simp only [marks_append, marks_escape]

/-- Cards with the same outline: with a file or without, and with a function or without. -/
structure Card.Alike (c d : Card) : Prop where
  file : c.place.file = "" ↔ d.place.file = ""
  function : c.inFunction = "" ↔ d.inFunction = ""

theorem eq_empty_iff_of_fileAndLine? {c : Card} {shown : String}
    (h : c.fileAndLine? = some shown) : shown = "" ↔ c.place.file = "" := by
  unfold Card.fileAndLine? at h
  split at h
  · rename_i hfile
    cases h
    exact iff_of_true rfl hfile
  · rename_i hfile
    obtain ⟨line, -, rfl⟩ := Option.map_eq_some_iff.mp h
    simp [hfile]

theorem Card.Alike.marks_eq {c d : Card} (h : c.Alike d) {shown shown' : String}
    (hc : c.render? = some shown) (hd : d.render? = some shown') : marks shown = marks shown' := by
  obtain ⟨s, hs, rfl⟩ := Option.map_eq_some_iff.mp hc
  obtain ⟨t, ht, rfl⟩ := Option.map_eq_some_iff.mp hd
  have hempty : s = "" ↔ t = "" :=
    (eq_empty_iff_of_fileAndLine? hs).trans (h.file.trans (eq_empty_iff_of_fileAndLine? ht).symm)
  have hfile := marks_location hempty
  have hfunction := marks_location h.function
  unfold Card.markup
  simp only [marks_append, marks_escape]
  rw [hfile, hfunction]

theorem marks_cards {cards others : List Card} (h : List.Forall₂ Card.Alike cards others)
    {shown shown' : List String}
    (hcards : List.Forall₂ (fun c s => c.render? = some s) cards shown)
    (hothers : List.Forall₂ (fun c s => c.render? = some s) others shown') :
    marks (String.join shown) = marks (String.join shown') := by
  induction h generalizing shown shown' with
  | nil =>
      cases hcards
      cases hothers
      rfl
  | cons hfirst _ ih =>
      cases hcards with
      | cons hc hcards =>
          cases hothers with
          | cons hd hothers =>
              rw [String.join_cons, String.join_cons, marks_append, marks_append,
                hfirst.marks_eq hc hd, ih hcards hothers]

theorem marks_toString (n : Nat) : marks (toString n) = [] := by
  refine List.filter_eq_nil_iff.mpr fun c hc hmark => ?_
  rw [not_isMark_of_isDigit (isDigit_of_mem_toString hc)] at hmark
  cases hmark

theorem marks_footer (m n : Nat) : marks (footer m) = marks (footer n) := by
  have hplural : ∀ k : Nat, marks (if k = 1 then "" else "s") = [] := by
    intro k
    split <;> rfl
  unfold footer
  simp only [marks_append, marks_toString, hplural]

theorem marks_of_page? {cards others : List Card} (h : List.Forall₂ Card.Alike cards others)
    {page page' : String} (hpage : page? cards = some page) (hpage' : page? others = some page') :
    marks page = marks page' := by
  obtain ⟨shown, hshown, rfl⟩ := Option.map_eq_some_iff.mp hpage
  obtain ⟨shown', hshown', rfl⟩ := Option.map_eq_some_iff.mp hpage'
  have hcards := marks_cards h (forall₂_of_mapM hshown) (forall₂_of_mapM hshown')
  have hmiddle : marks (if cards.isEmpty then cleanCard else String.join shown) =
      marks (if others.isEmpty then cleanCard else String.join shown') := by
    cases h with
    | nil => rfl
    | cons => exact hcards
  rw [marks_append, marks_append, marks_append, marks_append, hmiddle,
    marks_footer cards.length others.length]

/-! ## Which pages there are -/

theorem isSome_render? (c : Card) :
    c.render?.isSome ↔ (c.place.file ≠ "" → Text.isWritable c.place.line = true) := by
  rw [Card.render?, Option.isSome_map, Card.fileAndLine?]
  split
  · rename_i hfile
    exact iff_of_true rfl fun hne => absurd hfile hne
  · rename_i hfile
    rw [Option.isSome_map, Text.isSome_decimal?]
    exact ⟨fun hline _ => hline, fun hline => hline hfile⟩

theorem isSome_pageOf? (findings : List Finding) (function : Option String) :
    (pageOf? findings function).isSome ↔ ∀ f ∈ findings, ∀ place ∈ f.place?,
      place.file ≠ "" → Text.isWritable place.line = true := by
  rw [pageOf?, page?, Option.isSome_map, isSome_mapM]
  simp only [List.forall_mem_filterMap, cardOf?, ← Option.mem_def, Option.forall_mem_map,
    isSome_render?]

end Html

namespace Finding

/-- The file of the statement a finding is about. -/
def file (f : Finding) : String := (f.place?.map Place.file).getD ""

/-- Findings whose cards have the same outline: both get one or neither does, with a file or
without. -/
structure Alike (a b : Finding) : Prop where
  isClean : a.isClean = b.isClean
  file : a.file = "" ↔ b.file = ""

theorem isClean_eq_isNone (f : Finding) : f.isClean = f.place?.isNone := by
  cases f <;> rfl

end Finding

namespace Html

theorem inFunction_eq_empty (c : Card) : c.inFunction = "" ↔ c.function.getD "" = "" := by
  unfold Card.inFunction
  split
  · simp [*]
  · split <;> simp [*]

theorem alike_cards {f g : Option String} (hfunction : f.getD "" = "" ↔ g.getD "" = "")
    {as bs : List Finding} (h : List.Forall₂ Finding.Alike as bs) :
    List.Forall₂ Card.Alike (as.filterMap (cardOf? f)) (bs.filterMap (cardOf? g)) := by
  induction h with
  | nil => exact .nil
  | @cons a b as bs hab _ ih =>
      have hclean := hab.isClean
      have hfile := hab.file
      rw [a.isClean_eq_isNone, b.isClean_eq_isNone] at hclean
      rw [List.filterMap_cons, List.filterMap_cons, cardOf?, cardOf?]
      rw [Finding.file, Finding.file] at hfile
      cases ha : a.place? with
      | none =>
          rw [ha] at hclean
          rw [Option.isNone_iff_eq_none.mp hclean.symm]
          exact ih
      | some p =>
          cases hb : b.place? with
          | none =>
              rw [ha, hb] at hclean
              cases hclean
          | some q =>
              rw [ha, hb] at hfile
              refine .cons ⟨?_, ?_⟩ ih
              · exact hfile
              · rw [inFunction_eq_empty, inFunction_eq_empty]
                exact hfunction

/-- The statements on the page of findings, in order. -/
theorem statements_of_pageOf? {findings : List Finding} {function : Option String} {page : String}
    (h : pageOf? findings function = some page) :
    (statements (pieces page.toList)).map (unescape 0) =
      findings.filterMap fun f => f.place?.map fun place => place.text.toList := by
  rw [(shows_of_page? h).statements_pieces, List.map_map, List.map_filterMap]
  refine List.filterMap_congr fun f _ => ?_
  rw [cardOf?, Option.map_map]
  simp only [Function.comp_def, unescape_escape]

/-- The page is rendered if no template is given and the environment names none. -/
theorem render_untemplated {env : Environment}
    (h : given (env.lookup "NULLFLOW_HTML_TEMPLATE") "" = "") (folder : Folder)
    (cards : List Card) : render env folder none cards = ReportError.printed (page? cards) := by
  unfold render
  rw [h]
  rfl

end Html

/-- **A page cannot be injected into.** For two lists of findings of the same outline, in functions
that both have a name or both have none: the characters that markup is made of are the same on both
pages, in the same order, whatever the names, statements and files are. The elements for statements
hold, with their references replaced, the statement of every finding that has one, in order. The
page is what is rendered where there is no template, and there is one unless the number of a line
that is to be shown has too many digits. -/
theorem page_not_injectable (as bs : List Finding) (f g : Option String)
    (hfindings : List.Forall₂ Finding.Alike as bs) (hfunctions : f.getD "" = "" ↔ g.getD "" = "") :
    (∀ page page', Html.pageOf? as f = some page → Html.pageOf? bs g = some page' →
        Html.marks page = Html.marks page') ∧
      (∀ page, Html.pageOf? as f = some page →
        (Html.statements (Html.pieces page.toList)).map (Html.unescape 0) =
          as.filterMap (fun a => a.place?.map fun place => place.text.toList)) ∧
      (∀ env folder, given (List.lookup "NULLFLOW_HTML_TEMPLATE" env) "" = "" →
        Html.render env folder none (as.filterMap (Html.cardOf? f)) =
          ReportError.printed (Html.pageOf? as f)) ∧
      ((Html.pageOf? as f).isSome ↔ ∀ a ∈ as, ∀ place ∈ a.place?,
        place.file ≠ "" → Text.isWritable place.line = true) := by
  refine ⟨?_, ?_, ?_, Html.isSome_pageOf? as f⟩
  · intro page page' hpage hpage'
    exact Html.marks_of_page? (Html.alike_cards hfunctions hfindings) hpage hpage'
  · intro page hpage
    exact Html.statements_of_pageOf? hpage
  · intro env folder henv
    exact Html.render_untemplated henv folder _

/-- Findings whose texts would close the element they stand in, end an attribute, start a script and
stand for other characters; the last one has no file. -/
def hostileMarkup : List Finding :=
  [.dereference (some "p</div>") .null
      ⟨"</code><script>f(\"&lt;\", '&amp;')</script>", 0, "a\"><b", 1⟩,
   .clean,
   .nullReturn none ⟨"return <p>;", 1, "", 0⟩]

/-- Findings of the same outline with harmless texts. -/
def harmlessMarkup : List Finding :=
  [.nullReturn (some "q") ⟨"return q;", 5, "b.c", 7⟩, .clean,
   .dereference none .potentiallyNull ⟨"", -1, "", -2⟩]

theorem page_not_injectable_hostileMarkup :
    List.Forall₂ Finding.Alike hostileMarkup harmlessMarkup ∧
      ∃ page page', Html.pageOf? hostileMarkup (some "<f>") = some page ∧
        Html.pageOf? harmlessMarkup (some "g") = some page' ∧
        Html.marks page = Html.marks page' ∧
        (Html.statements (Html.pieces page.toList)).map (Html.unescape 0) =
          ["</code><script>f(\"&lt;\", '&amp;')</script>".toList, "return <p>;".toList] ∧
        Html.render [] {} none (hostileMarkup.filterMap (Html.cardOf? (some "<f>"))) = .ok page := by
  have halike : List.Forall₂ Finding.Alike hostileMarkup harmlessMarkup :=
    .cons ⟨rfl, by decide⟩ (.cons ⟨rfl, by decide⟩ (.cons ⟨rfl, by decide⟩ .nil))
  obtain ⟨hmarks, hstatements, hrender, hsome⟩ :=
    page_not_injectable hostileMarkup harmlessMarkup (some "<f>") (some "g") halike (by decide)
  obtain ⟨page, hpage⟩ := Option.isSome_iff_exists.mp (hsome.mpr (by decide +kernel))
  obtain ⟨page', hpage'⟩ := Option.isSome_iff_exists.mp
    ((Html.isSome_pageOf? harmlessMarkup (some "g")).mpr (by decide +kernel))
  refine ⟨halike, page, page', hpage, hpage', hmarks page page' hpage hpage',
    hstatements page hpage, ?_⟩
  rw [hrender [] {} rfl, hpage]
  rfl

end NullSafety
