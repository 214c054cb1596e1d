import Mathlib.Data.List.Forall2
import Mathlib.Data.String.Basic
import NullSafety.Json.Printer

/-!
# Reading JSON back

A reader of JSON texts. It knows how the format is written, and nothing of the printers: blanks may
stand between any two tokens, a text is a sequence of UTF-16 code units that are written as
characters or as escapes, and an array or an object may stand inside another. The numbers it knows
are integers. In either layout, what is printed is read as the value, whatever the texts in it are,
and nothing but a number with too many digits keeps a value from being printed.
-/

namespace NullSafety

/-! ## Lists of results that may be missing -/

section

variable {α β : Type} {f : α → Option β}

theorem forall₂_of_mapM {l : List α} {l' : List β} (h : l.mapM f = some l') :
    List.Forall₂ (fun a b => f a = some b) l l' := by
  induction l generalizing l' with
  | nil =>
      cases h
      exact .nil
  | cons a l ih =>
      rw [List.mapM_cons] at h
      obtain ⟨b, hb, h⟩ := Option.bind_eq_some_iff.mp h
      obtain ⟨bs, hbs, h⟩ := Option.bind_eq_some_iff.mp h
      cases h
      exact .cons hb (ih hbs)

theorem forall_mem_of_forall₂ {R : α → β → Prop} {P : β → Prop} {l : List α} {l' : List β}
    (h : List.Forall₂ R l l') (himp : ∀ a b, R a b → P b) : ∀ b ∈ l', P b := by
  induction h with
  | nil => exact fun b hb => absurd hb List.not_mem_nil
  | cons hab _ ih => exact List.forall_mem_cons.mpr ⟨himp _ _ hab, ih⟩

theorem isSome_mapM {l : List α} : (l.mapM f).isSome ↔ ∀ a ∈ l, (f a).isSome := by
  induction l with
  | nil => exact iff_of_true rfl fun a ha => absurd ha List.not_mem_nil
  | cons a l ih =>
      rw [List.forall_mem_cons, ← ih, List.mapM_cons]
      cases f a with
      | none => simp
      | some b => cases l.mapM f <;> simp

end

namespace Json

/-! ## Code units -/

/-- The UTF-16 code units of a character. -/
def units (c : Char) : List Nat :=
  if c.toNat < 0x10000 then [c.toNat]
  else [0xd800 + (c.toNat - 0x10000) / 0x400, 0xdc00 + (c.toNat - 0x10000) % 0x400]

/-- Whether a code unit is the first half of a pair. -/
def isLead (u : Nat) : Bool := 0xd800 ≤ u && u < 0xdc00

/-- Whether a code unit is the second half of a pair. -/
def isTrail (u : Nat) : Bool := 0xdc00 ≤ u && u < 0xe000

/-- The characters that code units stand for, unless half of a pair is missing. A first half that
was just read is handed on. -/
def characters? : (lead : Option Nat) → List Nat → Option (List Char)
  | none, [] => some []
  | some _, [] => none
  | none, u :: us =>
    if isLead u then characters? (some u) us
    else if isTrail u then none
    else (characters? none us).map (Char.ofNat u :: ·)
  | some lead, u :: us =>
    if isTrail u then
      (characters? none us).map
        (Char.ofNat (0x10000 + (lead - 0xd800) * 0x400 + (u - 0xdc00)) :: ·)
    else none

/-! ## Tokens -/

inductive Token where
  | openArray
  | closeArray
  | openObject
  | closeObject
  | comma
  | colon
  | text (s : String)
  /-- A number, a truth value or null. -/
  | word (v : Json)

/-- Where the reader stands, with what it has read of a word or a text. -/
inductive Mode where
  | between
  | inWord (w : List Char)
  | inText (us : List Nat)
  /-- Behind a backslash in a text. -/
  | escaped (us : List Nat)
  /-- In the code of a unit, with its value so far; after the next digit, `left` more come. -/
  | inCode (us : List Nat) (value left : Nat)

def isBlank (c : Char) : Bool := c == ' ' || c == '\n' || c == '\r' || c == '\t'

def sign? (c : Char) : Option Token :=
  if c = '[' then some .openArray
  else if c = ']' then some .closeArray
  else if c = '\x7b' then some .openObject
  else if c = '\x7d' then some .closeObject
  else if c = ',' then some .comma
  else if c = ':' then some .colon
  else none

/-- Whether a word ends in front of a character. -/
def isDelimiter (c : Char) : Bool := c == '"' || isBlank c || (sign? c).isSome

/-- The character that a backslash and this one stand for. -/
def unescape? (c : Char) : Option Char :=
  if c = '"' ∨ c = '\\' ∨ c = '/' then some c
  else if c = 'b' then some '\x08'
  else if c = 'f' then some '\x0c'
  else if c = 'n' then some '\n'
  else if c = 'r' then some '\r'
  else if c = 't' then some '\t'
  else none

def hexValue? (c : Char) : Option Nat :=
  if '0' ≤ c ∧ c ≤ '9' then some (c.toNat - '0'.toNat)
  else if 'a' ≤ c ∧ c ≤ 'f' then some (c.toNat - 'a'.toNat + 10)
  else if 'A' ≤ c ∧ c ≤ 'F' then some (c.toNat - 'A'.toNat + 10)
  else none

/-- A number without a sign. Only zero itself begins with a zero. -/
def natural? (digits : List Char) : Option Nat :=
  if digits ≠ [] ∧ digits.all Char.isDigit ∧ (digits.head? = some '0' → digits = ['0']) then
    some (Nat.ofDigitChars 10 digits 0)
  else none

def integer? : List Char → Option Int
  | '-' :: digits => (natural? digits).map fun n => -Int.ofNat n
  | digits => (natural? digits).map Int.ofNat

def word? (w : List Char) : Option Json :=
  if w = "null".toList then some .null
  else if w = "true".toList then some (.bool true)
  else if w = "false".toList then some (.bool false)
  else (integer? w).map .int

/-- What a character says outside words and texts, and where the reader stands then. -/
def outside (c : Char) : List Token × Mode :=
  if c = '"' then ([], .inText [])
  else if isBlank c then ([], .between)
  else
    match sign? c with
    | some t => ([t], .between)
    | none => ([], .inWord [c])

/-- The tokens of a text, unless there is something in it that makes no token. -/
def scan : Mode → List Char → Option (List Token)
  | .between, [] => some []
  | .inWord w, [] => (word? w).map fun v => [.word v]
  | .inText _, [] => none
  | .escaped _, [] => none
  | .inCode .., [] => none
  | .between, c :: cs => (scan (outside c).2 cs).map ((outside c).1 ++ ·)
  | .inWord w, c :: cs =>
    if isDelimiter c then
      match word? w with
      | some v => (scan (outside c).2 cs).map fun ts => .word v :: ((outside c).1 ++ ts)
      | none => none
    else scan (.inWord (w ++ [c])) cs
  | .inText us, c :: cs =>
    if c = '\\' then scan (.escaped us) cs
    else if c = '"' then
      match characters? none us with
      | some s => (scan .between cs).map (.text (String.ofList s) :: ·)
      | none => none
    else if c.toNat < 0x20 then none
    else scan (.inText (us ++ units c)) cs
  | .escaped us, c :: cs =>
    if c = 'u' then scan (.inCode us 0 3) cs
    else
      match unescape? c with
      | some d => scan (.inText (us ++ units d)) cs
      | none => none
  | .inCode us value left, c :: cs =>
    match hexValue? c with
    | none => none
    | some d =>
      match left with
      | 0 => scan (.inText (us ++ [16 * value + d])) cs
      | left + 1 => scan (.inCode us (16 * value + d) left) cs

/-! ## Values -/

/-- An array or an object that is not closed yet: what was read of it, and in an object the key of
the value that is being read. -/
inductive Open where
  | array (items : List Json)
  | object (members : List (String × Json)) (key : String)

mutual

/-- Reads a value, inside of what is open, and whatever follows it. -/
def readValue : List Open → List Token → Option Json
  | outer, .word v :: ts => readAfter outer v ts
  | outer, .text s :: ts => readAfter outer (.str s) ts
  | outer, .openArray :: .closeArray :: ts => readAfter outer (.arr []) ts
  | outer, .openArray :: ts => readValue (.array [] :: outer) ts
  | outer, .openObject :: .closeObject :: ts => readAfter outer (.obj []) ts
  | outer, .openObject :: .text key :: .colon :: ts => readValue (.object [] key :: outer) ts
  | _, _ => none

/-- Reads whatever follows a value. -/
def readAfter : List Open → Json → List Token → Option Json
  | [], v, [] => some v
  | .array items :: outer, v, .comma :: ts => readValue (.array (items ++ [v]) :: outer) ts
  | .array items :: outer, v, .closeArray :: ts => readAfter outer (.arr (items ++ [v])) ts
  | .object members key :: outer, v, .comma :: .text next :: .colon :: ts =>
    readValue (.object (members ++ [(key, v)]) next :: outer) ts
  | .object members key :: outer, v, .closeObject :: ts =>
    readAfter outer (.obj (members ++ [(key, v)])) ts
  | _, _, _ => none

end

/-- The value a text stands for. -/
def read? (text : List Char) : Option Json := (scan .between text).bind (readValue [])

/-- Blanks between the tokens, an escaped pair of surrogates, and a character as itself. -/
example : (scan .between "[ \"\\uD83D\\ude00\\/ä\",\n-10 ]".toList).map List.length = some 5 := by
  decide +kernel

/-! ## Texts -/

theorem characters?_units (c : Char) (us : List Nat) :
    characters? none (units c ++ us) = (characters? none us).map (c :: ·) := by
  have hvalid : c.toNat < 0xd800 ∨ 0xdfff < c.toNat ∧ c.toNat < 0x110000 := c.valid
  by_cases hplane : c.toNat < 0x10000
  · have hlead : isLead c.toNat = false := by
      simp only [isLead, Bool.and_eq_false_iff, decide_eq_false_iff_not]
      omega
    have htrail : isTrail c.toNat = false := by
      simp only [isTrail, Bool.and_eq_false_iff, decide_eq_false_iff_not]
      omega
    rw [units, if_pos hplane, List.singleton_append, characters?, hlead, htrail]
    simp only [Bool.false_eq_true, if_false, Char.ofNat_toNat]
  · have hlead : isLead (0xd800 + (c.toNat - 0x10000) / 0x400) = true := by
      simp only [isLead, Bool.and_eq_true, decide_eq_true_eq]
      omega
    have htrail : isTrail (0xdc00 + (c.toNat - 0x10000) % 0x400) = true := by
      simp only [isTrail, Bool.and_eq_true, decide_eq_true_eq]
      omega
    have hcode : 0x10000 + (0xd800 + (c.toNat - 0x10000) / 0x400 - 0xd800) * 0x400 +
        (0xdc00 + (c.toNat - 0x10000) % 0x400 - 0xdc00) = c.toNat := by
      omega
    rw [units, if_neg hplane, List.cons_append, List.singleton_append, characters?, if_pos hlead,
      characters?, if_pos htrail, hcode, Char.ofNat_toNat]

theorem characters?_flatMap_units (s : List Char) :
    characters? none (s.flatMap units) = some s := by
  induction s with
  | nil => rfl
  | cons c s ih => rw [List.flatMap_cons, characters?_units, ih, Option.map_some]

theorem hexValue?_hexDigit (value : Nat) : hexValue? (Text.hexDigit value) = some (value % 16) := by
  have hdigits : ∀ d < 16, hexValue? ("0123456789abcdef".toList.getD d '0') = some d := by decide
  exact hdigits (value % 16) (Nat.mod_lt value (by decide))

theorem scan_hexDigit (us : List Nat) (value left d : Nat) (rest : List Char) :
    scan (.inCode us value (left + 1)) (Text.hexDigit d :: rest) =
      scan (.inCode us (16 * value + d % 16) left) rest := by
  rw [scan, hexValue?_hexDigit]

theorem scan_last_hexDigit (us : List Nat) (value d : Nat) (rest : List Char) :
    scan (.inCode us value 0) (Text.hexDigit d :: rest) =
      scan (.inText (us ++ [16 * value + d % 16])) rest := by
  rw [scan, hexValue?_hexDigit]

/-- The code of a unit is read as that unit. -/
theorem scan_unitEscape {u : Nat} (hu : u < 0x10000) (us : List Nat) (rest : List Char) :
    scan (.inText us) (unitEscape u ++ rest) = scan (.inText (us ++ [u])) rest := by
  have hvalue : 16 * (16 * (16 * (16 * 0 + u / 16 / 16 / 16 % 16) + u / 16 / 16 % 16) +
      u / 16 % 16) + u % 16 = u := by
    omega
  calc scan (.inText us) (unitEscape u ++ rest)
      = scan (.inCode us 0 3) (Text.hexDigit (u / 16 / 16 / 16) :: Text.hexDigit (u / 16 / 16) ::
          Text.hexDigit (u / 16) :: Text.hexDigit u :: rest) := rfl
    _ = scan (.inText (us ++ [u])) rest := by
        rw [scan_hexDigit, scan_hexDigit, scan_hexDigit, scan_last_hexDigit, hvalue]

theorem units_of_lt {c : Char} (h : c.toNat < 0x10000) : units c = [c.toNat] := if_pos h

/-- A character inside a text is read as that character, in whatever way it is written. -/
theorem scan_escapeChar (us : List Nat) (c : Char) (rest : List Char) :
    scan (.inText us) (escapeChar c ++ rest) = scan (.inText (us ++ units c)) rest := by
  have hvalid : c.toNat < 0x110000 := by
    have hc : c.toNat < 0xd800 ∨ 0xdfff < c.toNat ∧ c.toNat < 0x110000 := c.valid
    omega
  have heq : ∀ d : Char, c.toNat = d.toNat → c = d := fun d => Char.toNat_inj.mp
  unfold escapeChar
  split_ifs with hquote hslash hline hreturn htab hback hfeed hplain hplane
  · subst hquote
    rfl
  · subst hslash
    rfl
  · subst hline
    rfl
  · subst hreturn
    rfl
  · subst htab
    rfl
  · rw [heq '\x08' hback]
    rfl
  · rw [heq '\x0c' hfeed]
    rfl
  · rw [List.singleton_append, scan, if_neg hslash, if_neg hquote, if_neg (by omega)]
  · rw [scan_unitEscape hplane, units_of_lt hplane]
  · rw [List.append_assoc, scan_unitEscape (by omega), scan_unitEscape (by omega), units,
      if_neg hplane, List.append_assoc]
    rfl

/-- A text is read as it was, up to the quote that ends it. -/
theorem scan_escaped (us : List Nat) (s rest : List Char) :
    scan (.inText us) (s.flatMap escapeChar ++ rest) =
      scan (.inText (us ++ s.flatMap units)) rest := by
  induction s generalizing us with
  | nil => simp only [List.flatMap_nil, List.nil_append, List.append_nil]
  | cons c s ih =>
      rw [List.flatMap_cons, List.append_assoc, scan_escapeChar, ih, List.flatMap_cons,
        List.append_assoc]

theorem scan_quoteString (s : String) (rest : List Char) :
    scan .between ((quoteString s).toList ++ rest) =
      (scan .between rest).map (.text s :: ·) := by
  have hquoted : (quoteString s).toList ++ rest =
      '"' :: (s.toList.flatMap escapeChar ++ '"' :: rest) := by
    simp [quoteString]
  calc scan .between ((quoteString s).toList ++ rest)
      = (scan (.inText []) (s.toList.flatMap escapeChar ++ '"' :: rest)).map ([] ++ ·) := by
        rw [hquoted]
        rfl
    _ = scan (.inText (s.toList.flatMap units)) ('"' :: rest) := by
        rw [scan_escaped]
        simp
    _ = (scan .between rest).map (.text s :: ·) := by
        rw [scan, if_neg (by decide), if_pos rfl, characters?_flatMap_units]
        simp

/-! ## Words -/

theorem head?_toDigits (n : Nat) :
    (Nat.toDigits 10 n).head? = some '0' → Nat.toDigits 10 n = ['0'] := by
  induction n using Nat.strongRecOn with
  | ind n ih =>
      intro hhead
      by_cases hsmall : n < 10
      · rw [Nat.toDigits_of_lt_base hsmall] at hhead ⊢
        exact congrArg (fun c => [c]) (Option.some.inj hhead)
      · -- the leading digits are those of a smaller number, and that number would be zero
        have hsplit := Nat.toDigits_of_base_le (by decide : 1 < 10) (Nat.le_of_not_lt hsmall)
        rw [hsplit, List.head?_append_of_ne_nil _ Nat.toDigits_ne_nil] at hhead
        have hzero := congrArg (fun ds => Nat.ofDigitChars 10 ds 0) (ih (n / 10) (by omega) hhead)
        have hn : n / 10 = 0 := Nat.ofDigitChars_ten_toDigits.symm.trans hzero
        omega

theorem ne_of_isDigit {c d : Char} (hc : c.isDigit = true) (hd : d.isDigit = false) : c ≠ d := by
  rintro rfl
  exact absurd hc (Bool.eq_false_iff.mp hd)

theorem isDigit_of_mem_toDigits {n : Nat} {c : Char} (h : c ∈ Nat.toDigits 10 n) :
    c.isDigit = true :=
  Nat.isDigit_of_mem_toDigits (by decide) (by decide) h

theorem natural?_toDigits (n : Nat) : natural? (Nat.toDigits 10 n) = some n := by
  have hall : (Nat.toDigits 10 n).all Char.isDigit = true :=
    List.all_eq_true.mpr fun _ => isDigit_of_mem_toDigits
  rw [natural?, if_pos ⟨Nat.toDigits_ne_nil, hall, head?_toDigits n⟩,
    Nat.ofDigitChars_ten_toDigits]

theorem toDigits_eq_cons (n : Nat) : ∃ c cs, Nat.toDigits 10 n = c :: cs ∧ c.isDigit = true := by
  obtain ⟨c, cs, hcons⟩ := List.exists_cons_of_ne_nil (Nat.toDigits_ne_nil (n := n) (b := 10))
  exact ⟨c, cs, hcons, isDigit_of_mem_toDigits (hcons ▸ List.mem_cons_self)⟩

theorem integer?_toDigits (n : Nat) : integer? (Nat.toDigits 10 n) = some (Int.ofNat n) := by
  obtain ⟨c, cs, hcons, hdigit⟩ := toDigits_eq_cons n
  have hplain : integer? (Nat.toDigits 10 n) = (natural? (Nat.toDigits 10 n)).map Int.ofNat := by
    rw [hcons, integer?]
    rintro ds ⟨⟩
    cases hdigit
  rw [hplain, natural?_toDigits, Option.map_some]

/-- A digit or a minus begins a number and none of the three names. -/
theorem word?_of_head {c : Char} (h : c.isDigit = true ∨ c = '-') (cs : List Char) :
    word? (c :: cs) = (integer? (c :: cs)).map .int := by
  have hne : ∀ d ds, d.isDigit = false → d ≠ '-' → c :: cs ≠ d :: ds := by
    rintro d ds hdigit hminus ⟨⟩
    rcases h with h | h
    · exact ne_of_isDigit h hdigit rfl
    · exact hminus h
  have hnull : c :: cs ≠ "null".toList := hne 'n' "ull".toList rfl (by decide)
  have htrue : c :: cs ≠ "true".toList := hne 't' "rue".toList rfl (by decide)
  have hfalse : c :: cs ≠ "false".toList := hne 'f' "alse".toList rfl (by decide)
  rw [word?, if_neg hnull, if_neg htrue, if_neg hfalse]

theorem toList_toString_ofNat (n : Nat) :
    (toString (Int.ofNat n)).toList = Nat.toDigits 10 n := by
  simp [toString, Int.repr]

theorem toList_toString_negSucc (n : Nat) :
    (toString (Int.negSucc n)).toList = '-' :: Nat.toDigits 10 (n + 1) := by
  simp [toString, Int.repr]

theorem word?_int (n : Int) : word? (toString n).toList = some (.int n) := by
  cases n with
  | ofNat n =>
      obtain ⟨c, cs, hcons, hdigit⟩ := toDigits_eq_cons n
      rw [toList_toString_ofNat, hcons, word?_of_head (.inl hdigit), ← hcons, integer?_toDigits,
        Option.map_some]
  | negSucc n =>
      rw [toList_toString_negSucc, word?_of_head (.inr rfl), integer?, natural?_toDigits]
      rfl

theorem isDelimiter_of_isDigit {c : Char} (h : c.isDigit = true) : isDelimiter c = false := by
  have hne : ∀ d : Char, d.isDigit = false → c ≠ d := fun _ => ne_of_isDigit h
  have hsign : sign? c = none := by
    unfold sign?
    rw [if_neg (hne _ rfl), if_neg (hne _ rfl), if_neg (hne _ rfl), if_neg (hne _ rfl),
      if_neg (hne _ rfl), if_neg (hne _ rfl)]
  simp [isDelimiter, isBlank, hsign, hne '"' rfl, hne ' ' rfl, hne '\n' rfl, hne '\r' rfl,
    hne '\t' rfl]

theorem outside_of_not_isDelimiter {c : Char} (h : isDelimiter c = false) :
    outside c = ([], .inWord [c]) := by
  simp only [isDelimiter, Bool.or_eq_false_iff, beq_eq_false_iff_ne, Option.isSome_eq_false_iff,
    Option.isNone_iff_eq_none] at h
  obtain ⟨⟨hquote, hblank⟩, hsign⟩ := h
  rw [outside, if_neg hquote, hblank, hsign]
  rfl

/-- Whether a word that stands in front of a text ends there. -/
def EndsWord (rest : List Char) : Prop := ∀ c ∈ rest.head?, isDelimiter c = true

theorem scan_inWord {word : List Char} (h : ∀ c ∈ word, isDelimiter c = false)
    (w rest : List Char) :
    scan (.inWord w) (word ++ rest) = scan (.inWord (w ++ word)) rest := by
  induction word generalizing w with
  | nil => rw [List.append_nil, List.nil_append]
  | cons c word ih =>
      rw [List.cons_append, scan, h c List.mem_cons_self, if_neg Bool.false_ne_true,
        ih fun d hd => h d (List.mem_cons_of_mem c hd), List.append_assoc, List.singleton_append]

theorem scan_endWord {w : List Char} {v : Json} (hw : word? w = some v) {rest : List Char}
    (h : EndsWord rest) :
    scan (.inWord w) rest = (scan .between rest).map (.word v :: ·) := by
  cases rest with
  | nil => simp only [scan, hw, Option.map_some]
  | cons c rest =>
      simp only [scan, if_pos (h c rfl), hw, Option.map_map]
      rfl

/-- A word is read as its value if it ends where the rest begins. -/
theorem scan_word {w : List Char} {v : Json} (hword : word? w = some v)
    (h : ∀ c ∈ w, isDelimiter c = false) {rest : List Char} (hrest : EndsWord rest) :
    scan .between (w ++ rest) = (scan .between rest).map (.word v :: ·) := by
  cases w with
  | nil => cases hword
  | cons c cs =>
      have hfirst : outside c = ([], .inWord [c]) :=
        outside_of_not_isDelimiter (h c List.mem_cons_self)
      calc scan .between (c :: cs ++ rest)
          = scan (.inWord [c]) (cs ++ rest) := by
            rw [List.cons_append, scan, hfirst]
            simp only [List.nil_append, Option.map_id']
        _ = scan (.inWord (c :: cs)) rest :=
            scan_inWord (fun d hd => h d (List.mem_cons_of_mem c hd)) [c] rest
        _ = (scan .between rest).map (.word v :: ·) := scan_endWord hword hrest

/-! ## Printing -/

/-- A relation between values and their texts that printing keeps to: it holds of the single values,
and of an array or an object if it holds of all that stands in it. -/
structure PrintInvariant (layout : Layout) (R : Json → String → Prop) : Prop where
  null : R .null "null"
  bool (b : Bool) : R (.bool b) (if b then "true" else "false")
  int (n : Int) : R (.int n) (toString n)
  str (s : String) : R (.str s) (quoteString s)
  arr (depth : Nat) (items : List Json) (texts : List String) :
    List.Forall₂ R items texts → R (.arr items) (layout "[" "]" depth texts)
  obj (depth : Nat) (members : List (String × Json)) (texts : List String) :
    List.Forall₂ (fun m text => ∃ value, R m.2 value ∧ text = quoteString m.1 ++ ": " ++ value)
      members texts → R (.obj members) (layout "\x7b" "\x7d" depth texts)

namespace PrintInvariant

variable {layout : Layout} {R : Json → String → Prop}

mutual

theorem print?_all (h : PrintInvariant layout R) (depth : Nat) :
    (v : Json) → ∀ text, v.print? layout depth = some text → R v text
  | .null => by
      rintro _ ⟨⟩
      exact h.null
  | .bool b => by
      rintro _ ⟨⟩
      exact h.bool b
  | .int n => by
      intro text htext
      rw [print?] at htext
      rw [Text.eq_toString_of_decimal? htext]
      exact h.int n
  | .str s => by
      rintro _ ⟨⟩
      exact h.str s
  | .arr items => by
      intro text htext
      rw [print?] at htext
      obtain ⟨texts, htexts, rfl⟩ := Option.map_eq_some_iff.mp htext
      exact h.arr depth items texts (printItems?_all h (depth + 1) items texts htexts)
  | .obj members => by
      intro text htext
      rw [print?] at htext
      obtain ⟨texts, htexts, rfl⟩ := Option.map_eq_some_iff.mp htext
      exact h.obj depth members texts (printMembers?_all h (depth + 1) members texts htexts)

theorem printItems?_all (h : PrintInvariant layout R) (depth : Nat) :
    (items : List Json) → ∀ texts, printItems? layout depth items = some texts →
      List.Forall₂ R items texts
  | [] => by
      rintro _ ⟨⟩
      exact .nil
  | item :: rest => by
      intro _ htexts
      rw [printItems?] at htexts
      obtain ⟨text, htext, htexts⟩ := Option.bind_eq_some_iff.mp htexts
      obtain ⟨texts, hrest, htexts⟩ := Option.bind_eq_some_iff.mp htexts
      cases htexts
      exact .cons (print?_all h depth item text htext) (printItems?_all h depth rest texts hrest)

theorem printMembers?_all (h : PrintInvariant layout R) (depth : Nat) :
    (members : List (String × Json)) → ∀ texts, printMembers? layout depth members = some texts →
      List.Forall₂ (fun m text => ∃ value, R m.2 value ∧ text = quoteString m.1 ++ ": " ++ value)
        members texts
  | [] => by
      rintro _ ⟨⟩
      exact .nil
  | (key, value) :: rest => by
      intro _ htexts
      rw [printMembers?] at htexts
      obtain ⟨text, htext, htexts⟩ := Option.bind_eq_some_iff.mp htexts
      obtain ⟨texts, hrest, htexts⟩ := Option.bind_eq_some_iff.mp htexts
      cases htexts
      exact .cons ⟨text, print?_all h depth value text htext, rfl⟩
        (printMembers?_all h depth rest texts hrest)

end

theorem of_print? (h : PrintInvariant layout R) {depth : Nat} {v : Json} {text : String}
    (htext : v.print? layout depth = some text) : R v text :=
  print?_all h depth v text htext

end PrintInvariant

/-! ## Printed values -/

theorem intercalate_cons {α : Type} (sep l : List α) (ls : List (List α)) :
    sep.intercalate (l :: ls) = l ++ ls.flatMap (sep ++ ·) := by
  induction ls generalizing l with
  | nil => rw [List.intercalate_singleton, List.flatMap_nil, List.append_nil]
  | cons next ls ih =>
      rw [List.intercalate_cons_cons, ih, List.flatMap_cons, List.append_assoc, List.append_assoc]

mutual

/-- The tokens of a value. -/
def tokens : Json → List Token
  | .str s => [.text s]
  | .arr items => .openArray :: ([.comma].intercalate (tokensOfItems items) ++ [.closeArray])
  | .obj members =>
    .openObject :: ([.comma].intercalate (tokensOfMembers members) ++ [.closeObject])
  | v => [.word v]

def tokensOfItems : List Json → List (List Token)
  | [] => []
  | item :: rest => tokens item :: tokensOfItems rest

def tokensOfMembers : List (String × Json) → List (List Token)
  | [] => []
  | (key, value) :: rest => (.text key :: .colon :: tokens value) :: tokensOfMembers rest

end

theorem tokensOfItems_eq_map (items : List Json) : tokensOfItems items = items.map tokens := by
  induction items with
  | nil => rfl
  | cons item items ih => rw [tokensOfItems, ih, List.map_cons]

theorem tokensOfMembers_eq_map (members : List (String × Json)) :
    tokensOfMembers members = members.map fun m => .text m.1 :: .colon :: m.2.tokens := by
  induction members with
  | nil => rfl
  | cons m members ih => rw [tokensOfMembers, ih, List.map_cons]

/-- A text that is read as tokens, in front of whatever does not lengthen its last word. -/
def Spells (text : List Char) (ts : List Token) : Prop :=
  ∀ rest, EndsWord rest → scan .between (text ++ rest) = (scan .between rest).map (ts ++ ·)

theorem scan_sign {c : Char} {t : Token} (h : outside c = ([t], .between)) (rest : List Char) :
    scan .between (c :: rest) = (scan .between rest).map (t :: ·) := by
  rw [scan, h]
  rfl

theorem outside_of_isBlank {c : Char} (h : isBlank c = true) : outside c = ([], .between) := by
  have hquote : c ≠ '"' := by
    rintro rfl
    cases h
  rw [outside, if_neg hquote, if_pos h]

/-- A text of nothing but blanks. -/
def Blank (text : List Char) : Prop := ∀ c ∈ text, isBlank c = true

theorem scan_blank {blank : List Char} (h : Blank blank) (rest : List Char) :
    scan .between (blank ++ rest) = scan .between rest := by
  induction blank with
  | nil => rfl
  | cons c blank ih =>
      rw [List.cons_append, scan, outside_of_isBlank (h c List.mem_cons_self)]
      simp only [List.nil_append, Option.map_id', ih fun d hd => h d (List.mem_cons_of_mem c hd)]

theorem blank_nil : Blank [] := fun _ hc => absurd hc List.not_mem_nil

theorem blank_space : Blank [' '] := by
  intro c hc
  rw [List.mem_singleton.mp hc]
  rfl

theorem endsWord_cons {c : Char} (h : isDelimiter c = true) (rest : List Char) :
    EndsWord (c :: rest) := by
  rintro d ⟨⟩
  exact h

theorem endsWord_blank {blank : List Char} (h : Blank blank) {rest : List Char}
    (hrest : EndsWord rest) : EndsWord (blank ++ rest) := by
  cases blank with
  | nil => exact hrest
  | cons c blank =>
      refine endsWord_cons ?_ _
      simp only [isDelimiter, h c List.mem_cons_self, Bool.or_true, Bool.true_or]

/-- Two characters that are read as the tokens around a list. -/
structure Brackets (opening closing : Char) (t u : Token) : Prop where
  opens : outside opening = ([t], .between)
  closes : outside closing = ([u], .between)
  ends : isDelimiter closing = true

theorem square : Brackets '[' ']' .openArray .closeArray := ⟨rfl, rfl, rfl⟩

theorem curly : Brackets '\x7b' '\x7d' .openObject .closeObject := ⟨rfl, rfl, rfl⟩

namespace Spells

theorem of_word {w : List Char} {v : Json} (hword : word? w = some v)
    (h : ∀ c ∈ w, isDelimiter c = false) : Spells w [.word v] :=
  fun _ hrest => scan_word hword h hrest

/-- One of the three names. -/
theorem of_name {w : List Char} {v : Json} (hword : word? w = some v)
    (h : w.any isDelimiter = false) : Spells w [.word v] :=
  of_word hword fun c hc => Bool.eq_false_iff.mpr (List.any_eq_false.mp h c hc)

theorem of_null : Spells "null".toList [.word .null] := of_name rfl rfl

theorem of_bool (b : Bool) :
    Spells (if b then "true" else "false" : String).toList [.word (.bool b)] := by
  cases b with
  | true => exact of_name rfl rfl
  | false => exact of_name rfl rfl

theorem of_int (n : Int) : Spells (toString n).toList [.word (.int n)] := by
  refine of_word (word?_int n) fun c hc => ?_
  cases n with
  | ofNat n => exact isDelimiter_of_isDigit (isDigit_of_mem_toDigits (toList_toString_ofNat n ▸ hc))
  | negSucc n =>
      rcases List.mem_cons.mp (toList_toString_negSucc n ▸ hc) with rfl | hc
      · rfl
      · exact isDelimiter_of_isDigit (isDigit_of_mem_toDigits hc)

theorem of_text (s : String) : Spells (quoteString s).toList [.text s] :=
  fun rest _ => scan_quoteString s rest

/-- A member of an object. -/
theorem member (key : String) {text : List Char} {ts : List Token} (h : Spells text ts) :
    Spells ((quoteString key).toList ++ ':' :: ' ' :: text) (.text key :: .colon :: ts) := by
  intro rest hrest
  calc scan .between ((quoteString key).toList ++ ':' :: ' ' :: text ++ rest)
      = (scan .between (':' :: ' ' :: (text ++ rest))).map (.text key :: ·) := by
        rw [List.append_assoc, scan_quoteString]
        rfl
    _ = ((scan .between (text ++ rest)).map (.colon :: ·)).map (.text key :: ·) := by
        have hspace : scan .between (' ' :: (text ++ rest)) = scan .between (text ++ rest) :=
          scan_blank blank_space _
        rw [scan_sign rfl, hspace]
    _ = (scan .between rest).map (.text key :: .colon :: ts ++ ·) := by
        rw [h rest hrest, Option.map_map, Option.map_map]
        rfl

/-- Texts with commas between them, each with blanks behind it. -/
theorem intercalate {blank : List Char} (hblank : Blank blank) {texts : List (List Char)}
    {tss : List (List Token)} (h : List.Forall₂ Spells texts tss) :
    Spells ((',' :: blank).intercalate texts) ([.comma].intercalate tss) := by
  induction h with
  | nil =>
      intro rest _
      simp only [List.intercalate_nil, List.nil_append, Option.map_id']
  | @cons text ts texts tss hfirst hmore ih =>
      cases hmore with
      | nil => simpa only [List.intercalate_singleton] using hfirst
      | @cons next us texts tss =>
          intro rest hrest
          have hcomma : EndsWord
              (',' :: (blank ++ ((',' :: blank).intercalate (next :: texts) ++ rest))) :=
            endsWord_cons rfl _
          rw [List.intercalate_cons_cons, List.intercalate_cons_cons, List.append_assoc,
            List.append_assoc, List.cons_append, hfirst _ hcomma, scan_sign rfl,
            scan_blank hblank, ih rest hrest, Option.map_map, Option.map_map]
          simp only [Function.comp_def, List.append_assoc, List.cons_append, List.nil_append]

/-- A list between brackets, laid out with any blanks. -/
theorem list {opening closing : Char} {t u : Token} (hbrackets : Brackets opening closing t u)
    {before behind sep : List Char} (hbefore : Blank before) (hbehind : Blank behind)
    (hsep : Blank sep) {texts : List (List Char)} {tss : List (List Token)}
    (h : List.Forall₂ Spells texts tss) :
    Spells (opening :: (before ++ ((',' :: sep).intercalate texts ++ (behind ++ [closing]))))
      (t :: ([.comma].intercalate tss ++ [u])) := by
  intro rest _
  have hends : EndsWord (behind ++ closing :: rest) :=
    endsWord_blank hbehind (endsWord_cons hbrackets.ends rest)
  calc scan .between
        (opening :: (before ++ ((',' :: sep).intercalate texts ++ (behind ++ [closing]))) ++ rest)
      = (scan .between ((',' :: sep).intercalate texts ++ (behind ++ closing :: rest))).map
          (t :: ·) := by
        rw [List.cons_append, scan_sign hbrackets.opens, List.append_assoc, scan_blank hbefore]
        simp only [List.append_assoc, List.singleton_append]
    _ = (((scan .between rest).map (u :: ·)).map ([.comma].intercalate tss ++ ·)).map (t :: ·) := by
        rw [intercalate hsep h _ hends, scan_blank hbehind, scan_sign hbrackets.closes]
    _ = (scan .between rest).map (t :: ([.comma].intercalate tss ++ [u]) ++ ·) := by
        rw [Option.map_map, Option.map_map]
        simp only [Function.comp_def, List.cons_append, List.append_assoc, List.nil_append]

end Spells

/-- A layout that is read as what it lays out, with commas between, and as the brackets around. -/
def Legible (layout : Layout) : Prop :=
  ∀ {opening closing : Char} {t u : Token}, Brackets opening closing t u →
    ∀ (depth : Nat) {items : List String} {tss : List (List Token)},
      List.Forall₂ Spells (items.map String.toList) tss →
      Spells (layout (.singleton opening) (.singleton closing) depth items).toList
        (t :: ([.comma].intercalate tss ++ [u]))

theorem legible_oneLine : Legible oneLine := by
  intro opening closing t u hbrackets depth items tss h
  simpa [oneLine] using Spells.list hbrackets blank_nil blank_nil blank_space h

theorem Legible.printInvariant {layout : Layout} (h : Legible layout) :
    PrintInvariant layout fun v text => Spells text.toList v.tokens where
  null := .of_null
  bool := .of_bool
  int := .of_int
  str := .of_text
  arr depth items texts hitems := by
    refine h square depth ?_
    rw [tokensOfItems_eq_map, List.forall₂_map_left_iff, List.forall₂_map_right_iff]
    exact hitems.flip
  obj depth members texts hmembers := by
    refine h curly depth ?_
    rw [tokensOfMembers_eq_map, List.forall₂_map_left_iff, List.forall₂_map_right_iff]
    refine hmembers.flip.imp ?_
    rintro _ m ⟨text, htext, rfl⟩
    simpa using Spells.member m.1 htext

/-! ## Reading -/

/-- Behind an opening bracket, a value is not taken for the closing one. -/
theorem readValue_openArray (outer : List Open) (v : Json) (ts : List Token) :
    readValue outer (.openArray :: (v.tokens ++ ts)) =
      readValue (.array [] :: outer) (v.tokens ++ ts) := by
  cases v <;> rfl

mutual

/-- The tokens of a value are read as that value, whatever is open and whatever follows. -/
theorem readValue_tokens : (v : Json) → (outer : List Open) → (ts : List Token) →
    readValue outer (v.tokens ++ ts) = readAfter outer v ts
  | .null, _, _ => rfl
  | .bool _, _, _ => rfl
  | .int _, _, _ => rfl
  | .str _, _, _ => rfl
  | .arr [], _, _ => rfl
  | .arr (item :: items), outer, ts => by
      rw [tokens, tokensOfItems, intercalate_cons, List.cons_append, List.append_assoc,
        List.append_assoc, readValue_openArray, readValue_tokens item, List.singleton_append,
        readAfter_items items, List.nil_append]
  | .obj [], _, _ => rfl
  | .obj ((key, value) :: members), outer, ts => by
      rw [tokens, tokensOfMembers, intercalate_cons, List.cons_append, List.append_assoc,
        List.append_assoc, List.cons_append, List.cons_append, readValue, readValue_tokens value,
        List.singleton_append, readAfter_members members, List.nil_append]

/-- The items that follow a value in an array. -/
theorem readAfter_items : (items : List Json) → (v : Json) → (before : List Json) →
    (outer : List Open) → (ts : List Token) →
    readAfter (.array before :: outer) v
        ((tokensOfItems items).flatMap ([.comma] ++ ·) ++ .closeArray :: ts) =
      readAfter outer (.arr (before ++ v :: items)) ts
  | [], _, _, _, _ => rfl
  | item :: items, v, before, outer, ts => by
      rw [tokensOfItems, List.flatMap_cons, List.append_assoc, List.append_assoc,
        List.singleton_append, readAfter, readValue_tokens item, readAfter_items items,
        List.append_assoc, List.singleton_append]

/-- The members that follow a value in an object. -/
theorem readAfter_members : (members : List (String × Json)) → (v : Json) → (key : String) →
    (before : List (String × Json)) → (outer : List Open) → (ts : List Token) →
    readAfter (.object before key :: outer) v
        ((tokensOfMembers members).flatMap ([.comma] ++ ·) ++ .closeObject :: ts) =
      readAfter outer (.obj (before ++ (key, v) :: members)) ts
  | [], _, _, _, _, _ => rfl
  | (next, value) :: members, v, key, before, outer, ts => by
      rw [tokensOfMembers, List.flatMap_cons, List.append_assoc, List.append_assoc,
        List.singleton_append, List.cons_append, List.cons_append, readAfter,
        readValue_tokens value, readAfter_members members, List.append_assoc,
        List.singleton_append]

end

/-- A text that spells the tokens of a value is read as that value. -/
theorem Spells.read?_eq {text : List Char} {v : Json} (h : Spells text v.tokens) :
    read? text = some v := by
  have hscan : scan .between text = some v.tokens := by
    simpa [scan] using h [] (by rintro c ⟨⟩)
  have hread : readValue [] v.tokens = some v := by
    simpa [readAfter] using readValue_tokens v [] []
  rw [read?, hscan, Option.bind_some, hread]

theorem read?_of_compact? {v : Json} {text : String} (h : v.compact? = some text) :
    read? text.toList = some v :=
  (legible_oneLine.printInvariant.of_print? h).read?_eq

theorem printItems?_eq_mapM (layout : Layout) (depth : Nat) (items : List Json) :
    printItems? layout depth items = items.mapM (print? layout depth) := by
  induction items with
  | nil => rfl
  | cons item items ih =>
      rw [printItems?, List.mapM_cons, ih]
      rfl

theorem printMembers?_eq_mapM (layout : Layout) (depth : Nat) (members : List (String × Json)) :
    printMembers? layout depth members = members.mapM fun m =>
      (print? layout depth m.2).map fun text => quoteString m.1 ++ ": " ++ text := by
  induction members with
  | nil => rfl
  | cons m members ih =>
      rw [printMembers?, List.mapM_cons, ih]
      cases print? layout depth m.2 <;> rfl

variable {layout : Layout} {depth : Nat}

@[simp] theorem isSome_print?_str (s : String) : ((Json.str s).print? layout depth).isSome := rfl

@[simp] theorem isSome_print?_int (n : Int) :
    ((Json.int n).print? layout depth).isSome = Text.isWritable n := by
  rw [print?, Text.isSome_decimal?]

@[simp] theorem isSome_print?_arr (items : List Json) :
    ((Json.arr items).print? layout depth).isSome ↔
      ∀ item ∈ items, (item.print? layout (depth + 1)).isSome := by
  rw [print?, Option.isSome_map, printItems?_eq_mapM, isSome_mapM]

@[simp] theorem isSome_print?_obj (members : List (String × Json)) :
    ((Json.obj members).print? layout depth).isSome ↔
      ∀ m ∈ members, (m.2.print? layout (depth + 1)).isSome := by
  rw [print?, Option.isSome_map, printMembers?_eq_mapM, isSome_mapM]
  simp only [Option.isSome_map]

end Json

end NullSafety
