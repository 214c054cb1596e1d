import NullSafety.Proofs.Equations

/-!
# One state for all paths

What the analysis knows about a variable in front of a node sums up what the paths to that node say
about it. A path says one of four things: the variable is not tracked, it is no pointer, it is a
null pointer, or it is another pointer. The entry of the analysis is not the join of these: an
assignment to a variable that is a pointer on some of the paths only makes the entry definite again,
although on the other paths it changes nothing. What is kept is which kinds of paths there are.
-/

namespace NullSafety

/-! ## Statements, one variable at a time -/

/-- What a statement makes of the entry of a variable. -/
def Statement.entryAfter (stmt : Statement) (x : String) (entry : Option Variable) :
    Option Variable :=
  if stmt.name = some x then
    match stmt.kind, entry with
    | .declaration, _ =>
      some (if stmt.isPointer then ⟨x, true, .ofStored stmt.isNull⟩ else ⟨x, false, .assigned⟩)
    | .assignment, none => some ⟨x, false, .assigned⟩
    | .assignment, some v =>
      some (if v.isPointer then { v with nullability := .ofStored stmt.isNull } else v)
    | _, _ => entry
  else entry

theorem Statement.get?_transfer_of_update {stmt : Statement} {s : State} {v : Variable}
    (h : stmt.update? s = some v) (x : String) :
    (stmt.transfer s).get? x = if v.name = x then some v else s.get? x := by
  unfold Statement.transfer
  rw [h]
  exact State.get?_insert s v x

theorem Statement.transfer_of_update_eq_none {stmt : Statement} {s : State}
    (h : stmt.update? s = none) : stmt.transfer s = s := by
  unfold Statement.transfer
  rw [h]

theorem Statement.get?_transfer (stmt : Statement) (s : State) (x : String) :
    (stmt.transfer s).get? x = stmt.entryAfter x (s.get? x) := by
  unfold Statement.entryAfter
  cases hname : stmt.name with
  | none =>
      have hup : stmt.update? s = none := by
        unfold Statement.update?
        rw [hname]
        cases stmt.kind <;> rfl
      rw [transfer_of_update_eq_none hup]
      simp
  | some y =>
      cases hkind : stmt.kind with
      | declaration =>
          have hup : stmt.update? s = some (if stmt.isPointer then
              ⟨y, true, .ofStored stmt.isNull⟩ else ⟨y, false, .assigned⟩) := by
            rw [Statement.update?, hkind, hname]
          rw [get?_transfer_of_update hup]
          by_cases hx : y = x
          · subst hx
            cases stmt.isPointer <;> simp
          · cases stmt.isPointer <;> simp [hx]
      | assignment =>
          cases hy : s.get? y with
          | none =>
              have hup : stmt.update? s = some ⟨y, false, .assigned⟩ := by
                simp [Statement.update?, hkind, hname, hy]
              rw [get?_transfer_of_update hup]
              by_cases hx : y = x
              · subst hx
                simp [hy]
              · simp [hx]
          | some v =>
              have hv := State.name_of_get? hy
              cases hp : v.isPointer with
              | false =>
                  have hup : stmt.update? s = none := by
                    simp [Statement.update?, hkind, hname, hy, hp]
                  rw [transfer_of_update_eq_none hup]
                  by_cases hx : y = x
                  · subst hx
                    simp [hy, hp]
                  · simp [hx]
              | true =>
                  have hup : stmt.update? s =
                      some { v with nullability := .ofStored stmt.isNull } := by
                    simp [Statement.update?, hkind, hname, hy, hp]
                  rw [get?_transfer_of_update hup]
                  by_cases hx : y = x
                  · subst hx
                    simp [hy, hp, hv]
                  · simp [hv, hx]
      | expression | jump | conditionEntry | branchMarker =>
          have hup : stmt.update? s = none := by
            unfold Statement.update?
            rw [hkind]
          rw [transfer_of_update_eq_none hup]
          simp

theorem get?_pathState_concat (before : List Node) (n : Node) (x : String) :
    (pathState (before ++ [n])).get? x = n.stmt.entryAfter x ((pathState before).get? x) := by
  rw [pathState_concat, Statement.get?_transfer]

/-! ## What a path says -/

/-- What one path says about a variable. -/
inductive Fact where
  | untracked
  | scalar
  | null
  /-- A pointer that is not null. -/
  | nonNull
  deriving DecidableEq, Repr

namespace Fact

def ofEntry : Option Variable → Fact
  | none => .untracked
  | some v =>
    if v.isPointer then if v.nullability = .null then .null else .nonNull else .scalar

def ofStored (isNull : Bool) : Fact := if isNull then .null else .nonNull

/-- What a path says about a variable once it has passed a statement. -/
def after (stmt : Statement) (x : String) (k : Fact) : Fact :=
  if stmt.name = some x then
    match stmt.kind, k with
    | .declaration, _ => if stmt.isPointer then ofStored stmt.isNull else .scalar
    | .assignment, .untracked => .scalar
    | .assignment, .scalar => .scalar
    | .assignment, _ => ofStored stmt.isNull
    | _, _ => k
  else k

theorem ofEntry_eq_null_iff {entry : Option Variable} :
    ofEntry entry = .null ↔ ∃ v, entry = some v ∧ v.isPointer = true ∧ v.nullability = .null := by
  cases entry with
  | none => simp [ofEntry]
  | some v =>
      unfold ofEntry
      cases hp : v.isPointer <;> by_cases h : v.nullability = .null <;> simp [hp, h]

theorem ofEntry_eq_nonNull_iff {entry : Option Variable} :
    ofEntry entry = .nonNull ↔
      ∃ v, entry = some v ∧ v.isPointer = true ∧ v.nullability ≠ .null := by
  cases entry with
  | none => simp [ofEntry]
  | some v =>
      unfold ofEntry
      cases hp : v.isPointer <;> by_cases h : v.nullability = .null <;> simp [hp, h]

theorem ofEntry_stored (x : String) (isNull : Bool) :
    ofEntry (some ⟨x, true, .ofStored isNull⟩) = ofStored isNull := by
  cases isNull <;> rfl

theorem ofEntry_entryAfter (stmt : Statement) (x : String) (entry : Option Variable) :
    ofEntry (stmt.entryAfter x entry) = after stmt x (ofEntry entry) := by
  unfold Statement.entryAfter after
  split
  · cases stmt.kind with
    | declaration =>
        cases stmt.isPointer with
        | true => exact ofEntry_stored x stmt.isNull
        | false => rfl
    | assignment =>
        rcases entry with _ | ⟨y, isPointer, nullability⟩
        · rfl
        · cases isPointer with
          | false => rfl
          | true =>
              have hstored := ofEntry_stored y stmt.isNull
              cases nullability <;> exact hstored
    | expression | jump | conditionEntry | branchMarker => rfl
  · rfl

end Fact

/-! ## What an entry sums up -/

/-- An entry of the analysis sums up the facts that paths contribute. Paths that do not track the
variable leave no trace in it. A null entry is null on some path and no other pointer on any; one
that may be null is null on some path and something else on another. -/
inductive SumsUp (facts : Fact → Prop) : Option Variable → Prop
  | untracked (hs : ¬ facts .scalar) (hn : ¬ facts .null) (hp : ¬ facts .nonNull) :
      SumsUp facts none
  | scalar {x : String} (hs : facts .scalar) (hn : ¬ facts .null) (hp : ¬ facts .nonNull) :
      SumsUp facts (some ⟨x, false, .assigned⟩)
  | null {x : String} (hn : facts .null) (hp : ¬ facts .nonNull) :
      SumsUp facts (some ⟨x, true, .null⟩)
  | nonNull {x : String} (hn : ¬ facts .null) (hp : facts .nonNull) :
      SumsUp facts (some ⟨x, true, .assigned⟩)
  | mixed {x : String} (hn : facts .null) (hp : facts .nonNull ∨ facts .scalar) :
      SumsUp facts (some ⟨x, true, .potentiallyNull⟩)

/-- The entry where two states are merged. -/
def joinEntries : Option Variable → Option Variable → Option Variable
  | some v, some w => some (v.join w)
  | some v, none => some v
  | none, w => w

theorem State.get?_merge_eq_joinEntries (s t : State) (x : String) :
    (s.merge t).get? x = joinEntries (s.get? x) (t.get? x) := by
  rw [State.get?_merge]
  cases s.get? x <;> cases t.get? x <;> rfl

namespace SumsUp

variable {facts facts' : Fact → Prop} {entry entry' : Option Variable}

theorem congr (h : SumsUp facts entry)
    (hsame : ∀ k, k ≠ .untracked → (facts k ↔ facts' k)) : SumsUp facts' entry := by
  have hs := hsame .scalar (by decide)
  have hn := hsame .null (by decide)
  have hp := hsame .nonNull (by decide)
  cases h with
  | untracked h₁ h₂ h₃ => exact .untracked (hs.not.mp h₁) (hn.not.mp h₂) (hp.not.mp h₃)
  | scalar h₁ h₂ h₃ => exact .scalar (hs.mp h₁) (hn.not.mp h₂) (hp.not.mp h₃)
  | null h₁ h₂ => exact .null (hn.mp h₁) (hp.not.mp h₂)
  | nonNull h₁ h₂ => exact .nonNull (hn.not.mp h₁) (hp.mp h₂)
  | mixed h₁ h₂ => exact .mixed (hn.mp h₁) (h₂.imp hp.mp hs.mp)

/-- Where two states are merged, the paths of both come together. -/
theorem join (h : SumsUp facts entry) (h' : SumsUp facts' entry') :
    SumsUp (fun k => facts k ∨ facts' k) (joinEntries entry entry') := by
  -- each pair of entries joins to one entry, and what that sums up follows from its parts
  cases h <;> cases h' <;> constructor <;> tauto

theorem foldl_merge {x : String} {s : State} {sources : List (State × (Fact → Prop))}
    (hs : SumsUp facts (s.get? x)) (h : ∀ q ∈ sources, SumsUp q.2 (q.1.get? x)) :
    SumsUp (fun k => facts k ∨ ∃ q ∈ sources, q.2 k)
      (((sources.map Prod.fst).foldl State.merge s).get? x) := by
  induction sources generalizing s facts with
  | nil => simpa using hs
  | cons q rest ih =>
      rw [List.map_cons, List.foldl_cons]
      have hmerge : SumsUp (fun k => facts k ∨ q.2 k) ((s.merge q.1).get? x) := by
        rw [State.get?_merge_eq_joinEntries]
        exact hs.join (h q List.mem_cons_self)
      refine (ih hmerge fun r hr => h r (List.mem_cons_of_mem _ hr)).congr ?_
      intro k _
      simp only [List.exists_mem_cons_iff, or_assoc]

/-- Where any number of states are merged, the paths of all of them come together. -/
theorem mergeAll {x : String} {sources : List (State × (Fact → Prop))}
    (h : ∀ q ∈ sources, SumsUp q.2 (q.1.get? x)) :
    SumsUp (fun k => ∃ q ∈ sources, q.2 k)
      ((State.mergeAll (sources.map Prod.fst)).get? x) := by
  cases sources with
  | nil => exact .untracked (by simp) (by simp) (by simp)
  | cons q rest =>
      refine (foldl_merge (h q List.mem_cons_self)
        fun r hr => h r (List.mem_cons_of_mem _ hr)).congr ?_
      intro k _
      rw [List.exists_mem_cons_iff]

/-- Storing into a variable that is a pointer on some path. -/
theorem stored {stmt : Statement} {x y : String} {j : Fact} (hname : stmt.name = some x)
    (hkind : stmt.kind = .assignment) (hj : facts j) (hpointer : j = .null ∨ j = .nonNull) :
    SumsUp (fun k => ∃ j, facts j ∧ Fact.after stmt x j = k)
      (some ⟨y, true, .ofStored stmt.isNull⟩) := by
  have hafter : Fact.after stmt x j = Fact.ofStored stmt.isNull := by
    rcases hpointer with rfl | rfl <;> simp [Fact.after, hname, hkind]
  have hall : ∀ i, Fact.after stmt x i = .scalar ∨
      Fact.after stmt x i = Fact.ofStored stmt.isNull := by
    intro i
    cases i <;> simp [Fact.after, hname, hkind]
  cases hnull : stmt.isNull with
  | true =>
      rw [hnull] at hafter hall
      refine .null ⟨j, hj, hafter⟩ ?_
      rintro ⟨i, -, hi⟩
      rcases hall i with h | h <;> rw [hi] at h <;> exact absurd h (by decide)
  | false =>
      rw [hnull] at hafter hall
      refine .nonNull ?_ ⟨j, hj, hafter⟩
      rintro ⟨i, -, hi⟩
      rcases hall i with h | h <;> rw [hi] at h <;> exact absurd h (by decide)

/-- Storing into a variable that is a pointer on no path. -/
theorem storedScalar {stmt : Statement} {x y : String} {k : Fact} (hname : stmt.name = some x)
    (hkind : stmt.kind = .assignment) (hk : facts k) (hn : ¬ facts .null)
    (hp : ¬ facts .nonNull) :
    SumsUp (fun k => ∃ j, facts j ∧ Fact.after stmt x j = k) (some ⟨y, false, .assigned⟩) := by
  have hall : ∀ j, facts j → Fact.after stmt x j = .scalar := by
    intro j hj
    cases j with
    | untracked | scalar => simp [Fact.after, hname, hkind]
    | null => exact absurd hj hn
    | nonNull => exact absurd hj hp
  refine .scalar ⟨k, hk, hall k hk⟩ ?_ ?_
  all_goals
    rintro ⟨j, hj, hafter⟩
    rw [hall j hj] at hafter
    exact absurd hafter (by decide)

/-- A declaration makes all paths say the same. -/
theorem declared {stmt : Statement} {x y : String} {k : Fact} (hname : stmt.name = some x)
    (hkind : stmt.kind = .declaration) (hk : facts k) :
    SumsUp (fun k => ∃ j, facts j ∧ Fact.after stmt x j = k)
      (some (if stmt.isPointer then ⟨y, true, .ofStored stmt.isNull⟩
        else ⟨y, false, .assigned⟩)) := by
  have hall : ∀ j, Fact.after stmt x j =
      if stmt.isPointer then Fact.ofStored stmt.isNull else .scalar := by
    intro j
    simp [Fact.after, hname, hkind]
  simp only [hall]
  cases stmt.isPointer with
  | false => exact .scalar ⟨k, hk, rfl⟩ (by simp) (by simp)
  | true =>
      cases stmt.isNull with
      | false => exact .nonNull (by simp [Fact.ofStored]) ⟨k, hk, rfl⟩
      | true => exact .null ⟨k, hk, rfl⟩ (by simp [Fact.ofStored])

/-- What an entry sums up after a statement that every path has passed. -/
theorem transfer (h : SumsUp facts entry) (hsome : ∃ k, facts k) (stmt : Statement) (x : String) :
    SumsUp (fun k => ∃ j, facts j ∧ Fact.after stmt x j = k) (stmt.entryAfter x entry) := by
  obtain ⟨k, hk⟩ := hsome
  -- a statement that changes nothing about the variable
  have hsame : (∀ j, Fact.after stmt x j = j) → stmt.entryAfter x entry = entry →
      SumsUp (fun k => ∃ j, facts j ∧ Fact.after stmt x j = k) (stmt.entryAfter x entry) := by
    intro hafter hentry
    rw [hentry]
    refine h.congr ?_
    intro k _
    simp [hafter]
  by_cases hname : stmt.name = some x
  · cases hkind : stmt.kind with
    | declaration =>
        simp only [Statement.entryAfter, hname, hkind, if_true]
        exact declared hname hkind hk
    | assignment =>
        simp only [Statement.entryAfter, hname, hkind, if_true]
        cases h with
        | untracked _ hn hp => exact storedScalar hname hkind hk hn hp
        | scalar _ hn hp => exact storedScalar hname hkind hk hn hp
        | null hn _ => exact stored hname hkind hn (Or.inl rfl)
        | nonNull _ hp => exact stored hname hkind hp (Or.inr rfl)
        | mixed hn _ => exact stored hname hkind hn (Or.inl rfl)
    | expression | jump | conditionEntry | branchMarker =>
        exact hsame (fun j => by simp [Fact.after, hkind])
          (by simp [Statement.entryAfter, hkind])
  · exact hsame (fun j => by simp [Fact.after, hname]) (by simp [Statement.entryAfter, hname])

/-- A dereference is worth reporting exactly if the pointer is null on some path. -/
theorem reportable_iff (h : SumsUp facts entry) :
    (∃ v, entry = some v ∧ v.isPointer = true ∧ v.nullability.mayBeNull = true) ↔
      facts .null := by
  cases h with
  | untracked _ hn _ => simp [hn]
  | scalar _ hn _ => simp [hn]
  | null hn _ => simp [hn, Nullability.mayBeNull]
  | nonNull hn _ => simp [hn, Nullability.mayBeNull]
  | mixed hn _ => simp [hn, Nullability.mayBeNull]

/-- A definite verdict rests on at least one path, and no pointer contradicts it. -/
theorem null_of_definite {v : Variable} (h : SumsUp facts (some v)) (hpointer : v.isPointer = true)
    (hnull : v.nullability = .null) : facts .null ∧ ¬ facts .nonNull := by
  cases h with
  | scalar => cases hpointer
  | null hn hp => exact ⟨hn, hp⟩
  | nonNull => cases hnull
  | mixed => cases hnull

/-- Where all paths agree on null, the verdict is definite. -/
theorem definite_of_all_null (h : SumsUp facts entry) (hsome : ∃ k, facts k)
    (hall : ∀ k, facts k → k = .null) :
    ∃ v, entry = some v ∧ v.isPointer = true ∧ v.nullability = .null := by
  obtain ⟨k, hk⟩ := hsome
  have hnull : facts .null := hall k hk ▸ hk
  cases h with
  | untracked _ hn _ => exact absurd hnull hn
  | scalar _ hn _ => exact absurd hnull hn
  | null => exact ⟨_, rfl, rfl, rfl⟩
  | nonNull hn _ => exact absurd hnull hn
  | mixed _ hp =>
      exfalso
      rcases hp with hp | hp <;> exact absurd (hall _ hp) (by decide)

end SumsUp

/-! ## The analysis sums up the paths -/

namespace Flow

variable {f : Flow} {x : String} {n : Node}

/-- What the paths to a node say about a variable. -/
def pathFacts (f : Flow) (x : String) (n : Node) (k : Fact) : Prop :=
  ∃ before, f.Path before n ∧ Fact.ofEntry ((pathState before).get? x) = k

theorem exists_pathFacts (h : f.Reaches n) : ∃ k, f.pathFacts x n k := by
  obtain ⟨before, hp⟩ := h
  exact ⟨_, before, hp, rfl⟩

/-- A path that says something about a variable has come from a node that leads here. -/
theorem pathFacts_iff {k : Fact} (hk : k ≠ .untracked) :
    f.pathFacts x n k ↔
      ∃ p, Leads f.edges p n ∧ ∃ j, f.pathFacts x p j ∧ Fact.after p.stmt x j = k := by
  constructor
  · rintro ⟨before, hpath, hfact⟩
    rcases path_iff.mp hpath with ⟨rfl, -⟩ | ⟨passed, p, rfl, hpath, hlead⟩
    · exact absurd hfact.symm hk
    · rw [get?_pathState_concat, Fact.ofEntry_entryAfter] at hfact
      exact ⟨p, hlead, _, ⟨passed, hpath, rfl⟩, hfact⟩
  · rintro ⟨p, hlead, j, ⟨passed, hpath, rfl⟩, hfact⟩
    refine ⟨passed ++ [p], .step hpath hlead, ?_⟩
    rw [get?_pathState_concat, Fact.ofEntry_entryAfter]
    exact hfact

end Flow

/-- **The analysis sums up the paths.** In front of every node that control can get to, the entry
of a variable sums up what the paths to the node say about it. -/
theorem Analysis.sumsUp_pathFacts {f : Flow} (h : f.Acyclic) (x : String) :
    ∀ n, f.Reaches n →
      ∃ s, (ofFlow f).before? n = some s ∧ SumsUp (f.pathFacts x n) (s.get? x) := by
  refine h.induction ?_
  intro n hn ih
  refine ⟨_, before?_eq h hn, ?_⟩
  -- what each predecessor leaves, together with the facts that it sums up
  let leave (p : Node) : Option (State × (Fact → Prop)) :=
    ((ofFlow f).after? p).map fun s =>
      (s, fun k => ∃ j, f.pathFacts x p j ∧ Fact.after p.stmt x j = k)
  have hstates : ((predecessors f.edges n).filterMap leave).map Prod.fst =
      (predecessors f.edges n).filterMap (ofFlow f).after? := by
    rw [List.map_filterMap]
    apply List.filterMap_congr
    intro p _
    simp only [leave, Option.map_map]
    exact Option.map_id'
  have hleave : ∀ q ∈ (predecessors f.edges n).filterMap leave, SumsUp q.2 (q.1.get? x) := by
    intro q hq
    obtain ⟨p, hp, hq⟩ := List.mem_filterMap.mp hq
    obtain ⟨t, ht, rfl⟩ := Option.map_eq_some_iff.mp hq
    have hreach : f.Reaches p := after?_isSome.mp (by rw [ht]; rfl)
    obtain ⟨s, hs, hsum⟩ := ih p hreach (leads_iff_mem_predecessors.mpr hp)
    have hts : t = p.stmt.transfer s :=
      Option.some.inj (ht.symm.trans (after?_of_before? h hreach hs))
    rw [hts, Statement.get?_transfer]
    exact hsum.transfer (Flow.exists_pathFacts hreach) p.stmt x
  rw [← hstates]
  refine (SumsUp.mergeAll hleave).congr ?_
  intro k hk
  rw [Flow.pathFacts_iff hk]
  constructor
  · rintro ⟨q, hq, hqk⟩
    obtain ⟨p, hp, hq⟩ := List.mem_filterMap.mp hq
    obtain ⟨t, -, rfl⟩ := Option.map_eq_some_iff.mp hq
    exact ⟨p, leads_iff_mem_predecessors.mpr hp, hqk⟩
  · rintro ⟨p, hlead, j, ⟨passed, hpath, hj⟩, hjk⟩
    obtain ⟨t, ht⟩ := Option.isSome_iff_exists.mp (after?_isSome.mpr ⟨passed, hpath⟩)
    have hleft : leave p = some (t, fun k => ∃ j, f.pathFacts x p j ∧
        Fact.after p.stmt x j = k) := by
      simp only [leave, ht, Option.map_some]
    exact ⟨_, List.mem_filterMap.mpr ⟨p, leads_iff_mem_predecessors.mp hlead, hleft⟩,
      j, ⟨passed, hpath, hj⟩, hjk⟩

end NullSafety
