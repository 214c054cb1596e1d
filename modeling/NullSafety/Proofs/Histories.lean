import NullSafety.Proofs.Entries
import NullSafety.Proofs.Grown
import NullSafety.Proofs.Merging

/-!
# Histories and hashes of states

Two states count as equal if they hold the same entries, in whatever order. A hash is taken over the
entries in their order, and that order goes back to how the state came about: the names stand as
they were first mentioned, along the whole history of the state. So equal states may be hashed
apart, and it is the order of first mention that decides.
-/

namespace NullSafety

/-! ## Names in the order of their first mention -/

theorem eraseDups_append_eq_filter (l k : List String) :
    (l ++ k).eraseDups = l.eraseDups ++ k.eraseDups.filter (fun x => x ∉ l.eraseDups) := by
  induction k using List.reverseRecOn with
  | nil => simp
  | append_singleton k a ih =>
      rw [← List.append_assoc, eraseDups_concat, eraseDups_concat, ih]
      by_cases hk : a ∈ k
      · rw [if_pos (List.mem_append_right l hk), if_pos hk]
      · rw [if_neg hk, List.filter_append]
        by_cases hl : a ∈ l
        · rw [if_pos (List.mem_append_left k hl)]
          simp [hl]
        · rw [if_neg fun h => (List.mem_append.mp h).elim hl hk]
          simp [hl]

namespace State

variable {s t : State} {mentioned mentioned' : List String}

theorem names_insert_eq_eraseDups (h : s.names = mentioned.eraseDups) (v : Variable) :
    (s.insert v).names = (mentioned ++ [v.name]).eraseDups := by
  rw [names_insert, eraseDups_concat, h]
  simp only [List.mem_eraseDups]

theorem names_foldl_insert (h : s.names = mentioned.eraseDups) (vars : List Variable) :
    (vars.foldl insert s).names = (mentioned ++ vars.map Variable.name).eraseDups := by
  induction vars generalizing s mentioned with
  | nil => rw [List.map_nil, List.append_nil, List.foldl_nil, h]
  | cons v vars ih =>
      rw [List.foldl_cons, ih (names_insert_eq_eraseDups h v), List.map_cons, List.append_assoc,
        List.singleton_append]

theorem names_transfer_eq_eraseDups (h : s.names = mentioned.eraseDups) (stmt : Statement) :
    (stmt.transfer s).names = (mentioned ++ stmt.target?.toList).eraseDups := by
  unfold Statement.transfer
  cases hupdate : stmt.update? s with
  | some v =>
      rw [(Statement.update?_eq_some hupdate).1]
      exact names_insert_eq_eraseDups h v
  | none =>
      -- nothing is put down, but then the target has been mentioned before
      cases htarget : stmt.target? with
      | none =>
          rw [Option.toList_none, List.append_nil]
          exact h
      | some x =>
          have hx : x ∈ s.names := Statement.mem_names_of_update?_eq_none hupdate htarget
          rw [h, List.mem_eraseDups] at hx
          rw [Option.toList_some, eraseDups_concat, if_pos hx]
          exact h

theorem names_merge_eq_eraseDups (hs : s.names = mentioned.eraseDups)
    (ht : t.names = mentioned'.eraseDups) :
    (s.merge t).names = (mentioned ++ mentioned').eraseDups := by
  rw [names_merge, eraseDups_append_eq_filter, hs, ht]

end State

/-! ## Histories -/

/-- How a state comes about. -/
inductive History where
  | given (vars : List Variable)
  | insert (past : History) (v : Variable)
  | transfer (past : History) (stmt : Statement)
  | merge (left right : History)

namespace History

def state : History → State
  | given vars => .ofList vars
  | insert past v => past.state.insert v
  | transfer past stmt => stmt.transfer past.state
  | merge left right => left.state.merge right.state

/-- The names that come up, one after the other and as often as they do. -/
def mentions : History → List String
  | given vars => vars.map Variable.name
  | insert past v => past.mentions ++ [v.name]
  | transfer past stmt => past.mentions ++ stmt.target?.toList
  | merge left right => left.mentions ++ right.mentions

theorem names_state (h : History) : h.state.names = h.mentions.eraseDups := by
  induction h with
  | given vars => exact @State.names_foldl_insert .empty [] rfl vars
  | insert past v ih => exact State.names_insert_eq_eraseDups ih v
  | transfer past stmt ih => exact State.names_transfer_eq_eraseDups ih stmt
  | merge left right ihl ihr => exact State.names_merge_eq_eraseDups ihl ihr

end History

/-! ## Hashes -/

namespace State

variable {s t : State}

/-- A hash sees all of a state. -/
theorem hashKey_eq_iff : s.hashKey = t.hashKey ↔ s = t := by
  constructor
  · intro h
    have hentries := congrArg (List.map Prod.snd) h
    unfold hashKey at hentries
    rw [List.map_map, List.map_map] at hentries
    exact State.ext (by simpa [Function.comp_def] using hentries)
  · rintro rfl
    rfl

theorem eq_iff_names_eq (h : s.sameEntries t = true) : s = t ↔ s.names = t.names :=
  ⟨congrArg names, fun hnames => ext_of_same hnames (sameEntries_iff_same.mp h)⟩

theorem sameEntries_self (s : State) : s.sameEntries s = true := (Same.refl s).sameEntries

end State

/-- **Which states are hashed alike.** Whatever the hash of a state is, if it tells different lists
of entries apart: two states have the same hash if and only if they are equal and their histories
first mention the names in the same order. Equality alone does not see to that. -/
theorem hashed_alike_iff {Hash : Type} (hash : List (String × Variable) → Hash)
    (hinj : Function.Injective hash) (h k : History) :
    hash h.state.hashKey = hash k.state.hashKey ↔
      h.state.sameEntries k.state = true ∧ h.mentions.eraseDups = k.mentions.eraseDups := by
  rw [hinj.eq_iff, State.hashKey_eq_iff, ← h.names_state, ← k.names_state]
  constructor
  · intro heq
    rw [heq]
    exact ⟨k.state.sameEntries_self, rfl⟩
  · rintro ⟨hsame, hnames⟩
    exact (State.eq_iff_names_eq hsame).mpr hnames

def declareNull : Statement := .declaration "int *p = NULL;" (some "p") true true true [] {}

def declareAddress : Statement := .declaration "int *q = &x;" (some "q") true false true [] {}

/-- One declaration and then the other. -/
def declaredInTurn (first second : Statement) : History :=
  .transfer (.transfer (.given []) first) second

/-- The two variables from two branches that meet. In one of them `q` was known before, as no
pointer. -/
def declaredInBranches : History :=
  .merge (.given [⟨"p", true, .null⟩])
    (.transfer (.given [⟨"q", false, .assigned⟩]) declareAddress)

theorem hashed_alike_iff_declaredInBranches :
    let turns := declaredInTurn declareNull declareAddress
    turns.state.sameEntries declaredInBranches.state = true ∧
      turns.mentions.eraseDups = declaredInBranches.mentions.eraseDups ∧
      id turns.state.hashKey = id declaredInBranches.state.hashKey := by
  intro turns
  have hsame : turns.state.sameEntries declaredInBranches.state = true := by decide
  have hmentions : turns.mentions.eraseDups = declaredInBranches.mentions.eraseDups := by decide
  exact ⟨hsame, hmentions,
    (hashed_alike_iff id Function.injective_id turns declaredInBranches).mpr ⟨hsame, hmentions⟩⟩

/-- With the declarations the other way round the states are equal, and a hash that tells different
lists of entries apart is not. -/
theorem equal_states_hashed_apart :
    let state := (declaredInTurn declareNull declareAddress).state
    let state' := (declaredInTurn declareAddress declareNull).state
    state.sameEntries state' = true ∧ state.hashKey ≠ state'.hashKey := by
  decide

end NullSafety
