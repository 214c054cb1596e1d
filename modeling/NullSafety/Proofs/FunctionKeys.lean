import Mathlib.Data.List.Forall2
import Mathlib.Data.List.Induction
import Mathlib.Data.List.Perm.Subperm
import NullSafety.FunctionGraph
import NullSafety.Graph.Listing
import NullSafety.Proofs.BuilderGraph

/-!
# The keys of functions

The graphs of a source are held under keys. A graph has the name of its scope, and a scope without
a name gets a number; a key that is used again holds the graph that came last. So the graphs of all
functions are there exactly if no two functions come to the same key, and what is lost otherwise
is the graph of each function whose key comes again.
-/

namespace NullSafety

/-! ## The name of a graph -/

namespace Graph

theorem name_addEdge (g : Graph) (src dst : Node) (kind : Edge.Kind) :
    (g.addEdge src dst kind).name = g.name := by
  unfold addEdge
  split <;> rfl

theorem name_grow (g : Graph) (stmt : Statement) (sources : List (Node × Edge.Kind)) :
    (g.grow stmt sources).name = g.name := by
  induction sources using List.reverseRecOn with
  | nil => rfl
  | append_singleton sources s ih => rw [grow_concat, name_addEdge, ih]

end Graph

namespace Builder

theorem name_step (b : Builder) (event : Event) : (b.step event).graph.name = b.graph.name := by
  refine step_preserves (P := fun b' => b'.graph.name = b.graph.name) ?_ ?_ ?_ ?_ rfl event
  · intro b' stmt _ _ hb'
    rw [graph_append, Graph.name_grow, hb']
  · intro b' stmt _ _ hb'
    rw [graph_enter, Graph.name_grow, hb']
  · intro b' frame rest _ _ hb'
    rw [graph_beginElse, Graph.name_grow, hb']
  · intro b' frame rest _ hb'
    rw [graph_close, Graph.name_grow, hb']

theorem name_run (b : Builder) (events : List Event) :
    (b.run events).graph.name = b.graph.name :=
  run_preserves (P := fun b' => b'.graph.name = b.graph.name)
    (fun b' event hb' => (name_step b' event).trans hb') rfl events

end Builder

theorem FunctionGraph.name_of_ofScope {s : Scope} {ts : TokenList} {o : Options}
    {f : FunctionGraph} (h : FunctionGraph.ofScope s ts o = .ok f) : f.graph.name = s.name := by
  unfold FunctionGraph.ofScope at h
  split at h
  · cases h
  · cases h
    show (Builder.step _ _).graph.name = s.name
    rw [Builder.name_step, Builder.name_run]

/-! ## Keys -/

theorem length_eraseDups_eq_iff (l : List String) : l.eraseDups.length = l.length ↔ l.Nodup := by
  constructor
  · intro hlength
    have hsubperm : l.eraseDups.Subperm l :=
      List.subperm_of_subset (nodup_eraseDups l) fun _ ha => List.mem_eraseDups.mp ha
    exact (hsubperm.perm_of_length_le (Nat.le_of_eq hlength.symm)).nodup_iff.mp (nodup_eraseDups l)
  · intro hnodup
    exact ((List.perm_ext_iff_of_nodup (nodup_eraseDups l) hnodup).mpr
      fun _ => List.mem_eraseDups).length_eq

namespace Scope

/-- The key of a function: its name, or else one made from a number. -/
def key (s : Scope) (before : Nat) : String :=
  (s.name.filter (· ≠ "")).getD ("<function@" ++ toString before ++ ">")

/-- The keys that functions come to, one after the other. The number in a key is that of the
different keys before it. -/
def keys (functions : List Scope) : List String :=
  functions.foldl (fun before s => before ++ [s.key before.eraseDups.length]) []

theorem keys_concat (functions : List Scope) (s : Scope) :
    keys (functions ++ [s]) = keys functions ++ [s.key (keys functions).eraseDups.length] :=
  List.foldl_concat ..

theorem length_keys (functions : List Scope) : (keys functions).length = functions.length := by
  induction functions using List.reverseRecOn with
  | nil => rfl
  | append_singleton functions s ih =>
      rw [keys_concat, List.length_append, ih, List.length_append]
      rfl

/-- As long as no key comes twice, the number of keys before a function is that of functions. -/
theorem keys_eq_mapIdx {functions : List Scope}
    (h : (keys functions).Nodup ∨ (functions.mapIdx fun i s => s.key i).Nodup) :
    keys functions = functions.mapIdx fun i s => s.key i := by
  induction functions using List.reverseRecOn with
  | nil => rfl
  | append_singleton functions s ih =>
      rw [keys_concat, List.mapIdx_concat] at h
      have hbefore := ih (h.imp (fun h => (List.nodup_append.mp h).1)
        fun h => (List.nodup_append.mp h).1)
      -- with either list the keys before are distinct, so to count them is to count functions
      have hnodup : (keys functions).Nodup := by
        rcases h with h | h
        · exact (List.nodup_append.mp h).1
        · rw [hbefore]
          exact (List.nodup_append.mp h).1
      rw [keys_concat, List.mapIdx_concat, (length_eraseDups_eq_iff _).mpr hnodup, length_keys,
        hbefore]

theorem nodup_keys_iff (functions : List Scope) :
    (keys functions).Nodup ↔ (functions.mapIdx fun i s => s.key i).Nodup :=
  ⟨fun h => keys_eq_mapIdx (.inl h) ▸ h, fun h => keys_eq_mapIdx (.inr h) ▸ h⟩

end Scope

namespace FunctionGraph

theorem key_eq {s : Scope} {f : FunctionGraph} (h : f.graph.name = s.name) (before : Nat) :
    f.key before = s.key before := by
  unfold FunctionGraph.key Scope.key
  rw [h]
  cases s.name with
  | none => rfl
  | some name => by_cases hname : name = "" <;> simp [Option.filter, hname]

/-! ## Putting a graph under its key -/

theorem lookup_cons_eq_ite (k : String) (entry : String × FunctionGraph)
    (rest : List (String × FunctionGraph)) :
    (entry :: rest).lookup k = if k = entry.1 then some entry.2 else rest.lookup k := by
  obtain ⟨key, f⟩ := entry
  rw [List.lookup_cons]
  by_cases hk : k = key
  · rw [if_pos hk, beq_iff_eq.mpr hk]
  · rw [if_neg hk, beq_false_of_ne hk]

section

variable (key : String) (f : FunctionGraph) (done : List (String × FunctionGraph))

theorem put_of_notMem (h : key ∉ done.map Prod.fst) : put key f done = done ++ [(key, f)] := by
  induction done with
  | nil => rfl
  | cons entry rest ih =>
      obtain ⟨hne, hrest⟩ := not_or.mp (mt List.mem_cons.mpr h)
      rw [put, if_neg (Ne.symm hne), ih hrest]
      rfl

theorem map_fst_put_of_mem (h : key ∈ done.map Prod.fst) :
    (put key f done).map Prod.fst = done.map Prod.fst := by
  induction done with
  | nil => cases h
  | cons entry rest ih =>
      rw [put]
      split
      · rfl
      · rename_i hne
        have hrest := (List.mem_cons.mp h).resolve_left (Ne.symm hne)
        exact congrArg (entry.1 :: ·) (ih hrest)

theorem map_fst_put {keys : List String} (h : done.map Prod.fst = keys.eraseDups) :
    (put key f done).map Prod.fst = (keys ++ [key]).eraseDups := by
  have hmem : key ∈ done.map Prod.fst ↔ key ∈ keys := by rw [h, List.mem_eraseDups]
  rw [eraseDups_concat]
  split
  · rename_i hkey
    rw [map_fst_put_of_mem key f done (hmem.mpr hkey), h]
  · rename_i hkey
    rw [put_of_notMem key f done (mt hmem.mp hkey), List.map_append, h]
    rfl

/-- The graph put last is the one found. -/
theorem lookup_put (k : String) :
    (put key f done).lookup k = if k = key then some f else done.lookup k := by
  induction done with
  | nil => exact lookup_cons_eq_ite k (key, f) []
  | cons entry rest ih =>
      rw [put]
      split
      · rename_i heq
        rw [lookup_cons_eq_ite, lookup_cons_eq_ite, heq]
        split <;> rfl
      · rename_i hne
        rw [lookup_cons_eq_ite, lookup_cons_eq_ite, ih]
        by_cases hk : k = entry.1
        · rw [if_pos hk, if_neg (fun h => hne (hk.symm.trans h)), if_pos hk]
        · rw [if_neg hk, if_neg hk]

end

/-! ## All functions of a source -/

variable {ts : TokenList} {o : Options}

/-- What is held of the graphs of functions: for each key one, the last that came to it. -/
structure Collected (ts : TokenList) (o : Options) (functions : List Scope)
    (graphs : List FunctionGraph) (done : List (String × FunctionGraph)) : Prop where
  built : List.Forall₂ (fun s f => ofScope s ts o = .ok f) functions graphs
  keys : done.map Prod.fst = (Scope.keys functions).eraseDups
  latest : ∀ key, done.lookup key = ((Scope.keys functions).zip graphs).reverse.lookup key
  whole : (Scope.keys functions).Nodup → done.map Prod.snd = graphs

namespace Collected

variable {functions : List Scope} {graphs : List FunctionGraph}
  {done : List (String × FunctionGraph)}

theorem length_done (h : Collected ts o functions graphs done) :
    done.length = (Scope.keys functions).eraseDups.length := by
  rw [← h.keys, List.length_map]

theorem put (h : Collected ts o functions graphs done) {s : Scope} {f : FunctionGraph}
    (hf : ofScope s ts o = .ok f) :
    Collected ts o (functions ++ [s]) (graphs ++ [f])
      (FunctionGraph.put (f.key done.length) f done) := by
  have hkey : f.key done.length = s.key (Scope.keys functions).eraseDups.length := by
    rw [key_eq (name_of_ofScope hf), h.length_done]
  have hzip : (Scope.keys functions).length = graphs.length := by
    rw [Scope.length_keys, h.built.length_eq]
  rw [hkey]
  refine ⟨List.rel_append h.built (.cons hf .nil), ?_, ?_, ?_⟩
  · rw [Scope.keys_concat]
    exact map_fst_put _ f done h.keys
  · intro key
    rw [lookup_put, h.latest, Scope.keys_concat, List.zip_append hzip, List.reverse_append]
    exact (lookup_cons_eq_ite key (_, f) _).symm
  · -- the key is new, so the graph is put behind the others and replaces none
    intro hnodup
    rw [Scope.keys_concat, List.nodup_append] at hnodup
    have hnew := fun hmem => hnodup.2.2 _ hmem _ (List.mem_singleton_self _) rfl
    rw [put_of_notMem _ f done (by rw [h.keys, List.mem_eraseDups]; exact hnew), List.map_append,
      h.whole hnodup.1]
    rfl

/-- The scopes that are no functions are passed over. -/
theorem ofScopes (h : Collected ts o functions graphs done) {scopes : List Scope}
    {all : List (String × FunctionGraph)} (hall : ofScopes ts o scopes done = .ok all) :
    ∃ more, Collected ts o (functions ++ scopes.filter Scope.isFunction) (graphs ++ more) all := by
  induction scopes generalizing functions graphs done with
  | nil =>
      cases hall
      exact ⟨[], by simpa using h⟩
  | cons s rest ih =>
      rw [FunctionGraph.ofScopes] at hall
      split at hall
      · rename_i hs
        cases hf : ofScope s ts o with
        | error e =>
            rw [hf] at hall
            cases hall
        | ok f =>
            rw [hf] at hall
            obtain ⟨more, hmore⟩ := ih (h.put hf) hall
            exact ⟨f :: more, by simpa [hs] using hmore⟩
      · rename_i hs
        obtain ⟨more, hmore⟩ := ih h hall
        exact ⟨more, by simpa [hs] using hmore⟩

theorem length_done_eq_iff (h : Collected ts o functions graphs done) :
    done.length = functions.length ↔ (Scope.keys functions).Nodup := by
  rw [h.length_done, ← Scope.length_keys, length_eraseDups_eq_iff]

end Collected

end FunctionGraph

/-- **What becomes of the functions of a source.** If all of them can be read, there is a graph for
each, and it is put under the key of its function. The keys held are those that functions came to,
in the order of their first use, and under each is the graph of the last function that came to it.
So every function is there, with the graphs in the order of the functions, if and only if no two
functions have the same name, a function without one being named by its place. -/
theorem functions_kept_iff_keys_distinct (ts : TokenList) (o : Options) (scopes : List Scope)
    (done : List (String × FunctionGraph)) (h : FunctionGraph.ofScopes ts o scopes [] = .ok done) :
    let functions := scopes.filter Scope.isFunction
    let keys := Scope.keys functions
    let distinct := (functions.mapIdx fun i s => s.key i).Nodup
    ∃ graphs, List.Forall₂ (fun s f => FunctionGraph.ofScope s ts o = .ok f) functions graphs ∧
      done.map Prod.fst = keys.eraseDups ∧
      (∀ key, done.lookup key = (keys.zip graphs).reverse.lookup key) ∧
      (done.length = functions.length ↔ distinct) ∧
      (done.map Prod.snd = graphs ↔ distinct) := by
  intro functions keys distinct
  have hnone : FunctionGraph.Collected ts o [] [] [] := ⟨.nil, rfl, fun _ => rfl, fun _ => rfl⟩
  obtain ⟨graphs, hgraphs⟩ := hnone.ofScopes h
  rw [List.nil_append, List.nil_append] at hgraphs
  have hlength : done.length = functions.length ↔ distinct :=
    hgraphs.length_done_eq_iff.trans (Scope.nodup_keys_iff functions)
  refine ⟨graphs, hgraphs.built, hgraphs.keys, hgraphs.latest, hlength, ?_, ?_⟩
  · intro hwhole
    rw [← hlength, hgraphs.built.length_eq, ← hwhole, List.length_map]
  · intro hdistinct
    exact hgraphs.whole ((Scope.nodup_keys_iff functions).mpr hdistinct)

/-- `{ g(); } { h(); }`: two bodies. -/
def twoBodies : TokenList where
  tokens := #[{ text := "\x7b" }, { text := "g" }, { text := "(" }, { text := ")" },
    { text := ";" }, { text := "\x7d" }, { text := "\x7b" }, { text := "h" }, { text := "(" },
    { text := ")" }, { text := ";" }, { text := "\x7d" }]

/-- A function with a name, a class, a function without a name, and one that has no body and is
named after its class. -/
def namedApart : List Scope :=
  [{ kind := "Function", functionName := some "f", bodyStart := some 0, bodyEnd := some 5 },
    { kind := "Class", className := some "f" },
    { kind := "Function", functionName := some "", bodyStart := some 6, bodyEnd := some 11 },
    { kind := "Function", className := some "C" }]

theorem functions_kept_iff_keys_distinct_namedApart :
    ∃ done, FunctionGraph.ofScopes twoBodies {} namedApart [] = .ok done ∧
      done.length = (namedApart.filter Scope.isFunction).length ∧
      List.Forall₂ (fun s f => FunctionGraph.ofScope s twoBodies {} = .ok f)
        (namedApart.filter Scope.isFunction) (done.map Prod.snd) ∧
      done.map Prod.fst = ["f", "<function@1>", "C"] := by
  cases hdone : FunctionGraph.ofScopes twoBodies {} namedApart [] with
  | error e =>
      have hok : (FunctionGraph.ofScopes twoBodies {} namedApart []).toOption.isSome = true := by
        decide +kernel
      rw [hdone] at hok
      cases hok
  | ok done =>
      obtain ⟨graphs, hbuilt, hkeys, -, hlength, hgraphs⟩ :=
        functions_kept_iff_keys_distinct twoBodies {} namedApart done hdone
      have hdistinct :
          ((namedApart.filter Scope.isFunction).mapIdx fun i s => s.key i).Nodup := by
        decide +kernel
      refine ⟨done, rfl, hlength.mpr hdistinct, ?_, ?_⟩
      · rw [hgraphs.mpr hdistinct]
        exact hbuilt
      · rw [hkeys]
        decide +kernel

/-- Two functions of one name, as where one overloads the other. -/
def overloads : List Scope :=
  [{ kind := "Function", functionName := some "f", bodyStart := some 0, bodyEnd := some 5 },
    { kind := "Function", functionName := some "f", bodyStart := some 6, bodyEnd := some 11 }]

/-- Of two functions of one name only the second is there. -/
theorem overloaded_function_lost :
    (overloads.filter Scope.isFunction).length = 2 ∧
      (FunctionGraph.ofScopes twoBodies {} overloads []).toOption.map
        (List.map fun entry => (entry.1, entry.2.graph.flow.listing)) =
          some [("f", "Node: h ( );")] := by
  decide +kernel

end NullSafety
