import ExomonadHarness.Support.Checked

/-! Resolving the nodes of a graph to the one value of their leaves, with a cache of the
nodes done and a set of the nodes in progress. -/

namespace Memo

open Checked

variable {Node Value Failure : Type}

/-- What a node is: a leaf with its value, or a copy of other nodes. -/
structure Graph (Node Value Failure : Type) where
  expand : Node → Except Failure (Value ⊕ List Node)
  cyclic : Node → Failure
  ambiguous : Node → Failure

/-- A resolution is refused, or has run out of steps. -/
inductive Stop (Failure : Type) where
  | refused (failure : Failure)
  | exhausted

def Graph.Copies (graph : Graph Node Value Failure) (node source : Node) : Prop :=
  ∃ sources, graph.expand node = .ok (.inr sources) ∧ source ∈ sources

def Graph.Reaches (graph : Graph Node Value Failure) : Node → Node → Prop :=
  Relation.ReflTransGen graph.Copies

/-- Every leaf below a node has the given value, and there is no way round. -/
inductive Graph.Resolved (graph : Graph Node Value Failure) : Node → Value → Prop where
  | leaf {node : Node} {value : Value} (found : graph.expand node = .ok (.inl value)) :
      Resolved graph node value
  | copy {node : Node} {value : Value} {sources : List Node}
      (found : graph.expand node = .ok (.inr sources)) (nonempty : sources ≠ [])
      (each : ∀ source ∈ sources, Resolved graph source value) : Resolved graph node value

abbrev Cache (Node Value : Type) := List (Node × Value)

/-- Resolve nodes one after the other, from a growing cache. -/
def collect (resolve : Node → Cache Node Value → Except (Stop Failure) (Value × Cache Node Value))
    (sources : List Node) (start : List Value × Cache Node Value) :
    Except (Stop Failure) (List Value × Cache Node Value) :=
  sources.foldlM (fun state source => do
    let (value, cache) ← resolve source state.2
    return (state.1 ++ [value], cache)) start

/-- A copy has the one value of its sources. -/
def Graph.agree [DecidableEq Value] (graph : Graph Node Value Failure) (node : Node)
    (values : List Value) : Except (Stop Failure) Value :=
  match values.dedup with
  | [value] => .ok value
  | _ => .error (.refused (graph.ambiguous node))

def Graph.resolve [DecidableEq Node] [DecidableEq Value] (graph : Graph Node Value Failure) :
    ℕ → List Node → Node → Cache Node Value → Except (Stop Failure) (Value × Cache Node Value)
  | 0, _, _, _ => .error .exhausted
  | fuel + 1, active, node, cache =>
    match cache.lookup node with
    | some value => .ok (value, cache)
    | none => do
      require (node ∉ active) (.refused (graph.cyclic node))
      match ← (graph.expand node).mapError .refused with
      | .inl value => return (value, (node, value) :: cache)
      | .inr sources =>
        let (values, cache) ← collect (graph.resolve fuel (node :: active)) sources ([], cache)
        let value ← graph.agree node values
        return (value, (node, value) :: cache)

namespace Graph

variable {graph : Graph Node Value Failure} {node source : Node} {value other : Value}

namespace Resolved

theorem copied (resolved : graph.Resolved node value) (copies : graph.Copies node source) :
    graph.Resolved source value := by
  obtain ⟨sources, expanded, member⟩ := copies
  cases resolved with
  | leaf found =>
    rw [found] at expanded
    cases expanded
  | copy found nonempty each =>
    rw [found] at expanded
    cases expanded
    exact each source member

theorem reached (resolved : graph.Resolved node value) (reaches : graph.Reaches node source) :
    graph.Resolved source value := by
  induction reaches with
  | refl => exact resolved
  | tail _ copies ih => exact ih.copied copies

theorem root_value (resolved : graph.Resolved node value) (reaches : graph.Reaches node source)
    (root : graph.expand source = .ok (.inl other)) : other = value := by
  cases resolved.reached reaches with
  | leaf found =>
    rw [found] at root
    cases root
    rfl
  | copy found =>
    rw [found] at root
    cases root

theorem root (resolved : graph.Resolved node value) :
    ∃ root, graph.Reaches node root ∧ graph.expand root = .ok (.inl value) := by
  induction resolved with
  | leaf found => exact ⟨_, .refl, found⟩
  | copy found nonempty each ih =>
    obtain ⟨source, member⟩ := List.exists_mem_of_ne_nil _ nonempty
    obtain ⟨root, reaches, leaf⟩ := ih source member
    exact ⟨root, .head ⟨_, found, member⟩ reaches, leaf⟩

theorem accessible (resolved : graph.Resolved node value) :
    Acc (fun source node => graph.Copies node source) node := by
  induction resolved with
  | leaf found =>
    refine ⟨_, fun source copies => ?_⟩
    obtain ⟨sources, expanded, -⟩ := copies
    rw [found] at expanded
    cases expanded
  | copy found _ _ ih =>
    refine ⟨_, fun source copies => ?_⟩
    obtain ⟨sources, expanded, member⟩ := copies
    rw [found] at expanded
    cases expanded
    exact ih source member

theorem not_cyclic (resolved : graph.Resolved node value) (reaches : graph.Reaches node source) :
    ¬Relation.TransGen graph.Copies source source := by
  have accessible := (resolved.reached reaches).accessible.transGen
  clear resolved reaches
  induction accessible with
  | intro node _ ih =>
    intro cycle
    have back := Relation.transGen_swap.mpr cycle
    exact ih node back cycle

end Resolved

/-- Every cached node is resolved. -/
def Sound (graph : Graph Node Value Failure) (cache : Cache Node Value) : Prop :=
  ∀ node value, (node, value) ∈ cache → graph.Resolved node value

variable {cache next : Cache Node Value}

theorem Sound.insert (sound : graph.Sound cache) (resolved : graph.Resolved node value) :
    graph.Sound ((node, value) :: cache) := by
  intro other found member
  rcases List.mem_cons.mp member with same | member
  · cases same
    exact resolved
  · exact sound other found member

theorem Sound.cached [DecidableEq Node] (sound : graph.Sound cache)
    (found : cache.lookup node = some value) : graph.Resolved node value := by
  obtain ⟨before, after, same, -⟩ := List.lookup_eq_some_iff.mp found
  apply sound
  simp [same]

theorem agree_eq_ok [DecidableEq Value] {values : List Value}
    (done : graph.agree node values = .ok value) :
    values ≠ [] ∧ ∀ other ∈ values, other = value := by
  unfold agree at done
  split at done
  case h_1 only =>
    cases done
    refine ⟨?_, fun other member => ?_⟩
    · intro empty
      rw [empty] at only
      cases only
    · have inside : other ∈ values.dedup := List.mem_dedup.mpr member
      rw [only] at inside
      exact List.mem_singleton.mp inside
  case h_2 => cases done

variable {sources : List Node}

theorem collect_sound
    {resolve : Node → Cache Node Value → Except (Stop Failure) (Value × Cache Node Value)}
    {start result : List Value × Cache Node Value}
    (each : ∀ {node cache value next}, graph.Sound cache →
      resolve node cache = .ok (value, next) → graph.Resolved node value ∧ graph.Sound next)
    (sound : graph.Sound start.2) (done : collect resolve sources start = .ok result) :
    graph.Sound result.2 ∧ ∃ values, result.1 = start.1 ++ values ∧
      List.Forall₂ graph.Resolved sources values := by
  induction sources generalizing start with
  | nil =>
    cases done
    exact ⟨sound, [], by simp, .nil⟩
  | cons source rest ih =>
    simp only [collect, List.foldlM_cons, bind_eq_ok, pure_eq_ok] at done
    obtain ⟨state, ⟨⟨value, cache⟩, resolved, rfl⟩, done⟩ := done
    obtain ⟨first, kept⟩ := each sound resolved
    obtain ⟨last, values, same, others⟩ := ih kept done
    refine ⟨last, value :: values, ?_, .cons first others⟩
    rw [same, List.append_assoc]
    rfl

/-- What the sources agree on is the value of their copy. -/
theorem resolved_of_sources {values : List Value} (found : graph.expand node = .ok (.inr sources))
    (related : List.Forall₂ graph.Resolved sources values) (nonempty : values ≠ [])
    (same : ∀ other ∈ values, other = value) : graph.Resolved node value := by
  refine .copy found ?_ ?_
  · intro empty
    subst empty
    cases related
    exact nonempty rfl
  · intro source member
    obtain ⟨other, inside, resolved⟩ := exists_right_of_forall₂ related source member
    exact same other inside ▸ resolved

theorem collect_ne_exhausted
    {resolve : Node → Cache Node Value → Except (Stop Failure) (Value × Cache Node Value)}
    (start : List Value × Cache Node Value)
    (each : ∀ source ∈ sources, ∀ cache, resolve source cache ≠ .error .exhausted) :
    collect resolve sources start ≠ .error .exhausted := by
  apply foldlM_ne_error
  intro source member state stopped
  rcases bind_eq_error.mp stopped with stopped | ⟨answer, -, stopped⟩
  · exact each source member state.2 stopped
  · cases stopped

variable [DecidableEq Node] [DecidableEq Value] {active : List Node} {fuel : ℕ}

theorem resolve_sound (sound : graph.Sound cache)
    (done : graph.resolve fuel active node cache = .ok (value, next)) :
    graph.Resolved node value ∧ graph.Sound next := by
  induction fuel generalizing node cache active value next with
  | zero => cases done
  | succ fuel ih =>
    rw [resolve] at done
    split at done
    case h_1 found =>
      cases done
      exact ⟨sound.cached found, sound⟩
    case h_2 =>
      simp only [bind_eq_ok, mapError_eq_ok] at done
      obtain ⟨_, -, expanded, found, done⟩ := done
      cases expanded with
      | inl leaf =>
        cases done
        exact ⟨.leaf found, sound.insert (.leaf found)⟩
      | inr sources =>
        simp only [bind_eq_ok, pure_eq_ok] at done
        obtain ⟨⟨values, cache⟩, all, agreed, agrees, same⟩ := done
        cases same
        obtain ⟨kept, others, same, related⟩ := collect_sound ih sound all
        cases same
        obtain ⟨nonempty, agreed⟩ := agree_eq_ok agrees
        have resolved := resolved_of_sources found related nonempty agreed
        exact ⟨resolved, kept.insert resolved⟩

/-- A resolution within finitely many nodes ends: a node in progress is not entered again. -/
theorem resolve_ne_exhausted {nodes : List Node}
    (closed : ∀ node source, graph.Copies node source → source ∈ nodes)
    (enough : nodes.length < fuel + active.length) (distinct : active.Nodup)
    (within : active ⊆ nodes) (member : node ∈ nodes) (cache : Cache Node Value) :
    graph.resolve fuel active node cache ≠ .error .exhausted := by
  induction fuel generalizing active node cache with
  | zero =>
    have few := (distinct.subperm within).length_le
    omega
  | succ fuel ih =>
    intro stopped
    rw [resolve] at stopped
    split at stopped
    case h_1 => cases stopped
    case h_2 =>
      rcases bind_eq_error.mp stopped with cycle | ⟨_, outside, stopped⟩
      · unfold require at cycle
        split at cycle <;> cases cycle
      rw [require_eq_ok, decide_eq_true_eq] at outside
      rcases bind_eq_error.mp stopped with refused | ⟨expanded, found, stopped⟩
      · exact mapError_ne_error (fun cause same => by cases same) refused
      cases expanded with
      | inl => cases stopped
      | inr sources =>
        rcases bind_eq_error.mp stopped with stopped | ⟨⟨values, cache⟩, -, stopped⟩
        · refine collect_ne_exhausted _ (fun source inside cache => ?_) stopped
          apply ih
          · rw [List.length_cons]
            omega
          · exact List.nodup_cons.mpr ⟨outside, distinct⟩
          · exact List.cons_subset.mpr ⟨member, within⟩
          · exact closed node source ⟨sources, mapError_eq_ok.mp found, inside⟩
        · rcases bind_eq_error.mp stopped with differ | ⟨value, -, stopped⟩
          · unfold agree at differ
            split at differ <;> cases differ
          · cases stopped

end Graph

end Memo
