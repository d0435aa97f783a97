import ExomonadHarness.Json.Text
import ExomonadHarness.Provider.Failure

/-! What `admit_metadata` of `provider/failure.rs` admits. -/

namespace ExomonadHarness.Provider

open Json Checked

theorem depth_le_succ {value : Value} {bound : ℕ} :
    value.depth ≤ bound + 1 ↔ ∀ child ∈ children value, child.depth ≤ bound := by
  cases value with
  | array items =>
    rw [Value.depth, add_comm 1, Nat.add_le_add_iff_right, Value.depthItems_le, children]
  | object entries =>
    rw [Value.depth, add_comm 1, Nat.add_le_add_iff_right, Value.depthEntries_le, children,
      List.forall_mem_map]
  | _ => simp [Value.depth, children]

theorem depth_pos (value : Value) : 0 < value.depth := by
  cases value <;> simp only [Value.depth] <;> omega

/-- A pending node whose parts stay within the depth limit. -/
def Shallow (entry : Value × ℕ) : Prop :=
  entry.1.depth + entry.2 ≤ maxToolFailureMetadataDepth + 1

theorem shallow_iff {value : Value} {depth : ℕ} : Shallow (value, depth) ↔
    depth ≤ maxToolFailureMetadataDepth ∧ ∀ child ∈ children value, Shallow (child, depth + 1) := by
  simp only [Shallow]
  constructor
  · intro shallow
    have positive := depth_pos value
    refine ⟨by omega, fun child member => ?_⟩
    have inner : value.depth ≤ (maxToolFailureMetadataDepth - depth) + 1 := by omega
    have below := depth_le_succ.mp inner child member
    omega
  · intro bounded
    obtain ⟨here, inner⟩ := bounded
    have parts : value.depth ≤ (maxToolFailureMetadataDepth - depth) + 1 :=
      depth_le_succ.mpr fun child member => by
        have below := inner child member
        omega
    omega

theorem length_le_sum_size (values : List Value) : values.length ≤ (values.map Value.size).sum := by
  induction values with
  | nil => exact le_rfl
  | cons first rest ih =>
    have positive := first.size_pos
    simp only [List.length_cons, List.map_cons, List.sum_cons]
    omega

/-- The nodes a pending list stands for. -/
def pendingSize (pending : List (Value × ℕ)) : ℕ :=
  (pending.map (·.1.size)).sum

theorem length_le_pendingSize (pending : List (Value × ℕ)) : pending.length ≤ pendingSize pending := by
  have bounded := length_le_sum_size (pending.map Prod.fst)
  rwa [List.length_map, List.map_map] at bounded

theorem pendingSize_visit (value : Value) (depth : ℕ) (pending : List (Value × ℕ)) :
    pendingSize (((children value).map (·, depth + 1)).reverse ++ pending) =
      ((children value).map Value.size).sum + pendingSize pending := by
  simp only [pendingSize, List.map_append, List.sum_append, List.map_reverse, List.sum_reverse,
    List.map_map]
  rfl

theorem admitNodes_cons {value : Value} {depth visited : ℕ} {pending : List (Value × ℕ)} :
    admitNodes ((value, depth) :: pending) visited = .ok () ↔
      depth ≤ maxToolFailureMetadataDepth ∧
      visited + 1 + pending.length + (children value).length ≤ maxToolFailureMetadataBytes ∧
      admitNodes (((children value).map (·, depth + 1)).reverse ++ pending) (visited + 1) =
        .ok () := by
  rw [admitNodes]
  simp [bind_eq_ok, require_eq_ok]

theorem shallow_visit {value : Value} {depth : ℕ} {pending : List (Value × ℕ)} :
    (∀ entry ∈ ((children value).map (·, depth + 1)).reverse ++ pending, Shallow entry) ↔
      (∀ child ∈ children value, Shallow (child, depth + 1)) ∧ ∀ entry ∈ pending, Shallow entry := by
  simp [or_imp, forall_and]

/-- The traversal lets through no node that is too deep. -/
theorem shallow_of_admitNodes (pending : List (Value × ℕ)) (visited : ℕ)
    (admitted : admitNodes pending visited = .ok ()) : ∀ entry ∈ pending, Shallow entry := by
  induction pending, visited using admitNodes.induct with
  | case1 => simp
  | case2 visited value depth pending ih =>
    obtain ⟨here, -, rest⟩ := admitNodes_cons.mp admitted
    obtain ⟨inner, others⟩ := shallow_visit.mp (ih rest)
    exact List.forall_mem_cons.mpr ⟨shallow_iff.mpr ⟨here, inner⟩, others⟩

/-- A document with fewer nodes than the limit is never cut off. -/
theorem admitNodes_of_shallow (pending : List (Value × ℕ)) (visited : ℕ)
    (fits : visited + pendingSize pending ≤ maxToolFailureMetadataBytes)
    (shallow : ∀ entry ∈ pending, Shallow entry) : admitNodes pending visited = .ok () := by
  induction pending, visited using admitNodes.induct with
  | case1 => rw [admitNodes]
  | case2 visited value depth pending ih =>
    obtain ⟨first, others⟩ := List.forall_mem_cons.mp shallow
    obtain ⟨here, inner⟩ := shallow_iff.mp first
    have nodes := sum_size_children value
    have own := length_le_sum_size (children value)
    have queued := length_le_pendingSize pending
    have total : pendingSize ((value, depth) :: pending) = value.size + pendingSize pending := by
      simp [pendingSize]
    refine admitNodes_cons.mpr ⟨here, by omega, ih ?_ (shallow_visit.mpr ⟨inner, others⟩)⟩
    rw [pendingSize_visit]
    omega

/-- Metadata is admitted exactly when neither limit is passed. -/
theorem admitMetadata_exact {double : F64 → String} (printed : ∀ value, double value ≠ "")
    (metadata : Value) : admitMetadata (Value.compact double) metadata = .ok () ↔
      metadata.depth ≤ maxToolFailureMetadataDepth ∧
        (metadata.compact double).utf8ByteSize ≤ maxToolFailureMetadataBytes := by
  have root : Shallow (metadata, 1) ↔ metadata.depth ≤ maxToolFailureMetadataDepth := by
    simp [Shallow]
  simp only [admitMetadata, bind_eq_ok, require_eq_ok, decide_eq_true_eq]
  constructor
  · intro admitted
    obtain ⟨_, walked, fits⟩ := admitted
    have shallow := shallow_of_admitNodes _ _ walked (metadata, 1) List.mem_cons_self
    exact ⟨root.mp shallow, fits⟩
  · intro bounded
    obtain ⟨shallow, fits⟩ := bounded
    have nodes := Value.size_le_compact printed metadata
    refine ⟨(), admitNodes_of_shallow _ _ ?_ ?_, fits⟩
    · simp only [pendingSize, List.map_singleton, List.sum_singleton]
      omega
    · intro entry listed
      rw [List.mem_singleton.mp listed]
      exact root.mpr shallow

theorem admitMetadata_exact_nested :
    admitMetadata (Value.compact fun _ => "0.0") (.array [.null, .array []]) = .ok () :=
  (admitMetadata_exact (fun _ => by decide) (.array [.null, .array []])).mpr (by decide)

end ExomonadHarness.Provider
