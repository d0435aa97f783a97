import ExomonadHarness.Engine.RoundFacts

/-! What the facts of a failed round say about the causes in its error. -/

namespace ExomonadHarness.Engine.Round

open Scheduler (OperationId CancellationCause)
open Store (RequestId InferenceBlock InferenceBlockReason)

variable {Settlement : Type}

namespace EngineError

/-- The cause below the wrappers that keep a primary. -/
def innermost : EngineError Settlement → EngineError Settlement
  | secondary primary _ _ _ => primary.innermost
  | blockedAction primary _ _ => primary.innermost
  | inferenceBlockPersistence primary _ => primary.innermost
  | cleanup primary _ => primary.innermost
  | cleanupExternal primary _ => primary.innermost
  | cause => cause

/-- The status a cause reports of its own. -/
def ownExecution : EngineError Settlement → RoundExecution
  | completionSettlement _ _ _ => .completed
  | cancelled _ => .cancelled
  | requestRejected _ | transport .rejected => .rejected
  | interruptedModelRound _ | transport .interrupted => .interrupted
  | inferenceBlocked block => blockExecution block.reason
  | _ => .failed

/-- The head of the facts, given the head the error is read at. -/
def headAfter : EngineError Settlement → Option RequestId → Option RequestId
  | secondary primary _ _ headRequest, head => primary.headAfter (headRequest.or head)
  | blockedAction primary block _, _ => primary.headAfter (some block.request)
  | inferenceBlockPersistence primary _, head => primary.headAfter head
  | cleanup primary _, head => primary.headAfter head
  | cleanupExternal primary _, head => primary.headAfter head
  | completionSettlement completion _ _, _ => some completion.headRequest
  | cancelled headRequest, head => headRequest.or head
  | requestRejected headRequest, _ => some headRequest
  | interruptedModelRound headRequest, _ => some headRequest
  | inferenceBlocked block, _ => some block.request
  | _, head => head

/-- The store error a cause or wrapper holds itself. -/
def storeSource : EngineError Settlement → Option StoreFault
  | store source => some source
  | inferenceBlockPersistence _ persistence => some persistence
  | _ => none

def reopens (cause : EngineError Settlement) : Bool :=
  cause.storeSource.any (·.recoveryRequirements.reopen)

def refusesContinuity (cause : EngineError Settlement) : Bool :=
  cause.storeSource.any (·.isInferenceProjectionRefusal)

/-- The operations a cause leaves outstanding. -/
def operations : EngineError Settlement → List OperationId
  | unconfirmedCancellation operation => [operation]
  | cause => (cause.storeSource.bind (·.recoveryRequirements.uncertain)).toList

def cleanupUncertain : EngineError Settlement → Bool
  | cleanup _ _ | cleanupExternal _ _ | cleanupFailures _ => true
  | cause => !cause.operations.isEmpty

def blocks : EngineError Settlement → List InferenceBlock
  | inferenceBlocked block => [block]
  | blockedAction _ block _ => [block]
  | cause => (cause.storeSource.bind (·.recoveryRequirements.block)).toList

/-- The request whose explicit input a cause asks for, read at a head. -/
def explicitInput : EngineError Settlement → Option RequestId → Option RequestId
  | interruptedModelRound headRequest, _ => some headRequest
  | transport .interrupted, head => head
  | _, _ => none

mutual

/-- Every cause and wrapper of an error, with the head it is read at. -/
def causes : EngineError Settlement → Option RequestId →
    List (Option RequestId × EngineError Settlement)
  | secondary primary stage source headRequest, head =>
    primary.causes (headRequest.or head) ++ source.causes headRequest ++
      [(head, secondary primary stage source headRequest)]
  | blockedAction primary block settlement, head =>
    primary.causes (some block.request) ++ [(head, blockedAction primary block settlement)]
  | completionSettlement completion stage source, head =>
    source.causes (some completion.headRequest) ++
      [(head, completionSettlement completion stage source)]
  | inferenceBlockPersistence primary persistence, head =>
    primary.causes head ++ [(head, inferenceBlockPersistence primary persistence)]
  | cleanup primary failure, head =>
    primary.causes head ++ failure.causes (primary.headAfter head) ++
      [(head, cleanup primary failure)]
  | cleanupExternal primary detail, head =>
    primary.causes head ++ [(head, cleanupExternal primary detail)]
  | cleanupFailures failures, head =>
    (head, cleanupFailures failures) :: causesOf failures head
  | cause, head => [(head, cause)]

def causesOf : List (EngineError Settlement) → Option RequestId →
    List (Option RequestId × EngineError Settlement)
  | [], _ => []
  | failure :: rest, head => failure.causes head ++ causesOf rest head

end

end EngineError

/-- An obligation that is kept, or an explicit input that the recovery of a block of its
request replaces. -/
def Answered (inference : List InferenceObligation) (obligation : InferenceObligation) : Prop :=
  obligation ∈ inference ∨
    ∃ block, .recoverBlock block ∈ inference ∧ obligation = .explicitInput block.request

/-- The facts hold what the causes give, and nothing else. -/
structure Gathered (causes : List (Option RequestId × EngineError Settlement))
    (facts : ErrorFacts Settlement) : Prop where
  reopen : facts.reopen = causes.any (·.2.reopens)
  uncertain : facts.cleanupUncertain = causes.any (·.2.cleanupUncertain)
  continuity : facts.continuityRefusal = causes.any (·.2.refusesContinuity)
  outstanding : ∀ operation, operation ∈ facts.outstanding ↔
    ∃ cause ∈ causes, operation ∈ cause.2.operations
  outstandingOnce : facts.outstanding.Nodup
  blocks : ∀ block, .recoverBlock block ∈ facts.inference ↔
    ∃ cause ∈ causes, block ∈ cause.2.blocks
  inferenceOnce : facts.inference.Nodup
  explicit : ∀ cause ∈ causes, ∀ request ∈ cause.2.explicitInput cause.1,
    Answered facts.inference (.explicitInput request)

section

variable {α : Type} [DecidableEq α]

theorem mem_retainUnique {items : List α} {item other : α} :
    other ∈ retainUnique items item ↔ other ∈ items ∨ other = item := by
  unfold retainUnique
  split
  case isTrue present =>
    constructor
    · exact .inl
    · intro either
      rcases either with member | rfl
      · exact member
      · exact present
  case isFalse => simp

theorem retainUnique_nodup {items : List α} (distinct : items.Nodup) (item : α) :
    (retainUnique items item).Nodup := by
  unfold retainUnique
  split
  case isTrue => exact distinct
  case isFalse absent => exact List.nodup_append.mpr ⟨distinct, List.nodup_singleton _, by
    intro left member right last same
    rw [List.mem_singleton.mp last] at same
    exact absent (same ▸ member)⟩

theorem mem_foldl_retainUnique {items others : List α} {item : α} :
    item ∈ others.foldl retainUnique items ↔ item ∈ items ∨ item ∈ others := by
  induction others generalizing items with
  | nil => simp
  | cons other others ih =>
    rw [List.foldl_cons, ih, mem_retainUnique, List.mem_cons, or_assoc]

theorem foldl_retainUnique_nodup {items : List α} (distinct : items.Nodup) (others : List α) :
    (others.foldl retainUnique items).Nodup := by
  induction others generalizing items with
  | nil => exact distinct
  | cons other others ih => exact ih (retainUnique_nodup distinct other)

end

variable {inference more : List InferenceObligation} {obligation : InferenceObligation}

theorem Answered.mono (answered : Answered inference obligation)
    (kept : ∀ obligation ∈ inference, obligation ∈ more) : Answered more obligation := by
  rcases answered with explicit | ⟨block, recovered, same⟩
  · exact .inl (kept _ explicit)
  · exact .inr ⟨block, kept _ recovered, same⟩

theorem addObligation_nodup (distinct : inference.Nodup) (obligation : InferenceObligation) :
    (addObligation inference obligation).Nodup := by
  cases obligation with
  | recoverBlock block => exact retainUnique_nodup (distinct.filter _) _
  | _ => exact retainUnique_nodup distinct _

theorem mem_addObligation (inference : List InferenceObligation) (obligation : InferenceObligation) :
    obligation ∈ addObligation inference obligation := by
  cases obligation <;> exact mem_retainUnique.mpr (.inr rfl)

theorem answered_addObligation (member : obligation ∈ inference) (added : InferenceObligation) :
    Answered (addObligation inference added) obligation := by
  cases added with
  | recoverBlock block =>
    by_cases same : obligation = .explicitInput block.request
    · exact .inr ⟨block, mem_addObligation inference (.recoverBlock block), same⟩
    · exact .inl (mem_retainUnique.mpr (.inl (List.mem_filter.mpr ⟨member, by simpa using same⟩)))
  | _ => exact .inl (mem_retainUnique.mpr (.inl member))

theorem Answered.block {block : InferenceBlock} (answered : Answered inference (.recoverBlock block)) :
    .recoverBlock block ∈ inference :=
  answered.resolve_right fun ⟨_, _, same⟩ => nomatch same

theorem Answered.addObligation (answered : Answered inference obligation)
    (added : InferenceObligation) : Answered (addObligation inference added) obligation := by
  rcases answered with member | ⟨block, recovered, same⟩
  · exact answered_addObligation member added
  · exact .inr ⟨block, (answered_addObligation recovered added).block, same⟩

/-- Nothing is lost when obligations are added. -/
theorem answered_foldl {others : List InferenceObligation}
    (owed : Answered inference obligation ∨ obligation ∈ others) :
    Answered (others.foldl addObligation inference) obligation := by
  induction others generalizing inference with
  | nil => exact owed.resolve_right List.not_mem_nil
  | cons other others ih =>
    apply ih
    rcases owed with answered | member
    · exact .inl (answered.addObligation other)
    · rcases List.mem_cons.mp member with same | later
      · exact .inl (.inl (same ▸ mem_addObligation inference obligation))
      · exact .inr later

/-- Every field a store error may change. -/
theorem ErrorFacts.store_fields (facts : ErrorFacts Settlement) (source : StoreFault) :
    (facts.store source).reopen = (facts.reopen || source.recoveryRequirements.reopen) ∧
    (facts.store source).cleanupUncertain =
      (facts.cleanupUncertain || source.recoveryRequirements.uncertain.isSome) ∧
    (facts.store source).continuityRefusal =
      (facts.continuityRefusal || source.isInferenceProjectionRefusal) ∧
    (facts.store source).outstanding =
      source.recoveryRequirements.uncertain.toList.foldl retainUnique facts.outstanding ∧
    (facts.store source).inference =
      (source.recoveryRequirements.block.toList.map .recoverBlock).foldl retainUnique
        facts.inference := by
  cases source <;>
    simp [ErrorFacts.store, StoreFault.recoveryRequirements, ErrorFacts.awaitUncertain, ErrorFacts.owe]

theorem ErrorFacts.store_same (facts : ErrorFacts Settlement) (source : StoreFault) :
    (facts.store source).head = facts.head ∧ (facts.store source).execution = facts.execution := by
  cases source <;> exact ⟨rfl, rfl⟩

namespace Gathered

variable {causes others : List (Option RequestId × EngineError Settlement)}
  {facts other : ErrorFacts Settlement} {head : Option RequestId} {cause : EngineError Settlement}

theorem nothing (head : Option RequestId) :
    Gathered [] (ErrorFacts.failed head : ErrorFacts Settlement) :=
  ⟨rfl, rfl, rfl, by simp [ErrorFacts.failed], .nil, by simp [ErrorFacts.failed], .nil, by simp⟩

theorem accumulate [DecidableEq Settlement] (first : Gathered causes facts)
    (second : Gathered others other) : Gathered (causes ++ others) (facts.accumulate other) where
  reopen := by simp only [ErrorFacts.accumulate, first.reopen, second.reopen, List.any_append]
  uncertain := by
    simp only [ErrorFacts.accumulate, first.uncertain, second.uncertain, List.any_append]
  continuity := by
    simp only [ErrorFacts.accumulate, first.continuity, second.continuity, List.any_append]
  outstanding := by
    intro operation
    simp only [ErrorFacts.accumulate, mem_foldl_retainUnique, first.outstanding, second.outstanding,
      List.mem_append, or_and_right, exists_or]
  outstandingOnce := foldl_retainUnique_nodup first.outstandingOnce _
  blocks := by
    intro block
    simp only [ErrorFacts.accumulate, mem_foldl_retainUnique, first.blocks, second.blocks,
      List.mem_append, or_and_right, exists_or]
  inferenceOnce := foldl_retainUnique_nodup first.inferenceOnce _
  explicit := by
    intro cause listed request asked
    rcases List.mem_append.mp listed with earlier | later
    · exact (first.explicit cause earlier request asked).mono fun obligation member =>
        mem_foldl_retainUnique.mpr (.inl member)
    · exact (second.explicit cause later request asked).mono fun obligation member =>
        mem_foldl_retainUnique.mpr (.inr member)

/-- One more cause, with what it adds to the facts. -/
theorem add (gathered : Gathered causes facts)
    (reopen : other.reopen = (facts.reopen || cause.reopens))
    (uncertain : other.cleanupUncertain = (facts.cleanupUncertain || cause.cleanupUncertain))
    (continuity : other.continuityRefusal = (facts.continuityRefusal || cause.refusesContinuity))
    (outstanding : other.outstanding = cause.operations.foldl retainUnique facts.outstanding)
    (blocks : ∀ block, .recoverBlock block ∈ other.inference ↔
      .recoverBlock block ∈ facts.inference ∨ block ∈ cause.blocks)
    (once : other.inference.Nodup)
    (kept : ∀ {obligation}, Answered facts.inference obligation →
      Answered other.inference obligation)
    (explicit : ∀ request ∈ cause.explicitInput head,
      Answered other.inference (.explicitInput request)) :
    Gathered (causes ++ [(head, cause)]) other where
  reopen := by simp [reopen, gathered.reopen]
  uncertain := by simp [uncertain, gathered.uncertain]
  continuity := by simp [continuity, gathered.continuity]
  outstanding := by
    intro operation
    simp [outstanding, mem_foldl_retainUnique, gathered.outstanding, or_and_right, exists_or]
  outstandingOnce := outstanding ▸ foldl_retainUnique_nodup gathered.outstandingOnce _
  blocks := by
    intro block
    simp [blocks, gathered.blocks, or_and_right, exists_or]
  inferenceOnce := once
  explicit := by
    intro listed member request asked
    rcases List.mem_append.mp member with earlier | last
    · exact kept (gathered.explicit listed earlier request asked)
    · cases List.mem_singleton.mp last
      exact explicit request asked

/-- A cause that asks for no inference and no reopening. -/
theorem quiet (gathered : Gathered causes facts) (reopen : cause.reopens = false)
    (continuity : cause.refusesContinuity = false) (blocks : cause.blocks = [])
    (explicit : cause.explicitInput head = none) (same : other.reopen = facts.reopen ∧
      other.cleanupUncertain = (facts.cleanupUncertain || cause.cleanupUncertain) ∧
      other.continuityRefusal = facts.continuityRefusal ∧
      other.outstanding = cause.operations.foldl retainUnique facts.outstanding ∧
      other.inference = facts.inference) :
    Gathered (causes ++ [(head, cause)]) other := by
  obtain ⟨sameReopen, uncertain, sameContinuity, outstanding, sameInference⟩ := same
  exact gathered.add (by simp [sameReopen, reopen]) uncertain
    (by simp [sameContinuity, continuity]) outstanding (by simp [sameInference, blocks])
    (sameInference ▸ gathered.inferenceOnce) (fun answered => sameInference ▸ answered)
    (by simp [explicit])

theorem mono_same {same : ErrorFacts Settlement} (gathered : Gathered causes facts)
    (evidence : same.reopen = facts.reopen ∧ same.cleanupUncertain = facts.cleanupUncertain ∧
      same.continuityRefusal = facts.continuityRefusal ∧ same.outstanding = facts.outstanding ∧
      same.inference = facts.inference) : Gathered causes same := by
  obtain ⟨reopen, uncertain, continuity, outstanding, inference⟩ := evidence
  refine ⟨reopen ▸ gathered.reopen, uncertain ▸ gathered.uncertain,
    continuity ▸ gathered.continuity, ?_, ?_, ?_, ?_, ?_⟩
  · exact outstanding ▸ gathered.outstanding
  · exact outstanding ▸ gathered.outstandingOnce
  · exact inference ▸ gathered.blocks
  · exact inference ▸ gathered.inferenceOnce
  · exact inference ▸ gathered.explicit

/-- A store error, held by a cause that adds nothing else. -/
theorem store {source : StoreFault} (gathered : Gathered causes facts)
    (held : cause.storeSource = some source)
    (operations : cause.operations = source.recoveryRequirements.uncertain.toList)
    (uncertain : cause.cleanupUncertain = source.recoveryRequirements.uncertain.isSome)
    (blocks : cause.blocks = source.recoveryRequirements.block.toList)
    (explicit : cause.explicitInput head = none) :
    Gathered (causes ++ [(head, cause)]) (facts.store source) := by
  obtain ⟨reopen, unconfirmed, continuity, outstanding, inference⟩ := facts.store_fields source
  refine gathered.add ?_ ?_ ?_ ?_ ?_ ?_ ?_ ?_
  · rw [reopen, EngineError.reopens, held]
    rfl
  · rw [unconfirmed, uncertain]
  · rw [continuity, EngineError.refusesContinuity, held]
    rfl
  · rw [outstanding, operations]
  · intro block
    rw [inference, mem_foldl_retainUnique, blocks]
    simp
  · rw [inference]
    exact foldl_retainUnique_nodup gathered.inferenceOnce _
  · intro obligation answered
    rw [inference]
    exact answered.mono fun obligation member => mem_foldl_retainUnique.mpr (.inl member)
  · simp [explicit]

/-- A cause whose only fact is one obligation. -/
theorem owes {obligation : InferenceObligation} (head : Option RequestId)
    (cause : EngineError Settlement) (facts : ErrorFacts Settlement)
    (empty : facts.reopen = false ∧ facts.cleanupUncertain = false ∧
      facts.continuityRefusal = false ∧ facts.outstanding = [] ∧ facts.inference = [])
    (reopen : cause.reopens = false) (uncertain : cause.cleanupUncertain = false)
    (continuity : cause.refusesContinuity = false) (operations : cause.operations = [])
    (blocks : ∀ block, block ∈ cause.blocks ↔ obligation = .recoverBlock block)
    (explicit : ∀ request ∈ cause.explicitInput head, obligation = .explicitInput request) :
    Gathered [(head, cause)] (facts.owe obligation) := by
  have gathered : Gathered [] facts := (nothing none).mono_same empty
  refine gathered.add (by simp [ErrorFacts.owe, reopen]) (by simp [ErrorFacts.owe, uncertain])
    (by simp [ErrorFacts.owe, continuity]) (by simp [ErrorFacts.owe, operations]) ?_
    (retainUnique_nodup gathered.inferenceOnce _) ?_ ?_
  · intro block
    rw [blocks, ErrorFacts.owe, mem_retainUnique, eq_comm]
  · intro owed answered
    exact answered.mono fun other member => mem_retainUnique.mpr (.inl member)
  · intro request asked
    exact .inl (mem_retainUnique.mpr (.inr (explicit request asked).symm))

/-- A block takes the place of the explicit input of its request. -/
theorem blocked (gathered : Gathered causes facts) (block : InferenceBlock)
    (primary : EngineError Settlement) (settlement : Option Settlement)
    (settlements : List Settlement) :
    Gathered (causes ++ [(head, .blockedAction primary block settlement)])
      ({ facts with
        settlements
        inference := withoutExplicitInput block.request facts.inference }.owe
          (.recoverBlock block)) := by
  refine gathered.add (by simp [ErrorFacts.owe, EngineError.reopens, EngineError.storeSource]) ?_ ?_
    ?_ ?_ ?_ ?_ (by simp [EngineError.explicitInput])
  · simp [ErrorFacts.owe, EngineError.cleanupUncertain, EngineError.operations,
      EngineError.storeSource]
  · simp [ErrorFacts.owe, EngineError.refusesContinuity, EngineError.storeSource]
  · simp [ErrorFacts.owe, EngineError.operations, EngineError.storeSource]
  · intro other
    simp [ErrorFacts.owe, mem_retainUnique, withoutExplicitInput, EngineError.blocks]
  · exact addObligation_nodup gathered.inferenceOnce (.recoverBlock block)
  · exact fun answered => answered.addObligation (.recoverBlock block)

end Gathered

section

variable [DecidableEq Settlement]

theorem accumulateAll_same (failures : List (EngineError Settlement)) (facts : ErrorFacts Settlement) :
    (EngineError.accumulateAll failures facts).head = facts.head ∧
      (EngineError.accumulateAll failures facts).execution = facts.execution := by
  induction failures generalizing facts with
  | nil => exact ⟨rfl, rfl⟩
  | cons failure rest ih => exact ih _

/-- The head goes through the primary causes, and the status is that of the innermost. -/
theorem roundFacts_same (error : EngineError Settlement) (head : Option RequestId) :
    (error.roundFacts head).head = error.headAfter head ∧
      (error.roundFacts head).execution = error.innermost.ownExecution := by
  induction error using EngineError.innermost.induct generalizing head with
  | case1 primary stage source headRequest ih => exact ih _
  | case2 primary block settlement ih => exact ih _
  | case3 primary persistence ih =>
    obtain ⟨first, second⟩ := (primary.roundFacts head).store_same persistence
    exact ⟨first.trans (ih head).1, second.trans (ih head).2⟩
  | case4 primary failure ih => exact ih _
  | case5 primary detail ih => exact ih _
  | case6 error notSecondary notBlocked notPersistence notCleanup notExternal =>
    cases error with
    | secondary primary stage source headRequest => exact (notSecondary _ _ _ _ rfl).elim
    | blockedAction primary block settlement => exact (notBlocked _ _ _ rfl).elim
    | inferenceBlockPersistence primary persistence => exact (notPersistence _ _ rfl).elim
    | cleanup primary failure => exact (notCleanup _ _ rfl).elim
    | cleanupExternal primary detail => exact (notExternal _ _ rfl).elim
    | cleanupFailures failures => exact accumulateAll_same failures _
    | store source => exact ErrorFacts.store_same _ source
    | transport kind =>
      cases kind with
      | interrupted => cases head <;> exact ⟨rfl, rfl⟩
      | _ => exact ⟨rfl, rfl⟩
    | _ => exact ⟨rfl, rfl⟩

mutual

theorem gathered_roundFacts : (error : EngineError Settlement) → (head : Option RequestId) →
    Gathered (error.causes head) (error.roundFacts head)
  | .secondary primary stage source headRequest, head => by
    have first := gathered_roundFacts primary (headRequest.or head)
    have second := gathered_roundFacts source headRequest
    have staged : Gathered (primary.causes (headRequest.or head))
        ((primary.roundFacts (headRequest.or head)).stage stage (.engine source)) :=
      first.mono_same ⟨rfl, rfl, rfl, rfl, rfl⟩
    exact (staged.accumulate second).quiet rfl rfl rfl rfl
      ⟨rfl, (Bool.or_false _).symm, rfl, rfl, rfl⟩
  | .blockedAction primary block settlement, head =>
    (gathered_roundFacts primary (some block.request)).blocked block primary settlement _
  | .completionSettlement completion stage source, head => by
    have inner := gathered_roundFacts source (some completion.headRequest)
    have start : Gathered [] (({ ErrorFacts.failed (some completion.headRequest) with
        completion := some completion
        execution := .completed } : ErrorFacts Settlement).stage stage (.engine source)) :=
      (Gathered.nothing (some completion.headRequest)).mono_same ⟨rfl, rfl, rfl, rfl, rfl⟩
    exact (start.accumulate inner).quiet rfl rfl rfl rfl
      ⟨rfl, (Bool.or_false _).symm, rfl, rfl, rfl⟩
  | .inferenceBlockPersistence primary persistence, head => by
    have inner := gathered_roundFacts primary head
    have uncertain : (EngineError.inferenceBlockPersistence primary persistence).cleanupUncertain =
        persistence.recoveryRequirements.uncertain.isSome := by
      cases persistence <;> rfl
    have stored : Gathered (_ ++ [(head, .inferenceBlockPersistence primary persistence)])
        ((primary.roundFacts head).store persistence) := inner.store rfl rfl uncertain rfl rfl
    exact stored.mono_same ⟨rfl, rfl, rfl, rfl, rfl⟩
  | .cleanup primary failure, head => by
    have first := gathered_roundFacts primary head
    have second := gathered_roundFacts failure (primary.headAfter head)
    have both := first.accumulate second
    rw [EngineError.causes, EngineError.roundFacts]
    simp only [(roundFacts_same primary head).1]
    exact both.quiet rfl rfl rfl rfl ⟨rfl, (Bool.or_true _).symm, rfl, rfl, rfl⟩
  | .cleanupExternal primary detail, head =>
    (gathered_roundFacts primary head).quiet rfl rfl rfl rfl
      ⟨rfl, (Bool.or_true _).symm, rfl, rfl, rfl⟩
  | .cleanupFailures failures, head => by
    have start : Gathered [(head, .cleanupFailures failures)]
        ({ ErrorFacts.failed head with
          primary := some (.cleanupFailures failures)
          cleanupUncertain := true } : ErrorFacts Settlement) :=
      (Gathered.nothing head).quiet rfl rfl rfl rfl ⟨rfl, rfl, rfl, rfl, rfl⟩
    exact gathered_accumulateAll failures _ _ start
  | .store source, head => by
    have start : Gathered [] ({ ErrorFacts.failed head with
        primary := some (.store source) } : ErrorFacts Settlement) :=
      (Gathered.nothing head).mono_same ⟨rfl, rfl, rfl, rfl, rfl⟩
    have uncertain : (EngineError.store source : EngineError Settlement).cleanupUncertain =
        source.recoveryRequirements.uncertain.isSome := by
      cases source <;> rfl
    exact start.store rfl rfl uncertain rfl rfl
  | .cancelled headRequest, head =>
    Gathered.owes head (.cancelled headRequest) _ ⟨rfl, rfl, rfl, rfl, rfl⟩ rfl rfl rfl rfl
      (by simp [EngineError.blocks, EngineError.storeSource]) (by simp [EngineError.explicitInput])
  | .requestRejected headRequest, head =>
    (Gathered.nothing (some headRequest)).quiet rfl rfl rfl rfl ⟨rfl, rfl, rfl, rfl, rfl⟩
  | .interruptedModelRound headRequest, head =>
    Gathered.owes head (.interruptedModelRound headRequest) _ ⟨rfl, rfl, rfl, rfl, rfl⟩ rfl rfl rfl rfl
      (by simp [EngineError.blocks, EngineError.storeSource]) (by simp [EngineError.explicitInput])
  | .inferenceBlocked block, head =>
    Gathered.owes head (.inferenceBlocked block) _ ⟨rfl, rfl, rfl, rfl, rfl⟩ rfl rfl rfl rfl
      (by simp [EngineError.blocks, eq_comm]) (by simp [EngineError.explicitInput])
  | .transport kind, head => by
    cases kind with
    | interrupted =>
      cases head with
      | none =>
        exact (Gathered.nothing none).quiet rfl rfl rfl rfl ⟨rfl, rfl, rfl, rfl, rfl⟩
      | some request =>
        exact Gathered.owes (some request) (.transport .interrupted) _ ⟨rfl, rfl, rfl, rfl, rfl⟩ rfl
          rfl rfl rfl (by simp [EngineError.blocks, EngineError.storeSource])
          (by simp [EngineError.explicitInput])
    | _ => exact (Gathered.nothing head).quiet rfl rfl rfl rfl ⟨rfl, rfl, rfl, rfl, rfl⟩
  | .unconfirmedCancellation operation, head =>
    (Gathered.nothing head).quiet rfl rfl rfl rfl ⟨rfl, rfl, rfl, rfl, rfl⟩
  | .plain cause, head =>
    (Gathered.nothing head).quiet rfl rfl rfl rfl ⟨rfl, rfl, rfl, rfl, rfl⟩

theorem gathered_accumulateAll : (failures : List (EngineError Settlement)) →
    (facts : ErrorFacts Settlement) → (causes : List (Option RequestId × EngineError Settlement)) →
    Gathered causes facts → Gathered (causes ++ EngineError.causesOf failures facts.head)
      (EngineError.accumulateAll failures facts)
  | [], facts, causes, gathered => by
    rw [EngineError.causesOf, List.append_nil]
    exact gathered
  | failure :: rest, facts, causes, gathered => by
    have first := gathered.accumulate (gathered_roundFacts failure facts.head)
    have later := gathered_accumulateAll rest _ _ first
    rw [EngineError.causesOf, ← List.append_assoc]
    exact later

end

/-- The causes of a failure found after the action; a failed native cleanup leaves the
cleanup unconfirmed whatever its source says. -/
def RoundSecondaryFailure.causes (failure : RoundSecondaryFailure Settlement)
    (head : Option RequestId) : List (Option RequestId × EngineError Settlement) :=
  (match failure.source with
    | .engine source => source.causes head
    | .store source => [(head, .store source)]) ++
  if failure.stage = .nativeCleanup then [(head, .cleanupFailures [])] else []

/-- The operations that the cleanup has left. -/
def CleanupReceipt.operations : CleanupReceipt → List OperationId
  | outstanding operations => operations
  | _ => []

/-- The assessment of a round with the given causes and obligations. -/
structure Assessed {Followup : Type} (causes : List (Option RequestId × EngineError Settlement))
    (receipt : CleanupReceipt) (inference : List InferenceObligation)
    (assessment : RoundAssessment Settlement Followup) : Prop where
  storage : assessment.storage = .reopenRequired ↔ ∃ cause ∈ causes, cause.2.reopens = true
  continuity : assessment.continuityRefusal = causes.any (·.2.refusesContinuity)
  outstanding : ∀ operation, operation ∈ assessment.outstanding ↔
    (∃ cause ∈ causes, operation ∈ cause.2.operations) ∨ operation ∈ receipt.operations
  outstandingOnce : assessment.outstanding.Nodup
  blocks : ∀ cause ∈ causes, ∀ block ∈ cause.2.blocks, .recoverBlock block ∈ assessment.inference
  inferenceOnce : assessment.inference.Nodup
  explicit : ∀ cause ∈ causes, ∀ request ∈ cause.2.explicitInput cause.1,
    Answered assessment.inference (.explicitInput request)
  kept : ∀ obligation ∈ inference, Answered assessment.inference obligation
  cleanup : assessment.cleanup = .confirmed → receipt = .confirmed ∧
    ∀ cause ∈ causes, cause.2.cleanupUncertain = false

theorem withSecondaryEvidence_one (facts : ErrorFacts Settlement)
    (failure : RoundSecondaryFailure Settlement) :
    (withSecondaryEvidence facts [failure]).head = facts.head ∧
      (withSecondaryEvidence facts [failure]).execution = facts.execution := by
  obtain ⟨stage, source⟩ := failure
  simp only [withSecondaryEvidence, List.foldl_cons, List.foldl_nil]
  cases source with
  | engine source => split_ifs <;> exact ⟨rfl, rfl⟩
  | store source =>
    have same := (facts.stage stage (.store source)).store_same source
    split_ifs <;> exact same

theorem withSecondaryEvidence_same (facts : ErrorFacts Settlement)
    (secondary : List (RoundSecondaryFailure Settlement)) :
    (withSecondaryEvidence facts secondary).head = facts.head ∧
      (withSecondaryEvidence facts secondary).execution = facts.execution := by
  induction secondary generalizing facts with
  | nil => exact ⟨rfl, rfl⟩
  | cons failure rest ih =>
    obtain ⟨head, execution⟩ := withSecondaryEvidence_one facts failure
    obtain ⟨lastHead, lastExecution⟩ := ih (withSecondaryEvidence facts [failure])
    exact ⟨lastHead.trans head, lastExecution.trans execution⟩

namespace Gathered

variable {causes : List (Option RequestId × EngineError Settlement)} {facts : ErrorFacts Settlement}

theorem withFailure (gathered : Gathered causes facts) (failure : RoundSecondaryFailure Settlement) :
    Gathered (causes ++ failure.causes facts.head) (withSecondaryEvidence facts [failure]) := by
  obtain ⟨stage, source⟩ := failure
  simp only [withSecondaryEvidence, List.foldl_cons, List.foldl_nil, RoundSecondaryFailure.causes]
  have sourced : Gathered (causes ++ (match source with
        | .engine source => source.causes facts.head
        | .store source => [(facts.head, .store source)]))
      (match source with
        | .engine source =>
          (facts.stage stage (.engine source)).accumulate (source.roundFacts facts.head)
        | .store source => (facts.stage stage (.store source)).store source) := by
    cases source with
    | engine source =>
      have staged : Gathered causes (facts.stage stage (.engine source)) :=
        gathered.mono_same ⟨rfl, rfl, rfl, rfl, rfl⟩
      exact staged.accumulate (gathered_roundFacts source facts.head)
    | store source =>
      have staged : Gathered causes (facts.stage stage (.store source)) :=
        gathered.mono_same ⟨rfl, rfl, rfl, rfl, rfl⟩
      have uncertain : (EngineError.store source : EngineError Settlement).cleanupUncertain =
          source.recoveryRequirements.uncertain.isSome := by
        cases source <;> rfl
      exact staged.store rfl rfl uncertain rfl rfl
  split_ifs with native
  · rw [← List.append_assoc]
    exact sourced.quiet rfl rfl rfl rfl ⟨rfl, (Bool.or_true _).symm, rfl, rfl, rfl⟩
  · rw [List.append_nil]
    exact sourced

theorem withSecondary (gathered : Gathered causes facts)
    (secondary : List (RoundSecondaryFailure Settlement)) :
    Gathered (causes ++ secondary.flatMap (·.causes facts.head))
      (withSecondaryEvidence facts secondary) := by
  induction secondary generalizing causes facts with
  | nil =>
    rw [List.flatMap_nil, List.append_nil]
    exact gathered
  | cons failure rest ih =>
    have later := ih (gathered.withFailure failure)
    rw [(withSecondaryEvidence_one facts failure).1] at later
    rw [List.flatMap_cons, ← List.append_assoc]
    exact later

end Gathered

theorem assessed {Followup : Type} {causes : List (Option RequestId × EngineError Settlement)}
    {facts : ErrorFacts Settlement} (gathered : Gathered causes facts)
    (secondary : List (RoundSecondaryFailure Settlement)) (receipt : CleanupReceipt)
    (inference : List InferenceObligation) (retained : List Followup)
    (settlements : List Settlement) :
    Assessed (causes ++ secondary.flatMap (·.causes facts.head)) receipt inference
      (assessEvidence facts secondary receipt inference retained settlements) := by
  have whole := gathered.withSecondary secondary
  refine ⟨?_, whole.continuity, ?_, ?_, ?_, ?_, ?_, fun _ listed => answered_foldl (.inr listed), ?_⟩
  · rw [← List.any_eq_true, ← whole.reopen]
    cases reopen : (withSecondaryEvidence facts secondary).reopen <;> simp [assessEvidence, reopen]
  · intro operation
    rw [← whole.outstanding]
    cases receipt <;> simp [assessEvidence, CleanupReceipt.operations, mem_foldl_retainUnique]
  · cases receipt with
    | outstanding operations => exact foldl_retainUnique_nodup whole.outstandingOnce _
    | _ => exact whole.outstandingOnce
  · intro cause listed block named
    have member := (whole.blocks block).mpr ⟨cause, listed, named⟩
    exact (answered_foldl (.inl (.inl member))).block
  · simp only [assessEvidence]
    induction inference using List.reverseRecOn with
    | nil => exact whole.inferenceOnce
    | append_singleton rest obligation ih =>
      rw [List.foldl_concat]
      exact addObligation_nodup ih obligation
  · intro cause listed request asked
    exact answered_foldl (.inl (whole.explicit cause listed request asked))
  · intro confirmed
    simp only [assessEvidence, assessCleanup] at confirmed
    cases receipt with
    | confirmed =>
      refine ⟨rfl, fun cause listed => ?_⟩
      split_ifs at confirmed with unsure
      rw [whole.uncertain, Bool.not_eq_true, List.any_eq_false] at unsure
      simpa using unsure cause listed
    | unobserved => cases confirmed
    | outstanding operations => cases confirmed

/-- The facts of a failed round are those of its causes, and its assessment keeps them. -/
theorem round_folded (error : EngineError Settlement) (head : Option RequestId) :
    (error.roundFacts head).execution = error.innermost.ownExecution ∧
    Gathered (error.causes head) (error.roundFacts head) ∧
    ∀ (Followup : Type) (secondary : List (RoundSecondaryFailure Settlement))
      (receipt : CleanupReceipt) (inference : List InferenceObligation) (retained : List Followup)
      (settlements : List Settlement),
      let assessment :=
        assessEvidence (error.roundFacts head) secondary receipt inference retained settlements
      assessment.execution = error.innermost.ownExecution ∧
      Assessed (error.causes head ++ secondary.flatMap (·.causes (error.headAfter head))) receipt
        inference assessment := by
  have gathered := gathered_roundFacts error head
  refine ⟨(roundFacts_same error head).2, gathered, ?_⟩
  intro Followup secondary receipt inference retained settlements
  refine ⟨?_, ?_⟩
  · exact (withSecondaryEvidence_same _ secondary).2.trans ((roundFacts_same error head).2)
  · rw [← (roundFacts_same error head).1]
    exact assessed gathered secondary receipt inference retained settlements

end

end ExomonadHarness.Engine.Round
