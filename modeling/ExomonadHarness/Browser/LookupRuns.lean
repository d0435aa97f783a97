import ExomonadHarness.Browser.Lookups

/-! Over every run of the lookups: how many reads are in flight, what is delivered, and
that no operation that needs a lookup is forgotten. -/

namespace ExomonadHarness.Browser

open Store

/-- The operations whose reads are in flight, as the table of pending reads has them. -/
def readingKeys (pending : PendingReads) : List OperationKey :=
  (pending.filter (·.2.reading)).map Prod.fst

variable {pending : PendingReads} {now generation active id : ℕ} {state : Lookups}

@[simp] theorem readingKeys_nil : readingKeys [] = [] := rfl

theorem readingKeys_cons (entry : OperationKey × PendingRead) (rest : PendingReads) :
    readingKeys (entry :: rest) =
      if entry.2.reading then entry.1 :: readingKeys rest else readingKeys rest := by
  unfold readingKeys
  split <;> simp_all

theorem readingKeys_sublist (pending : PendingReads) :
    (readingKeys pending).Sublist (pending.map Prod.fst) :=
  List.filter_sublist.map Prod.fst

/-! Starting reads. -/

theorem startReads_keys :
    (startReads now generation pending active id).1.map Prod.fst = pending.map Prod.fst := by
  induction pending generalizing active id with
  | nil => rfl
  | cons entry rest ih =>
    rw [startReads]
    split <;> simp [ih]

theorem startReads_reading :
    (readingKeys (startReads now generation pending active id).1).Perm
      ((startReads now generation pending active id).2.map StatusRead.key ++
        readingKeys pending) := by
  induction pending generalizing active id with
  | nil => exact .nil
  | cons entry rest ih =>
    rw [startReads]
    split
    · rename_i room
      simp only [Bool.and_eq_true, Bool.not_eq_true'] at room
      simpa [readingKeys_cons, room] using ih
    · simp only [readingKeys_cons]
      split
      · exact (ih.cons entry.1).trans List.perm_middle.symm
      · exact ih

theorem startReads_bound (bound : active ≤ maxActive) :
    active + (startReads now generation pending active id).2.length ≤ maxActive := by
  induction pending generalizing active id with
  | nil => exact bound
  | cons entry rest ih =>
    rw [startReads]
    split
    · rename_i room
      simp only [Bool.and_eq_true, decide_eq_true_eq] at room
      have later : active + 1 + (startReads now generation rest (active + 1) (id + 1)).2.length ≤
          maxActive := ih room.1.1
      simp only [List.length_cons]
      omega
    · exact ih bound

theorem startReads_reads : ∀ read ∈ (startReads now generation pending active id).2,
    read.generation = generation ∧ id ≤ read.id ∧
      read.id < id + (startReads now generation pending active id).2.length := by
  induction pending generalizing active id with
  | nil => simp [startReads]
  | cons entry rest ih =>
    rw [startReads]
    split
    · intro read member
      simp only [List.length_cons]
      rcases List.mem_cons.mp member with same | member
      · subst same
        exact ⟨rfl, le_rfl, by simp⟩
      · obtain ⟨same, low, high⟩ := ih read member
        exact ⟨same, by omega, by omega⟩
    · exact ih

theorem startReads_nodup : ((startReads now generation pending active id).2.map StatusRead.id).Nodup := by
  induction pending generalizing active id with
  | nil => simp [startReads]
  | cons entry rest ih =>
    rw [startReads]
    split
    · rw [List.map_cons, List.nodup_cons]
      refine ⟨?_, ih⟩
      intro member
      obtain ⟨read, inside, same⟩ := List.mem_map.mp member
      have low := (startReads_reads read inside).2.1
      simp only at same
      omega
    · exact ih

/-- The table keeps its records and, with room left, what is queued is not due yet. -/
theorem startReads_entries : ∀ entry ∈ (startReads now generation pending active id).1,
    (∃ old, (entry.1, old) ∈ pending ∧ entry.2.record = old.record) ∧
      (active + (startReads now generation pending active id).2.length < maxActive →
        entry.2.reading = true ∨ now < entry.2.due) := by
  induction pending generalizing active id with
  | nil => simp [startReads]
  | cons first rest ih =>
    rw [startReads]
    split
    · intro entry member
      rcases List.mem_cons.mp member with same | member
      · subst same
        exact ⟨⟨first.2, by simp, rfl⟩, fun _ => .inl rfl⟩
      · obtain ⟨⟨old, inside, same⟩, queued⟩ := ih entry member
        refine ⟨⟨old, List.mem_cons_of_mem first inside, same⟩, fun room => queued ?_⟩
        simp only [List.length_cons] at room
        omega
    · rename_i waits
      intro entry member
      rcases List.mem_cons.mp member with same | member
      · subst same
        refine ⟨⟨first.2, by simp, rfl⟩, fun room => ?_⟩
        have free : active < maxActive := by omega
        simp only [free, decide_true, Bool.true_and, Bool.and_eq_true, Bool.not_eq_true',
          decide_eq_true_eq, not_and, Nat.not_le] at waits
        by_cases reading : first.2.reading = true
        · exact .inl reading
        · exact .inr (waits (by simpa using reading))
      · obtain ⟨⟨old, inside, same⟩, queued⟩ := ih entry member
        exact ⟨⟨old, List.mem_cons_of_mem first inside, same⟩, queued⟩

/-! What holds between callbacks. -/

namespace Lookups

def live (state : Lookups) : List StatusRead :=
  state.reads.filter (·.generation = state.generation)

/-- The table, the promises and the counter agree. -/
structure Sane (state : Lookups) : Prop where
  keys : (state.pending.map Prod.fst).Nodup
  owned : ∀ entry ∈ state.pending,
    entry.1 = operationKey entry.2.record ∧ state.currentRun = some entry.1.1
  live : (state.live.map StatusRead.key).Perm (readingKeys state.pending)
  count : state.active = (readingKeys state.pending).length
  bound : state.active ≤ maxActive
  ids : (state.reads.map StatusRead.id).Nodup
  known : ∀ read ∈ state.reads, read.id < state.nextRead ∧ read.generation ≤ state.generation
  ended : state.disposed = true → state.pending = []

/-- Every entry is being read, or a timer is armed no later than it is due, or it waits
for one of two reads. -/
def Served (state : Lookups) : Prop :=
  ∀ entry ∈ state.pending, entry.2.reading = true ∨
    (∃ time, state.timer = some time ∧ time ≤ entry.2.due) ∨ state.active = maxActive

/-- Between the calls and after `pump`. -/
structure Idle (state : Lookups) : Prop extends Sane state where
  served : state.disposed = false → state.Served

theorem Sane.pump (sane : state.Sane) : state.pump.Idle := by
  unfold Lookups.pump
  split
  case isTrue disposed => exact ⟨sane, fun going => absurd disposed (by simp [going])⟩
  case isFalse going =>
    generalize known : startReads state.now state.generation state.pending state.active
      state.nextRead = started
    dsimp only
    have keys : started.1.map Prod.fst = state.pending.map Prod.fst := known ▸ startReads_keys
    have reading : (readingKeys started.1).Perm
        (started.2.map StatusRead.key ++ readingKeys state.pending) := known ▸ startReads_reading
    have bound : state.active + started.2.length ≤ maxActive := known ▸ startReads_bound sane.bound
    have reads : ∀ read ∈ started.2, read.generation = state.generation ∧ state.nextRead ≤ read.id ∧
        read.id < state.nextRead + started.2.length := known ▸ startReads_reads
    have nodup : (started.2.map StatusRead.id).Nodup := known ▸ startReads_nodup
    have entries : ∀ entry ∈ started.1,
        (∃ old, (entry.1, old) ∈ state.pending ∧ entry.2.record = old.record) ∧
          (state.active + started.2.length < maxActive →
            entry.2.reading = true ∨ state.now < entry.2.due) := known ▸ startReads_entries
    refine ⟨⟨?_, ?_, ?_, ?_, bound, ?_, ?_, ?_⟩, ?_⟩
    · rw [keys]
      exact sane.keys
    · intro entry member
      obtain ⟨⟨old, inside, same⟩, -⟩ := entries entry member
      rw [same]
      exact sane.owned (entry.1, old) inside
    · have current : started.2.filter (·.generation = state.generation) = started.2 := by
        rw [List.filter_eq_self]
        intro read member
        simpa using (reads read member).1
      simp only [Lookups.live, List.filter_append, current, List.map_append]
      exact (List.perm_append_comm.trans (sane.live.append_left _)).trans reading.symm
    · change state.active + started.2.length = (readingKeys started.1).length
      rw [reading.length_eq, List.length_append, List.length_map, sane.count, Nat.add_comm]
    · rw [List.map_append, List.nodup_append]
      refine ⟨sane.ids, nodup, ?_⟩
      intro first old second fresh same
      obtain ⟨read, inside, rfl⟩ := List.mem_map.mp old
      obtain ⟨other, given, rfl⟩ := List.mem_map.mp fresh
      have below := (sane.known read inside).1
      have above := (reads other given).2.1
      omega
    · intro read member
      rcases List.mem_append.mp member with old | fresh
      · obtain ⟨below, past⟩ := sane.known read old
        exact ⟨Nat.lt_add_right _ below, past⟩
      · obtain ⟨same, -, high⟩ := reads read fresh
        exact ⟨high, same.le⟩
    · intro disposed
      exact absurd disposed going
    · intro _ entry member
      by_cases full : state.active + started.2.length = maxActive
      · exact .inr (.inr full)
      · have room : state.active + started.2.length < maxActive := by omega
        rcases (entries entry member).2 room with reading | later
        · exact .inl reading
        · by_cases reading : entry.2.reading = true
          · exact .inl reading
          · refine .inr (.inl ?_)
            have queued : entry.2.due ∈
                (started.1.filter (!·.2.reading)).map fun entry => entry.2.due :=
              List.mem_map_of_mem (List.mem_filter.mpr ⟨member, by simpa using reading⟩)
            obtain ⟨first, least⟩ := Option.isSome_iff_exists.mp (List.isSome_min?_of_mem queued)
            have earliest := (List.min?_eq_some_iff.mp least).2 _ queued
            refine ⟨max state.now first, ?_, by omega⟩
            simp only [room, if_true, least, Option.map_some]

theorem Sane.pause (sane : state.Sane) : state.pause.Idle := by
  have none_live : state.pause.live = [] := by
    rw [Lookups.live, List.filter_eq_nil_iff]
    intro read member current
    obtain ⟨old, inside, rfl⟩ := List.mem_map.mp member
    have past := (sane.known old inside).2
    have same : old.generation = state.generation + 1 := of_decide_eq_true current
    omega
  refine ⟨⟨by simp [Lookups.pause], by simp [Lookups.pause], ?_, rfl, Nat.zero_le _, ?_, ?_,
    fun _ => rfl⟩, fun _ entry member => by cases member⟩
  · rw [none_live]
    exact .nil
  · simpa [Lookups.pause, Function.comp_def] using sane.ids
  · intro read member
    obtain ⟨old, inside, rfl⟩ := List.mem_map.mp member
    obtain ⟨below, past⟩ := sane.known old inside
    exact ⟨below, past.trans (Nat.le_succ _)⟩

theorem Sane.address (sane : state.Sane) (going : state.disposed = false) (run : String) :
    (state.address run).Sane ∧ (state.address run).currentRun = some run ∧
      (state.address run).disposed = false := by
  unfold Lookups.address
  split
  · exact ⟨sane, by assumption, going⟩
  · have paused := sane.pause.toSane
    refine ⟨⟨paused.keys, ?_, paused.live, paused.count, paused.bound, paused.ids, paused.known,
      paused.ended⟩, rfl, going⟩
    intro entry member
    cases member

/-! Reconciling. -/

/-- Entries of one run, each under its record's key. -/
structure Listed (run : String) (pending : PendingReads) : Prop where
  keys : (pending.map Prod.fst).Nodup
  owned : ∀ entry ∈ pending, entry.1 = operationKey entry.2.record ∧ entry.1.1 = run

variable {run : String} {force : Bool} {record : BrowserCommandRecord}

theorem mem_keys_enlist {key : OperationKey} :
    key ∈ (enlist now force pending record).map Prod.fst ↔
      key ∈ pending.map Prod.fst ∨ key = operationKey record := by
  unfold enlist
  dsimp only
  split
  case isTrue found =>
    rw [List.map_map]
    simp only [List.any_eq_true, decide_eq_true_eq] at found
    obtain ⟨entry, inside, given⟩ := found
    constructor
    · exact .inl
    · intro either
      rcases either with old | same
      · exact old
      · rw [same, ← given]
        exact List.mem_map.mpr ⟨entry, inside, rfl⟩
  case isFalse => simp

theorem Listed.enlist (listed : Listed run pending) (same : record.hostRun = run) :
    Listed run (Lookups.enlist now force pending record) ∧
      readingKeys (Lookups.enlist now force pending record) = readingKeys pending := by
  unfold Lookups.enlist
  dsimp only
  split
  case isTrue found =>
    refine ⟨⟨?_, ?_⟩, ?_⟩
    · rw [List.map_map]
      exact listed.keys
    · intro entry member
      obtain ⟨old, inside, rfl⟩ := List.mem_map.mp member
      obtain ⟨key, owner⟩ := listed.owned old inside
      refine ⟨?_, owner⟩
      dsimp only
      split
      · assumption
      · exact key
    · clear listed found
      induction pending with
      | nil => rfl
      | cons entry rest ih =>
        rw [List.map_cons, readingKeys_cons, readingKeys_cons, ih]
        split_ifs <;> simp_all
  case isFalse missing =>
    refine ⟨⟨?_, ?_⟩, ?_⟩
    · rw [List.map_append, List.nodup_append]
      refine ⟨listed.keys, by simp, ?_⟩
      intro key inside other given same
      obtain ⟨entry, member, rfl⟩ := List.mem_map.mp inside
      simp only [List.map_cons, List.map_nil, List.mem_singleton] at given
      apply missing
      rw [List.any_eq_true]
      exact ⟨entry, member, by simp [same, given]⟩
    · intro entry member
      rcases List.mem_append.mp member with old | fresh
      · exact listed.owned entry old
      · rw [List.mem_singleton.mp fresh]
        exact ⟨rfl, same⟩
    · simp [readingKeys]

theorem Listed.foldl_enlist (now : ℕ) (force : Bool) {records : List BrowserCommandRecord}
    (listed : Listed run pending) (same : ∀ record ∈ records, record.hostRun = run) :
    Listed run (records.foldl (Lookups.enlist now force) pending) ∧
      readingKeys (records.foldl (Lookups.enlist now force) pending) = readingKeys pending ∧
      ∀ key, key ∈ (records.foldl (Lookups.enlist now force) pending).map Prod.fst ↔
        key ∈ pending.map Prod.fst ∨ key ∈ records.map operationKey := by
  induction records generalizing pending with
  | nil => exact ⟨listed, rfl, by simp⟩
  | cons record rest ih =>
    have ⟨first, reading⟩ : Listed run (Lookups.enlist now force pending record) ∧ _ :=
      listed.enlist (same record List.mem_cons_self)
    obtain ⟨all, kept, keys⟩ := ih first fun later member =>
      same later (List.mem_cons_of_mem record member)
    refine ⟨all, kept.trans reading, fun key => ?_⟩
    rw [List.foldl_cons, keys, mem_keys_enlist, List.map_cons, List.mem_cons, or_assoc]

theorem readingKeys_filter {keep : OperationKey × PendingRead → Bool}
    (reading : ∀ entry ∈ pending, entry.2.reading = true → keep entry = true) :
    readingKeys (pending.filter keep) = readingKeys pending := by
  unfold readingKeys
  rw [List.filter_filter]
  congr 1
  apply List.filter_congr
  intro entry member
  cases given : entry.2.reading
  · simp
  · simp [reading entry member given]

theorem Sane.reconcile (sane : state.Idle) (records : List BrowserCommandRecord) (run : String)
    (force : Bool) : (state.reconcile records run force).Idle := by
  unfold Lookups.reconcile
  split
  · exact sane
  · rename_i going
    obtain ⟨addressed, current, alive⟩ := sane.toSane.address (by simpa using going) run
    dsimp only
    generalize state.address run = start at *
    have listed : Listed run start.pending := by
      refine ⟨addressed.keys, fun entry member => ?_⟩
      obtain ⟨key, same⟩ := addressed.owned entry member
      exact ⟨key, Option.some.inj (same.symm.trans current)⟩
    have ofRun : ∀ record ∈ records.filter (eligible run force), record.hostRun = run := by
      simp_all [eligible]
    obtain ⟨all, reading, -⟩ := listed.foldl_enlist start.now force ofRun
    generalize (records.filter (eligible run force)).foldl (enlist start.now force) start.pending =
      pending at *
    have kept : readingKeys (pending.filter (stays start.current force)) = readingKeys start.pending := by
      rw [readingKeys_filter, reading]
      intro entry _ given
      simp [stays, given]
    apply Sane.pump
    refine ⟨?_, ?_, ?_, ?_, addressed.bound, addressed.ids, addressed.known, ?_⟩
    · exact all.keys.sublist (List.filter_sublist.map Prod.fst)
    · intro entry member
      obtain ⟨key, same⟩ := all.owned entry (List.mem_of_mem_filter member)
      exact ⟨key, same ▸ current⟩
    · exact kept ▸ addressed.live
    · exact kept ▸ addressed.count
    · intro disposed
      simp [alive] at disposed

/-! The callbacks of a read. -/

theorem live_setPhase (phase : ReadPhase) :
    ((state.setPhase id phase).live).map StatusRead.key = state.live.map StatusRead.key := by
  unfold Lookups.live setPhase
  rw [List.filter_map, List.map_map]
  have generations : ((fun read : StatusRead => decide (read.generation = state.generation)) ∘
      fun read => if read.id = id then { read with phase } else read) =
      fun read => decide (read.generation = state.generation) := by
    funext read
    simp only [Function.comp_apply]
    split <;> rfl
  dsimp only
  rw [generations]
  apply List.map_congr_left
  intro read _
  simp only [Function.comp_apply]
  split <;> rfl

theorem Idle.setPhase (idle : state.Idle) (id : ℕ) (phase : ReadPhase) :
    (state.setPhase id phase).Idle := by
  refine ⟨⟨idle.keys, idle.owned, ?_, idle.count, idle.bound, ?_, ?_, idle.ended⟩, idle.served⟩
  · rw [live_setPhase]
    exact idle.live
  · have ids : (state.setPhase id phase).reads.map StatusRead.id = state.reads.map StatusRead.id := by
      unfold Lookups.setPhase
      rw [List.map_map]
      apply List.map_congr_left
      intro read _
      simp only [Function.comp_apply]
      split <;> rfl
    rw [ids]
    exact idle.ids
  · intro read member
    obtain ⟨old, inside, rfl⟩ := List.mem_map.mp member
    have known := idle.known old inside
    split <;> exact known

/-- A live read is told apart by its key as well as by its id. -/
theorem Sane.drop_live {read : StatusRead} (sane : state.Sane) (member : read ∈ state.live) :
    (state.drop read.id).live.map StatusRead.key =
      (state.live.map StatusRead.key).filter (· ≠ read.key) := by
  have keys : (state.live.map StatusRead.key).Nodup :=
    sane.live.nodup_iff.mpr (sane.keys.sublist (readingKeys_sublist _))
  have ids : (state.live.map StatusRead.id).Nodup :=
    sane.ids.sublist (List.filter_sublist.map StatusRead.id)
  rw [List.filter_map]
  congr 1
  have commuted : (state.drop read.id).live = state.live.filter (·.id ≠ read.id) := by
    unfold Lookups.live Lookups.drop
    rw [List.filter_filter, List.filter_filter]
    simp only [Bool.and_comm]
  rw [commuted]
  apply List.filter_congr
  intro other inside
  have same : other.id = read.id ↔ other.key = read.key :=
    ⟨fun same => congrArg StatusRead.key (List.inj_on_of_nodup_map ids inside member same),
      fun same => congrArg StatusRead.id (List.inj_on_of_nodup_map keys inside member same)⟩
  simp [same]

theorem Sane.drop_stale {read : StatusRead} (sane : state.Sane)
    (stale : state.generation ≠ read.generation) (member : read ∈ state.reads) :
    (state.drop read.id).live = state.live := by
  unfold Lookups.live Lookups.drop
  rw [List.filter_filter]
  apply List.filter_congr
  intro other inside
  by_cases same : other.id = read.id
  · have equal := List.inj_on_of_nodup_map sane.ids inside member same
    subst equal
    simp [Ne.symm stale]
  · simp [same]

theorem readingKeys_release {key : OperationKey} (release : PendingRead → PendingRead)
    (released : ∀ entry, (release entry).reading = false) :
    readingKeys (pending.map fun entry => (entry.1, if entry.1 = key then release entry.2 else entry.2)) =
      (readingKeys pending).filter (· ≠ key) := by
  induction pending with
  | nil => rfl
  | cons entry rest ih =>
    rw [List.map_cons, readingKeys_cons, readingKeys_cons, ih]
    by_cases same : entry.1 = key
    · by_cases reading : entry.2.reading = true <;> simp [same, released, reading]
    · by_cases reading : entry.2.reading = true <;> simp [same, reading]

theorem readingKeys_remove {key : OperationKey} :
    readingKeys (pending.filter (·.1 ≠ key)) = (readingKeys pending).filter (· ≠ key) := by
  unfold readingKeys
  rw [List.filter_map, List.filter_filter, List.filter_filter]
  simp only [Function.comp_def, Bool.and_comm]

/-- A read of the current generation ends: its entry is queued again or removed. -/
theorem Sane.release {read : StatusRead} {pending : PendingReads} (sane : state.Sane)
    (member : read ∈ state.live) (going : state.disposed = false)
    (keys : (pending.map Prod.fst).Nodup)
    (owned : ∀ entry ∈ pending,
      entry.1 = operationKey entry.2.record ∧ state.currentRun = some entry.1.1)
    (reading : readingKeys pending = (readingKeys state.pending).filter (· ≠ read.key)) :
    ({ state.drop read.id with active := state.active - 1, pending } : Lookups).Sane := by
  have inside : read.key ∈ readingKeys state.pending :=
    sane.live.subset (List.mem_map_of_mem member)
  have nodup := sane.keys.sublist (readingKeys_sublist state.pending)
  refine ⟨keys, owned, ?_, ?_, (Nat.sub_le _ _).trans sane.bound, ?_, ?_, ?_⟩
  · change ((state.drop read.id).live.map StatusRead.key).Perm (readingKeys pending)
    rw [sane.drop_live member, reading]
    exact sane.live.filter _
  · change state.active - 1 = (readingKeys pending).length
    have erased : (readingKeys state.pending).filter (· ≠ read.key) =
        (readingKeys state.pending).erase read.key := by
      rw [nodup.erase_eq_filter]
      apply List.filter_congr
      intro key _
      by_cases same : key = read.key <;> simp [same]
    rw [reading, erased, List.length_erase_of_mem inside, sane.count]
  · exact sane.ids.sublist (List.filter_sublist.map StatusRead.id)
  · intro other listed
    exact sane.known other (List.mem_of_mem_filter listed)
  · intro disposed
    change state.disposed = true at disposed
    simp [going] at disposed

theorem Idle.drop_stale {read : StatusRead} (idle : state.Idle) (member : read ∈ state.reads)
    (stale : state.disposed = true ∨ state.generation ≠ read.generation) :
    (state.drop read.id).Idle := by
  refine ⟨⟨idle.keys, idle.owned, ?_, idle.count, idle.bound,
    idle.ids.sublist (List.filter_sublist.map StatusRead.id),
    fun other listed => idle.known other (List.mem_of_mem_filter listed), idle.ended⟩, idle.served⟩
  rcases stale with disposed | stale
  · have keys := idle.live
    have part : (state.drop read.id).live.Sublist state.live := by
      exact List.filter_sublist.filter _
    change ((state.drop read.id).live.map StatusRead.key).Perm (readingKeys state.pending)
    rw [idle.ended disposed, readingKeys_nil] at keys ⊢
    have nothing : state.live = [] := by simpa using keys.eq_nil
    rw [nothing] at part
    rw [List.sublist_nil.mp part]
    exact .nil
  · rw [idle.toSane.drop_stale stale member]
    exact idle.live

theorem Idle.finish {read : StatusRead} (idle : state.Idle) (member : read ∈ state.reads) :
    ((state.drop read.id).finish read).Idle := by
  unfold Lookups.finish
  split
  case isTrue stale =>
    simp only [Bool.or_eq_true, decide_eq_true_eq] at stale
    exact idle.drop_stale member stale
  case isFalse current =>
    simp only [Bool.or_eq_true, not_or, decide_eq_true_eq, ne_eq, not_not, Bool.not_eq_true] at current
    have going : state.disposed = false := current.1
    have same : state.generation = read.generation := current.2
    have live : read ∈ state.live := List.mem_filter.mpr ⟨member, by simpa using same.symm⟩
    have removed : ({ state.drop read.id with
        active := state.active - 1
        pending := state.pending.filter (·.1 ≠ read.key) } : Lookups).Sane := by
      refine idle.toSane.release live going (idle.keys.sublist (List.filter_sublist.map Prod.fst)) ?_
        readingKeys_remove
      exact fun entry inside => idle.owned entry (List.mem_of_mem_filter inside)
    apply Sane.pump
    dsimp only [Lookups.drop] at removed ⊢
    split
    case h_1 record found =>
      split
      · refine idle.toSane.release live going ?_ ?_
          (readingKeys_release (requeue state.now record) fun _ => rfl)
        · rw [List.map_map]
          exact idle.keys
        · intro entry inside
          obtain ⟨old, listed, rfl⟩ := List.mem_map.mp inside
          obtain ⟨key, owner⟩ := idle.owned old listed
          refine ⟨?_, owner⟩
          dsimp only
          split
          case isTrue same =>
            have known : operationKey record = read.key := by simpa using List.find?_some found
            exact same.trans known.symm
          case isFalse => exact key
      · exact removed
    case h_2 => exact removed

/-- Every event leaves the table served. -/
theorem Idle.handle (idle : state.Idle) (event : LookupEvent) : (state.handle event).1.Idle := by
  cases event with
  | reconcile records run force => exact Sane.reconcile idle records run force
  | pause => exact idle.toSane.pause
  | dispose =>
    have paused := idle.toSane.pause
    exact ⟨⟨paused.keys, paused.owned, paused.live, paused.count, paused.bound, paused.ids,
      paused.known, fun _ => rfl⟩, fun going => by cases going⟩
  | fire =>
    simp only [Lookups.handle]
    split
    · exact idle.toSane.pump
    · exact idle
  | answer id succeeds =>
    simp only [Lookups.handle]
    split
    · split
      · exact idle.setPhase id _
      · exact idle
    · exact idle
  | callback id throws =>
    simp only [Lookups.handle]
    split
    · rename_i read found
      have member := List.mem_of_find?_eq_some found
      unfold Lookups.advance
      split
      · exact idle
      · exact idle.setPhase _ _
      · exact idle.setPhase _ _
      · exact idle.finish member
    · exact idle
  | ledger records =>
    exact ⟨⟨idle.keys, idle.owned, idle.live, idle.count, idle.bound, idle.ids, idle.known,
      idle.ended⟩, idle.served⟩
  | elapse time =>
    exact ⟨⟨idle.keys, idle.owned, idle.live, idle.count, idle.bound, idle.ids, idle.known,
      idle.ended⟩, idle.served⟩

/-! What is owed. -/

/-- Every operation that is owed a lookup is retained, needs it and is in the table. -/
def Owes (state : Lookups) (owed : List OperationKey) : Prop :=
  ∀ key ∈ owed, state.wants key = true ∧ key ∈ state.pending.map Prod.fst

variable {owed : List OperationKey} {key : OperationKey}

theorem pump_pending : state.pump.pending.map Prod.fst = state.pending.map Prod.fst := by
  unfold Lookups.pump
  split
  · rfl
  · exact startReads_keys

theorem pump_current : state.pump.current = state.current := by
  unfold Lookups.pump
  split <;> rfl

theorem address_current (state : Lookups) (run : String) :
    (state.address run).current = state.current := by
  unfold Lookups.address
  split <;> rfl

theorem Owes.reconcile (owes : state.Owes owed) (idle : state.Idle)
    (records : List BrowserCommandRecord) (run : String) (force : Bool) :
    (state.reconcile records run force).Owes (state.owe owed (.reconcile records run force)) := by
  intro key member
  rw [owe] at member
  split at member
  · cases member
  · rename_i going
    obtain ⟨listed, wanted⟩ := List.mem_filter.mp member
    obtain ⟨addressed, current, -⟩ := idle.toSane.address (by simpa using going) run
    rw [Lookups.reconcile, if_neg going, Lookups.wants, pump_current, pump_pending]
    refine ⟨?_, ?_⟩
    · dsimp only
      rw [address_current]
      exact wanted
    · have start : Listed run (state.address run).pending := by
        refine ⟨addressed.keys, fun entry inside => ?_⟩
        obtain ⟨same, owner⟩ := addressed.owned entry inside
        exact ⟨same, Option.some.inj (owner.symm.trans current)⟩
      have ofRun : ∀ record ∈ records.filter (eligible run force), record.hostRun = run := by
        simp_all [eligible]
      obtain ⟨-, -, keys⟩ := start.foldl_enlist (state.address run).now force ofRun
      have inside := (keys key).mpr ?_
      · obtain ⟨entry, given, same⟩ := List.mem_map.mp inside
        refine List.mem_map.mpr ⟨entry, List.mem_filter.mpr ⟨given, ?_⟩, same⟩
        rw [stays, address_current, same, Bool.or_eq_true]
        right
        rw [Lookups.wants, Option.any_eq_true] at wanted
        obtain ⟨record, found, needs⟩ := wanted
        simp [Option.mem_def.mp found, needs]
      · rcases List.mem_append.mp listed with old | fresh
        · split at old
          case isTrue same =>
            rw [Lookups.address, if_pos same]
            exact .inl (owes key old).2
          case isFalse => cases old
        · exact .inr fresh

theorem Owes.finish {read : StatusRead} (owes : state.Owes owed) : (state.finish read).Owes owed := by
  intro key member
  obtain ⟨wanted, inside⟩ := owes key member
  unfold Lookups.finish
  split
  · exact ⟨wanted, inside⟩
  · have removed : state.wants read.key ≠ true →
        key ∈ (state.pending.filter (·.1 ≠ read.key)).map Prod.fst := by
      intro unwanted
      obtain ⟨entry, given, same⟩ := List.mem_map.mp inside
      refine List.mem_map.mpr ⟨entry, List.mem_filter.mpr ⟨given, ?_⟩, same⟩
      simp only [decide_eq_true_eq, same]
      intro equal
      exact unwanted (equal ▸ wanted)
    rw [Lookups.wants, pump_current, pump_pending]
    refine ⟨wanted, ?_⟩
    dsimp only
    split
    case h_1 record found =>
      split
      case isTrue => simpa [List.map_map, Function.comp_def] using inside
      case isFalse unneeded => exact removed (by simp [Lookups.wants, found, unneeded])
    case h_2 missing => exact removed (by simp [Lookups.wants, missing])

theorem Owes.handle (owes : state.Owes owed) (idle : state.Idle) (event : LookupEvent) :
    (state.handle event).1.Owes (state.owe owed event) := by
  cases event with
  | reconcile records run force => exact owes.reconcile idle records run force
  | pause | dispose =>
    intro key member
    cases member
  | fire =>
    intro key member
    simp only [Lookups.handle]
    split
    · rw [Lookups.wants, pump_current, pump_pending]
      exact owes key member
    · exact owes key member
  | answer id succeeds =>
    simp only [Lookups.handle]
    split
    · split <;> exact owes
    · exact owes
  | callback id throws =>
    simp only [Lookups.handle]
    split
    · unfold Lookups.advance
      split
      · exact owes
      · exact owes
      · exact owes
      · have dropped (id : ℕ) : (state.drop id).Owes owed := owes
        exact (dropped _).finish
    · exact owes
  | ledger records =>
    intro key member
    obtain ⟨listed, wanted⟩ := List.mem_filter.mp member
    exact ⟨wanted, (owes key listed).2⟩
  | elapse time => exact owes

/-! What later states keep of the reads. -/

/-- Reads are only added, and generations and the end of the lookups stay. -/
structure Extends (state next : Lookups) : Prop where
  generation : state.generation ≤ next.generation
  nextRead : state.nextRead ≤ next.nextRead
  kept : ∀ read ∈ next.reads, state.nextRead ≤ read.id ∨
    ∃ old ∈ state.reads, old.id = read.id ∧ old.generation = read.generation
  disposed : state.disposed = true → next.disposed = true

variable {next last : Lookups}

theorem Extends.refl (state : Lookups) : state.Extends state :=
  ⟨le_rfl, le_rfl, fun read member => .inr ⟨read, member, rfl, rfl⟩, id⟩

theorem Extends.trans (first : state.Extends next) (second : next.Extends last) :
    state.Extends last := by
  refine ⟨first.generation.trans second.generation, first.nextRead.trans second.nextRead, ?_,
    fun disposed => second.disposed (first.disposed disposed)⟩
  intro read member
  rcases second.kept read member with fresh | ⟨old, inside, same, generation⟩
  · exact .inl (first.nextRead.trans fresh)
  · rcases first.kept old inside with fresh | ⟨older, listed, equal, before⟩
    · exact .inl (same ▸ fresh)
    · exact .inr ⟨older, listed, equal.trans same, before.trans generation⟩

theorem extends_pump (state : Lookups) : state.Extends state.pump := by
  unfold Lookups.pump
  split
  · exact .refl state
  · refine ⟨le_rfl, Nat.le_add_right _ _, ?_, id⟩
    intro read member
    rcases List.mem_append.mp member with old | fresh
    · exact .inr ⟨read, old, rfl, rfl⟩
    · exact .inl (startReads_reads read fresh).2.1

theorem Extends.pump (extended : state.Extends next) : state.Extends next.pump :=
  extended.trans (extends_pump next)

theorem extends_pause (state : Lookups) : state.Extends state.pause := by
  refine ⟨Nat.le_succ _, le_rfl, ?_, id⟩
  intro read member
  obtain ⟨old, inside, rfl⟩ := List.mem_map.mp member
  exact .inr ⟨old, inside, rfl, rfl⟩

theorem extends_setPhase (state : Lookups) (id : ℕ) (phase : ReadPhase) :
    state.Extends (state.setPhase id phase) := by
  refine ⟨le_rfl, le_rfl, ?_, fun disposed => disposed⟩
  intro read member
  obtain ⟨old, inside, rfl⟩ := List.mem_map.mp member
  refine .inr ⟨old, inside, ?_⟩
  split <;> exact ⟨rfl, rfl⟩

theorem extends_finish (state : Lookups) (read : StatusRead) : state.Extends (state.finish read) := by
  unfold Lookups.finish
  split
  · exact .refl state
  · have same := Extends.refl state
    exact Extends.pump ⟨same.generation, same.nextRead, same.kept, same.disposed⟩

theorem extends_handle (state : Lookups) (event : LookupEvent) :
    state.Extends (state.handle event).1 := by
  cases event with
  | reconcile records run force =>
    simp only [Lookups.handle, Lookups.reconcile]
    split
    · exact .refl state
    · have addressed : state.Extends (state.address run) := by
        unfold Lookups.address
        split
        · exact .refl state
        · have paused := extends_pause state
          exact ⟨paused.generation, paused.nextRead, paused.kept, paused.disposed⟩
      exact Extends.pump
        ⟨addressed.generation, addressed.nextRead, addressed.kept, addressed.disposed⟩
  | pause => exact extends_pause state
  | dispose =>
    have paused := extends_pause state
    exact ⟨paused.generation, paused.nextRead, paused.kept, fun _ => rfl⟩
  | fire =>
    simp only [Lookups.handle]
    split
    · exact extends_pump state
    · exact .refl state
  | answer id succeeds =>
    simp only [Lookups.handle]
    split
    · split
      · exact extends_setPhase state id _
      · exact .refl state
    · exact .refl state
  | callback id throws =>
    simp only [Lookups.handle]
    split
    · rename_i read found
      unfold Lookups.advance
      split
      · exact .refl state
      · exact extends_setPhase state _ _
      · exact extends_setPhase state _ _
      · have dropped : state.Extends (state.drop read.id) :=
          ⟨le_rfl, le_rfl, fun other member =>
            .inr ⟨other, List.mem_of_mem_filter member, rfl, rfl⟩, fun disposed => disposed⟩
        exact dropped.trans (extends_finish _ read)
    · exact .refl state
  | ledger | elapse =>
    have same := Extends.refl state
    exact ⟨same.generation, same.nextRead, same.kept, same.disposed⟩

variable {event : LookupEvent}

/-- What is handed out belongs to the current generation and the current run. -/
theorem Idle.delivered {delivery : Delivery} (idle : state.Idle)
    (given : (state.handle event).2 = some delivery) :
    state.disposed = false ∧ delivery.read ∈ state.reads ∧
      delivery.read.generation = state.generation ∧
      state.currentRun = some delivery.record.hostRun := by
  have handed {read : StatusRead} {failed : Bool} (member : read ∈ state.reads)
      (handed : state.deliver read failed = some delivery) :
      state.disposed = false ∧ delivery.read ∈ state.reads ∧
        delivery.read.generation = state.generation ∧
        state.currentRun = some delivery.record.hostRun := by
    unfold Lookups.deliver at handed
    split at handed
    · cases handed
    · rename_i current
      simp only [Bool.or_eq_true, not_or, decide_eq_true_eq, ne_eq, not_not,
        Bool.not_eq_true] at current
      obtain ⟨entry, found, rfl⟩ := Option.map_eq_some_iff.mp handed
      obtain ⟨before, after, parts, -⟩ := List.lookup_eq_some_iff.mp found
      obtain ⟨same, owner⟩ := idle.owned (read.key, entry) (by simp [parts])
      refine ⟨current.1.1, member, current.1.2.symm, ?_⟩
      rw [owner, same]
      rfl
  cases event with
  | callback id throws =>
    simp only [Lookups.handle] at given
    split at given
    · rename_i read found
      have member := List.mem_of_find?_eq_some found
      unfold Lookups.advance at given
      split at given
      · cases given
      · exact handed member given
      · exact handed member given
      · cases given
    · cases given
  | answer id succeeds =>
    simp only [Lookups.handle] at given
    split at given
    · split at given <;> cases given
    · cases given
  | _ => cases given

/-! Runs. -/

def watch (start : Lookups × List OperationKey) (event : LookupEvent) :
    Lookups × List OperationKey :=
  ((start.1.handle event).1, start.1.owe start.2 event)

theorem watch_invariant (events : List LookupEvent) (start : Lookups × List OperationKey)
    (idle : start.1.Idle) (owes : start.1.Owes start.2) :
    (events.foldl watch start).1.Idle ∧
      (events.foldl watch start).1.Owes (events.foldl watch start).2 ∧
      start.1.Extends (events.foldl watch start).1 := by
  induction events generalizing start with
  | nil => exact ⟨idle, owes, .refl start.1⟩
  | cons event rest ih =>
    have kept : (watch start event).1.Owes (watch start event).2 := owes.handle idle event
    obtain ⟨later, owed, extended⟩ := ih _ (idle.handle event) kept
    exact ⟨later, owed, (extends_handle start.1 event).trans extended⟩

/-- The state and what is owed after a sequence of events. -/
def after (events : List LookupEvent) : Lookups × List OperationKey :=
  events.foldl watch ({}, [])

theorem after_append (events later : List LookupEvent) :
    after (events ++ later) = later.foldl watch (after events) :=
  List.foldl_append

theorem after_invariant (events : List LookupEvent) :
    (after events).1.Idle ∧ (after events).1.Owes (after events).2 := by
  have idle : Idle {} := by
    refine ⟨⟨?_, ?_, ?_, ?_, ?_, ?_, ?_, ?_⟩, ?_⟩ <;> simp [live, readingKeys, Served]
  have owes : Owes {} [] := by
    intro key member
    cases member
  obtain ⟨later, owed, -⟩ := watch_invariant events ({}, []) idle owes
  exact ⟨later, owed⟩

theorem after_extends (events later : List LookupEvent) :
    (after events).1.Extends (after (events ++ later)).1 := by
  obtain ⟨idle, owes⟩ := after_invariant events
  rw [after_append]
  exact (watch_invariant later _ idle owes).2.2

theorem Idle.live_bound (idle : state.Idle) :
    state.live.length ≤ 2 ∧ (state.live.map StatusRead.key).Nodup := by
  have length := idle.live.length_eq
  rw [List.length_map, ← idle.count] at length
  refine ⟨length ▸ idle.bound, idle.live.nodup_iff.mpr ?_⟩
  exact idle.keys.sublist (List.filter_sublist.map _)

theorem Idle.owed_served (idle : state.Idle) (owes : state.Owes owed) (member : key ∈ owed) :
    (∃ read ∈ state.live, read.key = key) ∨
      ∃ entry, (key, entry) ∈ state.pending ∧
        ((∃ time, state.timer = some time ∧ time ≤ entry.due) ∨ state.live.length = 2) := by
  obtain ⟨⟨owner, entry⟩, inside, rfl⟩ := List.mem_map.mp (owes key member).2
  have going : state.disposed = false := by
    rw [← Bool.not_eq_true]
    intro disposed
    rw [idle.ended disposed] at inside
    cases inside
  rcases idle.served going _ inside with reading | waits
  · left
    have listed := idle.live.mem_iff.mpr
      (List.mem_map_of_mem (List.mem_filter.mpr ⟨inside, reading⟩))
    exact List.mem_map.mp listed
  · right
    have length := idle.live.length_eq
    rw [List.length_map, ← idle.count] at length
    exact ⟨entry, inside, length ▸ waits⟩

/-- After a pause no read that was made before is handed out. -/
theorem delivered_after_pause {events later : List LookupEvent} {delivery : Delivery}
    (given : ((after (events ++ .pause :: later)).1.handle event).2 = some delivery) :
    (after events).1.nextRead ≤ delivery.read.id := by
  obtain ⟨-, inside, generation, -⟩ := (after_invariant _).1.delivered given
  rw [List.append_cons] at inside generation
  have paused : (after (events ++ [.pause])).1 = (after events).1.pause := by
    rw [after_append]
    rfl
  have extended := after_extends (events ++ [.pause]) later
  rw [paused] at extended
  rcases extended.kept _ inside with fresh | ⟨old, listed, -, same⟩
  · exact fresh
  · obtain ⟨read, known, rfl⟩ := List.mem_map.mp listed
    have before := ((after_invariant events).1.known read known).2
    have later : (after events).1.generation + 1 ≤ read.generation :=
      (extended.generation.trans generation.ge).trans same.ge
    omega

theorem delivered_after_dispose {events later : List LookupEvent} :
    ((after (events ++ .dispose :: later)).1.handle event).2 = none := by
  have disposed : (after (events ++ .dispose :: later)).1.disposed = true := by
    rw [List.append_cons]
    refine (after_extends _ later).disposed ?_
    rw [after_append]
    rfl
  by_contra some
  obtain ⟨delivery, given⟩ := Option.ne_none_iff_exists'.mp some
  have going := ((after_invariant _).1.delivered given).1
  rw [disposed] at going
  cases going

theorem command_lookups (events : List LookupEvent) :
    ((after events).1.live.length ≤ 2 ∧ ((after events).1.live.map StatusRead.key).Nodup) ∧
    (∀ event delivery, ((after events).1.handle event).2 = some delivery →
      (after events).1.currentRun = some delivery.record.hostRun ∧
      delivery.read.generation = (after events).1.generation ∧
      .dispose ∉ events ∧
      ∀ before later, events = before ++ .pause :: later →
        (after before).1.nextRead ≤ delivery.read.id) ∧
    ∀ key ∈ (after events).2,
      (∃ read ∈ (after events).1.live, read.key = key) ∨
      ∃ entry, (key, entry) ∈ (after events).1.pending ∧
        ((∃ time, (after events).1.timer = some time ∧ time ≤ entry.due) ∨
          (after events).1.live.length = 2) := by
  obtain ⟨idle, owes⟩ := after_invariant events
  refine ⟨idle.live_bound, ?_, fun key member => idle.owed_served owes member⟩
  intro event delivery given
  obtain ⟨-, -, generation, run⟩ := idle.delivered given
  refine ⟨run, generation, ?_, ?_⟩
  · intro disposed
    obtain ⟨before, later, rfl⟩ := List.append_of_mem disposed
    rw [delivered_after_dispose] at given
    cases given
  · intro before later same
    subst same
    exact delivered_after_pause given

end Lookups

end ExomonadHarness.Browser
