import ExomonadHarness.Scheduler.Job
import ExomonadHarness.Support.Run
import ExomonadHarness.Support.Selection

/-! `RequestScheduler` of `turn.rs`: the admission queue of model requests. -/

namespace ExomonadHarness.Scheduler

open Selection Transition

structure RequestPriority where
  depth : ℕ
  operatorWaiting : Bool
  prefixWarm : Bool
  deriving DecidableEq

structure RequestTicket where
  id : String
  agent : String
  priority : RequestPriority
  deriving DecidableEq

structure RequestScheduler where
  capacity : ℕ
  active : Finset String
  queued : List (ℕ × RequestTicket)
  sequence : ℕ

def comparePriority (a b : ℕ × RequestTicket) : Ordering :=
  (compare a.2.priority.depth b.2.priority.depth).then
    ((compare b.2.priority.operatorWaiting a.2.priority.operatorWaiting).then
      ((compare b.2.priority.prefixWarm a.2.priority.prefixWarm).then (compare a.1 b.1)))

namespace RequestScheduler

def new (capacity : ℕ) : Except JobError RequestScheduler :=
  if capacity = 0 then .error .zeroCapacity
  else .ok { capacity, active := ∅, queued := [], sequence := 0 }

def enqueue (scheduler : RequestScheduler) (ticket : RequestTicket) :
    Except JobError RequestScheduler :=
  if ticket.id ∈ scheduler.active || scheduler.queued.any (fun entry => entry.2.id = ticket.id) then
    .error .duplicateCall
  else
    .ok { scheduler with
      sequence := scheduler.sequence + 1
      queued := scheduler.queued ++ [(scheduler.sequence + 1, ticket)] }

/-- The entry with the highest priority, with its index. -/
def best (scheduler : RequestScheduler) : Option ((ℕ × RequestTicket) × ℕ) :=
  minBy (fun a b => comparePriority a.1 b.1) scheduler.queued.zipIdx

def nextReady (scheduler : RequestScheduler) : Option (RequestTicket × RequestScheduler) :=
  if scheduler.capacity ≤ scheduler.active.card || scheduler.queued.isEmpty then none
  else do
    let best ← scheduler.best
    let (entry, queued) ← swapRemove scheduler.queued best.2
    return (entry.2, { scheduler with queued, active := insert entry.2.id scheduler.active })

def finish (scheduler : RequestScheduler) (request : String) : Bool × RequestScheduler :=
  (decide (request ∈ scheduler.active), { scheduler with active := scheduler.active.erase request })

end RequestScheduler

inductive RequestEvent where
  | enqueue (ticket : RequestTicket) (accepted : Bool)
  | ready (answer : Option RequestTicket)
  | finish (request : String) (removed : Bool)

inductive RequestStep : RequestScheduler → RequestEvent → RequestScheduler → Prop where
  | enqueued {scheduler next : RequestScheduler} {ticket : RequestTicket}
      (accepted : scheduler.enqueue ticket = .ok next) :
      RequestStep scheduler (.enqueue ticket true) next
  | refused {scheduler : RequestScheduler} {ticket : RequestTicket} {failure : JobError}
      (refused : scheduler.enqueue ticket = .error failure) :
      RequestStep scheduler (.enqueue ticket false) scheduler
  | ready {scheduler next : RequestScheduler} {ticket : RequestTicket}
      (answered : scheduler.nextReady = some (ticket, next)) :
      RequestStep scheduler (.ready (some ticket)) next
  | idle {scheduler : RequestScheduler} (answered : scheduler.nextReady = none) :
      RequestStep scheduler (.ready none) scheduler
  | finished (scheduler : RequestScheduler) (request : String) :
      RequestStep scheduler (.finish request (scheduler.finish request).1)
        (scheduler.finish request).2

/-! The queue the history describes. -/

/-- Roots first, then the ones an operator waits for, then warm prefixes. -/
def rank (ticket : RequestTicket) : ℕ ×ₗ Bool ×ₗ Bool :=
  toLex (ticket.priority.depth, toLex (!ticket.priority.operatorWaiting, !ticket.priority.prefixWarm))

/-- A first-in-first-out choice among the tickets of the least rank. -/
def Foremost (waiting : List RequestTicket) (ticket : RequestTicket) : Prop :=
  ∃ before after, waiting = before ++ ticket :: after ∧
    (∀ other ∈ before, rank ticket < rank other) ∧ ∀ other ∈ after, rank ticket ≤ rank other

def waitAfter (waiting : List RequestTicket) : RequestEvent → List RequestTicket
  | .enqueue ticket true => waiting ++ [ticket]
  | .ready (some ticket) => waiting.erase ticket
  | _ => waiting

/-- The tickets enqueued and not yet admitted, in the order they came. -/
def ticketsWaiting (events : List RequestEvent) : List RequestTicket :=
  events.foldl waitAfter []

def RequestEvent.accepts (request : String) : RequestEvent → Bool
  | enqueue ticket true => ticket.id = request
  | _ => false

def RequestEvent.ends (request : String) : RequestEvent → Bool
  | finish ended true => ended = request
  | _ => false

/-- Where the requests of a history are. -/
structure RequestSchedule (capacity : ℕ) (events : List RequestEvent)
    (scheduler : RequestScheduler) : Prop where
  bounded : scheduler.active.card ≤ capacity
  queued : (scheduler.queued.map Prod.snd).Perm (ticketsWaiting events)
  unique : ((ticketsWaiting events).map RequestTicket.id ++ scheduler.active.toList).Nodup
  accounted : ∀ request, events.countP (RequestEvent.accepts request) =
    (ticketsWaiting events).countP (fun ticket => ticket.id = request) +
      (if request ∈ scheduler.active then 1 else 0) + events.countP (RequestEvent.ends request)
  next : ∀ ticket, (∃ later, scheduler.nextReady = some (ticket, later)) ↔
    scheduler.active.card < capacity ∧ Foremost (ticketsWaiting events) ticket

/-- The order of the queue's entries: rank, then age. -/
def entryKey (entry : ℕ × RequestTicket) : (ℕ ×ₗ Bool ×ₗ Bool) ×ₗ ℕ :=
  toLex (rank entry.2, entry.1)

theorem comparePriority_eq_gt (a b : ℕ × RequestTicket) :
    comparePriority a b = .gt ↔ entryKey b < entryKey a := by
  obtain ⟨left, ⟨_, _, depth, waited, warm⟩⟩ := a
  obtain ⟨right, ⟨_, _, depth', waited', warm'⟩⟩ := b
  simp only [comparePriority, entryKey, rank, Ordering.then_eq_gt, compare_gt_iff_gt,
    compare_eq_iff_eq, Prod.Lex.toLex_lt_toLex, EmbeddingLike.apply_eq_iff_eq, Prod.mk.injEq]
  cases waited <;> cases waited' <;> cases warm <;> cases warm' <;> simp [eq_comm (a := depth)]

theorem entryKey_le {a b : ℕ × RequestTicket} :
    entryKey a ≤ entryKey b ↔ rank a.2 < rank b.2 ∨ rank a.2 = rank b.2 ∧ a.1 ≤ b.1 :=
  Prod.Lex.toLex_le_toLex

theorem Foremost.unique {waiting : List RequestTicket} {left right : RequestTicket}
    (first : Foremost waiting left) (second : Foremost waiting right) : left = right := by
  obtain ⟨before, after, rfl, sooner, later⟩ := first
  obtain ⟨before', after', parts, sooner', later'⟩ := second
  rcases List.append_eq_append_iff.mp parts with ⟨middle, rfl, rest⟩ | ⟨middle, rfl, rest⟩
  · cases middle with
    | nil => exact (List.cons.inj rest).1
    | cons head middle =>
      obtain ⟨rfl, rfl⟩ := List.cons.inj rest
      have less := sooner' left (by simp)
      have most := later right (by simp)
      exact absurd (less.trans_le most) (lt_irrefl _)
  · cases middle with
    | nil => exact (List.cons.inj rest).1.symm
    | cons head middle =>
      obtain ⟨rfl, rfl⟩ := List.cons.inj rest
      have less := sooner right (by simp)
      have most := later' left (by simp)
      exact absurd (less.trans_le most) (lt_irrefl _)

section

variable {scheduler next : RequestScheduler} {ticket : RequestTicket}

theorem RequestScheduler.best_spec {entry : ℕ × RequestTicket} {index : ℕ}
    (found : scheduler.best = some (entry, index)) :
    scheduler.queued[index]? = some entry ∧
      ∀ other ∈ scheduler.queued, entryKey entry ≤ entryKey other := by
  have greater : ∀ left right : (ℕ × RequestTicket) × ℕ,
      comparePriority left.1 right.1 = .gt ↔ entryKey right.1 < entryKey left.1 :=
    fun left right => comparePriority_eq_gt left.1 right.1
  obtain ⟨member, least⟩ := minBy_least greater found
  refine ⟨List.mem_zipIdx_iff_getElem?.mp member, fun other listed => ?_⟩
  obtain ⟨place, read⟩ := List.getElem?_of_mem listed
  exact least (other, place) (List.mem_zipIdx_iff_getElem?.mpr read)

/-- An admitted ticket leaves the queue from its least entry. -/
theorem RequestScheduler.nextReady_eq_some (answered : scheduler.nextReady = some (ticket, next)) :
    scheduler.active.card < scheduler.capacity ∧ ∃ entry queued, entry.2 = ticket ∧
      scheduler.queued.Perm (entry :: queued) ∧
      (∀ other ∈ scheduler.queued, entryKey entry ≤ entryKey other) ∧
      next = { scheduler with queued, active := insert ticket.id scheduler.active } := by
  unfold nextReady at answered
  split at answered
  case isTrue => cases answered
  case isFalse unmet =>
    simp only [Bool.or_eq_true, decide_eq_true_eq, not_or, Nat.not_le] at unmet
    simp only [Option.bind_eq_bind, Option.bind_eq_some_iff, Option.pure_def, Option.some.injEq,
      Prod.mk.injEq] at answered
    obtain ⟨⟨entry, index⟩, found, ⟨taken, queued⟩, removed, rfl, rfl⟩ := answered
    obtain ⟨read, least⟩ := best_spec found
    have same : taken = entry := by
      simp only [swapRemove, Option.bind_eq_bind, Option.bind_eq_some_iff, Option.pure_def,
        Option.some.injEq, Prod.mk.injEq] at removed
      obtain ⟨found, again, _, _, rfl, _⟩ := removed
      exact Option.some.inj (again.symm.trans read)
    subst same
    exact ⟨unmet.1, taken, queued, rfl, swapRemove_perm removed, least, rfl⟩

theorem RequestScheduler.nextReady_isSome (room : scheduler.active.card < scheduler.capacity)
    (nonempty : scheduler.queued ≠ []) : ∃ answer, scheduler.nextReady = some answer := by
  have listed : scheduler.queued.zipIdx ≠ [] := fun empty => nonempty (List.zipIdx_eq_nil_iff.mp empty)
  obtain ⟨⟨entry, index⟩, found⟩ : ∃ least, scheduler.best = some least := minBy_isSome listed
  obtain ⟨read, -⟩ := best_spec found
  obtain ⟨last, final⟩ := List.getLast?_isSome.mpr nonempty |> Option.isSome_iff_exists.mp
  have removed : swapRemove scheduler.queued index =
      some (entry, (scheduler.queued.set index last).dropLast) := by
    simp only [swapRemove, read, final, Option.bind_eq_bind, Option.bind_some, Option.pure_def]
  unfold nextReady
  rw [if_neg (by simpa using ⟨room, nonempty⟩)]
  simp only [found, removed, Option.bind_eq_bind, Option.bind_some, Option.pure_def,
    Option.some.injEq, exists_eq']

theorem RequestScheduler.enqueue_eq_ok (accepted : scheduler.enqueue ticket = .ok next) :
    ticket.id ∉ scheduler.active ∧ (∀ entry ∈ scheduler.queued, entry.2.id ≠ ticket.id) ∧
      next = { scheduler with
        sequence := scheduler.sequence + 1
        queued := scheduler.queued ++ [(scheduler.sequence + 1, ticket)] } := by
  unfold enqueue at accepted
  split at accepted
  case isTrue => cases accepted
  case isFalse fresh =>
    simp only [Bool.or_eq_true, decide_eq_true_eq, List.any_eq_true, not_or, not_exists,
      not_and] at fresh
    exact ⟨fresh.1, fresh.2, (Except.ok.inj accepted).symm⟩

end

/-- How the queue of the code holds the tickets that wait. -/
structure RequestOrder (capacity : ℕ) (waiting : List RequestTicket)
    (scheduler : RequestScheduler) : Prop where
  limit : scheduler.capacity = capacity
  bounded : scheduler.active.card ≤ capacity
  ordered : ∃ ordered, scheduler.queued.Perm ordered ∧
    ordered.Pairwise (fun earlier later => earlier.1 < later.1) ∧ ordered.map Prod.snd = waiting
  numbered : ∀ entry ∈ scheduler.queued, entry.1 ≤ scheduler.sequence
  distinct : (waiting.map RequestTicket.id).Nodup
  apart : ∀ ticket ∈ waiting, ticket.id ∉ scheduler.active

namespace RequestOrder

variable {capacity : ℕ} {waiting : List RequestTicket} {scheduler next : RequestScheduler}
  {ticket : RequestTicket}

theorem enqueued (order : RequestOrder capacity waiting scheduler)
    (accepted : scheduler.enqueue ticket = .ok next) :
    RequestOrder capacity (waiting ++ [ticket]) next := by
  obtain ⟨inactive, fresh, rfl⟩ := RequestScheduler.enqueue_eq_ok accepted
  obtain ⟨ordered, perm, ascending, rfl⟩ := order.ordered
  refine ⟨order.limit, order.bounded,
    ⟨ordered ++ [(scheduler.sequence + 1, ticket)], perm.append_right _, ?_, by simp⟩, ?_, ?_, ?_⟩
  · rw [List.pairwise_append]
    refine ⟨ascending, List.pairwise_singleton _ _, fun earlier listed later last => ?_⟩
    rw [List.mem_singleton.mp last]
    exact Nat.lt_succ_of_le (order.numbered earlier (perm.mem_iff.mpr listed))
  · intro entry listed
    rcases List.mem_append.mp listed with listed | last
    · exact (order.numbered entry listed).trans (Nat.le_succ _)
    · rw [List.mem_singleton.mp last]
  · rw [List.map_append, List.map_singleton, List.nodup_append]
    refine ⟨order.distinct, List.nodup_singleton _, fun name listed other last => ?_⟩
    rw [List.mem_singleton.mp last]
    simp only [List.map_map, List.mem_map] at listed
    obtain ⟨entry, member, rfl⟩ := listed
    exact fresh entry (perm.mem_iff.mpr member)
  · intro other listed
    rcases List.mem_append.mp listed with listed | last
    · exact order.apart other listed
    · rw [List.mem_singleton.mp last]
      exact inactive

/-- Where an admitted ticket waited. -/
theorem ready_parts (order : RequestOrder capacity waiting scheduler)
    (answered : scheduler.nextReady = some (ticket, next)) :
    ∃ before entry after, waiting = before.map Prod.snd ++ ticket :: after.map Prod.snd ∧
      (before ++ entry :: after).Pairwise (fun earlier later => earlier.1 < later.1) ∧
      (∀ other ∈ before ++ entry :: after, entryKey entry ≤ entryKey other) ∧ entry.2 = ticket ∧
      next.queued.Perm (before ++ after) := by
  obtain ⟨-, entry, queued, rfl, taken, least, rfl⟩ := RequestScheduler.nextReady_eq_some answered
  obtain ⟨ordered, perm, ascending, rfl⟩ := order.ordered
  obtain ⟨before, after, rfl⟩ :=
    List.append_of_mem (perm.mem_iff.mp (taken.mem_iff.mpr List.mem_cons_self))
  refine ⟨before, entry, after, by simp, ascending, fun other listed => ?_, rfl, ?_⟩
  · exact least other (perm.mem_iff.mpr listed)
  · exact (taken.symm.trans (perm.trans List.perm_middle)).cons_inv

theorem foremost (order : RequestOrder capacity waiting scheduler)
    (answered : scheduler.nextReady = some (ticket, next)) : Foremost waiting ticket := by
  obtain ⟨before, entry, after, rfl, ascending, least, rfl, -⟩ := order.ready_parts answered
  have apart := List.pairwise_append.mp ascending
  refine ⟨_, _, rfl, fun other listed => ?_, fun other listed => ?_⟩
  · obtain ⟨earlier, member, rfl⟩ := List.mem_map.mp listed
    rcases entryKey_le.mp (least earlier (List.mem_append_left _ member)) with less | ⟨-, older⟩
    · exact less
    · have younger := apart.2.2 earlier member entry List.mem_cons_self
      exact absurd younger older.not_gt
  · obtain ⟨later, member, rfl⟩ := List.mem_map.mp listed
    have below := least later (List.mem_append_right _ (List.mem_cons_of_mem _ member))
    rcases entryKey_le.mp below with less | ⟨same, -⟩
    · exact less.le
    · exact same.le

theorem ready (order : RequestOrder capacity waiting scheduler)
    (answered : scheduler.nextReady = some (ticket, next)) :
    RequestOrder capacity (waiting.erase ticket) next := by
  obtain ⟨before, entry, after, rfl, ascending, -, rfl, perm⟩ := order.ready_parts answered
  obtain ⟨room, chosen, queued, same, taken, -, rfl⟩ := RequestScheduler.nextReady_eq_some answered
  have distinct := order.distinct
  rw [List.map_append, List.map_cons, List.nodup_append] at distinct
  obtain ⟨first, second, across⟩ := distinct
  have outside : entry.2 ∉ before.map Prod.snd := fun listed =>
    across _ (List.mem_map_of_mem listed) _ List.mem_cons_self rfl
  have shorter : (before.map Prod.snd ++ entry.2 :: after.map Prod.snd).erase entry.2 =
      (before ++ after).map Prod.snd := by
    rw [List.erase_append_right _ outside, List.erase_cons_head, List.map_append]
  have part : ((before ++ after).map Prod.snd).Sublist
      (before.map Prod.snd ++ entry.2 :: after.map Prod.snd) := by
    rw [← shorter]
    exact List.erase_sublist
  rw [shorter]
  refine ⟨order.limit, ?_, ⟨before ++ after, perm, ascending.sublist ?_, rfl⟩, ?_, ?_, ?_⟩
  · refine (Finset.card_insert_le _ _).trans ?_
    rw [← order.limit]
    exact room
  · exact (List.sublist_cons_self _ _).append_left _
  · exact fun other listed => order.numbered other (taken.mem_iff.mpr (List.mem_cons_of_mem _ listed))
  · exact order.distinct.sublist (part.map _)
  · intro other listed held
    rcases Finset.mem_insert.mp held with same | active
    · rcases List.mem_append.mp (List.map_append ▸ listed) with listed | listed
      · exact across _ (List.mem_map_of_mem listed) _ List.mem_cons_self same
      · exact (List.nodup_cons.mp second).1 (same ▸ List.mem_map_of_mem listed)
    · exact order.apart other (part.subset listed) active

theorem finished (order : RequestOrder capacity waiting scheduler) (request : String) :
    RequestOrder capacity waiting (scheduler.finish request).2 :=
  ⟨order.limit, (Finset.card_le_card (Finset.erase_subset _ _)).trans order.bounded, order.ordered,
    order.numbered, order.distinct,
    fun ticket listed held => order.apart ticket listed (Finset.mem_of_mem_erase held)⟩

theorem step {event : RequestEvent} (order : RequestOrder capacity waiting scheduler)
    (taken : RequestStep scheduler event next) :
    RequestOrder capacity (waitAfter waiting event) next := by
  cases taken with
  | enqueued accepted => exact order.enqueued accepted
  | refused => exact order
  | ready answered => exact order.ready answered
  | idle => exact order
  | finished => exact order.finished _

theorem next_iff (order : RequestOrder capacity waiting scheduler) (ticket : RequestTicket) :
    (∃ later, scheduler.nextReady = some (ticket, later)) ↔
      scheduler.active.card < capacity ∧ Foremost waiting ticket := by
  constructor
  · intro answered
    obtain ⟨later, answered⟩ := answered
    have room := (RequestScheduler.nextReady_eq_some answered).1
    exact ⟨order.limit ▸ room, order.foremost answered⟩
  · intro expected
    obtain ⟨room, foremost⟩ := expected
    have nonempty : scheduler.queued ≠ [] := by
      intro empty
      obtain ⟨ordered, perm, -, rfl⟩ := order.ordered
      obtain ⟨before, after, parts, -⟩ := foremost
      rw [empty] at perm
      rw [perm.nil_eq.symm, List.map_nil] at parts
      simp at parts
    obtain ⟨⟨other, later⟩, answered⟩ :=
      RequestScheduler.nextReady_isSome (order.limit ▸ room) nonempty
    have same := foremost.unique (order.foremost answered)
    exact ⟨later, same ▸ answered⟩

/-- One step moves a request from the queue to the active set and from there out. -/
theorem account_step {event : RequestEvent} (order : RequestOrder capacity waiting scheduler)
    (taken : RequestStep scheduler event next) (request : String) :
    waiting.countP (fun ticket => ticket.id = request) +
        (if request ∈ scheduler.active then 1 else 0) + (if event.accepts request then 1 else 0) =
      (waitAfter waiting event).countP (fun ticket => ticket.id = request) +
        (if request ∈ next.active then 1 else 0) + if event.ends request then 1 else 0 := by
  cases taken with
  | enqueued accepted =>
    obtain ⟨-, -, rfl⟩ := RequestScheduler.enqueue_eq_ok accepted
    simp only [waitAfter, RequestEvent.accepts, RequestEvent.ends, List.countP_append,
      List.countP_singleton, decide_eq_true_eq, Bool.false_eq_true, if_false]
    omega
  | refused => simp [waitAfter, RequestEvent.accepts, RequestEvent.ends]
  | @ready _ ticket answered =>
    obtain ⟨before, after, parts, -⟩ := order.foremost answered
    have listed : ticket ∈ waiting := by
      rw [parts]
      simp
    obtain ⟨-, entry, queued, -, -, -, rfl⟩ := RequestScheduler.nextReady_eq_some answered
    have inactive := order.apart ticket listed
    rw [(List.perm_cons_erase listed).countP_eq]
    simp only [waitAfter, RequestEvent.accepts, RequestEvent.ends, List.countP_cons, decide_eq_true_eq,
      Finset.mem_insert, Bool.false_eq_true, if_false]
    by_cases same : ticket.id = request
    · subst same
      simp [inactive]
    · simp [same, Ne.symm same]
  | idle => simp [waitAfter, RequestEvent.accepts, RequestEvent.ends]
  | finished ended =>
    by_cases same : ended = request
    · subst same
      by_cases active : ended ∈ scheduler.active <;>
        simp [waitAfter, RequestEvent.accepts, RequestEvent.ends, RequestScheduler.finish, active]
    · by_cases removed : ended ∈ scheduler.active <;>
        simp [waitAfter, RequestEvent.accepts, RequestEvent.ends, RequestScheduler.finish, removed,
          same, Ne.symm same]

theorem initially {initial : RequestScheduler}
    (created : RequestScheduler.new capacity = .ok initial) :
    RequestOrder capacity [] initial ∧ initial.active = ∅ := by
  unfold RequestScheduler.new at created
  split at created
  case isTrue => cases created
  case isFalse =>
    cases created
    exact ⟨⟨rfl, Nat.zero_le _, ⟨[], .nil, .nil, rfl⟩, by simp, .nil, by simp⟩, rfl⟩

end RequestOrder

section

variable {capacity : ℕ} {initial final : RequestScheduler} {events : List RequestEvent}

theorem ticketsWaiting_concat (events : List RequestEvent) (event : RequestEvent) :
    ticketsWaiting (events ++ [event]) = waitAfter (ticketsWaiting events) event := by
  rw [ticketsWaiting, List.foldl_concat, ← ticketsWaiting]

theorem order_of_run (created : RequestScheduler.new capacity = .ok initial)
    (run : Transition.Run RequestStep initial events final) :
    RequestOrder capacity (ticketsWaiting events) final ∧ ∀ request,
      events.countP (RequestEvent.accepts request) =
        (ticketsWaiting events).countP (fun ticket => ticket.id = request) +
          (if request ∈ final.active then 1 else 0) + events.countP (RequestEvent.ends request) := by
  obtain ⟨order, idle⟩ := RequestOrder.initially created
  refine run.history (fun events state =>
    RequestOrder capacity (ticketsWaiting events) state ∧ ∀ request,
    events.countP (RequestEvent.accepts request) =
      (ticketsWaiting events).countP (fun ticket => ticket.id = request) +
        (if request ∈ state.active then 1 else 0) + events.countP (RequestEvent.ends request))
    ⟨order, by simp [ticketsWaiting, idle]⟩ ?_
  intro events state event next holds taken
  obtain ⟨order, accounted⟩ := holds
  rw [ticketsWaiting_concat]
  refine ⟨order.step taken, fun request => ?_⟩
  have moved := order.account_step taken request
  have before := accounted request
  rw [List.countP_append, List.countP_append, List.countP_singleton, List.countP_singleton]
  omega

/-- Whatever was enqueued, admitted and finished: the active requests stay within the
capacity, every accepted request waits, is active or has finished, and the next admitted
one is the oldest of the highest priority. -/
theorem request_schedule_of_run (created : RequestScheduler.new capacity = .ok initial)
    (run : Transition.Run RequestStep initial events final) : RequestSchedule capacity events final := by
  obtain ⟨order, accounted⟩ := order_of_run created run
  obtain ⟨ordered, perm, -, same⟩ := order.ordered
  refine ⟨order.bounded, same ▸ perm.map Prod.snd, ?_, accounted, order.next_iff⟩
  rw [List.nodup_append]
  refine ⟨order.distinct, Finset.nodup_toList _, fun name listed other active => ?_⟩
  obtain ⟨ticket, member, rfl⟩ := List.mem_map.mp listed
  intro same
  exact order.apart ticket member (same ▸ Finset.mem_toList.mp active)

theorem request_schedule_of_child_and_root :
    let child : RequestTicket := ⟨"a", "child", ⟨1, true, true⟩⟩
    let root : RequestTicket := ⟨"b", "root", ⟨0, false, false⟩⟩
    RequestSchedule 1 [.enqueue child true, .enqueue root true, .ready (some root)]
      { capacity := 1, active := {"b"}, queued := [(1, child)], sequence := 2 } := by
  intro child root
  have created : RequestScheduler.new 1 = .ok ⟨1, ∅, [], 0⟩ := rfl
  refine request_schedule_of_run created ?_
  refine .next (.next (.next (.start _) (.enqueued rfl)) (.enqueued rfl)) ?_
  exact .ready rfl

end

end ExomonadHarness.Scheduler
