import ExomonadHarness.Transport.Assembly

/-! What a whole response is assembled into. The items are those that the events and
the terminal array know, by index; everything else that a stream carries leaves the
result alone. -/

namespace ExomonadHarness.Transport.ResponseAssembly

open Json Checked

section Events

def eventKind (event : Value) : Option String := (event.get? "type").bind Value.asStr

/-- The item that an event completes, with its index. -/
def doneEntry (event : Value) : Option (ℕ × Value) :=
  if eventKind event = some "response.output_item.done" then
    (doneItem event).toOption.map fun done => (done.outputIndex, done.item)
  else none

/-- The output array of a terminal event. -/
def terminalArray (event : Value) : List Value :=
  (((event.get? "response").bind (·.get? "output")).bind Value.asArray).getD []

/-- A delta, an added item or an event of an unknown type. -/
def isDetail (event : Value) : Bool :=
  match eventKind event with
  | some "response.created" | some "response.output_item.done" | some "response.completed"
  | some "response.incomplete" | some "response.failed" | some "error" => false
  | _ => true

variable {assembly next : ResponseAssembly} {event : Value} {token account : String}
  {live : Option StreamEvent}

/-- What an accepted event other than a completion does to the items. -/
inductive Notes (assembly : ResponseAssembly) :
    Option (ℕ × Value) → Option StreamEvent → ResponseAssembly → Prop where
  | nothing {live : Option StreamEvent} {next : ResponseAssembly}
      (quiet : ∀ item, live ≠ some (.completedItem item)) (items : next.items = assembly.items) :
      Notes assembly none live next
  | again {index : ℕ} {item : Value} {sequenceNumber : Option ℕ}
      (known : assembly.items.lookup index = some item) :
      Notes assembly (some (index, item)) (some (.completedItem ⟨item, index, sequenceNumber⟩))
        assembly
  | fresh {index : ℕ} {item : Value} {sequenceNumber : Option ℕ}
      (unknown : assembly.items.lookup index = none) :
      Notes assembly (some (index, item)) (some (.completedItem ⟨item, index, sequenceNumber⟩))
        { assembly with items := OrderedMap.insert index item assembly.items }

theorem notes_done (kind : eventKind event = some "response.output_item.done")
    (accepted : assembly.done event = (.ok live, next)) :
    next.completed = assembly.completed ∧ Notes assembly (doneEntry event) live next := by
  unfold done at accepted
  rcases read : doneItem event with error | item
  · simp [read] at accepted
  · have entry : doneEntry event = some (item.outputIndex, item.item) := by
      simp [doneEntry, kind, read, Except.toOption]
    rw [entry]
    simp only [read] at accepted
    split at accepted
    case h_1 previous known =>
      split at accepted
      case isTrue same =>
        cases accepted
        exact ⟨rfl, .again (known.trans (congrArg some same))⟩
      case isFalse => cases accepted
    case h_2 unknown =>
      cases accepted
      exact ⟨rfl, .fresh unknown⟩

theorem delta_quiet {kind : String} {channel : OutputChannel}
    (accepted : assembly.delta kind channel event = .ok live) (item : CompletedOutputItem) :
    live ≠ some (.completedItem item) := by
  simp only [delta, bind_eq_ok, pure_eq_ok] at accepted
  obtain ⟨_, _, rfl⟩ := accepted
  intro shown
  obtain ⟨_, _, same⟩ := Option.map_eq_some_iff.mp shown
  cases same

theorem created_ok (accepted : assembly.created event = (.ok live, next)) :
    live = none ∧ ∃ id, next = { assembly with responseId := some id } := by
  unfold created at accepted
  dsimp only at accepted
  split at accepted
  · cases accepted
  · cases accepted
    exact ⟨rfl, _, rfl⟩

theorem acceptEvent_notes (unfinished : eventKind event ≠ some "response.completed")
    (accepted : assembly.acceptEvent event token account = (.ok live, next)) :
    next.completed = assembly.completed ∧ Notes assembly (doneEntry event) live next := by
  unfold acceptEvent at accepted
  split at accepted
  case h_1 kind =>
    obtain ⟨rfl, id, rfl⟩ := created_ok accepted
    have entry : doneEntry event = none := by simp [doneEntry, eventKind, kind]
    exact ⟨rfl, entry ▸ .nothing (by simp) rfl⟩
  case h_2 kind =>
    cases accepted
    have entry : doneEntry event = none := by simp [doneEntry, eventKind, kind]
    exact ⟨rfl, entry ▸ .nothing (by simp) rfl⟩
  case h_3 kind => exact notes_done kind accepted
  case h_4 kind => exact absurd kind unfinished
  case h_5 => cases accepted
  case h_6 => cases accepted
  case h_7 => cases accepted
  case h_8 kind _ _ notDone _ _ _ _ found =>
    have entry : doneEntry event = none := by
      rw [doneEntry, if_neg]
      intro same
      exact notDone (Option.some.inj (found.symm.trans same))
    rw [entry]
    split at accepted
    · simp only [Prod.mk.injEq] at accepted
      obtain ⟨shown, rfl⟩ := accepted
      exact ⟨rfl, .nothing (delta_quiet shown) rfl⟩
    · cases accepted
      exact ⟨rfl, .nothing (by simp) rfl⟩
  case h_9 missing =>
    cases accepted
    have entry : doneEntry event = none := by simp [doneEntry, eventKind, missing]
    exact ⟨rfl, entry ▸ .nothing (by simp) rfl⟩

/-- The assemblies agree on everything that the result is made of. -/
structure Alike (first second : ResponseAssembly) : Prop where
  items : first.items = second.items
  completed : first.completed = second.completed
  responseId : first.responseId = second.responseId

theorem Alike.refl (assembly : ResponseAssembly) : Alike assembly assembly :=
  ⟨rfl, rfl, rfl⟩

theorem Alike.symm {first second : ResponseAssembly} (alike : Alike first second) :
    Alike second first :=
  ⟨alike.items.symm, alike.completed.symm, alike.responseId.symm⟩

theorem Alike.trans {first second third : ResponseAssembly} (earlier : Alike first second)
    (later : Alike second third) : Alike first third :=
  ⟨earlier.items.trans later.items, earlier.completed.trans later.completed,
    earlier.responseId.trans later.responseId⟩

theorem Alike.finish {first second : ResponseAssembly} (alike : Alike first second) :
    first.finish = second.finish := by
  rw [ResponseAssembly.finish, ResponseAssembly.finish, alike.items, alike.completed]

/-- An assembly is its alike with other names of tools. -/
theorem Alike.exists_names {first second : ResponseAssembly} (alike : Alike first second) :
    ∃ toolNames, second = { first with toolNames } :=
  ⟨second.toolNames, by rw [alike.items, alike.completed, alike.responseId]⟩

/-- An accepted detail changes only the names of tools. -/
theorem acceptEvent_detail (detail : isDetail event = true)
    (accepted : assembly.acceptEvent event token account = (.ok live, next)) :
    Alike assembly next := by
  unfold acceptEvent at accepted
  split at accepted
  case h_1 kind => simp [isDetail, eventKind, kind] at detail
  case h_2 =>
    cases accepted
    exact ⟨rfl, rfl, rfl⟩
  case h_3 kind => simp [isDetail, eventKind, kind] at detail
  case h_4 kind => simp [isDetail, eventKind, kind] at detail
  case h_5 => cases accepted
  case h_6 => cases accepted
  case h_7 => cases accepted
  case h_8 =>
    split at accepted
    · exact (Prod.mk.inj accepted).2 ▸ .refl _
    · cases accepted
      exact .refl _
  case h_9 =>
    cases accepted
    exact .refl _

theorem created_names (toolNames : List (String × String))
    (accepted : assembly.created event = (.ok live, next)) :
    { assembly with toolNames }.created event = (.ok live, { next with toolNames }) := by
  unfold created at accepted ⊢
  dsimp only [checkIdentity] at accepted ⊢
  split at accepted
  case h_1 => cases accepted
  case h_2 =>
    cases accepted
    rfl

theorem done_names (toolNames : List (String × String))
    (accepted : assembly.done event = (.ok live, next)) :
    { assembly with toolNames }.done event = (.ok live, { next with toolNames }) := by
  unfold done at accepted ⊢
  rcases read : doneItem event with error | item
  · simp [read] at accepted
  · rcases known : assembly.items.lookup item.outputIndex with _ | previous
    · simp only [read, known] at accepted ⊢
      cases accepted
      rfl
    · simp only [read, known] at accepted ⊢
      split at accepted
      case isTrue same =>
        cases accepted
        rw [if_pos same]
      case isFalse => cases accepted

theorem complete_names (toolNames : List (String × String))
    (accepted : assembly.complete event = (.ok live, next)) :
    { assembly with toolNames }.complete event = (.ok live, { next with toolNames }) := by
  have response : { assembly with toolNames }.terminalResponse event =
      assembly.terminalResponse event := rfl
  have output : { assembly with toolNames }.terminalOutput = assembly.terminalOutput := rfl
  unfold complete at accepted ⊢
  rw [response, output]
  rcases known : assembly.terminalResponse event with error | ⟨body, id⟩
  · simp [known] at accepted
  · rcases merged : assembly.terminalOutput
      (((body.get? "output").bind Value.asArray).getD []) with ⟨error | _, items⟩
    · simp [known, merged] at accepted
    · simp only [known, merged] at accepted ⊢
      cases accepted
      rfl

/-- The names of tools decide nothing about any other event. -/
theorem acceptEvent_names (main : isDetail event = false) (toolNames : List (String × String))
    (accepted : assembly.acceptEvent event token account = (.ok live, next)) :
    { assembly with toolNames }.acceptEvent event token account =
      (.ok live, { next with toolNames }) := by
  rw [acceptEvent, ← eventKind] at accepted ⊢
  rw [isDetail] at main
  split at main
  case h_1 kind =>
    rw [kind] at accepted ⊢
    exact created_names toolNames accepted
  case h_2 kind =>
    rw [kind] at accepted ⊢
    exact done_names toolNames accepted
  case h_3 kind =>
    rw [kind] at accepted ⊢
    exact complete_names toolNames accepted
  case h_4 kind =>
    rw [kind] at accepted
    cases accepted
  case h_5 kind =>
    rw [kind] at accepted
    cases accepted
  case h_6 kind =>
    rw [kind] at accepted
    cases accepted
  case h_7 => cases main

/-- What the loop over a terminal array leaves at each index. -/
theorem mergeOutput_ok {items merged : List (ℕ × Value)} {start : ℕ} {output : List Value}
    (accepted : mergeOutput items start output = (.ok (), merged))
    (ordered : OrderedMap.Ordered items) :
    OrderedMap.Ordered merged ∧
      (∀ index, start ≤ index → index < start + output.length →
        merged.lookup index = output[index - start]? ∧
          (items.lookup index).all (some · = output[index - start]?) = true) ∧
      ∀ index, index < start ∨ start + output.length ≤ index →
        merged.lookup index = items.lookup index := by
  induction output generalizing items start with
  | nil =>
    cases accepted
    refine ⟨ordered, ?_, fun _ _ => rfl⟩
    intro index low high
    simp only [List.length_nil] at high
    omega
  | cons item rest ih =>
    rw [mergeOutput] at accepted
    split at accepted
    · cases accepted
    case isFalse agreed =>
      obtain ⟨kept, inside, outside⟩ := ih accepted (ordered.insert start item)
      refine ⟨kept, ?_, ?_⟩
      · intro index low high
        rcases Nat.eq_or_lt_of_le low with rfl | later
        · have first := outside start (.inl (Nat.lt_succ_self start))
          simp only [OrderedMap.lookup_insert, ↓reduceIte] at first
          simp only [Nat.sub_self, List.getElem?_cons_zero, first, true_and]
          cases known : items.lookup start with
          | none => rfl
          | some old =>
            simp only [known, Option.any_some, bne_iff_ne, ne_eq, not_not] at agreed
            simp [agreed]
        · have shifted : index - start = (index - (start + 1)) + 1 := by omega
          have short : index < start + 1 + rest.length := by
            simp only [List.length_cons] at high
            omega
          obtain ⟨found, same⟩ := inside index later short
          rw [OrderedMap.lookup_insert, if_neg (by omega)] at same
          rw [shifted, List.getElem?_cons_succ]
          exact ⟨found, same⟩
      · intro index apart
        have elsewhere : index < start + 1 ∨ start + 1 + rest.length ≤ index := by
          simp only [List.length_cons] at apart
          omega
        have other : index ≠ start := by
          simp only [List.length_cons] at apart
          omega
        rw [outside index elsewhere, OrderedMap.lookup_insert, if_neg other]

theorem terminalOutput_ok {output : List Value} {items : List (ℕ × Value)}
    (accepted : assembly.terminalOutput output = (.ok (), items))
    (ordered : OrderedMap.Ordered assembly.items) :
    OrderedMap.Ordered items ∧
      (∀ index item, items.lookup index = some item ↔
        assembly.items.lookup index = some item ∨ output[index]? = some item) ∧
      (output ≠ [] → items.length = output.length) := by
  unfold terminalOutput at accepted
  split at accepted
  case isTrue empty =>
    cases accepted
    have none := List.isEmpty_iff.mp empty
    subst none
    exact ⟨ordered, by simp, by simp⟩
  case isFalse =>
    rcases merged : mergeOutput assembly.items 0 output with ⟨error | _, left⟩
    · simp [merged] at accepted
    · simp only [merged] at accepted
      split at accepted
      case isFalse => cases accepted
      case isTrue sized =>
        cases accepted
        obtain ⟨kept, inside, outside⟩ := mergeOutput_ok merged ordered
        refine ⟨kept, ?_, fun _ => sized⟩
        intro index item
        by_cases short : index < output.length
        · obtain ⟨found, agreed⟩ := inside index (Nat.zero_le index) (by omega)
          rw [found, Nat.sub_zero]
          refine ⟨.inr, ?_⟩
          intro known
          rcases known with old | new
          · rw [old, Nat.sub_zero] at agreed
            have same : some item = output[index]? := by simpa using agreed
            exact same.symm
          · exact new
        · rw [outside index (.inr (by omega)), List.getElem?_eq_none (by omega)]
          simp

theorem complete_ok (accepted : assembly.complete event = (.ok live, next))
    (ordered : OrderedMap.Ordered assembly.items) :
    live = none ∧ next.completed.isSome = true ∧ OrderedMap.Ordered next.items ∧
      (∀ index item, next.items.lookup index = some item ↔
        assembly.items.lookup index = some item ∨ (terminalArray event)[index]? = some item) ∧
      (terminalArray event ≠ [] → next.items.length = (terminalArray event).length) := by
  unfold complete at accepted
  rcases known : assembly.terminalResponse event with error | ⟨body, id⟩
  · simp [known] at accepted
  · have array : terminalArray event = ((body.get? "output").bind Value.asArray).getD [] := by
      simp only [terminalResponse, bind_eq_ok, okOr_eq_ok, pure_eq_ok, Prod.mk.injEq] at known
      obtain ⟨held, found, _, _, _, _, rfl, _⟩ := known
      simp [terminalArray, found]
    rcases merged : assembly.terminalOutput
      (((body.get? "output").bind Value.asArray).getD []) with ⟨error | _, items⟩
    · simp [known, merged] at accepted
    · simp only [known, merged] at accepted
      cases accepted
      rw [array]
      exact ⟨rfl, rfl, terminalOutput_ok merged ordered⟩

end Events

section Payloads

variable (fromStr : String → Except String Document) (token account : String)

/-- The event of a payload. -/
def eventOf (data : String) : Value :=
  match fromStr data with
  | .ok event => event.value
  | .error _ => .null

/-- Accept payloads one after another, with the live events they give. -/
def acceptAll (assembly : ResponseAssembly) :
    List String → Except TransportError (List StreamEvent × ResponseAssembly)
  | [] => .ok ([], assembly)
  | data :: rest =>
    match assembly.accept fromStr data token account with
    | (.error error, _) => .error error
    | (.ok live, next) => do
      let (events, last) ← next.acceptAll rest
      return (live.toList ++ events, last)

/-- The items that payloads complete, with their indices. -/
def doneEntries (payloads : List String) : List (ℕ × Value) :=
  payloads.filterMap fun data => doneEntry (eventOf fromStr data)

/-- The payloads without deltas, added items and events of unknown types. -/
def withoutDetails (payloads : List String) : List String :=
  payloads.filter fun data => !isDetail (eventOf fromStr data)

variable {fromStr token account} {assembly next last : ResponseAssembly} {data : String}
  {rest payloads : List String} {live : Option StreamEvent} {events : List StreamEvent}

theorem accept_ok
    (accepted : assembly.accept fromStr data token account = (.ok live, next)) :
    assembly.acceptEvent (eventOf fromStr data) token account = (.ok live, next) := by
  unfold accept at accepted
  unfold eventOf
  cases read : fromStr data with
  | error message => simp [read] at accepted
  | ok event => simpa [read] using accepted

theorem accept_of_event
    (accepted : assembly.accept fromStr data token account = (.ok live, next))
    {other after : ResponseAssembly}
    (event : other.acceptEvent (eventOf fromStr data) token account = (.ok live, after)) :
    other.accept fromStr data token account = (.ok live, after) := by
  unfold accept at accepted ⊢
  unfold eventOf at event
  cases read : fromStr data with
  | error message => simp [read] at accepted
  | ok parsed => simpa [read] using event

theorem acceptAll_cons :
    acceptAll fromStr token account assembly (data :: rest) = .ok (events, last) ↔
      ∃ live next later, assembly.accept fromStr data token account = (.ok live, next) ∧
        acceptAll fromStr token account next rest = .ok (later, last) ∧
        events = live.toList ++ later := by
  rw [acceptAll]
  rcases accepted : assembly.accept fromStr data token account with ⟨error | live, next⟩
  · simp
  · simp only [bind_eq_ok, pure_eq_ok, Prod.mk.injEq, Except.ok.injEq, Prod.exists]
    constructor
    · intro read
      obtain ⟨later, reached, run, rfl, rfl⟩ := read
      exact ⟨live, next, later, ⟨rfl, rfl⟩, run, rfl⟩
    · intro read
      obtain ⟨shown, reached, later, ⟨rfl, rfl⟩, run, rfl⟩ := read
      exact ⟨later, last, run, rfl, rfl⟩

theorem acceptAll_append {more : List String} :
    acceptAll fromStr token account assembly (payloads ++ more) = .ok (events, last) ↔
      ∃ earlier middle later,
        acceptAll fromStr token account assembly payloads = .ok (earlier, middle) ∧
        acceptAll fromStr token account middle more = .ok (later, last) ∧
        events = earlier ++ later := by
  induction payloads generalizing assembly events with
  | nil =>
    constructor
    · intro read
      exact ⟨[], assembly, events, rfl, read, rfl⟩
    · intro read
      obtain ⟨earlier, middle, later, start, run, rfl⟩ := read
      cases start
      exact run
  | cons data rest ih =>
    rw [List.cons_append, acceptAll_cons]
    simp only [ih, acceptAll_cons]
    constructor
    · intro read
      obtain ⟨live, next, _, accepted, ⟨earlier, middle, later, first, second, rfl⟩, rfl⟩ := read
      exact ⟨_, middle, later, ⟨live, next, earlier, accepted, first, rfl⟩, second,
        (List.append_assoc _ _ _).symm⟩
    · intro read
      obtain ⟨_, middle, later, ⟨live, next, earlier, accepted, first, rfl⟩, second, rfl⟩ := read
      exact ⟨live, next, _, accepted, ⟨earlier, middle, later, first, second, rfl⟩,
        List.append_assoc _ _ _⟩

/-- The items that accepted payloads before a completion leave. -/
structure Collects (assembly : ResponseAssembly) (entries : List (ℕ × Value))
    (events : List StreamEvent) (last : ResponseAssembly) : Prop where
  completed : last.completed = assembly.completed
  ordered : OrderedMap.Ordered last.items
  items : ∀ index item, last.items.lookup index = some item ↔
    assembly.items.lookup index = some item ∨ (index, item) ∈ entries
  shown : ∀ item, .completedItem item ∈ events →
    last.items.lookup item.outputIndex = some item.item

theorem Notes.collects {entry : Option (ℕ × Value)} (notes : Notes assembly entry live next)
    (completed : next.completed = assembly.completed)
    (ordered : OrderedMap.Ordered assembly.items) :
    Collects assembly entry.toList live.toList next := by
  cases notes with
  | nothing quiet items =>
    refine ⟨completed, items ▸ ordered, by simp [items], ?_⟩
    intro item member
    exact absurd (Option.mem_toList.mp member) (quiet item)
  | again known =>
    refine ⟨completed, ordered, ?_, by simpa using known⟩
    intro index item
    simp only [Option.toList_some, List.mem_singleton, Prod.mk.injEq, iff_self_or]
    intro same
    rw [same.1, same.2, known]
  | @fresh index item sequenceNumber unknown =>
    refine ⟨completed, ordered.insert _ _, ?_, by simp⟩
    intro other value
    simp only [OrderedMap.lookup_insert, Option.toList_some, List.mem_singleton, Prod.mk.injEq]
    split
    case isTrue same =>
      subst same
      simp [unknown, eq_comm]
    case isFalse different => simp [different]

theorem Collects.trans {first second : List (ℕ × Value)} {earlier later : List StreamEvent}
    (before : Collects assembly first earlier next) (after : Collects next second later last) :
    Collects assembly (first ++ second) (earlier ++ later) last := by
  refine ⟨after.completed.trans before.completed, after.ordered, ?_, ?_⟩
  · intro index item
    rw [after.items, before.items, List.mem_append, or_assoc]
  · intro item member
    rcases List.mem_append.mp member with old | new
    · exact (after.items _ _).mpr (.inl (before.shown item old))
    · exact after.shown item new

theorem acceptAll_collects
    (accepted : acceptAll fromStr token account assembly payloads = .ok (events, last))
    (unfinished : ∀ data ∈ payloads, eventKind (eventOf fromStr data) ≠ some "response.completed")
    (ordered : OrderedMap.Ordered assembly.items) :
    Collects assembly (doneEntries fromStr payloads) events last := by
  induction payloads generalizing assembly events with
  | nil =>
    cases accepted
    exact ⟨rfl, ordered, by simp [doneEntries], by simp⟩
  | cons data rest ih =>
    obtain ⟨live, next, later, first, run, rfl⟩ := acceptAll_cons.mp accepted
    obtain ⟨completed, notes⟩ := acceptEvent_notes (unfinished data List.mem_cons_self) (accept_ok first)
    have head := notes.collects completed ordered
    have tail := ih run (fun other member => unfinished other (List.mem_cons_of_mem _ member))
      head.ordered
    have split : doneEntries fromStr (data :: rest) =
        (doneEntry (eventOf fromStr data)).toList ++ doneEntries fromStr rest := by
      rw [doneEntries, List.filterMap_cons]
      cases doneEntry (eventOf fromStr data) <;> rfl
    rw [split]
    exact head.trans tail

/-- Details can be left out: the rest is accepted and leaves the same result. -/
theorem acceptAll_withoutDetails {other : ResponseAssembly} (alike : Alike assembly other)
    (accepted : acceptAll fromStr token account assembly payloads = .ok (events, last)) :
    ∃ fewer after,
      acceptAll fromStr token account other (withoutDetails fromStr payloads) = .ok (fewer, after) ∧
        Alike last after := by
  induction payloads generalizing assembly other events with
  | nil =>
    cases accepted
    exact ⟨[], other, rfl, alike⟩
  | cons data rest ih =>
    obtain ⟨live, next, later, first, run, rfl⟩ := acceptAll_cons.mp accepted
    cases detail : isDetail (eventOf fromStr data) with
    | true =>
      have kept : withoutDetails fromStr (data :: rest) = withoutDetails fromStr rest := by
        simp [withoutDetails, detail]
      rw [kept]
      exact ih ((acceptEvent_detail detail (accept_ok first)).symm.trans alike) run
    | false =>
      have kept : withoutDetails fromStr (data :: rest) = data :: withoutDetails fromStr rest := by
        simp [withoutDetails, detail]
      obtain ⟨toolNames, rfl⟩ := alike.exists_names
      have same := acceptEvent_names detail toolNames (accept_ok first)
      have renamed : Alike next { next with toolNames } := ⟨rfl, rfl, rfl⟩
      obtain ⟨fewer, after, shorter, reached⟩ := ih renamed run
      refine ⟨live.toList ++ fewer, after, ?_, reached⟩
      rw [kept, acceptAll_cons]
      exact ⟨live, _, fewer, accept_of_event first same, shorter, rfl⟩

end Payloads

section Finish

theorem contiguous_eq_ok {start : ℕ} {entries : List (ℕ × Value)} {items : List Value} :
    contiguous start entries = .ok items ↔
      entries = (items.zipIdx start).map Prod.swap := by
  induction entries generalizing start items with
  | nil =>
    cases items <;> simp [contiguous]
  | cons entry rest ih =>
    obtain ⟨index, item⟩ := entry
    simp only [contiguous, bind_eq_ok, require_eq_ok, pure_eq_ok, beq_iff_eq, ih]
    constructor
    · intro read
      obtain ⟨_, rfl, later, rfl, rfl⟩ := read
      simp
    · intro same
      cases items with
      | nil => simp at same
      | cons first later =>
        simp only [List.zipIdx_cons, List.map_cons, Prod.swap_prod_mk, List.cons.injEq,
          Prod.mk.injEq] at same
        obtain ⟨⟨rfl, rfl⟩, rfl⟩ := same
        exact ⟨(), rfl, later, rfl, rfl⟩

theorem lookup_zipIdx (items : List Value) (start index : ℕ) :
    (((items.zipIdx start).map Prod.swap).lookup index) =
      if start ≤ index then items[index - start]? else none := by
  induction items generalizing start with
  | nil => simp
  | cons item rest ih =>
    simp only [List.zipIdx_cons, List.map_cons, Prod.swap_prod_mk, List.lookup_cons]
    by_cases here : index = start
    · subst here
      simp
    · have other : (index == start) = false := by simpa using here
      rw [other, ih]
      by_cases later : start + 1 ≤ index
      · have shifted : index - start = (index - (start + 1)) + 1 := by omega
        rw [if_pos later, if_pos (by omega), shifted, List.getElem?_cons_succ]
      · rw [if_neg later, if_neg (by omega)]

theorem lookup_of_contiguous {entries : List (ℕ × Value)} {items : List Value}
    (read : contiguous 0 entries = .ok items) (index : ℕ) :
    entries.lookup index = items[index]? := by
  rw [contiguous_eq_ok.mp read, lookup_zipIdx]
  simp

/-- The entries are read off exactly when their indices are an initial segment. -/
theorem exists_contiguous {entries : List (ℕ × Value)} (ordered : OrderedMap.Ordered entries) :
    (∃ items, contiguous 0 entries = .ok items) ↔
      ∃ size, ∀ index, (entries.lookup index).isSome = true ↔ index < size := by
  constructor
  · intro read
    obtain ⟨items, read⟩ := read
    refine ⟨items.length, ?_⟩
    intro index
    rw [lookup_of_contiguous read]
    simp
  · intro known
    obtain ⟨size, known⟩ := known
    let items := (List.range size).map fun index => (entries.lookup index).getD .null
    refine ⟨items, contiguous_eq_ok.mpr (ordered.ext ?_ ?_)⟩
    · rw [OrderedMap.ordered_iff_keys, OrderedMap.keys, List.map_map]
      have indices : (items.zipIdx 0).map (Prod.fst ∘ Prod.swap) = List.range' 0 items.length :=
        List.zipIdx_map_snd 0 items
      rw [indices]
      exact List.pairwise_lt_range'
    · intro index
      rw [lookup_zipIdx]
      simp only [Nat.zero_le, ↓reduceIte, Nat.sub_zero, items, List.getElem?_map]
      by_cases short : index < size
      · obtain ⟨item, found⟩ := Option.isSome_iff_exists.mp ((known index).mpr short)
        simp [List.getElem?_range short, found]
      · have absent : entries.lookup index = none :=
          Option.not_isSome_iff_eq_none.mp (mt (known index).mp short)
        simp [absent, short]

theorem finish_eq_ok {assembly : ResponseAssembly} {turn : ResponsesTurn} :
    assembly.finish = .ok turn ↔
      assembly.completed = some (turn.responseId, turn.usage) ∧
        contiguous 0 assembly.items = .ok turn.items := by
  simp only [finish, bind_eq_ok, okOr_eq_ok, pure_eq_ok, Prod.exists]
  constructor
  · intro read
    obtain ⟨id, usage, completed, items, contiguous, rfl⟩ := read
    exact ⟨completed, contiguous⟩
  · intro read
    exact ⟨_, _, read.1, _, read.2, rfl⟩

end Finish

section Result

variable {fromStr : String → Except String Document} {token account : String}
  {payloads : List String} {last : String} {events : List StreamEvent}
  {assembly : ResponseAssembly}

/-- The index is known from a completed item or from the terminal array. -/
def KnownIndex (entries : List (ℕ × Value)) (output : List Value) (index : ℕ) : Prop :=
  (∃ item, (index, item) ∈ entries) ∨ index < output.length

/-- The items of a sequence of payloads that ends with its completion. -/
structure Assembled (entries : List (ℕ × Value)) (output : List Value)
    (events : List StreamEvent) (assembly : ResponseAssembly) : Prop where
  completed : assembly.completed.isSome = true
  ordered : OrderedMap.Ordered assembly.items
  items : ∀ index item, assembly.items.lookup index = some item ↔
    (index, item) ∈ entries ∨ output[index]? = some item
  shown : ∀ item, .completedItem item ∈ events →
    assembly.items.lookup item.outputIndex = some item.item
  sized : output ≠ [] → assembly.items.length = output.length

theorem assembled
    (accepted : acceptAll fromStr token account {} (payloads ++ [last]) = .ok (events, assembly))
    (first : ∀ data ∈ payloads, eventKind (eventOf fromStr data) ≠ some "response.completed")
    (ended : eventKind (eventOf fromStr last) = some "response.completed") :
    Assembled (doneEntries fromStr payloads) (terminalArray (eventOf fromStr last)) events
      assembly := by
  obtain ⟨earlier, middle, later, before, final, rfl⟩ := acceptAll_append.mp accepted
  have collects := acceptAll_collects before first .nil
  obtain ⟨live, next, rest, completion, stop, rfl⟩ := acceptAll_cons.mp final
  cases stop
  have event := accept_ok completion
  rw [acceptEvent, ← eventKind, ended] at event
  obtain ⟨rfl, completed, ordered, items, sized⟩ := complete_ok event collects.ordered
  have known : ∀ index item, assembly.items.lookup index = some item ↔
      (index, item) ∈ doneEntries fromStr payloads ∨
        (terminalArray (eventOf fromStr last))[index]? = some item := by
    intro index item
    rw [items, collects.items]
    simp
  refine ⟨completed, ordered, known, ?_, sized⟩
  intro item member
  have old : .completedItem item ∈ earlier := by simpa using member
  exact (items _ _).mpr (.inl (collects.shown item old))

theorem Assembled.isSome {entries : List (ℕ × Value)} {output : List Value}
    (assembled : Assembled entries output events assembly) (index : ℕ) :
    (assembly.items.lookup index).isSome = true ↔ KnownIndex entries output index := by
  rw [Option.isSome_iff_exists]
  simp only [assembled.items, exists_or, KnownIndex]
  rw [← Option.isSome_iff_exists]
  simp

/-- A turn is returned exactly when the known indices are an initial segment. It holds
the item recorded at each index, so every item shown before and a nonempty terminal
array. Deltas, added items and unknown events do not matter to it. -/
theorem response_assembly
    (accepted : acceptAll fromStr token account {} (payloads ++ [last]) = .ok (events, assembly))
    (first : ∀ data ∈ payloads, eventKind (eventOf fromStr data) ≠ some "response.completed")
    (ended : eventKind (eventOf fromStr last) = some "response.completed") :
    ((∃ turn, assembly.finish = .ok turn) ↔ ∃ size, ∀ index,
        KnownIndex (doneEntries fromStr payloads) (terminalArray (eventOf fromStr last)) index ↔
          index < size) ∧
      (∃ fewer after,
        acceptAll fromStr token account {} (withoutDetails fromStr payloads ++ [last]) =
          .ok (fewer, after)) ∧
      ∀ turn, assembly.finish = .ok turn →
        (∀ index item, turn.items[index]? = some item ↔
          (index, item) ∈ doneEntries fromStr payloads ∨
            (terminalArray (eventOf fromStr last))[index]? = some item) ∧
        (∀ item, .completedItem item ∈ events →
          turn.items[item.outputIndex]? = some item.item) ∧
        (terminalArray (eventOf fromStr last) ≠ [] →
          turn.items = terminalArray (eventOf fromStr last)) ∧
        ∀ others fewer after,
          withoutDetails fromStr others = withoutDetails fromStr payloads →
          acceptAll fromStr token account {} (others ++ [last]) = .ok (fewer, after) →
          after.finish = .ok turn := by
  have made := assembled accepted first ended
  have main : isDetail (eventOf fromStr last) = false := by simp [isDetail, ended]
  have kept : ∀ several : List String, withoutDetails fromStr (several ++ [last]) =
      withoutDetails fromStr several ++ [last] := by
    intro several
    simp [withoutDetails, main]
  obtain ⟨fewer, after, shorter, alike⟩ := acceptAll_withoutDetails (.refl {}) accepted
  rw [kept] at shorter
  refine ⟨?_, ⟨fewer, after, shorter⟩, ?_⟩
  · obtain ⟨⟨id, usage⟩, completed⟩ := Option.isSome_iff_exists.mp made.completed
    simp only [← made.isSome, ← exists_contiguous made.ordered, finish_eq_ok, completed]
    constructor
    · intro read
      obtain ⟨turn, _, read⟩ := read
      exact ⟨turn.items, read⟩
    · intro read
      obtain ⟨items, read⟩ := read
      exact ⟨⟨id, items, usage⟩, rfl, read⟩
  · intro turn finished
    obtain ⟨_, read⟩ := finish_eq_ok.mp finished
    have found := lookup_of_contiguous read
    have length : turn.items.length = assembly.items.length := by
      rw [contiguous_eq_ok.mp read]
      simp
    refine ⟨?_, ?_, ?_, ?_⟩
    · intro index item
      rw [← found, made.items]
    · intro item member
      rw [← found, made.shown item member]
    · intro array
      apply List.ext_getElem?
      intro index
      have same := made.items index
      simp only [found] at same
      cases shown : (terminalArray (eventOf fromStr last))[index]? with
      | some item => exact (same item).mpr (.inr shown)
      | none =>
        have long := List.getElem?_eq_none_iff.mp shown
        exact List.getElem?_eq_none (by rw [length, made.sized array]; exact long)
    · intro others more reached same run
      obtain ⟨_, again, shortened, other⟩ := acceptAll_withoutDetails (.refl {}) run
      rw [kept, same, shorter] at shortened
      cases shortened
      rw [other.finish, ← alike.finish, finished]

end Result

/-- A parser of three texts: an item at index 0, an event of an unknown type, and the
completion of response `r` with an empty array. -/
def assemblyParser (text : String) : Except String Document :=
  if text = "item" then
    .ok ⟨.object [("item", .string "first"), ("output_index", .number (.posInt 0)),
      ("type", .string "response.output_item.done")], by decide⟩
  else if text = "other" then .ok ⟨.object [("type", .string "keepalive")], by decide⟩
  else if text = "end" then
    .ok ⟨.object [("response", .object [("id", .string "r")]),
      ("type", .string "response.completed")], by decide⟩
  else .error "unexpected text"

/-- An item, a keepalive and the completion make a turn of that item. -/
theorem response_assembly_single :
    ∃ events assembly turn,
      acceptAll assemblyParser "" "" {} (["item", "other"] ++ ["end"]) = .ok (events, assembly) ∧
        assembly.finish = .ok turn ∧ turn.items[0]? = some (.string "first") := by
  have accepted : acceptAll assemblyParser "" "" {} (["item", "other"] ++ ["end"]) =
      .ok ([.completedItem ⟨.string "first", 0, none⟩],
        { items := [(0, .string "first")], completed := some ("r", {}) }) := by
    decide +kernel
  have first : ∀ data ∈ ["item", "other"],
      eventKind (eventOf assemblyParser data) ≠ some "response.completed" := by
    decide +kernel
  have ended : eventKind (eventOf assemblyParser "end") = some "response.completed" := by
    decide +kernel
  obtain ⟨_, _, result⟩ := response_assembly accepted first ended
  have finished : ({ items := [(0, .string "first")], completed := some ("r", {}) } :
      ResponseAssembly).finish = .ok ⟨"r", [.string "first"], {}⟩ := by
    decide +kernel
  refine ⟨_, _, _, accepted, finished, ?_⟩
  exact (result _ finished).2.1 ⟨.string "first", 0, none⟩ (by simp)

end ExomonadHarness.Transport.ResponseAssembly
