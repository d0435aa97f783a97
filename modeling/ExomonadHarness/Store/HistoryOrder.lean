import ExomonadHarness.Store.History

/-! The order of a history. The members of a response stand in the provider's order in
the slots the response occupied, an output that came too early follows the last of them,
and nothing else moves. -/

namespace ExomonadHarness.Store

open Json Checked

section Filling

variable {Element Key : Type} {group : Element → Option Key}

theorem groups_of_slots {elements others : List Element}
    (slots : List.Forall₂ (fun before after => group after = group before ∧
      (group before = none → after = before)) elements others) :
    others.map group = elements.map group := by
  induction slots with
  | nil => rfl
  | cons same _ ih => rw [List.map_cons, List.map_cons, same.1, ih]

variable [DecidableEq Key]

/-- The queues hold as many members of each group as the list has slots for it. -/
structure Fits (group : Element → Option Key) (elements : List Element)
    (queues : Key → List Element) : Prop where
  length : ∀ key, (queues key).length = (elements.filter (group · = some key)).length
  members : ∀ key, ∀ element ∈ queues key, group element = some key

variable {element : Element} {queues : Key → List Element}

/-- A slot of a group is taken, and the rest still fits. -/
theorem Fits.cons {rest : List Element} {key : Key} (fits : Fits group (element :: rest) queues)
    (member : group element = some key) :
    ∃ first later, queues key = first :: later ∧ group first = some key ∧
      Fits group rest (Function.update queues key later) := by
  have size := fits.length key
  rw [List.filter_cons_of_pos (by simpa using member), List.length_cons] at size
  obtain ⟨first, later, same⟩ := List.exists_cons_of_length_eq_add_one size
  refine ⟨first, later, same, fits.members key first (by simp [same]), ?_, ?_⟩
  · intro other
    by_cases here : other = key
    · subst here
      rw [same, List.length_cons] at size
      simpa using size
    · have elsewhere := fits.length other
      rw [List.filter_cons_of_neg (by simp [member, Ne.symm here])] at elsewhere
      rwa [Function.update_of_ne here]
  · intro other candidate queued
    by_cases here : other = key
    · subst here
      rw [Function.update_self] at queued
      exact fits.members other candidate (by simp [same, queued])
    · rw [Function.update_of_ne here] at queued
      exact fits.members other candidate queued

theorem Fits.cons_none {rest : List Element} (fits : Fits group (element :: rest) queues)
    (single : group element = none) :
    Fits group rest queues := by
  refine ⟨?_, fits.members⟩
  intro key
  have size := fits.length key
  rwa [List.filter_cons_of_neg (by simp [single])] at size

theorem fill_cons {first : Element} {rest later : List Element} {key : Key}
    (member : group element = some key) (queued : queues key = first :: later) :
    fill group (element :: rest) queues =
      first :: fill group rest (Function.update queues key later) := by
  simp [fill, member, queued]

theorem fill_cons_none {rest : List Element} (single : group element = none) :
    fill group (element :: rest) queues = element :: fill group rest queues := by
  simp [fill, single]

/-- Each slot keeps its group, and an element of no group stays. -/
theorem fill_slots {elements : List Element} (fits : Fits group elements queues) :
    List.Forall₂ (fun before after => group after = group before ∧
      (group before = none → after = before)) elements (fill group elements queues) := by
  induction elements generalizing queues with
  | nil => exact .nil
  | cons element rest ih =>
    rcases member : group element with _ | key
    · rw [fill_cons_none member]
      exact .cons ⟨rfl, fun _ => rfl⟩ (ih (fits.cons_none member))
    · obtain ⟨first, later, queued, own, smaller⟩ := fits.cons member
      rw [fill_cons member queued]
      refine .cons ⟨own.trans member.symm, ?_⟩ (ih smaller)
      intro none
      cases member.symm.trans none

/-- The members of a group come in the order of its queue. -/
theorem fill_members {elements : List Element} (fits : Fits group elements queues) (key : Key) :
    (fill group elements queues).filter (group · = some key) = queues key := by
  induction elements generalizing queues with
  | nil =>
    have size := fits.length key
    exact (List.eq_nil_of_length_eq_zero size).symm
  | cons element rest ih =>
    rcases member : group element with _ | other
    · rw [fill_cons_none member, List.filter_cons_of_neg (by simp [member])]
      exact ih (fits.cons_none member)
    · obtain ⟨first, later, queued, own, smaller⟩ := fits.cons member
      rw [fill_cons member queued]
      by_cases here : other = key
      · subst here
        rw [List.filter_cons_of_pos (by simpa using own), ih smaller, queued, Function.update_self]
      · rw [List.filter_cons_of_neg (by simp [own, here]), ih smaller,
          Function.update_of_ne (Ne.symm here)]

theorem fill_single {elements : List Element} (fits : Fits group elements queues) :
    (fill group elements queues).filter (group · = none) = elements.filter (group · = none) := by
  induction elements generalizing queues with
  | nil => rfl
  | cons element rest ih =>
    rcases member : group element with _ | key
    · rw [fill_cons_none member, List.filter_cons_of_pos (by simpa using member),
        List.filter_cons_of_pos (by simpa using member), ih (fits.cons_none member)]
    · obtain ⟨first, later, queued, own, smaller⟩ := fits.cons member
      rw [fill_cons member queued, List.filter_cons_of_neg (by simp [own]),
        List.filter_cons_of_neg (by simp [member]), ih smaller]

/-- A list is filled with its own members in the order they have. -/
theorem fill_self (elements : List Element) :
    fill group elements (fun key => elements.filter (group · = some key)) = elements := by
  induction elements with
  | nil => rfl
  | cons element rest ih =>
    rcases member : group element with _ | key
    · rw [fill_cons_none member]
      have same : (fun key => (element :: rest).filter (group · = some key)) =
          fun key => rest.filter (group · = some key) := by
        funext key
        rw [List.filter_cons_of_neg (by simp [member])]
      rw [same, ih]
    · have queued : (element :: rest).filter (group · = some key) =
          element :: rest.filter (group · = some key) :=
        List.filter_cons_of_pos (by simpa using member)
      rw [fill_cons member queued]
      have same : Function.update (fun key => (element :: rest).filter (group · = some key)) key
          (rest.filter (group · = some key)) = fun key => rest.filter (group · = some key) := by
        funext other
        by_cases here : other = key
        · subst here
          rw [Function.update_self]
        · rw [Function.update_of_ne here, List.filter_cons_of_neg (by simp [member, Ne.symm here])]
      rw [same, ih]

/-- Filling with permuted members permutes the list. -/
theorem fill_perm [DecidableEq Element] {elements : List Element}
    (permuted : ∀ key, (queues key).Perm (elements.filter (group · = some key))) :
    (fill group elements queues).Perm elements := by
  have fits : Fits group elements queues := by
    refine ⟨fun key => (permuted key).length_eq, ?_⟩
    intro key element member
    simpa using (List.mem_filter.mp ((permuted key).mem_iff.mp member)).2
  rw [List.perm_iff_count]
  intro element
  rcases member : group element with _ | key
  · have counts (listed : List Element) :
        (listed.filter (group · = none)).count element = listed.count element :=
      List.count_filter (by simpa using member)
    rw [← counts, ← counts elements, fill_single fits]
  · have counts (listed : List Element) :
        (listed.filter (group · = some key)).count element = listed.count element :=
      List.count_filter (by simpa using member)
    rw [← counts, ← counts elements, fill_members fits, (permuted key).count_eq]

end Filling

section Delaying

variable {Element Key : Type} [DecidableEq Key] (group issuer : Element → Option Key)

/-- A member of the group stands behind the place. -/
def lateMember (elements : List Element) (place : ℕ) (key : Key) : Bool :=
  elements.zipIdx.any fun other => place < other.2 && group other.1 = some key

/-- The element stands before a member of the group that issued it. -/
def early (elements : List Element) (entry : Element × ℕ) : Bool :=
  (issuer entry.1).any (lateMember group elements entry.2)

/-- The early elements whose group has its last member at the place, in their order. -/
def followers (elements : List Element) (entry : Element × ℕ) : List Element :=
  (elements.zipIdx.filter fun other =>
    early group issuer elements other && (group entry.1 = issuer other.1) &&
      !(issuer other.1).any (lateMember group elements entry.2)).map Prod.fst

/-- Every early element is put directly behind the last member of its group. -/
def delayEarly (elements : List Element) : List Element :=
  elements.zipIdx.flatMap fun entry =>
    if early group issuer elements entry then [] else entry.1 :: followers group issuer elements entry

variable {group issuer} {elements : List Element}

theorem lateMember_iff {place : ℕ} {key : Key} :
    lateMember group elements place key = true ↔
      ∃ element later, place < later ∧ elements[later]? = some element ∧
        group element = some key := by
  simp only [lateMember, List.any_eq_true, Bool.and_eq_true, decide_eq_true_eq, Prod.exists,
    List.mem_zipIdx_iff_getElem?]
  constructor
  · intro found
    obtain ⟨element, later, held, behind, member⟩ := found
    exact ⟨element, later, behind, held, member⟩
  · intro found
    obtain ⟨element, later, behind, held, member⟩ := found
    exact ⟨element, later, held, behind, member⟩

/-- The last place of a group holds a member, and none stands behind it. -/
theorem lastPlace_eq_some {key : Key} {place : ℕ} :
    lastPlace group elements key = some place ↔
      (∃ element, elements[place]? = some element ∧ group element = some key) ∧
        lateMember group elements place key = false := by
  have sorted : (elements.zipIdx.filter (group ·.1 = some key)).Pairwise
      fun first second => first.2 < second.2 := by
    apply List.Pairwise.filter
    have places : (elements.zipIdx.map Prod.snd).Pairwise (· < ·) := by
      rw [List.zipIdx_map_snd]
      exact List.pairwise_lt_range'
    exact List.pairwise_map.mp places
  have listed (element : Element) (stood : ℕ) :
      (element, stood) ∈ elements.zipIdx.filter (group ·.1 = some key) ↔
        elements[stood]? = some element ∧ group element = some key := by
    simp [List.mem_zipIdx_iff_getElem?]
  rw [lastPlace, Option.map_eq_some_iff]
  constructor
  · intro found
    obtain ⟨⟨element, stood⟩, last, rfl⟩ := found
    obtain ⟨before, whole⟩ := List.getLast?_eq_some_iff.mp last
    have here := (listed element stood).mp (by rw [whole]; simp)
    refine ⟨⟨element, here⟩, ?_⟩
    rw [Bool.eq_false_iff, Ne, lateMember_iff]
    intro late
    obtain ⟨other, later, behind, held, member⟩ := late
    have among := (listed other later).mpr ⟨held, member⟩
    rw [whole] at among sorted
    rcases List.mem_append.mp among with old | same
    · have ahead := (List.pairwise_append.mp sorted).2.2 _ old _ (List.mem_singleton_self _)
      dsimp only at ahead behind
      omega
    · cases List.mem_singleton.mp same
      exact absurd behind (lt_irrefl _)
  · intro stands
    obtain ⟨⟨element, held, member⟩, none⟩ := stands
    have among := (listed element place).mpr ⟨held, member⟩
    obtain ⟨last, shown⟩ := Option.isSome_iff_exists.mp
      (List.getLast?_isSome.mpr (List.ne_nil_of_mem among))
    obtain ⟨other, stood⟩ := last
    refine ⟨(other, stood), shown, ?_⟩
    obtain ⟨before, whole⟩ := List.getLast?_eq_some_iff.mp shown
    have here := (listed other stood).mp (by rw [whole]; simp)
    rcases lt_trichotomy place stood with behind | same | ahead
    · have late := lateMember_iff.mpr ⟨other, stood, behind, here⟩
      rw [none] at late
      cases late
    · exact same.symm
    · rw [whole] at among sorted
      rcases List.mem_append.mp among with old | same
      · have order := (List.pairwise_append.mp sorted).2.2 _ old _ (List.mem_singleton_self _)
        dsimp only at order
        omega
      · cases List.mem_singleton.mp same
        rfl

variable {element : Element}

theorem exists_lastPlace {key : Key} {place : ℕ} (held : elements[place]? = some element)
    (member : group element = some key) :
    ∃ last, lastPlace group elements key = some last ∧ place ≤ last := by
  have among : (element, place) ∈ elements.zipIdx.filter (group ·.1 = some key) := by
    simp [List.mem_zipIdx_iff_getElem?, held, member]
  obtain ⟨⟨other, last⟩, shown⟩ := Option.isSome_iff_exists.mp
    (List.getLast?_isSome.mpr (List.ne_nil_of_mem among))
  have known : lastPlace group elements key = some last := by rw [lastPlace, shown]; rfl
  refine ⟨last, known, ?_⟩
  by_contra behind
  have late := lateMember_iff.mpr ⟨element, place, Nat.lt_of_not_le behind, held, member⟩
  rw [(lastPlace_eq_some.mp known).2] at late
  cases late

/-- The place that an early element waits for. -/
theorem waits_eq_some {entry : Element × ℕ} {place : ℕ} :
    ((issuer entry.1).bind (lastPlace group elements)).filter (entry.2 < ·) = some place ↔
      ∃ key, issuer entry.1 = some key ∧ lastPlace group elements key = some place ∧
        entry.2 < place := by
  simp only [Option.filter_eq_some_iff, Option.bind_eq_some_iff, decide_eq_true_eq]
  constructor
  · intro found
    obtain ⟨⟨key, known, last⟩, ahead⟩ := found
    exact ⟨key, known, last, ahead⟩
  · intro found
    obtain ⟨key, known, last, ahead⟩ := found
    exact ⟨⟨key, known, last⟩, ahead⟩

theorem early_iff {entry : Element × ℕ} :
    early group issuer elements entry = true ↔
      ∃ place, ((issuer entry.1).bind (lastPlace group elements)).filter (entry.2 < ·) =
        some place := by
  simp only [early, Option.any_eq_true, waits_eq_some]
  constructor
  · intro found
    obtain ⟨key, known, late⟩ := found
    obtain ⟨element, later, behind, held, member⟩ := lateMember_iff.mp late
    obtain ⟨last, shown, ahead⟩ := exists_lastPlace held member
    exact ⟨last, key, known, shown, by omega⟩
  · intro found
    obtain ⟨place, key, known, last, ahead⟩ := found
    obtain ⟨element, held, member⟩ := (lastPlace_eq_some.mp last).1
    exact ⟨key, known, lateMember_iff.mpr ⟨element, place, ahead, held, member⟩⟩

/-- The element waits for a place exactly when it is early and the place is the last of
its group. -/
theorem waits_iff_follows {entry other : Element × ℕ}
    (here : elements[entry.2]? = some entry.1) :
    ((issuer other.1).bind (lastPlace group elements)).filter (other.2 < ·) = some entry.2 ↔
      (early group issuer elements other && (group entry.1 = issuer other.1) &&
        !(issuer other.1).any (lateMember group elements entry.2)) = true := by
  simp only [Bool.and_eq_true, decide_eq_true_eq, Bool.not_eq_true', Option.any_eq_false]
  constructor
  · intro waits
    obtain ⟨key, known, last, _⟩ := waits_eq_some.mp waits
    obtain ⟨⟨element, held, member⟩, none⟩ := lastPlace_eq_some.mp last
    cases here.symm.trans held
    refine ⟨⟨early_iff.mpr ⟨_, waits⟩, member.trans known.symm⟩, ?_⟩
    intro other same
    cases known.symm.trans same
    exact none
  · intro follows
    obtain ⟨⟨ahead, member⟩, none⟩ := follows
    obtain ⟨place, waits⟩ := early_iff.mp ahead
    obtain ⟨key, known, last, _⟩ := waits_eq_some.mp waits
    rw [known] at member
    have own := lastPlace_eq_some.mpr ⟨⟨entry.1, here, member⟩, none key known⟩
    cases last.symm.trans own
    exact waits

/-- No issued element belongs to a group. -/
def Unmixed (group issuer : Element → Option Key) (elements : List Element) : Prop :=
  ∀ element ∈ elements, (issuer element).isSome = true → group element = none

theorem not_member_of_early (unmixed : Unmixed group issuer elements) {entry : Element × ℕ}
    (listed : entry ∈ elements.zipIdx) (ahead : early group issuer elements entry = true) :
    group entry.1 = none := by
  rw [early, Option.any_eq_true] at ahead
  obtain ⟨key, known, _⟩ := ahead
  exact unmixed entry.1 (List.fst_mem_of_mem_zipIdx listed) (by simp [known])

theorem mem_followers {entry : Element × ℕ} :
    element ∈ followers group issuer elements entry ↔
      ∃ place, (element, place) ∈ elements.zipIdx ∧
        early group issuer elements (element, place) = true ∧
        group entry.1 = issuer element ∧
        (issuer element).any (lateMember group elements entry.2) = false := by
  simp only [followers, List.mem_map, List.mem_filter, Bool.and_eq_true, decide_eq_true_eq,
    Bool.not_eq_true', Prod.exists]
  constructor
  · intro found
    obtain ⟨other, place, ⟨listed, ⟨ahead, member⟩, none⟩, rfl⟩ := found
    exact ⟨place, listed, ahead, member, none⟩
  · intro found
    obtain ⟨place, listed, ahead, member, none⟩ := found
    exact ⟨element, place, ⟨listed, ⟨ahead, member⟩, none⟩, rfl⟩

theorem follower_not_member (unmixed : Unmixed group issuer elements) {entry : Element × ℕ}
    (follower : element ∈ followers group issuer elements entry) :
    group element = none := by
  obtain ⟨place, listed, ahead, _⟩ := mem_followers.mp follower
  exact not_member_of_early unmixed listed ahead

/-- How the loops of the source delay the early elements. -/
theorem delayEarly_eq (unmixed : Unmixed group issuer elements) :
    (elements.zipIdx.flatMap fun entry =>
      (if (((issuer entry.1).bind (lastPlace group elements)).filter (entry.2 < ·)).isNone then
        [entry.1] else []) ++
      (elements.zipIdx.filter fun other =>
        ((issuer other.1).bind (lastPlace group elements)).filter (other.2 < ·) =
          some entry.2).map Prod.fst) = delayEarly group issuer elements := by
  apply List.flatMap_congr
  intro entry listed
  have here := List.mem_zipIdx_iff_getElem?.mp listed
  cases ahead : early group issuer elements entry with
  | true =>
    obtain ⟨place, waits⟩ := early_iff.mp ahead
    have single := not_member_of_early unmixed listed ahead
    have empty : (elements.zipIdx.filter fun other =>
        ((issuer other.1).bind (lastPlace group elements)).filter (other.2 < ·) =
          some entry.2) = [] := by
      rw [List.filter_eq_nil_iff]
      intro other _ waiting
      obtain ⟨key, _, last, _⟩ := waits_eq_some.mp (of_decide_eq_true waiting)
      obtain ⟨⟨element, held, member⟩, _⟩ := lastPlace_eq_some.mp last
      cases here.symm.trans held
      cases single.symm.trans member
    rw [waits, empty]
    rfl
  | false =>
    have idle : ((issuer entry.1).bind (lastPlace group elements)).filter (entry.2 < ·) = none := by
      rw [Option.eq_none_iff_forall_ne_some]
      intro place waits
      have early_entry := early_iff.mpr ⟨place, waits⟩
      rw [ahead] at early_entry
      cases early_entry
    have same : (elements.zipIdx.filter fun other =>
        ((issuer other.1).bind (lastPlace group elements)).filter (other.2 < ·) =
          some entry.2).map Prod.fst = followers group issuer elements entry := by
      rw [followers]
      congr 1
      apply List.filter_congr
      intro other _
      rw [Bool.eq_iff_iff, decide_eq_true_eq]
      exact waits_iff_follows here
    rw [idle, same]
    rfl

theorem flatMap_single {Entry Other : Type} (keep : Entry → Bool) (change : Entry → Other)
    (entries : List Entry) :
    (entries.flatMap fun entry => if keep entry = true then [change entry] else []) =
      (entries.filter keep).map change := by
  induction entries with
  | nil => rfl
  | cons entry rest ih =>
    rw [List.flatMap_cons, ih]
    cases kept : keep entry <;> simp [kept]

/-- The elements sorted into the places they wait for are those that wait. -/
theorem buckets_perm {Entry : Type} (waits : Entry → Option ℕ) (entries : List Entry)
    {places : List ℕ} (distinct : places.Nodup) :
    (places.flatMap fun place => entries.filter (waits · = some place)).Perm
      (entries.filter fun entry => (waits entry).any (· ∈ places)) := by
  induction places with
  | nil => simp
  | cons place rest ih =>
    obtain ⟨fresh, later⟩ := List.nodup_cons.mp distinct
    rw [List.flatMap_cons]
    have here : entries.filter (waits · = some place) =
        (entries.filter fun entry => (waits entry).any (· ∈ place :: rest)).filter
          (waits · = some place) := by
      rw [List.filter_filter]
      apply List.filter_congr
      intro entry _
      cases waits entry with
      | none => rfl
      | some found =>
        by_cases same : found = place <;> simp [same]
    have others : (entries.filter fun entry => (waits entry).any (· ∈ rest)) =
        (entries.filter fun entry => (waits entry).any (· ∈ place :: rest)).filter
          (fun entry => !decide (waits entry = some place)) := by
      rw [List.filter_filter]
      apply List.filter_congr
      intro entry _
      cases waits entry with
      | none => rfl
      | some found =>
        by_cases same : found = place
        · simp [same, fresh]
        · simp [same]
    refine ((ih later).append_left _).trans ?_
    rw [others, here]
    exact List.filter_append_perm _ _

theorem delayEarly_perm (unmixed : Unmixed group issuer elements) :
    (delayEarly group issuer elements).Perm elements := by
  rw [← delayEarly_eq unmixed]
  refine (List.flatMap_append_perm _ _ _).symm.trans ?_
  let waits (entry : Element × ℕ) : Option ℕ :=
    ((issuer entry.1).bind (lastPlace group elements)).filter (entry.2 < ·)
  have kept : (elements.zipIdx.flatMap fun entry =>
      if (waits entry).isNone then [entry.1] else []) =
        (elements.zipIdx.filter fun entry => !(waits entry).isSome).map Prod.fst := by
    rw [← flatMap_single]
    apply List.flatMap_congr
    intro entry _
    cases waits entry <;> rfl
  have moved : (elements.zipIdx.flatMap fun entry =>
      (elements.zipIdx.filter (waits · = some entry.2)).map Prod.fst).Perm
        ((elements.zipIdx.filter fun entry => (waits entry).isSome).map Prod.fst) := by
    have places : (elements.zipIdx.map Prod.snd).Nodup := by
      rw [List.zipIdx_map_snd]
      exact List.nodup_range'
    have sorted := buckets_perm waits elements.zipIdx places
    rw [List.flatMap_map] at sorted
    rw [← List.map_flatMap]
    refine (sorted.map Prod.fst).trans ?_
    have every : (elements.zipIdx.filter fun entry =>
        (waits entry).any (· ∈ elements.zipIdx.map Prod.snd)) =
          elements.zipIdx.filter fun entry => (waits entry).isSome := by
      apply List.filter_congr
      intro entry _
      cases waiting : waits entry with
      | none => rfl
      | some place =>
        obtain ⟨_, _, last, _⟩ := waits_eq_some.mp waiting
        obtain ⟨⟨element, held, _⟩, _⟩ := lastPlace_eq_some.mp last
        have listed : (element, place) ∈ elements.zipIdx := List.mem_zipIdx_iff_getElem?.mpr held
        have known : place ∈ elements.zipIdx.map Prod.snd := List.mem_map.mpr ⟨_, listed, rfl⟩
        simp only [Option.any_some, known, decide_true, Option.isSome_some]
    rw [every]
  rw [kept]
  refine (moved.append_left _).trans ?_
  rw [← List.map_append]
  have whole := (List.perm_append_comm.trans
    (List.filter_append_perm (fun entry => (waits entry).isSome) elements.zipIdx)).map Prod.fst
  rw [List.zipIdx_map_fst] at whole
  exact whole

/-- The members of a group are not delayed. -/
theorem delayEarly_members (unmixed : Unmixed group issuer elements) (key : Key) :
    (delayEarly group issuer elements).filter (group · = some key) =
      elements.filter (group · = some key) := by
  rw [delayEarly, List.filter_flatMap]
  have single : (elements.zipIdx.flatMap fun entry =>
      (if early group issuer elements entry then []
        else entry.1 :: followers group issuer elements entry).filter (group · = some key)) =
      elements.zipIdx.flatMap fun entry =>
        if group entry.1 = some key then [entry.1] else [] := by
    apply List.flatMap_congr
    intro entry listed
    cases ahead : early group issuer elements entry with
    | true =>
      have none := not_member_of_early unmixed listed ahead
      simp [none]
    | false =>
      have others : (followers group issuer elements entry).filter (group · = some key) = [] := by
        rw [List.filter_eq_nil_iff]
        intro element follower member
        have none := follower_not_member unmixed follower
        simp [none] at member
      simp only [Bool.false_eq_true, ↓reduceIte, List.filter_cons, others, decide_eq_true_eq]
  rw [single]
  have mapped := flatMap_single (fun element => decide (group element = some key)) id elements
  simp only [decide_eq_true_eq, List.map_id, id_eq] at mapped
  rw [← mapped]
  conv_rhs => rw [← List.zipIdx_map_fst 0 elements, List.flatMap_map]

/-- Behind every issued element stands no member of the group that issued it. -/
theorem delayEarly_settled (unmixed : Unmixed group issuer elements) :
    (delayEarly group issuer elements).Pairwise fun first second =>
      ∀ key, issuer first = some key → group second ≠ some key := by
  rw [delayEarly, List.pairwise_flatMap]
  constructor
  · intro entry _
    split
    · exact .nil
    · rw [List.pairwise_cons]
      constructor
      · intro follower listed key _ member
        cases (follower_not_member unmixed listed).symm.trans member
      · apply List.Pairwise.imp_of_mem (R := fun _ _ => True)
        · intro first second _ listed _ key _ member
          cases (follower_not_member unmixed listed).symm.trans member
        · exact List.pairwise_of_forall fun _ _ => trivial
  · have places : elements.zipIdx.Pairwise fun first second => first.2 < second.2 := by
      have sorted : (elements.zipIdx.map Prod.snd).Pairwise (· < ·) := by
        rw [List.zipIdx_map_snd]
        exact List.pairwise_lt_range'
      exact List.pairwise_map.mp sorted
    refine places.imp_of_mem ?_
    intro first second firstListed secondListed ahead element shown other otherShown key issued
      member
    split at otherShown
    · cases otherShown
    · rcases List.mem_cons.mp otherShown with rfl | follower
      · have late : lateMember group elements first.2 key = true :=
          lateMember_iff.mpr ⟨second.1, second.2, ahead,
            List.mem_zipIdx_iff_getElem?.mp secondListed, member⟩
        split at shown
        case isTrue => cases shown
        case isFalse timely =>
          rcases List.mem_cons.mp shown with rfl | follower
          · apply timely
            rw [early, Option.any_eq_true]
            exact ⟨key, issued, late⟩
          · obtain ⟨_, _, _, _, none⟩ := mem_followers.mp follower
            rw [issued, Option.any_some, late] at none
            cases none
      · cases (follower_not_member unmixed follower).symm.trans member

/-- A list without early elements is left alone. -/
theorem delayEarly_self (settled : elements.Pairwise fun first second =>
    ∀ key, issuer first = some key → group second ≠ some key) :
    delayEarly group issuer elements = elements := by
  have timely : ∀ entry ∈ elements.zipIdx, early group issuer elements entry = false := by
    intro entry listed
    rw [Bool.eq_false_iff, Ne, early, Option.any_eq_true]
    intro ahead
    obtain ⟨key, issued, late⟩ := ahead
    obtain ⟨element, place, behind, held, member⟩ := lateMember_iff.mp late
    have here := List.mem_zipIdx_iff_getElem?.mp listed
    obtain ⟨firstShort, firstSame⟩ := List.getElem?_eq_some_iff.mp here
    obtain ⟨secondShort, secondSame⟩ := List.getElem?_eq_some_iff.mp held
    have apart := List.pairwise_iff_getElem.mp settled entry.2 place firstShort secondShort behind
    rw [firstSame, secondSame] at apart
    exact apart key issued member
  have none : ∀ entry, followers group issuer elements entry = [] := by
    intro entry
    rw [List.eq_nil_iff_forall_not_mem]
    intro element follower
    obtain ⟨place, listed, ahead, _⟩ := mem_followers.mp follower
    rw [timely _ listed] at ahead
    cases ahead
  have same : delayEarly group issuer elements =
      elements.zipIdx.flatMap fun entry => [entry.1] := by
    apply List.flatMap_congr
    intro entry listed
    rw [timely entry listed, none entry]
    rfl
  rw [same, ← List.map_eq_flatMap, List.zipIdx_map_fst]

/-- The last place of a group depends on the groups alone. -/
theorem lastPlace_congr {others : List Element} (same : elements.map group = others.map group) :
    lastPlace group elements = lastPlace group others := by
  have stands (listed : List Element) (place : ℕ) (key : Key) :
      (∃ element, listed[place]? = some element ∧ group element = some key) ↔
        (listed.map group)[place]? = some (some key) := by
    rw [List.getElem?_map, Option.map_eq_some_iff]
  have behind (listed : List Element) (place : ℕ) (key : Key) :
      lateMember group listed place key = true ↔
        ∃ later, place < later ∧ (listed.map group)[later]? = some (some key) := by
    rw [lateMember_iff, exists_comm]
    simp only [← stands, exists_and_left]
  funext key
  apply Option.ext
  intro place
  rw [lastPlace_eq_some, lastPlace_eq_some, stands, stands, same]
  apply and_congr_right
  intro _
  rw [Bool.eq_false_iff, Bool.eq_false_iff, Ne, Ne, behind, behind, same]

end Delaying

section Occurrences

variable {Hash : Type} (index : Origin Hash → Option ℕ)

/-- The response an occurrence is a member of. -/
def responseBy (occurrence : Occurrence Hash) : Option RequestId :=
  if (index occurrence.origin).isSome then some occurrence.origin.request else none

/-- The response that issued the call of an output. -/
def issuerOf (occurrence : Occurrence Hash) : Option RequestId :=
  occurrence.outputOperation.map (·.request)

def membersBy (retained : List (Occurrence Hash)) (request : RequestId) :
    List (Occurrence Hash) :=
  (retained.filter (responseBy index · = some request)).insertionSort fun left right =>
    (index left.origin).getD 0 ≤ (index right.origin).getD 0

/-- The members of each response, by index, in the slots of the response. -/
def slotted (retained : List (Occurrence Hash)) : List (Occurrence Hash) :=
  fill (responseBy index) retained (membersBy index retained)

def awaitsBy (retained : List (Occurrence Hash)) (occurrence : Occurrence Hash) (place : ℕ) :
    Option ℕ :=
  (occurrence.outputOperation.bind fun operation =>
    lastPlace (responseBy index) retained operation.request).filter (place < ·)

/-- `ordered_occurrences` behind the reading of the provider indices. -/
def orderBy (retained : List (Occurrence Hash)) : List (Occurrence Hash) :=
  (slotted index retained).zipIdx.flatMap fun entry =>
    (if (awaitsBy index retained entry.1 entry.2).isNone then [entry.1] else []) ++
      ((slotted index retained).zipIdx.filter fun other =>
        awaitsBy index retained other.1 other.2 = some entry.2).map Prod.fst

variable {index} {retained : List (Occurrence Hash)}

theorem membersBy_perm (request : RequestId) :
    (membersBy index retained request).Perm
      (retained.filter (responseBy index · = some request)) :=
  List.perm_insertionSort _ _

theorem membersBy_sorted (request : RequestId) :
    (membersBy index retained request).Pairwise fun left right =>
      (index left.origin).getD 0 ≤ (index right.origin).getD 0 := by
  have total : Std.Total fun left right : Occurrence Hash =>
      (index left.origin).getD 0 ≤ (index right.origin).getD 0 := ⟨fun _ _ => Nat.le_total _ _⟩
  have transitive : IsTrans (Occurrence Hash) fun left right =>
      (index left.origin).getD 0 ≤ (index right.origin).getD 0 := ⟨fun _ _ _ => Nat.le_trans⟩
  exact List.pairwise_insertionSort _ _

theorem fits_membersBy : Fits (responseBy index) retained (membersBy index retained) := by
  refine ⟨fun key => (membersBy_perm key).length_eq, ?_⟩
  intro key element member
  simpa using (List.mem_filter.mp ((membersBy_perm key).mem_iff.mp member)).2

theorem slotted_perm [DecidableEq Hash] : (slotted index retained).Perm retained :=
  fill_perm membersBy_perm

theorem slotted_groups :
    (slotted index retained).map (responseBy index) = retained.map (responseBy index) :=
  groups_of_slots (fill_slots fits_membersBy)

/-- No provider item is the output of an operation. -/
def Unowned (index : Origin Hash → Option ℕ) (retained : List (Occurrence Hash)) : Prop :=
  ∀ occurrence ∈ retained, (index occurrence.origin).isSome = true →
    occurrence.outputOperation = none

theorem Unowned.unmixed (unowned : Unowned index retained) {listed : List (Occurrence Hash)}
    (permuted : listed.Perm retained) : Unmixed (responseBy index) issuerOf listed := by
  intro occurrence member issued
  rw [responseBy, if_neg]
  intro owned
  have none := unowned occurrence (permuted.mem_iff.mp member) owned
  simp [issuerOf, none] at issued

/-- The order is the slots with every early output delayed. -/
theorem orderBy_eq [DecidableEq Hash] (unowned : Unowned index retained) :
    orderBy index retained = delayEarly (responseBy index) issuerOf (slotted index retained) := by
  rw [← delayEarly_eq (unowned.unmixed slotted_perm)]
  have waits (occurrence : Occurrence Hash) (place : ℕ) :
      awaitsBy index retained occurrence place =
        ((issuerOf occurrence).bind (lastPlace (responseBy index) (slotted index retained))).filter
          (place < ·) := by
    rw [awaitsBy, issuerOf, Option.bind_map, lastPlace_congr slotted_groups]
    rfl
  rw [orderBy]
  simp only [waits]

theorem orderBy_members [DecidableEq Hash] (unowned : Unowned index retained)
    (request : RequestId) :
    (orderBy index retained).filter (responseBy index · = some request) =
      membersBy index retained request := by
  rw [orderBy_eq unowned, delayEarly_members (unowned.unmixed slotted_perm), slotted,
    fill_members fits_membersBy]

theorem orderBy_perm [DecidableEq Hash] (unowned : Unowned index retained) :
    (orderBy index retained).Perm retained := by
  rw [orderBy_eq unowned]
  exact (delayEarly_perm (unowned.unmixed slotted_perm)).trans slotted_perm

/-- An ordered history is in order. -/
theorem orderBy_again [DecidableEq Hash] (unowned : Unowned index retained) :
    orderBy index (orderBy index retained) = orderBy index retained := by
  have permuted := orderBy_perm unowned
  have still : Unowned index (orderBy index retained) := by
    intro occurrence member
    exact unowned occurrence (permuted.mem_iff.mp member)
  have queues : membersBy index (orderBy index retained) =
      fun request => (orderBy index retained).filter (responseBy index · = some request) := by
    funext request
    apply List.Pairwise.insertionSort_eq
    rw [orderBy_members unowned]
    exact membersBy_sorted request
  have slots : slotted index (orderBy index retained) = orderBy index retained := by
    rw [slotted, queues, fill_self]
  rw [orderBy_eq still, slots]
  apply delayEarly_self
  rw [orderBy_eq unowned]
  exact delayEarly_settled (unowned.unmixed slotted_perm)

/-- Where no provider item is an output, the order is a permutation: the members of each
response stand by index in the slots the response occupied, every output that stood before
the last member of the response that issued its call follows that member directly, those
of one response in their order, and the rest keeps its order. Ordering again changes
nothing. -/
theorem occurrence_order [DecidableEq Hash] (index : Origin Hash → Option ℕ)
    (retained : List (Occurrence Hash)) (unowned : Unowned index retained) :
    (orderBy index retained).Perm retained ∧
      (∃ slots : List (Occurrence Hash),
        List.Forall₂ (fun before after => responseBy index after = responseBy index before ∧
          (responseBy index before = none → after = before)) retained slots ∧
        (∀ request,
          (slots.filter (responseBy index · = some request)).Perm
              (retained.filter (responseBy index · = some request)) ∧
            (slots.filter (responseBy index · = some request)).Pairwise fun left right =>
              (index left.origin).getD 0 ≤ (index right.origin).getD 0) ∧
        orderBy index retained = delayEarly (responseBy index) issuerOf slots) ∧
      (∀ request, ((orderBy index retained).filter
          (responseBy index · = some request)).Pairwise fun left right =>
        (index left.origin).getD 0 ≤ (index right.origin).getD 0) ∧
      orderBy index (orderBy index retained) = orderBy index retained := by
  refine ⟨orderBy_perm unowned,
    ⟨slotted index retained, fill_slots fits_membersBy, ?_, orderBy_eq unowned⟩, ?_,
    orderBy_again unowned⟩
  · intro request
    rw [slotted, fill_members fits_membersBy]
    exact ⟨membersBy_perm request, membersBy_sorted request⟩
  · intro request
    rw [orderBy_members unowned]
    exact membersBy_sorted request

end Occurrences

/-- An item of the request `r` at a place. -/
def placedOccurrence (position : ℕ) (operation : Option Scheduler.OperationId) :
    Occurrence Unit where
  request := "r"
  position := position
  hash := ()
  item := .null
  outputOperation := operation
  origin := ⟨"r", position, ()⟩
  sources := []
  note := false
  overlays := []

/-- Two members that arrived the wrong way round, with the output of a call between them. -/
theorem occurrence_order_pair :
    let index : Origin Unit → Option ℕ := fun origin =>
      if origin.position = 0 then some 1 else if origin.position = 2 then some 0 else none
    let output := placedOccurrence 1 (some ⟨.standalone "store" "agent", "r", "call"⟩)
    let retained := [placedOccurrence 0 none, output, placedOccurrence 2 none]
    orderBy index retained = [placedOccurrence 2 none, placedOccurrence 0 none, output] ∧
      orderBy index (orderBy index retained) = orderBy index retained := by
  intro index output retained
  have unowned : Unowned index retained := by
    simp [Unowned, retained, output, index, placedOccurrence]
  exact ⟨by decide +kernel, (occurrence_order index retained unowned).2.2.2⟩

end ExomonadHarness.Store
