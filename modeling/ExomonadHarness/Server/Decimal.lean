import ExomonadHarness.Support.Pattern

/-! `ws_protocol/decimal.rs`: 64-bit integers as canonical decimal strings, and the
patterns that publish their ranges. -/

namespace ExomonadHarness.Server

/-! `positive_range`, as the text it builds. -/

def choiceText (low digit : Char) : String :=
  if digit.toNat = low.toNat + 1 then toString low
  else "[" ++ toString low ++ "-" ++ toString (Char.ofNat (digit.toNat - 1)) ++ "]"

/-- The loop over the digits of the bound, after the ones in `before`. -/
def rangesFrom (before : List Char) (low : Char) : List Char → List String
  | [] => []
  | digit :: rest =>
    (if low < digit then
      [String.ofList before ++ choiceText low digit ++ "[0-9]\x7b" ++ toString rest.length ++ "\x7d"]
    else []) ++ rangesFrom (before ++ [digit]) '0' rest

def positiveRange (bound : String) : String :=
  "|".intercalate
    (["[1-9][0-9]\x7b0," ++ toString (bound.toList.length - 2) ++ "\x7d"] ++
      rangesFrom [] '1' bound.toList ++ [bound])

def wireU64Pattern : String :=
  "^(?:0|" ++ positiveRange "18446744073709551615" ++ ")$(?![\\s\\S])"

def wireI64Pattern : String :=
  "^(?:0|" ++ positiveRange "9223372036854775807" ++ "|-(?:" ++
    positiveRange "9223372036854775808" ++ "))$(?![\\s\\S])"

/-! The same patterns as expressions. -/

def anyDigit : Pattern := .range '0' '9'

def choice (low digit : Char) : Pattern :=
  if digit.toNat = low.toNat + 1 then .literal [low]
  else .range low (Char.ofNat (digit.toNat - 1))

def rangePatterns (before : List Char) (low : Char) : List Char → List Pattern
  | [] => []
  | digit :: rest =>
    (if low < digit then
      [.seq (.literal before) (.seq (choice low digit) (.times anyDigit rest.length))]
    else []) ++ rangePatterns (before ++ [digit]) '0' rest

def shorterPattern (bound : List Char) : Pattern :=
  .seq (.range '1' '9') (.upTo anyDigit (bound.length - 2))

def positivePattern (bound : List Char) : Pattern :=
  .anyOf (shorterPattern bound) (rangePatterns [] '1' bound ++ [.literal bound])

def whole (inner : Pattern) : Pattern :=
  .seq .start (.seq (.group inner) (.seq .finish .nothingAfter))

def wireU64 : Pattern :=
  whole (.alt (.literal ['0']) (positivePattern "18446744073709551615".toList))

def wireI64 : Pattern :=
  whole (.alt (.alt (.literal ['0']) (positivePattern "9223372036854775807".toList))
    (.seq (.literal ['-']) (.group (positivePattern "9223372036854775808".toList))))

theorem render_choice (low digit : Char) : (choice low digit).render = choiceText low digit := by
  unfold choice choiceText
  split
  · exact String.singleton_eq_ofList.symm
  · rfl

theorem render_rangePatterns (before : List Char) (low : Char) (digits : List Char) :
    (rangePatterns before low digits).map Pattern.render = rangesFrom before low digits := by
  induction digits generalizing before low with
  | nil => rfl
  | cons digit rest ih =>
    have text : (Pattern.seq (.literal before) (.seq (choice low digit)
        (.times anyDigit rest.length))).render = String.ofList before ++ choiceText low digit ++
          "[0-9]\x7b" ++ toString rest.length ++ "\x7d" := by
      rw [← String.toList_inj]
      simp [Pattern.render, render_choice, anyDigit]
    rw [rangePatterns, rangesFrom, List.map_append, ih]
    by_cases above : low < digit
    · rw [if_pos above, if_pos above, List.map_singleton, text]
    · rw [if_neg above, if_neg above, List.map_nil]

theorem render_positivePattern (bound : String) :
    (positivePattern bound.toList).render = positiveRange bound := by
  have shorter : (shorterPattern bound.toList).render =
      "[1-9][0-9]\x7b0," ++ toString (bound.toList.length - 2) ++ "\x7d" := by
    rw [← String.toList_inj]
    simp [Pattern.render, shorterPattern, anyDigit]
  have last : (Pattern.literal bound.toList).render = bound := String.ofList_toList
  rw [positivePattern, Pattern.render_anyOf, List.map_append, render_rangePatterns, positiveRange,
    shorter, List.map_singleton, last, List.singleton_append, List.cons_append]

theorem render_wireU64 : wireU64.render = wireU64Pattern := by
  rw [wireU64, wireU64Pattern, ← render_positivePattern, ← String.toList_inj]
  simp [whole, Pattern.render]

theorem render_wireI64 : wireI64.render = wireI64Pattern := by
  rw [wireI64, wireI64Pattern, ← render_positivePattern, ← render_positivePattern,
    ← String.toList_inj]
  simp [whole, Pattern.render]

/-! Numerals. -/

/-- The number a list of digits denotes. -/
def value (digits : List Char) : ℕ :=
  Nat.ofDigitChars 10 digits 0

/-- A digit without leading zeros, and digits after it. -/
structure Canonical (word : List Char) : Prop where
  nonempty : word ≠ []
  digits : ∀ c ∈ word, '0' ≤ c ∧ c ≤ '9'
  leading : word.head? ≠ some '0'

def AllDigits (word : List Char) : Prop :=
  ∀ c ∈ word, '0' ≤ c ∧ c ≤ '9'

section

variable {c : Char} {word : List Char}

theorem le_iff_toNat {left right : Char} : left ≤ right ↔ left.toNat ≤ right.toNat :=
  Char.le_def.trans UInt32.le_iff_toNat_le

theorem lt_iff_toNat {left right : Char} : left < right ↔ left.toNat < right.toNat :=
  Char.lt_def.trans UInt32.lt_iff_toNat_lt

theorem digit_bounds (within : '0' ≤ c ∧ c ≤ '9') : 48 ≤ c.toNat ∧ c.toNat ≤ 57 :=
  ⟨le_iff_toNat.mp within.1, le_iff_toNat.mp within.2⟩

theorem AllDigits.tail (all : AllDigits (c :: word)) : AllDigits word := fun other member =>
  all other (List.mem_cons_of_mem _ member)

theorem AllDigits.head (all : AllDigits (c :: word)) : '0' ≤ c ∧ c ≤ '9' :=
  all c List.mem_cons_self

theorem value_cons : value (c :: word) = 10 ^ word.length * (c.toNat - 48) + value word := by
  rw [value, Nat.ofDigitChars_cons, Nat.ofDigitChars_eq_ofDigitChars_zero, value, mul_zero, zero_add]
  rfl

theorem value_append_singleton : value (word ++ [c]) = 10 * value word + (c.toNat - 48) := by
  rw [value, Nat.ofDigitChars_append, Nat.ofDigitChars_cons, Nat.ofDigitChars_nil]
  rfl

theorem value_lt (all : AllDigits word) : value word < 10 ^ word.length := by
  induction word with
  | nil => exact Nat.one_pos
  | cons c word ih =>
    have bounds := digit_bounds all.head
    have below := ih all.tail
    have digit : c.toNat - 48 ≤ 9 := by omega
    rw [value_cons, List.length_cons, pow_succ]
    have scaled := Nat.mul_le_mul_left (10 ^ word.length) digit
    omega

theorem Canonical.of_all (nonempty : word ≠ []) (digits : word.all Char.isDigit = true)
    (leading : word.head? ≠ some '0') : Canonical word := by
  refine ⟨nonempty, fun c member => ?_, leading⟩
  have digit := List.all_eq_true.mp digits c member
  simp only [Char.isDigit, ge_iff_le, Bool.and_eq_true, decide_eq_true_eq] at digit
  exact digit

theorem Canonical.head_pos (canonical : Canonical (c :: word)) : 1 ≤ c.toNat - 48 := by
  have bounds := digit_bounds (canonical.digits c List.mem_cons_self)
  have nonzero : c.toNat ≠ 48 := by
    intro zero
    have same : c = '0' := Char.toNat_inj.mp zero
    exact canonical.leading (by rw [same]; rfl)
  omega

theorem Canonical.le_value (canonical : Canonical word) : 10 ^ (word.length - 1) ≤ value word := by
  obtain ⟨c, tail, rfl⟩ := List.exists_cons_of_ne_nil canonical.nonempty
  have scaled := Nat.mul_le_mul_left (10 ^ tail.length) canonical.head_pos
  rw [value_cons, List.length_cons, Nat.add_sub_cancel]
  omega

theorem toNat_digitChar {digit : ℕ} (small : digit < 10) : (Nat.digitChar digit).toNat = digit + 48 := by
  have all : ∀ digit < 10, (Nat.digitChar digit).toNat = digit + 48 := by decide
  exact all digit small

/-- A canonical word is the numeral of its value. -/
theorem Canonical.toDigits (canonical : Canonical word) : Nat.toDigits 10 (value word) = word := by
  induction word using List.reverseRecOn with
  | nil => exact absurd rfl canonical.nonempty
  | append_singleton start c ih =>
    have bounds := digit_bounds (canonical.digits c (by simp))
    have small : c.toNat - 48 < 10 := by omega
    have last : Nat.toDigits 10 (c.toNat - 48) = [c] := by
      have same : Nat.digitChar (c.toNat - 48) = c := by
        refine Char.toNat_inj.mp ?_
        rw [toNat_digitChar small]
        omega
      rw [Nat.toDigits_of_lt_base small, same]
    rw [value_append_singleton]
    by_cases alone : start = []
    · subst alone
      exact (congrArg (Nat.toDigits 10) (Nat.zero_add _)).trans last
    · have shorter : Canonical start := by
        refine ⟨alone, fun other member => canonical.digits other (by simp [member]), ?_⟩
        have leading := canonical.leading
        rwa [List.head?_append_of_ne_nil _ alone] at leading
      have positive : 0 < value start := (Nat.pow_pos (by decide)).trans_le shorter.le_value
      rw [← Nat.toDigits_append_toDigits (by decide) positive small, ih shorter, last]

theorem canonical_toDigits {number : ℕ} (positive : 0 < number) :
    Canonical (Nat.toDigits 10 number) := by
  refine .of_all Nat.toDigits_ne_nil (List.all_eq_true.mpr fun c member => ?_) ?_
  · exact Nat.isDigit_of_mem_toDigits (by decide) (by decide) member
  · induction number using Nat.strongRecOn with
    | ind number ih =>
      by_cases small : number < 10
      · rw [Nat.toDigits_of_lt_base small]
        intro zero
        have code := toNat_digitChar small
        rw [Option.some.inj zero] at code
        have same : '0'.toNat = 48 := rfl
        omega
      · have smaller := ih (number / 10) (by omega) (by omega)
        rw [Nat.toDigits_of_base_le (by decide) (by omega),
          List.head?_append_of_ne_nil _ Nat.toDigits_ne_nil]
        exact smaller

theorem value_toDigits (number : ℕ) : value (Nat.toDigits 10 number) = number :=
  Nat.ofDigitChars_ten_toDigits

/-- The numerals of the numbers from one to a limit. -/
theorem numeral_iff {limit : ℕ} :
    (∃ number, 1 ≤ number ∧ number ≤ limit ∧ word = Nat.toDigits 10 number) ↔
      Canonical word ∧ value word ≤ limit := by
  constructor
  · intro numeral
    obtain ⟨number, positive, bounded, rfl⟩ := numeral
    exact ⟨canonical_toDigits positive, by rwa [value_toDigits]⟩
  · intro numeral
    obtain ⟨canonical, bounded⟩ := numeral
    refine ⟨value word, ?_, bounded, canonical.toDigits.symm⟩
    exact (Nat.pow_pos (by decide)).trans_le canonical.le_value

end

/-! The language of the pattern. -/

/-- The words of one of the loop's alternatives, without the digits before it: they
leave the bound at a smaller digit. -/
def Under (low : Char) : List Char → List Char → Prop
  | digit :: rest, c :: word =>
    (low ≤ c ∧ c < digit ∧ word.length = rest.length ∧ AllDigits word) ∨
      (c = digit ∧ Under '0' rest word)
  | _, _ => False

section

variable {left before word after bound rest : List Char} {low digit : Char}

theorem reads_choice (above : low < digit) (bounds : AllDigits [low, digit]) :
    (choice low digit).Reads before word after ↔ ∃ c, word = [c] ∧ low ≤ c ∧ c < digit := by
  have lower := digit_bounds (bounds low (by simp))
  have upper := digit_bounds (bounds digit (by simp))
  have strict := lt_iff_toNat.mp above
  unfold choice
  split
  case isTrue next =>
    simp only [Pattern.Reads]
    constructor
    · intro same
      exact ⟨low, same, le_rfl, above⟩
    · intro found
      obtain ⟨c, rfl, least, below⟩ := found
      have code := le_iff_toNat.mp least
      have less := lt_iff_toNat.mp below
      rw [Char.toNat_inj.mp (show c.toNat = low.toNat by omega)]
  case isFalse =>
    have code : (Char.ofNat (digit.toNat - 1)).toNat = digit.toNat - 1 := by
      rw [Char.toNat_ofNat, if_pos (.inl (by omega))]
    simp only [Pattern.Reads]
    refine exists_congr fun c => and_congr_right fun _ => and_congr_right fun _ => ?_
    rw [le_iff_toNat, lt_iff_toNat, code]
    omega

theorem allDigits_zero : AllDigits ['0'] := by
  intro c only
  rw [List.mem_singleton.mp only]
  exact ⟨le_rfl, by decide⟩

theorem reads_rangePattern (above : low < digit) (bounds : AllDigits [low, digit]) {count : ℕ} :
    (Pattern.seq (.literal before) (.seq (choice low digit) (.times anyDigit count))).Reads left word
        after ↔
      ∃ c tail, word = before ++ c :: tail ∧ low ≤ c ∧ c < digit ∧ tail.length = count ∧
        AllDigits tail := by
  constructor
  · intro read
    obtain ⟨head, others, rfl, rfl, first, tail, rfl, chosen, repeated⟩ := read
    obtain ⟨c, rfl, least, below⟩ := (reads_choice above bounds).mp chosen
    obtain ⟨length, all⟩ := Pattern.repeats_range.mp repeated
    exact ⟨c, tail, rfl, least, below, length, all⟩
  · intro read
    obtain ⟨c, tail, rfl, least, below, length, all⟩ := read
    exact ⟨before, c :: tail, rfl, rfl, [c], tail, rfl,
      (reads_choice above bounds).mpr ⟨c, rfl, least, below⟩,
      Pattern.repeats_range.mpr ⟨length, all⟩⟩

theorem reads_rangePatterns (digits : AllDigits rest) (bounds : AllDigits [low]) :
    (∃ pattern ∈ rangePatterns before low rest, pattern.Reads left word after) ↔
      ∃ tail, word = before ++ tail ∧ Under low rest tail := by
  induction rest generalizing before low with
  | nil => simp [rangePatterns, Under]
  | cons digit rest ih =>
    have inner := @ih (before ++ [digit]) '0' digits.tail allDigits_zero
    have here : (∃ pattern ∈ (if low < digit then
          [Pattern.seq (.literal before) (.seq (choice low digit) (.times anyDigit rest.length))]
        else []), pattern.Reads left word after) ↔
        ∃ c tail, word = before ++ c :: tail ∧ low ≤ c ∧ c < digit ∧
          tail.length = rest.length ∧ AllDigits tail := by
      by_cases above : low < digit
      · have both : AllDigits [low, digit] := by
          intro c member
          rcases List.mem_cons.mp member with rfl | member
          · exact bounds c List.mem_cons_self
          · rw [List.mem_singleton.mp member]
            exact digits.head
        simp only [above, if_true, List.mem_singleton, exists_eq_left]
        exact reads_rangePattern above both
      · simp only [above, if_false, List.not_mem_nil, false_and, exists_false, false_iff]
        intro found
        obtain ⟨c, tail, _, least, below, _⟩ := found
        exact above (least.trans_lt below)
    rw [rangePatterns]
    simp only [List.mem_append, or_and_right, exists_or]
    rw [here, inner]
    constructor
    · intro found
      rcases found with ⟨c, tail, rfl, least, below, length, all⟩ | ⟨tail, rfl, under⟩
      · exact ⟨c :: tail, rfl, .inl ⟨least, below, length, all⟩⟩
      · exact ⟨digit :: tail, by simp, .inr ⟨rfl, under⟩⟩
    · intro found
      obtain ⟨tail, rfl, under⟩ := found
      cases tail with
      | nil => exact absurd under id
      | cons c tail =>
        rcases under with ⟨least, below, length, all⟩ | ⟨rfl, under⟩
        · exact .inl ⟨c, tail, rfl, least, below, length, all⟩
        · exact .inr ⟨tail, by simp, under⟩

/-- Words as long as the bound leave it at a smaller digit when they denote less. -/
theorem under_iff (digits : AllDigits rest) (bounds : AllDigits [low])
    (leading : ∀ digit ∈ rest.head?, low ≤ digit) :
    Under low rest word ↔
      word.length = rest.length ∧ AllDigits word ∧ value word < value rest ∧
        ∀ c ∈ word.head?, low ≤ c := by
  induction rest generalizing word low with
  | nil =>
    simp only [Under, false_iff]
    intro below
    obtain ⟨length, _, less, _⟩ := below
    rw [List.length_eq_zero_iff.mp length] at less
    exact absurd less (Nat.lt_irrefl _)
  | cons digit rest ih =>
    cases word with
    | nil =>
      simp only [Under, false_iff]
      intro below
      exact absurd below.1 (by simp)
    | cons c word =>
      have upper := digit_bounds digits.head
      have floor := digit_bounds (bounds low List.mem_cons_self)
      have inner : Under '0' rest word ↔ word.length = rest.length ∧ AllDigits word ∧
          value word < value rest ∧ ∀ c ∈ word.head?, '0' ≤ c :=
        ih digits.tail allDigits_zero fun digit first =>
          (digits.tail digit (List.mem_of_mem_head? first)).1
      have least : low ≤ digit := leading digit rfl
      simp only [Under, inner, List.length_cons, Nat.add_right_cancel_iff, List.head?_cons,
        Option.mem_some_iff, forall_eq', value_cons]
      constructor
      · intro under
        rcases under with ⟨low_le, below, length, all⟩ | ⟨rfl, length, all, less, _⟩
        · have code := lt_iff_toNat.mp below
          have from_low := le_iff_toNat.mp low_le
          refine ⟨length, ?_, ?_, low_le⟩
          · intro other member
            rcases List.mem_cons.mp member with rfl | member
            · exact ⟨le_iff_toNat.mpr (floor.1.trans from_low),
                le_iff_toNat.mpr (code.le.trans upper.2)⟩
            · exact all other member
          · have short := value_lt all
            have step : c.toNat - 48 + 1 ≤ digit.toNat - 48 := by omega
            have scaled := Nat.mul_le_mul_left (10 ^ word.length) step
            rw [mul_add, mul_one] at scaled
            rw [← length]
            omega
        · refine ⟨length, ?_, ?_, least⟩
          · intro other member
            rcases List.mem_cons.mp member with rfl | member
            · exact digits.head
            · exact all other member
          · rw [length]
            omega
      · intro below
        obtain ⟨length, all, less, low_le⟩ := below
        have lower := digit_bounds all.head
        rw [length] at less
        rcases Nat.lt_trichotomy c.toNat digit.toNat with small | same | large
        · exact .inl ⟨low_le, lt_iff_toNat.mpr small, length, all.tail⟩
        · have equal := Char.toNat_inj.mp same
          refine .inr ⟨equal, length, all.tail, ?_, fun first member =>
            (all.tail first (List.mem_of_mem_head? member)).1⟩
          rw [equal] at less
          omega
        · have step : digit.toNat - 48 + 1 ≤ c.toNat - 48 := by omega
          have scaled := Nat.mul_le_mul_left (10 ^ rest.length) step
          have short := value_lt digits.tail
          rw [mul_add, mul_one] at scaled
          omega

theorem reads_shorterPattern :
    (shorterPattern bound).Reads left word after ↔
      ∃ c tail, word = c :: tail ∧ '1' ≤ c ∧ c ≤ '9' ∧ tail.length ≤ bound.length - 2 ∧
        AllDigits tail := by
  constructor
  · intro read
    obtain ⟨head, tail, rfl, ⟨c, rfl, least, most⟩, count, few, repeated⟩ := read
    obtain ⟨length, all⟩ := Pattern.repeats_range.mp repeated
    exact ⟨c, tail, rfl, least, most, length.trans_le few, all⟩
  · intro read
    obtain ⟨c, tail, rfl, least, most, few, all⟩ := read
    exact ⟨[c], tail, rfl, ⟨c, rfl, least, most⟩, tail.length, few,
      Pattern.repeats_range.mpr ⟨rfl, all⟩⟩

/-- The language of the pattern: the canonical numerals up to the bound. -/
theorem reads_positivePattern (canonical : Canonical bound) (long : 2 ≤ bound.length) :
    (positivePattern bound).Reads left word after ↔ Canonical word ∧ value word ≤ value bound := by
  have one : AllDigits ['1'] := by
    intro c only
    rw [List.mem_singleton.mp only]
    exact ⟨by decide, by decide⟩
  have first : ∀ digit ∈ bound.head?, '1' ≤ digit := by
    intro digit member
    obtain ⟨tail, rfl⟩ := List.head?_eq_some_iff.mp member
    have positive := canonical.head_pos
    refine le_iff_toNat.mpr ?_
    have code : '1'.toNat = 49 := rfl
    omega
  have loop : (∃ pattern ∈ rangePatterns [] '1' bound, pattern.Reads left word after) ↔
      word.length = bound.length ∧ AllDigits word ∧ value word < value bound ∧
        ∀ c ∈ word.head?, '1' ≤ c := by
    rw [reads_rangePatterns canonical.digits one]
    simp only [List.nil_append, exists_eq_left', under_iff canonical.digits one first]
  rw [positivePattern, Pattern.reads_anyOf]
  simp only [List.exists_mem_cons_iff, List.mem_append, or_and_right, exists_or, List.mem_singleton,
    exists_eq_left, reads_shorterPattern, loop, Pattern.Reads]
  have large := canonical.le_value
  constructor
  · intro read
    rcases read with ⟨c, tail, rfl, least, most, few, all⟩ | ⟨length, all, less, head⟩ | rfl
    · have digit : '0' ≤ c ∧ c ≤ '9' := ⟨le_trans (by decide) least, most⟩
      have whole : AllDigits (c :: tail) := by
        intro other member
        rcases List.mem_cons.mp member with rfl | member
        · exact digit
        · exact all other member
      refine ⟨⟨List.cons_ne_nil _ _, whole, ?_⟩, ?_⟩
      · intro zero
        rw [Option.some.inj zero] at least
        exact absurd least (by decide)
      · have small := value_lt whole
        have power : 10 ^ (c :: tail).length ≤ 10 ^ (bound.length - 1) :=
          Nat.pow_le_pow_right (by decide) (by rw [List.length_cons]; omega)
        omega
    · refine ⟨⟨?_, all, ?_⟩, less.le⟩
      · intro empty
        rw [empty] at length
        exact absurd length (by simp only [List.length_nil]; omega)
      · intro zero
        exact absurd (head '0' zero) (by decide)
    · exact ⟨canonical, le_rfl⟩
  · intro numeral
    obtain ⟨own, bounded⟩ := numeral
    obtain ⟨c, tail, rfl⟩ := List.exists_cons_of_ne_nil own.nonempty
    have digit := digit_bounds (own.digits c List.mem_cons_self)
    have positive := own.head_pos
    have code : '1'.toNat = 49 := rfl
    have least : '1' ≤ c := le_iff_toNat.mpr (by omega)
    have own_large := own.le_value
    have bound_small := value_lt canonical.digits
    rcases Nat.lt_trichotomy (c :: tail).length bound.length with short | same | longer
    · refine .inl ⟨c, tail, rfl, least, (own.digits c List.mem_cons_self).2, ?_,
        AllDigits.tail own.digits⟩
      rw [List.length_cons] at short
      omega
    · rcases Nat.lt_or_eq_of_le bounded with less | equal
      · refine .inr (.inl ⟨same, own.digits, less, fun first member => ?_⟩)
        cases member
        exact least
      · have numeral := own.toDigits
        rw [equal, canonical.toDigits] at numeral
        exact .inr (.inr numeral.symm)
    · have power : 10 ^ bound.length ≤ 10 ^ ((c :: tail).length - 1) :=
        Nat.pow_le_pow_right (by decide) (by omega)
      omega

end

/-! `Deserialize`: parse the string, and compare it with what the number prints. -/

/-- The digits `from_str` reads, up to the largest magnitude of the type. -/
def parseDigits (limit : ℕ) (digits : List Char) : Option ℕ :=
  if digits ≠ [] ∧ digits.all Char.isDigit ∧ value digits ≤ limit then some (value digits) else none

def parseU64 : List Char → Option ℕ
  | '+' :: digits => parseDigits (2 ^ 64 - 1) digits
  | digits => parseDigits (2 ^ 64 - 1) digits

def parseI64 : List Char → Option ℤ
  | '+' :: digits => (parseDigits (2 ^ 63 - 1) digits).map fun magnitude : ℕ => (magnitude : ℤ)
  | '-' :: digits => (parseDigits (2 ^ 63) digits).map fun magnitude : ℕ => -(magnitude : ℤ)
  | digits => (parseDigits (2 ^ 63 - 1) digits).map fun magnitude : ℕ => (magnitude : ℤ)

def deserializeU64 (encoded : String) : Option ℕ :=
  (parseU64 encoded.toList).filter fun value => toString value = encoded

def deserializeI64 (encoded : String) : Option ℤ :=
  (parseI64 encoded.toList).filter fun value => toString value = encoded

section

variable {limit number : ℕ} {text : String}

theorem toList_toString (number : ℕ) : (toString number).toList = Nat.toDigits 10 number := by
  rw [Nat.toString_eq_ofList_toDigits, String.toList_ofList]

variable {digits : List Char}

theorem parseDigits_eq_some (parsed : parseDigits limit digits = some number) :
    number ≤ limit := by
  unfold parseDigits at parsed
  split at parsed
  case isTrue fits =>
    cases parsed
    exact fits.2.2
  case isFalse => cases parsed

theorem parseDigits_toDigits (bounded : number ≤ limit) :
    parseDigits limit (Nat.toDigits 10 number) = some number := by
  have digits : (Nat.toDigits 10 number).all Char.isDigit = true :=
    List.all_eq_true.mpr fun c member => Nat.isDigit_of_mem_toDigits (by decide) (by decide) member
  rw [parseDigits, value_toDigits, if_pos ⟨Nat.toDigits_ne_nil, digits, bounded⟩]

/-- A numeral starts with no sign. -/
theorem toDigits_unsigned {sign : Char} {rest : List Char} (number : ℕ)
    (unsigned : sign.isDigit = false) : Nat.toDigits 10 number ≠ sign :: rest := by
  intro signed
  have digit : sign.isDigit = true :=
    Nat.isDigit_of_mem_toDigits (by decide) (by decide) (signed ▸ List.mem_cons_self)
  rw [unsigned] at digit
  cases digit

theorem parseU64_le (parsed : parseU64 digits = some number) :
    number ≤ 2 ^ 64 - 1 := by
  unfold parseU64 at parsed
  split at parsed
  · exact parseDigits_eq_some parsed
  · exact parseDigits_eq_some parsed

theorem parseU64_toDigits (bounded : number ≤ 2 ^ 64 - 1) :
    parseU64 (Nat.toDigits 10 number) = some number := by
  unfold parseU64
  split
  case h_1 signed => exact absurd signed (toDigits_unsigned number (by decide))
  case h_2 => exact parseDigits_toDigits bounded

theorem deserializeU64_isSome :
    (deserializeU64 text).isSome ↔ ∃ number ≤ 2 ^ 64 - 1, text.toList = Nat.toDigits 10 number := by
  constructor
  · intro accepted
    obtain ⟨number, read⟩ := Option.isSome_iff_exists.mp accepted
    obtain ⟨parsed, printed⟩ := Option.filter_eq_some_iff.mp read
    refine ⟨number, parseU64_le parsed, ?_⟩
    rw [← decide_eq_true_eq.mp printed, toList_toString]
  · intro numeral
    obtain ⟨number, bounded, same⟩ := numeral
    have printed : toString number = text := by
      rw [← String.toList_inj, toList_toString, same]
    rw [deserializeU64, same, parseU64_toDigits bounded, Option.filter_some,
      if_pos (decide_eq_true printed)]
    rfl

theorem toList_negative (positive : 0 < number) :
    (toString (-(number : ℤ))).toList = '-' :: Nat.toDigits 10 number := by
  obtain ⟨less, rfl⟩ := Nat.exists_eq_add_one_of_ne_zero positive.ne'
  have printed : toString (-((less + 1 : ℕ) : ℤ)) = "-" ++ toString (less + 1) := rfl
  rw [printed, String.toList_append, toList_toString]
  rfl

theorem toList_natural (number : ℕ) :
    (toString (number : ℤ)).toList = Nat.toDigits 10 number :=
  toList_toString number

/-- What the signed parser returns: a magnitude in range with its sign. -/
theorem parseI64_cases {result : ℤ} (parsed : parseI64 digits = some result) :
    (∃ magnitude ≤ 2 ^ 63 - 1, result = (magnitude : ℕ)) ∨
      ∃ magnitude ≤ 2 ^ 63, result = -((magnitude : ℕ) : ℤ) := by
  unfold parseI64 at parsed
  split at parsed
  all_goals obtain ⟨magnitude, read, rfl⟩ := Option.map_eq_some_iff.mp parsed
  · exact .inl ⟨magnitude, parseDigits_eq_some read, rfl⟩
  · exact .inr ⟨magnitude, parseDigits_eq_some read, rfl⟩
  · exact .inl ⟨magnitude, parseDigits_eq_some read, rfl⟩

theorem parseI64_toDigits (bounded : number ≤ 2 ^ 63 - 1) :
    parseI64 (Nat.toDigits 10 number) = some (number : ℤ) := by
  unfold parseI64
  split
  case h_1 signed => exact absurd signed (toDigits_unsigned number (by decide))
  case h_2 signed => exact absurd signed (toDigits_unsigned number (by decide))
  case h_3 => rw [parseDigits_toDigits bounded, Option.map_some]

theorem parseI64_negative (bounded : number ≤ 2 ^ 63) :
    parseI64 ('-' :: Nat.toDigits 10 number) = some (-(number : ℤ)) := by
  simp only [parseI64, parseDigits_toDigits bounded, Option.map_some]

theorem deserializeI64_isSome :
    (deserializeI64 text).isSome ↔
      (∃ number ≤ 2 ^ 63 - 1, text.toList = Nat.toDigits 10 number) ∨
        ∃ number, 1 ≤ number ∧ number ≤ 2 ^ 63 ∧ text.toList = '-' :: Nat.toDigits 10 number := by
  constructor
  · intro accepted
    obtain ⟨result, read⟩ := Option.isSome_iff_exists.mp accepted
    obtain ⟨parsed, printed⟩ := Option.filter_eq_some_iff.mp read
    have same := decide_eq_true_eq.mp printed
    rcases parseI64_cases parsed with ⟨magnitude, bounded, rfl⟩ | ⟨magnitude, bounded, rfl⟩
    · exact .inl ⟨magnitude, bounded, by rw [← same, toList_natural]⟩
    · by_cases zero : magnitude = 0
      · subst zero
        exact .inl ⟨0, Nat.zero_le _, by rw [← same]; rfl⟩
      · have positive := Nat.pos_of_ne_zero zero
        exact .inr ⟨magnitude, positive, bounded, by rw [← same, toList_negative positive]⟩
  · intro numeral
    rcases numeral with ⟨number, bounded, same⟩ | ⟨number, positive, bounded, same⟩
    · have printed : toString (number : ℤ) = text := by
        rw [← String.toList_inj, toList_natural, same]
      rw [deserializeI64, same, parseI64_toDigits bounded, Option.filter_some,
        if_pos (decide_eq_true printed)]
      rfl
    · have printed : toString (-(number : ℤ)) = text := by
        rw [← String.toList_inj, toList_negative positive, same]
      rw [deserializeI64, same, parseI64_negative bounded, Option.filter_some,
        if_pos (decide_eq_true printed)]
      rfl

/-- The words of `0|…` with a positive range. -/
theorem zero_or_positive {word bound : List Char} :
    (word = ['0'] ∨ Canonical word ∧ value word ≤ value bound) ↔
      ∃ number ≤ value bound, word = Nat.toDigits 10 number := by
  rw [← numeral_iff]
  constructor
  · intro read
    rcases read with rfl | ⟨number, _, bounded, same⟩
    · exact ⟨0, Nat.zero_le _, rfl⟩
    · exact ⟨number, bounded, same⟩
  · intro numeral
    obtain ⟨number, bounded, same⟩ := numeral
    by_cases zero : number = 0
    · subst zero
      exact .inl same
    · exact .inr ⟨number, Nat.one_le_iff_ne_zero.mpr zero, bounded, same⟩

theorem wireU64_accepts : wireU64.Accepts text ↔ (deserializeU64 text).isSome := by
  have canonical : Canonical "18446744073709551615".toList :=
    .of_all (by decide) (by decide) (by decide)
  have limit : value "18446744073709551615".toList = 2 ^ 64 - 1 := by decide
  rw [wireU64, whole, Pattern.accepts_whole, deserializeU64_isSome, ← limit, ← zero_or_positive]
  simp only [Pattern.Reads]
  rw [reads_positivePattern canonical (by decide)]

theorem wireI64_accepts : wireI64.Accepts text ↔ (deserializeI64 text).isSome := by
  have upper : Canonical "9223372036854775807".toList :=
    .of_all (by decide) (by decide) (by decide)
  have lower : Canonical "9223372036854775808".toList :=
    .of_all (by decide) (by decide) (by decide)
  have most : value "9223372036854775807".toList = 2 ^ 63 - 1 := by decide
  have least : value "9223372036854775808".toList = 2 ^ 63 := by decide
  have negative : (∃ head tail, text.toList = head ++ tail ∧ head = ['-'] ∧
        Canonical tail ∧ value tail ≤ value "9223372036854775808".toList) ↔
      ∃ number, 1 ≤ number ∧ number ≤ 2 ^ 63 ∧ text.toList = '-' :: Nat.toDigits 10 number := by
    simp only [← numeral_iff, least]
    constructor
    · intro read
      obtain ⟨_, tail, parts, rfl, number, positive, bounded, rfl⟩ := read
      exact ⟨number, positive, bounded, parts⟩
    · intro read
      obtain ⟨number, positive, bounded, parts⟩ := read
      exact ⟨['-'], _, parts, rfl, number, positive, bounded, rfl⟩
  rw [wireI64, whole, Pattern.accepts_whole, deserializeI64_isSome, ← most, ← zero_or_positive,
    ← negative]
  simp only [Pattern.Reads, reads_positivePattern upper (by decide),
    reads_positivePattern lower (by decide)]

end

/-- The expression built from a bound reads exactly the canonical numerals from one to
the bound, and the published patterns take exactly the strings that are deserialized. -/
theorem decimal_patterns_exact :
    (∀ (bound : String), 2 ≤ bound.toList.length → (∀ c ∈ bound.toList, '0' ≤ c ∧ c ≤ '9') →
        bound.toList.head? ≠ some '0' →
        (positivePattern bound.toList).render = positiveRange bound ∧
          ∀ before word after, (positivePattern bound.toList).Reads before word after ↔
            ∃ number, 1 ≤ number ∧ number ≤ value bound.toList ∧
              word = Nat.toDigits 10 number) ∧
      (wireU64.render = wireU64Pattern ∧
        ∀ text, wireU64.Accepts text ↔ (deserializeU64 text).isSome) ∧
      wireI64.render = wireI64Pattern ∧
        ∀ text, wireI64.Accepts text ↔ (deserializeI64 text).isSome := by
  refine ⟨fun bound long digits leading => ?_, ⟨render_wireU64, fun _ => wireU64_accepts⟩,
    render_wireI64, fun _ => wireI64_accepts⟩
  have nonempty : bound.toList ≠ [] := by
    intro empty
    rw [empty] at long
    exact absurd long (by decide)
  refine ⟨render_positivePattern bound, fun before word after => ?_⟩
  rw [reads_positivePattern ⟨nonempty, digits, leading⟩ long, numeral_iff]

end ExomonadHarness.Server
