import MessageQuery.Proofs.Binary64.Rounding
import MessageQuery.Proofs.Equality

/-!
# Quantities

A number stands for a quantity: a rational number, or one of the two infinities. NaN stands for
none. Many forms stand for one quantity, but a binary64 number other than zero is the only one of
its quantity. So numbers are equal exactly if they stand for one quantity, and values exactly if
they are the same once each number is replaced by its quantity. What a number is as an integer
depends on its quantity only.
-/

namespace MessageQuery

inductive Quantity where
  | rational (q : ℚ)
  | infinity (negative : Bool)

namespace Binary64

def withSign (negative : Bool) (q : ℚ) : ℚ :=
  if negative then -q else q

/-- What a binary64 number stands for. -/
def quantity? : Binary64 → Option Quantity
  | .nan => none
  | .infinite negative => some (.infinity negative)
  | .finite negative exponent fraction =>
      some (.rational (withSign negative (magnitude exponent fraction)))

/-! ## Finite numbers -/

theorem magnitude_nonneg (exponent fraction : Nat) : 0 ≤ magnitude exponent fraction :=
  mul_nonneg (Nat.cast_nonneg _) (zpow_nonneg zero_le_two _)

theorem magnitude_zero : magnitude 0 0 = 0 := by
  unfold magnitude
  rw [show mantissa 0 0 = 0 from rfl, Nat.cast_zero, zero_mul]

/-- No two pairs of fields have the same magnitude. -/
theorem magnitude_inj {e f : Fin 2047} {m n : Fin fractionRange} :
    magnitude e m = magnitude f n ↔ e = f ∧ m = n := by
  constructor
  · intro same
    have rounded := ofMagnitude_magnitude false e m
    rw [same, ofMagnitude_magnitude] at rounded
    cases rounded
    exact ⟨rfl, rfl⟩
  · rintro ⟨rfl, rfl⟩
    rfl

theorem magnitude_eq_zero_iff {e : Fin 2047} {m : Fin fractionRange} :
    magnitude e m = 0 ↔ e = 0 ∧ m = 0 := by
  have zero : magnitude (0 : Fin 2047) (0 : Fin fractionRange) = 0 := magnitude_zero
  rw [← zero]
  exact magnitude_inj

theorem abs_withSign (negative : Bool) {q : ℚ} (nonneg : 0 ≤ q) : |withSign negative q| = q := by
  cases negative
  · exact abs_of_nonneg nonneg
  · exact (abs_neg q).trans (abs_of_nonneg nonneg)

theorem withSign_eq_iff {s t : Bool} {p q : ℚ} (left : 0 ≤ p) (right : 0 ≤ q) :
    withSign s p = withSign t q ↔ p = q ∧ (s = t ∨ p = 0) := by
  constructor
  · intro same
    obtain rfl : p = q := by rw [← abs_withSign s left, ← abs_withSign t right, same]
    refine ⟨rfl, ?_⟩
    cases s <;> cases t
    · exact .inl rfl
    · exact .inr (self_eq_neg.mp same)
    · exact .inr (neg_eq_self.mp same)
    · exact .inl rfl
  · rintro ⟨rfl, rfl | rfl⟩
    · rfl
    · cases s <;> cases t <;> simp [withSign]

theorem withSign_natCast (negative : Bool) (a : Nat) :
    withSign negative a = (applySign negative a : Int) := by
  cases negative
  · rfl
  · exact (Int.cast_neg _).symm

/-- Equality of binary64 numbers is equality of what they stand for. -/
theorem equal_iff_quantity {x y : Binary64} :
    x.equal y = true ↔ ∃ q, x.quantity? = some q ∧ y.quantity? = some q := by
  cases x <;> cases y
  case finite.finite s e m t f n =>
    rw [equal_finite_iff]
    simp only [quantity?, Option.some.injEq, exists_eq_left', Quantity.rational.injEq]
    rw [eq_comm (a := withSign t _), withSign_eq_iff (magnitude_nonneg _ _) (magnitude_nonneg _ _),
      magnitude_inj, magnitude_eq_zero_iff, and_assoc]
  case infinite.infinite s t =>
    simp only [equal, quantity?, beq_iff_eq, Option.some.injEq, exists_eq_left',
      Quantity.infinity.injEq]
    exact eq_comm
  all_goals
    constructor
    · intro same
      cases same
    · rintro ⟨_, ⟨⟩, ⟨⟩⟩

theorem quantity?_eq_none_iff {x : Binary64} : x.quantity? = none ↔ x = .nan := by
  cases x with
  | nan => exact iff_of_true rfl rfl
  | infinite s => exact iff_of_false nofun nofun
  | finite s e m => exact iff_of_false nofun nofun

theorem toInt?_eq_some_iff {x : Binary64} {k : Int} :
    x.toInt? = some k ↔ x.quantity? = some (.rational k) := by
  cases x with
  | nan => exact iff_of_false nofun nofun
  | infinite s => exact iff_of_false nofun nofun
  | finite s e m =>
      simp only [quantity?, Option.some.injEq, Quantity.rational.injEq]
      constructor
      · intro isInt
        obtain ⟨positive, same⟩ := ratio_spec e m
        unfold toInt? at isInt
        dsimp only at isInt
        generalize (ratio e m).1 = num at same isInt
        generalize (ratio e m).2 = den at same isInt positive
        split at isInt
        · next divides =>
            cases isInt
            have exact : num / den * den = num :=
              Nat.div_mul_cancel (Nat.dvd_of_mod_eq_zero divides)
            have denominator : (den : ℚ) ≠ 0 := by exact_mod_cast positive.ne'
            have whole : (num / den : ℚ) = (num / den : Nat) := by
              rw [div_eq_iff denominator]
              exact_mod_cast exact.symm
            rw [← same, whole, withSign_natCast]
        · cases isInt
      · intro same
        have whole : magnitude e m = k.natAbs := by
          rw [← abs_withSign s (magnitude_nonneg e m), same, Nat.cast_natAbs, Int.cast_abs]
        rw [whole, withSign_natCast] at same
        rw [toInt?_of_magnitude s whole]
        exact congrArg some (Int.cast_injective same)

end Binary64

namespace Number

/-- What a number stands for. -/
def quantity? : Number → Option Quantity
  | .uint n => some (.rational n.toNat)
  | .int n => some (.rational n.toInt)
  | .big n => some (.rational n)
  | .float x => x.quantity?

theorem quantity?_eq_none_iff {n : Number} : n.quantity? = none ↔ n = .float .nan := by
  cases n with
  | float x =>
      rw [float.injEq]
      exact Binary64.quantity?_eq_none_iff
  | uint n => exact iff_of_false nofun nofun
  | int n => exact iff_of_false nofun nofun
  | big n => exact iff_of_false nofun nofun

theorem toInt?_eq_some_iff {n : Number} {k : Int} :
    n.toInt? = some k ↔ n.quantity? = some (.rational k) := by
  cases n with
  | float x => exact Binary64.toInt?_eq_some_iff
  | uint n => simp only [toInt?, quantity?, Option.some.injEq, Quantity.rational.injEq]; norm_cast
  | int n => simp only [toInt?, quantity?, Option.some.injEq, Quantity.rational.injEq, Int.cast_inj]
  | big n => simp only [toInt?, quantity?, Option.some.injEq, Quantity.rational.injEq, Int.cast_inj]

theorem exists_float_of_toInt?_eq_none {n : Number} (fraction : n.toInt? = none) :
    ∃ x, n = .float x := by
  cases n with
  | float x => exact ⟨x, rfl⟩
  | uint n => cases fraction
  | int n => cases fraction
  | big n => cases fraction

/-- Equality of numbers is equality of what they stand for. -/
theorem equal_iff_quantity {a b : Number} :
    a.equal b = true ↔ ∃ q, a.quantity? = some q ∧ b.quantity? = some q := by
  rw [equal_iff]
  constructor
  · rintro (⟨k, first, second⟩ | ⟨x, y, rfl, rfl, same⟩)
    · exact ⟨.rational k, toInt?_eq_some_iff.mp first, toInt?_eq_some_iff.mp second⟩
    · exact Binary64.equal_iff_quantity.mp same
  · rintro ⟨q, first, second⟩
    have sameInt : a.toInt? = b.toInt? := by
      ext k
      rw [toInt?_eq_some_iff, toInt?_eq_some_iff, first, second]
    cases isInt : a.toInt? with
    | some k => exact .inl ⟨k, rfl, sameInt ▸ isInt⟩
    | none =>
        obtain ⟨x, rfl⟩ := exists_float_of_toInt?_eq_none isInt
        obtain ⟨y, rfl⟩ := exists_float_of_toInt?_eq_none (sameInt ▸ isInt)
        exact .inr ⟨x, y, rfl, rfl, Binary64.equal_iff_quantity.mpr ⟨q, first, second⟩⟩

/-! ## Numbers as integers -/

theorem isInteger_iff {n : Number} :
    n.isInteger = true ↔ ∃ k : Int, n.quantity? = some (.rational k) := by
  unfold isInteger
  rw [Option.isSome_iff_exists]
  exact exists_congr fun _ => toInt?_eq_some_iff

theorem asUnsigned?_eq_some_iff {n : Number} {u : Nat} :
    n.asUnsigned? = some u ↔
      n.quantity? = some (.rational u) ∧ u < 0x10000000000000000 := by
  have whole : n.quantity? = some (.rational u) ↔ n.toInt? = some (u : Int) := by
    rw [toInt?_eq_some_iff, Int.cast_natCast]
  rw [whole]
  unfold asUnsigned?
  rw [Option.bind_eq_some_iff]
  constructor
  · rintro ⟨k, isInt, inRange⟩
    split at inRange
    · next bounds =>
        cases inRange
        rw [isInt, Int.toNat_of_nonneg bounds.1]
        exact ⟨rfl, by omega⟩
    · cases inRange
  · rintro ⟨isInt, bound⟩
    exact ⟨u, isInt, if_pos ⟨Int.natCast_nonneg u, by omega⟩⟩

theorem asOffset?_eq_none_iff {n : Number} :
    n.asOffset? = none ↔ ¬∃ k : Int, n.quantity? = some (.rational k) := by
  unfold asOffset?
  rw [Option.map_eq_none_iff, ← isInteger_iff, isInteger]
  cases n.toInt? <;> simp

theorem asOffset?_of_quantity {n : Number} {k : Int} (whole : n.quantity? = some (.rational k)) :
    n.asOffset? = some (max (-0x8000000000000000) (min k 0x7FFFFFFFFFFFFFFF)) := by
  unfold asOffset?
  rw [toInt?_eq_some_iff.mpr whole, Option.map_some]

end Number

/-! ## Values -/

/-- A value with quantities in the place of numbers. -/
inductive Content where
  | null
  | bool (b : Bool)
  | quantity (q : Quantity)
  | string (s : String)
  | array (items : List Content)
  | object (fields : List (String × Content))

namespace Value

mutual

/-- A value that holds NaN has no content. -/
def content? : Value → Option Content
  | .null => some .null
  | .bool b => some (.bool b)
  | .number n => n.quantity?.map .quantity
  | .string s => some (.string s)
  | .array items => (contentItems? items).map .array
  | .object fields => (contentFields? fields).map .object

def contentItems? : List Value → Option (List Content)
  | [] => some []
  | item :: rest => do
      return (← content? item) :: (← contentItems? rest)

def contentFields? : List (String × Value) → Option (List (String × Content))
  | [] => some []
  | (key, field) :: rest => do
      return (key, ← content? field) :: (← contentFields? rest)

end

mutual

/-- The numbers in a value, from left to right. -/
def numbers : Value → List Number
  | .number n => [n]
  | .array items => numbersOfItems items
  | .object fields => numbersOfFields fields
  | .null | .bool _ | .string _ => []

def numbersOfItems : List Value → List Number
  | [] => []
  | item :: rest => item.numbers ++ numbersOfItems rest

def numbersOfFields : List (String × Value) → List Number
  | [] => []
  | (_, field) :: rest => field.numbers ++ numbersOfFields rest

end

theorem contentItems?_cons_eq_some_iff {item : Value} {rest : List Value} {cs : List Content} :
    contentItems? (item :: rest) = some cs ↔
      ∃ c later, item.content? = some c ∧ contentItems? rest = some later ∧ cs = c :: later := by
  simp only [contentItems?, bind, pure, Option.bind_eq_some_iff, Option.some.injEq]
  constructor
  · rintro ⟨c, first, later, others, rfl⟩
    exact ⟨c, later, first, others, rfl⟩
  · rintro ⟨c, later, first, others, rfl⟩
    exact ⟨c, first, later, others, rfl⟩

theorem contentFields?_cons_eq_some_iff {key : String} {field : Value}
    {rest : List (String × Value)} {cs : List (String × Content)} :
    contentFields? ((key, field) :: rest) = some cs ↔
      ∃ c later, field.content? = some c ∧ contentFields? rest = some later ∧
        cs = (key, c) :: later := by
  simp only [contentFields?, bind, pure, Option.bind_eq_some_iff, Option.some.injEq]
  constructor
  · rintro ⟨c, first, later, others, rfl⟩
    exact ⟨c, later, first, others, rfl⟩
  · rintro ⟨c, later, first, others, rfl⟩
    exact ⟨c, first, later, others, rfl⟩

mutual

/-- Values are equal exactly if they have one content. -/
theorem equal_iff_content : ∀ (a b : Value),
    a.equal b = true ↔ ∃ c, a.content? = some c ∧ b.content? = some c
  | .null, b => by cases b <;> simp [equal, content?]
  | .bool s, b => by cases b <;> simp [equal, content?, @eq_comm _ s]
  | .number n, b => by cases b <;> simp [equal, content?, Number.equal_iff_quantity]
  | .string s, b => by cases b <;> simp [equal, content?, @eq_comm _ s]
  | .array items, b => by cases b <;> simp [equal, content?, equalItems_iff_content items]
  | .object fields, b => by cases b <;> simp [equal, content?, equalFields_iff_content fields]

theorem equalItems_iff_content : ∀ (a b : List Value),
    equalItems a b = true ↔ ∃ cs, contentItems? a = some cs ∧ contentItems? b = some cs
  | [], [] => by simp [equalItems, contentItems?]
  | [], b :: bs => by
      simp [equalItems, contentItems?.eq_1, contentItems?_cons_eq_some_iff]
  | a :: as, [] => by
      simp [equalItems, contentItems?.eq_1, contentItems?_cons_eq_some_iff]
  | a :: as, b :: bs => by
      rw [equalItems, Bool.and_eq_true, equal_iff_content a b, equalItems_iff_content as bs]
      simp only [contentItems?_cons_eq_some_iff]
      constructor
      · rintro ⟨⟨c, first, second⟩, later, rest, others⟩
        exact ⟨c :: later, ⟨c, later, first, rest, rfl⟩, c, later, second, others, rfl⟩
      · rintro ⟨cs, ⟨c, later, first, rest, rfl⟩, _, _, second, others, ⟨⟩⟩
        exact ⟨⟨c, first, second⟩, later, rest, others⟩

theorem equalFields_iff_content : ∀ (a b : List (String × Value)),
    equalFields a b = true ↔ ∃ cs, contentFields? a = some cs ∧ contentFields? b = some cs
  | [], [] => by simp [equalFields, contentFields?]
  | [], (_, _) :: _ => by
      simp [equalFields, contentFields?.eq_1, contentFields?_cons_eq_some_iff]
  | (_, _) :: _, [] => by
      simp [equalFields, contentFields?.eq_1, contentFields?_cons_eq_some_iff]
  | (key, a) :: as, (other, b) :: bs => by
      rw [equalFields, Bool.and_eq_true, Bool.and_eq_true, beq_iff_eq, equal_iff_content a b,
        equalFields_iff_content as bs]
      simp only [contentFields?_cons_eq_some_iff]
      constructor
      · rintro ⟨⟨rfl, c, first, second⟩, later, rest, others⟩
        exact ⟨(key, c) :: later, ⟨c, later, first, rest, rfl⟩, c, later, second, others, rfl⟩
      · rintro ⟨cs, ⟨c, later, first, rest, rfl⟩, _, _, second, others, ⟨⟩⟩
        exact ⟨⟨rfl, c, first, second⟩, later, rest, others⟩

end

theorem equal_symm {a b : Value} (same : a.equal b = true) : b.equal a = true := by
  obtain ⟨c, first, second⟩ := (equal_iff_content a b).mp same
  exact (equal_iff_content b a).mpr ⟨c, second, first⟩

/-- Equal values are equal to the same values. -/
theorem equal_congr {a b : Value} (same : a.equal b = true) (other : Value) :
    a.equal other = b.equal other :=
  Bool.eq_iff_iff.mpr ⟨equal_trans (equal_symm same), equal_trans same⟩

mutual

/-- Only NaN has no place in a content. -/
theorem content?_eq_none_iff : ∀ v : Value, v.content? = none ↔ .float .nan ∈ v.numbers
  | .null | .bool _ | .string _ => by simp [content?, numbers]
  | .number n => by
      rw [content?, Option.map_eq_none_iff, Number.quantity?_eq_none_iff, numbers,
        List.mem_singleton, eq_comm]
  | .array items => by simp [content?, numbers, contentItems?_eq_none_iff items]
  | .object fields => by simp [content?, numbers, contentFields?_eq_none_iff fields]

theorem contentItems?_eq_none_iff : ∀ items : List Value,
    contentItems? items = none ↔ .float .nan ∈ numbersOfItems items
  | [] => by simp [contentItems?, numbersOfItems]
  | item :: rest => by
      rw [numbersOfItems, List.mem_append, ← content?_eq_none_iff item,
        ← contentItems?_eq_none_iff rest, contentItems?]
      cases item.content? <;> cases contentItems? rest <;> simp

theorem contentFields?_eq_none_iff : ∀ fields : List (String × Value),
    contentFields? fields = none ↔ .float .nan ∈ numbersOfFields fields
  | [] => by simp [contentFields?, numbersOfFields]
  | (_, field) :: rest => by
      rw [numbersOfFields, List.mem_append, ← content?_eq_none_iff field,
        ← contentFields?_eq_none_iff rest, contentFields?]
      cases field.content? <;> cases contentFields? rest <;> simp

end

end Value

/-- Something is shared by two options of which one is known to be there. -/
theorem exists_eq_some_iff {α : Type} {first second : Option α} (given : first ≠ none) :
    (∃ a, first = some a ∧ second = some a) ↔ first = second := by
  obtain ⟨a, rfl⟩ := Option.ne_none_iff_exists'.mp given
  simp [eq_comm]

/-- Equality of numbers other than NaN is equality of the quantities that they stand for, whatever
their forms are, and so it is an equivalence; the same goes for values without NaN and their
contents. Equal numbers are the same integer, unsigned word and array offset, or none of them. -/
theorem equality_of_quantities :
    (∀ n : Number, n.quantity? = none ↔ n = .float .nan) ∧
    (∀ a b : Number, a ≠ .float .nan → b ≠ .float .nan →
      (a.equal b = true ↔ a.quantity? = b.quantity?)) ∧
    Equivalence (fun a b : { n : Number // n ≠ .float .nan } => a.val.equal b.val = true) ∧
    (∀ v : Value, v.content? = none ↔ .float .nan ∈ v.numbers) ∧
    (∀ v w : Value, .float .nan ∉ v.numbers → .float .nan ∉ w.numbers →
      (v.equal w = true ↔ v.content? = w.content?)) ∧
    Equivalence (fun v w : { v : Value // .float .nan ∉ v.numbers } =>
      v.val.equal w.val = true) ∧
    (∀ a b : Number, a.equal b = true → a.isInteger = b.isInteger ∧
      a.asUnsigned? = b.asUnsigned? ∧ a.asOffset? = b.asOffset?) ∧
    (∀ n : Number, n.isInteger = true ↔ ∃ k : Int, n.quantity? = some (.rational k)) ∧
    (∀ (n : Number) (u : Nat), n.asUnsigned? = some u ↔
      n.quantity? = some (.rational u) ∧ u < 0x10000000000000000) ∧
    (∀ n : Number, n.asOffset? = none ↔ ¬∃ k : Int, n.quantity? = some (.rational k)) ∧
    ∀ (n : Number) (k : Int), n.quantity? = some (.rational k) →
      n.asOffset? = some (max (-0x8000000000000000) (min k 0x7FFFFFFFFFFFFFFF)) := by
  have hasContent : ∀ {v : Value}, .float .nan ∉ v.numbers → v.content? ≠ none :=
    fun noNaN isNone => noNaN ((Value.content?_eq_none_iff _).mp isNone)
  refine ⟨fun _ => Number.quantity?_eq_none_iff, fun a b isNumber _ => ?_, ⟨?_, ?_, ?_⟩,
    Value.content?_eq_none_iff, fun v w noNaN _ => ?_, ⟨?_, ?_, ?_⟩, fun a b same => ?_,
    fun _ => Number.isInteger_iff, fun _ _ => Number.asUnsigned?_eq_some_iff,
    fun _ => Number.asOffset?_eq_none_iff, fun _ _ => Number.asOffset?_of_quantity⟩
  · rw [Number.equal_iff_quantity,
      exists_eq_some_iff (mt Number.quantity?_eq_none_iff.mp isNumber)]
  · exact fun a => Number.equal_self_iff.mpr a.property
  · exact fun same => Number.equal_symm same
  · exact fun first second => Number.equal_trans first second
  · rw [Value.equal_iff_content, exists_eq_some_iff (hasContent noNaN)]
  · intro v
    rw [Value.equal_iff_content, exists_eq_some_iff (hasContent v.property)]
  · exact fun same => Value.equal_symm same
  · exact fun first second => Value.equal_trans first second
  · have whole := Number.toInt?_eq_of_equal same
    unfold Number.isInteger Number.asUnsigned? Number.asOffset?
    rw [whole]
    exact ⟨rfl, rfl, rfl⟩

/-- Two to the power 64 as a binary64 number and as a big integer, and the two zeros. -/
theorem equality_of_quantities_forms :
    (Number.float (.finite false 1087 0)).equal (.big 0x10000000000000000) = true ∧
    (Number.float (.finite true 0 0)).asUnsigned? = some 0 ∧
    (Number.float (.finite false 1087 0)).asOffset? = some 0x7FFFFFFFFFFFFFFF ∧
    Value.equal (.array [.number (.float (.finite true 0 0))]) (.array [.number (.int 0)]) =
      true := by
  obtain ⟨_, numbers, _, _, values, _, _, _, unsigned, _, offsets⟩ := equality_of_quantities
  have large : Binary64.magnitude 1087 0 = (0x10000000000000000 : Int) := by
    norm_num [Binary64.magnitude, Binary64.mantissa, Binary64.scale]
  have isLarge : (Number.float (.finite false 1087 0)).quantity? =
      some (.rational (0x10000000000000000 : Int)) :=
    congrArg (fun q => some (Quantity.rational q)) large
  have isZero : (Number.float (.finite true 0 0)).quantity? = some (.rational (0 : Nat)) :=
    congrArg (fun q => some (Quantity.rational q))
      ((congrArg Neg.neg Binary64.magnitude_zero).trans (by norm_num))
  have wordIsZero : (Number.int 0).quantity? = some (.rational (0 : Nat)) :=
    congrArg (fun q => some (Quantity.rational q)) (Int.cast_zero.trans Nat.cast_zero.symm)
  refine ⟨?_, ?_, offsets _ _ isLarge, ?_⟩
  · exact (numbers (.float (.finite false 1087 0)) (.big _) (by decide) (by decide)).mpr isLarge
  · exact (unsigned _ 0).mpr ⟨isZero, by decide⟩
  · refine (values _ _ ?_ ?_).mpr ?_
    · simp [Value.numbers, Value.numbersOfItems]
    · simp [Value.numbers, Value.numbersOfItems]
    · simp only [Value.content?, Value.contentItems?, isZero, wordIsZero]

end MessageQuery
