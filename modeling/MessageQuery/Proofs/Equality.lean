import MessageQuery.Value

/-!
# Equality of values

Equality of numbers compares integers of any form by value and all else as binary64 numbers. It is
transitive, and so is equality of values, though neither is reflexive: NaN differs from itself.
Values that are alike, which means identical or equal, are the same array offset.
-/

namespace MessageQuery

namespace Binary64

theorem equal_finite_iff {s t : Bool} {e f : Fin 2047} {m n : Fin fractionRange} :
    (finite s e m).equal (finite t f n) = true ↔
      e = f ∧ m = n ∧ (s = t ∨ e = 0 ∧ m = 0) := by
  simp [equal, and_assoc]

theorem equal_trans {x y z : Binary64} (first : x.equal y = true) (second : y.equal z = true) :
    x.equal z = true := by
  cases x <;> cases y <;> try cases first
  · cases z <;> try cases second
    rw [eq_of_beq first]
    exact second
  · cases z <;> try cases second
    obtain ⟨rfl, rfl, signs⟩ := equal_finite_iff.mp first
    obtain ⟨rfl, rfl, later⟩ := equal_finite_iff.mp second
    refine equal_finite_iff.mpr ⟨rfl, rfl, ?_⟩
    rcases signs with rfl | zero
    · exact later
    · exact .inr zero

theorem equal_symm {x y : Binary64} (same : x.equal y = true) : y.equal x = true := by
  cases x <;> cases y <;> try cases same
  · rw [eq_of_beq same]
    exact beq_self_eq_true _
  · obtain ⟨rfl, rfl, signs⟩ := equal_finite_iff.mp same
    exact equal_finite_iff.mpr ⟨rfl, rfl, signs.imp_left Eq.symm⟩

theorem equal_self_iff {x : Binary64} : x.equal x = true ↔ x ≠ .nan := by
  cases x with
  | nan => simp [equal]
  | infinite negative => simp [equal]
  | finite negative exponent fraction => simp [equal]

/-- The two zeros are the same integer. -/
theorem toInt?_zero (negative : Bool) : (finite negative 0 0).toInt? = some 0 := by
  have numerator : (ratio 0 0).1 = 0 := by
    unfold ratio
    rw [show mantissa 0 0 = 0 from rfl]
    dsimp only
    split
    · exact Nat.zero_mul _
    · rfl
  unfold toInt?
  simp only [Fin.val_zero, numerator, Nat.zero_mod, Nat.zero_div, if_true]
  cases negative <;> rfl

theorem toInt?_eq_of_equal {x y : Binary64} (same : x.equal y = true) : x.toInt? = y.toInt? := by
  cases x <;> cases y <;> try cases same
  · rfl
  · obtain ⟨rfl, rfl, rfl | ⟨rfl, rfl⟩⟩ := equal_finite_iff.mp same
    · rfl
    · rw [toInt?_zero, toInt?_zero]

end Binary64
namespace Number

/-- Numbers that are equal are one integer, or two binary64 numbers that are equal. -/
theorem equal_iff {a b : Number} :
    a.equal b = true ↔
      (∃ n, a.toInt? = some n ∧ b.toInt? = some n) ∨
        ∃ x y, a = .float x ∧ b = .float y ∧ x.equal y = true := by
  constructor
  · intro same
    unfold equal at same
    split at same
    · next m n first second => exact .inl ⟨m, first, eq_of_beq same ▸ second⟩
    · split at same
      · next _ _ x y _ => exact .inr ⟨x, y, rfl, rfl, same⟩
      · cases same
  · rintro (⟨n, first, second⟩ | ⟨x, y, rfl, rfl, same⟩)
    · unfold equal
      rw [first, second]
      exact beq_self_eq_true n
    · unfold equal
      have whole : (float x).toInt? = (float y).toInt? := Binary64.toInt?_eq_of_equal same
      rw [whole]
      cases (float y).toInt? with
      | none => exact same
      | some n => exact beq_self_eq_true n

theorem toInt?_eq_of_equal {a b : Number} (same : a.equal b = true) : a.toInt? = b.toInt? := by
  rcases equal_iff.mp same with ⟨n, first, second⟩ | ⟨x, y, rfl, rfl, floats⟩
  · rw [first, second]
  · exact Binary64.toInt?_eq_of_equal floats

theorem equal_trans {a b c : Number} (first : a.equal b = true) (second : b.equal c = true) :
    a.equal c = true := by
  have toInt?_ab := toInt?_eq_of_equal first
  have toInt?_bc := toInt?_eq_of_equal second
  rcases equal_iff.mp first with ⟨n, left, right⟩ | ⟨x, y, rfl, rfl, floats⟩
  · exact equal_iff.mpr (.inl ⟨n, left, toInt?_bc ▸ right⟩)
  · rcases equal_iff.mp second with ⟨n, left, right⟩ | ⟨y', z, same, rfl, later⟩
    · exact equal_iff.mpr (.inl ⟨n, toInt?_ab.trans left, right⟩)
    · cases same
      exact equal_iff.mpr (.inr ⟨x, z, rfl, rfl, Binary64.equal_trans floats later⟩)

theorem equal_symm {a b : Number} (same : a.equal b = true) : b.equal a = true := by
  rcases equal_iff.mp same with ⟨n, first, second⟩ | ⟨x, y, rfl, rfl, floats⟩
  · exact equal_iff.mpr (.inl ⟨n, second, first⟩)
  · exact equal_iff.mpr (.inr ⟨y, x, rfl, rfl, Binary64.equal_symm floats⟩)

/-- NaN alone differs from itself. -/
theorem equal_self_iff {n : Number} : n.equal n = true ↔ n ≠ .float .nan := by
  have whole (k : Int) (isInt : n.toInt? = some k) : n.equal n = true :=
    equal_iff.mpr (.inl ⟨k, isInt, isInt⟩)
  cases n with
  | uint k => simp [whole k.toNat rfl]
  | int k => simp [whole k.toInt rfl]
  | big k => simp [whole k rfl]
  | float x =>
      rw [Ne, float.injEq]
      constructor
      · rintro same rfl
        cases same
      · intro isNumber
        exact equal_iff.mpr (.inr ⟨x, x, rfl, rfl, Binary64.equal_self_iff.mpr isNumber⟩)

theorem asOffset?_eq_of_equal {a b : Number} (same : a.equal b = true) :
    a.asOffset? = b.asOffset? := by
  unfold asOffset?
  rw [toInt?_eq_of_equal same]

end Number

namespace Value

mutual

theorem equal_trans : ∀ {a b c : Value}, a.equal b = true → b.equal c = true → a.equal c = true
  | .null, .null, _, _, second => second
  | .bool _, .bool _, _, first, second => eq_of_beq first ▸ second
  | .number _, .number _, .number _, first, second => Number.equal_trans first second
  | .string _, .string _, _, first, second => eq_of_beq first ▸ second
  | .array _, .array _, .array _, first, second => equalItems_trans first second
  | .object _, .object _, .object _, first, second => equalFields_trans first second

theorem equalItems_trans : ∀ {a b c : List Value},
    equalItems a b = true → equalItems b c = true → equalItems a c = true
  | [], [], _, _, second => second
  | _ :: _, _ :: _, _ :: _, first, second => by
      obtain ⟨heads, tails⟩ := (Bool.and_eq_true _ _).mp first
      obtain ⟨laterHeads, laterTails⟩ := (Bool.and_eq_true _ _).mp second
      exact (Bool.and_eq_true _ _).mpr
        ⟨equal_trans heads laterHeads, equalItems_trans tails laterTails⟩

theorem equalFields_trans : ∀ {a b c : List (String × Value)},
    equalFields a b = true → equalFields b c = true → equalFields a c = true
  | [], [], _, _, second => second
  | (_, _) :: _, (_, _) :: _, (_, _) :: _, first, second => by
      unfold equalFields at first second ⊢
      simp only [Bool.and_eq_true, beq_iff_eq] at first second ⊢
      obtain ⟨⟨keys, heads⟩, tails⟩ := first
      obtain ⟨⟨laterKeys, laterHeads⟩, laterTails⟩ := second
      exact ⟨⟨keys.trans laterKeys, equal_trans heads laterHeads⟩,
        equalFields_trans tails laterTails⟩

end

theorem asOffset?_eq_of_equal {a b : Value} (same : a.equal b = true) :
    a.asOffset? = b.asOffset? := by
  cases a <;> cases b <;> try first | rfl | cases same
  · exact Number.asOffset?_eq_of_equal same
  · rw [eq_of_beq same]

theorem sameInstanceEqual_iff {value : Value} :
    value.sameInstanceEqual = true ↔ value ≠ .number (.float .nan) := by
  cases value with
  | number n =>
      rw [Ne, number.injEq]
      exact Number.equal_self_iff
  | _ => simp [sameInstanceEqual]

/-- Values that a change of snapshots does not tell apart. -/
def Alike (first second : Value) : Prop :=
  first = second ∨ first.equal second = true

theorem Alike.trans {a b c : Value} (first : Alike a b) (second : Alike b c) : Alike a c := by
  rcases first with rfl | first
  · exact second
  · rcases second with rfl | second
    · exact .inr first
    · exact .inr (equal_trans first second)

theorem Alike.asOffset?_eq {a b : Value} (alike : Alike a b) : a.asOffset? = b.asOffset? := by
  rcases alike with rfl | same
  · rfl
  · exact asOffset?_eq_of_equal same

end Value

end MessageQuery
