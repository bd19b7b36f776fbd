import Mathlib.Algebra.Group.Nat.Defs
import Mathlib.Data.List.Basic
import MessageQuery.Path.Parser
import MessageQuery.Proofs.Bounds
import MessageQuery.Walk

/-!
# Offsets

An integer names a position of an array, from the front or, if it is negative, from the end. An
index takes the element there, and a slice takes the elements between two positions. Offsets are
held within the signed 64-bit range. Integers beyond it name positions beyond the ends of every
array, so this makes no difference; and nothing that is computed on the way leaves the range.
-/

namespace MessageQuery

open Value (saturated)

/-- The integers that operands give: one that is written, or the one of a variable. -/
inductive Path.Operand.Gives (globals : Globals) : Path.Operand → Int → Prop where
  | written {n : Number} {a : Int} (whole : n.toInt? = some a) :
      Gives globals (.literal (.number n)) a
  | assigned {name : String} {place : Nat} {value : Value} {a : Int}
      (found : globals.get? name = some value) (denotes : value.Denotes a) :
      Gives globals (.reference name place) a

namespace Walk

/-- The position that an integer names in a list of the given length. -/
def position (length : Nat) (a : Int) : Int :=
  if 0 ≤ a then a else length + a

/-- Where a bound of a slice stands; one that is left out stands at the given end. -/
inductive BoundAt (globals : Globals) (length : Nat) (outer : Int) :
    Option Path.Operand → Int → Prop where
  | omitted : BoundAt globals length outer none outer
  | given {operand : Path.Operand} {a : Int} (gives : operand.Gives globals a) :
      BoundAt globals length outer (some operand) (position length a)

/-- The element at a position, if the list has one there. -/
def elementAt? (items : List Value) (place : Int) : Option Value :=
  if 0 ≤ place then items[place.toNat]? else none

/-- The elements at the positions from the first to the last one, in their order. -/
def elementsBetween (items : List Value) (first last : Int) : List Value :=
  (items.zipIdx.filter fun entry => first ≤ entry.2 ∧ entry.2 ≤ last).map Prod.fst

/-! ## Resolved operands -/

variable {globals : Globals} {operand : Path.Operand} {a : Int}

theorem exists_offset_of_gives (gives : operand.Gives globals a) :
    ∃ resolved, globals.offset operand = .ok resolved ∧
      literalOffset? resolved = some (saturated a) := by
  cases gives with
  | written whole => exact ⟨_, rfl, Value.asOffset?_of_toInt? whole⟩
  | assigned found denotes =>
      refine ⟨.literal (.ofInt (saturated a)), ?_, ?_⟩
      · unfold Globals.offset
        dsimp only
        rw [found, Option.bind_some, denotes.asOffset?_eq]
      · have again := Value.asOffset?_of_toInt? (Number.toInt?_ofInt (saturated a))
        rw [Value.saturated_saturated] at again
        exact again

/-- A bound resolves, and the offset that it gives is that of the integer where it stands. -/
theorem exists_boundOffset (default : Int) {length : Nat} {outer place : Int}
    {bound : Option Path.Operand} (stands : BoundAt globals length outer bound place)
    (held : saturated default = default) (isOuter : outer = position length default) :
    ∃ resolved b, globals.strictBound? bound = .ok resolved ∧
      boundOffset? default resolved = some (saturated b) ∧ place = position length b := by
  cases stands with
  | omitted => exact ⟨none, default, rfl, congrArg some held.symm, isOuter⟩
  | @given operand b gives =>
      obtain ⟨resolved, isOffset, literal⟩ := exists_offset_of_gives gives
      exact ⟨some resolved, b, congrArg (Except.map some) isOffset, literal, rfl⟩

/-! ## Elements by position -/

variable {items : List Value}

theorem filter_zipIdx_eq (items : List Value) (start : Nat) (first last : Int) :
    ((items.zipIdx start).filter fun entry => first ≤ entry.2 ∧ entry.2 ≤ last).map Prod.fst =
      (items.take (last - start + 1).toNat).drop (first - start).toNat := by
  induction items generalizing start with
  | nil => simp
  | cons item rest ih =>
      have onward := ih (start + 1)
      rw [List.zipIdx_cons, List.filter_cons]
      by_cases beyond : last < start
      · have noneHere : ¬(first ≤ start ∧ (start : Int) ≤ last) := fun here => by omega
        have noneTaken : (last - start + 1).toNat = 0 := by omega
        have noneLater : (last - (start + 1 : Nat) + 1).toNat = 0 := by omega
        rw [if_neg (by simpa using noneHere), onward, noneTaken, noneLater, List.take_zero,
          List.take_zero, List.drop_nil, List.drop_nil]
      · have taken : (last - start + 1).toNat = (last - (start + 1 : Nat) + 1).toNat + 1 := by
          omega
        rw [taken, List.take_succ_cons]
        by_cases early : first ≤ start
        · have dropped : (first - start).toNat = 0 := by omega
          have later : (first - (start + 1 : Nat)).toNat = 0 := by omega
          have here : first ≤ start ∧ (start : Int) ≤ last := ⟨early, by omega⟩
          rw [if_pos (by simpa using here), List.map_cons, onward, dropped, later, List.drop_zero,
            List.drop_zero]
        · have dropped : (first - start).toNat = (first - (start + 1 : Nat)).toNat + 1 := by omega
          have notHere : ¬(first ≤ start ∧ (start : Int) ≤ last) := fun here => early here.1
          rw [if_neg (by simpa using notHere), onward, dropped, List.drop_succ_cons]

theorem elementsBetween_eq (items : List Value) (first last : Int) :
    elementsBetween items first last = (items.take (last + 1).toNat).drop first.toNat := by
  have all := filter_zipIdx_eq items 0 first last
  rw [Int.natCast_zero, Int.sub_zero, Int.sub_zero] at all
  exact all

theorem sliceItems_eq (items : List Value) (start stop : Int) :
    sliceItems items start stop =
      elementsBetween items (Value.fromEnd items.length start)
        (Value.fromEnd items.length stop) := by
  rw [elementsBetween_eq]
  unfold sliceItems
  dsimp only
  generalize Value.fromEnd items.length start = first
  generalize Value.fromEnd items.length stop = last
  have sameDrop : (max 0 first).toNat = first.toNat := by omega
  split
  · next ordered =>
      rw [sameDrop]
      by_cases inside : last < items.length
      · have sameTake : (min last (items.length - 1)).toNat + 1 = (last + 1).toNat := by omega
        rw [sameTake]
      · rw [List.take_of_length_le (by omega), List.take_of_length_le (by omega)]
  · next crossed =>
      symm
      rw [List.drop_eq_nil_iff, List.length_take]
      omega

/-- Beyond the signed range there is no position of any array. -/
theorem fromEnd_saturated_iff {length : Nat} (fits : length < 2 ^ 63) (a : Int) {place : Int}
    (inside : 0 ≤ place ∧ place < length) :
    (Value.fromEnd length (saturated a) ≤ place ↔ position length a ≤ place) ∧
      (place ≤ Value.fromEnd length (saturated a) ↔ place ≤ position length a) := by
  unfold Value.fromEnd saturated position
  split <;> split <;> omega

theorem elementsBetween_saturated (fits : items.length < 2 ^ 63) (a b : Int) :
    elementsBetween items (Value.fromEnd items.length (saturated a))
        (Value.fromEnd items.length (saturated b)) =
      elementsBetween items (position items.length a) (position items.length b) := by
  unfold elementsBetween
  congr 1
  apply List.filter_congr
  intro entry member
  have inside : 0 ≤ (entry.2 : Int) ∧ (entry.2 : Int) < items.length := by
    have within := List.snd_lt_of_mem_zipIdx member
    omega
  rw [decide_eq_decide]
  exact and_congr (fromEnd_saturated_iff fits a inside).1 (fromEnd_saturated_iff fits b inside).2

theorem elementAt?_saturated (fits : items.length < 2 ^ 63) (a : Int) :
    Value.elementAt? items (saturated a) = elementAt? items (position items.length a) := by
  unfold Value.elementAt? elementAt?
  dsimp only
  by_cases front : position items.length a < 0
  · have beforeFront : Value.fromEnd items.length (saturated a) < 0 := by
      unfold position at front
      unfold Value.fromEnd saturated
      omega
    rw [if_pos beforeFront, if_neg (by omega)]
  · by_cases back : items.length ≤ position items.length a
    · have beyondBack : items.length ≤ Value.fromEnd items.length (saturated a) := by
        unfold position at back
        unfold Value.fromEnd saturated
        omega
      rw [if_neg (by omega), if_pos (by omega), List.getElem?_eq_none (by omega),
        List.getElem?_eq_none (by omega)]
    · have inside : 0 ≤ position items.length a ∧ position items.length a < items.length := by
        omega
      obtain ⟨left, right⟩ := fromEnd_saturated_iff fits a inside
      have below := left.mpr (Int.le_refl _)
      have above := right.mpr (Int.le_refl _)
      rw [Int.le_antisymm below above, if_neg front, if_pos inside.1]

/-! ## Signed words -/

/-- The result of an operation on signed words; none if it overflows. -/
def word? (a : Int) : Option Int :=
  if -0x8000000000000000 ≤ a ∧ a ≤ 0x7FFFFFFFFFFFFFFF then some a else none

/-- The sum is computed only for an offset from the end. -/
def fromEndInWords? (length offset : Int) : Option Int :=
  if offset < 0 then word? (length + offset) else some offset

/-- The part of a list from one position to another; none if it is not inside the list. -/
def cut? (items : List Value) (first last : Nat) : Option (List Value) :=
  if first ≤ last ∧ last < items.length then some ((items.take (last + 1)).drop first) else none

/-- An element by an offset, computed in signed words. -/
def elementInWords? (items : List Value) (offset : Int) : Option (Option Value) := do
  let place ← fromEndInWords? (← word? items.length) offset
  return if place < 0 then none else items[place.toNat]?

/-- A slice by its offsets, computed in signed words. The bounds become positions only if they
are not negative. -/
def sliceInWords? (items : List Value) (start stop : Int) : Option (List Value) := do
  let length ← word? items.length
  if length = 0 then return []
  let first := max (← fromEndInWords? length start) 0
  let last := min (← fromEndInWords? length stop) (← word? (length - 1))
  if first < 0 ∨ last < 0 ∨ last < first then return []
  cut? items first.toNat last.toNat

theorem word?_eq {a : Int} (low : -0x8000000000000000 ≤ a) (high : a ≤ 0x7FFFFFFFFFFFFFFF) :
    word? a = some a :=
  if_pos ⟨low, high⟩

theorem fromEndInWords?_saturated {length : Nat} (fits : length < 2 ^ 63) (a : Int) :
    fromEndInWords? length (saturated a) = some (Value.fromEnd length (saturated a)) := by
  unfold fromEndInWords? Value.fromEnd
  split
  · next negative =>
      have low : -0x8000000000000000 ≤ saturated a := by unfold saturated; omega
      exact word?_eq (by omega) (by omega)
  · rfl

theorem elementInWords?_eq (fits : items.length < 2 ^ 63) (a : Int) :
    elementInWords? items (saturated a) = some (Value.elementAt? items (saturated a)) := by
  unfold elementInWords?
  rw [word?_eq (by omega) (by omega), Option.bind_eq_bind, Option.bind_some,
    fromEndInWords?_saturated fits]
  rfl

theorem sliceInWords?_eq (fits : items.length < 2 ^ 63) (a b : Int) :
    sliceInWords? items (saturated a) (saturated b) =
      some (sliceItems items (saturated a) (saturated b)) := by
  have length : word? items.length = some (items.length : Int) := word?_eq (by omega) (by omega)
  have less : word? ((items.length : Int) - 1) = some ((items.length : Int) - 1) :=
    word?_eq (by omega) (by omega)
  unfold sliceInWords? sliceItems
  simp only [length, less, fromEndInWords?_saturated fits, Option.bind_eq_bind, Option.bind_some]
  generalize Value.fromEnd items.length (saturated a) = first
  generalize Value.fromEnd items.length (saturated b) = last
  rw [Int.max_comm first 0]
  split
  · next empty => rw [if_neg (by omega)]; rfl
  · next nonempty =>
      split
      · next outside => rw [if_neg (by omega)]; rfl
      · next inside =>
          rw [if_pos (by omega)]
          exact if_pos (by omega)

/-- Every offset that an operand has is held within the range of signed words. -/
theorem exists_saturated_of_literalOffset? {offset : Int}
    (literal : literalOffset? operand = some offset) : ∃ a, offset = saturated a := by
  unfold literalOffset? at literal
  split at literal
  · obtain ⟨a, _, held⟩ := Option.map_eq_some_iff.mp literal
    exact ⟨a, held.symm⟩
  · cases literal

theorem exists_saturated_of_boundOffset? {default offset : Int} {bound : Option Path.Operand}
    (held : saturated default = default) (literal : boundOffset? default bound = some offset) :
    ∃ a, offset = saturated a := by
  cases bound with
  | none =>
      cases literal
      exact ⟨_, held.symm⟩
  | some operand => exact exists_saturated_of_literalOffset? literal

/-! ## Indices and slices -/

variable {catalog : Catalog} {place : Place} {context : Context}

theorem step_index (isArray : place.value = .array items)
    (within : elementContext? catalog place.context = some context) {resolved : Path.Operand}
    {offset : Int} (literal : literalOffset? resolved = some offset) :
    step catalog (.index resolved) place =
      (Value.elementAt? items offset).toList.map fun item => ⟨item, context, place.owner?⟩ := by
  unfold step index?
  dsimp only
  rw [within, literal, isArray]
  have same : Value.at? offset (.array items) = Value.elementAt? items offset := rfl
  cases found : Value.elementAt? items offset with
  | none => simp [same, found]
  | some item => simp [same, found]

theorem step_slice (isArray : place.value = .array items)
    (within : elementContext? catalog place.context = some context)
    {start stop : Option Path.Operand} {first last : Int}
    (isStart : boundOffset? 0 start = some first) (isStop : boundOffset? (-1) stop = some last) :
    step catalog (.slice start stop) place =
      (sliceItems items first last).map fun item => ⟨item, context, place.owner?⟩ := by
  unfold step slice
  dsimp only
  rw [within, isStart, isStop, isArray]
  rfl

/-- In an array field or in untyped content, an index gives the element at its position, and a
slice the elements from its first to its last position, for integers of any size. Strict and
lenient resolutions agree on them. Computed in signed words, no operation overflows, and nothing
is taken from outside the array. -/
theorem offsets_exact (isArray : place.value = .array items) (fits : items.length < 2 ^ 63)
    (within : elementContext? catalog place.context = some context) :
    (∀ operand a, operand.Gives globals a →
      globals.strictComponent (.index operand) = .ok (globals.component (.index operand)) ∧
      step catalog (globals.component (.index operand)) place =
        (elementAt? items (position items.length a)).toList.map fun item =>
          ⟨item, context, place.owner?⟩) ∧
    (∀ start stop first last, BoundAt globals items.length 0 start first →
      BoundAt globals items.length (items.length - 1) stop last →
      globals.strictComponent (.slice start stop) = .ok (globals.component (.slice start stop)) ∧
      step catalog (globals.component (.slice start stop)) place =
        (elementsBetween items first last).map fun item => ⟨item, context, place.owner?⟩) ∧
    (∀ operand offset, literalOffset? operand = some offset →
      elementInWords? items offset = some (Value.elementAt? items offset)) ∧
    ∀ start stop first last, boundOffset? 0 start = some first →
      boundOffset? (-1) stop = some last →
      sliceInWords? items first last = some (sliceItems items first last) := by
  refine ⟨fun operand a gives => ?_, fun start stop first last isFirst isLast => ?_,
    fun operand offset literal => ?_, fun start stop first last isFirst isLast => ?_⟩
  · obtain ⟨resolved, isOffset, literal⟩ := exists_offset_of_gives gives
    have strict : globals.strictComponent (.index operand) = .ok (.index resolved) :=
      congrArg (Except.map Path.Component.index) isOffset
    have lenient := Globals.component_of_strictComponent _ _ strict
    refine ⟨strict.trans (congrArg Except.ok lenient), ?_⟩
    rw [← lenient, step_index isArray within literal, elementAt?_saturated fits]
  · obtain ⟨start', a, strictStart, startOffset, rfl⟩ := exists_boundOffset 0 isFirst rfl rfl
    obtain ⟨stop', b, strictStop, stopOffset, rfl⟩ :=
      exists_boundOffset (-1) isLast rfl (by unfold position; omega)
    have strict : globals.strictComponent (.slice start stop) = .ok (.slice start' stop') := by
      unfold Globals.strictComponent
      dsimp only
      rw [strictStart, strictStop]
      rfl
    have lenient := Globals.component_of_strictComponent _ _ strict
    refine ⟨strict.trans (congrArg Except.ok lenient), ?_⟩
    rw [← lenient, step_slice isArray within startOffset stopOffset, sliceItems_eq,
      elementsBetween_saturated fits]
  · obtain ⟨a, rfl⟩ := exists_saturated_of_literalOffset? literal
    exact elementInWords?_eq fits a
  · obtain ⟨a, rfl⟩ := exists_saturated_of_boundOffset? rfl isFirst
    obtain ⟨b, rfl⟩ := exists_saturated_of_boundOffset? rfl isLast
    exact sliceInWords?_eq fits a b

def digitsPlace : Place :=
  ⟨.array [.ofInt 7, .ofInt 8, .ofInt 9], .untyped, none⟩

def spelledGlobals : Globals :=
  .ofList [("n", .string " -2 ")]

/-- An offset far beyond any word. -/
def farBefore : Path.Operand :=
  .literal (.ofInt (-1000000000000000000000))

theorem offsets_exact_digits :
    step .empty (spelledGlobals.component (.index (.reference "n" 3))) digitsPlace =
      [⟨.ofInt 8, .untyped, none⟩] ∧
    step .empty (spelledGlobals.component (.slice (some farBefore) (some (.reference "n" 3))))
      digitsPlace = [⟨.ofInt 7, .untyped, none⟩, ⟨.ofInt 8, .untyped, none⟩] ∧
    sliceInWords? [.ofInt 7, .ofInt 8, .ofInt 9] (-0x8000000000000000) (-1) =
      some [.ofInt 7, .ofInt 8, .ofInt 9] := by
  have spells : Number.parse? " -2 ".toList = some (.int (-2)) := by decide +kernel
  have named : Path.Operand.Gives spelledGlobals (.reference "n" 3) (-2) :=
    .assigned rfl (.text spells rfl)
  have far : Path.Operand.Gives spelledGlobals farBefore (-1000000000000000000000) :=
    .written (Number.toInt?_ofInt _)
  obtain ⟨index, slice, _, words⟩ :=
    @offsets_exact spelledGlobals _ .empty digitsPlace _ rfl (by decide) rfl
  refine ⟨(index _ _ named).2.trans rfl, ?_, ?_⟩
  · exact (slice _ _ _ _ (.given far) (.given named)).2.trans rfl
  · exact (words (some farBefore) none _ _ rfl rfl).trans rfl

end Walk

end MessageQuery
