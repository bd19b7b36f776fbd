import Mathlib.Data.Nat.Digits.Defs
import MessageQuery.Proofs.Json.Numerals

/-!
# Integer texts

An integer may be spelled with blanks around it, with a sign and with leading zeros. Every spelling
is read exactly and gives the normal form of the integer, of which there is one, and which all
conversions give. An integer number in whatever form is written as the canonical spelling of its
integer, so what was written is read back in normal form.
-/

namespace MessageQuery

open Json.Reader (IsDigits bounds_of_digit digitsOfInt_eq isBlank_of_digit
  isDigits_digitsOfNat leading_digitsOfNat number?_digitsOfInt trim_of_forall)

namespace Text

/-! ## Spellings -/

/-- What digits stand for by their places. -/
def placeValue (digits : List Char) : Nat :=
  Nat.ofDigits 10 (digits.reverse.map digitValue)

/-- A sign, or none, and its factor. -/
inductive IsSign : List Char → Int → Prop where
  | none : IsSign [] 1
  | plus : IsSign ['+'] 1
  | minus : IsSign ['-'] (-1)

inductive Spells (value : Int) : List Char → Prop where
  | mk {before sign digits after : List Char} {factor : Int}
      (leading : ∀ c ∈ before, isBlank c = true) (isSign : IsSign sign factor)
      (isDigits : IsDigits digits) (trailing : ∀ c ∈ after, isBlank c = true)
      (same : value = factor * placeValue digits) :
      Spells value (before ++ (sign ++ digits ++ after))

/-- The spelling without blanks, without leading zeros, and with a sign only before a negative
number. -/
inductive IsCanonical (value : Int) : List Char → Prop where
  | mk {digits : List Char} (isDigits : IsDigits digits)
      (leading : ∀ c rest, digits ≠ '0' :: c :: rest) (same : placeValue digits = value.natAbs) :
      IsCanonical value ((if value < 0 then ['-'] else []) ++ digits)

variable {value : Int} {text digits sign : List Char} {factor : Int}

theorem natOfDigits_eq_placeValue (digits : List Char) :
    natOfDigits digits = placeValue digits := by
  induction digits using List.reverseRecOn with
  | nil => rfl
  | append_singleton early c ih =>
      rw [natOfDigits_concat, ih, placeValue, placeValue, List.reverse_concat, List.map_cons,
        Nat.ofDigits_cons]
      exact Nat.add_comm _ _

theorem digitChar_digitValue {c : Char} (digit : c.isDigit = true) :
    digitChar (digitValue c) = c := by
  unfold digitChar digitValue
  rw [Nat.sub_add_cancel (bounds_of_digit digit).1, Char.ofNat_toNat]

theorem digitValue_lt {c : Char} (digit : c.isDigit = true) : digitValue c < 10 := by
  have high := (bounds_of_digit digit).2
  unfold digitValue
  omega

/-- Digits without leading zeros are the ones that are written for their number. -/
theorem digitsOfNat_natOfDigits (isDigits : IsDigits digits)
    (leading : ∀ c rest, digits ≠ '0' :: c :: rest) :
    digitsOfNat (natOfDigits digits) = digits := by
  have all := isDigits.all
  have notEmpty := isDigits.ne_nil
  clear isDigits
  induction digits using List.reverseRecOn with
  | nil => exact absurd rfl notEmpty
  | append_singleton early c ih =>
      have last : c.isDigit = true := all c (List.mem_append_right _ List.mem_cons_self)
      have small := digitValue_lt last
      rw [natOfDigits_concat, digitsOfNat]
      by_cases single : early = []
      · subst single
        rw [natOfDigits, List.foldl_nil, Nat.mul_zero, Nat.zero_add, if_pos small,
          digitChar_digitValue last]
        rfl
      · have earlyDigits : digitsOfNat (natOfDigits early) = early := by
          refine ih (fun d rest isZero => ?_)
            (fun d member => all d (List.mem_append_left _ member)) single
          exact leading d (rest ++ [c]) (by rw [isZero]; rfl)
        have nonzero : natOfDigits early ≠ 0 := by
          intro isZero
          rw [isZero] at earlyDigits
          rw [digitsOfNat] at earlyDigits
          exact leading c [] (by rw [← earlyDigits]; rfl)
        rw [if_neg (by omega), show (10 * natOfDigits early + digitValue c) / 10 =
          natOfDigits early by omega, show (10 * natOfDigits early + digitValue c) % 10 =
          digitValue c by omega, earlyDigits, digitChar_digitValue last]

/-- Every integer has one canonical spelling, which is the one that is written. -/
theorem isCanonical_iff : IsCanonical value text ↔ text = digitsOfInt value := by
  rw [digitsOfInt_eq]
  constructor
  · rintro ⟨isDigits, leading, same⟩
    rw [← same, ← natOfDigits_eq_placeValue, digitsOfNat_natOfDigits isDigits leading]
  · rintro rfl
    refine .mk (isDigits_digitsOfNat _) (leading_digitsOfNat _) ?_
    rw [← natOfDigits_eq_placeValue, natOfDigits_digitsOfNat]

/-! ## Reading -/

theorem trim_surrounded {before body after : List Char} (leading : ∀ c ∈ before, isBlank c = true)
    (visible : ∀ c ∈ body, isBlank c = false) (notEmpty : body ≠ [])
    (trailing : ∀ c ∈ after, isBlank c = true) : trim (before ++ (body ++ after)) = body := by
  obtain ⟨c, rest, rfl⟩ := List.exists_cons_of_ne_nil notEmpty
  have first := visible c List.mem_cons_self
  have whole := trim_of_forall visible
  unfold trim at whole ⊢
  rw [List.dropWhile_append_of_pos leading, List.cons_append, List.dropWhile_cons, first]
  rw [List.dropWhile_cons, first] at whole
  exact (trimEnd_append trailing).trans whole

theorem IsSign.visible (isSign : IsSign sign factor) : ∀ c ∈ sign, isBlank c = false := by
  cases isSign with
  | none => exact fun c member => (List.not_mem_nil member).elim
  | plus => exact List.forall_mem_singleton.mpr rfl
  | minus => exact List.forall_mem_singleton.mpr rfl

theorem IsSign.intOfDigits? (isSign : IsSign sign factor) (isDigits : IsDigits digits) :
    intOfDigits? (sign ++ digits) = some (factor * placeValue digits) := by
  rw [← natOfDigits_eq_placeValue]
  cases isSign with
  | none =>
      have plain := @IsDigits.intOfDigits?_signed _ isDigits [] false
        (splitSign_of_digits isDigits.all)
      rw [plain, if_neg Bool.false_ne_true, one_mul]
  | plus =>
      have plain := @IsDigits.intOfDigits?_signed _ isDigits ['+'] false rfl
      rw [plain, if_neg Bool.false_ne_true, one_mul]
  | minus =>
      have negated := @IsDigits.intOfDigits?_signed _ isDigits ['-'] true rfl
      rw [negated, if_pos rfl, neg_one_mul]

/-- Every spelling of an integer is read as that integer. -/
theorem Spells.parse?_eq (spells : Spells value text) :
    Number.parse? text = some (.ofInt value) := by
  obtain @⟨before, sign, digits, after, factor, leading, isSign, isDigits, trailing, rfl⟩ := spells
  have visible : ∀ c ∈ sign ++ digits, isBlank c = false := by
    intro c member
    rcases List.mem_append.mp member with inSign | inDigits
    · exact isSign.visible c inSign
    · exact isBlank_of_digit (isDigits.all c inDigits)
  have notEmpty : sign ++ digits ≠ [] := List.append_ne_nil_of_right_ne_nil _ isDigits.ne_nil
  unfold Number.parse?
  dsimp only
  rw [trim_surrounded leading visible notEmpty trailing, isSign.intOfDigits? isDigits]

end Text

namespace Number

open Text

/-! ## Normal forms -/

/-- The integer in a number of one of the three integer forms. A binary64 number has none of them
even if its value is an integer; it is written with the digits of a binary64 number. -/
inductive Holds : Number → Int → Prop where
  | uint (word : UInt64) : Holds (.uint word) word.toNat
  | int (word : Int64) : Holds (.int word) word.toInt
  | big (whole : Int) : Holds (.big whole) whole

/-- Which form an integer has is settled by its size. -/
structure IsNormal (n : Number) (value : Int) : Prop where
  holds : n.Holds value
  uint : (∃ word, n = .uint word) ↔ 0 ≤ value ∧ value < 2 ^ 64
  int : (∃ word, n = .int word) ↔ -2 ^ 63 ≤ value ∧ value < 0
  big : (∃ whole, n = .big whole) ↔ value < -2 ^ 63 ∨ 2 ^ 64 ≤ value

variable {n m : Number} {value : Int}

theorem Holds.toInt?_eq (holds : n.Holds value) : n.toInt? = some value := by
  cases holds <;> rfl

theorem Holds.toDecimal_eq (holds : n.Holds value) : n.toDecimal = digitsOfInt value := by
  cases holds <;> rfl

/-- The normal form of what a number holds equals the number. -/
theorem Holds.ofInt_equal (holds : n.Holds value) : (ofInt value).equal n = true := by
  unfold equal
  rw [toInt?_ofInt, holds.toInt?_eq]
  exact beq_self_eq_true _

/-- The three ranges of integers and the forms that they are given. -/
theorem ofInt_cases (value : Int) :
    (0 ≤ value ∧ value < 2 ^ 64) ∧ (∃ word, ofInt value = .uint word) ∨
    (-2 ^ 63 ≤ value ∧ value < 0) ∧ (∃ word, ofInt value = .int word) ∨
    (value < -2 ^ 63 ∨ 2 ^ 64 ≤ value) ∧ ofInt value = .big value := by
  unfold ofInt
  by_cases nonneg : 0 ≤ value
  · rw [if_pos nonneg]
    by_cases small : value < 0x10000000000000000
    · rw [if_pos small]
      exact .inl ⟨⟨nonneg, by omega⟩, _, rfl⟩
    · rw [if_neg small]
      exact .inr (.inr ⟨.inr (by omega), rfl⟩)
  · rw [if_neg nonneg]
    by_cases bounded : -0x8000000000000000 ≤ value
    · rw [if_pos bounded]
      exact .inr (.inl ⟨⟨by omega, by omega⟩, _, rfl⟩)
    · rw [if_neg bounded]
      exact .inr (.inr ⟨.inl (by omega), rfl⟩)

theorem holds_of_toInt? (isInt : n.toInt? = some value) (exact : ∀ x, n ≠ .float x) :
    n.Holds value := by
  cases n with
  | uint word => cases isInt; exact .uint word
  | int word => cases isInt; exact .int word
  | big whole => cases isInt; exact .big _
  | float x => exact absurd rfl (exact x)

theorem isNormal_ofInt (value : Int) : (ofInt value).IsNormal value := by
  have isInt := toInt?_ofInt value
  rcases ofInt_cases value with ⟨range, word, form⟩ | ⟨range, word, form⟩ | ⟨range, form⟩
  all_goals
    rw [form] at isInt ⊢
    refine ⟨holds_of_toInt? isInt (fun x isFloat => by cases isFloat), ?_, ?_, ?_⟩ <;>
      simp <;> omega

/-- Two numbers of one form that hold the same integer are one number. -/
theorem IsNormal.eq_ofInt (normal : n.IsNormal value) : n = ofInt value := by
  have isInt := toInt?_ofInt value
  have holds := normal.holds.toInt?_eq
  rcases ofInt_cases value with ⟨range, word, form⟩ | ⟨range, word, form⟩ | ⟨range, form⟩
  · obtain ⟨other, rfl⟩ := normal.uint.mpr range
    rw [form] at isInt ⊢
    have same := Option.some.inj (holds.trans isInt.symm)
    exact congrArg Number.uint (UInt64.toNat_inj.mp (Int.ofNat.inj same))
  · obtain ⟨other, rfl⟩ := normal.int.mpr range
    rw [form] at isInt ⊢
    have same := Option.some.inj (holds.trans isInt.symm)
    exact congrArg Number.int (Int64.toInt_inj.mp same)
  · obtain ⟨other, rfl⟩ := normal.big.mpr range
    rw [form]
    exact congrArg Number.big (Option.some.inj holds)

/-! ## Writing and reading -/

/-- Whatever spells an integer is read as the integer in normal form. An integer has one normal
form, and every conversion of a word, of any width and sign, or of a big integer gives it. An
integer number in any form is written as the one canonical spelling of its integer. That is read as
an equal number, and as the number itself if it is in normal form. So how the text that was read is
written again depends only on the integer that the text spells. -/
theorem integer_text_exact :
    (∀ value text, Spells value text → ∃ n, parse? text = some n ∧ n.IsNormal value) ∧
    (∀ value n m, IsNormal n value → IsNormal m value → n = m) ∧
    ((∀ word : UInt64, (ofUInt64 word).IsNormal word.toNat) ∧
      (∀ word : USize, (ofUInt64 word.toUInt64).IsNormal word.toNat) ∧
      (∀ word : Int64, (ofInt64 word).IsNormal word.toInt) ∧
      (∀ whole : Nat, (ofNat whole).IsNormal whole) ∧
      ∀ whole : Int, (ofInt whole).IsNormal whole) ∧
    (∀ n value, Holds n value →
      (∀ text, IsCanonical value text ↔ text = n.toDecimal) ∧
      ∃ m, parse? n.toDecimal = some m ∧ m.equal n = true ∧ (n.IsNormal value → m = n)) ∧
    ∀ value first second, Spells value first → Spells value second →
      (parse? first).map toDecimal = (parse? second).map toDecimal := by
  refine ⟨?_, ?_, ⟨?_, ?_, ?_, ?_, isNormal_ofInt⟩, ?_, ?_⟩
  · intro value text spells
    exact ⟨_, spells.parse?_eq, isNormal_ofInt value⟩
  · intro value n m normal again
    rw [normal.eq_ofInt, again.eq_ofInt]
  · intro word
    rw [ofUInt64_eq_ofInt]
    exact isNormal_ofInt _
  · intro word
    rw [ofUInt64_eq_ofInt, USize.toNat_toUInt64]
    exact isNormal_ofInt _
  · intro word
    rw [ofInt64_eq_ofInt]
    exact isNormal_ofInt _
  · intro whole
    rw [ofNat_eq_ofInt]
    exact isNormal_ofInt _
  · intro n value holds
    rw [holds.toDecimal_eq]
    exact ⟨fun _ => isCanonical_iff, _, number?_digitsOfInt value, holds.ofInt_equal,
      fun normal => normal.eq_ofInt.symm⟩
  · intro value first second spells again
    rw [spells.parse?_eq, again.parse?_eq]

/-- Minus zero, and seven as a word and as a big integer. -/
theorem integer_text_exact_zero_seven :
    parse? " -00\n".toList = some (.uint 0) ∧
    (Number.big 7).toDecimal = ['7'] ∧ parse? ['7'] = some (.uint 7) ∧
    (Number.uint 7).equal (.big 7) = true := by
  obtain ⟨reads, unique, ⟨words, _⟩, writes, _⟩ := integer_text_exact
  have blank : ∀ c ∈ [' '], isBlank c = true := List.forall_mem_singleton.mpr rfl
  have line : ∀ c ∈ ['\n'], isBlank c = true := List.forall_mem_singleton.mpr rfl
  have zeros : IsDigits ['0', '0'] :=
    ⟨List.cons_ne_nil _ _, List.forall_mem_cons.mpr ⟨rfl, List.forall_mem_singleton.mpr rfl⟩⟩
  have spells : Spells 0 " -00\n".toList := .mk blank .minus zeros line rfl
  obtain ⟨n, isRead, normal⟩ := reads 0 _ spells
  have isZero := unique 0 n (.uint 0) normal (words 0)
  have seven : IsDigits ['7'] := ⟨List.cons_ne_nil _ _, List.forall_mem_singleton.mpr rfl⟩
  have canonical : IsCanonical 7 ['7'] := .mk seven (fun _ _ => by simp) rfl
  obtain ⟨fromBig, other, isReadBack, same, _⟩ := writes (.big 7) 7 (.big 7)
  obtain ⟨fromWord, m, isReadAgain, _, identical⟩ := writes (.uint 7) 7 (.uint 7)
  have bigText := (fromBig _).mp canonical
  have isWord := identical (words 7)
  subst isWord
  rw [← (fromWord _).mp canonical] at isReadAgain
  rw [← bigText, isReadAgain] at isReadBack
  cases isReadBack
  exact ⟨isZero ▸ isRead, bigText.symm, isReadAgain, same⟩

end Number

end MessageQuery
