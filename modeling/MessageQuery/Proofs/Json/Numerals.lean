import MessageQuery.Proofs.Binary64.Shortest
import MessageQuery.Proofs.Json.Reading

/-!
# Numbers read back

Every finite number is written as a numeral, which is read with all its parts. An integer has
neither fraction nor exponent, and is read exactly. A binary64 number always has one of them, so it
is never taken for an integer, and its numeral has the value of its shortest digits.
-/

namespace MessageQuery

open Text

namespace Json.Reader

open Path.Grammar (Stops takeWhile_of_stops)

variable {cs rest tail : List Char}

/-! ## Numerals -/

structure IsDigits (cs : List Char) : Prop where
  ne_nil : cs ≠ []
  all : ∀ c ∈ cs, c.isDigit = true

theorem isDigits_digitsOfNat (n : Nat) : IsDigits (digitsOfNat n) :=
  ⟨digitsOfNat_ne_nil n, digitsOfNat_isDigit n⟩

/-- Digits with or without a sign before them. -/
def IsPower (cs : List Char) : Prop :=
  IsDigits cs ∨ ∃ sign digits, cs = sign :: digits ∧ (sign = '+' ∨ sign = '-') ∧ IsDigits digits

structure Numeral.WellFormed (n : Numeral) : Prop where
  whole : IsDigits n.whole
  leading : ∀ c digits, n.whole ≠ '0' :: c :: digits
  fraction : ∀ digits, n.fraction = some digits → IsDigits digits
  exponent : ∀ power, n.exponent = some power → IsPower power

def continuesNumber (c : Char) : Bool :=
  c.isDigit || c == '.' || c == 'e' || c == 'E'

theorem dropWhile_of_stops {p : Char → Bool} {body : List Char}
    (inside : ∀ c ∈ body, p c = true) (stops : Stops p tail) :
    (body ++ tail).dropWhile p = tail := by
  rw [List.dropWhile_append_of_pos inside]
  cases tail with
  | nil => rfl
  | cons c later => rw [List.dropWhile_cons, stops c rfl]; rfl

theorem digits_eq (isDigits : IsDigits cs) (stops : Stops Char.isDigit rest) :
    digits (cs ++ rest) = .ok (cs, rest) := by
  obtain ⟨c, later, rfl⟩ := List.exists_cons_of_ne_nil isDigits.ne_nil
  have first : c.isDigit = true := isDigits.all c List.mem_cons_self
  have taken := takeWhile_of_stops isDigits.all stops
  have left := dropWhile_of_stops isDigits.all stops
  rw [List.cons_append] at taken left ⊢
  unfold digits
  dsimp only
  rw [if_pos first, taken, left]

theorem wholeDigits_eq (isDigits : IsDigits cs) (leading : ∀ c digits, cs ≠ '0' :: c :: digits)
    (stops : Stops Char.isDigit rest) : wholeDigits (cs ++ rest) = .ok (cs, rest) := by
  unfold wholeDigits
  rw [bind_eq (digits_eq isDigits stops)]
  split
  · next c digits => exact absurd rfl (leading c digits)
  · rfl

/-- The text of a fraction or of an exponent that may be left out. -/
def partText (mark : Char) : Option (List Char) → List Char
  | some digits => mark :: digits
  | none => []

theorem Numeral.text_eq (n : Numeral) :
    n.text = (if n.negative then ['-'] else []) ++ (n.whole ++
      (partText '.' n.fraction ++ partText 'e' n.exponent)) := by
  obtain ⟨negative, whole, fraction, exponent⟩ := n
  unfold Numeral.text
  rw [List.append_assoc, List.append_assoc]
  cases fraction <;> cases exponent <;> rfl

theorem stops_partText {p : Char → Bool} {mark : Char} (outside : p mark = false)
    (stops : Stops p rest) (part : Option (List Char)) : Stops p (partText mark part ++ rest) := by
  cases part with
  | none => exact stops
  | some digits => exact Stops.cons outside

theorem fraction_eq {part : Option (List Char)}
    (isDigits : ∀ digits, part = some digits → IsDigits digits)
    (stops : Stops (fun c => c.isDigit || c == '.') rest) :
    fraction (partText '.' part ++ rest) = .ok (part, rest) := by
  unfold fraction
  rw [bind_eq (peek_eq _)]
  cases part with
  | none =>
      have notPoint : ¬rest.head? = some '.' := by
        intro isPoint
        exact absurd (stops '.' isPoint) (by decide)
      rw [partText, List.nil_append, if_neg notPoint]
      rfl
  | some found =>
      have noDigit : Stops Char.isDigit rest := stops.mono fun c isDigit => by rw [isDigit]; rfl
      rw [partText, List.cons_append, List.head?_cons, if_pos rfl,
        bind_eq (drop_cons '.' _), bind_eq (digits_eq (isDigits found rfl) noDigit)]
      rfl

theorem exponent_eq {part : Option (List Char)}
    (isPower : ∀ power, part = some power → IsPower power)
    (stops : Stops (fun c => c.isDigit || c == 'e' || c == 'E') rest) :
    exponent (partText 'e' part ++ rest) = .ok (part, rest) := by
  have noDigit : Stops Char.isDigit rest := stops.mono fun c isDigit => by rw [isDigit]; rfl
  unfold exponent
  rw [bind_eq (peek_eq _)]
  cases part with
  | none =>
      refine (congrFun (?_ : _ = (pure none : Reader _)) rest).trans rfl
      split
      · next isMark => exact absurd (stops 'e' isMark) (by decide)
      · next isMark => exact absurd (stops 'E' isMark) (by decide)
      · rfl
  | some power =>
      refine (bind_eq (drop_cons 'e' (power ++ rest))).trans ?_
      rw [bind_eq (peek_eq _)]
      rcases isPower power rfl with isDigits | ⟨sign, digits, rfl, isSign, isDigits⟩
      · obtain ⟨c, later, isCons⟩ := List.exists_cons_of_ne_nil isDigits.ne_nil
        have first : c.isDigit = true := isDigits.all c (isCons ▸ List.mem_cons_self)
        have head : (power ++ rest).head? = some c := by rw [isCons]; rfl
        have plain : (do return some (← digits) : Reader _) (power ++ rest) =
            .ok (some power, rest) := by
          rw [bind_eq (digits_eq isDigits noDigit)]
          rfl
        refine (congrFun ?_ (power ++ rest)).trans plain
        rw [head]
        split
        · next isPlus => cases isPlus; cases first
        · next isMinus => cases isMinus; cases first
        · rfl
      · have skips := drop_cons sign (digits ++ rest)
        rcases isSign with rfl | rfl
        · refine (bind_eq skips).trans ?_
          rw [bind_eq (digits_eq isDigits noDigit)]
          rfl
        · refine (bind_eq skips).trans ?_
          rw [bind_eq (digits_eq isDigits noDigit)]
          rfl

/-- A numeral after its sign. -/
theorem unsignedNumeral_eq {n : Numeral} (wellFormed : n.WellFormed)
    (stops : Stops continuesNumber rest) (negative : Bool) :
    (do return ⟨negative, ← wholeDigits, ← fraction, ← exponent⟩ : Reader Numeral)
        (n.whole ++ (partText '.' n.fraction ++ (partText 'e' n.exponent ++ rest))) =
      .ok (⟨negative, n.whole, n.fraction, n.exponent⟩, rest) := by
  have noExponent : Stops (fun c => c.isDigit || c == 'e' || c == 'E') rest := by
    apply stops.mono
    intro c inside
    unfold continuesNumber
    revert inside
    cases c.isDigit <;> cases c == 'e' <;> cases c == 'E' <;> simp
  have noFraction : Stops (fun c => c.isDigit || c == '.') (partText 'e' n.exponent ++ rest) := by
    apply stops_partText (by decide)
    apply stops.mono
    intro c inside
    unfold continuesNumber
    rw [inside]
    rfl
  have noDigit : Stops Char.isDigit
      (partText '.' n.fraction ++ (partText 'e' n.exponent ++ rest)) :=
    stops_partText (by decide) (noFraction.mono fun c isDigit => by rw [isDigit]; rfl) _
  rw [bind_eq (wholeDigits_eq wellFormed.whole wellFormed.leading noDigit),
    bind_eq (fraction_eq wellFormed.fraction noFraction),
    bind_eq (exponent_eq wellFormed.exponent noExponent)]
  rfl

theorem numeral_eq {n : Numeral} (wellFormed : n.WellFormed) (stops : Stops continuesNumber rest) :
    numeral (n.text ++ rest) = .ok (n, rest) := by
  have unsigned := unsignedNumeral_eq wellFormed stops
  rw [n.text_eq, List.append_assoc, List.append_assoc, List.append_assoc]
  unfold numeral
  rw [bind_eq (peek_eq _)]
  cases sign : n.negative with
  | true =>
      refine (bind_eq (drop_cons '-' _)).trans ((unsigned true).trans ?_)
      rw [← sign]
  | false =>
      obtain ⟨c, later, isCons⟩ := List.exists_cons_of_ne_nil wellFormed.whole.ne_nil
      have first : c.isDigit = true := wellFormed.whole.all c (isCons ▸ List.mem_cons_self)
      have notSign : ((if false = true then ['-'] else []) ++ (n.whole ++
          (partText '.' n.fraction ++ (partText 'e' n.exponent ++ rest)))).head? ≠ some '-' := by
        rw [isCons]
        rintro ⟨⟩
        cases first
      rw [if_neg notSign, decide_eq_false notSign]
      refine (unsigned false).trans ?_
      rw [← sign]

/-! ## What numerals denote -/

theorem splitSign_of_digit {c : Char} (digit : c.isDigit = true) :
    splitSign (c :: tail) = (false, c :: tail) := by
  unfold splitSign
  split
  · next isMinus => cases isMinus; cases digit
  · next isPlus => cases isPlus; cases digit
  · rfl

theorem IsDigits.splitSign_append (isDigits : IsDigits cs) :
    splitSign (cs ++ tail) = (false, cs ++ tail) := by
  obtain ⟨c, later, rfl⟩ := List.exists_cons_of_ne_nil isDigits.ne_nil
  exact splitSign_of_digit (isDigits.all c List.mem_cons_self)

theorem IsDigits.intOfDigits?_signed (isDigits : IsDigits cs) {sign : List Char} {negative : Bool}
    (isSign : splitSign (sign ++ cs) = (negative, cs)) :
    intOfDigits? (sign ++ cs) =
      some (if negative then -(natOfDigits cs : Int) else natOfDigits cs) := by
  have notEmpty : cs.isEmpty = false := List.isEmpty_eq_false_iff.mpr isDigits.ne_nil
  have allDigits : cs.all Char.isDigit = true := List.all_eq_true.mpr isDigits.all
  unfold intOfDigits?
  rw [isSign]
  dsimp only
  rw [notEmpty, allDigits]
  cases negative <;> rfl

/-- A power is written with its sign. -/
theorem intOfDigits?_power (place : Int) :
    intOfDigits? ((if place < 0 then '-' else '+') :: digitsOfNat place.natAbs) = some place := by
  have isDigits := isDigits_digitsOfNat place.natAbs
  split
  · have value := @IsDigits.intOfDigits?_signed _ isDigits ['-'] true rfl
    rw [natOfDigits_digitsOfNat, if_pos rfl] at value
    exact value.trans (congrArg some (by omega))
  · have value := @IsDigits.intOfDigits?_signed _ isDigits ['+'] false rfl
    rw [natOfDigits_digitsOfNat, if_neg Bool.false_ne_true] at value
    exact value.trans (congrArg some (by omega))

theorem IsPower.exists_intOfDigits? (isPower : IsPower cs) : ∃ k, intOfDigits? cs = some k := by
  rcases isPower with isDigits | ⟨sign, digits, rfl, rfl | rfl, isDigits⟩
  · exact ⟨_, @IsDigits.intOfDigits?_signed _ isDigits [] false (splitSign_of_digits isDigits.all)⟩
  · exact ⟨_, @IsDigits.intOfDigits?_signed _ isDigits ['+'] false rfl⟩
  · exact ⟨_, @IsDigits.intOfDigits?_signed _ isDigits ['-'] true rfl⟩

/-- The digits of a numeral without its point. -/
def Numeral.coefficient (n : Numeral) : Nat :=
  natOfDigits (n.whole ++ n.fraction.getD [])

/-- The power of ten that scales the digits of a numeral. -/
def Numeral.power (n : Numeral) : Int :=
  (n.exponent.bind intOfDigits?).getD 0 - (n.fraction.getD []).length

variable {n : Numeral}

theorem Numeral.WellFormed.splitSign_text (wellFormed : n.WellFormed) :
    splitSign n.text = (n.negative, n.whole ++
      (partText '.' n.fraction ++ partText 'e' n.exponent)) := by
  rw [n.text_eq]
  cases n.negative with
  | true => rfl
  | false => exact wellFormed.whole.splitSign_append

theorem bounds_of_digit {c : Char} (digit : c.isDigit = true) :
    48 ≤ c.toNat ∧ c.toNat ≤ 57 := by
  simp only [Char.isDigit, Bool.and_eq_true, decide_eq_true_eq] at digit
  exact digit

theorem toLower_of_digit {c : Char} (digit : c.isDigit = true) : c.toLower = c := by
  simp only [Char.isDigit, Bool.and_eq_true, decide_eq_true_eq] at digit
  unfold Char.toLower
  rw [dif_neg]
  intro isUpper
  exact absurd (UInt32.le_trans isUpper.1 digit.2) (by decide)

theorem named?_of_digit {c : Char} (digit : c.isDigit = true) (negative : Bool) :
    Binary64.named? negative (c :: tail) = none := by
  have first : ∀ name, String.ofList ((c :: tail).map Char.toLower) = name →
      name.toList.head? = some c := by
    rintro name rfl
    rw [String.toList_ofList, List.map_cons, toLower_of_digit digit]
    rfl
  unfold Binary64.named?
  split
  · next isName => cases first _ isName; cases digit
  · next isName => cases first _ isName; cases digit
  · next isName => cases first _ isName; cases digit
  · rfl

theorem splitFraction_eq {fraction exponent : Option (List Char)}
    (isDigits : ∀ digits, fraction = some digits → IsDigits digits) :
    Binary64.splitFraction (partText '.' fraction ++ partText 'e' exponent) =
      (fraction.getD [], partText 'e' exponent) := by
  cases fraction with
  | none => cases exponent <;> rfl
  | some digits =>
      have stops : Stops Char.isDigit (partText 'e' exponent) := by
        cases exponent with
        | none => exact Stops.nil
        | some power => exact Stops.cons rfl
      have inside := (isDigits digits rfl).all
      rw [partText, List.cons_append, Binary64.splitFraction, takeWhile_of_stops inside stops,
        dropWhile_of_stops inside stops]
      rfl

theorem exponentOf?_eq {exponent : Option (List Char)}
    (isPower : ∀ power, exponent = some power → IsPower power) :
    Binary64.exponentOf? (partText 'e' exponent) =
      some ((exponent.bind intOfDigits?).getD 0) := by
  cases exponent with
  | none => rfl
  | some power =>
      obtain ⟨k, isPowerOf⟩ := (isPower power rfl).exists_intOfDigits?
      rw [Option.bind_some, isPowerOf]
      exact isPowerOf

/-- The text of a numeral is rounded from its digits and its power of ten. -/
theorem Numeral.WellFormed.parse?_text (wellFormed : n.WellFormed) :
    Binary64.parse? n.text = some (Binary64.ofDecimal n.negative n.coefficient n.power) := by
  have stops : Stops Char.isDigit (partText '.' n.fraction ++ partText 'e' n.exponent) := by
    have last : Stops Char.isDigit (partText 'e' n.exponent ++ []) :=
      stops_partText rfl Stops.nil _
    rw [List.append_nil] at last
    exact stops_partText rfl last _
  obtain ⟨c, later, isCons⟩ := List.exists_cons_of_ne_nil wellFormed.whole.ne_nil
  have digit : c.isDigit = true := wellFormed.whole.all c (isCons ▸ List.mem_cons_self)
  have unnamed : Binary64.named? n.negative
      (n.whole ++ (partText '.' n.fraction ++ partText 'e' n.exponent)) = none := by
    rw [isCons]
    exact named?_of_digit digit _
  have notEmpty : n.whole.isEmpty = false := List.isEmpty_eq_false_iff.mpr wellFormed.whole.ne_nil
  unfold Binary64.parse?
  rw [wellFormed.splitSign_text]
  dsimp only
  rw [unnamed, takeWhile_of_stops wellFormed.whole.all stops,
    dropWhile_of_stops wellFormed.whole.all stops, splitFraction_eq wellFormed.fraction]
  dsimp only
  rw [notEmpty, exponentOf?_eq wellFormed.exponent]
  rfl

/-! ## Numerals as message numbers -/

theorem trim_of_forall (visible : ∀ c ∈ cs, isBlank c = false) : trim cs = cs := by
  have kept : ∀ cs : List Char, (∀ c ∈ cs, isBlank c = false) → trimEnd cs = cs := by
    intro cs visible
    induction cs with
    | nil => rfl
    | cons c later ih =>
        rw [trimEnd, ih fun d member => visible d (List.mem_cons_of_mem _ member)]
        cases later with
        | nil => simp [visible c List.mem_cons_self]
        | cons d later => rfl
  unfold trim
  cases cs with
  | nil => rfl
  | cons c later =>
      rw [List.dropWhile_cons, visible c List.mem_cons_self]
      exact kept _ visible

theorem isBlank_of_digit {c : Char} (digit : c.isDigit = true) : isBlank c = false := by
  have bounds := bounds_of_digit digit
  simp only [isBlank, Bool.or_eq_false_iff, Bool.and_eq_false_iff, decide_eq_false_iff_not,
    beq_eq_false_iff_ne]
  omega

theorem IsPower.visible (isPower : IsPower cs) : ∀ c ∈ cs, isBlank c = false := by
  intro c member
  rcases isPower with isDigits | ⟨sign, digits, rfl, isSign, isDigits⟩
  · exact isBlank_of_digit (isDigits.all c member)
  · rcases List.mem_cons.mp member with rfl | later
    · rcases isSign with rfl | rfl <;> rfl
    · exact isBlank_of_digit (isDigits.all c later)

theorem visible_partText {mark : Char} {part : Option (List Char)} (isMark : isBlank mark = false)
    (visible : ∀ text, part = some text → ∀ c ∈ text, isBlank c = false) :
    ∀ c ∈ partText mark part, isBlank c = false := by
  intro c member
  cases part with
  | none => cases member
  | some text =>
      rcases List.mem_cons.mp member with rfl | later
      · exact isMark
      · exact visible text rfl c later

theorem Numeral.WellFormed.visible (wellFormed : n.WellFormed) :
    ∀ c ∈ n.text, isBlank c = false := by
  intro c member
  rw [n.text_eq] at member
  rcases List.mem_append.mp member with isSign | unsigned
  · split at isSign
    · rw [List.mem_singleton.mp isSign]
      rfl
    · cases isSign
  · rcases List.mem_append.mp unsigned with inWhole | inParts
    · exact isBlank_of_digit (wellFormed.whole.all c inWhole)
    · rcases List.mem_append.mp inParts with inFraction | inExponent
      · exact visible_partText rfl (fun digits isSome c member =>
          isBlank_of_digit ((wellFormed.fraction digits isSome).all c member)) c inFraction
      · exact visible_partText rfl (fun power isSome =>
          (wellFormed.exponent power isSome).visible) c inExponent

/-- A numeral with a fraction or an exponent is no integer. -/
theorem Numeral.WellFormed.intOfDigits?_text (wellFormed : n.WellFormed)
    (isReal : n.fraction.isSome = true ∨ n.exponent.isSome = true) :
    intOfDigits? n.text = none := by
  have mark : ∃ c ∈ n.whole ++ (partText '.' n.fraction ++ partText 'e' n.exponent),
      c.isDigit = false := by
    rcases isReal with isSome | isSome
    · obtain ⟨digits, isFraction⟩ := Option.isSome_iff_exists.mp isSome
      refine ⟨'.', ?_, rfl⟩
      rw [isFraction]
      exact List.mem_append_right _ (List.mem_append_left _ List.mem_cons_self)
    · obtain ⟨power, isExponent⟩ := Option.isSome_iff_exists.mp isSome
      refine ⟨'e', ?_, rfl⟩
      rw [isExponent]
      exact List.mem_append_right _ (List.mem_append_right _ List.mem_cons_self)
  obtain ⟨c, member, notDigit⟩ := mark
  have notAll : (n.whole ++ (partText '.' n.fraction ++ partText 'e' n.exponent)).all
      Char.isDigit = false := by
    rw [List.all_eq_false]
    exact ⟨c, member, by rw [notDigit]; exact Bool.false_ne_true⟩
  unfold intOfDigits?
  rw [wellFormed.splitSign_text]
  dsimp only
  rw [notAll, Bool.not_false, Bool.or_true, if_pos rfl]

theorem Numeral.WellFormed.number?_text (wellFormed : n.WellFormed)
    (isReal : n.fraction.isSome = true ∨ n.exponent.isSome = true) {x : Binary64}
    (rounds : Binary64.ofDecimal n.negative n.coefficient n.power = x)
    (isFinite : x.isFinite = true) : Number.parse? n.text = some (.float x) := by
  unfold Number.parse?
  dsimp only
  rw [trim_of_forall wellFormed.visible, wellFormed.intOfDigits?_text isReal,
    wellFormed.parse?_text, rounds]
  dsimp only
  rw [if_pos isFinite]

/-! ## Integers -/

theorem head?_digitsOfNat_ne {n : Nat} (nonzero : n ≠ 0) : (digitsOfNat n).head? ≠ some '0' := by
  induction n using Nat.strongRecOn with
  | _ n ih =>
      rw [digitsOfNat]
      split
      · next small =>
          intro isZero
          have value := digitValue_digitChar small
          rw [Option.some.inj isZero] at value
          exact nonzero value.symm
      · next large =>
          rw [List.head?_append_of_ne_nil _ (digitsOfNat_ne_nil _)]
          exact ih (n / 10) (by omega) (by omega)

theorem leading_digitsOfNat (n : Nat) (c : Char) (digits : List Char) :
    digitsOfNat n ≠ '0' :: c :: digits := by
  intro isZero
  by_cases nonzero : n = 0
  · subst nonzero
    rw [digitsOfNat] at isZero
    cases isZero
  · apply head?_digitsOfNat_ne nonzero
    rw [isZero]
    rfl

/-- The numeral of an integer. -/
def integerNumeral (v : Int) : Numeral :=
  ⟨decide (v < 0), digitsOfNat v.natAbs, none, none⟩

theorem wellFormed_integerNumeral (v : Int) : (integerNumeral v).WellFormed where
  whole := isDigits_digitsOfNat _
  leading := leading_digitsOfNat _
  fraction := fun _ isSome => by cases isSome
  exponent := fun _ isSome => by cases isSome

theorem digitsOfInt_eq (v : Int) :
    digitsOfInt v = (if v < 0 then ['-'] else []) ++ digitsOfNat v.natAbs := by
  cases v with
  | ofNat n => rfl
  | negSucc n =>
      rw [if_pos (Int.negSucc_lt_zero n)]
      rfl

theorem text_integerNumeral (v : Int) : (integerNumeral v).text = digitsOfInt v := by
  rw [Numeral.text_eq, digitsOfInt_eq]
  simp [integerNumeral, partText]

theorem number?_digitsOfInt (v : Int) : Number.parse? (digitsOfInt v) = some (.ofInt v) := by
  have visible := (wellFormed_integerNumeral v).visible
  rw [text_integerNumeral] at visible
  unfold Number.parse?
  dsimp only
  rw [trim_of_forall visible, intOfDigits_digitsOfInt]

/-! ## Binary64 numbers -/

theorem natOfDigits_append (first second : List Char) :
    natOfDigits (first ++ second) =
      natOfDigits first * 10 ^ second.length + natOfDigits second := by
  induction second using List.reverseRecOn with
  | nil => simp [natOfDigits]
  | append_singleton second c ih =>
      rw [← List.append_assoc, natOfDigits_concat, ih, natOfDigits_concat, List.length_append,
        List.length_singleton, Nat.pow_succ]
      ring

theorem natOfDigits_replicate (count : Nat) : natOfDigits (List.replicate count '0') = 0 := by
  induction count with
  | zero => rfl
  | succ count ih =>
      rw [List.replicate_succ', natOfDigits_concat, ih]
      rfl

theorem isDigits_replicate_append (count : Nat) (isDigits : IsDigits cs) :
    IsDigits (List.replicate count '0' ++ cs) := by
  refine ⟨List.append_ne_nil_of_right_ne_nil _ isDigits.ne_nil, fun c member => ?_⟩
  rcases List.mem_append.mp member with isZero | inDigits
  · rw [List.eq_of_mem_replicate isZero]
    rfl
  · exact isDigits.all c inDigits

/-- A numeral that spells the digits and the power of a decimal, with its last zeros moved. -/
structure Numeral.Spells (n : Numeral) (negative : Bool) (coefficient : Nat) (exponent : Int) :
    Prop where
  wellFormed : n.WellFormed
  isReal : n.fraction.isSome = true ∨ n.exponent.isSome = true
  rounds : Binary64.ofDecimal n.negative n.coefficient n.power =
    Binary64.ofDecimal negative coefficient exponent

section Layouts

variable {coefficient : Nat} {exponent place : Int} (negative : Bool)

/-- The digits follow a point. -/
theorem spells_belowOne (isPlace : place = exponent + (digitsOfNat coefficient).length - 1)
    (isSmall : place < 0) :
    Numeral.Spells ⟨negative, ['0'],
      some (List.replicate (-place - 1).toNat '0' ++ digitsOfNat coefficient), none⟩
      negative coefficient exponent where
  wellFormed := by
    refine ⟨⟨List.cons_ne_nil _ _, by simp⟩, by simp, ?_, by simp⟩
    rintro digits ⟨⟩
    exact isDigits_replicate_append _ (isDigits_digitsOfNat _)
  isReal := .inl rfl
  rounds := by
    congr 1
    · have zeros := natOfDigits_replicate ((-place - 1).toNat + 1)
      unfold Numeral.coefficient
      rw [Option.getD_some, ← List.append_assoc, List.singleton_append, ← List.replicate_succ,
        natOfDigits_append, zeros, natOfDigits_digitsOfNat, Nat.zero_mul, Nat.zero_add]
    · unfold Numeral.power
      rw [Option.getD_some, List.length_append, List.length_replicate]
      dsimp only [Option.bind_none, Option.getD_none]
      omega

/-- The point stands among the digits. -/
theorem spells_among {before : Nat}
    (isBefore : (before : Int) = exponent + (digitsOfNat coefficient).length)
    (positive : 0 < before) (among : before < (digitsOfNat coefficient).length) :
    Numeral.Spells ⟨negative, (digitsOfNat coefficient).take before,
      some ((digitsOfNat coefficient).drop before), none⟩ negative coefficient exponent where
  wellFormed := by
    refine ⟨⟨?_, fun c member => digitsOfNat_isDigit _ c (List.mem_of_mem_take member)⟩, ?_, ?_,
      by simp⟩
    · rw [Ne, List.take_eq_nil_iff, not_or]
      exact ⟨positive.ne', digitsOfNat_ne_nil _⟩
    · intro c digits isZero
      dsimp only at isZero
      have whole := List.take_append_drop before (digitsOfNat coefficient)
      rw [isZero, List.cons_append, List.cons_append] at whole
      exact leading_digitsOfNat _ _ _ whole.symm
    · rintro digits ⟨⟩
      refine ⟨?_, fun c member => digitsOfNat_isDigit _ c (List.mem_of_mem_drop member)⟩
      rw [Ne, List.drop_eq_nil_iff]
      omega
  isReal := .inl rfl
  rounds := by
    congr 1
    · unfold Numeral.coefficient
      rw [Option.getD_some, List.take_append_drop, natOfDigits_digitsOfNat]
    · unfold Numeral.power
      rw [Option.getD_some, List.length_drop]
      dsimp only [Option.bind_none, Option.getD_none]
      omega

/-- The number is whole; its zeros are written out, and one after the point. -/
theorem spells_whole (zero : coefficient = 0 → exponent = 0) (nonneg : 0 ≤ exponent) :
    Numeral.Spells ⟨negative, digitsOfNat coefficient ++ List.replicate exponent.toNat '0',
      some ['0'], none⟩ negative coefficient exponent where
  wellFormed := by
    refine ⟨⟨List.append_ne_nil_of_left_ne_nil (digitsOfNat_ne_nil _) _, fun c member => ?_⟩, ?_,
      ?_, by simp⟩
    · rcases List.mem_append.mp member with inDigits | isZero
      · exact digitsOfNat_isDigit _ c inDigits
      · rw [List.eq_of_mem_replicate isZero]
        rfl
    · intro c digits isZero
      dsimp only at isZero
      by_cases nonzero : coefficient = 0
      · rw [zero nonzero, nonzero, digitsOfNat] at isZero
        cases isZero
      · apply head?_digitsOfNat_ne nonzero
        rw [← List.head?_append_of_ne_nil _ (digitsOfNat_ne_nil coefficient), isZero]
        rfl
    · rintro digits ⟨⟩
      exact ⟨List.cons_ne_nil _ _, by simp⟩
  isReal := .inl rfl
  rounds := by
    have moved := Binary64.ofDecimal_mul_pow negative coefficient (exponent.toNat + 1) exponent
    rw [← moved]
    congr 1
    · have zeros := natOfDigits_replicate (exponent.toNat + 1)
      unfold Numeral.coefficient
      rw [Option.getD_some, List.append_assoc, ← List.replicate_succ', natOfDigits_append, zeros,
        natOfDigits_digitsOfNat, List.length_replicate, Nat.add_zero]
    · unfold Numeral.power
      rw [Option.getD_some]
      dsimp only [Option.bind_none, Option.getD_none, List.length_singleton]
      omega

/-- One digit stands before the point. -/
theorem spells_scientific (isPlace : place = exponent + (digitsOfNat coefficient).length - 1)
    {first : Char} {others : List Char} (isDigits : digitsOfNat coefficient = first :: others) :
    Numeral.Spells ⟨negative, [first], if others = [] then none else some others,
      some ((if place < 0 then '-' else '+') :: digitsOfNat place.natAbs)⟩
      negative coefficient exponent where
  wellFormed := by
    have allDigits := digitsOfNat_isDigit coefficient
    rw [isDigits] at allDigits
    refine ⟨⟨List.cons_ne_nil _ _, ?_⟩, by simp, ?_, ?_⟩
    · intro c member
      rw [List.mem_singleton.mp member]
      exact allDigits first List.mem_cons_self
    · intro digits isSome
      dsimp only at isSome
      split at isSome
      · cases isSome
      · next nonempty =>
          cases isSome
          exact ⟨nonempty, fun c member => allDigits c (List.mem_cons_of_mem _ member)⟩
    · rintro power ⟨⟩
      refine .inr ⟨_, _, rfl, ?_, isDigits_digitsOfNat _⟩
      split
      · exact .inr rfl
      · exact .inl rfl
  isReal := .inr rfl
  rounds := by
    have fraction : (if others = [] then none else some others).getD [] = others := by
      split
      · next empty => exact empty.symm
      · rfl
    congr 1
    · unfold Numeral.coefficient
      rw [fraction, List.singleton_append, ← isDigits, natOfDigits_digitsOfNat]
    · have length : (digitsOfNat coefficient).length = others.length + 1 := by
        rw [isDigits, List.length_cons]
      unfold Numeral.power
      rw [fraction, Option.bind_some, intOfDigits?_power, Option.getD_some]
      omega

end Layouts

theorem exponent_shortest_of_zero {e : Fin 2047} {f : Fin Binary64.fractionRange}
    (zero : (Binary64.shortest .even e f).coefficient = 0) :
    (Binary64.shortest .even e f).exponent = 0 := by
  have rounds := Binary64.ofDecimal_shortest false .even e f
  rw [zero, Binary64.ofDecimal_zero] at rounds
  cases rounds
  have isZero : Binary64.shortest .even 0 0 = ⟨0, 0⟩ := by decide +kernel
  rw [isZero]

/-- A layout writes the digits of a decimal as a numeral that spells it. -/
theorem exists_spells_body {coefficient : Nat} {exponent : Int}
    (zero : coefficient = 0 → exponent = 0) {place : Int}
    (isPlace : place = exponent + (digitsOfNat coefficient).length - 1) (negative : Bool) :
    ∃ n : Numeral, n.Spells negative coefficient exponent ∧
      n.text = (if negative then ['-'] else []) ++
        (if Binary64.jsonLayout.scientific place then
          Binary64.scientific (digitsOfNat coefficient) place
        else Binary64.positional Binary64.jsonLayout (digitsOfNat coefficient) place) := by
  by_cases isScientific : Binary64.jsonLayout.scientific place = true
  · obtain ⟨first, others, isDigits⟩ :=
      List.exists_cons_of_ne_nil (digitsOfNat_ne_nil coefficient)
    refine ⟨_, spells_scientific negative isPlace isDigits, ?_⟩
    rw [Numeral.text_eq, if_pos isScientific, isDigits]
    cases others <;> rfl
  · rw [if_neg isScientific]
    unfold Binary64.positional
    by_cases isSmall : place < 0
    · refine ⟨_, spells_belowOne negative isPlace isSmall, ?_⟩
      rw [Numeral.text_eq, if_pos isSmall]
      simp [partText]
    · rw [if_neg isSmall]
      by_cases among : place.toNat + 1 < (digitsOfNat coefficient).length
      · refine ⟨_, spells_among negative (by omega) (Nat.succ_pos place.toNat) among, ?_⟩
        rw [Numeral.text_eq]
        simp [partText, among]
      · have zeros : place.toNat + 1 - (digitsOfNat coefficient).length = exponent.toNat := by
          omega
        refine ⟨_, spells_whole negative zero (by omega), ?_⟩
        rw [Numeral.text_eq]
        simp [partText, Binary64.jsonLayout, among, zeros]

/-- A finite number is written as a numeral that is read back as the number. -/
theorem exists_numeral_toJson (negative : Bool) (e : Fin 2047) (f : Fin Binary64.fractionRange) :
    ∃ n : Numeral, n.WellFormed ∧ n.text = (Binary64.finite negative e f).toJson ∧
      Number.parse? n.text = some (.float (.finite negative e f)) := by
  obtain ⟨n, spells, isText⟩ :=
    exists_spells_body (@exponent_shortest_of_zero e f) rfl negative
  refine ⟨n, spells.wellFormed, ?_, ?_⟩
  · rw [isText]
    cases negative <;> rfl
  · exact spells.wellFormed.number?_text spells.isReal
      (spells.rounds.trans (Binary64.ofDecimal_shortest negative .even e f)) rfl

end Json.Reader

end MessageQuery
