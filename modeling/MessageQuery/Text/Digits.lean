/-!
# Decimal digits

Natural and whole numbers as decimal text. Writing gives the canonical digits, without leading
zeros; reading accepts any run of digits, and reads back what was written.
-/

namespace MessageQuery.Text

def digitChar (d : Nat) : Char :=
  Char.ofNat (d + 48)

def digitValue (c : Char) : Nat :=
  c.toNat - 48

theorem digitValue_digitChar {d : Nat} (small : d < 10) : digitValue (digitChar d) = d := by
  match d, small with
  | 0, _ | 1, _ | 2, _ | 3, _ | 4, _ | 5, _ | 6, _ | 7, _ | 8, _ | 9, _ => rfl

theorem isDigit_digitChar {d : Nat} (small : d < 10) : (digitChar d).isDigit = true := by
  match d, small with
  | 0, _ | 1, _ | 2, _ | 3, _ | 4, _ | 5, _ | 6, _ | 7, _ | 8, _ | 9, _ => rfl

/-- The number that a run of digits spells; the empty run spells zero. -/
def natOfDigits (cs : List Char) : Nat :=
  cs.foldl (fun value c => 10 * value + digitValue c) 0

theorem natOfDigits_concat (cs : List Char) (c : Char) :
    natOfDigits (cs ++ [c]) = 10 * natOfDigits cs + digitValue c := by
  simp [natOfDigits]

def digitsOfNat (n : Nat) : List Char :=
  if n < 10 then [digitChar n] else digitsOfNat (n / 10) ++ [digitChar (n % 10)]
termination_by n

theorem natOfDigits_digitsOfNat (n : Nat) : natOfDigits (digitsOfNat n) = n := by
  induction n using Nat.strongRecOn with
  | _ n ih =>
      rw [digitsOfNat]
      split
      · next small => simp [natOfDigits, digitValue_digitChar small]
      · next large =>
          rw [natOfDigits_concat, ih (n / 10) (by omega),
            digitValue_digitChar (Nat.mod_lt _ (by omega))]
          omega

theorem digitsOfNat_isDigit (n : Nat) : ∀ c ∈ digitsOfNat n, c.isDigit = true := by
  induction n using Nat.strongRecOn with
  | _ n ih =>
      rw [digitsOfNat]
      split
      · next small => simp [isDigit_digitChar small]
      · next large =>
          intro c member
          rcases List.mem_append.1 member with early | last
          · exact ih (n / 10) (by omega) c early
          · rw [List.mem_singleton.1 last]
            exact isDigit_digitChar (Nat.mod_lt _ (by omega))

theorem digitsOfNat_ne_nil (n : Nat) : digitsOfNat n ≠ [] := by
  rw [digitsOfNat]
  split <;> simp

/-- A minus sign stands only before a negative number. -/
def digitsOfInt : Int → List Char
  | .ofNat n => digitsOfNat n
  | .negSucc n => '-' :: digitsOfNat (n + 1)

/-- A sign, if any, and the rest. -/
def splitSign : List Char → Bool × List Char
  | '-' :: rest => (true, rest)
  | '+' :: rest => (false, rest)
  | cs => (false, cs)

/-- The whole number spelled by an optional sign and at least one digit. -/
def intOfDigits? (cs : List Char) : Option Int :=
  let (negative, digits) := splitSign cs
  if digits.isEmpty || !digits.all Char.isDigit then none
  else if negative then some (-(natOfDigits digits : Int)) else some (natOfDigits digits)

theorem splitSign_of_digits {cs : List Char} (digits : ∀ c ∈ cs, c.isDigit = true) :
    splitSign cs = (false, cs) := by
  match cs with
  | [] => rfl
  | c :: rest =>
      have head := digits c (by simp)
      unfold splitSign
      split
      · next h => simp at h; simp [h.1, Char.isDigit] at head
      · next h => simp at h; simp [h.1, Char.isDigit] at head
      · rfl

theorem all_isDigit_digitsOfNat (n : Nat) : (digitsOfNat n).all Char.isDigit = true :=
  List.all_eq_true.2 (digitsOfNat_isDigit n)

theorem isEmpty_digitsOfNat (n : Nat) : (digitsOfNat n).isEmpty = false := by
  cases written : digitsOfNat n with
  | nil => exact absurd written (digitsOfNat_ne_nil n)
  | cons c rest => rfl

theorem intOfDigits_digitsOfInt (n : Int) : intOfDigits? (digitsOfInt n) = some n := by
  cases n with
  | ofNat n =>
      unfold digitsOfInt intOfDigits?
      rw [splitSign_of_digits (digitsOfNat_isDigit n)]
      simp only [isEmpty_digitsOfNat, all_isDigit_digitsOfNat, natOfDigits_digitsOfNat]
      rfl
  | negSucc n =>
      unfold digitsOfInt intOfDigits? splitSign
      simp only [isEmpty_digitsOfNat, all_isDigit_digitsOfNat, natOfDigits_digitsOfNat]
      rfl

end MessageQuery.Text
