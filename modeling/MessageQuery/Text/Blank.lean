/-!
# Blank characters

The characters with the Unicode property White_Space, and text without the blanks at its ends.
-/

namespace MessageQuery.Text

def isBlank (c : Char) : Bool :=
  let n := c.toNat
  (0x09 ≤ n && n ≤ 0x0D) || n == 0x20 || n == 0x85 || n == 0xA0 || n == 0x1680 ||
    (0x2000 ≤ n && n ≤ 0x200A) || n == 0x2028 || n == 0x2029 || n == 0x202F || n == 0x205F ||
    n == 0x3000

def trimEnd : List Char → List Char
  | [] => []
  | c :: rest =>
      match trimEnd rest with
      | [] => if isBlank c then [] else [c]
      | kept => c :: kept

/-- Removes the blanks at both ends. -/
def trim (cs : List Char) : List Char :=
  trimEnd (cs.dropWhile isBlank)

theorem trimEnd_of_forall_blank {cs : List Char} (blank : ∀ c ∈ cs, isBlank c = true) :
    trimEnd cs = [] := by
  induction cs with
  | nil => rfl
  | cons c rest ih =>
      have head := blank c (by simp)
      have tail := ih fun d member => blank d (by simp [member])
      simp [trimEnd, head, tail]

theorem trimEnd_append {cs blanks : List Char} (blank : ∀ c ∈ blanks, isBlank c = true) :
    trimEnd (cs ++ blanks) = trimEnd cs := by
  induction cs with
  | nil => simpa [trimEnd] using trimEnd_of_forall_blank blank
  | cons c rest ih => simp [trimEnd, ih]

end MessageQuery.Text
