/-!
# Byte positions

Positions in a text count the bytes of its UTF-8 form. `takeBytes` and `dropBytes` cut at a
position, and `slice` gives the characters between two of them.
-/

namespace MessageQuery.Text

def byteLength : List Char → Nat
  | [] => 0
  | c :: rest => c.utf8Size + byteLength rest

theorem byteLength_append (first second : List Char) :
    byteLength (first ++ second) = byteLength first + byteLength second := by
  induction first with
  | nil => simp [byteLength]
  | cons c rest ih => simp [byteLength, ih, Nat.add_assoc]

theorem byteLength_ne_zero {cs : List Char} (nonempty : cs ≠ []) : byteLength cs ≠ 0 := by
  cases cs with
  | nil => exact absurd rfl nonempty
  | cons c rest =>
      have positive := c.utf8Size_pos
      simp only [byteLength]
      omega

theorem byteLength_take_add_drop (count : Nat) (cs : List Char) :
    byteLength (cs.take count) + byteLength (cs.drop count) = byteLength cs := by
  rw [← byteLength_append, List.take_append_drop]

def dropBytes : Nat → List Char → List Char
  | _, [] => []
  | count, c :: rest => if count = 0 then c :: rest else dropBytes (count - c.utf8Size) rest

theorem dropBytes_byteLength (first second : List Char) :
    dropBytes (byteLength first) (first ++ second) = second := by
  induction first with
  | nil => cases second <;> simp [byteLength, dropBytes]
  | cons c rest ih =>
      have positive := c.utf8Size_pos
      simp [byteLength, dropBytes, ih]
      omega

def takeBytes : Nat → List Char → List Char
  | _, [] => []
  | count, c :: rest => if count = 0 then [] else c :: takeBytes (count - c.utf8Size) rest

theorem takeBytes_byteLength (first second : List Char) :
    takeBytes (byteLength first) (first ++ second) = first := by
  induction first with
  | nil => cases second <;> simp [byteLength, takeBytes]
  | cons c rest ih =>
      have positive := c.utf8Size_pos
      simp [byteLength, takeBytes, ih]
      omega

/-- The characters from byte `start` up to byte `stop`. -/
def slice (start stop : Nat) (cs : List Char) : List Char :=
  takeBytes (stop - start) (dropBytes start cs)

theorem slice_middle (before middle after : List Char) :
    slice (byteLength before) (byteLength before + byteLength middle)
      (before ++ (middle ++ after)) = middle := by
  rw [slice, dropBytes_byteLength, Nat.add_sub_cancel_left, takeBytes_byteLength]

end MessageQuery.Text
