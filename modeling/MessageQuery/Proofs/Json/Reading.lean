import Mathlib.Data.List.Forall2
import MessageQuery.Json.Load
import MessageQuery.Json.Writer
import MessageQuery.Proofs.Path.Lexing

/-!
# Reading what was written

A text is read up to what ends it. Inside arrays and objects, and at the end of a document, values
are followed by a comma, a closing bracket or nothing at all, and `Reads` says that a reader gives
its result before any of these. Strings, arrays and objects are read back from their parts.
-/

namespace MessageQuery.Json.Reader

open Path.Grammar (Stops)

variable {α β σ : Type} {rest tail : List Char} {c : Char}

theorem bind_eq {reader : Reader α} {next : α → Reader β} {cs : List Char} {result : α}
    (reads : reader cs = .ok (result, rest)) : (reader >>= next) cs = next result rest := by
  change Except.bind (reader cs) _ = _
  rw [reads]
  rfl

theorem get_eq (cs : List Char) : (get : Reader (List Char)) cs = .ok (cs, cs) := rfl

theorem peek_eq (cs : List Char) : peek cs = .ok (cs.head?, cs) := rfl

theorem drop_cons (c : Char) (tail : List Char) : drop (c :: tail) = .ok ((), tail) := rfl

theorem char_cons (c : Char) (tail : List Char) : char (c :: tail) = .ok (c, tail) := rfl

def isDelimiter (c : Char) : Bool :=
  c == ',' || c == ']' || c == '}'

/-- What may follow a value. -/
def Ends (rest : List Char) : Prop :=
  Stops (fun c => !isDelimiter c) rest

theorem Ends.stops {p : Char → Bool} (ends : Ends rest)
    (outside : p ',' = false ∧ p ']' = false ∧ p '}' = false) : Stops p rest := by
  apply ends.mono
  intro c inside
  cases isDelim : isDelimiter c with
  | false => rfl
  | true =>
      simp only [isDelimiter, Bool.or_eq_true, beq_iff_eq] at isDelim
      rcases isDelim with (rfl | rfl) | rfl
      · rw [outside.1] at inside
        cases inside
      · rw [outside.2.1] at inside
        cases inside
      · rw [outside.2.2] at inside
        cases inside

theorem Ends.cons (isDelim : isDelimiter c = true) : Ends (c :: tail) :=
  Stops.cons (by rw [isDelim]; rfl)

/-- The reader takes the text, and gives the result, before everything that ends a value. -/
def Reads (reader : Reader α) (cs : List Char) (result : α) : Prop :=
  ∀ rest, Ends rest → reader (cs ++ rest) = .ok (result, rest)

/-! ## Tokens and words -/

theorem token_eq (visible : isSpace c = false) : token (c :: tail) = .ok (c, c :: tail) := by
  have kept : (c :: tail).dropWhile isSpace = c :: tail := by
    rw [List.dropWhile_cons, visible]
    rfl
  have peeks : peekToken (c :: tail) = .ok (some c, c :: tail) := by
    unfold peekToken
    rw [kept]
    rfl
  unfold token
  rw [bind_eq peeks]
  rfl

theorem word_eq (letters rest : List Char) : word letters (letters ++ rest) = .ok ((), rest) := by
  induction letters with
  | nil => rfl
  | cons letter letters ih =>
      rw [List.cons_append, word]
      exact (if_pos rfl).trans ih

/-- A word whose first letter was looked at before. -/
theorem dropWord_eq (result : α) (c : Char) (letters rest : List Char) :
    (do
      drop
      word letters
      return result : Reader α) (c :: (letters ++ rest)) = .ok (result, rest) := by
  rw [bind_eq (drop_cons c _), bind_eq (word_eq letters rest)]
  rfl

theorem colon_eq : colon (':' :: tail) = .ok ((), tail) := by
  unfold colon
  rw [bind_eq (token_eq rfl)]
  rfl

/-! ## Strings -/

theorem escape_of_simple {d : Char} (simple : simpleEscape? c = some d) (notUnit : c ≠ 'u') :
    escape (c :: tail) = .ok (d, tail) := by
  unfold escape
  rw [bind_eq (char_cons c tail), if_neg notUnit, simple]
  rfl

/-- Two hexadecimal digits after two zeros. -/
theorem hexUnit_eq {high low : Nat} (isHigh : high < 16) (isLow : low < 16) :
    hexUnit ('0' :: '0' :: Text.hexDigit high :: Text.hexDigit low :: tail) =
      .ok (16 * high + low, tail) := by
  have long : ¬Text.byteLength ['0', '0', Text.hexDigit high, Text.hexDigit low] < 4 := by
    have first := (Text.hexDigit high).utf8Size_pos
    have second := (Text.hexDigit low).utf8Size_pos
    have zero : '0'.utf8Size = 1 := rfl
    simp only [Text.byteLength, zero]
    omega
  have zero : Text.hexValue? '0' = some 0 := rfl
  have values : ['0', '0', Text.hexDigit high, Text.hexDigit low].mapM Text.hexValue? =
      some [0, 0, high, low] := by
    simp [List.mapM_cons, zero, Text.hexValue?_hexDigit isHigh, Text.hexValue?_hexDigit isLow]
  have value : Text.natOfBase 16 [0, 0, high, low] = 16 * high + low := by
    simp [Text.natOfBase]
  unfold hexUnit
  simp only [List.take_succ_cons, List.take_zero, List.drop_succ_cons, List.drop_zero]
  rw [if_neg long, values]
  dsimp only
  rw [value]

theorem escape_of_control (control : c.toNat < 0x20) :
    escape ('u' :: '0' :: '0' :: Text.hexDigit (c.toNat / 16) :: Text.hexDigit (c.toNat % 16) ::
      tail) = .ok (c, tail) := by
  unfold escape unicodeEscape
  rw [bind_eq (char_cons 'u' _), if_pos rfl, bind_eq (hexUnit_eq (by omega) (by omega)),
    Nat.div_add_mod, if_neg (by omega), if_pos (by omega), Char.ofNat_toNat]
  rfl

theorem length_le_length_flatMap {f : α → List β} (items : List α)
    (nonempty : ∀ item, f item ≠ []) : items.length ≤ (items.flatMap f).length := by
  induction items with
  | nil => exact Nat.zero_le _
  | cons item rest ih =>
      have positive := List.length_pos_iff.mpr (nonempty item)
      rw [List.flatMap_cons, List.length_append, List.length_cons]
      omega

/-- A character is written as an escape that is read back, or as it is. -/
theorem escapedChar_cases (c : Char) :
    (∃ escaped, escapedChar c = '\\' :: escaped ∧
      ∀ tail, escape (escaped ++ tail) = .ok (c, tail)) ∨
    escapedChar c = [c] ∧ c ≠ '"' ∧ c ≠ '\\' ∧ ¬c.toNat < 0x20 := by
  unfold escapedChar
  iterate 7
    split
    · next same =>
        subst same
        exact .inl ⟨_, rfl, fun _ => escape_of_simple rfl (by decide)⟩
  split
  · next control => exact .inl ⟨_, rfl, fun _ => escape_of_control control⟩
  · next notQuote notBackslash _ _ _ _ _ visible =>
      exact .inr ⟨rfl, notQuote, notBackslash, visible⟩

theorem escapedChar_ne_nil (c : Char) : escapedChar c ≠ [] := by
  rcases escapedChar_cases c with ⟨escaped, isEscaped, _⟩ | ⟨isPlain, _⟩
  · rw [isEscaped]
    exact List.cons_ne_nil _ _
  · rw [isPlain]
    exact List.cons_ne_nil _ _

theorem stringChars_eq (cs rest : List Char) {fuel : Nat} (enough : cs.length < fuel) :
    stringChars escape fuel (cs.flatMap escapedChar ++ '"' :: rest) = .ok (cs, rest) := by
  induction cs generalizing fuel with
  | nil =>
      cases fuel with
      | zero => cases enough
      | succ fuel => rfl
  | cons c later ih =>
      cases fuel with
      | zero => cases enough
      | succ fuel =>
          have onward := ih (Nat.lt_of_succ_lt_succ enough)
          rw [List.flatMap_cons, List.append_assoc]
          unfold stringChars
          rcases escapedChar_cases c with ⟨escaped, isEscaped, reads⟩ | ⟨isPlain, visible⟩
          · rw [isEscaped, List.cons_append, bind_eq (char_cons '\\' _), if_neg (by decide),
              if_pos rfl, bind_eq (reads _), bind_eq onward]
            rfl
          · rw [isPlain, List.singleton_append, bind_eq (char_cons c _), if_neg visible.1,
              if_neg visible.2.1, if_neg visible.2.2, bind_eq onward]
            rfl

theorem string_eq (s : String) (rest : List Char) :
    string (writeString s ++ rest) = .ok (s, rest) := by
  have written : writeString s ++ rest = '"' :: (s.toList.flatMap escapedChar ++ '"' :: rest) := by
    simp [writeString]
  have enough : s.toList.length < (s.toList.flatMap escapedChar ++ '"' :: rest).length + 1 := by
    have shorter := length_le_length_flatMap s.toList escapedChar_ne_nil
    rw [List.length_append]
    omega
  unfold string
  rw [written, bind_eq (drop_cons '"' _), bind_eq (get_eq _),
    bind_eq (stringChars_eq s.toList rest enough)]
  exact congrArg (fun s => Except.ok (s, rest)) String.ofList_toList

/-! ## Arrays -/

/-- Texts with a comma before each of them. -/
def afterCommas (texts : List (List Char)) : List Char :=
  texts.flatMap fun text => ',' :: text

theorem afterCommas_cons (text : List Char) (texts : List (List Char)) :
    afterCommas (text :: texts) = ',' :: (text ++ afterCommas texts) := rfl

theorem length_le_afterCommas (texts : List (List Char)) :
    texts.length ≤ (afterCommas texts).length :=
  length_le_length_flatMap texts fun text => List.cons_ne_nil ',' text

theorem separated_cons (head : List Char) (texts : List (List Char)) :
    separated (head :: texts) = head ++ afterCommas texts := by
  induction texts generalizing head with
  | nil => exact (List.append_nil head).symm
  | cons next texts ih => rw [separated, ih, afterCommas_cons]

/-- The text of an element does not start with a space or with the end of the array. -/
def StartsElement (cs : List Char) : Prop :=
  ∃ c tail, cs = c :: tail ∧ isSpace c = false ∧ c ≠ ']'

theorem hasElement_end (first : Bool) :
    hasElement first (']' :: tail) = .ok (false, ']' :: tail) := by
  unfold hasElement
  rw [bind_eq (token_eq rfl)]
  rfl

theorem hasElement_first {cs : List Char} (starts : StartsElement cs) :
    hasElement true (cs ++ tail) = .ok (true, cs ++ tail) := by
  obtain ⟨c, later, rfl, visible, notEnd⟩ := starts
  unfold hasElement
  rw [List.cons_append, bind_eq (token_eq visible), if_neg notEnd]
  rfl

theorem hasElement_next {cs : List Char} (starts : StartsElement cs) :
    hasElement false (',' :: (cs ++ tail)) = .ok (true, cs ++ tail) := by
  obtain ⟨c, later, rfl, visible, notEnd⟩ := starts
  unfold hasElement
  rw [bind_eq (token_eq rfl), if_neg (by decide), if_neg (by decide), if_pos rfl,
    bind_eq (drop_cons ',' _), List.cons_append, bind_eq (token_eq visible), if_neg notEnd]
  rfl

theorem ends_commas (texts : List (List Char)) {closing : Char}
    (isDelim : isDelimiter closing = true) (rest : List Char) :
    Ends (afterCommas texts ++ closing :: rest) := by
  cases texts with
  | nil => exact Ends.cons isDelim
  | cons text texts => exact Ends.cons rfl

theorem elements_eq {element : Reader α} {texts : List (List Char)} {items : List α}
    (all : List.Forall₂ (fun text item => StartsElement text ∧ Reads element text item) texts items)
    {fuel : Nat} (enough : texts.length ≤ fuel) (rest : List Char) :
    elements element fuel false (afterCommas texts ++ ']' :: rest) =
      .ok (items, ']' :: rest) := by
  induction all generalizing fuel with
  | nil =>
      cases fuel with
      | zero => rfl
      | succ fuel =>
          unfold elements
          rw [afterCommas, List.flatMap_nil, List.nil_append, bind_eq (hasElement_end false)]
          rfl
  | @cons text item texts items here later ih =>
      cases fuel with
      | zero => cases enough
      | succ fuel =>
          have reads := here.2 _ (ends_commas texts (rfl : isDelimiter ']' = true) rest)
          have onward := ih (Nat.le_of_succ_le_succ enough)
          unfold elements
          rw [afterCommas_cons, List.cons_append, List.append_assoc,
            bind_eq (hasElement_next here.1), if_pos rfl, bind_eq reads, bind_eq onward]
          rfl

theorem arrayTail_eq {element : Reader α} {texts : List (List Char)} {items : List α}
    (all : List.Forall₂ (fun text item => StartsElement text ∧ Reads element text item) texts items)
    (rest : List Char) :
    arrayTail element (separated texts ++ ']' :: rest) = .ok (items, rest) := by
  have ends : endArray (']' :: rest) = .ok ((), rest) := by
    unfold endArray
    rw [bind_eq (token_eq rfl)]
    rfl
  have all_read : elements element ((separated texts ++ ']' :: rest).length + 1) true
      (separated texts ++ ']' :: rest) = .ok (items, ']' :: rest) := by
    cases all with
    | nil =>
        unfold elements
        rw [separated, List.nil_append, bind_eq (hasElement_end true)]
        rfl
    | @cons text item texts items here later =>
        have commas := length_le_afterCommas texts
        have reads := here.2 _ (ends_commas texts (rfl : isDelimiter ']' = true) rest)
        rw [separated_cons, List.append_assoc]
        unfold elements
        rw [bind_eq (hasElement_first here.1), if_pos rfl, bind_eq reads,
          bind_eq (elements_eq later (by simp only [List.length_append]; omega) rest)]
        rfl
  unfold arrayTail
  rw [bind_eq (get_eq _), bind_eq all_read, bind_eq ends]
  rfl

/-! ## Objects -/

/-- Members that are read one after the other, each from the state that the one before it left. -/
inductive ReadsMembers (member : σ → Reader σ) : σ → List (List Char) → σ → Prop where
  | nil (state : σ) : ReadsMembers member state [] state
  | cons {before between after : σ} {key text : List Char} {texts : List (List Char)}
      (isKey : text = '"' :: key) (reads : Reads (member before) text between)
      (later : ReadsMembers member between texts after) :
      ReadsMembers member before (text :: texts) after

theorem hasMember_end (first : Bool) :
    hasMember first ('}' :: tail) = .ok (false, '}' :: tail) := by
  unfold hasMember
  rw [bind_eq (token_eq rfl)]
  rfl

theorem hasMember_first : hasMember true ('"' :: tail) = .ok (true, '"' :: tail) := by
  unfold hasMember
  rw [bind_eq (token_eq rfl)]
  rfl

theorem hasMember_next : hasMember false (',' :: '"' :: tail) = .ok (true, '"' :: tail) := by
  unfold hasMember
  rw [bind_eq (token_eq rfl), if_neg (by decide), if_neg (by decide), if_pos rfl]
  dsimp only
  rw [bind_eq (drop_cons ',' _), bind_eq (token_eq rfl)]
  rfl

theorem members_eq {member : σ → Reader σ} {before after : σ} {texts : List (List Char)}
    (all : ReadsMembers member before texts after) {fuel : Nat} (enough : texts.length ≤ fuel)
    (rest : List Char) :
    members member fuel false before (afterCommas texts ++ '}' :: rest) =
      .ok (after, '}' :: rest) := by
  induction all generalizing fuel with
  | nil state =>
      cases fuel with
      | zero => rfl
      | succ fuel =>
          unfold members
          rw [afterCommas, List.flatMap_nil, List.nil_append, bind_eq (hasMember_end false)]
          rfl
  | @cons before between after key text texts isKey here later ih =>
      cases fuel with
      | zero => cases enough
      | succ fuel =>
          have reads := here _ (ends_commas texts (rfl : isDelimiter '}' = true) rest)
          subst isKey
          unfold members
          rw [afterCommas_cons, List.cons_append, List.append_assoc, List.cons_append,
            bind_eq hasMember_next, if_pos rfl, ← List.cons_append, bind_eq reads]
          exact ih (Nat.le_of_succ_le_succ enough)

theorem endObject_eq : endObject ('}' :: rest) = .ok ((), rest) := by
  unfold endObject
  rw [bind_eq (token_eq rfl)]
  rfl

/-- The members after others. -/
theorem objectTail_next {member : σ → Reader σ} {before after : σ} {texts : List (List Char)}
    (all : ReadsMembers member before texts after) (rest : List Char) :
    objectTail member false before
        (afterCommas texts ++ '}' :: rest) = .ok (after, rest) := by
  have commas := length_le_afterCommas texts
  unfold objectTail
  rw [bind_eq (get_eq _), bind_eq (members_eq all (by rw [List.length_append]; omega) rest),
    bind_eq endObject_eq]
  rfl

/-- The members of a whole object. -/
theorem objectTail_first {member : σ → Reader σ} {before after : σ} {texts : List (List Char)}
    (all : ReadsMembers member before texts after) (rest : List Char) :
    objectTail member true before (separated texts ++ '}' :: rest) = .ok (after, rest) := by
  have all_read : members member ((separated texts ++ '}' :: rest).length + 1) true before
      (separated texts ++ '}' :: rest) = .ok (after, '}' :: rest) := by
    cases all with
    | nil state =>
        unfold members
        rw [separated, List.nil_append, bind_eq (hasMember_end true)]
        rfl
    | @cons _ between _ key text texts isKey here later =>
        have commas := length_le_afterCommas texts
        have reads := here _ (ends_commas texts (rfl : isDelimiter '}' = true) rest)
        subst isKey
        rw [separated_cons, List.append_assoc]
        unfold members
        rw [List.cons_append, bind_eq hasMember_first, if_pos rfl, ← List.cons_append,
          bind_eq reads]
        exact members_eq later (by simp only [List.length_append]; omega) rest
  unfold objectTail
  rw [bind_eq (get_eq _), bind_eq all_read, bind_eq endObject_eq]
  rfl

end MessageQuery.Json.Reader
