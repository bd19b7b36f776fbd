import MessageQuery.Proofs.Path.Grammar

/-!
# Words and tokens

A token is read from a word together with what follows it, since integers and identifiers take as
many characters as they can. `Reads` lists the words; a token step succeeds exactly on them, and
the word decides the token and the cursor after it.
-/

namespace MessageQuery.Path

open Cursor
open Text (byteLength)

namespace Grammar

/-! ## Characters -/

theorem isAlpha_eq (c : Char) : c.isAlpha =
    (decide (c.val ≥ 'A'.val ∧ c.val ≤ 'Z'.val) ||
      (decide (c.val ≥ 'a'.val) && decide (c.val ≤ 'z'.val))) := rfl

theorem isLetter_iff {c : Char} : IsLetter c ↔ c.isAlpha = true := by
  simp only [IsLetter, isAlpha_eq, Bool.or_eq_true,
    Bool.and_eq_true, decide_eq_true_eq, ge_iff_le]
  rfl

theorem isDigit_iff {c : Char} : IsDigit c ↔ c.isDigit = true := by
  simp only [IsDigit, Char.isDigit, Bool.and_eq_true, decide_eq_true_eq, ge_iff_le]
  rfl

theorem isIdentifierStart_iff {c : Char} :
    isIdentifierStart c = true ↔ IsLetter c ∨ c = '_' := by
  rw [isIdentifierStart, Bool.or_eq_true, beq_iff_eq, isLetter_iff]

theorem isIdentifierChar_iff {c : Char} :
    isIdentifierChar c = true ↔ IsLetter c ∨ IsDigit c ∨ c = '_' := by
  rw [isIdentifierChar, isAsciiAlphanumeric, Bool.or_eq_true, Bool.or_eq_true, beq_iff_eq,
    isLetter_iff, isDigit_iff, or_assoc]

theorem isTopicChar_iff {c : Char} :
    isTopicChar c = true ↔ IsLetter c ∨ IsDigit c ∨ c = '_' ∨ c = '/' ∨ c = '-' := by
  simp only [isTopicChar, isAsciiAlphanumeric, Bool.or_eq_true, beq_iff_eq, isLetter_iff,
    isDigit_iff, or_assoc]

theorem isInlineBlank_iff {c : Char} : isInlineBlank c = true ↔ c = ' ' ∨ c = '\t' := by
  rw [isInlineBlank, Bool.or_eq_true, beq_iff_eq, beq_iff_eq]

theorem blanks_iff {cs : List Char} : Blanks cs ↔ ∀ c ∈ cs, isInlineBlank c = true := by
  simp only [Blanks, isInlineBlank_iff]

/-! ## Runs of characters -/

/-- The text does not go on with a character of the given class. -/
def Stops (p : Char → Bool) (tail : List Char) : Prop :=
  ∀ c, tail.head? = some c → p c = false

variable {p : Char → Bool} {body tail : List Char}

theorem Stops.nil : Stops p [] := by
  intro c isHead
  cases isHead

theorem Stops.cons {c : Char} (outside : p c = false) : Stops p (c :: tail) := by
  rintro d ⟨⟩
  exact outside

theorem Stops.mono {q : Char → Bool} (weaker : ∀ c, p c = true → q c = true)
    (stops : Stops q tail) : Stops p tail := by
  intro c isHead
  apply Bool.eq_false_iff.mpr
  intro inside
  have continues := weaker c inside
  rw [stops c isHead] at continues
  cases continues

theorem takeWhile_of_stops (inside : ∀ c ∈ body, p c = true) (stops : Stops p tail) :
    (body ++ tail).takeWhile p = body := by
  rw [List.takeWhile_append_of_pos inside]
  cases tail with
  | nil => simp
  | cons c rest => simp [stops c rfl]

theorem exists_run (p : Char → Bool) (cs : List Char) :
    ∃ body tail, cs = body ++ tail ∧ (∀ c ∈ body, p c = true) ∧ Stops p tail := by
  induction cs with
  | nil => exact ⟨[], [], rfl, by simp, .nil⟩
  | cons c rest ih =>
      by_cases head : p c = true
      · obtain ⟨body, tail, rfl, inside, stops⟩ := ih
        refine ⟨c :: body, tail, rfl, ?_, stops⟩
        intro d member
        rcases List.mem_cons.mp member with rfl | later
        · exact head
        · exact inside d later
      · exact ⟨[], c :: rest, rfl, by simp, .cons (Bool.eq_false_iff.mpr head)⟩

/-! ## Integers -/

theorem Digits.isDigit {cs : List Char} {n : Nat} (digits : Digits cs n) :
    ∀ c ∈ cs, c.isDigit = true := by
  induction digits with
  | one digit =>
      intro c member
      rw [List.mem_singleton.mp member]
      exact isDigit_iff.mp digit
  | more before digit ih =>
      intro c member
      rcases List.mem_append.mp member with early | last
      · exact ih c early
      · rw [List.mem_singleton.mp last]
        exact isDigit_iff.mp digit

theorem Digits.ne_nil {cs : List Char} {n : Nat} (digits : Digits cs n) : cs ≠ [] := by
  cases digits <;> simp

theorem Digits.natOfDigits_eq {cs : List Char} {n : Nat} (digits : Digits cs n) :
    Text.natOfDigits cs = n := by
  induction digits with
  | one digit => exact Nat.zero_add _
  | more before digit ih =>
      rw [Text.natOfDigits_concat, ih]
      rfl

theorem Digits.append {cs ds : List Char} {n : Nat} (digits : Digits cs n)
    (more : ∀ c ∈ ds, c.isDigit = true) : ∃ m, Digits (cs ++ ds) m := by
  induction ds generalizing cs n with
  | nil => exact ⟨n, by simpa using digits⟩
  | cons d rest ih =>
      have longer := Digits.more digits (isDigit_iff.mpr (more d List.mem_cons_self))
      obtain ⟨m, all⟩ := ih longer fun c member => more c (List.mem_cons_of_mem d member)
      rw [List.append_assoc] at all
      exact ⟨m, all⟩

/-- A digit and the digits after it spell some number. -/
theorem exists_digits {c : Char} {rest : List Char} (head : c.isDigit = true)
    (tail : ∀ d ∈ rest, d.isDigit = true) : ∃ n, Digits (c :: rest) n :=
  (Digits.one (isDigit_iff.mpr head)).append tail

theorem Integer.intOfDigits?_eq {cs : List Char} {n : Int} (spells : Integer cs n) :
    Text.intOfDigits? cs = some n := by
  have allDigits : ∀ {ds : List Char} {m : Nat}, Digits ds m →
      (ds.isEmpty || !ds.all Char.isDigit) = false := by
    intro ds m digits
    rw [List.all_eq_true.mpr digits.isDigit]
    cases ds with
    | nil => exact absurd rfl digits.ne_nil
    | cons d rest => rfl
  cases spells with
  | plain digits =>
      simp only [Text.intOfDigits?, Text.splitSign_of_digits digits.isDigit, allDigits digits,
        digits.natOfDigits_eq]
      rfl
  | negative digits =>
      simp only [Text.intOfDigits?, Text.splitSign, allDigits digits, digits.natOfDigits_eq]
      rfl

/-- No digit follows, and nothing that would make the number a faulty one. -/
def continuesInteger (c : Char) : Bool :=
  c.isDigit || continuesNumber c

theorem integerLength_of_stops {word : List Char} {n : Int} (spells : Integer word n)
    (stops : Stops Char.isDigit tail) : integerLength (word ++ tail) = word.length := by
  cases spells with
  | plain digits =>
      rw [integerLength, takeWhile_of_stops digits.isDigit stops]
      intro rest isMinus
      cases word with
      | nil => exact digits.ne_nil rfl
      | cons d ds =>
          have head := digits.isDigit d List.mem_cons_self
          rw [(List.cons.inj isMinus).1] at head
          cases head
  | negative digits =>
      rw [List.cons_append, integerLength, takeWhile_of_stops digits.isDigit stops,
        List.length_cons]

/-! ## Quoted strings -/

theorem after_eq_closed_iff {scanned : QuotedEnd} {count length : Nat} :
    scanned.after count = .closed length ↔ ∃ m, scanned = .closed m ∧ length = m + count := by
  cases scanned with
  | closed m => simp [QuotedEnd.after, eq_comm]
  | badEscape m => simp [QuotedEnd.after]
  | unmatched => simp [QuotedEnd.after]

theorem isEscapable_iff {c : Char} : isEscapable c = true ↔ c = '\\' ∨ c = '\'' ∨ c = '"' := by
  simp [isEscapable, isQuote]

variable {quote : Char} {raw spelled : List Char}

theorem QuotedBody.scanQuoted_eq (isQuote : quote ≠ '\\') (body : QuotedBody quote raw spelled) :
    scanQuoted quote (raw ++ quote :: tail) = .closed raw.length := by
  induction body with
  | nil => simp [scanQuoted, isQuote]
  | plain noEscape noQuote later ih =>
      rw [List.cons_append, scanQuoted]
      · rw [if_neg noQuote, ih]
        rfl
      all_goals simp [noEscape]
  | escaped escapable later ih =>
      have accepted := isEscapable_iff.mpr escapable
      rw [List.cons_append, List.cons_append, scanQuoted, if_pos accepted, ih]
      rfl

theorem exists_body_of_scanQuoted {cs : List Char} {length : Nat}
    (closed : scanQuoted quote cs = .closed length) :
    ∃ raw spelled tail, cs = raw ++ quote :: tail ∧ QuotedBody quote raw spelled := by
  induction cs using scanQuoted.induct quote generalizing length with
  | case1 => simp [scanQuoted] at closed
  | case2 => simp [scanQuoted] at closed
  | case3 escaped rest escapable ih =>
      rw [scanQuoted, if_pos escapable] at closed
      obtain ⟨m, inner, _⟩ := after_eq_closed_iff.mp closed
      obtain ⟨raw, spelled, tail, rfl, body⟩ := ih inner
      exact ⟨_, _, tail, rfl, .escaped (isEscapable_iff.mp escapable) body⟩
  | case4 escaped rest escapable => simp [scanQuoted, escapable] at closed
  | case5 rest => exact ⟨[], [], rest, rfl, .nil⟩
  | case6 c rest noEnd noEscape noQuote ih =>
      have plain : c ≠ '\\' := by
        intro isEscape
        cases rest with
        | nil => exact noEnd isEscape rfl
        | cons d later => exact noEscape d later isEscape rfl
      rw [scanQuoted.eq_4 quote c rest noEnd noEscape, if_neg noQuote] at closed
      obtain ⟨m, inner, _⟩ := after_eq_closed_iff.mp closed
      obtain ⟨raw, spelled, tail, rfl, body⟩ := ih inner
      exact ⟨_, _, tail, rfl, .plain plain noQuote body⟩

theorem QuotedBody.unescape_eq (body : QuotedBody quote raw spelled) :
    Parser.unescape raw = spelled := by
  induction body with
  | nil => rfl
  | plain noEscape noQuote later ih =>
      rw [Parser.unescape, ih]
      all_goals simp [noEscape]
  | escaped escapable later ih => rw [Parser.unescape, ih]

/-! ## Tokens -/

/-- The words of the tokens after the topic. What follows matters where a word could be longer. -/
inductive Reads : List Char → List Char → Lexeme → Prop where
  | endOfText : Reads [] [] .endOfText
  | symbol (symbol : Symbol) (tail : List Char) : Reads symbol.text tail (.symbol symbol)
  | integer {word tail : List Char} {n : Int} (spells : Integer word n)
      (stops : Stops continuesInteger tail) : Reads word tail (.integer word)
  | identifier {word tail : List Char} (isName : Identifier word)
      (stops : Stops isIdentifierChar tail) : Reads word tail (.identifier word)
  | quoted {quote : Char} {raw spelled : List Char} (isQuote : quote = '\'' ∨ quote = '"')
      (body : QuotedBody quote raw spelled) (tail : List Char) :
      Reads (quote :: (raw ++ [quote])) tail (.quoted raw)

end Grammar

/-- The bytes of the word that stand before the text of the token. -/
def Lexeme.lead : Lexeme → Nat
  | .quoted _ => 1
  | _ => 0

def Lexeme.depthPast (depth : Nat) : Lexeme → Nat
  | .symbol s => depthAfter depth s
  | _ => depth

namespace Grammar

variable {word tail : List Char} {lexeme : Lexeme}

theorem take_eq (word tail : List Char) (offset depth : Nat) (lexeme : List Char → Lexeme) :
    (⟨word ++ tail, offset, depth⟩ : Cursor).take word.length lexeme =
      (.ok ⟨lexeme word, offset⟩, ⟨tail, offset + byteLength word, depth⟩) := by
  simp [Cursor.take, advance]

theorem readInteger_eq {n : Int} (spells : Integer word n) (stops : Stops continuesInteger tail)
    (offset depth : Nat) :
    (⟨word ++ tail, offset, depth⟩ : Cursor).readInteger =
      (.ok ⟨.integer word, offset⟩, ⟨tail, offset + byteLength word, depth⟩) := by
  have noDigit : Stops Char.isDigit tail := stops.mono fun c digit => by
    simp [continuesInteger, digit]
  unfold readInteger
  simp only [integerLength_of_stops spells noDigit, take_eq]
  cases tail with
  | nil => rfl
  | cons c rest =>
      have outside := stops c rfl
      rw [continuesInteger, Bool.or_eq_false_iff] at outside
      simp [outside.2]

theorem readQuoted_eq {quote : Char} {raw spelled : List Char}
    (isQuote : quote = '\'' ∨ quote = '"') (body : QuotedBody quote raw spelled)
    (offset depth : Nat) :
    (⟨quote :: (raw ++ quote :: tail), offset, depth⟩ : Cursor).readQuoted quote =
      (.ok ⟨.quoted raw, offset + 1⟩,
        ⟨tail, offset + byteLength (quote :: (raw ++ [quote])), depth⟩) := by
  have noEscape : quote ≠ '\\' := by rcases isQuote with rfl | rfl <;> decide
  have size : quote.utf8Size = 1 := by rcases isQuote with rfl | rfl <;> rfl
  unfold readQuoted
  simp only [advance, List.drop_succ_cons, List.drop_zero, body.scanQuoted_eq noEscape, take_eq,
    List.take_succ_cons, List.take_zero, byteLength, size, Text.byteLength_append]
  congr 2
  omega

theorem readIdentifier_eq (isName : Identifier word) (stops : Stops isIdentifierChar tail)
    (offset depth : Nat) :
    (⟨word ++ tail, offset, depth⟩ : Cursor).readIdentifier =
      (.ok ⟨.identifier word, offset⟩, ⟨tail, offset + byteLength word, depth⟩) := by
  have inside : ∀ c ∈ word, isIdentifierChar c = true := by
    cases isName with
    | mk head allowed =>
        intro c member
        rcases List.mem_cons.mp member with rfl | later
        · exact isIdentifierChar_iff.mpr (head.imp_right .inr)
        · exact isIdentifierChar_iff.mpr (allowed c later)
  unfold readIdentifier
  simp only [takeWhile_of_stops inside stops, take_eq]

/-! ## The first character of a word -/

variable {p : Char → Bool} {c : Char}

theorem ne_of_class {d : Char} (inside : p c = true) (outside : p d = false) : c ≠ d := by
  rintro rfl
  rw [inside] at outside
  cases outside

/-- No symbol starts with a character of a class that has none of the symbols' characters. -/
theorem ofChar?_eq_none (inside : p c = true)
    (outside : ∀ symbol : Symbol, symbol.text.all p = false) : Symbol.ofChar? c = none := by
  cases found : Symbol.ofChar? c with
  | none => rfl
  | some symbol =>
      have excluded := outside symbol
      rw [Symbol.text_of_ofChar? found, List.all_cons, inside] at excluded
      cases excluded

/-- The characters that an integer starts with. -/
def isIntegerStart (c : Char) : Bool :=
  c.isDigit || c == '-'

theorem isIntegerStart_text (symbol : Symbol) : symbol.text.all isIntegerStart = false := by
  cases symbol <;> rfl

theorem isIdentifierStart_text (symbol : Symbol) : symbol.text.all isIdentifierStart = false := by
  cases symbol <;> rfl

theorem isDigit_eq_false_of_isAlpha (letter : c.isAlpha = true) : c.isDigit = false := by
  apply Bool.eq_false_iff.mpr
  intro digit
  simp only [Grammar.isAlpha_eq, Char.isDigit, Bool.or_eq_true,
    Bool.and_eq_true, decide_eq_true_eq, ge_iff_le, UInt32.le_iff_toNat_le] at letter digit
  have upper : ('A'.val).toNat = 65 := rfl
  have lower : ('a'.val).toNat = 97 := rfl
  have nine : ('9'.val).toNat = 57 := rfl
  omega

theorem isDigit_eq_false_of_isIdentifierStart (starts : isIdentifierStart c = true) :
    c.isDigit = false := by
  rw [isIdentifierStart, Bool.or_eq_true, beq_iff_eq] at starts
  rcases starts with letter | rfl
  · exact isDigit_eq_false_of_isAlpha letter
  · rfl

theorem isQuote_eq_false_of_isIdentifierStart (starts : isIdentifierStart c = true) :
    isQuote c = false := by
  have single : c ≠ '\'' := ne_of_class starts (by decide)
  have double : c ≠ '"' := ne_of_class starts (by decide)
  simp [isQuote, single, double]

theorem Integer.exists_head {word : List Char} {n : Int} (spells : Integer word n)
    (tail : List Char) :
    ∃ c rest, word = c :: rest ∧ isIntegerStart c = true ∧
      (c.isDigit || (c == '-' && startsWithDigit (rest ++ tail))) = true := by
  have exists_digit : ∀ {ds : List Char} {m : Nat}, Digits ds m →
      ∃ d later, ds = d :: later ∧ d.isDigit = true := by
    intro ds m digits
    cases ds with
    | nil => exact absurd rfl digits.ne_nil
    | cons d later => exact ⟨d, later, rfl, digits.isDigit d List.mem_cons_self⟩
  cases spells with
  | plain digits =>
      obtain ⟨d, later, rfl, isDigit⟩ := exists_digit digits
      refine ⟨d, later, rfl, ?_, ?_⟩
      · rw [isIntegerStart, isDigit, Bool.true_or]
      · rw [isDigit, Bool.true_or]
  | negative digits =>
      obtain ⟨d, later, rfl, isDigit⟩ := exists_digit digits
      exact ⟨'-', d :: later, rfl, rfl, isDigit⟩

theorem Identifier.exists_head {word : List Char} (isName : Identifier word) :
    ∃ c rest, word = c :: rest ∧ isIdentifierStart c = true := by
  cases isName with
  | mk head allowed => exact ⟨_, _, rfl, isIdentifierStart_iff.mpr head⟩

/-- Only the end of the text is a word without characters. -/
theorem Reads.ne_nil (reads : Reads word tail lexeme) (isToken : lexeme ≠ .endOfText) :
    word ≠ [] := by
  cases reads with
  | endOfText => exact absurd rfl isToken
  | symbol symbol => cases symbol <;> exact List.cons_ne_nil _ _
  | integer spells =>
      obtain ⟨c, rest, rfl, -⟩ := spells.exists_head tail
      exact List.cons_ne_nil _ _
  | identifier isName =>
      obtain ⟨c, rest, rfl, -⟩ := isName.exists_head
      exact List.cons_ne_nil _ _
  | quoted => exact List.cons_ne_nil _ _

/-! ## Token steps -/

theorem readToken_of_reads (reads : Reads word tail lexeme) (offset depth : Nat) :
    (⟨word ++ tail, offset, depth⟩ : Cursor).readToken =
      (.ok ⟨lexeme, offset + lexeme.lead⟩,
        ⟨tail, offset + byteLength word, lexeme.depthPast depth⟩) := by
  cases reads with
  | endOfText => rfl
  | symbol symbol =>
      have size := take_eq symbol.text tail offset depth fun _ => .symbol symbol
      have step : (⟨symbol.text ++ tail, offset, depth⟩ : Cursor).readToken =
          (⟨symbol.text ++ tail, offset, depth⟩ : Cursor).readSymbol symbol := by
        cases symbol <;> rfl
      rw [step, readSymbol]
      simp only [size]
      rfl
  | integer spells stops =>
      refine Eq.trans ?_ (readInteger_eq spells stops offset depth)
      obtain ⟨c, rest, rfl, head, starts⟩ := spells.exists_head tail
      have noSymbol := ofChar?_eq_none head isIntegerStart_text
      have noEquals := ne_of_class head (show isIntegerStart '=' = false by decide)
      simp only [List.cons_append, readToken, noSymbol, noEquals, false_and, if_false, starts,
        if_true]
  | identifier isName stops =>
      refine Eq.trans ?_ (readIdentifier_eq isName stops offset depth)
      obtain ⟨c, rest, rfl, starts⟩ := isName.exists_head
      have noSymbol := ofChar?_eq_none starts isIdentifierStart_text
      have noEquals := ne_of_class starts (show isIdentifierStart '=' = false by decide)
      have noMinus := ne_of_class starts (show isIdentifierStart '-' = false by decide)
      simp [readToken, noSymbol, noEquals, noMinus, starts,
        isDigit_eq_false_of_isIdentifierStart starts,
        isQuote_eq_false_of_isIdentifierStart starts]
  | @quoted quote raw spelled isQuote body =>
      have step : (⟨quote :: (raw ++ quote :: tail), offset, depth⟩ : Cursor).readToken =
          (⟨quote :: (raw ++ quote :: tail), offset, depth⟩ : Cursor).readQuoted quote := by
        rcases isQuote with rfl | rfl <;> simp [readToken, Symbol.ofChar?, Cursor.isQuote]
      simp only [List.cons_append, List.append_assoc, List.nil_append]
      rw [step, readQuoted_eq isQuote body]
      rfl

variable {rest : List Char} {offset depth : Nat} {token : Token} {after : Cursor}

theorem exists_integer {rest : List Char}
    (starts : (c.isDigit || (c == '-' && startsWithDigit rest)) = true) :
    ∃ word tail n, c :: rest = word ++ tail ∧ Integer word n ∧ Stops Char.isDigit tail := by
  rw [Bool.or_eq_true, Bool.and_eq_true, beq_iff_eq] at starts
  rcases starts with digit | ⟨rfl, digit⟩
  · obtain ⟨body, tail, rfl, inside, stops⟩ := exists_run Char.isDigit rest
    obtain ⟨n, digits⟩ := exists_digits digit inside
    exact ⟨c :: body, tail, n, rfl, .plain digits, stops⟩
  · cases rest with
    | nil => cases digit
    | cons d later =>
        obtain ⟨body, tail, rfl, inside, stops⟩ := exists_run Char.isDigit later
        obtain ⟨n, digits⟩ := exists_digits digit inside
        exact ⟨'-' :: d :: body, tail, -n, rfl, .negative digits, stops⟩

theorem reads_of_readInteger {n : Int} (spells : Integer word n)
    (stops : Stops Char.isDigit tail)
    (succeeds : (⟨word ++ tail, offset, depth⟩ : Cursor).readInteger = (.ok token, after)) :
    Reads word tail token.lexeme := by
  have ends : Stops continuesInteger tail := by
    cases tail with
    | nil => exact .nil
    | cons d later =>
        refine .cons (Bool.or_eq_false_iff.mpr ⟨stops d rfl, ?_⟩)
        apply Bool.eq_false_iff.mpr
        intro continues
        simp only [readInteger, integerLength_of_stops spells stops, take_eq, continues,
          if_true] at succeeds
        cases succeeds
  rw [readInteger_eq spells ends] at succeeds
  cases succeeds
  exact .integer spells ends

theorem reads_of_readQuoted (isQuote : c = '\'' ∨ c = '"')
    (succeeds : (⟨c :: rest, offset, depth⟩ : Cursor).readQuoted c = (.ok token, after)) :
    ∃ word tail, c :: rest = word ++ tail ∧ Reads word tail token.lexeme := by
  have closed : ∃ length, scanQuoted c rest = .closed length := by
    unfold readQuoted at succeeds
    simp only [advance, List.drop_succ_cons, List.drop_zero] at succeeds
    cases scanned : scanQuoted c rest with
    | closed length => exact ⟨length, rfl⟩
    | badEscape length => rw [scanned] at succeeds; cases succeeds
    | unmatched => rw [scanned] at succeeds; cases succeeds
  obtain ⟨length, scanned⟩ := closed
  obtain ⟨raw, spelled, tail, rfl, body⟩ := exists_body_of_scanQuoted scanned
  rw [readQuoted_eq isQuote body] at succeeds
  cases succeeds
  exact ⟨c :: (raw ++ [c]), tail, by simp, .quoted isQuote body tail⟩

theorem reads_of_readIdentifier (starts : isIdentifierStart c = true)
    (succeeds : (⟨c :: rest, offset, depth⟩ : Cursor).readIdentifier = (.ok token, after)) :
    ∃ word tail, c :: rest = word ++ tail ∧ Reads word tail token.lexeme := by
  obtain ⟨body, tail, rfl, inside, stops⟩ := exists_run isIdentifierChar rest
  have isName : Identifier (c :: body) :=
    .mk (isIdentifierStart_iff.mp starts) fun d member => isIdentifierChar_iff.mp (inside d member)
  have step := readIdentifier_eq isName stops offset depth
  rw [List.cons_append] at step
  rw [step] at succeeds
  cases succeeds
  exact ⟨c :: body, tail, rfl, .identifier isName stops⟩

/-- A token step succeeds only at a word. -/
theorem reads_of_readToken
    (succeeds : (⟨rest, offset, depth⟩ : Cursor).readToken = (.ok token, after)) :
    ∃ word tail, rest = word ++ tail ∧ Reads word tail token.lexeme := by
  unfold readToken at succeeds
  cases rest with
  | nil =>
      cases succeeds
      exact ⟨[], [], rfl, .endOfText⟩
  | cons c rest =>
      cases isSymbol : Symbol.ofChar? c with
      | some symbol =>
          simp only [isSymbol] at succeeds
          cases succeeds
          refine ⟨symbol.text, rest, ?_, .symbol symbol rest⟩
          rw [Symbol.text_of_ofChar? isSymbol]
          rfl
      | none =>
          simp only [isSymbol] at succeeds
          split at succeeds
          · next equals =>
              obtain ⟨rfl, second⟩ := equals
              cases rest with
              | nil => cases second
              | cons d tail =>
                  cases second
                  cases succeeds
                  exact ⟨['=', '='], tail, rfl, .symbol .equals tail⟩
          · split at succeeds
            · next starts =>
                obtain ⟨word, tail, n, split, spells, stops⟩ := exists_integer starts
                rw [split] at succeeds
                exact ⟨word, tail, split, reads_of_readInteger spells stops succeeds⟩
            · split at succeeds
              · next quote =>
                  rw [Cursor.isQuote, Bool.or_eq_true, beq_iff_eq, beq_iff_eq] at quote
                  exact reads_of_readQuoted quote succeeds
              · split at succeeds
                · next starts => exact reads_of_readIdentifier starts succeeds
                · cases succeeds

/-! ## Blanks before a token -/

theorem isInlineBlank_eq_false (inside : p c = true) (noSpace : p ' ' = false)
    (noTab : p '\t' = false) : isInlineBlank c = false := by
  simp [isInlineBlank, ne_of_class inside noSpace, ne_of_class inside noTab]

theorem Reads.stops_isInlineBlank (reads : Reads word tail lexeme) :
    Stops isInlineBlank (word ++ tail) := by
  cases reads with
  | endOfText => exact .nil
  | symbol symbol => cases symbol <;> exact .cons rfl
  | integer spells stops =>
      obtain ⟨c, rest, rfl, head, _⟩ := spells.exists_head tail
      exact .cons (isInlineBlank_eq_false head (by decide) (by decide))
  | identifier isName stops =>
      obtain ⟨c, rest, rfl, head⟩ := isName.exists_head
      exact .cons (isInlineBlank_eq_false head (by decide) (by decide))
  | quoted isQuote body => rcases isQuote with rfl | rfl <;> exact .cons rfl

/-- A word stands at the front of the text. -/
def Starts (rest : List Char) : Prop :=
  ∃ word tail lexeme, rest = word ++ tail ∧ Reads word tail lexeme

theorem Reads.starts (reads : Reads word tail lexeme) : Starts (word ++ tail) :=
  ⟨word, tail, lexeme, rfl, reads⟩

theorem Starts.stops_isInlineBlank (starts : Starts rest) : Stops isInlineBlank rest := by
  obtain ⟨word, tail, lexeme, rfl, reads⟩ := starts
  exact reads.stops_isInlineBlank

theorem skipBlanks_eq {blanks : List Char} (isBlanks : Blanks blanks)
    (allowed : depth = 0 → blanks = []) (stops : Stops isInlineBlank tail) (offset : Nat) :
    (⟨blanks ++ tail, offset, depth⟩ : Cursor).skipBlanks =
      ⟨tail, offset + byteLength blanks, depth⟩ := by
  unfold skipBlanks
  by_cases outside : depth = 0
  · rw [if_pos outside, allowed outside]
    rfl
  · rw [if_neg outside]
    simp only [takeWhile_of_stops (blanks_iff.mp isBlanks) stops]
    simp [advance]

/-- A token is read after any blanks that are allowed. -/
theorem readToken_skipBlanks_eq_ok_iff :
    (⟨rest, offset, depth⟩ : Cursor).skipBlanks.readToken = (.ok token, after) ↔
      ∃ blanks tail, rest = blanks ++ tail ∧ Blanks blanks ∧ (depth = 0 → blanks = []) ∧
        (⟨tail, offset + byteLength blanks, depth⟩ : Cursor).readToken = (.ok token, after) := by
  constructor
  · intro succeeds
    by_cases outside : depth = 0
    · refine ⟨[], rest, rfl, by simp [Blanks], fun _ => rfl, ?_⟩
      rw [skipBlanks, if_pos outside] at succeeds
      exact succeeds
    · obtain ⟨blanks, tail, rfl, inside, stops⟩ := exists_run isInlineBlank rest
      have isBlanks := blanks_iff.mpr inside
      rw [skipBlanks_eq isBlanks (fun zero => absurd zero outside) stops] at succeeds
      exact ⟨blanks, tail, rfl, isBlanks, fun zero => absurd zero outside, succeeds⟩
  · rintro ⟨blanks, tail, rfl, isBlanks, allowed, succeeds⟩
    obtain ⟨word, last, rfl, reads⟩ := reads_of_readToken succeeds
    rw [skipBlanks_eq isBlanks allowed reads.stops_isInlineBlank]
    exact succeeds

/-- Away from the start of the text, a step reads a token after any blanks that are allowed. -/
theorem next_eq_ok_iff (started : offset ≠ 0) :
    (⟨rest, offset, depth⟩ : Cursor).next = (.ok token, after) ↔
      ∃ blanks tail, rest = blanks ++ tail ∧ Blanks blanks ∧ (depth = 0 → blanks = []) ∧
        (⟨tail, offset + byteLength blanks, depth⟩ : Cursor).readToken = (.ok token, after) := by
  have later : (⟨rest, offset, depth⟩ : Cursor).next =
      (⟨rest, offset, depth⟩ : Cursor).skipBlanks.readToken := by
    unfold next
    exact if_neg fun atStart => started atStart.1
  rw [later]
  exact readToken_skipBlanks_eq_ok_iff

end Grammar

end MessageQuery.Path
