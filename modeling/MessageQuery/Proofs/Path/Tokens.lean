import MessageQuery.Proofs.Path.Stepping

/-!
# The tokens of a text

A text is what is written for its tokens, one after the other, with blanks in front of a token
where a bracket or a brace is open. So every character up to the end of the text, or up to the
first fault, belongs to one token or to the blanks before it, and the spans of the tokens say
where. Each token but the last takes a character, which bounds their count, and every position is
one of the text, which bounds the positions.
-/

namespace MessageQuery.Path

open Cursor Grammar
open Text (byteLength)

/-! ## What is written for a token -/

/-- A token is written as its text, with a quote on each side if it is a quoted string. -/
inductive Lexeme.Written : Lexeme → List Char → Prop where
  | bare {lexeme : Lexeme} (unquoted : ∀ raw, lexeme ≠ .quoted raw) : Written lexeme lexeme.text
  | quoted {quote : Char} (isQuote : quote = '\'' ∨ quote = '"') (raw : List Char) :
      Written (.quoted raw) (quote :: (raw ++ [quote]))

namespace Lexeme.Written

variable {lexeme : Lexeme} {word : List Char}

theorem of_reads {tail : List Char} (reads : Reads word tail lexeme) : lexeme.Written word := by
  cases reads with
  | endOfText => exact .bare nofun
  | symbol symbol => exact .bare nofun
  | integer spells => exact .bare nofun
  | identifier isName => exact .bare nofun
  | quoted isQuote body => exact .quoted isQuote _

/-- The text stands in what is written, behind the quote if there is one. -/
theorem exists_around (written : lexeme.Written word) :
    ∃ left right, word = left ++ (lexeme.text ++ right) ∧ byteLength left = lexeme.lead ∧
      byteLength right = lexeme.lead := by
  cases written with
  | bare unquoted =>
      refine ⟨[], [], by simp, ?_⟩
      cases lexeme with
      | quoted raw => exact absurd rfl (unquoted raw)
      | _ => exact ⟨rfl, rfl⟩
  | @quoted quote isQuote raw =>
      refine ⟨[quote], [quote], rfl, ?_⟩
      rcases isQuote with rfl | rfl <;> exact ⟨rfl, rfl⟩

theorem byteLength_eq (written : lexeme.Written word) :
    byteLength word = lexeme.lead + byteLength lexeme.text + lexeme.lead := by
  obtain ⟨left, right, rfl, before, behind⟩ := written.exists_around
  rw [Text.byteLength_append, Text.byteLength_append, before, behind, Nat.add_assoc]

/-- What is written goes on behind the place where the text starts. -/
theorem lead_lt (written : lexeme.Written word) (nonempty : word ≠ []) :
    lexeme.lead < byteLength word := by
  have positive := Text.byteLength_ne_zero nonempty
  have size := written.byteLength_eq
  cases lexeme <;> simp only [Lexeme.lead] at size ⊢ <;> omega

end Lexeme.Written

/-! ## One step -/

namespace Cursor

variable {cursor after : Cursor} {token : Token} {diagnostic : Diagnostic}

/-- A step reads a token behind a gap, and leaves the cursor behind what is written for it. -/
structure Yields (cursor : Cursor) (token : Token) (gap word : List Char) (after : Cursor) :
    Prop where
  rest : cursor.rest = gap ++ (word ++ after.rest)
  isBlanks : Blanks gap
  allowed : cursor.depth = 0 → gap = []
  written : token.lexeme.Written word
  start : token.start = cursor.offset + byteLength gap + token.lexeme.lead
  offset : after.offset = cursor.offset + byteLength gap + byteLength word
  depth : after.depth = token.lexeme.depthPast cursor.depth
  nonempty : token.lexeme ≠ .endOfText → word ≠ []
  ended : token.lexeme = .endOfText → word ++ after.rest = []
  topic : ∀ name, token.lexeme = .topic name → cursor.offset = 0 ∧ gap = []

theorem yields_of_readTopic {text : List Char} (slash : cursor.rest = '/' :: text)
    (atStart : cursor.offset = 0) (read : cursor.readTopic = (.ok token, after)) :
    ∃ word, cursor.Yields token [] word after := by
  obtain ⟨_, _, depth⟩ := cursor
  obtain ⟨rfl, rfl⟩ : _ = '/' :: text ∧ _ = 0 := ⟨slash, atStart⟩
  obtain ⟨run, tail, rfl, inside, stops⟩ := exists_run isTopicChar text
  have step := take_eq ('/' :: run) tail 0 depth .topic
  unfold readTopic at read
  rw [List.drop_succ_cons, List.drop_zero, takeWhile_of_stops inside stops] at read
  cases step.symm.trans read
  exact ⟨'/' :: run, rfl, by simp [Blanks], fun _ => rfl, .bare nofun, rfl, rfl, rfl,
    fun _ => List.cons_ne_nil _ _, nofun, fun _ _ => ⟨rfl, rfl⟩⟩

/-- A step that succeeds has read a token. -/
theorem exists_yields (read : cursor.next = (.ok token, after)) :
    ∃ gap word, cursor.Yields token gap word after := by
  unfold next at read
  split at read
  · next slash =>
      obtain ⟨text, isText⟩ := List.head?_eq_some_iff.mp slash.2
      exact ⟨[], yields_of_readTopic isText slash.1 read⟩
  · obtain ⟨rest, offset, depth⟩ := cursor
    obtain ⟨blanks, _, rfl, isBlanks, allowed, read⟩ := readToken_skipBlanks_eq_ok_iff.mp read
    obtain ⟨word, tail, rfl, reads⟩ := reads_of_readToken read
    have step := read.symm.trans (readToken_of_reads reads (offset + byteLength blanks) depth)
    rw [Prod.mk.injEq, Except.ok.injEq] at step
    obtain ⟨isToken, rfl⟩ := step
    refine ⟨blanks, word, rfl, isBlanks, allowed, .of_reads reads, congrArg Token.start isToken,
      rfl, rfl, reads.ne_nil, fun isEnd => ?_, fun name isTopic => ?_⟩
    · rw [isEnd] at reads
      cases reads
      rfl
    · rw [isTopic] at reads
      cases reads

namespace Yields

variable {gap word : List Char}

/-- A token that does not end the text leaves fewer characters. -/
theorem length_lt (yields : cursor.Yields token gap word after)
    (isToken : token.lexeme ≠ .endOfText) : after.rest.length < cursor.rest.length := by
  have taken := List.length_pos_iff.mpr (yields.nonempty isToken)
  rw [yields.rest, List.length_append, List.length_append]
  omega

theorem offset_le_start (yields : cursor.Yields token gap word after) :
    cursor.offset ≤ token.start := by
  rw [yields.start, Nat.add_assoc]
  exact Nat.le_add_right _ _

theorem start_lt_offset (yields : cursor.Yields token gap word after)
    (isToken : token.lexeme ≠ .endOfText) : token.start < after.offset := by
  rw [yields.start, yields.offset]
  exact Nat.add_lt_add_left (yields.written.lead_lt (yields.nonempty isToken)) _

/-- The cursor stands behind the text of the token, and behind its closing quote. -/
theorem offset_eq (yields : cursor.Yields token gap word after) :
    after.offset = token.stop + token.lexeme.lead := by
  rw [yields.offset, yields.written.byteLength_eq, Token.stop, yields.start, Token.text]
  omega

end Yields

/-! ## Faults -/

/-- The diagnostic points at a character that is still to come. -/
def Marks (cursor : Cursor) (diagnostic : Diagnostic) : Prop :=
  ∃ passed c later, cursor.rest = passed ++ c :: later ∧
    diagnostic.column = cursor.offset + byteLength passed + 1

theorem marks_here {text : List Char} {c : Char} {cause : Fault} (here : cursor.rest = c :: text) :
    cursor.Marks ⟨cursor.offset + 1, cause⟩ :=
  ⟨[], c, text, here, rfl⟩

/-- What is marked behind some characters is marked in front of them. -/
theorem Marks.in_front {skipped : List Char} (marks : after.Marks diagnostic)
    (rest : cursor.rest = skipped ++ after.rest)
    (offset : after.offset = cursor.offset + byteLength skipped) : cursor.Marks diagnostic := by
  obtain ⟨passed, c, later, isRest, column⟩ := marks
  refine ⟨skipped ++ passed, c, later, ?_, ?_⟩
  · rw [rest, isRest, List.append_assoc]
  · rw [column, offset, Text.byteLength_append, Nat.add_assoc cursor.offset]

theorem Skips.marks {skipped : List Char} (skips : cursor.Skips skipped after)
    (marks : after.Marks diagnostic) : cursor.Marks diagnostic :=
  marks.in_front skips.rest skips.offset

theorem marks_of_readInteger (fails : cursor.readInteger = (.error diagnostic, after)) :
    cursor.Marks diagnostic := by
  simp only [readInteger, Cursor.take] at fails
  split at fails
  · next c later isRest =>
      split at fails
      · cases fails
        exact (skips_advance cursor _).marks (marks_here isRest)
      · cases fails
  · cases fails

theorem after_eq_badEscape_iff {scanned : QuotedEnd} {count length : Nat} :
    scanned.after count = .badEscape length ↔
      ∃ m, scanned = .badEscape m ∧ length = m + count := by
  cases scanned with
  | closed m => simp [QuotedEnd.after]
  | badEscape m => simp [QuotedEnd.after, eq_comm]
  | unmatched => simp [QuotedEnd.after]

/-- A bad escape is found at its backslash. -/
theorem exists_drop_of_badEscape {quote : Char} {cs : List Char} {length : Nat}
    (scanned : scanQuoted quote cs = .badEscape length) :
    ∃ later, cs.drop length = '\\' :: later := by
  induction cs using scanQuoted.induct quote generalizing length with
  | case1 => cases scanned
  | case2 =>
      cases scanned
      exact ⟨[], rfl⟩
  | case3 escaped rest escapable ih =>
      rw [scanQuoted, if_pos escapable] at scanned
      obtain ⟨m, inner, rfl⟩ := after_eq_badEscape_iff.mp scanned
      exact ih inner
  | case4 escaped rest escapable =>
      rw [scanQuoted, if_neg escapable] at scanned
      cases scanned
      exact ⟨escaped :: rest, rfl⟩
  | case5 rest => simp [scanQuoted] at scanned
  | case6 c rest noEnd noEscape noQuote ih =>
      rw [scanQuoted.eq_4 quote c rest noEnd noEscape, if_neg noQuote] at scanned
      obtain ⟨m, inner, rfl⟩ := after_eq_badEscape_iff.mp scanned
      exact ih inner

theorem marks_of_readQuoted {quote : Char} {text : List Char} (here : cursor.rest = quote :: text)
    (fails : cursor.readQuoted quote = (.error diagnostic, after)) : cursor.Marks diagnostic := by
  have opening := skips_advance cursor 1
  simp only [readQuoted] at fails
  split at fails
  · cases fails
  · next length scanned =>
      cases fails
      obtain ⟨later, isBackslash⟩ := exists_drop_of_badEscape scanned
      exact (opening.trans (skips_advance _ length)).marks (marks_here isBackslash)
  · cases fails
    exact marks_here here

theorem marks_of_readToken (fails : cursor.readToken = (.error diagnostic, after)) :
    cursor.Marks diagnostic := by
  unfold readToken at fails
  split at fails
  · cases fails
  · next c rest here =>
      split at fails
      · cases fails
      · split at fails
        · cases fails
        · split at fails
          · exact marks_of_readInteger fails
          · split at fails
            · exact marks_of_readQuoted here fails
            · split at fails
              · cases fails
              · cases fails
                exact marks_here here

/-- A step that fails points at a character in front of it. -/
theorem marks_of_next (fails : cursor.next = (.error diagnostic, after)) :
    cursor.Marks diagnostic := by
  unfold next at fails
  split at fails
  · cases fails
  · obtain ⟨blanks, skips⟩ := cursor.skips_skipBlanks
    exact skips.marks (marks_of_readToken fails)

/-! ## All steps -/

/-- The tokens from a cursor on, up to the end of the text or to the first fault. -/
inductive Lexes : Cursor → List Token → Option Diagnostic → Prop where
  | fault {cursor after : Cursor} {diagnostic : Diagnostic}
      (read : cursor.next = (.error diagnostic, after)) : Lexes cursor [] (some diagnostic)
  | ending {cursor after : Cursor} {token : Token} (read : cursor.next = (.ok token, after))
      (isEnd : token.lexeme = .endOfText) : Lexes cursor [token] none
  | token {cursor after : Cursor} {token : Token} {later : List Token}
      {fault? : Option Diagnostic} (read : cursor.next = (.ok token, after))
      (isToken : token.lexeme ≠ .endOfText) (rest : Lexes after later fault?) :
      Lexes cursor (token :: later) fault?

/-- One step more than there are characters reaches the end of the text or a fault. -/
theorem lexes_tokens {fuel : Nat} (enough : cursor.rest.length < fuel) :
    Lexes cursor (cursor.tokens fuel).1 (cursor.tokens fuel).2 := by
  induction fuel generalizing cursor with
  | zero => exact absurd enough (Nat.not_lt_zero _)
  | succ fuel ih =>
      unfold tokens
      rcases read : cursor.next with ⟨diagnostic | token, after⟩
      · exact .fault read
      · dsimp only
        split
        · next isEnd => exact .ending read isEnd
        · next isToken =>
            obtain ⟨_, _, yields⟩ := exists_yields read
            have shorter := yields.length_lt isToken
            exact .token read isToken (ih (by omega))

namespace Lexes

variable {toks : List Token} {fault? : Option Diagnostic}

/-- Each step but the last passes a character. -/
theorem length_le (lexes : Lexes cursor toks fault?) :
    toks.length + fault?.toList.length ≤ cursor.rest.length + 1 := by
  induction lexes with
  | fault read => simp
  | ending read isEnd => simp
  | token read isToken rest ih =>
      obtain ⟨_, _, yields⟩ := exists_yields read
      have shorter := yields.length_lt isToken
      rw [List.length_cons]
      omega

theorem offset_le_start (lexes : Lexes cursor toks fault?) :
    ∀ token ∈ toks, cursor.offset ≤ token.start := by
  induction lexes with
  | fault read => exact nofun
  | ending read isEnd =>
      obtain ⟨_, _, yields⟩ := exists_yields read
      intro token member
      rw [List.mem_singleton.mp member]
      exact yields.offset_le_start
  | token read isToken rest ih =>
      obtain ⟨_, _, yields⟩ := exists_yields read
      intro other member
      rcases List.mem_cons.mp member with rfl | later
      · exact yields.offset_le_start
      · have begun := Nat.le_of_lt (yields.start_lt_offset isToken)
        exact Nat.le_trans (Nat.le_trans yields.offset_le_start begun) (ih other later)

theorem ordered (lexes : Lexes cursor toks fault?) :
    toks.Pairwise fun first second => first.start < second.start ∧ first.stop ≤ second.start := by
  induction lexes with
  | fault read => exact .nil
  | ending read isEnd => exact List.pairwise_singleton _ _
  | token read isToken rest ih =>
      obtain ⟨_, _, yields⟩ := exists_yields read
      refine List.pairwise_cons.mpr ⟨fun second member => ?_, ih⟩
      have behind := rest.offset_le_start second member
      refine ⟨Nat.lt_of_lt_of_le (yields.start_lt_offset isToken) behind, ?_⟩
      rw [yields.offset_eq] at behind
      exact Nat.le_of_add_right_le behind

theorem start_of_topic (lexes : Lexes cursor toks fault?) {token : Token} (member : token ∈ toks)
    {name : List Char} (isTopic : token.lexeme = .topic name) : token.start = 0 := by
  have at_start : ∀ {cursor after gap word}, Yields cursor token gap word after →
      token.start = 0 := by
    intro cursor after gap word yields
    obtain ⟨atStart, rfl⟩ := yields.topic name isTopic
    rw [yields.start, atStart, isTopic]
    rfl
  induction lexes with
  | fault read => cases member
  | ending read isEnd =>
      cases List.mem_singleton.mp member
      obtain ⟨_, _, yields⟩ := exists_yields read
      exact at_start yields
  | token read isToken rest ih =>
      rcases List.mem_cons.mp member with rfl | later
      · obtain ⟨_, _, yields⟩ := exists_yields read
        exact at_start yields
      · exact ih later

/-- Without a fault the last token, and no other, is the end of the text. -/
theorem complete (lexes : Lexes cursor toks fault?) (noFault : fault? = none) :
    ∃ before, toks = before ++ [⟨.endOfText, cursor.finish⟩] ∧
      ∀ token ∈ before, token.lexeme ≠ .endOfText := by
  induction lexes with
  | fault read => cases noFault
  | @ending cursor after token read isEnd =>
      obtain ⟨gap, word, yields⟩ := exists_yields read
      refine ⟨[], ?_, nofun⟩
      have start : token.start = cursor.finish := by
        rw [finish, yields.rest, yields.ended isEnd, List.append_nil, yields.start, isEnd]
        rfl
      rw [← start, ← isEnd]
      rfl
  | @token cursor after token _ _ read isToken rest ih =>
      obtain ⟨before, rfl, noEnd⟩ := ih noFault
      have finish := finish_next cursor
      rw [read] at finish
      refine ⟨token :: before, ?_, ?_⟩
      · rw [← finish]
        rfl
      · intro other member
        rcases List.mem_cons.mp member with rfl | inBefore
        · exact isToken
        · exact noEnd other inBefore

theorem marks {fault : Diagnostic} (lexes : Lexes cursor toks fault?)
    (isFault : fault? = some fault) :
    cursor.Marks fault ∧ ∀ token ∈ toks, token.lexeme ≠ .endOfText := by
  induction lexes with
  | fault read =>
      cases isFault
      exact ⟨marks_of_next read, nofun⟩
  | ending read isEnd => cases isFault
  | @token cursor after token _ _ read isToken rest ih =>
      obtain ⟨marks, noEnd⟩ := ih isFault
      obtain ⟨gap, word, yields⟩ := exists_yields read
      constructor
      · have rest : cursor.rest = (gap ++ word) ++ after.rest := by
          rw [yields.rest, List.append_assoc]
        have offset : after.offset = cursor.offset + byteLength (gap ++ word) := by
          rw [yields.offset, Text.byteLength_append, Nat.add_assoc]
        exact marks.in_front rest offset
      · intro other member
        rcases List.mem_cons.mp member with rfl | later
        · exact isToken
        · exact noEnd other later

end Lexes

end Cursor

/-! ## Where the tokens stand -/

/-- How many brackets and braces are open behind the tokens. Those that close more than was opened
do not count. -/
def openGroups (toks : List Token) : Nat :=
  toks.foldl (fun depth token => token.lexeme.depthPast depth) 0

/-- The position behind what is written for the tokens, a closing quote included. -/
def writtenUpTo (toks : List Token) : Nat :=
  match toks.getLast? with
  | none => 0
  | some token => token.stop + token.lexeme.lead

/-- The token is written right behind those before it, or behind blanks if a bracket or a brace is
open there. -/
inductive Token.Placed (text : List Char) (before : List Token) (token : Token) : Prop where
  | mk {passed gap word rest : List Char} (isText : text = passed ++ (gap ++ (word ++ rest)))
      (behind : byteLength passed = writtenUpTo before) (isBlanks : Blanks gap)
      (allowed : openGroups before = 0 → gap = []) (written : token.lexeme.Written word)
      (start : token.start = byteLength (passed ++ gap) + token.lexeme.lead)

/-- The text of the token is what the text holds from its start on. -/
theorem Token.Placed.exists_around {text : List Char} {before : List Token} {token : Token}
    (placed : token.Placed text before) :
    ∃ left right, text = left ++ (token.text ++ right) ∧ token.start = byteLength left := by
  obtain @⟨passed, gap, word, rest, rfl, _, _, _, written, start⟩ := placed
  obtain ⟨left, right, rfl, isLead, _⟩ := written.exists_around
  refine ⟨passed ++ gap ++ left, right ++ rest, ?_, ?_⟩
  · simp [Token.text]
  · rw [start, Text.byteLength_append _ left, isLead]

/-- The cursor stands in the text behind what is written for the tokens. -/
structure Cursor.Follows (cursor : Cursor) (text : List Char) (before : List Token) : Prop where
  exists_passed : ∃ passed, text = passed ++ cursor.rest ∧ cursor.offset = byteLength passed
  offset : cursor.offset = writtenUpTo before
  depth : cursor.depth = openGroups before

namespace Cursor

variable {cursor after : Cursor} {token : Token} {text : List Char} {before toks : List Token}
  {fault? : Option Diagnostic}

theorem follows_ofText (text : List Char) : (ofText text).Follows text [] :=
  ⟨⟨[], rfl, rfl⟩, rfl, rfl⟩

theorem Follows.step (follows : cursor.Follows text before)
    (read : cursor.next = (.ok token, after)) :
    token.Placed text before ∧ after.Follows text (before ++ [token]) := by
  obtain ⟨gap, word, yields⟩ := exists_yields read
  obtain ⟨passed, rfl, offset⟩ := follows.exists_passed
  constructor
  · refine .mk (congrArg (passed ++ ·) yields.rest) (offset.symm.trans follows.offset)
      yields.isBlanks ?_ yields.written ?_
    · rw [← follows.depth]
      exact yields.allowed
    · rw [yields.start, offset, Text.byteLength_append]
  · refine ⟨⟨passed ++ gap ++ word, ?_, ?_⟩, ?_, ?_⟩
    · simp [yields.rest]
    · rw [yields.offset, offset, Text.byteLength_append, Text.byteLength_append]
    · rw [writtenUpTo, List.getLast?_concat]
      exact yields.offset_eq
    · rw [openGroups, List.foldl_append, yields.depth, follows.depth]
      rfl

theorem Lexes.placed (lexes : Lexes cursor toks fault?) (follows : cursor.Follows text before)
    {early late : List Token} (split : toks = early ++ token :: late) :
    token.Placed text (before ++ early) := by
  induction lexes generalizing before early with
  | fault read => simp at split
  | ending read isEnd =>
      obtain ⟨rfl, same⟩ := List.append_eq_singleton_iff.mp split.symm |>.resolve_right (by simp)
      cases same
      rw [List.append_nil]
      exact (follows.step read).1
  | token read isToken rest ih =>
      obtain ⟨placed, onward⟩ := follows.step read
      cases early with
      | nil =>
          cases split
          rw [List.append_nil]
          exact placed
      | cons first others =>
          cases split
          have later := ih onward rfl
          rw [List.append_assoc] at later
          exact later

end Cursor

/-! ## Whole texts -/

/-- The tokens of a text, or those up to its first fault. -/
structure Lexed (text : List Char) (toks : List Token) (fault? : Option Diagnostic) : Prop where
  steps : toks.length + fault?.toList.length ≤ text.length + 1
  complete : fault? = none → ∃ before, toks = before ++ [⟨.endOfText, byteLength text⟩] ∧
    ∀ token ∈ before, token.lexeme ≠ .endOfText
  faulty : ∀ fault, fault? = some fault → (∀ token ∈ toks, token.lexeme ≠ .endOfText) ∧
    ∃ left c right, text = left ++ c :: right ∧ fault.column = byteLength left + 1
  placed : ∀ before token after, toks = before ++ token :: after → token.Placed text before
  spans : ∀ token ∈ toks, Text.slice token.start token.stop text = token.text ∧
    ∃ left right, text = left ++ (token.text ++ right) ∧ token.start = byteLength left
  ordered : toks.Pairwise fun first second =>
    first.start < second.start ∧ first.stop ≤ second.start
  topics : ∀ token ∈ toks, ∀ name, token.lexeme = .topic name → token.start = 0

theorem Cursor.Lexes.lexed {text : List Char} {toks : List Token} {fault? : Option Diagnostic}
    (lexes : (ofText text).Lexes toks fault?) : Lexed text toks fault? := by
  have placed : ∀ before token after, toks = before ++ token :: after →
      token.Placed text before :=
    fun _ _ _ split => lexes.placed (follows_ofText text) split
  refine ⟨lexes.length_le, fun noFault => ?_, fun fault isFault => ?_, placed, ?_, lexes.ordered,
    fun token member name => lexes.start_of_topic member⟩
  · obtain ⟨before, split, noEnd⟩ := lexes.complete noFault
    rw [finish, ofText, Nat.zero_add] at split
    exact ⟨before, split, noEnd⟩
  · obtain ⟨⟨left, c, right, isText, column⟩, noEnd⟩ := lexes.marks isFault
    rw [ofText, Nat.zero_add] at column
    exact ⟨noEnd, left, c, right, isText, column⟩
  · intro token member
    obtain ⟨before, after, split⟩ := List.append_of_mem member
    obtain ⟨left, right, rfl, start⟩ := (placed before token after split).exists_around
    refine ⟨?_, left, right, rfl, start⟩
    rw [Token.stop, start, Text.slice_middle]

theorem lexed_tokens (text : List Char) : Lexed text (tokens text).1 (tokens text).2 :=
  (lexes_tokens (Nat.lt_succ_self _)).lexed

/-! ## Positions in 32 bits -/

/-- A word of 32 bits holds the position, and the column that starts there. -/
def FitsWord (position : Nat) : Prop :=
  (UInt32.ofNat position).toNat = position ∧ (UInt32.ofNat position + 1).toNat = position + 1

theorem fitsWord_of_le {text : String} (fits : text.utf8ByteSize ≤ maxByteLength) {position : Nat}
    (within : position ≤ byteLength text.toList) : FitsWord position := by
  rw [Text.utf8ByteSize_eq, maxByteLength] at fits
  constructor
  · rw [UInt32.toNat_ofNat']
    omega
  · rw [UInt32.toNat_add, UInt32.toNat_ofNat']
    have one : UInt32.toNat 1 = 1 := rfl
    omega

/-- Reading tokens loses nothing and ends: one step more than there are characters reaches the end
of the text or a fault. -/
theorem tokens_lose_nothing {text : String} (fits : text.utf8ByteSize ≤ maxByteLength) :
    ∃ toks fault?, tokens text.toList = (toks, fault?) ∧ Lexed text.toList toks fault? ∧
      (∀ token ∈ toks, FitsWord token.start ∧ FitsWord token.stop) ∧
      ∀ fault, fault? = some fault → 1 ≤ fault.column ∧ FitsWord (fault.column - 1) := by
  have lexed := lexed_tokens text.toList
  refine ⟨_, _, rfl, lexed, fun token member => ?_, fun fault isFault => ?_⟩
  · obtain ⟨_, left, right, isText, start⟩ := lexed.spans token member
    have size : byteLength text.toList = byteLength left + (byteLength token.text +
        byteLength right) := by
      rw [isText, Text.byteLength_append, Text.byteLength_append]
    constructor
    · exact fitsWord_of_le fits (by omega)
    · exact fitsWord_of_le fits (by rw [Token.stop]; omega)
  · obtain ⟨_, left, c, right, isText, column⟩ := lexed.faulty fault isFault
    have size : byteLength text.toList = byteLength left + byteLength (c :: right) := by
      rw [isText, Text.byteLength_append]
    exact ⟨by omega, fitsWord_of_le fits (by omega)⟩

/-- The quoted character takes two bytes. -/
theorem tokens_lose_nothing_accent :
    "/t\x7b a=='é'\x7d".utf8ByteSize ≤ maxByteLength ∧
      ∃ toks, tokens "/t\x7b a=='é'\x7d".toList = (toks, none) ∧ toks.length = 7 ∧
        Lexed "/t\x7b a=='é'\x7d".toList toks none ∧ ⟨.quoted ['é'], 8⟩ ∈ toks ∧
        ∀ token ∈ toks, FitsWord token.start ∧ FitsWord token.stop := by
  have fits : "/t\x7b a=='é'\x7d".utf8ByteSize ≤ maxByteLength := by decide
  obtain ⟨toks, fault?, read, lexed, words, _⟩ := tokens_lose_nothing fits
  cases read
  exact ⟨fits, _, rfl, rfl, lexed, by decide, words⟩

end MessageQuery.Path
