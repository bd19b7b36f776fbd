import MessageQuery.Proofs.Path.Completeness

/-!
# Paths put together and taken apart

Components that follow one another are read one by one, so a path without a modifier can be
continued by the text of further components, and every component of a path has a text of its own.
What stands before that text is the path of the earlier components.
-/

namespace MessageQuery

theorem Text.utf8ByteSize_eq (text : String) : text.utf8ByteSize = byteLength text.toList := by
  have ofList : ∀ cs : List Char, (String.ofList cs).utf8ByteSize = byteLength cs := by
    intro cs
    induction cs with
    | nil => rfl
    | cons c rest ih =>
        have split : String.ofList (c :: rest) = String.singleton c ++ String.ofList rest := by
          rw [← String.toList_inj]
          simp
        rw [split, String.utf8ByteSize_append, ih, String.utf8ByteSize_singleton, byteLength]
  rw [← ofList text.toList, String.ofList_toList]

namespace Path

open Text (byteLength)

namespace Grammar.Components

variable {start : Nat} {cs later : List Char} {earlier others : List Path.Component}
  {component : Path.Component} {modifier : Option Modifier}

/-- Further components may follow where no modifier ends the path. -/
theorem append (first : Components start cs earlier none)
    (second : Components (start + byteLength cs) later others modifier) :
    Components start (cs ++ later) (earlier ++ others) modifier := by
  generalize none? : (none : Option Modifier) = ended at first
  induction first with
  | nil => exact second
  | json => cases none?
  | @cons start word behind component components ended isComponent _ ih =>
      rw [Text.byteLength_append, ← Nat.add_assoc] at second
      rw [List.append_assoc]
      exact .cons isComponent (ih second none?)

theorem single (isComponent : Grammar.Component start cs component) :
    Components start cs [component] none := by
  have whole := cons isComponent nil
  rwa [List.append_nil] at whole

theorem exists_split (derived : Components start cs (earlier ++ component :: others) modifier) :
    ∃ before word after, cs = before ++ (word ++ after) ∧
      Components start before earlier none ∧
      Grammar.Component (start + byteLength before) word component := by
  induction earlier generalizing start cs with
  | nil =>
      cases derived with
      | @cons _ word after _ _ _ isComponent _ =>
          exact ⟨[], word, after, rfl, .nil, isComponent⟩
  | cons first earlier ih =>
      cases derived with
      | @cons _ front behind _ _ _ isFirst rest =>
          obtain ⟨before, word, after, rfl, isBefore, isComponent⟩ := ih rest
          refine ⟨front ++ before, word, after, by rw [List.append_assoc],
            .cons isFirst isBefore, ?_⟩
          rw [Text.byteLength_append, ← Nat.add_assoc]
          exact isComponent

end Grammar.Components

open Grammar (Components)

variable {text : String} {path : Path}

theorem fits_of_parse? (reads : parse? text = some path) : text.utf8ByteSize ≤ maxByteLength := by
  apply Nat.le_of_not_lt
  intro long
  unfold parse? parse open? at reads
  rw [if_pos long] at reads
  cases reads

theorem parse?_of_derives (fits : text.utf8ByteSize ≤ maxByteLength) (derived : Derives text path) :
    parse? text = some path := by
  apply (parse?_eq_some_of_fits (Nat.not_lt.mpr fits)).mpr
  cases derived with
  | mk isTopic rest =>
      rw [String.toList_ofList]
      exact Parser.path_complete isTopic rest

/-- The topic and the components of a text that reads. -/
theorem exists_components_of_parse? (reads : parse? text = some path) :
    ∃ later, text.toList = path.topic.toList ++ later ∧ Grammar.Topic path.topic.toList ∧
      Components (byteLength path.topic.toList) later path.components path.modifier := by
  cases derives_of_parse? reads with
  | @mk topic later _ _ isTopic rest =>
      refine ⟨later, ?_, ?_, ?_⟩
      · rw [String.toList_ofList, String.toList_ofList]
      · rw [String.toList_ofList]
        exact isTopic
      · rw [String.toList_ofList]
        exact rest

theorem parse?_of_components {later : List Char} {components : List Path.Component}
    {modifier : Option Modifier} {topic : String} (isTopic : Grammar.Topic topic.toList)
    (derived : Components (byteLength topic.toList) later components modifier)
    (fits : byteLength (topic.toList ++ later) ≤ maxByteLength) :
    parse? (String.ofList (topic.toList ++ later)) =
      some { source := String.ofList (topic.toList ++ later), topic, components, modifier } := by
  have whole := Derives.mk isTopic derived
  rw [String.ofList_toList] at whole
  refine parse?_of_derives ?_ whole
  rw [Text.utf8ByteSize_eq, String.toList_ofList]
  exact fits

/-- A path without a modifier is continued by components behind its text. -/
theorem parse?_append {word : List Char} {components : List Path.Component}
    {modifier : Option Modifier} (reads : parse? text = some path) (plain : path.modifier = none)
    (derived : Components text.utf8ByteSize word components modifier)
    (fits : (text ++ String.ofList word).utf8ByteSize ≤ maxByteLength) :
    parse? (text ++ String.ofList word) =
      some { source := text ++ String.ofList word, topic := path.topic,
             components := path.components ++ components, modifier } := by
  obtain ⟨later, split, isTopic, first⟩ := exists_components_of_parse? reads
  rw [plain] at first
  have source : text ++ String.ofList word =
      String.ofList (path.topic.toList ++ (later ++ word)) := by
    rw [← String.toList_inj, String.toList_append, split]
    simp
  rw [Text.utf8ByteSize_eq, split, Text.byteLength_append] at derived
  rw [Text.utf8ByteSize_eq, source, String.toList_ofList] at fits
  rw [source]
  exact parse?_of_components isTopic (first.append derived) fits

/-- Each component has a text of its own. The text before it is the path of the components before
it, and up to its end the text is the path that ends with it. -/
theorem exists_split_of_parse? {earlier later : List Path.Component} {component : Path.Component}
    (reads : parse? text = some path) (split : path.components = earlier ++ component :: later) :
    ∃ before word after : List Char, text.toList = before ++ (word ++ after) ∧
      parse? (String.ofList before) =
        some { source := String.ofList before, topic := path.topic, components := earlier,
               modifier := none } ∧
      parse? (String.ofList (before ++ word)) =
        some { source := String.ofList (before ++ word), topic := path.topic,
               components := earlier ++ [component], modifier := none } ∧
      Grammar.Component (byteLength before) word component := by
  obtain ⟨rest, isText, isTopic, derived⟩ := exists_components_of_parse? reads
  rw [split] at derived
  obtain ⟨front, word, after, rfl, isFront, isComponent⟩ := derived.exists_split
  have fits := fits_of_parse? reads
  rw [Text.utf8ByteSize_eq, isText] at fits
  simp only [Text.byteLength_append] at fits
  refine ⟨path.topic.toList ++ front, word, after, ?_, ?_, ?_, ?_⟩
  · rw [isText, List.append_assoc]
  · refine parse?_of_components isTopic isFront ?_
    rw [Text.byteLength_append]
    omega
  · rw [List.append_assoc]
    refine parse?_of_components isTopic (isFront.append (.single isComponent)) ?_
    simp only [Text.byteLength_append]
    omega
  · rw [Text.byteLength_append]
    exact isComponent

end Path

end MessageQuery
