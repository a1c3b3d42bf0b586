import StagePlay.Proofs.Script.RoundTrip
import StagePlay.Proofs.Stage.Edits
import StagePlay.Script.Field

/-!
# StagePlay.Proofs.Script.Field

Typing into a field of a block and reading the block off a text come to the same.

`retyped` puts a string in place of one member of a block's object. Reading the object gives the
block that the edit makes, and `contents` says that no other field of it is changed. On texts this
takes a reader for which the numbers of the block are the closest doubles.

* `Command.ofValue?_retyped`: the value of the object is taken as the edited block.
* `Command.setField_retyped`: so is its text, alone and in a script.
-/

namespace StagePlay

open Json (Value consume quoted)
open Json.Reading (Member Reads)

/-- What a field of a block holds, the body of a loop included. -/
inductive Content where
  | number (x : Float)
  | times (n : UInt32)
  | text (s : String)
  | body (s : Script)

/-- All but a body can be typed. -/
def Content.isScalar : Content → Bool
  | .number _ | .times _ | .text _ => true
  | .body _ => false

variable {c c' : Command} {field raw : String} {d : Nat}

namespace Command

/-- The fields of a block in the order of its object, with what they hold. -/
def contents : Command → List (String × Content)
  | .steer (.advance x) | .steer (.turn x) => [("value", .number x)]
  | .steer (.goTo x y) => [("x", .number x), ("y", .number y)]
  | .loop times body => [("times", .times times), ("commands", .body body)]
  | .wait seconds => [("seconds", .number seconds)]
  | .speak _ text => [("text", .text text)]
  | .appear _ | .unknown => []

/-- The members of a block's object with this string in place of one of them. -/
def retyped (c : Command) (field raw : String) : List Member :=
  c.members.map fun m => if m.name = field then ⟨m.name, quoted raw, .text raw⟩ else m

/-- The text of a block's object with this string in place of one member. -/
def retypedText (c : Command) (field raw : String) : List Char :=
  blockText c.kind ((c.retyped field raw).map fun m => memberText m.name m.text)

theorem retyped_ne_type (c : Command) (field raw : String) :
    ∀ m ∈ c.retyped field raw, m.name ≠ "type" := by
  intro m hm
  obtain ⟨m', hm', rfl⟩ := List.mem_map.mp hm
  have hne := c.members_ne_type m' hm'
  split
  · exact hne
  · exact hne

/-- A field that is read off a string is read as it is typed. -/
theorem numberField_text (default : Float) (raw : String) :
    numberField default (some (.text raw)) = numberOr default raw := rfl

/-- A block whose object has a string for one member is the block with this field edited. -/
theorem ofValue?_retyped (h : ∀ b ∈ c.outlineAt d, b.2.Regular)
    (he : c.edit? field raw = some c') :
    ofValue? (blockValue c.kind (c.retyped field raw)) = some c' := by
  rw [ofValue?_blockValue _ (c.retyped_ne_type field raw)]
  unfold edit? at he
  -- a field that is not typed is read off its own value, as in `ofValue?_value`
  split at he
  · cases he
    simp [kind, retyped, members, Json.member?, assemble?, numberField_text]
  · cases he
    simp [kind, retyped, members, Json.member?, assemble?, numberField_text]
  · rename_i x y
    cases he
    have hxy : x.isFinite = true ∧ y.isFinite = true := h _ (List.mem_singleton_self _)
    simp [kind, retyped, members, Json.member?, assemble?, numberField_text,
      numberField_numberValue _ hxy.2]
  · rename_i x y
    cases he
    have hxy : x.isFinite = true ∧ y.isFinite = true := h _ (List.mem_singleton_self _)
    simp [kind, retyped, members, Json.member?, assemble?, numberField_text,
      numberField_numberValue _ hxy.1]
  · rename_i times body
    cases he
    have hbody := blocks?_values body (Script.forall_outlineAt_body h)
    simp [kind, retyped, members, Json.member?, assemble?, bodies, isBodyName, bodyOf, hbody,
      numberField_text]
  · cases he
    simp [kind, retyped, members, Json.member?, assemble?, numberField_text]
  · rename_i k text
    cases he
    cases k <;> simp [kind, retyped, members, Json.member?, assemble?, SpeechKind.name, textField]
  · cases he

theorem fields_eq (c : Command) : c.fields = (c.contents.filter (·.2.isScalar)).map (·.1) := by
  match c with
  | .steer (.advance _) | .steer (.turn _) | .steer (.goTo _ _) => rfl
  | .appear _ | .wait _ | .speak _ _ | .loop _ _ | .unknown => rfl

theorem mem_fields_iff :
    field ∈ c.fields ↔
      ∃ content : Content, content.isScalar = true ∧ (field, content) ∈ c.contents := by
  rw [fields_eq]
  constructor
  · intro h
    obtain ⟨⟨name, content⟩, hmem, rfl⟩ := List.mem_map.mp h
    obtain ⟨hcontent, hscalar⟩ := List.mem_filter.mp hmem
    exact ⟨content, hscalar, hcontent⟩
  · rintro ⟨content, hscalar, hcontent⟩
    exact List.mem_map.mpr ⟨(field, content), List.mem_filter.mpr ⟨hcontent, hscalar⟩, rfl⟩

/-- An edit keeps what all other fields hold. -/
theorem contents_edit? (he : c.edit? field raw = some c') :
    c'.contents.filter (·.1 ≠ field) = c.contents.filter (·.1 ≠ field) := by
  unfold edit? at he
  split at he
  all_goals cases he
  all_goals rfl

section

variable [Json.Rounding]

/-- The string in place of a member is read, and so are the members that are as they were. -/
theorem reads_retyped {limit : Nat} (hread : ∀ b ∈ c.outlineAt d, b.2.ReadsClosest)
    (h : c.value.depth ≤ limit) :
    ∀ m ∈ c.retyped field raw, Reads limit 1 m.text m.value := by
  have hvalue : c.value.depth = _ := depth_blockValue c.kind c.members
  intro m hm
  obtain ⟨m', hm', rfl⟩ := List.mem_map.mp hm
  split
  · exact Json.Reading.reads_quoted raw
  · exact reads_members c hread (by omega) m' hm'

theorem consume_retypedText {limit : Nat} (hread : ∀ b ∈ c.outlineAt d, b.2.ReadsClosest)
    (h : c.value.depth ≤ limit) :
    consume (Json.Reading.step limit) .start (c.retypedText field raw)
      = .ended (blockValue c.kind (c.retyped field raw)) := by
  have hvalue : c.value.depth = _ := depth_blockValue c.kind c.members
  exact consume_blockText (.inl rfl) (by rw [List.length_nil]; omega) (reads_retyped hread h)

/-- A text that its last character completes is the block that its value is. -/
theorem feed_of_ended {r : Json.Reading} {cs : List Char} {v : Value} (offset : Nat)
    (h : consume (Json.Reading.step Json.depthLimit) r cs = .ended v)
    (hv : ofValue? v = some c) : feed r offset cs = .ok c := by
  induction cs generalizing r offset with
  | nil => cases h
  | cons d cs ih =>
    rw [feed]
    rcases Json.of_consume_cons_ended h with ⟨rfl, hs⟩ | ⟨next, hs, hcs⟩
    · rw [hs]
      simp [conclude, hv]
    · rw [hs]
      exact ih _ hcs

theorem parse_retypedText (hread : ∀ b ∈ c.outlineAt d, b.2.ReadsClosest)
    (h : c.value.depth ≤ Json.depthLimit)
    (hc' : ofValue? (blockValue c.kind (c.retyped field raw)) = some c') :
    parse (String.ofList (c.retypedText field raw)) = .ok c' := by
  rw [parse, String.toList_ofList, feed_of_ended 0 (consume_retypedText hread h) hc']

end

end Command

section

variable [Json.Rounding]

/-- A script of one block that has a string for one of its members. -/
theorem Script.parse_retypedText (hread : ∀ b ∈ c.outlineAt d, b.2.ReadsClosest)
    (h : c.value.depth ≤ ScriptReading.blockDepth)
    (hc' : Command.ofValue? (blockValue c.kind (c.retyped field raw)) = some c') :
    Script.parse (String.ofList ('[' :: (c.retypedText field raw ++ [']']))) = .ok [c'] := by
  have hblock : consume ScriptReading.step ⟨[], .firstBlock⟩ (c.retypedText field raw)
      = .more ⟨[c'], .blockEnd⟩ := by
    rw [Command.retypedText, blockText, List.cons_append,
      ScriptReading.consume_start [] (.inl rfl) rfl (by decide)]
    have htext := @Command.consume_retypedText c field raw d _ _ hread h
    have hended := ScriptReading.consume_ended [] htext
    rw [ScriptReading.accept, hc'] at hended
    exact hended
  have hended : consume ScriptReading.step .start ('[' :: (c.retypedText field raw ++ [']']))
      = .ended [c'] := by
    rw [Json.consume_cons (t := ⟨[], .firstBlock⟩) rfl, Json.consume_append _ hblock,
      Json.consume_singleton]
    rfl
  rw [Script.parse, String.toList_ofList, ScriptReading.feed_of_ended hended]

end

namespace Command

theorem setField_eq_ok_iff : c.setField field raw = .ok c' ↔ c.edit? field raw = some c' := by
  unfold setField
  cases c.edit? field raw <;> simp

theorem exists_setField_iff :
    (∃ c', c.setField field raw = .ok c') ↔
      ∃ content : Content, content.isScalar = true ∧ (field, content) ∈ c.contents := by
  simp only [setField_eq_ok_iff]
  rw [← Option.isSome_iff_exists, Option.isSome_iff_ne_none, ne_eq, edit?_eq_none_iff, not_not,
    mem_fields_iff]

theorem setField_error {e : FieldError} (he : c.setField field raw = .error e) :
    e = ⟨c.kind, field⟩ ∧ c.edit? field raw = none := by
  unfold setField at he
  split at he
  · cases he
  · rename_i hnone
    cases he
    exact ⟨rfl, hnone⟩

/-- **Typing and reading agree.** On a block with finite numbers and no negative waits that nests no
deeper than the reader goes, an edit succeeds exactly for the fields that can be typed. What was
typed is then taken as it is off the object of the block with this string in the place of the field,
and nothing else of the block changes. So it is off the text of that object, alone or in a script,
by a reader that takes the numbers in it for the closest doubles. A failure names the block and the
field, and leaves a stage as it was. -/
theorem setField_retyped [Json.Rounding] {c : Command} (h : ∀ b ∈ c.outlineAt 0, b.2.Regular)
    (hdepth : c.value.depth ≤ Json.depthLimit) (field raw : String) :
    ((∃ c', c.setField field raw = .ok c') ↔
      ∃ content : Content, content.isScalar = true ∧ (field, content) ∈ c.contents) ∧
    (∀ c', c.setField field raw = .ok c' →
      ofValue? (blockValue c.kind (c.retyped field raw)) = some c' ∧
      c'.kind = c.kind ∧
      c'.contents.filter (·.1 ≠ field) = c.contents.filter (·.1 ≠ field) ∧
      ((∀ b ∈ c.outlineAt 0, b.2.ReadsClosest) →
        parse (String.ofList (c.retypedText field raw)) = .ok c' ∧
        (c.value.depth < Json.depthLimit →
          Script.parse (String.ofList ('[' :: (c.retypedText field raw ++ [']']))) = .ok [c']))) ∧
    (∀ e, c.setField field raw = .error e → e = ⟨c.kind, field⟩ ∧
      ∀ (s : Stage) (a : Actor) (before later : Script), s.find? a.id = some a →
        a.script = before ++ c :: later →
        s.carryOut (.setBlockField a.id before.length field raw) = ⟨s, [], .error (.field e)⟩) := by
  refine ⟨exists_setField_iff, fun c' hc' => ?_, fun e he => ?_⟩
  · have hedit := setField_eq_ok_iff.mp hc'
    have hvalue := ofValue?_retyped h hedit
    refine ⟨hvalue, kind_edit? hedit, contents_edit? hedit, fun hread => ?_⟩
    refine ⟨parse_retypedText hread hdepth hvalue, fun hlt => ?_⟩
    exact Script.parse_retypedText hread (Nat.le_sub_one_of_lt hlt) hvalue
  · obtain ⟨rfl, hnone⟩ := setField_error he
    refine ⟨rfl, fun s a before later ha hscript => ?_⟩
    exact (Stage.edits_of_find? ha).noField before c later field raw hscript
      (edit?_eq_none_iff.mp hnone)

open scoped Json.FastRounding in
/-- A loop that is typed to run two and a half times runs three times; its body cannot be typed. -/
theorem setField_retyped_loop :
    parse
        "\x7b\"type\":\"repeat\",\"times\":\"\\t2.5\",\"commands\":[\x7b\"type\":\"hide\"\x7d]\x7d"
        = .ok (.loop 3 [.appear false]) ∧
      ¬ ∃ c', (Command.loop 2 [.appear false]).setField "commands" "[]" = .ok c' := by
  have hregular : ∀ b ∈ (Command.loop 2 [.appear false]).outlineAt 0, b.2.Regular := by
    intro b hb
    rcases List.mem_pair.mp hb with rfl | rfl
    · trivial
    · trivial
  have hdepth : (Command.loop 2 [.appear false]).value.depth ≤ Json.depthLimit := by decide
  constructor
  · have htimes : repeatCount (numberOr Default.times.toFloat "\t2.5") = 3 := by decide +kernel
    have hset : (Command.loop 2 [.appear false]).setField "times" "\t2.5"
        = .ok (.loop 3 [.appear false]) := by
      rw [← htimes]
      rfl
    have hread : ∀ b ∈ (Command.loop 2 [.appear false]).outlineAt 0, b.2.ReadsClosest := by
      decide
    obtain ⟨-, -, -, htext⟩ := (setField_retyped hregular hdepth "times" "\t2.5").2.1 _ hset
    have hparse := (htext hread).1
    rw [← hparse]
    exact congrArg parse (by decide +kernel)
  · rw [(setField_retyped hregular hdepth "commands" "[]").1]
    rintro ⟨content, hscalar, hmem⟩
    simp [contents] at hmem
    subst hmem
    cases hscalar

end Command

end StagePlay
