import StagePlay.Script.Reading

/-!
# StagePlay.Proofs.Script.Step

What one character does to the reader of a script, case by case.

`Took` has a case for each way in which the reader can take a character, and says what the
character must be. What holds of every step is proved from these cases.

* `Json.Reading.number_of_before`: only a number is complete before a character that is not part
  of it.
* `ScriptReading.took_step`: each step is one of the cases.
-/

namespace StagePlay

open Json (Cause Fault Step)

/-! ## Values -/

namespace Json.Reading

variable {limit : Nat} {stack : List Frame} {c : Char} {v : Value}

theorem deliver_ne_before (stack : List Frame) (v w : Value) : deliver stack v ≠ .before w := by
  unfold deliver
  split <;> nofun

theorem close_ne_before (stack : List Frame) (w : Value) : close stack ≠ .before w := by
  unfold close
  split
  · exact deliver_ne_before _ _ _
  · exact deliver_ne_before _ _ _
  · nofun

theorem afterValue_ne_before (stack : List Frame) (c : Char) (w : Value) :
    afterValue stack c ≠ .before w := by
  unfold afterValue
  repeat' split
  all_goals first
    | exact close_ne_before _ _
    | nofun

theorem startValue_ne_before (stack : List Frame) (c : Char) (w : Value) :
    startValue limit stack c ≠ .before w := by
  unfold startValue openFrame
  repeat' split
  all_goals nofun

variable [Rounding]

/-- Only a number that is no part of another value is complete before a character. -/
theorem number_of_before {r : Reading} (h : r.step limit c = .before v) :
    ∃ number n, r = ⟨[], .number number⟩ ∧ number.step c = .before n ∧ v = .number n := by
  obtain ⟨stack, e⟩ := r
  cases e with
  | number number =>
    simp only [step] at h
    split at h
    · cases h
    · exact absurd h (deliver_ne_before _ _ _)
    · rename_i n hn
      cases stack with
      | nil =>
        cases h
        exact ⟨number, n, rfl, hn, rfl⟩
      | cons frame rest =>
        split at h
        · exact absurd h (afterValue_ne_before _ _ _)
        · rename_i w hw
          cases frame with
          | array items => cases hw
          | object members key => cases key <;> cases hw
        · exact absurd h (deliver_ne_before _ _ _)
    · cases h
  | itemEnd | memberEnd => exact absurd h (afterValue_ne_before _ _ _)
  | value | firstItem | nextItem | firstKey | nextKey | colon | word _ _ _ | text _ | key _ =>
    simp only [step] at h
    repeat' split at h
    all_goals first
      | exact absurd h (startValue_ne_before _ _ _)
      | exact absurd h (close_ne_before _ _)
      | exact absurd h (deliver_ne_before _ _ _)
      | cases h

end Json.Reading

/-! ## Scripts -/

/-- No value is being read. -/
def ScriptPhase.Between : ScriptPhase → Prop
  | .opening | .firstBlock | .nextBlock | .blockEnd | .refused _ => True
  | .block _ | .other _ => False

/-- The next character is taken by the reader of a block. -/
inductive ScriptPhase.Reads : ScriptPhase → Json.Reading → Char → Prop where
  | first {phase : ScriptPhase} {c : Char} : phase = .firstBlock ∨ phase = .nextBlock →
      Json.isBlank c = false → c ≠ ']' → Reads phase .start c
  | more {inner : Json.Reading} {c : Char} : Reads (.block inner) inner c

/-- The next character is taken by the reader of a value that is no array. -/
inductive ScriptPhase.ReadsOther : ScriptPhase → Json.Reading → Char → Prop where
  | first {c : Char} : Json.isBlank c = false → c ≠ '[' → c ≠ '{' → ReadsOther .opening .start c
  | more {inner : Json.Reading} {c : Char} : ReadsOther (.other inner) inner c

variable [Json.Rounding]

namespace ScriptReading

/-- What the reader makes of a character. -/
inductive Took : Script → ScriptPhase → Char → Step ScriptCause ScriptReading Script → Prop where
  | blank {blocks : Script} {phase : ScriptPhase} {c : Char} : phase.Between →
      Json.isBlank c = true → Took blocks phase c (.more ⟨blocks, phase⟩)
  | opened {blocks : Script} : Took blocks .opening '[' (.more ⟨blocks, .firstBlock⟩)
  | map {blocks : Script} :
      Took blocks .opening '{' (.refused ⟨.notAList (valueName (.object [])), [], 0⟩)
  | other {blocks : Script} {phase : ScriptPhase} {inner inner' : Json.Reading} {c : Char} :
      phase.ReadsOther inner c → inner.step Json.depthLimit c = .more inner' →
      Took blocks phase c (.more ⟨blocks, .other inner'⟩)
  | otherEnd {blocks : Script} {phase : ScriptPhase} {inner : Json.Reading} {c : Char}
      (v : Json.Value) (beyond : Nat) : phase.ReadsOther inner c →
      Took blocks phase c (.refused ⟨.notAList (valueName v), [], beyond⟩)
  | otherFault {blocks : Script} {phase : ScriptPhase} {inner : Json.Reading} {c : Char}
      {f : Fault Cause} : phase.ReadsOther inner c → inner.step Json.depthLimit c = .refused f →
      Took blocks phase c (.refused ⟨.json f.cause, f.path, f.beyond⟩)
  | ended {blocks : Script} {phase : ScriptPhase} : phase = .firstBlock ∨ phase = .blockEnd →
      Took blocks phase ']' (.ended blocks.reverse)
  | trailingComma {blocks : Script} : Took blocks .nextBlock ']' (refuse .trailingComma 1)
  | comma {blocks : Script} : Took blocks .blockEnd ',' (.more ⟨blocks, .nextBlock⟩)
  | noComma {blocks : Script} {c : Char} : Json.isBlank c = false → c ≠ ',' → c ≠ ']' →
      Took blocks .blockEnd c (refuse .itemEndExpected 1)
  | inside {blocks : Script} {phase : ScriptPhase} {inner inner' : Json.Reading} {c : Char} :
      phase.Reads inner c → inner.step blockDepth c = .more inner' →
      Took blocks phase c (.more ⟨blocks, .block inner'⟩)
  | fault {blocks : Script} {phase : ScriptPhase} {inner : Json.Reading} {c : Char}
      {f : Fault Cause} : phase.Reads inner c → inner.step blockDepth c = .refused f →
      Took blocks phase c (.refused (blockFault ⟨blocks, phase⟩ f))
  | block {blocks : Script} {phase : ScriptPhase} {inner : Json.Reading} {c : Char}
      {v : Json.Value} {b : Command} : phase.Reads inner c → inner.step blockDepth c = .ended v →
      Command.ofValue? v = some b → Took blocks phase c (.more ⟨b :: blocks, .blockEnd⟩)
  /-- A block with two bodies. -/
  | doubled {blocks : Script} {phase : ScriptPhase} {inner : Json.Reading} {c : Char}
      {v : Json.Value} : phase.Reads inner c → inner.step blockDepth c = .ended v →
      Command.ofValue? v = none → Took blocks phase c (.more ⟨blocks, .refused false⟩)
  /-- A number is complete, and the character is taken as one behind it. -/
  | number {blocks : Script} {r : Json.NumberReading} {n : Json.Number} {c : Char}
      {s : Step ScriptCause ScriptReading Script} : r.step c = .before n →
      Took (.unknown :: blocks) .blockEnd c s → Took blocks (.block ⟨[], .number r⟩) c s
  | separated {blocks : Script} :
      Took blocks (.refused false) ',' (.more ⟨blocks, .refused true⟩)
  | bodyTwice {blocks : Script} {separated : Bool} {c : Char} {beyond : Nat} :
      beyond = 0 ∨ (beyond = 1 ∧ c = ']') →
      Took blocks (.refused separated) c
        (.refused (bodyTwice ⟨blocks, .refused separated⟩ beyond))

variable {blocks : Script} {phase : ScriptPhase} {inner : Json.Reading} {c : Char}

theorem took_afterBlock (blocks : Script) (c : Char) :
    Took blocks .blockEnd c (afterBlock ⟨blocks, .blockEnd⟩ c) := by
  unfold afterBlock
  split
  · exact .blank trivial ‹_›
  · rename_i hblank
    split
    · rename_i hc
      exact hc ▸ .comma
    · rename_i hcomma
      split
      · rename_i hc
        exact hc ▸ .ended (.inr rfl)
      · rename_i hbracket
        exact .noComma (eq_false_of_ne_true hblank) hcomma hbracket

theorem took_afterRefusal (blocks : Script) (separated : Bool) (c : Char) :
    Took blocks (.refused separated) c
      (afterRefusal ⟨blocks, .refused separated⟩ separated c) := by
  unfold afterRefusal
  split
  · exact .blank trivial ‹_›
  · split
    · exact .bodyTwice (.inl rfl)
    · rename_i hseparated
      split
      · rename_i hc
        rw [eq_false_of_ne_true hseparated]
        exact hc ▸ .separated
      · split
        · exact .bodyTwice (.inr ⟨rfl, ‹_›⟩)
        · exact .bodyTwice (.inl rfl)

theorem took_insideBlock (h : phase.Reads inner c) :
    Took blocks phase c (insideBlock ⟨blocks, phase⟩ inner c) := by
  unfold insideBlock
  split
  · exact .inside h ‹_›
  · rename_i v hs
    unfold accept
    split
    · exact .block h hs ‹_›
    · exact .doubled h hs ‹_›
  · rename_i v hs
    obtain ⟨r, n, rfl, hn, rfl⟩ := Json.Reading.number_of_before hs
    cases h with
    | more => exact .number hn (took_afterBlock ..)
  · exact .fault h ‹_›

theorem took_insideOther (h : phase.ReadsOther inner c) :
    Took blocks phase c (insideOther ⟨blocks, phase⟩ inner c) := by
  unfold insideOther
  split
  · exact .other h ‹_›
  · exact .otherEnd _ 1 h
  · exact .otherEnd _ 0 h
  · exact .otherFault h ‹_›

theorem took_step (r : ScriptReading) (c : Char) : Took r.blocks r.phase c (r.step c) := by
  obtain ⟨blocks, phase⟩ := r
  cases phase with
  | opening =>
    simp only [step]
    split
    · exact .blank trivial ‹_›
    · rename_i hblank
      split
      · rename_i hc
        exact hc ▸ .opened
      · rename_i hbracket
        split
        · rename_i hc
          exact hc ▸ .map
        · rename_i hbrace
          exact took_insideOther (.first (eq_false_of_ne_true hblank) hbracket hbrace)
  | firstBlock =>
    simp only [step]
    split
    · exact .blank trivial ‹_›
    · rename_i hblank
      split
      · rename_i hc
        exact hc ▸ .ended (.inl rfl)
      · rename_i hbracket
        exact took_insideBlock (.first (.inl rfl) (eq_false_of_ne_true hblank) hbracket)
  | nextBlock =>
    simp only [step]
    split
    · exact .blank trivial ‹_›
    · rename_i hblank
      split
      · rename_i hc
        exact hc ▸ .trailingComma
      · rename_i hbracket
        exact took_insideBlock (.first (.inr rfl) (eq_false_of_ne_true hblank) hbracket)
  | block inner => exact took_insideBlock .more
  | blockEnd => exact took_afterBlock blocks c
  | refused separated => exact took_afterRefusal blocks separated c
  | other inner => exact took_insideOther .more

end ScriptReading

theorem Script.feed_of_parse {text : String} {s : Script} (h : Script.parse text = .ok s) :
    ScriptReading.start.feed 0 text.toList = .ok s := by
  unfold Script.parse at h
  split at h
  · cases h
    assumption
  · cases h

end StagePlay
