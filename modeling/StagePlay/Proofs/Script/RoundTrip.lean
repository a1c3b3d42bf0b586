import StagePlay.Json.FastRounding
import StagePlay.Proofs.Script.Text

/-!
# StagePlay.Proofs.Script.RoundTrip

A script is read back from its JSON text, up to the depth at which the reader gives up. The reader
must take the numbers in the text for the closest doubles.

* `Script.parse_toJson`: with finite numbers and no negative waits a script with at most 62 loops
  around each block is read back as it was; with more loops around some block the reader reports
  that its recursion limit is exceeded.
-/

namespace StagePlay

open Json (consume)
open ScriptReading (blockDepth step)

namespace ScriptReading

def Awaits (phase : ScriptPhase) : Prop := phase = .firstBlock ∨ phase = .nextBlock

variable [Json.Rounding] {r : ScriptReading} {cs : List Char}

/-- What follows the end of a script is not looked at. -/
theorem feed_append {s : Script} (h : consume step r cs = .ended s) (more : List Char)
    (offset : Nat) : r.feed offset (cs ++ more) = .ok s := by
  induction cs generalizing r offset with
  | nil => cases h
  | cons c cs ih =>
    rw [List.cons_append, feed]
    rcases Json.of_consume_cons_ended h with ⟨-, hs⟩ | ⟨next, hs, hcs⟩
    · rw [hs]
    · rw [hs]
      exact ih hcs _

theorem feed_of_ended {s : Script} (h : consume step r cs = .ended s) (offset : Nat) :
    r.feed offset cs = .ok s := by
  have hfeed := feed_append h [] offset
  rwa [List.append_nil] at hfeed

theorem feed_of_refused {f : Json.Fault ScriptCause} (h : consume step r cs = .refused f)
    (offset : Nat) : ∃ n, r.feed offset cs = .error (f, n) := by
  induction cs generalizing r offset with
  | nil => cases h
  | cons c cs ih =>
    rw [feed]
    rcases Json.of_consume_cons_refused h with hs | ⟨next, hs, hcs⟩
    · rw [hs]
      exact ⟨_, rfl⟩
    · rw [hs]
      exact ih hcs _

theorem step_more (blocks : Script) {inner inner' : Json.Reading} {c : Char}
    (h : inner.step blockDepth c = .more inner') :
    step ⟨blocks, .block inner⟩ c = .more ⟨blocks, .block inner'⟩ := by
  simp only [step, insideBlock, h]

theorem step_refused (blocks : Script) {inner : Json.Reading} {c : Char} {f : Json.Fault Json.Cause}
    (h : inner.step blockDepth c = .refused f) :
    step ⟨blocks, .block inner⟩ c
      = .refused ⟨.json f.cause, .index blocks.length :: f.path, f.beyond⟩ := by
  simp only [step, insideBlock, h]
  rfl

/-- A number is a block that is complete before the character that ends it. -/
theorem step_number (blocks : Script) {r : Json.NumberReading} {n : Json.Number} {c : Char}
    (h : r.step c = .before n) :
    step ⟨blocks, .block ⟨[], .number r⟩⟩ c = afterBlock ⟨.unknown :: blocks, .blockEnd⟩ c := by
  have hinner : Json.Reading.step blockDepth ⟨[], .number r⟩ c = .before (.number n) := by
    simp only [Json.Reading.step, h, Json.Reading.deliver]
  simp only [step, insideBlock, hinner]
  rfl

/-- Where a block may start, its first character is taken alike. -/
theorem consume_start (blocks : Script) {phase : ScriptPhase} (h : Awaits phase) {c : Char}
    (hblank : Json.isBlank c = false) (hbracket : c ≠ ']') (more : List Char) :
    consume step ⟨blocks, phase⟩ (c :: more)
      = consume step ⟨blocks, .block .start⟩ (c :: more) := by
  have hinside : insideBlock ⟨blocks, phase⟩ .start c
      = insideBlock ⟨blocks, .block .start⟩ .start c := by
    unfold insideBlock
    split <;> rfl
  have hstep : step ⟨blocks, phase⟩ c = step ⟨blocks, .block .start⟩ c := by
    rcases h with rfl | rfl <;> simp [step, hblank, hbracket, hinside]
  rw [consume, consume, hstep]

theorem consume_start_block (blocks : Script) {phase : ScriptPhase} (h : Awaits phase)
    (c : Command) :
    consume step ⟨blocks, phase⟩ c.text = consume step ⟨blocks, .block .start⟩ c.text := by
  rw [c.text_eq, blockText, List.cons_append]
  exact consume_start blocks h rfl (by decide) _

/-- A value that its last character completes is taken as a block. -/
theorem consume_ended (blocks : Script) {t : List Char} {v : Json.Value}
    (h : consume (Json.Reading.step blockDepth) .start t = .ended v) :
    consume step ⟨blocks, .block .start⟩ t
      = .more ((⟨blocks, .blockEnd⟩ : ScriptReading).accept v) := by
  obtain ⟨init, last, r, rfl, hinit, hlast⟩ := Json.consume_eq_ended h
  have hlift := Json.consume_lift (fun inner => (⟨blocks, .block inner⟩ : ScriptReading))
    (fun _ _ _ => step_more blocks) hinit
  rw [Json.consume_append _ hlift, Json.consume_singleton]
  simp only [step, insideBlock, hlast, accept]

theorem consume_block (blocks : Script) {phase : ScriptPhase} {c c' : Command}
    (hphase : Awaits phase) (hread : ∀ b ∈ c.outlineAt 0, b.2.ReadsClosest)
    (h : ∀ b ∈ c.outlineAt 0, b.1 ≤ 62) (hc' : Command.ofValue? c.value = some c') :
    consume step ⟨blocks, phase⟩ c.text = .more ⟨c' :: blocks, .blockEnd⟩ := by
  have hvalue : consume (Json.Reading.step blockDepth) .start c.text = .ended c.value :=
    Command.consume_text hread h rfl (.inl rfl)
  rw [consume_start_block blocks hphase, consume_ended blocks hvalue, accept, hc']

theorem consume_block_refused (blocks : Script) {phase : ScriptPhase} {c : Command}
    (hphase : Awaits phase) (hread : ∀ b ∈ c.outlineAt 0, b.2.ReadsClosest)
    (h : ∃ b ∈ c.outlineAt 0, 63 ≤ b.1) :
    ∃ path beyond, consume step ⟨blocks, phase⟩ c.text
      = .refused ⟨.json .nestedTooDeeply, path, beyond⟩ := by
  obtain ⟨path, beyond, hrefused⟩ := c.text_refused hread h [] rfl (.inl rfl)
  have hlift := Json.consume_lift_refused (fun inner => (⟨blocks, .block inner⟩ : ScriptReading))
    (fun f => ⟨.json f.cause, .index blocks.length :: f.path, f.beyond⟩)
    (fun _ _ _ => step_more blocks) (fun _ _ _ => step_refused blocks) hrefused
  exact ⟨_, _, by rw [consume_start_block blocks hphase]; exact hlift⟩

theorem consume_blocks (blocks : Script) {s : Script} (hne : s ≠ [])
    (hread : ∀ b ∈ Script.outlineAt 0 s, b.2.ReadsClosest)
    (h : ∀ b ∈ Script.outlineAt 0 s, b.2.Regular ∧ b.1 ≤ 62) {phase : ScriptPhase}
    (hphase : Awaits phase) :
    consume step ⟨blocks, phase⟩ (s.joined ++ [']']) = .ended (blocks.reverse ++ s) := by
  induction s generalizing blocks phase with
  | nil => exact absurd rfl hne
  | cons c s ih =>
    obtain ⟨hfirst, hlater⟩ := Script.forall_outlineAt_cons.mp h
    obtain ⟨hread, hreads⟩ := Script.forall_outlineAt_cons.mp hread
    have hc' := c.ofValue?_value fun b hb => (hfirst b hb).1
    have hc := consume_block blocks hphase hread (fun b hb => (hfirst b hb).2) hc'
    by_cases hnil : s = []
    · subst hnil
      rw [joined_singleton, Json.consume_append _ hc, Json.consume_singleton]
      simp [step, afterBlock, Json.isBlank]
    · have hcomma : consume step ⟨c :: blocks, .blockEnd⟩ [',']
          = .more ⟨c :: blocks, .nextBlock⟩ := rfl
      rw [joined_cons c hnil, Json.consume_append _ hc, Json.consume_append _ hcomma,
        ih _ hnil hreads hlater (.inr rfl)]
      simp

theorem consume_blocks_refused (blocks : Script) {s : Script}
    (hread : ∀ b ∈ Script.outlineAt 0 s, b.2.ReadsClosest)
    (h : ∃ b ∈ Script.outlineAt 0 s, 63 ≤ b.1) {phase : ScriptPhase} (hphase : Awaits phase) :
    ∃ path beyond, consume step ⟨blocks, phase⟩ (s.joined ++ [']'])
      = .refused ⟨.json .nestedTooDeeply, path, beyond⟩ := by
  induction s generalizing blocks phase with
  | nil =>
    obtain ⟨b, hb, -⟩ := h
    cases hb
  | cons c s ih =>
    obtain ⟨hread, hreads⟩ := Script.forall_outlineAt_cons.mp hread
    rcases deep_cons h with hc | ⟨hroom, hne, hlater⟩
    · obtain ⟨path, beyond, hrefused⟩ := consume_block_refused blocks hphase hread hc
      obtain ⟨more, hmore⟩ := joined_eq_append c s
      rw [hmore, List.append_assoc]
      exact ⟨path, beyond, Json.consume_append_refused _ hrefused⟩
    · obtain ⟨c', hc'⟩ := c.exists_ofValue?_value
      have hblock := consume_block blocks hphase hread hroom hc'
      have hcomma : consume step ⟨c' :: blocks, .blockEnd⟩ [',']
          = .more ⟨c' :: blocks, .nextBlock⟩ := rfl
      rw [joined_cons c hne, Json.consume_append _ hblock, Json.consume_append _ hcomma]
      exact ih _ hreads hlater (.inr rfl)

theorem consume_script (s : Script) :
    consume step start s.text = consume step ⟨[], .firstBlock⟩ (s.joined ++ [']']) := by
  rw [Script.text, List.cons_append]
  exact Json.consume_cons rfl

end ScriptReading

open ScriptReading (feed_of_ended feed_of_refused consume_script)

theorem Script.toList_toJson (s : Script) : s.toJson.toList = s.text := String.toList_ofList

section

variable [Json.Rounding]

theorem Script.parse_shallow {s : Script} (hread : ∀ b ∈ s.outline, b.2.ReadsClosest)
    (h : ∀ b ∈ s.outline, b.2.Regular ∧ b.1 ≤ 62) :
    Script.parse s.toJson = .ok s := by
  have hread : consume step .start s.text = .ended s := by
    rw [consume_script]
    by_cases hnil : s = []
    · subst hnil
      rfl
    · exact ScriptReading.consume_blocks [] hnil hread h (.inl rfl)
  rw [Script.parse, Script.toList_toJson, feed_of_ended hread]

theorem Script.parse_deep {s : Script} (hread : ∀ b ∈ s.outline, b.2.ReadsClosest)
    (h : ∃ b ∈ s.outline, 63 ≤ b.1) :
    ∃ path position, Script.parse s.toJson
      = .error (.malformed (.json .nestedTooDeeply) path position) := by
  obtain ⟨path, beyond, hrefused⟩ := ScriptReading.consume_blocks_refused [] hread h (.inl rfl)
  rw [← consume_script] at hrefused
  obtain ⟨n, hfeed⟩ := feed_of_refused hrefused 0
  exact ⟨path, Json.Position.of s.text n, by rw [Script.parse, Script.toList_toJson, hfeed]⟩

/-- A script whose numbers are finite and whose waits are not negative is read back from its text
    with at most 62 loops around each block, equal in every bit and by `Script.same`. A script with
    a block inside more loops has a text too, but the reader gives up on it. The reader may be any
    one that takes each number in the text for its closest double. -/
theorem Script.parse_toJson {s : Script} (hread : ∀ b ∈ s.outline, b.2.ReadsClosest) :
    ((∀ b ∈ s.outline, b.2.Regular ∧ b.1 ≤ 62) →
      Script.parse s.toJson = .ok s ∧ Script.same s s = true) ∧
    ((∃ b ∈ s.outline, 63 ≤ b.1) → ∃ cause path position,
      Script.parse s.toJson = .error (.malformed cause path position) ∧
        cause.message = "recursion limit exceeded") := by
  refine ⟨fun h => ⟨Script.parse_shallow hread h, s.same_self fun b hb => (h b hb).1⟩, fun h => ?_⟩
  obtain ⟨path, position, hparse⟩ := Script.parse_deep hread h
  exact ⟨.json .nestedTooDeeply, path, position, hparse, rfl⟩

end

/-- Loops around one block, each inside the one before it. -/
def Script.nest (n : Nat) : Script := Nat.repeat (fun s => [.loop 2 s]) n [.appear true]

open scoped Json.FastRounding in
/-- Both halves at fixed scripts, read fast: a loop with a minus zero, a quote and an emoji in it,
    and a block that stands one loop too deep. -/
theorem Script.parse_toJson_samples :
    (Script.parse (Script.toJson
        [.loop 3 [.steer (.goTo (-0) 2), .speak .say "\"\\\n😀", .wait 1], .unknown])
      = .ok [.loop 3 [.steer (.goTo (-0) 2), .speak .say "\"\\\n😀", .wait 1], .unknown]) ∧
    (∃ cause path position, Script.parse (Script.nest 63).toJson
        = .error (.malformed cause path position) ∧
      cause.message = "recursion limit exceeded") := by
  refine ⟨((Script.parse_toJson (by decide +kernel)).1 ?_).1,
    (Script.parse_toJson (by decide +kernel)).2 ?_⟩
  · intro b hb
    simp only [Script.outline, Script.outlineAt, Command.outlineAt, List.append_nil,
      List.cons_append, List.nil_append, List.mem_cons, List.not_mem_nil, or_false] at hb
    rcases hb with rfl | rfl | rfl | rfl | rfl
    · exact ⟨trivial, by decide⟩
    · exact ⟨⟨by decide, by decide⟩, by decide⟩
    · exact ⟨trivial, by decide⟩
    · exact ⟨⟨by decide, by decide⟩, by decide⟩
    · exact ⟨trivial, by decide⟩
  · decide

end StagePlay
