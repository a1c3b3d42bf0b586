import StagePlay.Proofs.Script.Block
import StagePlay.Proofs.Script.Meaning
import StagePlay.Proofs.Script.Text
import StagePlay.Proofs.Stage.Scripts

/-!
# StagePlay.Proofs.Stage.Made

Where blocks come from, and that none of these ways makes a bad number.

`Command.Made` lists the ways: constructors, which take any double; values and texts that are
read; templates of a palette; edits of a field; and the scripts of a stage, whatever is done to
it, if only such blocks are put on it.

* `Command.Made.sound`: the numbers of such a block, and of all blocks inside it, are finite, and
  its waits are not negative.
* `Json.Value.times_of_block`, `Command.setField_times`: a number of repetitions that is read or
  typed is the number that is given, rounded up into 32 bits.
* `Script.text_regular`: nothing is written as `null` in a script of such blocks.
-/

namespace StagePlay

open Json (Value Written Blanks consume)
open Json.Reading (step)
open Json.Value (block numberAt)

/-! ## Values without null -/

namespace Json

mutual

/-- Whether `null` stands somewhere in a value. -/
def Value.hasNull : Value → Bool
  | .null => true
  | .bool _ | .number _ | .text _ => false
  | .array items => itemsHaveNull items
  | .object members => membersHaveNull members

def itemsHaveNull : List Value → Bool
  | [] => false
  | v :: rest => v.hasNull || itemsHaveNull rest

def membersHaveNull : List (String × Value) → Bool
  | [] => false
  | (_, v) :: rest => v.hasNull || membersHaveNull rest

end

end Json

theorem hasNull_numberValue {x : Float} (h : x.isFinite = true) :
    (numberValue x).hasNull = false := by
  rw [numberValue, if_pos h, Value.hasNull]

mutual

theorem Command.hasNull_value {d : Nat} (c : Command) (h : ∀ b ∈ c.outlineAt d, b.2.Regular) :
    c.value.hasNull = false := by
  have hc : c.Regular := h _ (mem_outlineAt d c)
  match c with
  | .steer (.advance x) | .steer (.turn x) =>
    simp [Command.value, blockValue, Command.members, Value.hasNull, Json.membersHaveNull,
      hasNull_numberValue hc]
  | .steer (.goTo x y) =>
    simp [Command.value, blockValue, Command.members, Value.hasNull, Json.membersHaveNull,
      hasNull_numberValue hc.1, hasNull_numberValue hc.2]
  | .wait seconds =>
    simp [Command.value, blockValue, Command.members, Value.hasNull, Json.membersHaveNull,
      hasNull_numberValue hc.1]
  | .appear _ | .speak _ _ | .unknown => rfl
  | .loop times body =>
    have hbody := Script.hasNull_values body (Script.forall_outlineAt_body h)
    simp [Command.value, blockValue, Command.members, Value.hasNull, Json.membersHaveNull, hbody]

theorem Script.hasNull_values {d : Nat} (s : Script)
    (h : ∀ b ∈ Script.outlineAt d s, b.2.Regular) :
    Json.itemsHaveNull (Script.values s) = false := by
  match s with
  | [] => rfl
  | c :: rest =>
    obtain ⟨hc, hrest⟩ := Script.forall_outlineAt_cons.mp h
    have hfirst := Command.hasNull_value c hc
    rw [Command.value] at hfirst
    rw [Script.values, Json.itemsHaveNull, hfirst, Script.hasNull_values rest hrest]
    rfl

end

/-! ## Texts of scripts -/

/-- Only the text of a script without blocks is an empty array. -/
theorem Script.toJson_eq_empty {s : Script} : s.toJson = "[]" ↔ s = [] := by
  constructor
  · intro h
    cases s with
    | nil => rfl
    | cons c rest =>
      obtain ⟨more, hmore⟩ := joined_eq_append c rest
      have htext : Script.text (c :: rest) = '[' :: (Script.joined (c :: rest) ++ [']']) := rfl
      rw [Script.toJson, String.ext_iff, String.toList_ofList, htext, hmore, c.text_eq,
        blockText] at h
      cases h
  · rintro rfl
    rfl

open scoped Json.ClosestRounding in
/-- What the text of a script is, if each number in it is the closest double and there is room for
    its blocks. -/
def Script.StandsFor (s : Script) (v : Value) : Prop :=
  ∀ limit, 0 < limit → (∀ b ∈ s.outline, 2 * b.1 + 2 < limit) →
    consume (step limit) .start s.text = .ended v

open scoped Json.ClosestRounding in
/-- The text of a script with finite numbers is that of an array in which nothing is `null`, and
    that stands for the script. -/
theorem Script.text_regular {s : Script} (h : ∀ b ∈ s.outline, b.2.Regular) :
    ∃ vs, s.StandsFor (.array vs) ∧ (Value.array vs).hasNull = false ∧
      Command.blocks? vs = some s := by
  refine ⟨Script.values s, ?_, ?_, Command.blocks?_values s h⟩
  · intro limit hlimit hroom
    exact Script.consume_text_within (fun _ _ _ _ => Json.ClosestRounding.readsClosest _) hroom
      hlimit
  · rw [Value.hasNull]
    exact Script.hasNull_values s h

/-! ## Numbers of repetitions -/

theorem Json.Value.times_of_block {v : Value} {times : UInt32} {body : Script}
    (h : v.block = .loop times body) :
    times = UInt32.ofNat (min ⌈Binary64.value (v.numberAt "times" 2)⌉₊ (2 ^ 32 - 1)) ∧
      ∀ c ∈ body, ∃ item ∈ v.body, c = item.block := by
  rw [block] at h
  split at h
  case h_9 =>
    cases h
    refine ⟨rfl, fun c hc => ?_⟩
    split at hc
    · cases hc
    · obtain ⟨item, -, rfl⟩ := List.mem_map.mp hc
      exact ⟨item.1, item.2, rfl⟩
  all_goals cases h

namespace Command

theorem eq_block_of_ofValue? {v : Value} {c : Command} (h : ofValue? v = some c) :
    c = v.block := by
  have honce : ¬ v.Doubled := by
    intro hd
    rw [ofValue?_eq_none_iff.mpr hd] at h
    cases h
  rw [ofValue?_eq_block honce] at h
  exact (Option.some.inj h).symm

theorem setField_times (times : UInt32) (body : Script) (raw : String) :
    (loop times body).setField "times" raw
      = .ok (.loop (UInt32.ofNat (min ⌈Binary64.value (numberOr 2 raw)⌉₊ (2 ^ 32 - 1))) body) := by
  have hfinite : (numberOr 2 raw).isFinite = true := isFinite_numberOr (by decide) raw
  have htwo : Default.times.toFloat = 2 := rfl
  rw [setField, edit?, htwo, repeatCount_eq hfinite]

end Command

theorem Json.Value.exists_first_doubled {items : List Value} (h : ∃ v ∈ items, v.Doubled) :
    ∃ i v, items[i]? = some v ∧ v.Doubled ∧ ∀ u ∈ items.take i, ¬ u.Doubled := by
  induction items with
  | nil =>
    obtain ⟨v, hv, -⟩ := h
    cases hv
  | cons u rest ih =>
    by_cases hu : u.Doubled
    · exact ⟨0, u, rfl, hu, fun _ hv => nomatch hv⟩
    · have hrest : ∃ v ∈ rest, v.Doubled := by
        obtain ⟨v, hv, hdoubled⟩ := h
        rcases List.mem_cons.mp hv with rfl | hv
        · exact absurd hdoubled hu
        · exact ⟨v, hv, hdoubled⟩
      obtain ⟨i, v, hi, hv, hbefore⟩ := ih hrest
      exact ⟨i + 1, v, hi, hv, List.forall_mem_cons.mpr ⟨hu, hbefore⟩⟩

/-- The blocks of a text that is read are those that the items of its array stand for. -/
theorem Script.eq_blocks_of_parse [Json.Rounding] {items : List Value} {w t more : List Char}
    {s : Script} (hw : Blanks w) (h : Written (.value (.array items)) t)
    (hdepth : (Value.array items).depth ≤ Json.depthLimit)
    (hs : Script.parse (String.ofList (w ++ t ++ more)) = .ok s) : s = items.map block := by
  have hblocks : Json.itemsDepth items ≤ ScriptReading.blockDepth := by
    have hlimit : Json.depthLimit = ScriptReading.blockDepth + 1 := rfl
    rw [Value.depth] at hdepth
    omega
  cases h with
  | array hitems =>
    by_cases hdoubled : ∃ v ∈ items, v.Doubled
    · obtain ⟨i, v, hi, hv, hbefore⟩ := Json.Value.exists_first_doubled hdoubled
      obtain ⟨position, hrefused⟩ := Script.parse_items_refused hw hitems hblocks hi hv hbefore more
      rw [hrefused] at hs
      cases hs
    · have hread := Command.blocks?_eq_map fun v hv =>
        Command.ofValue?_eq_block fun hd => hdoubled ⟨v, hv, hd⟩
      rw [Script.parse_items hw hitems hblocks hread more] at hs
      exact (Except.ok.inj hs).symm

/-! ## Where blocks come from -/

/-- A palette whose templates have only been edited. -/
inductive Palette.Edited : Palette → Prop where
  | initial : Edited initial
  | setField {p p' : Palette} {slot : Nat} {field raw : String} :
      Edited p → p.setField slot field raw = .ok p' → Edited p'

/-- A block that is made in one of the ways in which there are blocks at all. -/
inductive Command.Made [Json.Rounding] : Command → Prop where
  | steps (x : Float) : Made (ofSteps x)
  | degrees (x : Float) : Made (ofDegrees x)
  | place (x y : Float) : Made (ofPlace x y)
  | seconds (x : Float) : Made (ofSeconds x)
  | speak (kind : SpeechKind) (text : String) : Made (speak kind text)
  | appear (visible : Bool) : Made (appear visible)
  | unknown : Made unknown
  | loop (times : UInt32) {body : Script} : (∀ c ∈ body, Made c) → Made (loop times body)
  | decoded {v : Value} {c : Command} : ofValue? v = some c → Made c
  | block {text : String} {c : Command} : Command.parse text = .ok c → Made c
  | script {text : String} {s : Script} {c : Command} : Script.parse text = .ok s → c ∈ s → Made c
  | template {p : Palette} {slot : Nat} {c : Command} :
      p.Edited → p.block slot = .ok c → Made c
  | edited {c c' : Command} {field raw : String} :
      Made c → c.setField field raw = .ok c' → Made c'
  /-- In a script on a stage, after any deeds that bring only such blocks. -/
  | staged {p : Point} {deeds : List Deed} {id : ActorId} {s : Script} {c : Command} :
      (∀ d ∈ deeds, ∀ c ∈ d.blocks, Made c) →
      ((Stage.empty p).afterAll deeds).script? id = some s → c ∈ s → Made c

/-- The numbers of a block and of all blocks inside it are finite, and its waits not negative. -/
def Command.Sound (c : Command) : Prop := ∀ b ∈ c.outlineAt 0, b.2.Regular

mutual

/-- The blocks inside a block do not depend on how deep it stands. -/
theorem Command.map_outlineAt (c : Command) (d d' : Nat) :
    (c.outlineAt d).map (·.2) = (c.outlineAt d').map (·.2) := by
  match c with
  | .loop times body => simp [Command.outlineAt, Script.map_outlineAt body (d + 1) (d' + 1)]
  | .steer _ | .appear _ | .wait _ | .speak _ _ | .unknown => rfl

theorem Script.map_outlineAt (s : Script) (d d' : Nat) :
    (Script.outlineAt d s).map (·.2) = (Script.outlineAt d' s).map (·.2) := by
  match s with
  | [] => rfl
  | c :: rest =>
    simp [Script.outlineAt, Command.map_outlineAt c d d', Script.map_outlineAt rest d d']

end

theorem Script.sound_iff {s : Script} (d : Nat) :
    (∀ b ∈ Script.outlineAt d s, b.2.Regular) ↔ ∀ c ∈ s, c.Sound := by
  induction s with
  | nil => simp [Script.outlineAt]
  | cons c rest ih =>
    have hc : (∀ b ∈ c.outlineAt d, b.2.Regular) ↔ c.Sound := by
      rw [Command.Sound, ← List.forall_mem_map (f := Prod.snd), Command.map_outlineAt c d 0,
        List.forall_mem_map]
    rw [Script.forall_outlineAt_cons, List.forall_mem_cons, hc, ih]

namespace Command

theorem Sound.setField {c c' : Command} {field raw : String} (h : c.Sound)
    (he : c.setField field raw = .ok c') : c'.Sound :=
  forall_outlineAt_setField h he (regular_setField (h _ (mem_outlineAt 0 c)) he)

theorem Clean.sound {c : Command} (h : c.Clean) : c.Sound := fun b hb => (h b hb).regular

theorem sound_leaf {c : Command} (hc : c.outlineAt 0 = [(0, c)]) (h : c.Regular) : c.Sound :=
  (clean_leaf hc h).sound

theorem sound_of_ofValue? {v : Value} {c : Command} (h : ofValue? v = some c) : c.Sound :=
  fun b hb => (within_of_ofValue? h 0 b hb).regular

theorem exists_of_feed [Json.Rounding] {r : Json.Reading} {offset : Nat} {cs : List Char}
    {c : Command} (h : feed r offset cs = .ok c) : ∃ v, ofValue? v = some c := by
  induction cs generalizing r offset with
  | nil =>
    rw [feed] at h
    split at h
    · exact ⟨_, (of_conclude h).1⟩
    · cases h
  | cons a rest ih =>
    rw [feed] at h
    split at h
    · exact ih h
    · exact ⟨_, (of_conclude h).1⟩
    · exact ⟨_, (of_conclude h).1⟩
    · cases h

theorem sound_of_parse [Json.Rounding] {text : String} {c : Command}
    (h : Command.parse text = .ok c) : c.Sound := by
  unfold Command.parse at h
  split at h
  · rename_i hfeed
    cases h
    obtain ⟨v, hv⟩ := exists_of_feed hfeed
    exact sound_of_ofValue? hv
  · cases h

end Command

theorem Palette.Edited.sound {p : Palette} (h : p.Edited) : ∀ t ∈ p.templates, t.command.Sound := by
  induction h with
  | initial => exact fun t ht => (clean_initial t ht).sound
  | setField _ he ih => exact forall_setField Command.Sound.setField ih he

/-- There is no way to make a block with a number that is not finite, or with a negative wait. -/
theorem Command.Made.sound [Json.Rounding] {c : Command} (h : c.Made) : c.Sound := by
  induction h with
  | steps x | degrees x => exact sound_leaf rfl (isFinite_finiteOr (by decide) x)
  | place x y =>
    exact sound_leaf rfl ⟨isFinite_finiteOr (by decide) x, isFinite_finiteOr (by decide) y⟩
  | seconds x => exact sound_leaf rfl (regular_notNegative (isFinite_finiteOr (by decide) x))
  | speak kind text => exact sound_leaf rfl trivial
  | appear visible => exact sound_leaf rfl trivial
  | unknown => exact sound_leaf rfl trivial
  | loop times _ ih => exact List.forall_mem_cons.mpr ⟨trivial, (Script.sound_iff 1).mpr ih⟩
  | decoded h => exact sound_of_ofValue? h
  | block h => exact sound_of_parse h
  | script h hc => exact (Script.clean_of_parse h _ hc).sound
  | template hp h => exact Palette.forall_block hp.sound h
  | edited _ he ih => exact ih.setField he
  | @staged p deeds id s c _ hs hc ih =>
    have hholds : ((Stage.empty p).afterAll deeds).Holds Sound :=
      Stage.Holds.afterAll Sound.setField (fun _ ha => nomatch ha) ih
    obtain ⟨a, ha, rfl⟩ := Option.map_eq_some_iff.mp hs
    exact hholds.script ha c hc

/-- **Numbers.** Whatever way the blocks of a script are made in, all numbers in it are finite and
no wait is negative. Its JSON text stands for an array in which nothing is `null` and which is read
as the script again; it is `[]` for the empty script only. If the script has been read off a text,
its blocks are those of the items there. In every loop, at every depth, a number of repetitions is
the number that a value gives or a person types, rounded up and brought into 32 bits. -/
theorem Script.numbers_of_made [Json.Rounding] {s : Script} (hs : ∀ c ∈ s, c.Made) :
    (∀ b ∈ s.outline, b.2.Regular) ∧
    (s.toJson = "[]" ↔ s = []) ∧
    (∃ vs, s.StandsFor (.array vs) ∧ (Value.array vs).hasNull = false ∧
      Command.blocks? vs = some s) ∧
    (∀ items w t more, Blanks w → Written (.value (.array items)) t →
      (Value.array items).depth ≤ Json.depthLimit →
      Script.parse (String.ofList (w ++ t ++ more)) = .ok s → s = items.map block) ∧
    ∀ b ∈ s.outline, ∀ times body, b.2 = .loop times body →
      (∀ v, Command.ofValue? v = some b.2 →
        times = UInt32.ofNat (min ⌈Binary64.value (v.numberAt "times" 2)⌉₊ (2 ^ 32 - 1)) ∧
          ∀ c ∈ body, ∃ item ∈ v.body, c = item.block) ∧
      ∀ raw, b.2.setField "times" raw =
        .ok (.loop (UInt32.ofNat (min ⌈Binary64.value (numberOr 2 raw)⌉₊ (2 ^ 32 - 1))) body) := by
  have hregular : ∀ b ∈ s.outline, b.2.Regular :=
    (Script.sound_iff 0).mpr fun c hc => (hs c hc).sound
  refine ⟨hregular, Script.toJson_eq_empty, Script.text_regular hregular, ?_, ?_⟩
  · exact fun items w t more hw h hdepth hread => Script.eq_blocks_of_parse hw h hdepth hread
  · intro b _ times body hloop
    rw [hloop]
    refine ⟨fun v hv => ?_, Command.setField_times times body⟩
    exact Json.Value.times_of_block (Command.eq_block_of_ofValue? hv).symm

open scoped Json.FastRounding in
/-- A new actor is given the loop of the palette, after somebody has typed that it runs two and a
    half times. -/
theorem Script.numbers_of_made_template :
    ∃ p, Palette.initial.setField 4 "times" "2.5" = .ok p ∧ p.block 4 = .ok (.loop 3 []) ∧
      ((Stage.empty Settings.initial.spawnPoint).afterAll
        [.spawn none, .append ⟨1⟩ (.loop 3 [])]).script? ⟨1⟩ = some [.loop 3 []] ∧
      ∃ vs, Script.StandsFor [.loop 3 []] (.array vs) ∧ (Value.array vs).hasNull = false := by
  have hcount : repeatCount (numberOr Default.times.toFloat "2.5") = 3 := by decide +kernel
  have hedit : (Command.loop Default.times []).setField "times" "2.5" = .ok (.loop 3 []) := by
    rw [Command.setField, Command.edit?, hcount]
  have hpalette : Palette.initial.setField 4 "times" "2.5"
      = .ok (Palette.initial.put 4 (.loop 3 [])) := by
    have hfound : Palette.initial.block 4 = .ok (.loop Default.times []) := rfl
    rw [Palette.setField, hfound]
    simp only [hedit]
  have hblock : (Palette.initial.put 4 (.loop 3 [])).block 4 = .ok (.loop 3 []) := rfl
  have hmade : Command.Made (.loop 3 []) := .template (.setField .initial hpalette) hblock
  have hscript : ((Stage.empty Settings.initial.spawnPoint).afterAll
      [.spawn none, .append ⟨1⟩ (.loop 3 [])]).script? ⟨1⟩ = some [.loop 3 []] := rfl
  have hstaged : ∀ c ∈ [Command.loop 3 []], c.Made := by
    refine fun c hc => .staged (fun d hd b hb => ?_) hscript hc
    rcases List.mem_cons.mp hd with rfl | hd
    · cases hb
    · cases List.mem_singleton.mp hd
      cases List.mem_singleton.mp hb
      exact hmade
  obtain ⟨-, -, ⟨vs, hread, hnull, -⟩, -⟩ := Script.numbers_of_made hstaged
  exact ⟨_, hpalette, hblock, hscript, vs, hread, hnull⟩

end StagePlay
