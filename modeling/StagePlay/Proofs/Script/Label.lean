import StagePlay.Proofs.Console.Typed
import StagePlay.Proofs.Decimal.Hundredths
import StagePlay.Proofs.Decimal.Shown
import StagePlay.Proofs.Script.Leniency
import StagePlay.Proofs.Script.Palette
import StagePlay.Proofs.Script.Tree
import StagePlay.Proofs.Stage.Made

/-!
# StagePlay.Proofs.Script.Label

What the label of a block tells of its fields.

A label has a form for each kind of block, with the numbers or the text of the block in it. Numbers
are shown in full, so they have no blanks, and are read back when they are typed; only the sign of
a zero is not shown.

* `Command.shown_read_back`: typing what a label shows for a field leaves the block equal, and a
  number in place of a text is kept as the text that is read back.
* `Command.label_eq_iff`: blocks with one label are equal but for the bodies of loops.
-/

namespace StagePlay

open Binary64 (signless)
open Json (Value Literal Written member?)
open Numeral (InFull)

/-! ## Texts of numbers -/

theorem isNumeric_of_inFull {cs : List Char} (h : InFull cs) :
    ∀ c ∈ cs, Console.isNumeric c = true := by
  intro c hc
  rcases h.char hc with hdigit | rfl | rfl
  · exact Console.isNumeric_of_isDigit hdigit
  · rfl
  · rfl

theorem not_isBlank_of_inFull {cs : List Char} (h : InFull cs) :
    ∀ c ∈ cs, Text.isBlank c = false := fun c hc =>
  (Console.bare_of_isNumeric (isNumeric_of_inFull h c hc)).2

/-- A numeral has no blanks to take off. -/
theorem trim_inFull {cs : List Char} (h : InFull cs) : Text.trim cs = cs :=
  Text.trim_eq_self (fun c hc => not_isBlank_of_inFull h c (List.mem_of_mem_head? hc))
    fun c hc => not_isBlank_of_inFull h c (List.mem_of_mem_getLast? hc)

theorem not_mem_inFull {cs : List Char} (h : InFull cs) : ' ' ∉ cs := fun hmem =>
  Bool.false_ne_true ((not_isBlank_of_inFull h ' ' hmem).symm.trans rfl)

/-- Typing a numeral of a finite double. -/
theorem numberOr_inFull (default : Float) {text : String} {x : Float} (h : InFull text.toList)
    (hread : Numeral.float? text.toList = some x) (hx : x.isFinite = true) :
    numberOr default text = x := by
  rw [numberOr, trim_inFull h, hread]
  exact if_pos hx

theorem numberOr_shown (default : Float) {x : Float} (h : x.isFinite = true) :
    numberOr default (String.ofList (shown x)) = signless x := by
  refine numberOr_inFull default ?_ ?_ (Binary64.isFinite_signless h)
  · rw [String.toList_ofList]
    exact inFull_shown h
  · rw [String.toList_ofList]
    exact float?_shown x

/-- The pattern of a whole number. -/
theorem pattern_whole (n : Nat) :
    Decimal.pattern ⟨n, 0⟩ = Binary64.nearest (n * Binary64.one) 1 := by
  by_cases hn : n = 0
  · subst hn
    rw [Nat.zero_mul]
    exact (Binary64.nearest_units (p := 0) Nat.one_pos (Nat.zero_le _)).symm
  · rw [Decimal.pattern_eq hn (by decide) (by simp)]
    have hten : Decimal.tenTo (0 : Int).toNat = 1 := rfl
    rw [hten, Nat.mul_one]
    rfl

theorem float?_digits (n : Nat) :
    Numeral.float? (Nat.toDigits 10 n) = some (Binary64.ofNat false n) := by
  have hread := Numeral.float?_pointed false (Numeral.digits_toDigits n) Nat.toDigits_ne_nil
    (List.forall_mem_nil _)
  have hself : Numeral.signed false (Numeral.pointed (Nat.toDigits 10 n) []) =
      Nat.toDigits 10 n := by
    simp [Numeral.signed, Numeral.pointed]
  rw [List.append_nil, Numeral.valueFrom_toDigits, hself] at hread
  rw [hread, Binary64.ofNat, ← pattern_whole]
  rfl

theorem numberOr_times (default : Float) (times : UInt32) :
    numberOr default (toString times.toNat) = Binary64.ofNat false times.toNat := by
  have htext : (toString times.toNat).toList = Nat.toDigits 10 times.toNat := String.toList_ofList
  refine numberOr_inFull default ?_ ?_ (Binary64.isFinite_ofNat false ?_)
  · rw [htext]
    exact Numeral.inFull_digits _
  · rw [htext]
    exact float?_digits _
  · exact Nat.le_trans times.toNat_lt.le (pow_le_pow_right₀ one_le_two (by decide))

/-! ## Fields on labels -/

/-- A number of either kind. -/
def Content.isNumber : Content → Bool
  | .number _ | .times _ => true
  | .text _ | .body _ => false

namespace Command

/-- The label of a block shows this text for this field. -/
inductive Shows : Command → String → String → Prop where
  | steps {x : Float} {text : String} :
      label (.steer (.advance x)) = "Move " ++ text ++ " steps" →
      Shows (.steer (.advance x)) "value" text
  | degrees {x : Float} {text : String} :
      label (.steer (.turn x)) = "Turn " ++ text ++ "°" → Shows (.steer (.turn x)) "value" text
  | across {x y : Float} {text other : String} :
      label (.steer (.goTo x y)) = "Go to x:" ++ text ++ " y:" ++ other →
      Shows (.steer (.goTo x y)) "x" text
  | up {x y : Float} {text other : String} :
      label (.steer (.goTo x y)) = "Go to x:" ++ other ++ " y:" ++ text →
      Shows (.steer (.goTo x y)) "y" text
  | times {n : UInt32} {body : Script} {text : String} :
      label (.loop n body) = "Repeat " ++ text ++ " times" → Shows (.loop n body) "times" text
  | seconds {x : Float} {text : String} :
      label (.wait x) = "Wait " ++ text ++ " seconds" → Shows (.wait x) "seconds" text

/-- What stands between the fixed parts of a label. -/
theorem between_inj {start middle middle' rest : String} :
    start ++ middle ++ rest = start ++ middle' ++ rest ↔ middle = middle' := by
  rw [String.append_left_inj, String.append_right_inj]

/-- The two numbers of a place, of which the first has no blanks. -/
theorem place_inj {x y : Float} {a b : String} (hx : x.isFinite = true) (hy : y.isFinite = true)
    (h : label (.steer (.goTo x y)) = "Go to x:" ++ a ++ " y:" ++ b) :
    a = String.ofList (shown x) ∧ b = String.ofList (shown y) := by
  have hsplit : (shown x) ++ ' ' :: ('y' :: ':' :: shown y) =
      a.toList ++ ' ' :: ('y' :: ':' :: b.toList) := by
    simpa [label, String.ext_iff] using h
  have hother : ' ' ∉ 'y' :: ':' :: shown y := by simp [not_mem_inFull (inFull_shown hy)]
  obtain ⟨ha, -, hb⟩ := (List.append_cons_inj_of_notMem (not_mem_inFull (inFull_shown hx))
    hother).mp hsplit
  have hb : shown y = b.toList := by simpa using hb
  rw [ha, hb, String.ofList_toList, String.ofList_toList]
  exact ⟨rfl, rfl⟩

theorem notNegative_signless {x : Float} (h : 0 ≤ x) : notNegative (signless x) = signless x := by
  have hnot : ¬ signless x < 0 := by
    rw [signless]
    split
    · decide
    · exact Binary64.not_lt_zero h
  exact if_neg hnot

/-- Typing what a label shows for a field. -/
theorem Shows.setField {c : Command} {field text : String} (h : c.Shows field text)
    (hc : c.Sound) : ∃ c', c.setField field text = .ok c' ∧ c'.same c = true := by
  have hregular : c.Regular := hc _ (mem_outlineAt 0 c)
  simp only [setField_eq_ok_iff]
  cases h with
  | @steps x _ hlabel =>
    have hx : x.isFinite = true := hregular
    obtain rfl := between_inj.mp hlabel
    refine ⟨.steer (.advance (signless x)), ?_, Binary64.signless_beq hx⟩
    rw [edit?, numberOr_shown _ hx]
  | @degrees x _ hlabel =>
    have hx : x.isFinite = true := hregular
    obtain rfl := between_inj.mp hlabel
    refine ⟨.steer (.turn (signless x)), ?_, Binary64.signless_beq hx⟩
    rw [edit?, numberOr_shown _ hx]
  | @across x y _ _ hlabel =>
    obtain ⟨hx, hy⟩ : x.isFinite = true ∧ y.isFinite = true := hregular
    obtain rfl := (place_inj hx hy hlabel).1
    refine ⟨.steer (.goTo (signless x) y), ?_, ?_⟩
    · rw [edit?, numberOr_shown _ hx]
    · simp [same, Steering.same, Binary64.signless_beq hx, Binary64.beq_self hy]
  | @up x y _ _ hlabel =>
    obtain ⟨hx, hy⟩ : x.isFinite = true ∧ y.isFinite = true := hregular
    obtain rfl := (place_inj hx hy hlabel).2
    refine ⟨.steer (.goTo x (signless y)), ?_, ?_⟩
    · rw [edit?, numberOr_shown _ hy]
    · simp [same, Steering.same, Binary64.signless_beq hy, Binary64.beq_self hx]
  | @times n body _ hlabel =>
    obtain rfl := between_inj.mp hlabel
    refine ⟨.loop n body, ?_, same_self _ hc⟩
    rw [edit?, numberOr_times, repeatCount_ofNat n.toNat_lt, UInt32.ofNat_toNat]
  | @seconds x _ hlabel =>
    obtain ⟨hx, hpositive⟩ : x.isFinite = true ∧ 0 ≤ x := hregular
    obtain rfl := between_inj.mp hlabel
    refine ⟨.wait (signless x), ?_, Binary64.signless_beq hx⟩
    rw [edit?, numberOr_shown _ hx, notNegative_signless hpositive]

theorem exists_shows {c : Command} {field : String} {content : Content}
    (hmem : (field, content) ∈ c.contents) (hnumber : content.isNumber = true) :
    ∃ text, c.Shows field text := by
  match c with
  | .steer (.advance x) =>
    cases List.mem_singleton.mp hmem
    exact ⟨_, .steps rfl⟩
  | .steer (.turn x) =>
    cases List.mem_singleton.mp hmem
    exact ⟨_, .degrees rfl⟩
  | .steer (.goTo x y) =>
    rcases List.mem_pair.mp hmem with h | h <;> cases h
    · exact ⟨_, .across rfl⟩
    · exact ⟨_, .up rfl⟩
  | .loop n body =>
    rcases List.mem_pair.mp hmem with h | h <;> cases h
    · exact ⟨_, .times rfl⟩
    · cases hnumber
  | .wait x =>
    cases List.mem_singleton.mp hmem
    exact ⟨_, .seconds rfl⟩
  | .speak k text =>
    cases List.mem_singleton.mp hmem
    cases hnumber
  | .appear _ | .unknown => cases hmem

end Command

/-! ## Numbers in place of texts -/

namespace Json.Literal

variable {l : Literal} {n : Number}

theorem toFloat_of_integer? {k : Int} (h : l.integer? = some k) :
    (Number.integer k).toFloat = l.figure.decimal.toFloat l.negative := by
  rw [integer?] at h
  split at h
  · rename_i hwhole
    have hdecimal : l.figure.decimal = ⟨l.coefficient, 0⟩ := by
      rw [figure, Figure.decimal, hwhole.1, Option.isNone_iff_eq_none.mp hwhole.2]
      rfl
    rw [Number.toFloat, Binary64.ofNat, hdecimal, Decimal.toFloat, pattern_whole]
    split at h
    · rename_i hnegative
      split at h
      · cases h
        rw [hnegative, Int.natAbs_neg, Int.natAbs_natCast, decide_eq_true (by omega)]
      · cases h
    · rename_i hnegative
      split at h
      · cases h
        rw [Bool.eq_false_of_not_eq_true hnegative, Int.natAbs_natCast, decide_eq_false (by omega)]
      · cases h
  · cases h

/-- The double of a number is the closest one if the number is taken for that, and so it is if the
    number is kept as an integer. -/
theorem toFloat_number [Rounding] (hn : l.number? = some n)
    (hread : Rounding.double? l.figure = l.figure.closest?) :
    n.toFloat = l.figure.decimal.toFloat l.negative := by
  rw [number?] at hn
  split at hn
  · rename_i k hk
    cases hn
    exact toFloat_of_integer? hk
  · split at hn
    · cases hn
    · obtain ⟨x, hx, rfl⟩ := Option.map_eq_some_iff.mp hn
      rw [hread, Figure.closest?] at hx
      split at hx
      · cases hx
      · exact (Option.some.inj hx).symm

end Json.Literal

namespace Command

/-- A block with a number in place of its text. -/
theorem ofValue?_number {kind : SpeechKind} {members : List (String × Value)} {n : Json.Number}
    (htype : member? "type" members = some (.text kind.name))
    (htext : member? "text" members = some (.number n)) :
    ofValue? (.object members) = some (.speak kind (String.ofList (shown n.toFloat))) := by
  rw [ofValue?, htype]
  cases kind <;> simp [SpeechKind.name, assemble?, htext, textField]

/-- A block is read off every text of its object. -/
theorem parse_of_written [Json.Rounding] {members : List (String × Value)} {t : List Char}
    {c : Command} (h : Written (.value (.object members)) t)
    (hdepth : (Value.object members).depth ≤ Json.depthLimit)
    (hc : ofValue? (.object members) = some c) : parse (String.ofList t) = .ok c := by
  have hread := Json.Reading.readable_of_written h [] (by simpa using hdepth)
  rcases hread with hread | ⟨n, -, hn, -⟩
  · have hfeed : feed .start 0 t = .ok c := feed_of_ended 0 hread hc
    rw [parse, String.toList_ofList, hfeed]
  · cases hn

/-- **What a label shows is read back.** In a block with finite numbers and no negative waits, every
field that holds a number is shown on the label, and typing what is shown there leaves the block
equal to what it was. An object of a block that speaks, with a number for its text, is read as a
block with a text that is read as the double which the number was taken for, but for the sign of a
zero. That is the closest double wherever the reader takes the number for it. -/
theorem shown_read_back [Json.Rounding] :
    (∀ c : Command, c.Sound →
      (∀ field content, (field, content) ∈ c.contents → content.isNumber = true →
        ∃ text, c.Shows field text) ∧
      ∀ field text, c.Shows field text →
        ∃ c', c.setField field text = .ok c' ∧ c'.same c = true) ∧
    ∀ (kind : SpeechKind) (members : List (String × Value)) (t : List Char) (n : Json.Number),
      Written (.value (.object members)) t → (Value.object members).depth ≤ Json.depthLimit →
      member? "type" members = some (.text kind.name) →
      member? "text" members = some (.number n) →
      (∃ text : String, ofValue? (.object members) = some (.speak kind text) ∧
        parse (String.ofList t) = .ok (.speak kind text) ∧
        Numeral.float? text.toList = some (signless n.toFloat)) ∧
      ∀ l : Literal, l.number? = some n → Json.Rounding.double? l.figure = l.figure.closest? →
        n.toFloat = l.figure.decimal.toFloat l.negative := by
  refine ⟨fun c hc => ⟨fun _ _ => exists_shows, fun _ _ h => h.setField hc⟩, ?_⟩
  intro kind members t n hwritten hdepth htype htext
  have hblock := ofValue?_number htype htext
  refine ⟨⟨_, hblock, parse_of_written hwritten hdepth hblock, ?_⟩,
    fun l => Literal.toFloat_number⟩
  rw [String.toList_ofList, float?_shown]

/-- The members of a block that says a number. -/
def saying (n : Json.Number) : List (String × Value) := [("type", .text "say"), ("text", .number n)]

theorem written_saying [Json.Rounding] {l : Literal} {n : Json.Number} (hvalid : l.Valid)
    (hn : l.number? = some n) :
    Written (.value (.object (saying n)))
      ("\x7b\"type\":\"say\",\"text\":".toList ++ l.text ++ ['}']) := by
  have htype : Written (.member "type" (.text "say")) "\"type\":\"say\"".toList :=
    .named (by rfl) (.quoted (by rfl))
  have htext : Written (.member "text" (.number n)) ("\"text\":".toList ++ l.text) :=
    .named (by rfl) (.number hvalid hn)
  have hobject := Written.object (.moreMembers htype (by simp) (.lastMember htext))
  simpa [saying] using hobject

open scoped Json.FastRounding

/-- A place that is shown as `2.5` and `-1`, and a block that says `12.5`. -/
theorem shown_read_back_samples :
    (∃ c', (Command.steer (.goTo 2.5 (-1))).setField "y" "-1" = .ok c' ∧
      c'.same (.steer (.goTo 2.5 (-1))) = true) ∧
    ∃ text, parse "\x7b\"type\":\"say\",\"text\":12.5\x7d" = .ok (.speak .say text) ∧
      Numeral.float? text.toList = some 12.5 := by
  constructor
  · have hsound : (Command.steer (.goTo 2.5 (-1))).Sound :=
      sound_leaf rfl ⟨by decide +kernel, by decide +kernel⟩
    have hlabel : label (.steer (.goTo 2.5 (-1))) = "Go to x:" ++ "2.5" ++ " y:" ++ "-1" := by
      decide +kernel
    exact (shown_read_back.1 _ hsound).2 "y" "-1" (.up hlabel)
  · let l : Literal := ⟨false, ['1', '2'], ['5'], none⟩
    have hvalid : l.Valid := ⟨by simp [l, Numeral.Digits], .inr ⟨'1', ['2'], rfl, by decide⟩,
      by simp [l, Numeral.Digits], by simp [l]⟩
    have hn : l.number? = some (.real 12.5) := by decide +kernel
    obtain ⟨⟨text, -, hparse, hread⟩, -⟩ := shown_read_back.2 .say (saying (.real 12.5)) _ _
      (written_saying hvalid hn) (by decide) rfl rfl
    have hdouble : signless (12.5 : Float) = 12.5 := by decide +kernel
    exact ⟨text, hparse, hread.trans (congrArg some hdouble)⟩

/-- A zero loses its sign: the number is kept as `0`, which is another double. And a number need not
    be taken for the closest double: this one is taken for 1 and kept as that. -/
theorem shown_read_back_minusZero :
    let l : Literal := ⟨true, ['0'], ['0'], none⟩
    let m : Literal := ⟨false, ['0'], List.replicate 16 '9', none⟩
    (∃ text, parse "\x7b\"type\":\"say\",\"text\":-0.0\x7d" = .ok (.speak .say text) ∧
      l.text = "-0.0".toList ∧
      Numeral.float? text.toList ≠ some (l.figure.decimal.toFloat l.negative)) ∧
    ∃ text, parse "\x7b\"type\":\"say\",\"text\":0.9999999999999999\x7d"
        = .ok (.speak .say text) ∧
      m.text = "0.9999999999999999".toList ∧
      Numeral.float? text.toList ≠ some (m.figure.decimal.toFloat m.negative) := by
  intro l m
  have hl : l.Valid := ⟨by simp [l, Numeral.Digits], .inl rfl, by simp [l, Numeral.Digits],
    by simp [l]⟩
  have hm : m.Valid := ⟨by simp [m, Numeral.Digits], .inl rfl, by simp [m, Numeral.Digits],
    by simp [m]⟩
  have hzero : l.number? = some (.real (-0)) := by decide +kernel
  have hone : m.number? = some (.real 1) := by decide +kernel
  refine ⟨⟨_, parse_of_written (written_saying hl hzero) (by decide) (ofValue?_number rfl rfl), rfl,
    by decide +kernel⟩, _, parse_of_written (written_saying hm hone) (by decide)
      (ofValue?_number rfl rfl), rfl, by decide +kernel⟩

end Command

/-! ## Labels apart -/

namespace Command

variable {c c' : Command}

/-- The numbers of a block itself are finite. -/
def Finite (c : Command) : Prop := ∀ field x, (field, .number x) ∈ c.contents → x.isFinite = true

def kinds : List String :=
  ["move", "turn", "goto", "repeat", "wait", "say", "think", "show", "hide", "unknown"]

theorem kind_mem_kinds (c : Command) : c.kind ∈ kinds := by
  rcases c with (x | x | ⟨x, y⟩) | (_ | _) | x | ⟨(_ | _), t⟩ | ⟨n, body⟩ | _ <;>
    simp [kind, kinds, SpeechKind.name]

/-- A label begins as the kind of its block, with a capital letter. -/
theorem take_label (c : Command) :
    (c.label.toList.take 2).map Char.toLower = c.kind.toList.take 2 := by
  rcases c with (x | x | ⟨x, y⟩) | (_ | _) | x | ⟨(_ | _), t⟩ | ⟨n, body⟩ | _ <;>
    simp [label, kind, SpeechKind.name]

/-- Two letters are enough to tell the kinds apart. -/
theorem kind_of_label (h : c.label = c'.label) : c.kind = c'.kind := by
  have htwo : ∀ a ∈ kinds, ∀ b ∈ kinds, a.toList.take 2 = b.toList.take 2 → a = b := by decide
  refine htwo _ (kind_mem_kinds c) _ (kind_mem_kinds c') ?_
  rw [← take_label, ← take_label, h]

theorem kind_bare (c : Command) : c.bare.kind = c.kind := by
  cases c <;> rfl

theorem kind_of_same (h : c.same c' = true) : c.kind = c'.kind := by
  unfold same at h
  split at h
  · unfold Steering.same at h
    split at h
    · rfl
    · rfl
    · rfl
    · cases h
  · rw [eq_of_beq h]
  · rfl
  · rw [Bool.and_eq_true] at h
    rw [kind, kind, eq_of_beq h.1]
  · rfl
  · rfl
  · cases h

theorem ofList_shown_inj {x y : Float} (hx : x.isFinite = true) (hy : y.isFinite = true) :
    String.ofList (shown x) = String.ofList (shown y) ↔ (x == y) = true := by
  rw [String.ofList_inj, shown_eq_iff hx hy]

theorem label_eq_of_akin (h : Akin c c') (hc : c.Finite) (hc' : c'.Finite) :
    c.label = c'.label ↔ c.bare.same c'.bare = true := by
  cases h with
  | advance a b =>
    have ha := hc "value" a List.mem_cons_self
    have hb := hc' "value" b List.mem_cons_self
    rw [label, label, between_inj, ofList_shown_inj ha hb]
    rfl
  | turn a b =>
    have ha := hc "value" a List.mem_cons_self
    have hb := hc' "value" b List.mem_cons_self
    rw [label, label, between_inj, ofList_shown_inj ha hb]
    rfl
  | goTo x y x' y' =>
    have hx := hc "x" x List.mem_cons_self
    have hy := hc "y" y (List.mem_cons_of_mem _ List.mem_cons_self)
    have hx' := hc' "x" x' List.mem_cons_self
    have hy' := hc' "y" y' (List.mem_cons_of_mem _ List.mem_cons_self)
    have hsplit : label (.steer (.goTo x y)) = label (.steer (.goTo x' y')) ↔
        String.ofList (shown x) = String.ofList (shown x') ∧
          String.ofList (shown y) = String.ofList (shown y') := by
      constructor
      · intro h
        obtain ⟨h₁, h₂⟩ := place_inj hx hy h
        exact ⟨h₁.symm, h₂.symm⟩
      · rintro ⟨h₁, h₂⟩
        rw [label, label, h₁, h₂]
    rw [hsplit, ofList_shown_inj hx hx', ofList_shown_inj hy hy', ← Bool.and_eq_true]
    rfl
  | wait a b =>
    have ha := hc "seconds" a List.mem_cons_self
    have hb := hc' "seconds" b List.mem_cons_self
    rw [label, label, between_inj, ofList_shown_inj ha hb]
    rfl
  | speak k s t =>
    cases k <;> simp [label, bare, same]
  | loop m n s t =>
    have htimes : toString m.toNat = toString n.toNat ↔ m = n :=
      Nat.repr_inj.trans UInt32.toNat_inj
    rw [label, label, between_inj, htimes]
    simp [bare, same, Script.same]
  | appear visible => simp [bare, same]
  | unknown => simp [bare, same]

/-- Blocks with finite numbers have one label if they are equal but for what is inside, and only
    then. -/
theorem label_eq_iff (hc : c.Finite) (hc' : c'.Finite) :
    c.label = c'.label ↔ c.bare.same c'.bare = true := by
  constructor
  · intro h
    exact (label_eq_of_akin (akin_of_kind (kind_of_label h)) hc hc').mp h
  · intro h
    have hkind : c.kind = c'.kind := by rw [← kind_bare c, kind_of_same h, kind_bare]
    exact (label_eq_of_akin (akin_of_kind hkind) hc hc').mpr h

end Command

end StagePlay
