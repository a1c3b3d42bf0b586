import StagePlay.Proofs.Decimal.Rational
import StagePlay.Proofs.Script.Leniency

/-!
# StagePlay.Proofs.Script.Meaning

What the blocks of a JSON array are, value by value.

`Value.block` says for every value which block it stands for, without reading anything and
without failing: the body of a loop is the list of the blocks of its items, or nothing if one of
these is a doubled loop.

* `ofValue?_eq_block`: the block that is read off a value is the one it stands for.
* `Script.parse_meaning`: a text is read as the blocks of its items.
-/

namespace StagePlay

open Json (Value Written Blanks member? itemsDepth membersDepth)

namespace Json.Value

instance : DecidablePred Doubled
  | .object _ => inferInstanceAs (Decidable (_ ∧ _))
  | .null | .bool _ | .number _ | .text _ | .array _ => inferInstanceAs (Decidable False)

/-- The value of the last member of this name, if there are members. -/
def field? (name : String) : Value → Option Value
  | .object members => member? name members
  | _ => none

/-- The number that a value gives: a number as a double, a string as what it reads as. -/
def number? : Value → Option Float
  | .number n => some n.toFloat
  | .text s => Numeral.float? (Text.trim s.toList)
  | _ => none

/-- The text that a value gives: a string as it is, a number as labels show it. -/
def text? : Value → Option String
  | .text s => some s
  | .number n => some (String.ofList (shown n.toFloat))
  | _ => none

/-- The finite number in a field, or the default. -/
def numberAt (name : String) (default : Float) (v : Value) : Float :=
  (((v.field? name).bind number?).filter Float.isFinite).getD default

/-- The text in a field, or the default. -/
def textAt (name default : String) (v : Value) : String :=
  ((v.field? name).bind text?).getD default

/-- The items of the body of a loop. There are none if the body is no array. -/
def body (v : Value) : List Value := v.body?.getD []

theorem depth_of_mem {v : Value} {items : List Value} (h : v ∈ items) :
    v.depth ≤ itemsDepth items := by
  induction h with
  | head => exact Nat.le_max_left ..
  | tail _ _ ih => exact Nat.le_trans ih (Nat.le_max_right ..)

theorem depth_of_mem_body {v item : Value} (h : item ∈ v.body) : item.depth < v.depth := by
  rw [body] at h
  cases hbody : v.body? with
  | none => simp [hbody] at h
  | some items =>
    rw [hbody, Option.getD_some] at h
    exact Nat.lt_of_le_of_lt (depth_of_mem h) (Command.depth_body? hbody)

/-- The block that a value stands for. -/
def block (v : Value) : Command :=
  match v.kind? with
  | some "move" => .steer (.advance (v.numberAt "value" 10))
  | some "turn" => .steer (.turn (v.numberAt "value" 15))
  | some "goto" => .steer (.goTo (v.numberAt "x" 0) (v.numberAt "y" 0))
  | some "wait" =>
    let seconds := v.numberAt "seconds" 1
    .wait (if Binary64.value seconds < 0 then 0 else seconds)
  | some "say" => .speak .say (v.textAt "text" "Hello!")
  | some "think" => .speak .think (v.textAt "text" "Hmm...")
  | some "show" => .appear true
  | some "hide" => .appear false
  | some "repeat" =>
    .loop (UInt32.ofNat (min ⌈Binary64.value (v.numberAt "times" 2)⌉₊ (2 ^ 32 - 1)))
      (if ∃ item ∈ v.body, item.Doubled then [] else v.body.attach.map fun item => item.1.block)
  | _ => .unknown
termination_by v.depth
decreasing_by exact depth_of_mem_body item.2

end Json.Value

open Json.Value (block numberAt textAt body number? text? field?)

variable {members : List (String × Value)} {name : String}

theorem numberField_eq (default : Float) :
    numberField default (member? name members) = numberAt name default (.object members) := by
  rw [numberAt, field?]
  cases member? name members with
  | none => rfl
  | some v =>
    cases v with
    | number n =>
      simp only [numberField, finiteOr, Option.bind_some, number?, Option.filter_some]
      split <;> simp_all
    | text s =>
      simp only [numberField, numberOr, Option.bind_some, number?]
      cases Numeral.float? (Text.trim s.toList) with
      | none => rfl
      | some x =>
        simp only [finiteOr, Option.filter_some]
        split <;> simp_all
    | null | bool b | array vs | object ms => rfl

theorem textField_eq (default : String) :
    textField default (member? name members) = textAt name default (.object members) := by
  rw [textAt, field?]
  cases member? name members with
  | none => rfl
  | some v => cases v <;> rfl

theorem isFinite_numberAt (name : String) {default : Float} (h : default.isFinite = true)
    (v : Value) :
    (numberAt name default v).isFinite = true := by
  rw [numberAt]
  cases hx : ((v.field? name).bind number?).filter Float.isFinite with
  | none => exact h
  | some x => exact (Option.filter_eq_some_iff.mp hx).2

namespace Command

theorem blocks?_eq_map {vs : List Value} (h : ∀ v ∈ vs, ofValue? v = some v.block) :
    blocks? vs = some (vs.map block) := by
  induction vs with
  | nil => rfl
  | cons v rest ih =>
    rw [List.forall_mem_cons] at h
    rw [blocks?, h.1, ih h.2]
    rfl

/-- Every block that is no loop. -/
theorem assemble?_eq_block {kind : String}
    (hkind : Json.Value.kind? (.object members) = some kind) (hrepeat : kind ≠ "repeat")
    (bodies : List (String × Script)) :
    assemble? kind members bodies = some (Value.object members).block := by
  have hseconds := isFinite_numberAt "seconds" (show (1 : Float).isFinite = true by rfl)
    (.object members)
  unfold assemble?
  simp only [numberField_eq, textField_eq]
  rw [Json.Value.block, hkind]
  split
  case h_4 => exact absurd rfl hrepeat
  case h_5 => exact congrArg (fun x => some (wait x)) (notNegative_eq hseconds)
  case h_10 => split <;> simp_all
  all_goals rfl

/-- A loop, given the blocks of its items. -/
theorem ofValue?_loop_eq (htype : member? "type" members = some (.text "repeat"))
    (hd : ¬ (Value.object members).Doubled)
    (hitems : ∀ item ∈ (Value.object members).body, ¬ item.Doubled →
      ofValue? item = some item.block) :
    ofValue? (.object members) = some (Value.object members).block := by
  have hkind : Json.Value.kind? (.object members) = some "repeat" := by
    simp [Json.Value.kind?, htype]
  have htimes := isFinite_numberAt "times" (show (2 : Float).isFinite = true by rfl)
    (.object members)
  have hbody : (blocks? (Value.object members).body).getD []
      = if ∃ item ∈ (Value.object members).body, item.Doubled then []
        else (Value.object members).body.map block := by
    split
    next hdoubled => rw [blocks?_eq_none_iff.mpr hdoubled, Option.getD_none]
    next honce =>
      rw [blocks?_eq_map fun item hitem => hitems item hitem fun hdoubled =>
        honce ⟨item, hitem, hdoubled⟩, Option.getD_some]
  have htwo : Default.times.toFloat = 2 := rfl
  rw [body] at hbody
  rw [ofValue?_loop htype hd, hbody, numberField_eq, htwo, repeatCount_eq htimes,
    Json.Value.block, hkind]
  simp only [body, List.map_subtype, List.unattach_attach]

/-- **The block of a value.** -/
theorem ofValue?_eq_block {v : Value} (hd : ¬ v.Doubled) : ofValue? v = some v.block := by
  induction hn : v.depth using Nat.strongRecOn generalizing v with
  | ind n ih =>
    subst hn
    cases v with
    | null | bool b | number n | text s | array vs =>
      rw [ofValue?, Json.Value.block]
      all_goals simp [Json.Value.kind?]
    | object members =>
      cases htype : member? "type" members with
      | none =>
        rw [ofValue?, Json.Value.block]
        simp [Json.Value.kind?, htype]
      | some t =>
        cases t with
        | null | bool b | number n | array vs | object ms =>
          rw [ofValue?, Json.Value.block]
          simp [Json.Value.kind?, htype]
        | text kind =>
          have hkind : Json.Value.kind? (.object members) = some kind := by
            simp [Json.Value.kind?, htype]
          by_cases hrepeat : kind = "repeat"
          · subst hrepeat
            exact ofValue?_loop_eq htype hd fun item hitem honce =>
              ih _ (Json.Value.depth_of_mem_body hitem) honce rfl
          · simp only [ofValue?, htype]
            exact assemble?_eq_block hkind hrepeat (bodies members)

end Command

/-- **The meaning of a text.** A text that starts with a JSON array of at most 127 nested containers
is read as the blocks that its items stand for. If some of the items are doubled loops, the text is
refused at the first of them. -/
theorem Script.parse_meaning [Json.Rounding] {items : List Value} {w t : List Char} (hw : Blanks w)
    (h : Written (.value (.array items)) t)
    (hdepth : (Value.array items).depth ≤ Json.depthLimit) (more : List Char) :
    ((∀ v ∈ items, ¬ v.Doubled) →
      Script.parse (String.ofList (w ++ t ++ more)) = .ok (items.map block)) ∧
    ∀ i v, items[i]? = some v → v.Doubled → (∀ u ∈ items.take i, ¬ u.Doubled) →
      ∃ position, Script.parse (String.ofList (w ++ t ++ more))
        = .error (.malformed .bodyTwice [.index i] position) := by
  have hitems : itemsDepth items ≤ ScriptReading.blockDepth := by
    have hlimit : Json.depthLimit = ScriptReading.blockDepth + 1 := rfl
    rw [Value.depth] at hdepth
    omega
  cases h with
  | array hwritten =>
    refine ⟨fun honce => ?_, fun i v hi hv hbefore => ?_⟩
    · have hblocks := Command.blocks?_eq_map fun v hv => Command.ofValue?_eq_block (honce v hv)
      exact Script.parse_items hw hwritten hitems hblocks more
    · exact Script.parse_items_refused hw hwritten hitems hi hv hbefore more

open scoped Json.FastRounding in
/-- A loop around a value that is no block, and a loop with two bodies. -/
theorem Script.parse_meaning_samples :
    Script.parse "[\x7b\"type\":\"repeat\",\"commands\":[null]\x7d] and so on"
      = .ok [.loop 2 [.unknown]] ∧
    ∃ position, Script.parse "[\x7b\"type\":\"repeat\",\"commands\":[],\"body\":[]\x7d]"
      = .error (.malformed .bodyTwice [.index 0] position) := by
  have harray := Written.array (.lastItem (written_loop (.lastItem Written.wordNull.bare)).bare)
  obtain ⟨hmeaning, -⟩ :=
    Script.parse_meaning Json.blanks_nil harray (by decide) " and so on".toList
  obtain ⟨-, hdoubled⟩ := Script.parse_meaning Json.blanks_nil written_doubledLoop (by decide) []
  refine ⟨?_, hdoubled 0 doubledLoop rfl doubled_doubledLoop (fun _ h => absurd h List.not_mem_nil)⟩
  have honce : ¬ Json.Value.Doubled
      (.object [("type", .text "repeat"), ("commands", .array [.null])]) := by decide
  have hloop : Command.ofValue? (.object [("type", .text "repeat"), ("commands", .array [.null])])
      = some (.loop 2 [.unknown]) := by
    have htwo : repeatCount Default.times.toFloat = 2 := by decide
    rw [Command.ofValue?_loop rfl honce, member?, numberField, htwo]
    · rfl
    · rintro n ⟨⟩
    · rintro raw ⟨⟩
  have hblock := Option.some.inj (hloop.symm.trans (Command.ofValue?_eq_block honce))
  have hparse := hmeaning (by simpa using honce)
  rw [List.map_singleton, ← hblock] at hparse
  exact hparse

end StagePlay
