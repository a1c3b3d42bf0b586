import StagePlay.Proofs.Json.Depth
import StagePlay.Proofs.Script.Value
import StagePlay.Script.Reading

/-!
# StagePlay.Proofs.Script.Text

How the text of a block is read inside a script, by a reader that takes the numbers in it for the
closest doubles. A block inside `d` loops starts with `2 * d` containers open besides those around
the script: an object and an array for each loop.

* `Command.consume_value`: the value of a block is read if there is room for what it nests.
* `Command.consume_text_within`: so it is if there is room for all its blocks.
* `Script.consume_text_within`: so is the whole text of a script.
* `Command.text_refused`: inside a script, a block with more than 62 loops around it makes the
  reader give up.
-/

namespace StagePlay

open Json (consume quoted itemsDepth membersDepth)
open Json.NumberReading (ReadsClosest)
open Json.Reading (Member Starts Reads deliver step)
open ScriptReading (blockDepth)

variable {stack : List Json.Frame} {e : Json.Expectation} {limit k d : Nat}

/-! ## Texts and what they nest -/

/-- The texts of the blocks of a script with commas between them. -/
def Script.joined (s : Script) : List Char := List.intercalate [','] (Script.texts s)

theorem joined_singleton (c : Command) : Script.joined [c] = c.text := by
  rw [Script.joined, Script.texts, Script.texts, List.intercalate_singleton]

theorem joined_cons (c : Command) {s : Script} (h : s ≠ []) (ending : List Char) :
    Script.joined (c :: s) ++ ending = c.text ++ ([','] ++ (Script.joined s ++ ending)) := by
  have hne : Script.texts s ≠ [] := by
    cases s with
    | nil => exact absurd rfl h
    | cons c s => simp [Script.texts]
  rw [Script.joined, Script.texts, List.intercalate_cons_of_ne_nil hne]
  simp only [Script.joined, List.append_assoc]

theorem joined_eq_append (c : Command) (s : Script) :
    ∃ more, Script.joined (c :: s) = c.text ++ more := by
  by_cases h : s = []
  · subst h
    exact ⟨[], by rw [joined_singleton, List.append_nil]⟩
  · have hcons := joined_cons c h []
    rw [List.append_nil] at hcons
    exact ⟨_, hcons⟩

/-- A block too deep is in the first of some blocks or in the others, which there then are. -/
theorem deep_cons {d : Nat} {c : Command} {s : Script}
    (h : ∃ b ∈ Script.outlineAt d (c :: s), 63 ≤ b.1) :
    (∃ b ∈ c.outlineAt d, 63 ≤ b.1) ∨
      ((∀ b ∈ c.outlineAt d, b.1 ≤ 62) ∧ s ≠ [] ∧ ∃ b ∈ Script.outlineAt d s, 63 ≤ b.1) := by
  by_cases hc : ∃ b ∈ c.outlineAt d, 63 ≤ b.1
  · exact .inl hc
  · obtain ⟨b, hb, hdeep⟩ := h
    have hlater : b ∈ Script.outlineAt d s :=
      (List.mem_append.mp hb).resolve_left fun hb => hc ⟨b, hb, hdeep⟩
    refine .inr ⟨fun b hb => Nat.le_of_not_lt fun hlt => hc ⟨b, hb, hlt⟩, ?_, b, hlater, hdeep⟩
    rintro rfl
    cases hlater

theorem depth_blockValue (kind : String) (ms : List Member) :
    (blockValue kind ms).depth = membersDepth (ms.map fun m => (m.name, m.value)) + 1 := by
  simp [blockValue, Json.Value.depth, membersDepth]

theorem depth_numberValue (x : Float) : (numberValue x).depth = 0 := by
  unfold numberValue
  split <;> rfl

/-- The text of a loop up to its first block. -/
def loopHead (times : UInt32) : List Char :=
  '{' :: (memberText "type" (quoted "repeat") ++ [','])
    ++ (memberText "times" (Nat.toDigits 10 times.toNat) ++ [',']) ++ (quoted "commands" ++ [':'])
    ++ ['[']

theorem text_loop (times : UInt32) (body : Script) :
    (Command.loop times body).text
      = loopHead times ++ (Script.joined body ++ [']']) ++ ['}'] := by
  simp [Command.text, blockText, loopHead, memberText, Script.joined]

mutual

/-- Each loop around a block takes two containers; `k` are open around the outermost of them. -/
theorem Command.depth_value {d : Nat} (c : Command)
    (h : ∀ b ∈ c.outlineAt d, 2 * b.1 + k + 1 < limit) : 2 * d + k + c.value.depth ≤ limit := by
  have hd : 2 * d + k + 1 < limit := h _ (mem_outlineAt d c)
  have hvalue : c.value.depth = _ := depth_blockValue c.kind c.members
  match c with
  | .steer (.advance x) | .steer (.turn x) | .wait x | .steer (.goTo x y) =>
    simp [Command.members, membersDepth, depth_numberValue] at hvalue
    omega
  | .speak kind text =>
    simp [Command.members, membersDepth, Json.Value.depth] at hvalue
    omega
  | .appear _ | .unknown =>
    simp [Command.members, membersDepth] at hvalue
    omega
  | .loop times body =>
    have hbody := Script.depth_values body (Script.forall_outlineAt_body h) (by omega)
    simp [Command.members, membersDepth, Json.Value.depth] at hvalue
    omega

theorem Script.depth_values {d : Nat} (s : Script)
    (h : ∀ b ∈ Script.outlineAt d s, 2 * b.1 + k + 1 < limit) (hd : 2 * d + k ≤ limit) :
    2 * d + k + itemsDepth (Script.values s) ≤ limit := by
  match s with
  | [] => exact hd
  | c :: s =>
    obtain ⟨hfirst, hlater⟩ := Script.forall_outlineAt_cons.mp h
    have hc : 2 * d + k + c.value.depth ≤ limit := Command.depth_value c hfirst
    have hs := Script.depth_values s hlater hd
    show 2 * d + k + max c.value.depth (itemsDepth (Script.values s)) ≤ limit
    omega

end

/-! ## Reading -/

variable [Json.Rounding]

theorem reads_numberText (limit depth : Nat) {x : Float}
    (hread : ReadsClosest (NumberStyle.script.write x)) :
    Reads limit depth (numberText x) (numberValue x) := by
  unfold numberText numberValue
  split
  next h => exact Json.Reading.reads_number (Json.NumberReading.spells_write h hread)
  next => exact Json.Reading.reads_null

theorem reads_times (limit depth : Nat) (times : UInt32) :
    Reads limit depth (Nat.toDigits 10 times.toNat) (.number (.integer times.toNat)) := by
  have hlt : times.toNat < Numeral.capacity 64 :=
    Nat.lt_of_lt_of_le times.toNat_lt (by decide)
  exact Json.Reading.reads_number (Json.NumberReading.spells_natural hlt)

/-- The object of a block is read as its value if all its members are. -/
theorem consume_blockText {kind : String} {ms : List Member} (he : Starts e)
    (hlt : stack.length < limit)
    (h : ∀ m ∈ ms, Reads limit (stack.length + 1) m.text m.value) :
    consume (step limit) ⟨stack, e⟩ (blockText kind (ms.map fun m => memberText m.name m.text))
      = deliver stack (blockValue kind ms) := by
  have hall : ∀ m ∈ ⟨"type", quoted kind, .text kind⟩ :: ms,
      Reads limit (stack.length + 1) m.text m.value := by
    intro m hm
    rcases List.mem_cons.mp hm with rfl | hm
    · exact Json.Reading.reads_quoted _
    · exact h m hm
  have hmembers := @Json.Reading.consume_members _ limit stack [] .firstKey _ _ (.inl rfl) hall
  rw [blockText, List.cons_append, Json.consume_cons (Json.Reading.step_brace he hlt)]
  exact hmembers

mutual

/-- With room for what it nests, every member of a block is read. -/
theorem Command.reads_members {d depth : Nat} (c : Command)
    (hread : ∀ b ∈ c.outlineAt d, b.2.ReadsClosest)
    (h : depth + membersDepth (c.members.map fun m => (m.name, m.value)) ≤ limit) :
    ∀ m ∈ c.members, Reads limit depth m.text m.value := by
  match c with
  | .steer (.advance x) | .steer (.turn x) | .wait x =>
    have hx := hread _ (mem_outlineAt d _) x (List.mem_singleton_self _)
    simpa [Command.members] using reads_numberText limit depth hx
  | .steer (.goTo x y) =>
    have hxy := List.forall_mem_cons.mp (hread _ (mem_outlineAt d _))
    have hx := reads_numberText limit depth hxy.1
    have hy := reads_numberText limit depth (hxy.2 y (List.mem_singleton_self _))
    simpa [Command.members] using ⟨hx, hy⟩
  | .speak kind text =>
    have htext : Reads limit depth (quoted text) (.text text) := Json.Reading.reads_quoted text
    simpa [Command.members] using htext
  | .appear _ | .unknown => simp [Command.members]
  | .loop times body =>
    have hroom : depth + (itemsDepth (Script.values body) + 1) ≤ limit := by
      simpa [Command.members, membersDepth, Json.Value.depth] using h
    have harray : Reads limit depth ('[' :: Script.joined body ++ [']'])
        (.array (Script.values body)) := by
      refine Json.Reading.reads_of_deliver fun stack hs => ?_
      rw [List.cons_append, Json.consume_cons (Json.Reading.step_bracket (by omega))]
      by_cases hnil : body = []
      · subst hnil
        exact Json.consume_singleton ']'
      · have hbody := Script.forall_outlineAt_body hread
        exact Script.consume_joined body hnil hbody stack [] (by omega) (.inr (.inl rfl))
    have htimes := reads_times limit depth times
    simpa [Command.members] using ⟨htimes, harray⟩

/-- The blocks of a script up to the closing bracket, of which there is at least one. -/
theorem Script.consume_joined {d : Nat} (s : Script) (hne : s ≠ [])
    (hread : ∀ b ∈ Script.outlineAt d s, b.2.ReadsClosest) (rest : List Json.Frame)
    (done : List Json.Value) {e : Json.Expectation}
    (h : rest.length + 1 + itemsDepth (Script.values s) ≤ limit) (he : Starts e) :
    consume (step limit) ⟨.array done :: rest, e⟩ (s.joined ++ [']'])
      = deliver rest (.array (done.reverse ++ Script.values s)) := by
  match s with
  | c :: s =>
    obtain ⟨hfirst, hlater⟩ := Script.forall_outlineAt_cons.mp hread
    have hdepth : rest.length + 1 + max c.value.depth (itemsDepth (Script.values s)) ≤ limit := h
    have hc : consume (step limit) ⟨.array done :: rest, e⟩ c.text
        = .more ⟨.array (c.value :: done) :: rest, .itemEnd⟩ := by
      have hvalue : c.value.depth = _ := depth_blockValue c.kind c.members
      rw [c.text_eq]
      refine consume_blockText he (by rw [List.length_cons]; omega)
        (Command.reads_members c hfirst ?_)
      rw [List.length_cons]
      omega
    by_cases hnil : s = []
    · subst hnil
      have hend : step limit ⟨.array (c.value :: done) :: rest, .itemEnd⟩ ']'
          = deliver rest (.array (c.value :: done).reverse) := rfl
      rw [joined_singleton, Json.consume_append _ hc, Json.consume_singleton, hend]
      simp [Script.values, Command.value]
    · have hcomma : consume (step limit) ⟨.array (c.value :: done) :: rest, .itemEnd⟩ [',']
          = .more ⟨.array (c.value :: done) :: rest, .nextItem⟩ := rfl
      have hnext := Script.consume_joined s hnil hlater rest (c.value :: done) (by omega)
        (.inr (.inr rfl))
      rw [joined_cons c hnil, Json.consume_append _ hc, Json.consume_append _ hcomma, hnext]
      simp [Script.values, Command.value]

end

/-- A block is read as its value if there is room for what it nests. -/
theorem Command.consume_value {c : Command} (hread : ∀ b ∈ c.outlineAt d, b.2.ReadsClosest)
    (h : stack.length + c.value.depth ≤ limit) (he : Starts e) :
    consume (step limit) ⟨stack, e⟩ c.text = deliver stack c.value := by
  have hvalue : c.value.depth = _ := depth_blockValue c.kind c.members
  rw [c.text_eq]
  exact consume_blockText he (by omega) (reads_members c hread (by omega))

/-- A block is read as its value if there is room for all its blocks. -/
theorem Command.consume_text_within {c : Command}
    (hread : ∀ b ∈ c.outlineAt d, b.2.ReadsClosest)
    (h : ∀ b ∈ c.outlineAt d, 2 * b.1 + k + 1 < limit) (hs : stack.length = 2 * d + k)
    (he : Starts e) : consume (step limit) ⟨stack, e⟩ c.text = deliver stack c.value := by
  have hdepth := depth_value c h
  exact consume_value hread (by omega) he

/-- Inside a script there is room for 62 loops around every block. -/
theorem Command.consume_text {c : Command} (hread : ∀ b ∈ c.outlineAt d, b.2.ReadsClosest)
    (h : ∀ b ∈ c.outlineAt d, b.1 ≤ 62) (hs : stack.length = 2 * d) (he : Starts e) :
    consume (step blockDepth) ⟨stack, e⟩ c.text = deliver stack c.value := by
  refine @consume_text_within stack e blockDepth 0 d _ c hread (fun b hb => ?_) hs he
  have hle := h b hb
  show 2 * b.1 + 0 + 1 < 126
  omega

/-- The text of a script is read as the array of the values of its blocks. -/
theorem Script.consume_text_within {s : Script} (hread : ∀ b ∈ s.outline, b.2.ReadsClosest)
    (h : ∀ b ∈ s.outline, 2 * b.1 + 2 < limit) (hlimit : 0 < limit) :
    consume (step limit) .start s.text = .ended (.array (Script.values s)) := by
  have hdepth := @Script.depth_values limit 1 0 s h hlimit
  rw [Script.text, List.cons_append, Json.Reading.start,
    Json.consume_cons (Json.Reading.step_bracket hlimit)]
  by_cases hnil : s = []
  · subst hnil
    exact Json.consume_singleton ']'
  · exact Script.consume_joined s hnil hread [] [] (by simpa using hdepth) (.inr (.inl rfl))

theorem consume_loopHead (times : UInt32) (he : Starts e) (hlt : stack.length + 1 < blockDepth) :
    consume (step blockDepth) ⟨stack, e⟩ (loopHead times)
      = .more ⟨.array [] ::
          .object [("times", .number (.integer times.toNat)), ("type", .text "repeat")]
            (some "commands") :: stack, .firstItem⟩ := by
  have htype : consume (step blockDepth) ⟨.object [] none :: stack, .firstKey⟩
      (memberText "type" (quoted "repeat") ++ [','])
      = .more ⟨.object [("type", .text "repeat")] none :: stack, .nextKey⟩ :=
    Json.Reading.consume_member (.inl rfl) (Json.Reading.reads_quoted _) (by decide)
  have htimes : consume (step blockDepth)
      ⟨.object [("type", .text "repeat")] none :: stack, .nextKey⟩
      (memberText "times" (Nat.toDigits 10 times.toNat) ++ [','])
      = .more ⟨.object [("times", .number (.integer times.toNat)), ("type", .text "repeat")] none
          :: stack, .nextKey⟩ :=
    Json.Reading.consume_member (.inr rfl) (reads_times _ _ times) (by decide)
  rw [loopHead, List.append_assoc, List.append_assoc, List.cons_append,
    Json.consume_cons (Json.Reading.step_brace he (by omega)), Json.consume_append _ htype,
    Json.consume_append _ htimes, Json.consume_append _ (Json.Reading.consume_name (.inr rfl) _),
    Json.consume_singleton]
  exact Json.Reading.step_bracket hlt

/-- The reader gives up because too many containers are open. -/
def GivesUp (r : Json.Reading) (text : List Char) : Prop :=
  ∃ path beyond, consume (step blockDepth) r text = .refused ⟨.nestedTooDeeply, path, beyond⟩

theorem GivesUp.append {r : Json.Reading} {text : List Char} (h : GivesUp r text)
    (more : List Char) : GivesUp r (text ++ more) := by
  obtain ⟨path, beyond, h⟩ := h
  exact ⟨path, beyond, Json.consume_append_refused more h⟩

theorem GivesUp.after {r r' : Json.Reading} {before text : List Char}
    (hbefore : consume (step blockDepth) r before = .more r') (h : GivesUp r' text) :
    GivesUp r (before ++ text) := by
  obtain ⟨path, beyond, h⟩ := h
  exact ⟨path, beyond, by rw [Json.consume_append _ hbefore]; exact h⟩

mutual

/-- A block inside 63 loops or more is not read. -/
theorem Command.text_refused {d : Nat} (c : Command)
    (hread : ∀ b ∈ c.outlineAt d, b.2.ReadsClosest) (h : ∃ b ∈ c.outlineAt d, 63 ≤ b.1)
    (stack : List Json.Frame) {e : Json.Expectation} (hs : stack.length = 2 * d) (he : Starts e) :
    GivesUp ⟨stack, e⟩ c.text := by
  by_cases hd : d ≤ 62
  · match c with
    | .loop times body =>
      obtain ⟨b, hb, hdeep⟩ := h
      rw [Command.outlineAt] at hb
      have hbody : b ∈ Script.outlineAt (d + 1) body := by
        refine (List.mem_cons.mp hb).resolve_left ?_
        rintro rfl
        exact absurd hd (by simp at hdeep; omega)
      have hhead := consume_loopHead times he (by show stack.length + 1 < 126; omega)
      have hread' := Script.forall_outlineAt_body hread
      rw [text_loop]
      exact ((Script.joined_refused body hread' ⟨b, hbody, hdeep⟩ _ [] (by simp; omega)
        (.inr (.inl rfl))).after hhead).append _
    | .steer _ | .appear _ | .wait _ | .speak _ _ | .unknown =>
      obtain ⟨b, hb, hdeep⟩ := h
      cases List.mem_singleton.mp hb
      exact absurd hdeep (by show ¬ 63 ≤ d; omega)
  · have hfull : blockDepth ≤ stack.length := by
      show 126 ≤ stack.length
      omega
    rw [c.text_eq, blockText, List.cons_append]
    exact ⟨Json.Reading.pathOf stack, 1, by
      simp only [consume, Json.Reading.step_brace_refused he hfull]⟩

/-- Nor is a script with such a block in it. -/
theorem Script.joined_refused {d : Nat} (s : Script)
    (hread : ∀ b ∈ Script.outlineAt d s, b.2.ReadsClosest)
    (h : ∃ b ∈ Script.outlineAt d s, 63 ≤ b.1) (rest : List Json.Frame)
    (done : List Json.Value) {e : Json.Expectation}
    (hrest : rest.length + 1 = 2 * d)
    (he : Starts e) : GivesUp ⟨.array done :: rest, e⟩ (s.joined ++ [']']) := by
  match s with
  | [] =>
    obtain ⟨b, hb, -⟩ := h
    cases hb
  | c :: s =>
    obtain ⟨hfirst, hreads⟩ := Script.forall_outlineAt_cons.mp hread
    rcases deep_cons h with hc | ⟨hroom, hne, hlater⟩
    · obtain ⟨more, hmore⟩ := joined_eq_append c s
      rw [hmore, List.append_assoc]
      exact (Command.text_refused c hfirst hc (.array done :: rest) hrest he).append _
    · -- the block is read, and a later one is not
      have hblock : consume (step blockDepth) ⟨.array done :: rest, e⟩ c.text
          = .more ⟨.array (c.value :: done) :: rest, .itemEnd⟩ :=
        Command.consume_text hfirst hroom hrest he
      have hcomma : consume (step blockDepth) ⟨.array (c.value :: done) :: rest, .itemEnd⟩ [',']
          = .more ⟨.array (c.value :: done) :: rest, .nextItem⟩ := rfl
      have hrefused := Script.joined_refused s hreads hlater rest (c.value :: done) hrest
        (.inr (.inr rfl))
      rw [joined_cons c hne]
      exact (hrefused.after hcomma).after hblock

end

end StagePlay
