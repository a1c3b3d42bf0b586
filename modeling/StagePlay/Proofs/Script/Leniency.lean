import StagePlay.Proofs.Json.Completeness
import StagePlay.Proofs.Script.RoundTrip

/-!
# StagePlay.Proofs.Script.Leniency

Which texts are scripts, whatever blocks they are made of.

Every JSON array is read as one block for each item, unless an item is a loop with two bodies: at
the top of a script that item is an error, and inside a body it empties this body.

* `ofValue?_eq_none_iff`: nothing but a loop with two bodies is refused.
* `kept_of_blocks?`: at every level a body keeps one block for each of its items.
* `Script.parse_lenient`: both for whole texts.
-/

namespace StagePlay

open Json (Value Written Blanks consume member? itemsDepth membersDepth)

namespace Json.Value

/-- The type of a block, if it has one that is a string. -/
def kind? : Value → Option String
  | .object members =>
    match member? "type" members with
    | some (.text kind) => some kind
    | _ => none
  | _ => none

/-- A loop that has its body twice, under either name. -/
def Doubled : Value → Prop
  | .object members => kind? (.object members) = some "repeat" ∧
    (member? "commands" members).isSome ∧ (member? "body" members).isSome
  | _ => False

/-- The items of the body of a loop, under either name, if the body is an array. -/
def body? : Value → Option (List Value)
  | .object members =>
    if kind? (.object members) = some "repeat" then
      match (member? "commands" members).or (member? "body" members) with
      | some (.array items) => some items
      | _ => none
    else none
  | _ => none

end Json.Value

/-- The blocks of a script are those of these values, one for one, and so are the blocks of every
    body in them. Only a body with a doubled loop among its items is left empty. -/
inductive Kept : List Value → Script → Prop where
  | nil : Kept [] []
  | block {v : Value} {vs : List Value} {c : Command} {s : Script} :
      Command.ofValue? v = some c → v.body? = none → Kept vs s → Kept (v :: vs) (c :: s)
  | loop {v : Value} {vs items : List Value} {times : UInt32} {body s : Script} :
      Command.ofValue? v = some (.loop times body) → v.body? = some items →
      (∀ item ∈ items, ¬ item.Doubled) → Kept items body → Kept vs s →
      Kept (v :: vs) (.loop times body :: s)
  | emptied {v : Value} {vs items : List Value} {times : UInt32} {s : Script} :
      Command.ofValue? v = some (.loop times []) → v.body? = some items →
      (∃ item ∈ items, item.Doubled) → Kept vs s → Kept (v :: vs) (.loop times [] :: s)

theorem Kept.length_eq {vs : List Value} {s : Script} (h : Kept vs s) : s.length = vs.length := by
  induction h with
  | nil => rfl
  | block _ _ _ ih => rw [List.length_cons, List.length_cons, ih]
  | loop _ _ _ _ _ _ ih => rw [List.length_cons, List.length_cons, ih]
  | emptied _ _ _ _ ih => rw [List.length_cons, List.length_cons, ih]

/-! ## Values -/

namespace Command

theorem member?_cons (name : String) (m : String × Value) (members : List (String × Value)) :
    member? name (m :: members)
      = (member? name members).or (if m.1 == name then some m.2 else none) := by
  simp only [member?, List.reverse_cons, List.find?_append, List.find?_singleton, Option.map_or]
  split <;> rfl

theorem any_bodies {name : String} (h : isBodyName name = true)
    (members : List (String × Value)) :
    (bodies members).any (·.1 == name) = (member? name members).isSome := by
  induction members with
  | nil => rfl
  | cons m rest ih =>
    obtain ⟨n, v⟩ := m
    rw [member?_cons, bodies]
    by_cases hn : n = name
    · subst hn
      simp [h]
    · have hne : (n == name) = false := by simpa using hn
      split <;> simp [ih, hne]

theorem assemble?_ne_none {kind : String} (h : kind ≠ "repeat") (members : List (String × Value))
    (bodies : List (String × Script)) : assemble? kind members bodies ≠ none := by
  unfold assemble?
  split <;> simp_all

theorem ofValue?_eq_none_iff {v : Value} : ofValue? v = none ↔ v.Doubled := by
  cases v with
  | object members =>
    simp only [ofValue?, Json.Value.Doubled, Json.Value.kind?]
    cases ht : member? "type" members with
    | none => simp
    | some t =>
      cases t with
      | text kind =>
        by_cases hk : kind = "repeat"
        · subst hk
          simp [assemble?, any_bodies (show isBodyName "commands" = true from rfl),
            any_bodies (show isBodyName "body" = true from rfl), Option.isSome_iff_ne_none]
        · simp [assemble?_ne_none hk, hk]
      | null | bool b | number n | array items | object ms => simp
  | null | bool b | number n | text s | array items => simp [ofValue?, Json.Value.Doubled]

theorem blocks?_eq_none_iff {vs : List Value} : blocks? vs = none ↔ ∃ v ∈ vs, v.Doubled := by
  induction vs with
  | nil => simp [blocks?]
  | cons v rest ih =>
    rw [blocks?, List.exists_mem_cons_iff, ← ih, ← ofValue?_eq_none_iff]
    cases ofValue? v <;> simp

/-- With a body under one name at most, the body that counts is the last one. -/
theorem getLast?_bodies {members : List (String × Value)}
    (h : ¬ ((member? "commands" members).isSome ∧ (member? "body" members).isSome)) :
    (bodies members).getLast?.map (·.2)
      = ((member? "commands" members).or (member? "body" members)).map bodyOf := by
  induction members with
  | nil => rfl
  | cons m rest ih =>
    obtain ⟨n, v⟩ := m
    rw [member?_cons, member?_cons] at h ⊢
    generalize hc : member? "commands" rest = commands at *
    generalize hb : member? "body" rest = body at *
    by_cases hcommands : n = "commands"
    · subst hcommands
      have hbody : body = none := by simpa using h
      subst hbody
      have hrest := ih (by simp)
      rw [bodies, if_pos (by rfl), List.getLast?_cons]
      cases hl : (bodies rest).getLast? <;> cases commands <;> simp_all
    · by_cases hname : n = "body"
      · subst hname
        have hnone : commands = none := by simpa using h
        subst hnone
        have hrest := ih (by simp)
        rw [bodies, if_pos (by rfl), List.getLast?_cons]
        cases hl : (bodies rest).getLast? <;> cases body <;> simp_all
      · have hother : isBodyName n = false := by simp [isBodyName, hcommands, hname]
        have hrest := ih (by simpa [hcommands, hname] using h)
        rw [bodies, if_neg (by simp [hother]), hrest]
        simp [hcommands, hname]

theorem depth_member? {name : String} {members : List (String × Value)} {v : Value}
    (h : member? name members = some v) : v.depth ≤ membersDepth members := by
  induction members with
  | nil => cases h
  | cons m rest ih =>
    obtain ⟨n, w⟩ := m
    rw [member?_cons] at h
    rw [membersDepth]
    cases hr : member? name rest with
    | some u =>
      rw [hr, Option.some_or] at h
      cases h
      exact Nat.le_trans (ih hr) (Nat.le_max_right ..)
    | none =>
      rw [hr, Option.none_or] at h
      split at h <;> cases h
      exact Nat.le_max_left ..

/-- A loop with its body: what it holds, and which member it is. -/
theorem body?_eq_some {v : Value} {items : List Value} (h : v.body? = some items) :
    ∃ members, v = .object members ∧ member? "type" members = some (.text "repeat") ∧
      (member? "commands" members).or (member? "body" members) = some (.array items) := by
  cases v with
  | object members =>
    simp only [Json.Value.body?] at h
    split at h
    · rename_i hkind
      split at h
      · rename_i items' hbody
        cases h
        refine ⟨members, rfl, ?_, hbody⟩
        simp only [Json.Value.kind?] at hkind
        split at hkind
        · rename_i kind ht
          cases hkind
          exact ht
        · cases hkind
      · cases h
    · cases h
  | null | bool b | number n | text s | array vs => cases h

theorem depth_body? {v : Value} {items : List Value} (h : v.body? = some items) :
    itemsDepth items < v.depth := by
  obtain ⟨members, rfl, -, hbody⟩ := body?_eq_some h
  have hle : (Value.array items).depth ≤ membersDepth members := by
    rcases Option.or_eq_some_iff.mp hbody with hc | ⟨-, hb⟩
    · exact depth_member? hc
    · exact depth_member? hb
  simp only [Value.depth] at hle ⊢
  omega

/-- A loop that is not doubled has the blocks of its body, or none if one of them is refused. -/
theorem ofValue?_loop {members : List (String × Value)}
    (htype : member? "type" members = some (.text "repeat"))
    (hd : ¬ (Value.object members).Doubled) :
    ofValue? (.object members)
      = some (.loop (repeatCount (numberField Default.times.toFloat (member? "times" members)))
          ((blocks? ((Value.object members).body?.getD [])).getD [])) := by
  have hkind : Json.Value.kind? (.object members) = some "repeat" := by
    simp [Json.Value.kind?, htype]
  have honce : ¬ ((member? "commands" members).isSome ∧ (member? "body" members).isSome) :=
    fun htwice => hd ⟨hkind, htwice⟩
  have hlast := getLast?_bodies honce
  have hbodies : ((bodies members).getLast?.map (·.2)).getD []
      = (blocks? ((Value.object members).body?.getD [])).getD [] := by
    rw [hlast, Json.Value.body?, if_pos hkind]
    cases (member? "commands" members).or (member? "body" members) with
    | none => rfl
    | some v => cases v <;> rfl
  simp only [ofValue?, htype, assemble?]
  rw [if_neg, ← hbodies]
  · cases (bodies members).getLast? <;> rfl
  · rw [Bool.and_eq_true, any_bodies rfl, any_bodies rfl]
    exact honce

theorem kept_of_blocks? {vs : List Value} {s : Script} (h : blocks? vs = some s) : Kept vs s := by
  suffices hall : ∀ n vs s, itemsDepth vs ≤ n → blocks? vs = some s → Kept vs s from
    hall _ vs s (Nat.le_refl _) h
  intro n
  -- a body is less deep than the values that it stands among
  induction n using Nat.strongRecOn with
  | ind n inner =>
    intro vs
    induction vs with
    | nil =>
      intro s _ h
      cases h
      exact .nil
    | cons v rest ih =>
      intro s hdepth h
      rw [itemsDepth] at hdepth
      rw [blocks?] at h
      cases hv : ofValue? v with
      | none => simp [hv] at h
      | some c =>
        simp only [hv, Option.map_eq_some_iff] at h
        obtain ⟨s', hrest, rfl⟩ := h
        have hkept := ih s' (by omega) hrest
        cases hbody : v.body? with
        | none => exact .block hv hbody hkept
        | some items =>
          have honce : ¬ v.Doubled := by
            rw [← ofValue?_eq_none_iff, hv]
            exact Option.some_ne_none c
          have hlt := depth_body? hbody
          obtain ⟨members, rfl, htype, -⟩ := body?_eq_some hbody
          have hloop := ofValue?_loop htype honce
          rw [hbody, Option.getD_some] at hloop
          cases hitems : blocks? items with
          | some body =>
            rw [hitems, Option.getD_some] at hloop
            rw [hv] at hloop
            cases hloop
            refine .loop hv hbody ?_ (inner _ (by omega) items body (Nat.le_refl _) hitems) hkept
            intro item hitem hdoubled
            have hnone := blocks?_eq_none_iff.mpr ⟨item, hitem, hdoubled⟩
            rw [hitems] at hnone
            cases hnone
          | none =>
            rw [hitems, Option.getD_none] at hloop
            rw [hv] at hloop
            cases hloop
            exact .emptied hv hbody (blocks?_eq_none_iff.mp hitems) hkept

end Command

/-! ## Texts -/

namespace ScriptReading

variable [Json.Rounding] {v : Value} {vs : List Value} {t w : List Char} {phase : ScriptPhase}
  {c : Char}

theorem step_accept (blocks : Script) (v : Value) (c : Char) :
    step ((⟨blocks, .blockEnd⟩ : ScriptReading).accept v) c
      = ((⟨blocks, .blockEnd⟩ : ScriptReading).accept v).afterAccepted c := by
  unfold accept
  split <;> rfl

omit [Json.Rounding] in
theorem afterAccepted_blank (blocks : Script) (v : Value) (h : Json.isBlank c = true) :
    ((⟨blocks, .blockEnd⟩ : ScriptReading).accept v).afterAccepted c
      = .more ((⟨blocks, .blockEnd⟩ : ScriptReading).accept v) := by
  unfold accept
  split <;> simp [afterAccepted, afterBlock, afterRefusal, h]

/-- A value is taken as a block, at its last character or at the one after it. -/
theorem consume_value (blocks : Script) (hphase : Awaits phase) (h : Written (.value v) t)
    (hdepth : v.depth ≤ blockDepth) (hc : Json.Closes c) :
    consume step ⟨blocks, phase⟩ (t ++ [c])
      = ((⟨blocks, .blockEnd⟩ : ScriptReading).accept v).afterAccepted c := by
  have hread := Json.Reading.readable_of_written h [] (by simpa using hdepth)
  obtain ⟨first, rest, rfl, hblank, hbracket⟩ := h.head_value
  rw [List.cons_append, consume_start blocks hphase hblank hbracket, ← List.cons_append]
  rcases hread with hread | ⟨n, r, rfl, hread, hend⟩
  · rw [Json.consume_append _ (consume_ended blocks hread), Json.consume_singleton, step_accept]
  · have hlift := Json.consume_lift (fun inner => (⟨blocks, .block inner⟩ : ScriptReading))
      (fun _ _ _ => step_more blocks) hread
    rw [show (Json.Reading.start) = ⟨[], .value⟩ from rfl, Json.consume_append _ hlift,
      Json.consume_singleton]
    exact step_number blocks (hend c hc)

theorem consume_item (blocks : Script) (hphase : Awaits phase) (h : Written (.item v) t)
    (hdepth : v.depth ≤ blockDepth) (hc : Json.Closes c) :
    consume step ⟨blocks, phase⟩ (t ++ [c])
      = ((⟨blocks, .blockEnd⟩ : ScriptReading).accept v).afterAccepted c := by
  cases h with
  | @item w t w' _ hw hwritten hw' =>
    have hbefore : consume step ⟨blocks, phase⟩ w = .more ⟨blocks, phase⟩ :=
      Json.consume_blanks (fun b hb => by rcases hphase with rfl | rfl <;> simp [step, hb]) hw
    rw [List.append_assoc, List.append_assoc, Json.consume_append _ hbefore]
    cases w' with
    | nil => exact consume_value blocks hphase hwritten hdepth hc
    | cons b w' =>
      obtain ⟨hb, hrest⟩ := List.forall_mem_cons.mp hw'
      have hvalue := consume_value blocks hphase hwritten hdepth (Json.closes_of_isBlank hb)
      rw [afterAccepted_blank blocks v hb] at hvalue
      have hafter : consume step ((⟨blocks, .blockEnd⟩ : ScriptReading).accept v) w'
          = .more ((⟨blocks, .blockEnd⟩ : ScriptReading).accept v) :=
        Json.consume_blanks
          (fun b hb => by rw [step_accept, afterAccepted_blank blocks v hb]) hrest
      have hsplit : t ++ (b :: w' ++ [c]) = t ++ [b] ++ (w' ++ [c]) := by simp
      rw [hsplit, Json.consume_append _ hvalue, Json.consume_append _ hafter,
        Json.consume_singleton, step_accept]

/-- Values none of which is doubled, up to the closing bracket. -/
theorem consume_items (blocks : Script) {s : Script} (h : Written (.items vs) t)
    (hphase : phase = .firstBlock ∨ (phase = .nextBlock ∧ vs ≠ []))
    (hdepth : itemsDepth vs ≤ blockDepth) (hs : Command.blocks? vs = some s) :
    consume step ⟨blocks, phase⟩ (t ++ [']']) = .ended (blocks.reverse ++ s) := by
  induction vs generalizing blocks s t phase with
  | nil =>
    have hfirst : phase = .firstBlock := hphase.resolve_right fun h => h.2 rfl
    cases hs
    subst hfirst
    cases h with
    | noItems hw =>
      have hblanks : consume step ⟨blocks, .firstBlock⟩ t = .more ⟨blocks, .firstBlock⟩ :=
        Json.consume_blanks (fun b hb => by simp [step, hb]) hw
      rw [Json.consume_append _ hblanks, Json.consume_singleton]
      simp [step, Json.isBlank]
  | cons v rest ih =>
    have hawaits : Awaits phase := hphase.imp_right fun h => h.1
    rw [itemsDepth] at hdepth
    rw [Command.blocks?] at hs
    cases hv : Command.ofValue? v with
    | none => simp [hv] at hs
    | some b =>
      simp only [hv, Option.map_eq_some_iff] at hs
      obtain ⟨s', hrest, rfl⟩ := hs
      cases h with
      | lastItem hitem =>
        cases hrest
        rw [consume_item blocks hawaits hitem (by omega) (by decide), accept, hv]
        simp [afterAccepted, afterBlock, Json.isBlank]
      | @moreItems _ _ t t' hitem hne hitems =>
        have hfirst := consume_item blocks hawaits hitem (by omega) (show Json.Closes ',' by decide)
        rw [accept, hv] at hfirst
        have hcomma : afterAccepted ⟨b :: blocks, .blockEnd⟩ ','
            = .more ⟨b :: blocks, .nextBlock⟩ := rfl
        have hsplit : t ++ ',' :: t' ++ [']'] = t ++ [','] ++ (t' ++ [']']) := by simp
        rw [hsplit, Json.consume_append _ (hfirst.trans hcomma),
          ih (b :: blocks) hitems (.inr ⟨rfl, hne⟩) (by omega) hrest]
        simp

/-- After the comma the fault of a doubled loop is reported at the next value. -/
theorem consume_refused (blocks : Script) (h : Written (.items vs) t) (hne : vs ≠ []) :
    ∃ beyond, consume step ⟨blocks, .refused true⟩ t
      = .refused ⟨.bodyTwice, [.index blocks.length], beyond⟩ := by
  have hitem : ∃ v t' more, t = t' ++ more ∧ Written (.item v) t' := by
    cases h with
    | noItems _ => exact absurd rfl hne
    | lastItem hitem => exact ⟨_, t, [], by simp, hitem⟩
    | moreItems hitem _ _ => exact ⟨_, _, _, rfl, hitem⟩
  obtain ⟨v, t', more, rfl, hitem⟩ := hitem
  cases hitem with
  | @item w t w' _ hw hwritten hw' =>
    obtain ⟨c, rest, rfl, hblank, -⟩ := hwritten.head_value
    have hbefore : consume step ⟨blocks, .refused true⟩ w = .more ⟨blocks, .refused true⟩ :=
      Json.consume_blanks (fun b hb => by simp [step, afterRefusal, hb]) hw
    have hstep : step ⟨blocks, .refused true⟩ c
        = .refused ⟨.bodyTwice, [.index blocks.length], 0⟩ := by
      simp [step, afterRefusal, hblank, bodyTwice]
    refine ⟨0, ?_⟩
    rw [List.append_assoc, List.append_assoc, Json.consume_append _ hbefore, List.cons_append,
      consume, hstep]

theorem consume_items_refused (blocks : Script) {i : Nat} (h : Written (.items vs) t)
    (hphase : Awaits phase) (hdepth : itemsDepth vs ≤ blockDepth) (hi : vs[i]? = some v)
    (hv : v.Doubled) (hbefore : ∀ u ∈ vs.take i, ¬ u.Doubled) :
    ∃ beyond, consume step ⟨blocks, phase⟩ (t ++ [']'])
      = .refused ⟨.bodyTwice, [.index (blocks.length + i)], beyond⟩ := by
  induction vs generalizing blocks t phase i with
  | nil => cases hi
  | cons u rest ih =>
    rw [itemsDepth] at hdepth
    cases i with
    | zero =>
      cases hi
      have hnone := Command.ofValue?_eq_none_iff.mpr hv
      cases h with
      | lastItem hitem =>
        rw [consume_item blocks hphase hitem (by omega) (by decide), accept, hnone]
        exact ⟨1, rfl⟩
      | @moreItems _ _ t t' hitem hne hitems =>
        have hfirst := consume_item blocks hphase hitem (by omega) (show Json.Closes ',' by decide)
        rw [accept, hnone] at hfirst
        have hcomma : afterAccepted ⟨blocks, .refused false⟩ ','
            = .more ⟨blocks, .refused true⟩ := rfl
        have hsplit : t ++ ',' :: t' ++ [']'] = t ++ [','] ++ (t' ++ [']']) := by simp
        obtain ⟨beyond, hrest⟩ := consume_refused blocks hitems hne
        rw [hsplit, Json.consume_append _ (hfirst.trans hcomma)]
        exact ⟨beyond, Json.consume_append_refused _ hrest⟩
    | succ i =>
      rw [List.take_succ_cons, List.forall_mem_cons] at hbefore
      rw [List.getElem?_cons_succ] at hi
      cases hu : Command.ofValue? u with
      | none => exact absurd (Command.ofValue?_eq_none_iff.mp hu) hbefore.1
      | some b =>
        cases h with
        | lastItem _ => cases hi
        | @moreItems _ _ t t' hitem hne hitems =>
          have hfirst := consume_item blocks hphase hitem (by omega)
            (show Json.Closes ',' by decide)
          rw [accept, hu] at hfirst
          have hcomma : afterAccepted ⟨b :: blocks, .blockEnd⟩ ','
              = .more ⟨b :: blocks, .nextBlock⟩ := rfl
          have hsplit : t ++ ',' :: t' ++ [']'] = t ++ [','] ++ (t' ++ [']']) := by simp
          obtain ⟨beyond, hrest⟩ := ih (b :: blocks) hitems (.inr rfl) (by omega) hi hbefore.2
          rw [hsplit, Json.consume_append _ (hfirst.trans hcomma), hrest, List.length_cons,
            Nat.add_assoc, Nat.add_comm 1 i]
          exact ⟨beyond, rfl⟩

end ScriptReading

/-! ## Scripts -/

namespace Script

variable [Json.Rounding] {items : List Value} {w t : List Char}

theorem consume_bracket (hw : Blanks w) :
    consume ScriptReading.step .start (w ++ ['[']) = .more ⟨[], .firstBlock⟩ := by
  have hblanks : consume ScriptReading.step .start w = .more .start :=
    Json.consume_blanks (fun b hb => by simp [ScriptReading.start, ScriptReading.step, hb]) hw
  rw [Json.consume_append _ hblanks, Json.consume_singleton]
  rfl

omit [Json.Rounding] in
theorem toList_bracketed (w t more : List Char) :
    (String.ofList (w ++ '[' :: (t ++ [']']) ++ more)).toList
      = w ++ ['['] ++ (t ++ [']']) ++ more := by
  rw [String.toList_ofList]
  simp

theorem parse_items {s : Script} (hw : Blanks w) (h : Written (.items items) t)
    (hdepth : itemsDepth items ≤ ScriptReading.blockDepth)
    (hs : Command.blocks? items = some s) (more : List Char) :
    Script.parse (String.ofList (w ++ '[' :: (t ++ [']']) ++ more)) = .ok s := by
  have hread := ScriptReading.consume_items [] h (.inl rfl) hdepth hs
  rw [← Json.consume_append _ (consume_bracket hw)] at hread
  rw [Script.parse, toList_bracketed, ScriptReading.feed_append hread]
  rfl

theorem parse_items_refused {i : Nat} {v : Value} (hw : Blanks w) (h : Written (.items items) t)
    (hdepth : itemsDepth items ≤ ScriptReading.blockDepth) (hi : items[i]? = some v)
    (hv : v.Doubled) (hbefore : ∀ u ∈ items.take i, ¬ u.Doubled) (more : List Char) :
    ∃ position, Script.parse (String.ofList (w ++ '[' :: (t ++ [']']) ++ more))
      = .error (.malformed .bodyTwice [.index i] position) := by
  obtain ⟨beyond, hread⟩ :=
    ScriptReading.consume_items_refused [] h (.inl rfl) hdepth hi hv hbefore
  rw [← Json.consume_append _ (consume_bracket hw)] at hread
  obtain ⟨n, hfeed⟩ := ScriptReading.feed_of_refused (Json.consume_append_refused more hread) 0
  rw [Script.parse, toList_bracketed, hfeed, List.length_nil, Nat.zero_add]
  exact ⟨_, rfl⟩

end Script

section

variable [Json.Rounding]

/-- **Leniency.** A text that starts with a JSON array of at most 127 nested containers is a script
with one block for each item, whatever the items are, and so is the body of every loop in it. Two
bodies in one loop are the exception: among the items the first such loop makes the text an error,
and among the items of a body it leaves this body empty. The numbers of the text are any that the
reader takes, and what follows the array is not looked at. -/
theorem Script.parse_lenient {items : List Value} {w t : List Char} (hw : Blanks w)
    (h : Written (.value (.array items)) t)
    (hdepth : (Value.array items).depth ≤ Json.depthLimit) (more : List Char) :
    ((∀ v ∈ items, ¬ v.Doubled) →
      ∃ s, Script.parse (String.ofList (w ++ t ++ more)) = .ok s ∧ s.length = items.length ∧
        Kept items s) ∧
    ∀ i v, items[i]? = some v → v.Doubled → (∀ u ∈ items.take i, ¬ u.Doubled) →
      ∃ position, Script.parse (String.ofList (w ++ t ++ more))
        = .error (.malformed .bodyTwice [.index i] position) := by
  have hblocks : itemsDepth items ≤ ScriptReading.blockDepth := by
    have hlimit : Json.depthLimit = ScriptReading.blockDepth + 1 := rfl
    rw [Value.depth] at hdepth
    omega
  cases h with
  | array hitems =>
    refine ⟨fun honce => ?_, fun i v hi hv hbefore => ?_⟩
    · cases hs : Command.blocks? items with
      | none =>
        obtain ⟨v, hv, hdoubled⟩ := Command.blocks?_eq_none_iff.mp hs
        exact absurd hdoubled (honce v hv)
      | some s =>
        have hkept := Command.kept_of_blocks? hs
        exact ⟨s, Script.parse_items hw hitems hblocks hs more, hkept.length_eq, hkept⟩
    · exact Script.parse_items_refused hw hitems hblocks hi hv hbefore more

theorem written_loop {items : List Value} {t : List Char} (h : Written (.items items) t) :
    Written (.value (.object [("type", .text "repeat"), ("commands", .array items)]))
      ("\x7b\"type\":\"repeat\",\"commands\":[".toList ++ t ++ "]\x7d".toList) := by
  have htype : Written (.member "type" (.text "repeat")) "\"type\":\"repeat\"".toList :=
    .named (by rfl) (.quoted (by rfl))
  have hbody : Written (.member "commands" (.array items))
      ("\"commands\":[".toList ++ (t ++ [']'])) := .named (by rfl) (.array h)
  have hobject := Written.object (.moreMembers htype (by simp) (.lastMember hbody))
  simpa using hobject

/-- A loop with two bodies, both of them empty. -/
def doubledLoop : Value :=
  .object [("type", .text "repeat"), ("commands", .array []), ("body", .array [])]

theorem written_doubledLoop : Written (.value (.array [doubledLoop]))
    "[\x7b\"type\":\"repeat\",\"commands\":[],\"body\":[]\x7d]".toList := by
  have hempty : Written (.value (.array [])) ['[', ']'] := .array (.noItems Json.blanks_nil)
  have htype : Written (.member "type" (.text "repeat")) "\"type\":\"repeat\"".toList :=
    .named (by rfl) (.quoted (by rfl))
  have hcommands : Written (.member "commands" (.array [])) "\"commands\":[]".toList :=
    .named (by rfl) hempty
  have hbody : Written (.member "body" (.array [])) "\"body\":[]".toList :=
    .named (by rfl) hempty
  have hobject := Written.object
    (.moreMembers htype (by simp) (.moreMembers hcommands (by simp) (.lastMember hbody)))
  exact .array (.lastItem hobject.bare)

end

theorem doubled_doubledLoop : doubledLoop.Doubled := ⟨rfl, rfl, rfl⟩

open scoped Json.FastRounding

/-- Both halves at fixed texts: a loop with a body that holds no block, and a loop with two. -/
theorem Script.parse_lenient_samples :
    (∃ s, Script.parse "[\x7b\"type\":\"repeat\",\"commands\":[null]\x7d] and so on" = .ok s ∧
      s.length = 1) ∧
    ∃ position, Script.parse "[\x7b\"type\":\"repeat\",\"commands\":[],\"body\":[]\x7d]"
      = .error (.malformed .bodyTwice [.index 0] position) := by
  have hloop := written_loop (.lastItem Written.wordNull.bare)
  have harray := Written.array (.lastItem hloop.bare)
  obtain ⟨hkept, -⟩ := Script.parse_lenient Json.blanks_nil harray (by decide) " and so on".toList
  obtain ⟨-, hdoubled⟩ := Script.parse_lenient Json.blanks_nil written_doubledLoop (by decide) []
  refine ⟨?_, ?_⟩
  · obtain ⟨s, hparse, hlength, -⟩ := hkept (by simp [Json.Value.Doubled, member?])
    exact ⟨s, hparse, hlength⟩
  · obtain ⟨position, hparse⟩ :=
      hdoubled 0 doubledLoop rfl doubled_doubledLoop (fun _ h => absurd h List.not_mem_nil)
    exact ⟨position, hparse⟩

/-- Not every JSON array is a script: here the only item is a loop with two bodies. -/
theorem Script.parse_doubledLoop :
    Written (.value (.array [doubledLoop]))
      "[\x7b\"type\":\"repeat\",\"commands\":[],\"body\":[]\x7d]".toList ∧
    (Value.array [doubledLoop]).depth ≤ Json.depthLimit ∧
    ¬ ∃ s, Script.parse "[\x7b\"type\":\"repeat\",\"commands\":[],\"body\":[]\x7d]" = .ok s ∧
      s.length = [doubledLoop].length := by
  refine ⟨written_doubledLoop, by decide, ?_⟩
  rintro ⟨s, hs, -⟩
  have hrefused : (Script.parse
      "[\x7b\"type\":\"repeat\",\"commands\":[],\"body\":[]\x7d]").toBool = false := by
    decide +kernel
  rw [hs] at hrefused
  cases hrefused

end StagePlay
