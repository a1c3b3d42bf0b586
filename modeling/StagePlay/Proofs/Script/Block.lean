import StagePlay.Proofs.Json.Nesting
import StagePlay.Proofs.Script.Leniency

/-!
# StagePlay.Proofs.Script.Block

What the text of a block means alone, it means in a script.

A block in a script is read with one container less to open than a block alone. Up to that depth
both readers take the characters of the block alike.

* `ScriptReading.consume_of_feed`: a block that is accepted alone is accepted inside a script.
* `Script.parse_listed`: texts of blocks, put together, are read as the blocks they are alone.
-/

namespace StagePlay

open Json (Blanks Closes consume nestingFrom)

/-- Texts with commas between them, and with blanks around each of them. -/
inductive Listed : List String → List Char → Prop where
  | nil {w : List Char} : Blanks w → Listed [] w
  | last {text : String} {w w' : List Char} : Blanks w → Blanks w' →
      Listed [text] (w ++ text.toList ++ w')
  | cons {text : String} {texts : List String} {w w' row : List Char} : Blanks w → Blanks w' →
      texts ≠ [] → Listed texts row → Listed (text :: texts) (w ++ text.toList ++ w' ++ ',' :: row)

section

variable [Json.Rounding]

theorem Json.NumberReading.number?_of_finish {r : NumberReading} {n : Number}
    (h : r.finish = .ok n) : r.number? = some n := by
  cases hphase : r.phase with
  | sign | point | mark | markSign => simp [finish, hphase] at h
  | zero | whole | places | exponent =>
    simp only [finish, hphase] at h
    split at h
    · rename_i m hm
      cases h
      exact hm
    · cases h

/-- A number that is complete at the end of a text is complete before what closes it. -/
theorem Json.NumberReading.before_of_finish {r : NumberReading} {n : Number} {c : Char}
    (h : r.finish = .ok n) (hc : Closes c) : r.step c = .before n := by
  have hnumber := number?_of_finish h
  cases hphase : r.phase with
  | sign | point | mark | markSign => simp [finish, hphase] at h
  | zero => exact step_end (.inl hphase) hc hnumber
  | whole => exact step_end (.inr (.inl hphase)) hc hnumber
  | places => exact step_end (.inr (.inr (.inl hphase))) hc hnumber
  | exponent => exact step_end (.inr (.inr (.inr hphase))) hc hnumber

/-- A number that is complete before some character is complete at the end of a text. -/
theorem Json.NumberReading.finish_of_before {r : NumberReading} {n : Number} {c : Char}
    (h : r.step c = .before n) : r.finish = .ok n := by
  have hconclude : ∀ {r' : NumberReading}, r'.conclude = .before n → r'.number? = some n := by
    intro r' h'
    unfold conclude at h'
    split at h'
    · cases h'
      assumption
    · cases h'
  cases hphase : r.phase with
  | sign | point | mark | markSign =>
    simp only [step, hphase, takeExponent] at h
    repeat' split at h
    all_goals cases h
  | zero | whole | places =>
    simp only [step, hphase, afterDigits] at h
    repeat' split at h
    all_goals first
      | cases h
      | simp only [finish, hphase, hconclude h]
  | exponent =>
    simp only [step, hphase, takeExponent] at h
    repeat' split at h
    all_goals first
      | cases h
      | simp only [finish, hphase, hconclude h]

/-- Only a number is complete at the end of a text that it is not complete before. -/
theorem Json.Reading.number_of_finish {r : Reading} {v : Value} (h : r.finish = .ok v) :
    ∃ number n, r = ⟨[], .number number⟩ ∧ number.finish = .ok n ∧ v = .number n := by
  obtain ⟨stack, e⟩ := r
  cases e with
  | number number =>
    simp only [finish] at h
    cases hn : number.finish with
    | error cause => rw [hn] at h; cases h
    | ok n =>
      rw [hn] at h
      cases stack with
      | nil =>
        cases h
        exact ⟨number, n, rfl, hn, rfl⟩
      | cons frame rest => cases frame <;> cases h
  | value | firstItem | nextItem | itemEnd | firstKey | nextKey | colon | memberEnd | word _ _ _
  | text _ | key _ => cases h

namespace Command

variable {r : Json.Reading} {offset : Nat} {cs : List Char} {c : Command}

omit [Json.Rounding] in
/-- A block is made of a value with nothing but blanks behind it. -/
theorem of_conclude {v : Json.Value} (h : conclude v offset cs = .ok c) :
    ofValue? v = some c ∧ Blanks cs := by
  unfold conclude at h
  split at h
  · cases h
  · rename_i c' hv
    split at h
    · rename_i hrest
      cases h
      exact ⟨hv, List.dropWhile_eq_nil_iff.mp hrest⟩
    · cases h

theorem not_doomed_of_feed (h : feed r offset cs = .ok c) : ¬ r.expects.Doomed := by
  intro hdoomed
  induction cs generalizing r offset with
  | nil =>
    obtain ⟨f, hf⟩ := Json.Reading.doomed_finish hdoomed
    rw [feed, hf] at h
    cases h
  | cons d cs ih =>
    rw [feed] at h
    rcases Json.Reading.doomed_step hdoomed d with ⟨r', hs, hr'⟩ | ⟨f, hs⟩
    · rw [hs] at h
      exact ih h hr'
    · rw [hs] at h
      cases h

end Command

namespace ScriptReading

variable {r : Json.Reading} {offset : Nat} {cs w : List Char} {c : Command} {d : Char}
  {phase : ScriptPhase}

/-- Behind a block, blanks change nothing, and what follows them decides. -/
theorem consume_blockEnd (blocks : Script) (hw : Blanks w) :
    consume step ⟨blocks, .blockEnd⟩ (w ++ [d]) = afterBlock ⟨blocks, .blockEnd⟩ d := by
  have hblanks : consume step ⟨blocks, .blockEnd⟩ w = .more ⟨blocks, .blockEnd⟩ :=
    Json.consume_blanks (fun _ hb => step_blank_between blocks hb) hw
  rw [Json.consume_append _ hblanks, Json.consume_singleton]
  rfl

omit [Json.Rounding] in
theorem accept_of_ofValue? (blocks : Script) (phase : ScriptPhase) {v : Json.Value}
    (h : Command.ofValue? v = some c) :
    (⟨blocks, phase⟩ : ScriptReading).accept v = ⟨c :: blocks, .blockEnd⟩ := by
  rw [accept, h]

/-- A block that is accepted alone is accepted inside a script if it does not nest too deep. -/
theorem consume_of_feed (blocks : Script) {p : Json.Place} {n : Nat}
    (h : Command.feed r offset cs = .ok c) (hr : r.Stands p n)
    (hroom : nestingFrom p n cs ≤ blockDepth) (hd : Closes d) :
    consume step ⟨blocks, .block r⟩ (cs ++ [d]) = afterBlock ⟨c :: blocks, .blockEnd⟩ d := by
  induction cs generalizing r offset p n with
  | nil =>
    -- the number is complete before `d`, and there is no container that would take it
    rw [Command.feed] at h
    cases hfinish : r.finish with
    | error f => rw [hfinish] at h; cases h
    | ok v =>
      rw [hfinish] at h
      obtain ⟨number, m, rfl, hm, rfl⟩ := Json.Reading.number_of_finish hfinish
      obtain ⟨hv, -⟩ := Command.of_conclude h
      cases hv
      rw [List.nil_append, Json.consume_singleton]
      exact step_number blocks (Json.NumberReading.before_of_finish hm hd)
  | cons a cs ih =>
    rw [Command.feed] at h
    have hkeeps : Json.Reading.Keeps (p.after a) (p.opened n a) (r.step Json.depthLimit a) :=
      Json.Reading.keeps_step hr a
    have hlater := Json.nestingFrom_le_cons p n a cs
    have hstep : ∀ f, r.step Json.depthLimit a ≠ .refused f := by
      intro f hf
      rw [hf] at h
      cases h
    cases hs : r.step Json.depthLimit a with
    | more r' =>
      rw [hs] at h hkeeps
      have hr' := hkeeps.resolve_left (Command.not_doomed_of_feed h)
      have hheight := Json.le_nestingFrom (p.after a) (p.opened n a) cs
      have hsame : r.step blockDepth a = .more r' := by
        rw [← hs]
        refine Json.Reading.step_of_room hstep ?_
        intro r'' hr''
        rw [hs] at hr''
        cases hr''
        rw [hr'.height]
        omega
      rw [List.cons_append, Json.consume_cons (step_more blocks hsame)]
      exact ih h hr' (by omega)
    | ended v =>
      rw [hs] at h
      obtain ⟨hv, hblanks⟩ := Command.of_conclude h
      have hsame : r.step blockDepth a = .ended v := by
        rw [← hs]
        exact Json.Reading.step_of_room hstep (by intro r' hr'; rw [hs] at hr'; cases hr')
      have htaken : step ⟨blocks, .block r⟩ a = .more ⟨c :: blocks, .blockEnd⟩ := by
        simp only [step, insideBlock, hsame, accept_of_ofValue? blocks _ hv]
      rw [List.cons_append, Json.consume_cons htaken, consume_blockEnd _ hblanks]
    | before v =>
      rw [hs] at h
      obtain ⟨hv, hblanks⟩ := Command.of_conclude h
      obtain ⟨ha, hblanks⟩ := List.forall_mem_cons.mp hblanks
      have hsame : r.step blockDepth a = .before v := by
        rw [← hs]
        exact Json.Reading.step_of_room hstep (by intro r' hr'; rw [hs] at hr'; cases hr')
      have htaken : step ⟨blocks, .block r⟩ a = .more ⟨c :: blocks, .blockEnd⟩ := by
        simp only [step, insideBlock, hsame, accept_of_ofValue? blocks _ hv]
        exact step_blank_between (c :: blocks) ha
      rw [List.cons_append, Json.consume_cons htaken, consume_blockEnd _ hblanks]
    | refused f => exact absurd hs (hstep f)

/-- Where a block may start, its text is taken as it is alone. -/
theorem consume_awaits (blocks : Script) (hphase : Awaits phase)
    (h : Command.feed .start offset cs = .ok c) (more : List Char) :
    consume step ⟨blocks, phase⟩ (cs ++ more)
      = consume step ⟨blocks, .block .start⟩ (cs ++ more) := by
  induction cs generalizing offset with
  | nil => cases h
  | cons a cs ih =>
    rw [Command.feed] at h
    cases hblank : Json.isBlank a with
    | true =>
      have hstart : ∀ limit, Json.Reading.start.step limit a = .more .start :=
        fun limit => Json.Reading.step_blank limit [] hblank
      have houter : step ⟨blocks, phase⟩ a = .more ⟨blocks, phase⟩ := by
        rcases hphase with rfl | rfl <;> simp [step, hblank]
      rw [hstart] at h
      rw [List.cons_append, Json.consume_cons houter,
        Json.consume_cons (step_more blocks (hstart blockDepth))]
      exact ih h
    | false =>
      refine consume_start blocks hphase hblank ?_ _
      rintro rfl
      cases h

/-- So is a text with blanks around it, up to the separator. -/
theorem consume_listed (blocks : Script) (hphase : Awaits phase) {text : String} {w' : List Char}
    (h : Command.parse text = .ok c) (hnesting : Json.nesting text.toList ≤ blockDepth)
    (hw : Blanks w) (hw' : Blanks w') (hd : Closes d) :
    consume step ⟨blocks, phase⟩ (w ++ text.toList ++ w' ++ [d])
      = afterBlock ⟨c :: blocks, .blockEnd⟩ d := by
  have hfeed : Command.feed .start 0 text.toList = .ok c := by
    unfold Command.parse at h
    split at h
    · rename_i c' hc'
      rw [hc']
      cases h
      rfl
    · cases h
  have hbefore : consume step ⟨blocks, phase⟩ w = .more ⟨blocks, phase⟩ :=
    Json.consume_blanks (fun b hb => by rcases hphase with rfl | rfl <;> simp [step, hb]) hw
  have hread : ∀ d, Closes d → consume step ⟨blocks, .block .start⟩ (text.toList ++ [d])
      = afterBlock ⟨c :: blocks, .blockEnd⟩ d := by
    intro d hd
    exact consume_of_feed blocks hfeed Json.Reading.stands_start hnesting hd
  rw [List.append_assoc, List.append_assoc, Json.consume_append _ hbefore,
    consume_awaits blocks hphase hfeed]
  cases w' with
  | nil => exact hread d hd
  | cons b w' =>
    obtain ⟨hb, hrest⟩ := List.forall_mem_cons.mp hw'
    have hfirst := hread b (Json.closes_of_isBlank hb)
    rw [show afterBlock ⟨c :: blocks, .blockEnd⟩ b = .more ⟨c :: blocks, .blockEnd⟩ from
      step_blank_between (c :: blocks) hb] at hfirst
    have hsplit : text.toList ++ (b :: w' ++ [d]) = text.toList ++ [b] ++ (w' ++ [d]) := by simp
    rw [hsplit, Json.consume_append _ hfirst, consume_blockEnd _ hrest]

/-- Texts of blocks up to the closing bracket. -/
theorem consume_row (blocks : Script) {texts : List String} {row : List Char} {s : Script}
    (hrow : Listed texts row) (hphase : phase = .firstBlock ∨ (phase = .nextBlock ∧ texts ≠ []))
    (hs : List.Forall₂ (fun text c => Command.parse text = .ok c) texts s)
    (hnesting : ∀ text ∈ texts, Json.nesting text.toList ≤ blockDepth) :
    consume step ⟨blocks, phase⟩ (row ++ [']']) = .ended (blocks.reverse ++ s) := by
  induction hrow generalizing blocks phase s with
  | @nil w hw =>
    have hfirst : phase = .firstBlock := hphase.resolve_right fun h => h.2 rfl
    subst hfirst
    cases hs
    have hblanks : consume step ⟨blocks, .firstBlock⟩ w = .more ⟨blocks, .firstBlock⟩ :=
      Json.consume_blanks (fun b hb => by simp [step, hb]) hw
    rw [Json.consume_append _ hblanks, Json.consume_singleton]
    simp [step, Json.isBlank]
  | @last text w w' hw hw' =>
    have hawaits : Awaits phase := hphase.imp_right fun h => h.1
    cases hs with
    | cons hc hnil =>
      cases hnil
      rw [consume_listed blocks hawaits hc (hnesting text (by simp)) hw hw' (by decide)]
      simp [afterBlock, Json.isBlank]
  | @cons text texts w w' row hw hw' hne _ ih =>
    have hawaits : Awaits phase := hphase.imp_right fun h => h.1
    cases hs with
    | @cons _ c _ s hc hs =>
      have hfirst := consume_listed blocks hawaits hc (hnesting text (by simp)) hw hw'
        (show Closes ',' by decide)
      have hcomma : afterBlock ⟨c :: blocks, .blockEnd⟩ ',' = .more ⟨c :: blocks, .nextBlock⟩ := rfl
      have hsplit : w ++ text.toList ++ w' ++ ',' :: row ++ [']']
          = w ++ text.toList ++ w' ++ [','] ++ (row ++ [']']) := by simp
      rw [hsplit, Json.consume_append _ (hfirst.trans hcomma),
        ih (c :: blocks) (.inr ⟨rfl, hne⟩) hs fun t ht => hnesting t (by simp [ht])]
      simp

end ScriptReading

/-- **Blocks in a script.** Texts that are accepted as blocks, each of them alone, make up a script
of these blocks, in brackets, with commas in between and blanks around them, whatever stands behind
the closing bracket. None of them may nest more than 126 arrays and objects. -/
theorem Script.parse_listed {texts : List String} {s : Script} {before row : List Char}
    (hs : List.Forall₂ (fun text c => Command.parse text = .ok c) texts s)
    (hnesting : ∀ text ∈ texts, Json.nesting text.toList ≤ 126)
    (hbefore : Blanks before) (hrow : Listed texts row) (more : List Char) :
    Script.parse (String.ofList (before ++ '[' :: (row ++ [']']) ++ more)) = .ok s := by
  have hread := ScriptReading.consume_row [] hrow (.inl rfl) hs hnesting
  rw [← Json.consume_append _ (consume_bracket hbefore)] at hread
  rw [Script.parse, toList_bracketed, ScriptReading.feed_append hread]
  rfl

end

open scoped Json.FastRounding in
/-- A block with brackets in and out of a string, blanks, and a number that the bracket ends. -/
theorem Script.parse_listed_samples :
    Script.parse "[\t\x7b\"type\":\"hide\",\"x\":[[\"]\"]]\x7d ,7]]"
      = .ok [.appear false, .unknown] := by
  have hide : Command.parse "\x7b\"type\":\"hide\",\"x\":[[\"]\"]]\x7d" = .ok (.appear false) := by
    cbv
  have seven : Command.parse "7" = .ok .unknown := by cbv
  have tab : Blanks ['\t'] := by simp [Blanks, Json.isBlank]
  have space : Blanks [' '] := by simp [Blanks, Json.isBlank]
  have hlast := @Listed.last "7" [] [] Json.blanks_nil Json.blanks_nil
  have hrow := @Listed.cons "\x7b\"type\":\"hide\",\"x\":[[\"]\"]]\x7d" ["7"] ['\t'] [' '] _
    tab space (by simp) hlast
  have hparse := Script.parse_listed (.cons hide (.cons seven .nil)) (by decide +kernel)
    Json.blanks_nil hrow [']']
  exact hparse

end StagePlay
