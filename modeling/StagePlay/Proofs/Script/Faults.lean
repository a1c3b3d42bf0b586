import StagePlay.Proofs.Script.Block
import StagePlay.Proofs.Script.Truncated

/-!
# StagePlay.Proofs.Script.Faults

Where in a script a fault is.

`ScriptReading.Stands` tells what has been read when the reader is in some state: how far the text
is a script with the blocks that are taken, and where the block starts that is being read. A step
keeps it, or refuses a character that is at fault there.

* `ScriptReading.goes_took`: what one character does.
* `ScriptReading.located_of_feed`: each fault is in the place that its path names.
* `Script.fault_located`: the index in a path is the number of blocks before the fault, and a fault
  without a path is in no block.
-/

namespace StagePlay

open Json (Blanks Cause Closes Fault Position Segment Step byteLength consume)

theorem Json.byteLength_append (as bs : List Char) :
    byteLength (as ++ bs) = byteLength as + byteLength bs := by
  induction as with
  | nil => simp [byteLength]
  | cons a as ih => rw [List.cons_append, byteLength, byteLength, ih, Nat.add_assoc]

/-! ## Values that are no containers -/

namespace Json.Reading

variable {limit : Nat} {r : Reading} {c : Char}

/-- A value without containers is being read. -/
def Bare (r : Reading) : Prop :=
  r.stack = [] ∧
    match r.expects with
    | .word _ _ _ | .number _ | .text _ => True
    | _ => False

/-- What a step does where no containers are open. -/
def StaysBare : Step Cause Reading Value → Prop
  | .more r => r.Bare
  | .refused f => f.path = []
  | .ended _ | .before _ => True

theorem staysBare_startValue (h : c ≠ '[') (h' : c ≠ '{') :
    StaysBare (startValue limit [] c) := by
  unfold startValue
  split
  case h_5 => exact absurd rfl h
  case h_6 => exact absurd rfl h'
  case h_7 =>
    split
    · exact ⟨rfl, trivial⟩
    · rfl
  all_goals exact ⟨rfl, trivial⟩

variable [Rounding]

theorem staysBare_step (h : r.Bare) (c : Char) : StaysBare (r.step limit c) := by
  obtain ⟨stack, e⟩ := r
  obtain ⟨rfl, he⟩ := h
  cases e with
  | word letter rest v =>
    simp only [step]
    split
    · cases rest with
      | nil => trivial
      | cons d ds => exact ⟨rfl, trivial⟩
    · rfl
  | number n =>
    simp only [step, deliver]
    split
    · exact ⟨rfl, trivial⟩
    · trivial
    · trivial
    · rfl
  | text t =>
    simp only [step, deliver]
    split
    · exact ⟨rfl, trivial⟩
    · trivial
    · trivial
    · rfl
  | value | firstItem | nextItem | itemEnd | firstKey | nextKey | colon | memberEnd | key _ =>
    exact he.elim

theorem path_of_finish_bare {f : Fault Cause} (h : r.Bare) (hf : r.finish = .error f) :
    f.path = [] := by
  obtain ⟨stack, e⟩ := r
  obtain ⟨rfl, he⟩ := h
  cases e with
  | word letter rest v | text t =>
    cases hf
    rfl
  | number n =>
    simp only [finish] at hf
    split at hf
    · cases hf
      rfl
    · cases hf
  | value | firstItem | nextItem | itemEnd | firstKey | nextKey | colon | memberEnd | key _ =>
    exact he.elim

end Json.Reading

/-! ## Faults -/

open ScriptReading (blockDepth step start)

/-- Nothing but blanks, commas and closing brackets. -/
def Separators (cs : List Char) : Prop := ∀ c ∈ cs, Json.isBlank c = true ∨ c = ',' ∨ c = ']'

theorem Separators.snoc {cs : List Char} {c : Char} (h : Separators cs)
    (hc : Json.isBlank c = true ∨ c = ',' ∨ c = ']') : Separators (cs ++ [c]) :=
  List.forall_mem_append.mpr ⟨h, List.forall_mem_singleton.mpr hc⟩

theorem Json.Blanks.snoc {w : List Char} {c : Char} (h : Blanks w) (hc : isBlank c = true) :
    Blanks (w ++ [c]) := List.forall_mem_append.mpr ⟨h, List.forall_mem_singleton.mpr hc⟩

/-- What can be wrong between blocks: behind complete blocks there is a separator, if it is not
    missing, and then a text that no block starts. -/
inductive GapFault : List Char → List Char → Cause → Nat → Prop where
  | listCutShort : GapFault [] [] .listCutShort 0
  | itemEndExpected {c : Char} {rest : List Char} : Json.isBlank c = false → c ≠ ',' → c ≠ ']' →
      GapFault [] (c :: rest) .itemEndExpected 1
  | valueCutShort {w : List Char} : Blanks w → GapFault (',' :: w) [] .valueCutShort 0
  | trailingComma {w rest : List Char} : Blanks w →
      GapFault (',' :: w) (']' :: rest) .trailingComma 1

/-- A block is written from here on. -/
def StartsBlock (cs : List Char) : Prop :=
  ∃ c rest, cs = c :: rest ∧ Json.isBlank c = false ∧ c ≠ ']'

theorem StartsBlock.append {cs : List Char} (h : StartsBlock cs) (rest : List Char) :
    StartsBlock (cs ++ rest) := by
  obtain ⟨d, more, rfl, hblank, hbracket⟩ := h
  exact ⟨d, more ++ rest, rfl, hblank, hbracket⟩

/-- The text holds no array, as far as its first character tells. -/
def NoArray (cs : List Char) : Prop := (cs.dropWhile Json.isBlank).head? ≠ some '['

theorem noArray_append {w rest : List Char} {c : Char} (hw : Blanks w)
    (hblank : Json.isBlank c = false) (hc : c ≠ '[') : NoArray (w ++ c :: rest) := by
  simp [NoArray, List.dropWhile_append_of_pos hw, hblank, hc]

theorem noArray_blanks {w : List Char} (hw : Blanks w) : NoArray w := by
  simp [NoArray, List.dropWhile_eq_nil_iff.mpr hw]

section

variable [Json.Rounding]

/-- What can be wrong with a text that a block is read from: the cause, its path inside the block,
    and the number of bytes of the text before the place where it is reported. -/
inductive BlockFault : List Char → ScriptCause → List Segment → Nat → Prop where
  /-- A character is refused. -/
  | refused {read rest : List Char} {inner : Json.Reading} {c : Char} {f : Fault Cause} :
      consume (Json.Reading.step blockDepth) .start read = .more inner →
      inner.step blockDepth c = .refused f →
      BlockFault (read ++ c :: rest) (.json f.cause) f.path (byteLength read + f.beyond)
  /-- The text ends inside the block. -/
  | cutShort {read : List Char} {inner : Json.Reading} {f : Fault Cause} :
      consume (Json.Reading.step blockDepth) .start read = .more inner →
      inner.finish = .error f →
      BlockFault read (.json f.cause) f.path (byteLength read)
  /-- The block is a loop with two bodies, which is reported after the separator behind it. -/
  | doubled {read after rest : List Char} {v : Json.Value} :
      consume (Json.Reading.step blockDepth) .start read = .ended v → v.Doubled →
      Separators after →
      BlockFault (read ++ (after ++ rest)) .bodyTwice [] (byteLength (read ++ after))

namespace ScriptReading

variable {t pre sep b : List Char} {blocks : Script} {phase : ScriptPhase} {c : Char}

/-- A script is read up to its next block: it could end before the separator with the blocks that
    are taken. -/
structure Opens (pre sep : List Char) (blocks : Script) (phase : ScriptPhase) : Prop where
  closed : consume step start (pre ++ [']']) = .ended blocks.reverse
  opened : consume step start (pre ++ sep) = .more ⟨blocks, phase⟩
  phase : (phase = .firstBlock ∧ blocks = [] ∧ sep = []) ∨
    (phase = .nextBlock ∧ ∃ w, sep = ',' :: w ∧ Blanks w)

/-- What the reader has read when it stands in this state. -/
inductive Stands : List Char → ScriptReading → Prop where
  | opening {w : List Char} : Blanks w → Stands w ⟨[], .opening⟩
  | other {w rest : List Char} {c : Char} {inner : Json.Reading} : Blanks w →
      Json.isBlank c = false → c ≠ '[' → inner.Bare → Stands (w ++ c :: rest) ⟨[], .other inner⟩
  | firstBlock {pre sep : List Char} {blocks : Script} :
      Opens pre sep blocks .firstBlock → Stands (pre ++ sep) ⟨blocks, .firstBlock⟩
  | nextBlock {pre sep : List Char} {blocks : Script} :
      Opens pre sep blocks .nextBlock → Stands (pre ++ sep) ⟨blocks, .nextBlock⟩
  | blockEnd {t : List Char} {blocks : Script} : Stands t ⟨blocks, .blockEnd⟩
  | block {pre sep b : List Char} {blocks : Script} {phase : ScriptPhase} {inner : Json.Reading} :
      Opens pre sep blocks phase → StartsBlock b →
      consume (Json.Reading.step blockDepth) .start b = .more inner →
      Stands (pre ++ sep ++ b) ⟨blocks, .block inner⟩
  | refused {pre sep b after : List Char} {blocks : Script} {phase : ScriptPhase} {v : Json.Value}
      {separated : Bool} : Opens pre sep blocks phase → StartsBlock b →
      consume (Json.Reading.step blockDepth) .start b = .ended v → v.Doubled →
      Separators after →
      Stands (pre ++ sep ++ (b ++ after)) ⟨blocks, .refused separated⟩

/-- The place of a fault in a text: its cause and path, and the number of bytes before it. -/
inductive Located : List Char → ScriptCause → List Segment → Nat → Prop where
  | root {cs : List Char} {cause : ScriptCause} {n : Nat} : NoArray cs → Located cs cause [] n
  | gap {pre sep more : List Char} {s : Script} {cause : Cause} {n : Nat} :
      consume step start (pre ++ [']']) = .ended s → GapFault sep more cause n →
      Located (pre ++ sep ++ more) (.json cause) [] (byteLength (pre ++ sep) + n)
  | block {pre sep b : List Char} {blocks : Script} {phase : ScriptPhase} {cause : ScriptCause}
      {path : List Segment} {n : Nat} : Opens pre sep blocks phase → StartsBlock b →
      BlockFault b cause path n →
      Located (pre ++ sep ++ b) cause (.index blocks.length :: path) (byteLength (pre ++ sep) + n)

/-- What a character does behind a text that has been read. -/
def Goes (t : List Char) (c : Char) : Step ScriptCause ScriptReading Script → Prop
  | .more r => Stands (t ++ [c]) r
  | .refused f => ∀ rest, Located (t ++ c :: rest) f.cause f.path (byteLength t + f.beyond)
  | .ended _ | .before _ => True

/-! ## One character -/

/-- The text makes up complete blocks, were it to end here. The reader may still be inside a number,
    which only the next character ends. -/
def Ends (t : List Char) (blocks : Script) : Prop :=
  ∀ d, Closes d → consume step start (t ++ [d]) = afterBlock ⟨blocks, .blockEnd⟩ d

theorem ends_of_read (h : consume step start t = .more ⟨blocks, .blockEnd⟩) : Ends t blocks := by
  intro d _
  rw [Json.consume_append _ h, Json.consume_singleton]
  rfl

theorem ends_of_number {r : Json.NumberReading} {n : Json.Number}
    (h : consume step start t = .more ⟨blocks, .block ⟨[], .number r⟩⟩) (hn : r.finish = .ok n) :
    Ends t (.unknown :: blocks) := by
  intro d hd
  rw [Json.consume_append _ h, Json.consume_singleton]
  exact step_number blocks (Json.NumberReading.before_of_finish hn hd)

theorem Ends.closed (h : Ends t blocks) :
    consume step start (t ++ [']']) = .ended blocks.reverse := h _ (by decide)

theorem Ends.opens (h : Ends t blocks) : Opens t [','] blocks .nextBlock :=
  ⟨h.closed, h _ (by decide), .inr ⟨rfl, [], rfl, Json.blanks_nil⟩⟩

theorem Opens.awaits (h : Opens pre sep blocks phase) : Awaits phase :=
  h.phase.imp And.left And.left

/-- Blanks before a block belong to what stands before it. -/
theorem Opens.blank (h : Opens pre sep blocks phase) (hc : Json.isBlank c = true) :
    ∃ pre' sep', pre ++ sep ++ [c] = pre' ++ sep' ∧ Opens pre' sep' blocks phase := by
  have hopened : consume step start (pre ++ sep ++ [c]) = .more ⟨blocks, phase⟩ := by
    rw [Json.consume_append _ h.opened, Json.consume_singleton]
    rcases h.awaits with rfl | rfl <;> simp [step, hc]
  rcases h.phase with ⟨rfl, rfl, rfl⟩ | ⟨rfl, w, rfl, hw⟩
  · rw [List.append_nil] at hopened
    refine ⟨pre ++ [c], [], by simp, ?_, by rwa [List.append_nil], .inl ⟨rfl, rfl, rfl⟩⟩
    rw [Json.consume_append _ hopened, Json.consume_singleton]
    simp [step, Json.isBlank]
  · exact ⟨pre, ',' :: (w ++ [c]), by simp, h.closed, by simpa using hopened,
      .inr ⟨rfl, _, rfl, hw.snoc hc⟩⟩

/-- What follows complete blocks. -/
theorem goes_ends {s : Step ScriptCause ScriptReading Script} (hends : Ends t blocks)
    (h : Took blocks .blockEnd c s) : Goes t c s := by
  cases h with
  | blank _ _ => exact .blockEnd
  | ended _ => trivial
  | comma => exact .nextBlock hends.opens
  | noComma hblank hcomma hbracket =>
    intro rest
    have hgap := Located.gap hends.closed
      (@GapFault.itemEndExpected c rest hblank hcomma hbracket)
    rwa [List.append_nil] at hgap
  | inside hreads _ | fault hreads _ | block hreads _ _ | doubled hreads _ _ =>
    rcases hreads with ⟨h | h, _, _⟩ <;> cases h
  | other hreads _ | otherEnd _ _ hreads | otherFault hreads _ => cases hreads

/-- Where a block is being read, so far it stands behind its separator. -/
theorem Stands.reads {inner : Json.Reading} (h : Stands t ⟨blocks, phase⟩)
    (hreads : phase.Reads inner c) :
    ∃ pre sep b phase', t = pre ++ sep ++ b ∧ Opens pre sep blocks phase' ∧
      (b = [] ∧ Json.isBlank c = false ∧ c ≠ ']' ∨ StartsBlock b) ∧
      consume (Json.Reading.step blockDepth) .start b = .more inner := by
  cases hreads with
  | first hphase hblank hbracket =>
    have hopened : ∃ pre sep phase', t = pre ++ sep ∧ Opens pre sep blocks phase' := by
      rcases hphase with rfl | rfl
      · cases h with | firstBlock hopens => exact ⟨_, _, _, rfl, hopens⟩
      · cases h with | nextBlock hopens => exact ⟨_, _, _, rfl, hopens⟩
    obtain ⟨pre, sep, phase', rfl, hopens⟩ := hopened
    exact ⟨pre, sep, [], phase', by rw [List.append_nil], hopens, .inl ⟨rfl, hblank, hbracket⟩, rfl⟩
  | more =>
    cases h with
    | block hopens hstarts hread => exact ⟨_, _, _, _, rfl, hopens, .inr hstarts, hread⟩

omit [Json.Rounding] in
theorem startsBlock_append (h : b = [] ∧ Json.isBlank c = false ∧ c ≠ ']' ∨ StartsBlock b)
    (rest : List Char) : StartsBlock (b ++ c :: rest) := by
  rcases h with ⟨rfl, hblank, hbracket⟩ | hstarts
  · exact ⟨c, rest, rfl, hblank, hbracket⟩
  · exact hstarts.append _

/-- What is read of a value that is no array. -/
theorem Stands.readsOther {inner : Json.Reading} (h : Stands t ⟨blocks, phase⟩)
    (hreads : phase.ReadsOther inner c) (limit : Nat) :
    blocks = [] ∧ Json.Reading.StaysBare (inner.step limit c) ∧
      ∃ w d rest, t ++ [c] = w ++ d :: rest ∧ Blanks w ∧ Json.isBlank d = false ∧ d ≠ '[' := by
  cases hreads with
  | first hblank hbracket hbrace =>
    cases h with
    | opening hw =>
      refine ⟨rfl, ?_, t, c, [], rfl, hw, hblank, hbracket⟩
      simp only [Json.Reading.step, Json.Reading.start, hblank]
      exact Json.Reading.staysBare_startValue hbracket hbrace
  | more =>
    cases h with
    | @other w rest d _ hw hblank hbracket hbare =>
      exact ⟨rfl, Json.Reading.staysBare_step hbare c, w, d, rest ++ [c], by simp, hw, hblank,
        hbracket⟩

theorem located_other {inner : Json.Reading} (h : Stands t ⟨blocks, phase⟩)
    (hreads : phase.ReadsOther inner c) (rest : List Char) (cause : ScriptCause) (n : Nat) :
    Located (t ++ c :: rest) cause [] n := by
  obtain ⟨-, -, w, d, more, heq, hw, hblank, hbracket⟩ := h.readsOther hreads 0
  have hsplit : t ++ c :: rest = w ++ d :: (more ++ rest) := by
    rw [← List.singleton_append, ← List.append_assoc, heq, List.append_assoc, List.cons_append]
  rw [hsplit]
  exact .root (noArray_append hw hblank hbracket)

theorem located_doubled {after : List Char} {v : Json.Value} {beyond : Nat}
    (hopens : Opens pre sep blocks phase) (hstarts : StartsBlock b)
    (hv : consume (Json.Reading.step blockDepth) .start b = .ended v) (hdoubled : v.Doubled)
    (hafter : Separators after) (hbeyond : beyond = 0 ∨ beyond = 1 ∧ c = ']')
    (rest : List Char) :
    Located (pre ++ sep ++ (b ++ after) ++ c :: rest) .bodyTwice [.index blocks.length]
      (byteLength (pre ++ sep ++ (b ++ after)) + beyond) := by
  rcases hbeyond with rfl | ⟨rfl, rfl⟩
  · have hfault := @BlockFault.doubled _ b after (c :: rest) v hv hdoubled hafter
    have hlocated := Located.block hopens (hstarts.append _) hfault
    rw [Json.byteLength_append (pre ++ sep), Nat.add_zero]
    simpa only [List.append_assoc] using hlocated
  · have hafter' : Separators (after ++ [']']) := hafter.snoc (.inr (.inr rfl))
    have hfault := @BlockFault.doubled _ b (after ++ [']']) rest v hv hdoubled hafter'
    have hlocated := Located.block hopens (hstarts.append _) hfault
    have hlength : byteLength [']'] = 1 := rfl
    simp only [Json.byteLength_append, List.append_assoc, List.cons_append, List.nil_append,
      Nat.add_assoc, hlength] at hlocated ⊢
    exact hlocated

/-- A character takes the reader on to where it then stands, or is at fault there. -/
theorem goes_took {s : Step ScriptCause ScriptReading Script}
    (hread : consume step start t = .more ⟨blocks, phase⟩) (hstands : Stands t ⟨blocks, phase⟩)
    (h : Took blocks phase c s) : Goes t c s := by
  cases h with
  | blank hbetween hc =>
    cases hstands with
    | opening hw => exact .opening (hw.snoc hc)
    | firstBlock hopens =>
      obtain ⟨pre, sep, heq, hopens'⟩ := hopens.blank hc
      rw [Goes, heq]
      exact .firstBlock hopens'
    | nextBlock hopens =>
      obtain ⟨pre, sep, heq, hopens'⟩ := hopens.blank hc
      rw [Goes, heq]
      exact .nextBlock hopens'
    | blockEnd => exact .blockEnd
    | refused hopens hstarts hv hdoubled hafter =>
      rw [Goes, List.append_assoc, List.append_assoc _ _ [c]]
      exact .refused hopens hstarts hv hdoubled (hafter.snoc (.inl hc))
    | other _ _ _ _ | block _ _ _ => exact hbetween.elim
  | opened =>
    cases hstands with
    | opening hw =>
      have hopened := Script.consume_bracket hw
      rw [Goes, ← List.append_nil (_ ++ ['['])]
      refine .firstBlock ⟨?_, by rwa [List.append_nil], .inl ⟨rfl, rfl, rfl⟩⟩
      rw [Json.consume_append _ hopened, Json.consume_singleton]
      rfl
  | map =>
    cases hstands with
    | opening hw => exact fun rest => .root (noArray_append hw (by decide) (by decide))
  | other hreads hs =>
    obtain ⟨rfl, hbare, w, d, rest, heq, hw, hblank, hbracket⟩ :=
      hstands.readsOther hreads Json.depthLimit
    rw [hs] at hbare
    rw [Goes, heq]
    exact .other hw hblank hbracket hbare
  | otherEnd v beyond hreads => exact fun rest => located_other hstands hreads rest _ _
  | otherFault hreads hs =>
    obtain ⟨-, hbare, -⟩ := hstands.readsOther hreads Json.depthLimit
    rw [hs] at hbare
    intro rest
    rw [show Fault.path _ = [] from hbare]
    exact located_other hstands hreads rest _ _
  | ended _ => trivial
  | trailingComma =>
    cases hstands with
    | nextBlock hopens =>
      obtain ⟨h, -⟩ | ⟨-, w, rfl, hw⟩ := hopens.phase
      · cases h
      · exact fun rest => .gap hopens.closed (.trailingComma hw)
  | comma => exact goes_ends (ends_of_read hread) .comma
  | noComma hblank hcomma hbracket =>
    exact goes_ends (ends_of_read hread) (.noComma hblank hcomma hbracket)
  | inside hreads hs =>
    obtain ⟨pre, sep, b, phase', rfl, hopens, hstarts, hb⟩ := hstands.reads hreads
    rw [Goes, List.append_assoc]
    refine .block hopens (startsBlock_append hstarts []) ?_
    rw [Json.consume_append _ hb, Json.consume_singleton, hs]
  | fault hreads hs =>
    obtain ⟨pre, sep, b, phase', rfl, hopens, hstarts, hb⟩ := hstands.reads hreads
    intro rest
    rw [List.append_assoc, Json.byteLength_append, Nat.add_assoc]
    exact .block hopens (startsBlock_append hstarts rest) (.refused hb hs)
  | block _ _ _ => exact .blockEnd
  | doubled hreads hs hv =>
    obtain ⟨pre, sep, b, phase', rfl, hopens, hstarts, hb⟩ := hstands.reads hreads
    rw [Goes, List.append_assoc, ← List.append_nil (b ++ [_])]
    refine .refused hopens (startsBlock_append hstarts []) ?_
      (Command.ofValue?_eq_none_iff.mp hv) fun _ h => nomatch h
    rw [Json.consume_append _ hb, Json.consume_singleton, hs]
  | number hn htook =>
    -- the reader never stands behind this number, but the text ends there all the same
    exact goes_ends (ends_of_number hread (Json.NumberReading.finish_of_before hn)) htook
  | separated =>
    cases hstands with
    | refused hopens hstarts hv hdoubled hafter =>
      rw [Goes, List.append_assoc, List.append_assoc _ _ [',']]
      exact .refused hopens hstarts hv hdoubled (hafter.snoc (.inr (.inl rfl)))
  | bodyTwice hbeyond =>
    cases hstands with
    | refused hopens hstarts hv hdoubled hafter =>
      exact fun rest => located_doubled hopens hstarts hv hdoubled hafter hbeyond rest

/-! ## Texts -/

/-- A text that ends here is at fault where it ends. -/
theorem located_cut {r : ScriptReading} (hread : consume step start t = .more r)
    (hstands : Stands t r) : Located t r.cut.cause r.cut.path (byteLength t) := by
  have hlist : ∀ {s : Script}, consume step start (t ++ [']']) = .ended s →
      Located t (.json .listCutShort) [] (byteLength t) := by
    intro s hclosed
    have hlocated := Located.gap hclosed .listCutShort
    simpa only [List.append_nil, Nat.add_zero] using hlocated
  cases hstands with
  | opening hw => exact .root (noArray_blanks hw)
  | @other w rest d inner hw hblank hbracket hbare =>
    have hpath : (cut ⟨[], .other inner⟩).path = [] := by
      cases hfinish : inner.finish with
      | ok v => simp only [cut, hfinish]
      | error f =>
        have hnil := Json.Reading.path_of_finish_bare hbare hfinish
        simpa only [cut, hfinish] using hnil
    rw [hpath]
    exact .root (noArray_append hw hblank hbracket)
  | firstBlock hopens =>
    obtain ⟨-, rfl, rfl⟩ | ⟨h, -⟩ := hopens.phase
    · exact hlist (by rw [List.append_nil]; exact hopens.closed)
    · cases h
  | nextBlock hopens =>
    obtain ⟨h, -⟩ | ⟨-, w, rfl, hw⟩ := hopens.phase
    · cases h
    · have hlocated := Located.gap hopens.closed (.valueCutShort hw)
      rw [List.append_nil, Nat.add_zero] at hlocated
      exact hlocated
  | blockEnd => exact hlist (ends_of_read hread).closed
  | @block pre sep b blocks _ inner hopens hstarts hb =>
    cases hfinish : inner.finish with
    | ok v =>
      obtain ⟨number, n, rfl, hn, -⟩ := Json.Reading.number_of_finish hfinish
      have hcut : cut ⟨blocks, .block ⟨[], .number number⟩⟩ = ⟨.json .listCutShort, [], 0⟩ := by
        simp only [cut, hfinish]
      rw [hcut]
      exact hlist (ends_of_number hread hn).closed
    | error f =>
      have hcut : cut ⟨blocks, .block inner⟩ = blockFault ⟨blocks, .block inner⟩ f := by
        simp only [cut, hfinish]
      rw [hcut, Json.byteLength_append]
      exact .block hopens hstarts (.cutShort hb hfinish)
  | @refused pre sep b after _ _ v _ hopens hstarts hv hdoubled hafter =>
    have hfault := @BlockFault.doubled _ b after [] v hv hdoubled hafter
    have hlocated := Located.block hopens (hstarts.append _) hfault
    rw [List.append_nil] at hlocated
    rw [Json.byteLength_append]
    exact hlocated

/-- What is read stays where the reader stands, up to the fault. -/
theorem located_of_feed {r : ScriptReading} {cs : List Char} {f : Fault ScriptCause} {n : Nat}
    (hread : consume step start t = .more r) (hstands : Stands t r)
    (h : r.feed (byteLength t) cs = .error (f, n)) : Located (t ++ cs) f.cause f.path n := by
  induction cs generalizing t r with
  | nil =>
    cases h
    rw [List.append_nil]
    exact located_cut hread hstands
  | cons c cs ih =>
    have hgoes := goes_took hread hstands (r.took_step c)
    rw [feed] at h
    cases hs : r.step c with
    | more next =>
      rw [hs] at h hgoes
      have hnext : consume step start (t ++ [c]) = .more next := by
        rw [Json.consume_append _ hread, Json.consume_singleton, hs]
      have hlocated := ih hnext hgoes (by rwa [Json.byteLength_append])
      rwa [List.append_assoc] at hlocated
    | ended s | before s =>
      rw [hs] at h
      cases h
    | refused g =>
      rw [hs] at h hgoes
      cases h
      exact hgoes cs

/-- Blocks that are taken stay. -/
def Extends (blocks : Script) : Step ScriptCause ScriptReading Script → Prop
  | .more r => blocks <:+ r.blocks
  | .ended s | .before s => blocks.reverse <+: s
  | .refused _ => True

theorem Took.extends {s : Step ScriptCause ScriptReading Script} (h : Took blocks phase c s) :
    Extends blocks s := by
  induction h with
  | blank _ _ | opened | other _ _ | comma | inside _ _ | doubled _ _ _ | separated =>
    exact List.suffix_rfl
  | ended _ => exact List.prefix_rfl
  | block _ _ _ => exact List.suffix_cons _ _
  | map | otherEnd _ _ _ | otherFault _ _ | trailingComma | noComma _ _ _ | fault _ _
  | bodyTwice _ => trivial
  | @number _ _ _ _ s _ _ ih =>
    have hcons := List.suffix_cons Command.unknown
    cases s with
    | more r => exact (hcons _).trans ih
    | ended s | before s => exact (List.reverse_prefix.mpr (hcons _)).trans ih
    | refused f => trivial

/-- A script starts with the blocks that have been taken. -/
theorem prefix_of_feed {r : ScriptReading} {cs : List Char} {offset : Nat} {s : Script}
    (h : r.feed offset cs = .ok s) : r.blocks.reverse <+: s := by
  induction cs generalizing r offset with
  | nil => cases h
  | cons c cs ih =>
    have hextends := (r.took_step c).extends
    rw [feed] at h
    cases hs : r.step c with
    | more next =>
      rw [hs] at h hextends
      exact (List.reverse_prefix.mpr hextends).trans (ih h)
    | ended s' | before s' =>
      rw [hs] at h hextends
      cases h
      exact hextends
    | refused f =>
      rw [hs] at h
      cases h

end ScriptReading

/-! ## Scripts -/

omit [Json.Rounding] in
theorem Json.pathText_index (i : Nat) (path : List Segment) :
    ∃ more, pathText (.index i :: path) = "[" ++ toString i ++ "]" ++ more := by
  have hfold : ∀ first : String, ∃ more,
      path.foldl (fun written s => written ++ pathText.write "." s) first = first ++ more := by
    induction path with
    | nil => exact fun first => ⟨"", String.append_empty.symm⟩
    | cons s path ih =>
      intro first
      obtain ⟨more, hmore⟩ := ih (first ++ pathText.write "." s)
      exact ⟨pathText.write "." s ++ more, by rw [List.foldl_cons, hmore, String.append_assoc]⟩
  exact hfold _

theorem Script.parse_of_closed {pre : List Char} {s : Script}
    (h : consume step start (pre ++ [']']) = .ended s) :
    Script.parse (.ofList pre ++ "]") = .ok s := by
  rw [Script.parse, String.toList_append, String.toList_ofList,
    show "]".toList = [']'] from rfl, ScriptReading.feed_of_ended h]

theorem ScriptReading.Opens.kept {pre sep : List Char} {blocks s : Script} {phase : ScriptPhase}
    {more : String} (h : Opens pre sep blocks phase)
    (hs : Script.parse (.ofList pre ++ .ofList sep ++ more) = .ok s) : blocks.reverse <+: s := by
  have hfeed := Script.feed_of_parse hs
  rw [String.toList_append, String.toList_append, String.toList_ofList, String.toList_ofList,
    feed_append_more h.opened] at hfeed
  exact prefix_of_feed hfeed

/-- A text with the blocks of a script, a separator, and a block that starts behind it. -/
structure Script.NextBlock (text pre sep block : String) (s : Script) : Prop where
  text : text = pre ++ sep ++ block
  closed : Script.parse (pre ++ "]") = .ok s
  /-- Every script that starts with the same text starts with these blocks. -/
  kept : ∀ more s', Script.parse (pre ++ sep ++ more) = .ok s' → s <+: s'
  separator : (s = [] ∧ sep = "") ∨ ∃ w, sep.toList = ',' :: w ∧ Blanks w
  starts : StartsBlock block.toList

/-- **The place of a fault.** A fault that is reported with a path is in the block with the index
that the path starts with, and the blocks before it are intact: up to this block the text is a
script of so many blocks, were it closed there. A fault that is reported without a path is in no
block: the text holds no array, or the fault is behind complete blocks, where no other block
starts. -/
theorem Script.fault_located {text : String} {e : ScriptError} (h : Script.parse text = .error e) :
    ∃ cause path position, e = .malformed cause path position ∧
      (path ≠ [] → ∃ (pre sep block : String) (s : Script) (within : List Segment) (n : Nat),
        Script.NextBlock text pre sep block s ∧ path = .index s.length :: within ∧
        (∃ more, Json.pathText path = "[" ++ toString s.length ++ "]" ++ more) ∧
        BlockFault block.toList cause within n ∧
        position = Position.of text.toList (byteLength (pre ++ sep).toList + n)) ∧
      (path = [] → NoArray text.toList ∨
        ∃ (pre sep more : String) (s : Script) (gapCause : Cause) (n : Nat),
          text = pre ++ sep ++ more ∧ Script.parse (pre ++ "]") = .ok s ∧
          cause = .json gapCause ∧ GapFault sep.toList more.toList gapCause n ∧
          position = Position.of text.toList (byteLength (pre ++ sep).toList + n)) := by
  unfold Script.parse at h
  split at h
  · cases h
  · rename_i f n hfeed
    cases h
    have hlocated := ScriptReading.located_of_feed rfl (.opening Json.blanks_nil) hfeed
    refine ⟨f.cause, f.path, _, rfl, ?_⟩
    generalize hcs : [] ++ text.toList = cs at hlocated
    generalize f.cause = cause at hlocated
    generalize f.path = path at hlocated
    rw [List.nil_append] at hcs
    cases hlocated with
    | root hroot => exact ⟨fun hne => absurd rfl hne, fun _ => .inl (hcs ▸ hroot)⟩
    | @gap pre sep more s cause n hclosed hgap =>
      have htext : text = .ofList pre ++ .ofList sep ++ .ofList more :=
        String.toList_injective (by simp [hcs])
      refine ⟨fun hne => absurd rfl hne, fun _ => .inr ?_⟩
      exact ⟨_, _, _, s, cause, n, htext, parse_of_closed hclosed, rfl, by simpa using hgap,
        by simp⟩
    | @block pre sep b blocks _ cause path n hopens hstarts hfault =>
      have hsep : (blocks.reverse = [] ∧ String.ofList sep = "") ∨
          ∃ w, (String.ofList sep).toList = ',' :: w ∧ Blanks w := by
        rcases hopens.phase with ⟨-, rfl, rfl⟩ | ⟨-, w, rfl, hw⟩
        · exact .inl ⟨rfl, rfl⟩
        · exact .inr ⟨w, String.toList_ofList, hw⟩
      have hnext : Script.NextBlock text (.ofList pre) (.ofList sep) (.ofList b) blocks.reverse :=
        ⟨String.toList_injective (by simp [hcs]), parse_of_closed hopens.closed,
          fun _ _ => hopens.kept, hsep, by simpa using hstarts⟩
      refine ⟨fun _ => ?_, fun hnil => nomatch hnil⟩
      refine ⟨_, _, _, _, path, n, hnext, by simp, ?_, by simpa using hfault, by simp⟩
      rw [List.length_reverse]
      exact Json.pathText_index _ _

end

open scoped Json.FastRounding in
/-- The second block has a member without a value. -/
theorem Script.fault_located_second :
    Script.parse "[\x7b\"type\":\"move\"\x7d, \x7b\"type\": ]"
      = .error (.malformed (.json .valueExpected) [.index 1, .key "type"] ⟨1, 28⟩) ∧
    ∃ pre s, Script.parse (pre ++ "]") = .ok s ∧ s.length = 1 := by
  have hparse : Script.parse "[\x7b\"type\":\"move\"\x7d, \x7b\"type\": ]"
      = .error (.malformed (.json .valueExpected) [.index 1, .key "type"] ⟨1, 28⟩) := by cbv
  refine ⟨hparse, ?_⟩
  obtain ⟨cause, path, position, he, hblock, -⟩ := Script.fault_located hparse
  cases he
  obtain ⟨pre, sep, block, s, within, n, hnext, hpath, -⟩ := hblock (by simp)
  have hlength : s.length = 1 := Segment.index.inj (List.cons.inj hpath).1.symm
  exact ⟨pre, s, hnext.closed, hlength⟩

end StagePlay
