import StagePlay.Proofs.Console.Change
import StagePlay.Proofs.Console.Words
import StagePlay.Proofs.Script.Leniency
import StagePlay.Proofs.Stage.Scripts

/-!
# StagePlay.Proofs.Console.Export

What the console prints of a script it can read again, up to the depth at which the reader gives
up, as long as it takes the numbers in the text for the closest doubles.

* `Session.tidy_takeAll`: whatever comes in, the blocks of a session are clean, and the selected
  actor is on the stage.
* `line_assign`: the text of a script passes a console line unharmed.
* `Session.assign_printed`: assigning a script that has just been printed changes nothing, as long
  as no block stands inside too many loops for the reader.
-/

namespace StagePlay

open scoped Json.FastRounding

open Console (Registry)
open Json (Value Written)

/-! ## The stage -/

namespace Stage

variable {s : Stage} {id : ActorId} {a : Actor}

/-- Whoever is put in their own place leaves the stage as it is. -/
theorem update_same (h : s.find? id = some a) : s.update id a = s := by
  obtain ⟨hlt, hget⟩ := List.getElem?_eq_some_iff.mp (getElem?_index h)
  rw [update, ← hget, List.set_getElem_self]

theorem assign_same {script : Script} (h : s.script? id = some script) :
    ∃ s', s.assign id script = .ok s' ∧ ∀ other, s'.script? other = s.script? other := by
  obtain ⟨a, ha, rfl⟩ := Option.map_eq_some_iff.mp h
  refine ⟨s.update id a, by simp [assign, editScript, ha, Except.map], ?_⟩
  intro other
  rw [update_same ha]

theorem contains_spawn (s : Stage) (name : Option String) :
    (s.spawn name).1.contains (s.spawn name).2 = true := by
  rw [contains_iff_mem_ids]
  simp [spawn, ids, Actor.fresh]

theorem contains_first? (h : s.first? = some id) : s.contains id = true := by
  rw [contains_iff_mem_ids, ids]
  obtain ⟨a, ha, rfl⟩ := Option.map_eq_some_iff.mp h
  exact List.mem_map.mpr ⟨a, List.mem_of_head? ha, rfl⟩

end Stage

/-! ## Sessions -/

theorem Deed.clean_of_offered {palette : Palette} {d : Deed} (h : d.Offered palette)
    (hpalette : palette.Clean) : d.Clean := by
  cases d with
  | append id c =>
    obtain ⟨slot, hslot⟩ := h
    exact Palette.forall_block hpalette hslot
  | assign id script =>
    obtain ⟨text, htext⟩ := h
    exact Script.clean_of_parse htext
  | place | removeBlock | setBlockField | spawn | remove | write | collide => trivial

namespace Session

/-- What every session keeps: clean blocks, and a selected actor that is on the stage. -/
structure Tidy (s : Session) : Prop where
  stage : s.playback.stage.Clean
  palette : s.palette.Clean
  selected : ∀ id, s.playback.selected = some id → s.playback.stage.contains id = true

variable {s s' : Session}

theorem tidy_initial (settings : Settings) : (initial settings).1.Tidy where
  stage := by
    have hempty : (Stage.empty settings.spawnPoint).Clean := fun _ h => nomatch h
    exact Stage.clean_after (d := .spawn none) hempty trivial
  palette := Palette.clean_initial
  selected := by
    rintro id ⟨⟩
    exact Stage.contains_spawn _ none

theorem tidy_edit {request : Console.Request} (hs : s.Tidy) (h : Edit s request s') :
    s'.Tidy := by
  cases h with
  | nothing => exact hs
  | addActor name =>
    refine ⟨Stage.clean_after (d := .spawn name) hs.stage trivial, hs.palette, ?_⟩
    rintro id ⟨⟩
    exact Stage.contains_spawn _ name
  | @removeActor id removed h =>
    obtain ⟨stage, hstage, rfl⟩ := Option.map_eq_some_iff.mp h
    have hafter : s.playback.stage.after (.remove id) = stage := by simp [Stage.after, hstage]
    subst hafter
    refine ⟨Stage.clean_after (d := .remove id) hs.stage trivial, hs.palette, ?_⟩
    intro other hother
    simp only [put] at hother ⊢
    split at hother
    · exact Stage.contains_first? hother
    · rename_i hne
      apply Stage.contains_after (hs.selected other hother)
      rintro ⟨⟩
      exact hne hother
  | @select _ id pb h =>
    unfold Playback.select? at h
    split at h
    · rename_i hcontains
      cases h
      refine ⟨hs.stage, hs.palette, ?_⟩
      rintro other ⟨⟩
      exact hcontains
    · cases h
  | palette h =>
    have hpalette := Palette.forall_setField Command.clean_setField hs.palette h
    exact ⟨hs.stage, hpalette, hs.selected⟩
  | deed h =>
    refine ⟨Stage.clean_after hs.stage (Deed.clean_of_offered h hs.palette), hs.palette, ?_⟩
    intro id hid
    simp only [putStage]
    rw [(Deed.alike_of_offered h _).contains]
    exact hs.selected id hid

theorem tidy_change {log : List Notice} (hs : s.Tidy) (h : Change s log s') : s'.Tidy := by
  cases h with
  | clock now room => exact ⟨hs.stage, hs.palette, hs.selected⟩
  | @poll r hr =>
    obtain ⟨⟨actor, as, hperformed⟩, hselected⟩ :=
      s.playback.poll_frame turnRoom r.play
    refine ⟨hperformed.clean hs.stage, hs.palette, ?_⟩
    intro id hid
    simp only [Polled.next] at hid ⊢
    rw [hselected] at hid
    rw [hperformed.alike.contains]
    exact hs.selected id hid
  | settle hr hended => exact ⟨hs.stage, hs.palette, hs.selected⟩
  | accept hrun hbusy hselected => exact ⟨hs.stage, hs.palette, hs.selected⟩
  | edit lines h => exact tidy_edit hs h

theorem tidy_changes {log : List Notice} (hs : s.Tidy) (h : Changes s log s') : s'.Tidy :=
  h.keeps (fun _ _ _ hs hc => tidy_change hs hc) hs

theorem tidy_takeAll (settings : Settings) (inputs : List Input) :
    ((initial settings).1.takeAll inputs).Tidy :=
  takeAll_keeps (fun _ _ _ hs h => tidy_change hs h) (tidy_initial settings) inputs

end Session

/-! ## Lines -/

theorem line_script : Registry.builtin.line "script" = .request .script := rfl

/-- A text that starts and ends with a bracket passes a console line unharmed. -/
theorem line_assign {json : String} {middle : List Char}
    (h : json.toList = '[' :: (middle ++ [']'])) :
    Registry.builtin.line ("assign " ++ json) = .request (.assign json) := by
  have hsolid : Console.Solid json.toList := by
    rw [h]
    exact Console.solid_of_ends rfl rfl middle
  have hname : Console.Nameable "assign".toList :=
    Console.nameable_of_all (by simp) rfl (by decide)
  have hblank : Console.Blanks [' '] := List.forall_mem_singleton.mpr rfl
  have hrow : Console.Spaced [json.toList] ([' '] ++ json.toList ++ []) :=
    .cons hblank (List.cons_ne_nil _ _) .nil
  have hspec : ∃ spec, Registry.builtin.lookup? "assign" = some spec ∧ spec.rawTail = true ∧
      ∀ text, spec.read [text] = .ok (.assign text) := ⟨_, rfl, rfl, fun _ => rfl⟩
  obtain ⟨spec, hlookup, hraw, hread⟩ := hspec
  have hargs := Console.arguments_raw hraw hblank hsolid
  rw [String.ofList_toList] at hargs
  have hline := Console.line_spaced (List.forall_mem_nil _) hname hrow
    (List.forall_mem_singleton.mpr hsolid) (List.forall_mem_nil _) hlookup hargs (hread json)
  have htyped : String.ofList ([] ++ ("assign".toList ++ ([' '] ++ json.toList ++ [])) ++ []) =
      "assign " ++ json := by
    rw [← String.toList_inj, String.toList_ofList, String.toList_append]
    simp
  rwa [htyped] at hline

namespace Session

variable {s : Session} {id : ActorId} {script : Script}

theorem handle_script (files : Files) (hselected : s.playback.selected = some id)
    (hscript : s.playback.stage.script? id = some script) :
    (s.handle files "script").session = s.reap.1 ∧
      (s.handle files "script").lines.getLast? = some ("json: " ++ script.toJson) := by
  have hanswer : s.reap.1.answer files .script = .ok (s.reap.1.say (scriptLines id script)) := by
    simp only [answer, chosen, playback_reap, hselected]
    simp only [bind, Except.bind, hscript]
    rfl
  simp only [handle, line_script, reply, hanswer]
  refine ⟨rfl, ?_⟩
  simp [scriptLines, say]

theorem handle_assign {stage : Stage} {json : String} {middle : List Char} (files : Files)
    (hopen : ∀ r, s.run = some r → r.play.result? = none)
    (hselected : s.playback.selected = some id) (hjson : json.toList = '[' :: (middle ++ [']']))
    (hparse : Script.parse json = .ok script)
    (hassign : s.playback.stage.assign id script = .ok stage) :
    s.handle files ("assign " ++ json) = (s.putStage stage).say
      ["assigned " ++ toString script.length ++ " blocks to actor " ++ toString id] := by
  have hanswer : s.answer files (.assign json) = .ok ((s.putStage stage).say
      ["assigned " ++ toString script.length ++ " blocks to actor " ++ toString id]) := by
    simp only [answer, hparse, assign, chosen, hselected]
    simp only [Except.mapError, bind, Except.bind, hassign]
    rfl
  simp only [handle, reap_of_open hopen, line_assign hjson, reply, hanswer]
  rfl

theorem handle_assign_deep (files : Files)
    (hopen : ∀ r, s.run = some r → r.play.result? = none)
    (hread : ∀ b ∈ script.outline, b.2.ReadsClosest) (h : ∃ b ∈ script.outline, 63 ≤ b.1) :
    ∃ path position, s.handle files ("assign " ++ script.toJson) = s.say
      ["error: " ++ (ScriptError.malformed (.json .nestedTooDeeply) path position).message] := by
  obtain ⟨path, position, hparse⟩ := Script.parse_deep hread h
  have hanswer : s.answer files (.assign script.toJson)
      = .error (.script (.malformed (.json .nestedTooDeeply) path position)) := by
    simp only [answer, hparse]
    rfl
  refine ⟨path, position, ?_⟩
  simp only [handle, reap_of_open hopen, line_assign script.toList_toJson, reply, hanswer]
  rfl

/-- The answer to a line that assigns a text, right after the selected script has been printed. -/
def assignPrinted (files : Files) (s : Session) (json : String) : Reply :=
  (s.handle files "script").session.handle files ("assign " ++ json)

/-- **Export.** Whatever a session went through, `script` prints the script of the selected actor.
If the numbers in the text are taken for the closest doubles, the text is assigned without a change
to any script, as long as at most 62 loops stand around each block. The only blocks that ever stand
inside more are unknown ones inside 63. A script with such a block is printed too, but what is
printed is refused, and nothing changes. -/
theorem assign_printed (settings : Settings) (inputs : List Input) (files : Files)
    {s : Session} (hs : s = (initial settings).1.takeAll inputs) {id : ActorId}
    (hselected : s.playback.selected = some id) :
    (∀ other t, s.playback.stage.script? other = some t →
      Script.same t t = true ∧ ∀ b ∈ t.outline, b.1 ≤ 62 ∨ (b.1 = 63 ∧ b.2 = .unknown)) ∧
    ∃ script json, s.playback.stage.script? id = some script ∧
      (s.handle files "script").lines.getLast? = some ("json: " ++ json) ∧
      ((∀ b ∈ script.outline, b.2.ReadsClosest) →
        ((∀ b ∈ script.outline, b.1 ≤ 62) →
          (s.assignPrinted files json).lines
            = ["assigned " ++ toString script.length ++ " blocks to actor " ++ toString id] ∧
          ∀ other, (s.assignPrinted files json).session.playback.stage.script? other
            = s.playback.stage.script? other) ∧
        ((∃ b ∈ script.outline, 63 ≤ b.1) →
          (∃ path position, (s.assignPrinted files json).lines = ["error: "
            ++ (ScriptError.malformed (.json .nestedTooDeeply) path position).message]) ∧
          (s.assignPrinted files json).session = (s.handle files "script").session)) := by
  have htidy : s.Tidy := hs ▸ tidy_takeAll settings inputs
  have hclean : ∀ other t, s.playback.stage.script? other = some t →
      ∀ b ∈ t.outline, CleanWithin ScriptReading.blockDepth b := by
    intro other t ht
    obtain ⟨a, ha, rfl⟩ := Option.map_eq_some_iff.mp ht
    exact Script.clean_outline (Stage.clean_of_find? htidy.stage ha)
  have hfound : (s.playback.stage.script? id).isSome = true := by
    rw [Stage.script?, Option.isSome_map]
    exact htidy.selected id hselected
  obtain ⟨script, hscript⟩ := Option.isSome_iff_exists.mp hfound
  obtain ⟨hsession, hprinted⟩ := handle_script files hselected hscript
  have hopen : ∀ r, s.reap.1.run = some r → r.play.result? = none := fun _ h => run_reap h
  refine ⟨?_, script, script.toJson, hscript, hprinted, fun hread => ⟨?_, ?_⟩⟩
  · intro other t ht
    have hblocks := hclean other t ht
    exact ⟨t.same_self fun b hb => (hblocks b hb).regular, fun b hb => (hblocks b hb).shallow⟩
  · intro hshallow
    have hparse := Script.parse_shallow hread fun b hb =>
      ⟨(hclean id script hscript b hb).regular, hshallow b hb⟩
    rw [← playback_reap s] at hselected hscript
    obtain ⟨stage, hassign, hsame⟩ := Stage.assign_same hscript
    rw [assignPrinted, hsession,
      handle_assign files hopen hselected script.toList_toJson hparse hassign, ← playback_reap s]
    exact ⟨rfl, hsame⟩
  · intro hdeep
    obtain ⟨path, position, hreply⟩ := handle_assign_deep files hopen hread hdeep
    rw [assignPrinted, hsession, hreply]
    exact ⟨⟨path, position, rfl⟩, rfl⟩

end Session

/-! ## Loops around a value that is no block -/

/-- Loops around `null`, each inside the one before it. -/
def nestedText : Nat → List Char
  | 0 => "null".toList
  | n + 1 =>
    "\x7b\"type\":\"repeat\",\"commands\":[".toList ++ nestedText n ++ "]\x7d".toList

def nestedValue : Nat → Value
  | 0 => .null
  | n + 1 => .object [("type", .text "repeat"), ("commands", .array [nestedValue n])]

def nestedBlock : Nat → Command
  | 0 => .unknown
  | n + 1 => .loop (repeatCount Default.times.toFloat) [nestedBlock n]

def nestedJson (n : Nat) : String := String.ofList ('[' :: (nestedText n ++ [']']))

theorem toList_nestedJson (n : Nat) :
    (nestedJson n).toList = '[' :: (nestedText n ++ [']']) := String.toList_ofList

theorem written_nested (n : Nat) : Written (.value (nestedValue n)) (nestedText n) := by
  induction n with
  | zero => exact .wordNull
  | succ n ih => exact written_loop (.lastItem ih.bare)

theorem depth_nested (n : Nat) : (nestedValue n).depth = 2 * n := by
  induction n with
  | zero => rfl
  | succ n ih =>
    simp only [nestedValue, Value.depth, Json.membersDepth, Json.itemsDepth, ih]
    omega

theorem ofValue?_nested (n : Nat) : Command.ofValue? (nestedValue n) = some (nestedBlock n) := by
  induction n with
  | zero => rfl
  | succ n ih =>
    simp [nestedValue, nestedBlock, Command.ofValue?, Command.assemble?, Command.bodies,
      Command.isBodyName, Command.bodyOf, Command.blocks?, Json.member?, numberField, ih]

theorem parse_nested {n : Nat} (h : n ≤ 63) :
    Script.parse (nestedJson n) = .ok [nestedBlock n] := by
  have hblocks : Command.blocks? [nestedValue n] = some [nestedBlock n] := by
    rw [Command.blocks?, ofValue?_nested]
    rfl
  have hdepth : Json.itemsDepth [nestedValue n] ≤ ScriptReading.blockDepth := by
    have hlimit : ScriptReading.blockDepth = 126 := rfl
    rw [Json.itemsDepth, depth_nested, Json.itemsDepth]
    omega
  have hitems := Written.lastItem (written_nested n).bare
  have hread := Script.parse_items Json.blanks_nil hitems hdepth hblocks []
  rwa [List.nil_append, List.append_nil] at hread

theorem outline_nested (n d : Nat) :
    (d + n, .unknown) ∈ (nestedBlock n).outlineAt d ∧
      ∀ b ∈ (nestedBlock n).outlineAt d, b.1 ≤ d + n := by
  induction n generalizing d with
  | zero => simp [nestedBlock, Command.outlineAt]
  | succ n ih =>
    obtain ⟨hmem, hle⟩ := ih (d + 1)
    rw [← Nat.add_right_comm] at hmem hle
    simp only [nestedBlock, Command.outlineAt, Script.outlineAt, List.append_nil,
      List.forall_mem_cons]
    exact ⟨List.mem_cons_of_mem _ hmem, Nat.le_add_right .., hle⟩

theorem readsClosest_nested (n d : Nat) :
    ∀ b ∈ (nestedBlock n).outlineAt d, b.2.ReadsClosest := by
  induction n generalizing d with
  | zero => simp [nestedBlock, Command.outlineAt, Command.ReadsClosest, Command.numbers]
  | succ n ih =>
    simp only [nestedBlock, Command.outlineAt, Script.outlineAt, List.append_nil,
      List.forall_mem_cons]
    exact ⟨fun _ h => (nomatch h), ih (d + 1)⟩

theorem readsClosest_outline_nested (n : Nat) :
    ∀ b ∈ Script.outline [nestedBlock n], b.2.ReadsClosest := by
  rw [Script.outline, Script.outlineAt, Script.outlineAt, List.append_nil]
  exact readsClosest_nested n 0

theorem deep_nested : (63, .unknown) ∈ Script.outline [nestedBlock 63] := by
  have hmem := (outline_nested 63 0).1
  rw [Nat.zero_add] at hmem
  exact List.mem_append_left _ hmem

namespace Session

/-- A new session that is assigned a value inside `n` loops. -/
def nested (n : Nat) : Session :=
  (initial .initial).1.takeAll [.line (Folder.read []) ("assign " ++ nestedJson n)]

theorem frame_nested {n : Nat} (h : n ≤ 63) :
    (nested n).playback.selected = some ⟨1⟩ ∧
      (nested n).playback.stage.script? ⟨1⟩ = some [nestedBlock n] := by
  have hidle : ∀ r, (initial .initial).1.run = some r → r.play.result? = none :=
    fun _ h => nomatch h
  have hassign := @handle_assign (initial .initial).1 ⟨1⟩ [nestedBlock n] _ _ _ (Folder.read [])
    hidle rfl (toList_nestedJson n) (parse_nested h) rfl
  rw [nested, takeAll, List.foldl_cons, List.foldl_nil, take, hassign]
  exact ⟨rfl, rfl⟩

/-- Both halves at sessions that have been assigned 62 loops and 63 loops around `null`. -/
theorem assign_printed_samples :
    (∃ json, ((nested 62).handle (Folder.read []) "script").lines.getLast?
        = some ("json: " ++ json) ∧
      ((nested 62).assignPrinted (Folder.read []) json).lines
        = ["assigned 1 blocks to actor 1"]) ∧
    ∃ json, ((nested 63).handle (Folder.read []) "script").lines.getLast?
        = some ("json: " ++ json) ∧
      ∃ path position, ((nested 63).assignPrinted (Folder.read []) json).lines = ["error: "
        ++ (ScriptError.malformed (.json .nestedTooDeeply) path position).message] := by
  obtain ⟨hselected, hscript⟩ := frame_nested (show 62 ≤ 63 by decide)
  obtain ⟨hselected', hscript'⟩ := frame_nested (Nat.le_refl 63)
  obtain ⟨-, script, json, hfound, hprinted, hassigned⟩ :=
    assign_printed .initial [.line (Folder.read []) ("assign " ++ nestedJson 62)] (Folder.read [])
      (by rw [nested]) hselected
  obtain ⟨-, script', json', hfound', hprinted', hrefused⟩ :=
    assign_printed .initial [.line (Folder.read []) ("assign " ++ nestedJson 63)] (Folder.read [])
      (by rw [nested]) hselected'
  rw [hscript] at hfound
  rw [hscript'] at hfound'
  cases hfound
  cases hfound'
  refine ⟨⟨json, hprinted, ((hassigned (readsClosest_outline_nested 62)).1 ?_).1⟩, json', hprinted',
    ((hrefused (readsClosest_outline_nested 63)).2 ?_).1⟩
  · intro b hb
    rw [Script.outline, Script.outlineAt, Script.outlineAt, List.append_nil] at hb
    have hle := (outline_nested 62 0).2 b hb
    omega
  · exact ⟨_, deep_nested, Nat.le_refl 63⟩

/-- What is printed is not always read. In the text of 63 loops around `null` a block stands in
    place of `null`, which makes it one container deeper than the text that was assigned. -/
theorem assign_printed_nested :
    (nested 63).playback.selected = some ⟨1⟩ ∧
    (nested 63).playback.stage.script? ⟨1⟩ = some [nestedBlock 63] ∧
    ∃ json, ((nested 63).handle (Folder.read []) "script").lines.getLast?
        = some ("json: " ++ json) ∧
      ((nested 63).assignPrinted (Folder.read []) json).lines
        ≠ ["assigned 1 blocks to actor 1"] := by
  obtain ⟨hselected, hscript⟩ := frame_nested (Nat.le_refl 63)
  obtain ⟨hsession, hprinted⟩ := handle_script (Folder.read []) hselected hscript
  have hopen : ∀ r, (nested 63).reap.1.run = some r → r.play.result? = none :=
    fun _ h => run_reap h
  obtain ⟨path, position, hreply⟩ := handle_assign_deep (Folder.read []) hopen
    (readsClosest_outline_nested 63) ⟨_, deep_nested, Nat.le_refl 63⟩
  refine ⟨hselected, hscript, _, hprinted, ?_⟩
  rw [assignPrinted, hsession, hreply, say, ne_eq, List.singleton_inj, String.ext_iff,
    String.toList_append]
  intro hsame
  cases hsame

end Session

end StagePlay
