import StagePlay.Proofs.Console.Departure
import StagePlay.Proofs.Stage.Order

/-!
# StagePlay.Proofs.Console.Selection

Who is selected.

A playback is well selected if its selection names an actor on the stage, and is empty only while
nobody is there. Every change of a session keeps this, so that a request for the selected actor
always finds it.

* `wellSelected_change`: one change of a session.
* `filter_marked`: a listing of the actors marks one of them.
* `answer_forSelected`: a request for the selected actor is not refused for its absence.
* `selected_present`: all this of every session, whatever has come in.
-/

namespace StagePlay

namespace Playback

/-- The selection names somebody who is there, and is empty only if nobody is. -/
structure WellSelected (pb : Playback) : Prop where
  nobody : pb.selected = none → pb.stage.ids = []
  there : ∀ {id}, pb.selected = some id → pb.stage.contains id = true

variable {pb pb' : Playback}

theorem WellSelected.congr (h : pb.WellSelected) (hstage : pb'.stage.Alike pb.stage)
    (hselected : pb'.selected = pb.selected) : pb'.WellSelected where
  nobody := by
    rw [hselected, hstage.1]
    exact h.nobody
  there := by
    intro id hid
    rw [hstage.contains]
    exact h.there (hselected ▸ hid)

/-- Somebody new is there, and is selected. -/
theorem wellSelected_addActor (pb : Playback) (name : Option String) :
    (pb.addActor name).playback.WellSelected where
  nobody := fun h => nomatch h
  there := by
    intro id hid
    cases hid
    rw [Stage.contains_iff_mem_ids]
    simp [addActor, Stage.spawn, Stage.ids, Actor.fresh]

theorem first?_eq_none_iff {s : Stage} : s.first? = none ↔ s.ids = [] := by
  simp [Stage.first?, Stage.ids]

theorem contains_of_first? {s : Stage} {id : ActorId} (h : s.first? = some id) :
    s.contains id = true := by
  rw [Stage.contains_iff_mem_ids]
  refine List.mem_of_head? ?_
  rw [Stage.ids, List.head?_map]
  exact h

theorem wellSelected_removeActor {id : ActorId} {removed : Played Unit} (h : pb.WellSelected)
    (hr : pb.removeActor? id = some removed) : removed.playback.WellSelected := by
  obtain ⟨stage, hstage, rfl⟩ := Option.map_eq_some_iff.mp hr
  have hids := (Stage.ids_remove? hstage).1
  by_cases hsame : pb.selected = some id
  · simp only [hsame, ↓reduceIte]
    exact ⟨first?_eq_none_iff.mp, contains_of_first?⟩
  · simp only [hsame, ↓reduceIte]
    constructor
    · intro hnone
      rw [hids, h.nobody hnone]
      rfl
    · intro other hother
      have hthere := Stage.contains_iff_mem_ids.mp (h.there hother)
      have hne : other ≠ id := by
        rintro rfl
        exact hsame hother
      rw [Stage.contains_iff_mem_ids, hids, List.mem_filter]
      exact ⟨hthere, by simpa using hne⟩

theorem wellSelected_select {id : ActorId} (h : pb.select? id = some pb') :
    pb'.WellSelected := by
  unfold select? at h
  split at h
  · rename_i hthere
    cases h
    refine ⟨fun h => (nomatch h), ?_⟩
    intro _ hid
    cases hid
    exact hthere
  · cases h

end Playback

/-- The number of actors that a request asks for. -/
def Console.Request.spawns : Console.Request → Nat
  | .addActor _ => 1
  | _ => 0

/-- The number of actors that an input asks for. -/
def Input.spawns : Input → Nat
  | .line _ text =>
    match Console.Registry.builtin.line text with
    | .request request => request.spawns
    | _ => 0
  | .pause _ => 0

namespace Session

variable {s s' : Session} {n : Nat}

/-! ## The selection -/

theorem wellSelected_edit {request : Console.Request} (hs : s.playback.WellSelected)
    (h : Edit s request s') : s'.playback.WellSelected := by
  cases h with
  | nothing => exact hs
  | addActor name => exact s.playback.wellSelected_addActor name
  | removeActor hr => exact Playback.wellSelected_removeActor hs hr
  | select h => exact Playback.wellSelected_select h
  | palette h => exact hs
  | deed hd => exact hs.congr (Deed.alike_of_offered hd _) rfl

theorem wellSelected_change {log : List Notice} (hs : s.playback.WellSelected)
    (h : Change s log s') : s'.playback.WellSelected := by
  cases h with
  | clock now room => exact hs
  | @poll r hr =>
    exact hs.congr (s.playback.alike_poll turnRoom r.play) (s.playback.poll_frame turnRoom r.play).2
  | settle hr hended => exact hs
  | accept hrun hbusy hselected => exact hs
  | edit lines he => exact wellSelected_edit hs he

theorem wellSelected_initial (settings : Settings) :
    (initial settings).1.playback.WellSelected :=
  (Playback.initial settings).wellSelected_addActor none

theorem wellSelected_takeAll (settings : Settings) (inputs : List Input) :
    ((initial settings).1.takeAll inputs).playback.WellSelected :=
  takeAll_keeps (P := fun s => s.playback.WellSelected)
    (fun _ _ _ hs h => wellSelected_change hs h) (wellSelected_initial settings) inputs

/-! ## The ids -/

/-- An edit is some deeds on the stage, and only a request for an actor spawns one. -/
theorem Edit.stage_afterAll {request : Console.Request} (h : Edit s request s') :
    ∃ deeds, s'.playback.stage = s.playback.stage.afterAll deeds ∧
      Deed.spawns deeds ≤ request.spawns := by
  cases h with
  | nothing => exact ⟨[], rfl, Nat.zero_le _⟩
  | addActor name => exact ⟨[.spawn name], rfl, Nat.le_refl _⟩
  | @removeActor id removed hr =>
    obtain ⟨stage, hstage, rfl⟩ := Option.map_eq_some_iff.mp hr
    refine ⟨[.remove id], ?_, Nat.zero_le _⟩
    simp [put, Stage.afterAll, Stage.after, hstage]
  | select h =>
    unfold Playback.select? at h
    split at h <;> cases h
    exact ⟨[], rfl, Nat.zero_le _⟩
  | palette h => exact ⟨[], rfl, Nat.zero_le _⟩
  | @deed _ d hd =>
    refine ⟨[d], rfl, ?_⟩
    cases d <;> first | exact Nat.zero_le _ | cases hd

theorem alike_elapse (s : Session) (ms : Nat) :
    (s.elapse ms).1.playback.stage.Alike s.playback.stage := by
  cases hr : s.run with
  | none =>
    simp only [elapse, pass, hr]
    split <;> exact .refl _
  | some r =>
    obtain ⟨_, -, halike⟩ := take_pause (s := s) (r := r)
      (P := fun pb _ => pb.stage.Alike s.playback.stage)
      (fun pb q h => (pb.alike_poll turnRoom q.play).trans h) hr (.refl _) ms
    exact halike

theorem ordered_reply (files : Files) (request : Console.Request)
    (hs : s.playback.stage.Ordered n) (hn : n + request.spawns < Numeral.capacity 64) :
    (s.reply files request).session.playback.stage.Ordered (n + request.spawns) := by
  by_cases hplay : request = .play
  · subst hplay
    cases h : s.play with
    | error refusal =>
      have hsame : (s.reply files .play).session = s := by simp [reply, answer, h]
      rw [hsame]
      exact hs
    | ok answer =>
      obtain ⟨id, -, -, -, hsession, -⟩ := play_accepts h
      have hthen : (s.reply files .play).session = answer.session := by
        simp [reply, Session.answer, h]
      rw [hthen, hsession]
      exact hs
  by_cases hwait : request = .wait
  · subst hwait
    cases h : s.run with
    | none =>
      have hsame : (s.reply files .wait).session = s := by simp [reply, answer, wait, h, say]
      rw [hsame]
      exact hs
    | some r =>
      have hthen : (s.reply files .wait).session = (s.await r).1 := by
        simp [reply, answer, wait, h]
      rw [hthen]
      exact hs.congr (alike_await s r)
  obtain ⟨deeds, hafter, hspawns⟩ := (@edit_reply files s request hplay hwait).stage_afterAll
  rw [hafter]
  exact (hs.afterAll deeds (by omega)).mono (by omega)

theorem ordered_take (input : Input) (hs : s.playback.stage.Ordered n)
    (hn : n + input.spawns < Numeral.capacity 64) :
    (s.take input).session.playback.stage.Ordered (n + input.spawns) := by
  cases input with
  | pause ms => exact hs.congr (alike_elapse s ms)
  | line files text =>
    rw [← playback_reap s] at hs
    cases h : Console.Registry.builtin.line text with
    | empty =>
      simp only [take, handle, h, say, Input.spawns]
      exact hs
    | refused e =>
      simp only [take, handle, h, say, Input.spawns]
      exact hs
    | request request =>
      simp only [take, handle, h, Input.spawns] at hn ⊢
      exact ordered_reply files request hs hn

theorem ordered_takeAll (inputs : List Input) (hs : s.playback.stage.Ordered n)
    (hn : n + (inputs.map Input.spawns).sum < Numeral.capacity 64) :
    (s.takeAll inputs).playback.stage.Ordered (n + (inputs.map Input.spawns).sum) := by
  induction inputs generalizing s n with
  | nil => exact hs
  | cons input rest ih =>
    rw [List.map_cons, List.sum_cons, ← Nat.add_assoc] at hn ⊢
    exact ih (ordered_take input hs (by omega)) hn

theorem ordered_initial (settings : Settings) :
    (initial settings).1.playback.stage.Ordered 1 :=
  (Stage.ordered_empty settings.spawnPoint).after (d := .spawn none) (by decide)

/-! ## The mark in a listing -/

/-- A line of a listing that marks its actor as selected. -/
def isMarked (line : String) : Bool := line.toList.head? = some '*'

theorem filter_id_of_nodup {actors : List Actor} {a : Actor} (ha : a ∈ actors)
    (h : (actors.map (·.id)).Nodup) : actors.filter (·.id = a.id) = [a] := by
  induction actors with
  | nil => cases ha
  | cons b rest ih =>
    rw [List.map_cons, List.nodup_cons] at h
    obtain ⟨hfirst, hrest⟩ := h
    rcases List.mem_cons.mp ha with rfl | hlater
    · have hnone : rest.filter (·.id = a.id) = [] := by
        refine List.filter_eq_nil_iff.mpr fun c hc => ?_
        rw [decide_eq_true_eq]
        intro he
        exact hfirst (he ▸ List.mem_map_of_mem hc)
      rw [List.filter_cons_of_pos (by simp), hnone]
    · have hne : b.id ≠ a.id := by
        intro he
        exact hfirst (he ▸ List.mem_map_of_mem hlater)
      rw [List.filter_cons_of_neg (by simpa using hne), ih hlater hrest]

/-- The line of an actor in a listing. -/
def actorLine (selected : Option ActorId) (a : Snapshot) : String :=
  (if selected = some a.id then "*" else " ") ++ " " ++ Console.describe a

theorem actorLines_eq (h : s.playback.stage.actors ≠ []) :
    s.actorLines =
      s.playback.stage.actors.map fun a => actorLine s.playback.selected a.toSnapshot := by
  obtain ⟨a, rest, hactors⟩ := List.exists_cons_of_ne_nil h
  rw [actorLines, Stage.snapshots, hactors]
  simp only [List.map_cons, List.map_map]
  rfl

theorem isMarked_actorLine (selected : Option ActorId) (a : Snapshot) :
    isMarked (actorLine selected a) = decide (selected = some a.id) := by
  unfold isMarked actorLine
  split <;> simp_all

/-- A listing has a line for each actor, and marks one of them. -/
theorem filter_marked (hs : s.playback.WellSelected) (hnodup : s.playback.stage.ids.Nodup)
    (h : s.playback.stage.actors ≠ []) :
    ∃ a ∈ s.playback.stage.actors, s.playback.selected = some a.id ∧
      s.actorLines.filter isMarked = [actorLine s.playback.selected a.toSnapshot] := by
  cases hselected : s.playback.selected with
  | none =>
    have hnobody := hs.nobody hselected
    rw [Stage.ids, List.map_eq_nil_iff] at hnobody
    exact absurd hnobody h
  | some id =>
    have hthere := hs.there hselected
    rw [Stage.contains_iff_mem_ids] at hthere
    obtain ⟨a, ha, rfl⟩ := List.mem_map.mp hthere
    refine ⟨a, ha, rfl, ?_⟩
    rw [actorLines_eq h, List.filter_map, hselected]
    have hmarked : (isMarked ∘ fun b : Actor => actorLine (some a.id) b.toSnapshot) =
        fun b : Actor => decide (b.id = a.id) := by
      funext b
      rw [Function.comp, isMarked_actorLine]
      exact decide_eq_decide.mpr (by rw [Option.some.injEq, eq_comm])
    rw [hmarked, filter_id_of_nodup ha hnodup]
    rfl

end Session

/-! ## The wording of a refusal -/

section Wording

variable {a b : String} {c : Char}

theorem first_append (h : a.toList.head? = some c) (b : String) :
    (a ++ b).toList.head? = some c := by
  rw [String.toList_append, List.head?_append, h]
  rfl

theorem last_append (a : String) (h : b.toList.getLast? = some c) :
    (a ++ b).toList.getLast? = some c := by
  rw [String.toList_append, List.getLast?_append, h]
  rfl

end Wording

theorem FieldError.first_message (e : FieldError) : e.message.toList.head? = some 'b' :=
  first_append (first_append (first_append (first_append rfl _) _) _) _

theorem PaletteError.first_message (e : PaletteError) :
    e.message.toList.head? = some 'p' ∨ e.message.toList.head? = some 'b' := by
  cases e with
  | unknownSlot slot => exact .inl (first_append rfl _)
  | field e => exact .inr e.first_message

theorem ScriptError.first_message (e : ScriptError) :
    e.message.toList.head? = some 'f' ∨ e.message.toList.head? = some 'p' := by
  cases e with
  | unreadable path fault => exact .inl (first_append (first_append (first_append rfl _) _) _)
  | malformed cause path position =>
    cases path with
    | nil => exact .inr (first_append (first_append rfl _) _)
    | cons segment rest =>
      exact .inr (first_append (first_append (first_append (first_append rfl _) _) _) _)

namespace Refusal

/-- A refusal because an actor is not on the stage. -/
def IsAbsence : Refusal → Prop
  | .play (.actorNotFound _) | .stage (.actorNotFound _) => True
  | _ => False

/-- Only then is it told in these words. -/
theorem isAbsence_of_message {r : Refusal} {id : ActorId}
    (h : r.message = "actor " ++ toString id ++ " not found") : r.IsAbsence := by
  have hfirst : r.message.toList.head? = some 'a' := by
    rw [h]
    exact first_append (first_append rfl _) _
  have hlast : r.message.toList.getLast? = some 'd' := by
    rw [h]
    exact last_append _ rfl
  cases r with
  | play e =>
    cases e with
    | actorNotFound other => trivial
    | busy active =>
      have hends : (Refusal.play (.busy active)).message.toList.getLast? = some 'h' :=
        last_append _ rfl
      rw [hends] at hlast
      cases hlast
    | noActorSelected => cases hfirst
  | stage e =>
    cases e with
    | actorNotFound other => trivial
    | blockOutOfRange actor index length =>
      have hends : (Refusal.stage (.blockOutOfRange actor index length)).message.toList.getLast?
          = some ')' := last_append _ rfl
      rw [hends] at hlast
      cases hlast
    | field e =>
      rw [message, StageError.message, e.first_message] at hfirst
      cases hfirst
  | palette e =>
    rw [message] at hfirst
    rcases e.first_message with hb | hb <;> rw [hb] at hfirst <;> cases hfirst
  | script e =>
    rw [message] at hfirst
    rcases e.first_message with hb | hb <;> rw [hb] at hfirst <;> cases hfirst

end Refusal

/-! ## Requests for the selected actor -/

/-- A request that is for the selected actor, whoever that is. -/
def Console.Request.ForSelected : Console.Request → Prop
  | .drag _ | .drop _ | .setBlock _ _ _ | .script | .assign _ | .load _ | .play => True
  | _ => False

/-- Whatever this is refused for, it is not that an actor is absent. -/
def Finds {α : Type} (x : Except Refusal α) : Prop := ∀ e, x = .error e → ¬ e.IsAbsence

namespace Finds

variable {α β : Type}

theorem ok (a : α) : Finds (.ok a) := fun _ h => nomatch h

theorem error {r : Refusal} (h : ¬ r.IsAbsence) : Finds (.error r : Except Refusal α) := by
  intro e he
  cases he
  exact h

theorem bind {x : Except Refusal α} {f : α → Except Refusal β} (hx : Finds x)
    (hf : ∀ a, x = .ok a → Finds (f a)) : Finds (x >>= f) := by
  cases x with
  | error e => exact error (hx e rfl)
  | ok a => exact hf a rfl

theorem of_palette (x : Except PaletteError α) : Finds (x.mapError .palette) := by
  cases x with
  | error e => exact error not_false
  | ok a => exact ok a

theorem of_script (x : Except ScriptError α) : Finds (x.mapError .script) := by
  cases x with
  | error e => exact error not_false
  | ok a => exact ok a

/-- An edit of the script of somebody who is there fails only as the edit itself does. -/
theorem of_edit {s : Stage} {id : ActorId} {f : Script → Except StageError (Script × α)}
    (h : s.contains id = true) (hf : ∀ script, Finds ((f script).mapError .stage)) :
    Finds ((s.editScript id f).mapError .stage) := by
  obtain ⟨a, ha⟩ := Option.isSome_iff_exists.mp h
  simp only [Stage.editScript, ha]
  cases hedit : f a.script with
  | error e =>
    have hfails := hf a.script
    rw [hedit] at hfails
    exact error (hfails _ rfl)
  | ok r => exact ok _

theorem of_map {x : Except StageError α} (f : α → β) (h : Finds (x.mapError .stage)) :
    Finds ((x.map f).mapError .stage) := by
  cases x with
  | error e => exact error (h _ rfl)
  | ok a => exact ok (f a)

end Finds

namespace Session

variable {s : Session}

theorem finds_chosen (s : Session) : Finds s.chosen := by
  unfold chosen
  split
  · exact .ok _
  · exact .error not_false

theorem contains_of_chosen {id : ActorId} (hs : s.playback.WellSelected)
    (h : s.chosen = .ok id) : s.playback.stage.contains id = true := by
  unfold chosen at h
  split at h
  · rename_i hselected
    cases h
    exact hs.there hselected
  · cases h

theorem finds_assign (hs : s.playback.WellSelected) (script : Script) :
    Finds (s.assign script) := by
  refine (finds_chosen s).bind fun id hid => ?_
  have hthere := contains_of_chosen hs hid
  exact .bind (.of_map _ (.of_edit hthere fun _ => .ok _)) fun _ _ => .ok _

theorem finds_play (hs : s.playback.WellSelected) : Finds s.play := by
  unfold play
  split
  · exact .error not_false
  · refine (finds_chosen s).bind fun id hid => ?_
    rw [if_pos (contains_of_chosen hs hid)]
    exact .ok _

/-- A request for the selected actor finds it. -/
theorem answer_forSelected (files : Files) {request : Console.Request}
    (hs : s.playback.WellSelected) (h : request.ForSelected) : Finds (s.answer files request) := by
  cases request with
  | drag slot =>
    refine (finds_chosen s).bind fun id hid => .bind (.of_palette _) fun c _ => ?_
    have hthere := contains_of_chosen hs hid
    exact .bind (.of_edit hthere fun _ => .ok _) fun _ _ => .ok _
  | drop index =>
    refine (finds_chosen s).bind fun id hid => ?_
    have hthere := contains_of_chosen hs hid
    refine .bind (.of_edit hthere fun script => ?_) fun _ _ => .ok _
    split
    · exact .error not_false
    · exact .ok _
  | setBlock index field value =>
    refine (finds_chosen s).bind fun id hid => ?_
    have hthere := contains_of_chosen hs hid
    refine .bind (.of_map _ (.of_edit hthere fun script => ?_)) fun _ _ => .ok _
    split
    · exact .error not_false
    · split
      · exact .error not_false
      · exact .ok _
  | script =>
    refine (finds_chosen s).bind fun id hid => ?_
    obtain ⟨a, ha⟩ := Option.isSome_iff_exists.mp (contains_of_chosen hs hid)
    simp only [Stage.script?, ha, Option.map_some]
    exact .ok _
  | assign json => exact .bind (.of_script _) fun script _ => finds_assign hs script
  | load path => exact .bind (.of_script _) fun script _ => finds_assign hs script
  | play => exact finds_play hs
  | help | echo text | quit | actors | addActor name | removeActor id | select id => cases h
  | place id x y | palette | setPalette slot field value | wait | status => cases h

/-! ## Every session -/

theorem take_request (files : Files) {text : String} {request : Console.Request}
    (h : Console.Registry.builtin.line text = .request request) :
    (s.take (.line files text)).lines = s.reap.2 ++ (s.reap.1.reply files request).lines := by
  simp only [take, handle, h]

/-- **Somebody is selected, unless nobody is there.** Whatever lines a session is given, with
whatever time between them: no actor is selected exactly while the stage is empty, and otherwise the
selected actor is on the stage. A listing of the actors then has a line for each of them, and marks
one, as long as there are numbers for all that are spawned. A line that asks for something of the
selected actor may be turned down, but not because an actor is not found. -/
theorem selected_present (settings : Settings) (inputs : List Input) :
    let s := (initial settings).1.takeAll inputs
    (s.playback.selected = none ↔ s.playback.stage.actors = []) ∧
    (∀ id, s.playback.selected = some id → s.playback.stage.contains id = true) ∧
    ∀ files text request, Console.Registry.builtin.line text = .request request →
      (request = .actors → s.playback.stage.actors ≠ [] →
        1 + (inputs.map Input.spawns).sum < Numeral.capacity 64 →
        ∃ listing, (s.take (.line files text)).lines = s.reap.2 ++ listing ∧
          listing.length = s.playback.stage.actors.length ∧
          ∃ a ∈ s.playback.stage.actors, s.playback.selected = some a.id ∧
            listing.filter isMarked = ["* " ++ Console.describe a.toSnapshot]) ∧
      (request.ForSelected → ∀ refusal, s.reap.1.answer files request = .error refusal →
        (s.take (.line files text)).lines = s.reap.2 ++ ["error: " ++ refusal.message] ∧
        ∀ id : ActorId, refusal.message ≠ "actor " ++ toString id ++ " not found") := by
  intro s
  have hs : s.playback.WellSelected := wellSelected_takeAll settings inputs
  refine ⟨⟨?_, ?_⟩, fun id => hs.there, fun files text request hline => ⟨?_, ?_⟩⟩
  · intro hnone
    exact List.map_eq_nil_iff.mp (hs.nobody hnone)
  · intro hempty
    cases hselected : s.playback.selected with
    | none => rfl
    | some id =>
      have hthere := Stage.contains_iff_mem_ids.mp (hs.there hselected)
      rw [Stage.ids, hempty] at hthere
      cases hthere
  · rintro rfl hsome hfew
    have hordered : s.playback.stage.Ordered _ :=
      ordered_takeAll inputs (ordered_initial settings) hfew
    obtain ⟨a, ha, hselected, hmarked⟩ := filter_marked hs hordered.nodup hsome
    refine ⟨s.actorLines, ?_, ?_, a, ha, hselected, ?_⟩
    · have hsame : s.reap.1.actorLines = s.actorLines := by
        unfold actorLines
        rw [playback_reap]
      rw [take_request files hline, ← hsame]
      rfl
    · rw [actorLines_eq hsome, List.length_map]
    · rw [hmarked, actorLine, if_pos hselected]
      rfl
  · intro hfor refusal hrefused
    have hreap : s.reap.1.playback.WellSelected := by
      rw [playback_reap]
      exact hs
    refine ⟨?_, fun id hmessage => ?_⟩
    · rw [take_request files hline, reply, hrefused]
    · exact answer_forSelected files hreap hfor refusal hrefused
        (Refusal.isAbsence_of_message hmessage)

/-- The selected one of two actors is removed; the other one is marked, and lacks a block. -/
theorem selected_present_removed :
    let s := (initial .initial).1.takeAll
      [.line (Folder.read []) "add_actor", .line (Folder.read []) "remove_actor 2"]
    s.playback.stage.ids = [⟨1⟩] ∧ s.playback.selected = some ⟨1⟩ ∧
    (∃ (listing : List String) (a : Actor),
      (s.take (.line (Folder.read []) "actors")).lines = listing ∧
      listing.length = 1 ∧ s.playback.selected = some a.id ∧
      listing.filter isMarked = ["* " ++ Console.describe a.toSnapshot]) ∧
    s.answer (Folder.read []) (.drop 5) = .error (.stage (.blockOutOfRange ⟨1⟩ 5 0)) ∧
    (StageError.blockOutOfRange ⟨1⟩ 5 0).message ≠ "actor 1 not found" := by
  intro s
  obtain ⟨-, -, hlines⟩ := selected_present .initial
    [.line (Folder.read []) "add_actor", .line (Folder.read []) "remove_actor 2"]
  have hrefused : s.answer (Folder.read []) (.drop 5)
      = .error (.stage (.blockOutOfRange ⟨1⟩ 5 0)) := rfl
  obtain ⟨listing, hlisting, hlength, a, -, hselected, hmarked⟩ :=
    (hlines (Folder.read []) "actors" .actors rfl).1 rfl (by decide) (by decide)
  have hmessage := ((hlines (Folder.read []) "drop 5" (.drop 5) rfl).2 trivial _ hrefused).2
  exact ⟨rfl, rfl, ⟨listing, a, hlisting, hlength, hselected, hmarked⟩, hrefused, hmessage ⟨1⟩⟩

end Session

end StagePlay
