import StagePlay.Proofs.Console.Departure
import StagePlay.Proofs.Script.Palette

/-!
# StagePlay.Proofs.Console.Refused

Lines that are turned down.

`Session.answer` has no session to go on with where it refuses a request. That nothing is done
then is a statement about the operations that a request is made of. `Work` is a request as these,
one after the other: it looks something up, writes the stage, the selection or the palette, tells of
an event, prints, or is refused, and what was written before a refusal stays written.

* `worked_eq`: the work on a request comes out as its answer says.
* `reap_frame`: what the report of a play that has ended leaves alone.
* `refused_changes_nothing`: a line that is turned down has changed nothing, in every session.
-/

namespace StagePlay

open scoped Json.FastRounding

/-- Work on a request. The reply is there after a refusal too, with all that has been done. -/
abbrev Work := ExceptT Refusal (StateM Reply)

namespace Work

variable {α : Type}

/-! ## Operations -/

def session : Work Session := return (← get).session

def refuse (r : Refusal) : Work α := throw r

/-- Goes on with the value, if there is one. -/
def need (x : Except Refusal α) : Work α := ExceptT.mk (pure x)

def become (f : Session → Session) : Work Unit := modify fun r => { r with session := f r.session }

def tell (events : List Event) : Work Unit :=
  modify fun r => { r with events := r.events ++ events }

def print (lines : List String) : Work Unit := modify fun r => { r with lines := r.lines ++ lines }

def leave : Work Unit := modify fun r => { r with flow := .quit }

/-! ## Looking up -/

def chosen : Work ActorId := do
  match (← session).playback.selected with
  | some id => return id
  | none => refuse (.play .noActorSelected)

/-- The actor that an edit is for. -/
def actor (id : ActorId) : Work Actor := do
  match (← session).playback.stage.find? id with
  | some a => return a
  | none => refuse (.stage (.actorNotFound id))

def block (id : ActorId) (script : Script) (index : Nat) : Work Command :=
  match script[index]? with
  | some c => return c
  | none => refuse (.stage (.blockOutOfRange id index script.length))

def template (slot : Nat) : Work Command := do
  match (← session).palette.templates.find? (·.slot == slot) with
  | some t => return t.command
  | none => refuse (.palette (.unknownSlot slot))

def edited (refusal : FieldError → Refusal) (c : Command) (field raw : String) : Work Command :=
  match c.edit? field raw with
  | some c' => return c'
  | none => refuse (refusal ⟨c.kind, field⟩)

/-! ## Writing -/

def writeStage (f : Stage → Stage) : Work Unit :=
  become fun s => s.putStage (f s.playback.stage)

def writeScript (id : ActorId) (a : Actor) (script : Script) : Work Unit :=
  writeStage (·.update id { a with script := script })

def choose (selected : Option ActorId) : Work Unit :=
  become fun s => s.put { s.playback with selected := selected }

/-- Selects another actor in the place of this one. -/
def reselect (id : ActorId) (other : Option ActorId) : Work Unit := do
  if (← session).playback.selected = some id then choose other

/-! ## Requests -/

def assign (script : Script) : Work Unit := do
  let id ← chosen
  let a ← actor id
  writeScript id a script
  print ["assigned " ++ toString script.length ++ " blocks to actor " ++ toString id]

def play : Work Unit := do
  if let some active := (← session).busy? then
    tell [.playRejected active]
    refuse (.play (.busy active))
  let id ← chosen
  unless (← session).playback.stage.contains id do refuse (.play (.actorNotFound id))
  become fun s => { s with run := some ⟨id, .requested id, s.now⟩ }
  tell [.playRequested id]
  print ["playing actor " ++ toString id]

def wait : Work Unit := do
  match (← session).run with
  | none => print ["nothing is playing"]
  | some r =>
    let (s, ended, events) := (← session).await r
    become fun _ => s
    tell events
    print (Session.report ended)

open Console in
def on (files : Files) : Console.Request → Work Unit
  | .help => print Registry.builtin.help
  | .echo text => print [text]
  | .quit => leave
  | .actors => do print (← session).actorLines
  | .addActor name => do
    let (stage, id) := (← session).playback.stage.spawn name
    writeStage fun _ => stage
    choose (some id)
    tell [.actorAdded id]
    print ["added actor " ++ toString id ++ " (selected)"]
  | .removeActor id => do
    unless (← session).playback.stage.contains id do refuse (.play (.actorNotFound id))
    writeStage fun stage => { stage with actors := stage.actors.filter (·.id ≠ id) }
    let first := (← session).playback.stage.first?
    reselect id first
    tell [.actorRemoved id]
    print ["removed actor " ++ toString id]
  | .select id => do
    unless (← session).playback.stage.contains id do refuse (.play (.actorNotFound id))
    choose (some id)
    print ["selected actor " ++ toString id]
  | .place id x y => do
    let a ← actor id
    let placed := { a with motion := a.motion.moveTo ⟨x, y⟩ }
    writeStage (·.update id placed)
    tell [.published placed.toSnapshot]
    print ["placed actor " ++ toString id ++ " at " ++ place ⟨x, y⟩]
  | .palette => do
    print ((← session).palette.templates.map fun t => toString t.slot ++ ": " ++ t.command.label)
  | .setPalette slot field value => do
    let c ← template slot
    let c' ← edited (.palette ∘ .field) c field value
    become fun s => { s with palette := s.palette.put slot c' }
    let shown ← template slot
    print [toString slot ++ ": " ++ shown.label]
  | .drag slot => do
    let id ← chosen
    let c ← template slot
    let a ← actor id
    writeScript id a (a.script ++ [c])
    print ["added '" ++ c.label ++ "' to actor " ++ toString id ++
      " at index " ++ toString a.script.length]
  | .drop index => do
    let id ← chosen
    let a ← actor id
    let c ← block id a.script index
    writeScript id a (a.script.eraseIdx index)
    print ["removed '" ++ c.label ++ "' from actor " ++ toString id]
  | .setBlock index field value => do
    let id ← chosen
    let a ← actor id
    let c ← block id a.script index
    let c' ← edited (.stage ∘ .field) c field value
    writeScript id a (a.script.set index c')
    let changed := ((← session).playback.stage.script? id).bind (·[index]?)
    print (changed.map fun c => toString index ++ ": " ++ c.label).toList
  | .script => do
    let id ← chosen
    match (← session).playback.stage.script? id with
    | some script => print (Session.scriptLines id script)
    | none => refuse (.play (.actorNotFound id))
  | .assign json => do
    let script ← need ((Script.parse json).mapError .script)
    assign script
  | .load path => do
    let script ← need ((Script.load files path).mapError .script)
    assign script
  | .play => play
  | .wait => wait
  | .status => do print (← session).statusLines

/-! ## Running -/

/-- How work comes out that begins with this reply, and the reply when it is over. -/
def outcome (w : Work α) (r : Reply) : Except Refusal α × Reply := w.run.run r

section Outcome

variable {β : Type} (r : Reply)

@[simp] theorem outcome_pure (a : α) : outcome (pure a) r = (.ok a, r) := rfl

@[simp] theorem outcome_refuse (e : Refusal) :
    outcome (refuse e : Work α) r = (.error e, r) := rfl

@[simp] theorem outcome_need (x : Except Refusal α) : outcome (need x) r = (x, r) := rfl

@[simp] theorem outcome_session : outcome session r = (.ok r.session, r) := rfl

@[simp] theorem outcome_become (f : Session → Session) :
    outcome (become f) r = (.ok (), { r with session := f r.session }) := rfl

@[simp] theorem outcome_tell (events : List Event) :
    outcome (tell events) r = (.ok (), { r with events := r.events ++ events }) := rfl

@[simp] theorem outcome_print (lines : List String) :
    outcome (print lines) r = (.ok (), { r with lines := r.lines ++ lines }) := rfl

@[simp] theorem outcome_bind (w : Work α) (f : α → Work β) :
    outcome (w >>= f) r =
      match outcome w r with
      | (.ok a, r') => outcome (f a) r'
      | (.error e, r') => (.error e, r') := by
  have hbind : outcome (w >>= f) r = ExceptT.bindCont f (outcome w r).1 (outcome w r).2 := rfl
  rw [hbind]
  rcases outcome w r with ⟨_ | _, _⟩ <;> rfl

theorem outcome_reselect (id : ActorId) (other : Option ActorId) :
    outcome (reselect id other) r =
      (.ok (), { r with session := r.session.put { r.session.playback with
        selected := if r.session.playback.selected = some id then other
          else r.session.playback.selected } }) := by
  rw [reselect, outcome_bind, outcome_session]
  dsimp only
  split
  · rfl
  · rfl

end Outcome

end Work

namespace Session

/-- The work on a request in this session: how it came out, and the reply when it was over. -/
def worked (files : Files) (s : Session) (request : Console.Request) :
    Except Refusal Unit × Reply :=
  (Work.on files request).outcome (s.say [])

/-- How work comes out that gives this answer. -/
def result (s : Session) : Except Refusal Reply → Except Refusal Unit × Reply
  | .ok reply => (.ok (), reply)
  | .error refusal => (.error refusal, { s.say [] with events := refusal.events })

/-- The work does what this answer says. -/
def Answers (s : Session) (w : Work Unit) (x : Except Refusal Reply) : Prop :=
  w.outcome (s.say []) = s.result x

/-- The work looks this up, and nothing else. -/
structure Looks {α : Type} (s : Session) (w : Work α) (x : Except Refusal α) : Prop where
  outcome : w.outcome (s.say []) = (x, s.say [])
  quiet : ∀ e, x = .error e → e.events = []

section Answers

variable {α : Type} {s : Session}

/-- Work reads the session as it is. -/
theorem answers_session {k : Session → Work Unit} {x : Except Refusal Reply}
    (h : s.Answers (k s) x) : s.Answers (Work.session >>= k) x := h

theorem Looks.found {w : Work α} {a : α} {f : α → Work Unit} {x : Except Refusal Reply}
    (hw : s.Looks w (.ok a)) (h : s.Answers (f a) x) : s.Answers (w >>= f) x := by
  rw [Answers, Work.outcome_bind, hw.outcome]
  exact h

theorem Looks.refused {w : Work α} {e : Refusal} (hw : s.Looks w (.error e)) (f : α → Work Unit) :
    s.Answers (w >>= f) (.error e) := by
  rw [Answers, Work.outcome_bind, hw.outcome, result, hw.quiet e rfl]
  rfl

theorem Looks.bind {w : Work α} {x : Except Refusal α} {f : α → Work Unit}
    {g : α → Except Refusal Reply} (hw : s.Looks w x) (h : ∀ a, s.Answers (f a) (g a)) :
    s.Answers (w >>= f) (x >>= g) := by
  cases x with
  | ok a => exact hw.found (h a)
  | error e => exact hw.refused f

theorem looks_ok {w : Work α} {a : α} (h : w.outcome (s.say []) = (.ok a, s.say [])) :
    s.Looks w (.ok a) := ⟨h, fun _ he => nomatch he⟩

theorem looks_error {w : Work α} {e : Refusal} (h : w.outcome (s.say []) = (.error e, s.say []))
    (hquiet : e.events = []) : s.Looks w (.error e) := by
  refine ⟨h, ?_⟩
  rintro _ ⟨⟩
  exact hquiet

theorem looks_chosen (s : Session) : s.Looks Work.chosen s.chosen := by
  unfold Session.chosen
  cases h : s.playback.selected with
  | some id => exact looks_ok (by simp [Work.chosen, say, h])
  | none => exact looks_error (by simp [Work.chosen, say, h]) rfl

theorem looks_template (s : Session) (slot : Nat) :
    s.Looks (Work.template slot) ((s.palette.block slot).mapError .palette) := by
  unfold Palette.block
  cases h : s.palette.templates.find? (·.slot == slot) with
  | some t => exact looks_ok (by simp [Work.template, say, h])
  | none => exact looks_error (by simp [Work.template, say, h]) rfl

theorem looks_actor (s : Session) (id : ActorId) :
    s.Looks (Work.actor id)
      ((s.playback.stage.find? id).elim (.error (.stage (.actorNotFound id))) .ok) := by
  cases h : s.playback.stage.find? id with
  | some a => exact looks_ok (by simp [Work.actor, say, h])
  | none => exact looks_error (by simp [Work.actor, say, h]) rfl

theorem looks_script (s : Session) {x : Except ScriptError Script} :
    s.Looks (Work.need (x.mapError .script)) (x.mapError .script) := by
  cases x with
  | ok script => exact looks_ok rfl
  | error e => exact looks_error rfl rfl

theorem mapError_map_bind {β : Type} (x : Except StageError α) (p : α → β)
    (g : β → Except Refusal Reply) :
    (x.map p).mapError .stage >>= g = x.mapError .stage >>= fun a => g (p a) := by
  cases x with
  | error e => rfl
  | ok a => rfl

/-- An edit of a script finds the actor, and then does what the edit itself does. -/
theorem answers_edit {id : ActorId} {f : Script → Except StageError (Script × α)}
    {k : Actor → Work Unit} {g : Stage × α → Except Refusal Reply}
    (h : ∀ a, s.Answers (k a) ((f a.script).mapError .stage >>= fun r =>
      g (s.playback.stage.update id { a with script := r.1 }, r.2))) :
    s.Answers (Work.actor id >>= k) ((s.playback.stage.editScript id f).mapError .stage >>= g) := by
  have hlook := s.looks_actor id
  rw [Stage.editScript]
  cases hfind : s.playback.stage.find? id with
  | none =>
    rw [hfind] at hlook
    exact hlook.refused k
  | some a =>
    rw [hfind] at hlook
    refine hlook.found ((h a).trans (congrArg s.result ?_))
    dsimp only
    cases f a.script with
    | error e => rfl
    | ok r => rfl

theorem answers_assign (s : Session) (script : Script) :
    s.Answers (Work.assign script) (s.assign script) := by
  refine s.looks_chosen.bind fun id => ?_
  rw [Stage.assign, mapError_map_bind]
  exact answers_edit fun a => rfl

theorem answers_setPalette (files : Files) (s : Session) (slot : Nat) (field value : String) :
    s.Answers (Work.on files (.setPalette slot field value))
      (s.answer files (.setPalette slot field value)) := by
  have hlook := s.looks_template slot
  rw [answer, Palette.setField]
  cases hslot : s.palette.block slot with
  | error e =>
    rw [hslot] at hlook
    exact hlook.refused _
  | ok c =>
    rw [hslot] at hlook
    refine hlook.found ?_
    unfold Work.edited Command.setField
    dsimp only
    cases c.edit? field value with
    | none => rfl
    | some c' =>
      let s' := { s with palette := s.palette.put slot c' }
      have hput : s'.palette.block slot = .ok c' := Palette.block_put_self hslot c'
      have hshown := s'.looks_template slot
      rw [hput] at hshown
      have hprinted : s'.Answers
          (Work.template slot >>= fun shown => Work.print [toString slot ++ ": " ++ shown.label])
          (.ok (s'.say [toString slot ++ ": " ++ c'.label])) := hshown.found rfl
      change s.Answers _ ((s'.palette.block slot).mapError .palette >>= _)
      rw [hput]
      exact hprinted

theorem answers_removeActor (files : Files) (s : Session) (id : ActorId) :
    s.Answers (Work.on files (.removeActor id)) (s.answer files (.removeActor id)) := by
  refine answers_session ?_
  rw [answer, Playback.removeActor?, Stage.remove?]
  cases s.playback.stage.contains id with
  | false => rfl
  | true =>
    simp only [Answers, ↓reduceIte, Work.outcome_bind, Work.outcome_session, Work.outcome_reselect]
    rfl

end Answers

theorem worked_eq (files : Files) (s : Session) (request : Console.Request) :
    s.worked files request = s.result (s.answer files request) := by
  cases request with
  | help | echo text | quit | actors | addActor name | palette | status => rfl
  | removeActor id => exact answers_removeActor files s id
  | select id =>
    refine answers_session ?_
    rw [answer, Playback.select?]
    cases s.playback.stage.contains id with
    | false => rfl
    | true => rfl
  | place id x y =>
    rw [answer, Stage.place?, Stage.write?]
    have hlook := s.looks_actor id
    cases h : s.playback.stage.find? id with
    | none =>
      rw [h] at hlook
      exact hlook.refused _
    | some a =>
      rw [h] at hlook
      exact hlook.found rfl
  | setPalette slot field value => exact answers_setPalette files s slot field value
  | drag slot =>
    exact s.looks_chosen.bind fun id => (s.looks_template slot).bind fun c =>
      answers_edit fun a => rfl
  | drop index =>
    refine s.looks_chosen.bind fun id => answers_edit fun a => ?_
    unfold Work.block
    cases a.script[index]? with
    | none => rfl
    | some c => rfl
  | setBlock index field value =>
    refine s.looks_chosen.bind fun id => ?_
    rw [Stage.setBlockField, mapError_map_bind]
    refine answers_edit fun a => ?_
    unfold Work.block Work.edited Command.setField
    cases a.script[index]? with
    | none => rfl
    | some c =>
      simp only [pure_bind]
      cases c.edit? field value with
      | none => rfl
      | some c' => rfl
  | script =>
    refine s.looks_chosen.bind fun id => answers_session ?_
    cases s.playback.stage.script? id with
    | none => rfl
    | some script => rfl
  | assign json => exact s.looks_script.bind fun script => s.answers_assign script
  | load path => exact s.looks_script.bind fun script => s.answers_assign script
  | play =>
    refine answers_session ?_
    rw [answer, play]
    cases s.busy? with
    | some active => rfl
    | none =>
      refine s.looks_chosen.bind fun id => answers_session ?_
      cases s.playback.stage.contains id with
      | false => rfl
      | true => rfl
  | wait =>
    refine answers_session ?_
    rw [answer, wait]
    cases s.run with
    | none => rfl
    | some r => rfl

/-! ## Lines that are turned down -/

theorem palette_reap (s : Session) : s.reap.1.palette = s.palette := by
  unfold reap
  split
  · rfl
  · split <;> rfl

theorem length_reap (s : Session) : s.reap.2.length ≤ 1 := by
  unfold reap
  split
  · exact Nat.zero_le 1
  · rename_i r _
    split
    · cases h : r.play.result? <;> simp [report, h]
    · exact Nat.zero_le 1

theorem observations_events (refusal : Refusal) :
    refusal.events.flatMap Event.observations = [] := by
  unfold Refusal.events
  split <;> rfl

theorem take_refused (files : Files) (s : Session) {text : String} {e : Console.LineError}
    (h : Console.Registry.builtin.line text = .refused e) :
    s.take (.line files text) = ⟨s.reap.1, [], s.reap.2 ++ [e.message], .proceed⟩ := by
  simp only [take, handle, h, say]

/-- **A line that is turned down changes nothing.** In any session, a line that cannot be read
leaves the session as it was after the report of a play that had ended, and one line more is
printed. So does a request that is refused, however much of its work has been done: the work has
left the session as it was, nothing has been told to observers, and the refusal is the only line
printed. (Work that is not refused is what the session goes on with.) -/
theorem refused_changes_nothing (files : Files) (s : Session) (text : String) :
    s.reap.1.playback = s.playback ∧ s.reap.1.palette = s.palette ∧ s.reap.2.length ≤ 1 ∧
    (∀ e, Console.Registry.builtin.line text = .refused e →
      s.take (.line files text) = ⟨s.reap.1, [], s.reap.2 ++ [e.message], .proceed⟩) ∧
    ∀ request, Console.Registry.builtin.line text = .request request →
      (∀ done, s.reap.1.worked files request = (.ok (), done) →
        s.take (.line files text) = { done with lines := s.reap.2 ++ done.lines }) ∧
      ∀ refusal done, s.reap.1.worked files request = (.error refusal, done) →
        done.session = s.reap.1 ∧ done.lines = [] ∧
        done.events.flatMap Event.observations = [] ∧
        s.take (.line files text) =
          ⟨s.reap.1, done.events, s.reap.2 ++ ["error: " ++ refusal.message], .proceed⟩ := by
  refine ⟨playback_reap s, palette_reap s, length_reap s, fun e => take_refused files s, ?_⟩
  intro request hline
  rw [worked_eq]
  cases hanswer : s.reap.1.answer files request with
  | ok answer =>
    constructor
    · intro done hdone
      cases hdone
      simp only [take, handle, hline, reply, hanswer]
    · intro refusal done hdone
      cases hdone
  | error refusal =>
    constructor
    · intro done hdone
      cases hdone
    · intro _ done hdone
      cases hdone
      refine ⟨rfl, rfl, observations_events refusal, ?_⟩
      simp only [take, handle, hline, reply, hanswer]

/-- An actor plays, so that another play is refused; there is no block to take away, no slot 99 to
edit, and no word for what comes last. -/
theorem refused_changes_nothing_playing :
    let files := Folder.read []
    let s := (initial .initial).1.takeAll [.line files "play"]
    (s.take (.line files "play") =
        ⟨s, [.playRejected ⟨1⟩],
          ["error: actor 1 is already playing; wait for it to finish"], .proceed⟩) ∧
    (s.take (.line files "drop 5") =
        ⟨s, [], ["error: actor 1 has no block at index 5 (script length 0)"], .proceed⟩) ∧
    (s.take (.line files "palette_set 99 value 3") =
        ⟨s, [], ["error: palette has no block in slot 99"], .proceed⟩) ∧
    (s.take (.line files "dance") =
        ⟨s, [], ["error: unknown command 'dance'. try: help"], .proceed⟩) := by
  intro files s
  obtain ⟨-, -, -, -, hplay⟩ := refused_changes_nothing files s "play"
  obtain ⟨-, -, -, -, hdrop⟩ := refused_changes_nothing files s "drop 5"
  obtain ⟨-, -, -, -, hset⟩ := refused_changes_nothing files s "palette_set 99 value 3"
  obtain ⟨-, -, -, hdance, -⟩ := refused_changes_nothing files s "dance"
  refine ⟨?_, ?_, ?_, ?_⟩
  · exact ((hplay .play rfl).2 _ _ rfl).2.2.2
  · exact ((hdrop (.drop 5) rfl).2 _ _ rfl).2.2.2
  · exact ((hset (.setPalette 99 "value" "3") rfl).2 _ _ rfl).2.2.2
  · exact hdance (.unknownCommand "dance") rfl

end Session

end StagePlay
