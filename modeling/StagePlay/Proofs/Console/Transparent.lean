import StagePlay.Proofs.Console.Finite

/-!
# StagePlay.Proofs.Console.Transparent

Lines that only look can be put into a session, or left out.

Every line reports the play that has ended, and so does a line that is put in: the report comes
earlier then, and the session has less to say later. What has been reported, and the room of the
turn, is all that the two sessions differ by until more time passes.

* `reply_atRoom`: a request is answered the same in a turn with any room.
* `take_bare`: what a session owes is what it prints first, and is all that the report of it
  changes.
* `elapse_elapse`: time can pass in parts.
* `asides_transparent`: a session with lines that are put in, and the session without them.
-/

namespace StagePlay

open scoped Json.FastRounding

/-! ## Lines that are put in -/

/-- A request that changes nothing, and is answered at once. -/
def Console.Request.looks : Console.Request → Bool
  | .help | .echo _ | .actors | .palette | .script | .status => true
  | _ => false

/-- A blank line, a comment, a line that is refused, or one that only looks. -/
def Console.looksOnly (text : String) : Bool :=
  match Console.Registry.builtin.line text with
  | .empty | .refused _ => true
  | .request r => r.looks

/-- A part of a session: a line, some time, or a line that is put in, for which no time passes. -/
inductive Passage where
  | line (files : Files) (text : String)
  | time (ms : Nat)
  | aside (files : Files) (text : String) (looks : Console.looksOnly text = true)

namespace Passage

/-- Time that passes between two lines, if any does. -/
def waits (ms : Nat) : List Input := if ms = 0 then [] else [.pause ms]

def inputs : Passage → List Input
  | .line files text => [.line files text]
  | .time ms => waits ms
  | .aside files text _ => [.line files text]

/-- Without a line that is put in. -/
def kept : Passage → List Input
  | .aside _ _ _ => []
  | p => p.inputs

/-- The session without the lines that are put in, after some time since the last line. What passes
    before and after a line that is put in is one time. -/
def plain (elapsed : Nat) : List Passage → List Input
  | [] => waits elapsed
  | .line files text :: rest => waits elapsed ++ .line files text :: plain 0 rest
  | .time ms :: rest => plain (elapsed + ms) rest
  | .aside _ _ _ :: rest => plain elapsed rest

end Passage

/-- Time that does pass, or a line. -/
def Input.Lasts : Input → Prop
  | .line _ _ => True
  | .pause ms => ms ≠ 0

theorem Passage.lasts_kept (p : Passage) : ∀ input ∈ p.kept, input.Lasts := by
  cases p with
  | line files text => exact List.forall_mem_singleton.mpr trivial
  | aside files text looks => exact List.forall_mem_nil _
  | time ms =>
    show ∀ input ∈ waits ms, input.Lasts
    unfold waits
    split
    · exact List.forall_mem_nil _
    · rename_i h
      exact List.forall_mem_singleton.mpr h

theorem Passage.lasts_flatMap (passages : List Passage) :
    ∀ input ∈ passages.flatMap kept, input.Lasts := by
  intro input hinput
  obtain ⟨p, -, hinput⟩ := List.mem_flatMap.mp hinput
  exact p.lasts_kept input hinput

namespace Polled

/-- What has happened before is not looked at. -/
theorem until_heard (limit : Option Nat) (p : Polled) (es : List Event) :
    Polled.until limit { p with events := p.events ++ es } =
      { p.until limit with events := (p.until limit).events ++ es } := by
  fun_induction Polled.until limit p with
  | case1 p r h =>
    rw [Polled.until]
    split
    · rfl
    · simp_all
  | case2 p h hlimit =>
    rw [Polled.until]
    split
    · rfl
    · rw [if_pos hlimit]
  | case3 p h hlimit ih =>
    have hnext : next { p with events := p.events ++ es } =
        { p.next with events := p.next.events ++ es } := by simp [next]
    rw [Polled.until]
    split
    · simp_all
    · rw [if_neg hlimit, hnext, ih]

/-- Polls up to a limit, and then up to a later one. -/
theorem until_until {limit later : Nat} (hle : limit ≤ later) (p : Polled) :
    Polled.until (some later) (p.until (some limit)) = p.until (some later) := by
  fun_induction Polled.until (some limit) p with
  | case1 p r h => rfl
  | case2 p h hlimit => rfl
  | case3 p h hlimit ih =>
    rw [ih]
    conv_rhs => rw [Polled.until]
    split
    · simp_all
    · rw [if_neg]
      simp only [Option.any_some, decide_eq_true_eq] at hlimit ⊢
      omega

end Polled

namespace Session

variable {s : Session}

/-! ## Room and reports -/

def atRoom (s : Session) (n : Nat) : Session := { s with room := n }

theorem assign_atRoom (s : Session) (n : Nat) (script : Script) :
    (s.atRoom n).assign script = (s.assign script).map fun reply =>
      { reply with session := reply.session.atRoom n } := by
  simp only [assign, chosen, atRoom]
  cases s.playback.selected with
  | none => rfl
  | some id =>
    simp only [bind, Except.bind]
    cases s.playback.stage.assign id script <;> rfl

theorem answer_atRoom (files : Files) (s : Session) (n : Nat) {request : Console.Request}
    (hwait : request ≠ .wait) :
    (s.atRoom n).answer files request = (s.answer files request).map fun reply =>
      { reply with session := reply.session.atRoom n } := by
  cases request with
  | help | echo text | quit | actors | addActor name | palette | status => rfl
  | removeActor id =>
    simp only [answer, atRoom]
    cases s.playback.removeActor? id <;> rfl
  | select id =>
    simp only [answer, atRoom]
    cases s.playback.select? id <;> rfl
  | place id x y =>
    simp only [answer, atRoom]
    cases s.playback.stage.place? id ⟨x, y⟩ <;> rfl
  | setPalette slot field value =>
    simp only [answer, atRoom]
    cases s.palette.setField slot field value with
    | error e => rfl
    | ok palette =>
      simp only [Except.mapError, bind, Except.bind]
      cases palette.block slot <;> rfl
  | drag slot =>
    simp only [answer, chosen, atRoom]
    cases s.playback.selected with
    | none => rfl
    | some id =>
      simp only [bind, Except.bind]
      cases s.palette.block slot with
      | error e => rfl
      | ok c =>
        simp only [Except.mapError]
        cases s.playback.stage.append id c <;> rfl
  | drop index =>
    simp only [answer, chosen, atRoom]
    cases s.playback.selected with
    | none => rfl
    | some id =>
      simp only [bind, Except.bind]
      cases s.playback.stage.removeBlock id index <;> rfl
  | setBlock index field value =>
    simp only [answer, chosen, atRoom]
    cases s.playback.selected with
    | none => rfl
    | some id =>
      simp only [bind, Except.bind]
      cases s.playback.stage.setBlockField id index field value <;> rfl
  | script =>
    simp only [answer, chosen, atRoom]
    cases s.playback.selected with
    | none => rfl
    | some id =>
      simp only [bind, Except.bind]
      cases s.playback.stage.script? id <;> rfl
  | assign json =>
    simp only [answer]
    cases Script.parse json with
    | error e => rfl
    | ok script => exact assign_atRoom s n script
  | load path =>
    simp only [answer]
    cases Script.load files path with
    | error e => rfl
    | ok script => exact assign_atRoom s n script
  | play =>
    simp only [answer, play, busy?, chosen, atRoom]
    cases s.playback.active <|> (s.run.filter fun r => r.play.result?.isNone).map (·.actor) with
    | some active => rfl
    | none =>
      cases s.playback.selected with
      | none => rfl
      | some id =>
        by_cases there : s.playback.stage.contains id = true <;>
          simp [bind, Except.bind, pure, Except.pure, Except.map, there]
  | wait => exact absurd rfl hwait

/-- A request is answered the same in a turn with any room. -/
theorem reply_atRoom (files : Files) (s : Session) (n : Nat) (request : Console.Request) :
    ∃ m, (s.atRoom n).reply files request =
      { s.reply files request with session := (s.reply files request).session.atRoom m } := by
  by_cases hwait : request = .wait
  · subst hwait
    cases hr : s.run with
    | none =>
      refine ⟨n, ?_⟩
      simp [reply, answer, wait, atRoom, hr, say]
    | some r =>
      -- a turn that waits for a play takes what it needs
      refine ⟨turnRoom - 1, ?_⟩
      simp [reply, answer, wait, await, atRoom, hr]
  · refine ⟨n, ?_⟩
    unfold reply
    rw [answer_atRoom files s n hwait]
    cases s.answer files request <;> rfl

/-- A session without a play that has ended, and with no room. -/
def bare (s : Session) : Session :=
  { s with run := s.run.filter (·.play.result?.isNone), room := 0 }

/-- The report of a play that has ended. -/
def owed (s : Session) : List String := s.run.toList.flatMap report

theorem reap_snd (s : Session) : s.reap.2 = s.owed := by
  unfold reap owed
  cases hr : s.run with
  | none => rfl
  | some r => cases hended : r.play.result? <;> simp [report, hended]

/-- A session that has reported what it owes is bare, but for its room. -/
theorem reap_fst (s : Session) : s.reap.1 = s.bare.atRoom s.reap.1.room := by
  obtain ⟨now, pb, palette, run, room⟩ := s
  cases run with
  | none => rfl
  | some r =>
    cases hended : r.play.result? <;> simp [reap, bare, atRoom, spend, Option.filter, hended]

theorem bare_atRoom (s : Session) (n : Nat) : (s.atRoom n).bare = s.bare := rfl

theorem owed_atRoom (s : Session) (n : Nat) : (s.atRoom n).owed = s.owed := rfl

theorem bare_bare (s : Session) : s.bare.bare = s.bare := by
  simp [bare, Option.filter_filter]

theorem owed_bare (s : Session) : s.bare.owed = [] := by
  cases hr : s.run with
  | none => simp [owed, bare, hr]
  | some r => simp [owed, bare, report, hr]

theorem bare_reap (s : Session) : s.reap.1.bare = s.bare := by
  rw [reap_fst, bare_atRoom, bare_bare]

theorem owed_reap (s : Session) : s.reap.1.owed = [] := by
  rw [reap_fst, owed_atRoom, owed_bare]

/-- A session with no play that has ended. -/
theorem owed_of_open (h : ∀ r, s.run = some r → r.play.result? = none) : s.owed = [] := by
  cases hr : s.run with
  | none => simp [owed, hr]
  | some r => simp [owed, report, hr, h r hr]

/-! ## One input -/

def replyLine (files : Files) (s : Session) : Console.Line → Reply
  | .empty => s.say []
  | .refused e => s.say [e.message]
  | .request request => s.reply files request

theorem handle_eq (files : Files) (s : Session) (text : String) :
    s.handle files text =
      { s.reap.1.replyLine files (Console.Registry.builtin.line text) with
        lines := s.owed ++
          (s.reap.1.replyLine files (Console.Registry.builtin.line text)).lines } := by
  rw [← reap_snd]
  unfold handle
  cases Console.Registry.builtin.line text <;> rfl

theorem replyLine_atRoom (files : Files) (s : Session) (n : Nat) (line : Console.Line) :
    ∃ m, (s.atRoom n).replyLine files line =
      { s.replyLine files line with session := (s.replyLine files line).session.atRoom m } := by
  cases line with
  | empty => exact ⟨n, rfl⟩
  | refused e => exact ⟨n, rfl⟩
  | request request => exact reply_atRoom files s n request

/-- The answer to a line leaves no play that has ended. -/
theorem owed_handle (files : Files) (s : Session) (text : String) :
    (s.handle files text).session.owed = [] := by
  apply owed_of_open
  intro r hr
  rw [handle_eq] at hr
  cases hline : Console.Registry.builtin.line text with
  | empty =>
    rw [hline] at hr
    exact run_reap hr
  | refused e =>
    rw [hline] at hr
    exact run_reap hr
  | request request =>
    rw [hline] at hr
    rcases reply_run _ files request hr with ⟨hnew, -⟩ | ⟨hheld, -⟩
    · rw [hnew]
      rfl
    · exact run_reap hheld

/-- Two replies, of which the first begins with these lines. -/
structure Reply.Besides (lines : List String) (reply reply' : Reply) : Prop where
  lines_eq : reply.lines ++ reply.session.owed = lines ++ (reply'.lines ++ reply'.session.owed)
  events_eq : reply.events = reply'.events
  bare_eq : reply.session.bare = reply'.session.bare

theorem handle_bare (files : Files) (s : Session) (text : String) :
    Reply.Besides s.owed (s.handle files text) (s.bare.handle files text) := by
  have hfirst := reap_fst s.bare
  rw [bare_bare] at hfirst
  let line := Console.Registry.builtin.line text
  obtain ⟨m, hm⟩ := replyLine_atRoom files s.bare s.reap.1.room line
  obtain ⟨m', hm'⟩ := replyLine_atRoom files s.bare s.bare.reap.1.room line
  rw [← reap_fst] at hm
  rw [← hfirst] at hm'
  refine ⟨?_, ?_, ?_⟩
  · rw [owed_handle, owed_handle, handle_eq, handle_eq, hm, hm', owed_bare]
    simp only [List.nil_append, List.append_nil]
  · rw [handle_eq, handle_eq, hm, hm']
  · rw [handle_eq, handle_eq, hm, hm']
    rfl

/-- A session that owes nothing is bare, but for its room; one that does holds a play that has
    ended. -/
theorem bare_or_ended (s : Session) : (s.owed = [] ∧ s.bare = s.atRoom 0) ∨
    ∃ r, s.run = some r ∧ r.play.result?.isSome = true ∧ s.owed = report r ∧
      s.bare = { s with run := none, room := 0 } := by
  cases hr : s.run with
  | none => exact .inl ⟨by simp [owed, hr], by simp [bare, atRoom, hr]⟩
  | some r =>
    cases hended : r.play.result? with
    | some result =>
      exact .inr ⟨r, rfl, by rw [hended]; rfl, by simp [owed, hr],
        by simp [bare, hr, hended, Option.filter]⟩
    | none =>
      exact .inl ⟨by simp [owed, hr, report, hended],
        by simp [bare, atRoom, hr, hended, Option.filter]⟩

theorem take_pause_atRoom (s : Session) (n : Nat) {ms : Nat} (hms : ms ≠ 0) :
    (s.atRoom n).take (.pause ms) = s.take (.pause ms) := by
  simp only [take, elapse, if_neg hms]
  rfl

/-- Time passes for a play in a turn with any room, and for one that has ended in vain. -/
theorem pause_bare (s : Session) {ms : Nat} (hms : ms ≠ 0) :
    Reply.Besides s.owed (s.take (.pause ms)) (s.bare.take (.pause ms)) := by
  rcases s.bare_or_ended with ⟨howed, hbare⟩ | ⟨r, hr, hended, howed, hbare⟩
  · rw [howed, hbare, take_pause_atRoom s 0 hms]
    exact ⟨rfl, rfl, rfl⟩
  · have huntil := Polled.until_of_ended (p := ⟨s.playback, r, []⟩) hended (some (s.now + ms))
    simp only [take, elapse, if_neg hms, hbare, hr, huntil, afterPolls]
    refine ⟨?_, rfl, ?_⟩
    · simp [owed, hr]
    · simp [bare, Option.filter, Option.isSome_iff_ne_none.mp hended]

/-- The end of a session, which waits for the play that is held. -/
theorem finish_bare (s : Session) :
    s.finish.lines = s.owed ++ s.bare.finish.lines ∧ s.finish.events = s.bare.finish.events ∧
      s.finish.session.playback = s.bare.finish.session.playback ∧
      s.finish.session.palette = s.bare.finish.session.palette := by
  rcases s.bare_or_ended with ⟨howed, hbare⟩ | ⟨r, hr, hended, howed, hbare⟩
  · rw [howed, hbare]
    cases hr : s.run with
    | none => simp [finish, atRoom, hr, say]
    | some r => simp [finish, atRoom, hr, wait, await]
  · have huntil := Polled.until_of_ended (p := ⟨s.playback, r, []⟩) hended none
    simp [finish, wait, await, hr, hbare, howed, huntil, say]

/-- **What a session owes comes first**, and is all that it makes of a difference whether it has
    been reported. -/
theorem take_bare (s : Session) {input : Input} (h : input.Lasts) :
    Reply.Besides s.owed (s.take input) (s.bare.take input) := by
  cases input with
  | line files text => exact handle_bare files s text
  | pause ms => exact pause_bare s h

/-! ## A whole session -/

/-- What is known of a session when it has ended: what it has printed, what has happened, and what
    is left. -/
structure Summary where
  printed : List String
  events : List Event
  stage : Stage
  palette : Palette
  selected : Option ActorId

/-- What has been printed and has happened before comes first. -/
def Summary.after (r : Summary) (lines : List String) (events : List Event) : Summary :=
  { r with printed := lines ++ r.printed, events := events ++ r.events }

def summary (s : Session) (inputs : List Input) : Summary where
  printed := s.printed inputs
  events := s.happened inputs ++ (s.takeAll inputs).finish.events
  stage := (s.closed inputs).playback.stage
  palette := (s.closed inputs).palette
  selected := (s.closed inputs).playback.selected

theorem summary_cons (s : Session) (input : Input) (rest : List Input) :
    s.summary (input :: rest) =
      ((s.take input).session.summary rest).after (s.take input).lines (s.take input).events := by
  simp only [summary, Summary.after, printed, happened, closed, takeAll, List.foldl_cons,
    List.append_assoc]

theorem after_after (r : Summary) (lines lines' : List String) (events events' : List Event) :
    (r.after lines' events').after lines events =
      r.after (lines ++ lines') (events ++ events') := by
  simp only [Summary.after, List.append_assoc]

/-- One input, if a session that takes the others prints what it owes first. -/
theorem summary_step (s : Session) {input : Input} (h : input.Lasts) {rest : List Input}
    (hrest : ∀ t : Session, t.summary rest = (t.bare.summary rest).after t.owed []) :
    ((s.take input).session.bare.summary rest).after
        ((s.take input).lines ++ (s.take input).session.owed) (s.take input).events =
      (s.bare.summary (input :: rest)).after s.owed [] := by
  obtain ⟨hlines, hevents, hbare⟩ := take_bare s h
  rw [summary_cons, hrest (s.bare.take input).session, after_after, after_after, hlines, hevents,
    hbare, List.append_nil, List.nil_append, List.append_assoc]

/-- A session prints what it owes, and goes on as if it had been reported before. -/
theorem summary_bare (s : Session) {inputs : List Input} (h : ∀ input ∈ inputs, input.Lasts) :
    s.summary inputs = (s.bare.summary inputs).after s.owed [] := by
  induction inputs generalizing s with
  | nil =>
    obtain ⟨hlines, hevents, hplayback, hpalette⟩ := s.finish_bare
    simp only [summary, Summary.after, printed, happened, closed, takeAll, List.foldl_nil, hlines,
      hevents, hplayback, hpalette, List.nil_append]
  | cons input rest ih =>
    obtain ⟨hinput, hrest⟩ := List.forall_mem_cons.mp h
    rw [summary_cons, ih _ hrest, after_after, List.append_nil]
    exact summary_step s hinput fun t => ih t hrest

/-! ## Time in parts -/

/-- Time can pass in parts. -/
theorem elapse_elapse (s : Session) {a b : Nat} (ha : a ≠ 0) (hb : b ≠ 0) :
    ((s.elapse a).1.elapse b).1 = (s.elapse (a + b)).1 ∧
      (s.elapse (a + b)).2 = (s.elapse a).2 ++ ((s.elapse a).1.elapse b).2 := by
  have hab : a + b ≠ 0 := by omega
  cases hr : s.run with
  | none => simp [elapse, ha, hb, hr, Nat.add_assoc]
  | some r =>
    let p := Polled.until (some (s.now + a)) ⟨s.playback, r, []⟩
    let q := Polled.until (some (s.now + (a + b))) ⟨p.playback, p.inFlight, []⟩
    have hlater : Polled.until (some (s.now + (a + b))) ⟨s.playback, r, []⟩
        = { q with events := q.events ++ p.events } := by
      rw [← Polled.until_until (show s.now + a ≤ s.now + (a + b) by omega)]
      exact Polled.until_heard _ ⟨p.playback, p.inFlight, []⟩ p.events
    simp only [elapse, if_neg ha, if_neg hb, if_neg hab, hr, afterPolls, hlater, Nat.add_assoc]
    exact ⟨rfl, List.reverse_append⟩

theorem summary_pauses (s : Session) {a b : Nat} (ha : a ≠ 0) (hb : b ≠ 0) (rest : List Input) :
    s.summary (.pause a :: .pause b :: rest) = s.summary (.pause (a + b) :: rest) := by
  obtain ⟨hsession, hevents⟩ := elapse_elapse s ha hb
  rw [summary_cons, summary_cons, summary_cons, after_after]
  simp only [take, hsession, hevents, List.append_nil]

theorem summary_waits (s : Session) (a b : Nat) (rest : List Input) :
    s.summary (Passage.waits a ++ (Passage.waits b ++ rest)) =
      s.summary (Passage.waits (a + b) ++ rest) := by
  by_cases ha : a = 0
  · rw [ha, Nat.zero_add]
    rfl
  by_cases hb : b = 0
  · rw [hb, Nat.add_zero]
    rfl
  simp only [Passage.waits, ha, hb, Nat.add_eq_zero_iff, false_and, ↓reduceIte,
    List.singleton_append]
  exact summary_pauses s ha hb rest

theorem summary_append {xs ys : List Input} (h : ∀ s : Session, s.summary xs = s.summary ys)
    (earlier : List Input) (s : Session) :
    s.summary (earlier ++ xs) = s.summary (earlier ++ ys) := by
  induction earlier generalizing s with
  | nil => exact h s
  | cons input rest ih => rw [List.cons_append, List.cons_append, summary_cons, summary_cons, ih]

/-- The times before and after a line that is left out are one time. -/
theorem summary_plain (passages : List Passage) (elapsed : Nat) (s : Session) :
    s.summary (Passage.waits elapsed ++ passages.flatMap Passage.kept) =
      s.summary (Passage.plain elapsed passages) := by
  induction passages generalizing elapsed s with
  | nil => rw [List.flatMap_nil, List.append_nil, Passage.plain]
  | cons p rest ih =>
    rw [List.flatMap_cons]
    cases p with
    | line files text =>
      refine summary_append (fun s => ?_) _ s
      exact summary_append (fun s => ih 0 s) [.line files text] s
    | time ms => exact (summary_waits s elapsed ms _).trans (ih _ s)
    | aside files text looks => exact ih elapsed s

/-! ## Lines that are put in -/

/-- What a session prints but for the answers to the lines that are put in: such a line still may
    report the end of a play. -/
def printedBeside (s : Session) : List Passage → List String
  | [] => s.finish.lines
  | .line files text :: rest =>
    (s.take (.line files text)).lines ++ (s.take (.line files text)).session.printedBeside rest
  | .time ms :: rest => (s.takeAll (Passage.waits ms)).printedBeside rest
  | .aside files text _ :: rest =>
    ((s.told (.line files text)).filterMap Notice.settled?).flatMap report ++
      (s.take (.line files text)).session.printedBeside rest

/-- The summary of a session with lines that are put in, but for the answers to them. -/
def summaryBeside (s : Session) (passages : List Passage) : Summary :=
  { s.summary (passages.flatMap Passage.inputs) with printed := s.printedBeside passages }

theorem reply_looks (files : Files) (s : Session) {request : Console.Request}
    (h : request.looks = true) :
    (s.reply files request).session = s ∧ (s.reply files request).events = [] := by
  cases request with
  | help | echo text | actors | palette | status => exact ⟨rfl, rfl⟩
  | script =>
    simp only [reply, answer, chosen]
    cases s.playback.selected with
    | none => exact ⟨rfl, rfl⟩
    | some id =>
      simp only [bind, Except.bind]
      cases s.playback.stage.script? id <;> exact ⟨rfl, rfl⟩
  | quit | addActor | removeActor | select | place | setPalette | drag | drop | setBlock | assign
    | load | play | wait => cases h

/-- A line that only looks reports what is owed, and does nothing else. -/
theorem take_aside (files : Files) (s : Session) {text : String}
    (looks : Console.looksOnly text = true) :
    (s.take (.line files text)).session = s.reap.1 ∧ (s.take (.line files text)).events = [] ∧
      ((s.told (.line files text)).filterMap Notice.settled?).flatMap report = s.owed := by
  have hreaped : (s.reaped.filterMap Notice.settled?).flatMap report = s.owed := by
    unfold reaped owed
    cases hr : s.run with
    | none => rfl
    | some r => cases hended : r.play.result? <;> simp [report, Notice.settled?, hended]
  simp only [take, handle_eq, told, List.filterMap_append, List.flatMap_append, hreaped]
  unfold Console.looksOnly at looks
  cases hline : Console.Registry.builtin.line text with
  | empty => exact ⟨rfl, rfl, List.append_nil _⟩
  | refused e => exact ⟨rfl, rfl, List.append_nil _⟩
  | request request =>
    rw [hline] at looks
    obtain ⟨hsession, hevents⟩ := reply_looks files s.reap.1 looks
    have hwait : request ≠ .wait := by
      rintro rfl
      cases looks
    rw [settled_answered files _ hwait]
    exact ⟨hsession, hevents, List.append_nil _⟩

theorem summaryBeside_cons (s : Session) {input : Input} {p : Passage} (hp : p.inputs = [input])
    (rest : List Passage) {lines : List String}
    (hprinted : s.printedBeside (p :: rest) =
      lines ++ (s.take input).session.printedBeside rest) :
    s.summaryBeside (p :: rest) =
      ((s.take input).session.summaryBeside rest).after lines (s.take input).events := by
  simp only [summaryBeside, hprinted, List.flatMap_cons, hp, List.singleton_append, summary_cons]
  rfl

theorem summaryBeside_bare (s : Session) (passages : List Passage) :
    s.summaryBeside passages =
      (s.bare.summary (passages.flatMap Passage.kept)).after s.owed [] := by
  induction passages generalizing s with
  | nil => exact summary_bare s (List.forall_mem_nil _)
  | cons p rest ih =>
    have hrest (t : Session) := summary_bare t (Passage.lasts_flatMap rest)
    rw [List.flatMap_cons]
    cases p with
    | line files text =>
      rw [summaryBeside_cons s (p := .line files text) rfl rest rfl, ih, after_after,
        List.append_nil]
      have hlasts : (Input.line files text).Lasts := trivial
      exact summary_step s hlasts hrest
    | time ms =>
      by_cases hms : ms = 0
      · subst hms
        exact ih s
      · have hwaits : Passage.waits ms = [.pause ms] := if_neg hms
        have hprinted : s.printedBeside (.time ms :: rest) =
            [] ++ (s.take (.pause ms)).session.printedBeside rest := by
          rw [printedBeside, hwaits]
          rfl
        rw [summaryBeside_cons s (p := .time ms) hwaits rest hprinted, ih, after_after,
          List.append_nil]
        show _ = (s.bare.summary (Passage.waits ms ++ _)).after _ _
        rw [hwaits]
        have hlasts : (Input.pause ms).Lasts := hms
        exact summary_step s hlasts hrest
    | aside files text looks =>
      obtain ⟨hsession, hevents, hreports⟩ := take_aside files s looks
      rw [summaryBeside_cons s (p := .aside files text looks) rfl rest rfl, hreports, hevents, ih,
        hsession, after_after, owed_reap, bare_reap, List.append_nil]
      rfl

/-- **Lines that only look are transparent.** A session is given lines, with times between them, and
ends. Blank lines, comments, refused lines and lines that only look can be put in anywhere before
its end, also into the middle of a time. But for the answers to these, it prints the same lines in
the same order, reports of plays included, whichever line comes to report them; the same happens;
and the stage, the palette and the selection are the same in the end. -/
theorem asides_transparent (s : Session) (passages : List Passage) :
    s.summaryBeside passages = s.summary (Passage.plain 0 passages) := by
  have hkept := summary_bare s (Passage.lasts_flatMap passages)
  rw [summaryBeside_bare, ← hkept]
  exact summary_plain passages 0 s

end Session

end StagePlay
