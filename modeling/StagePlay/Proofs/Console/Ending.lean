import StagePlay.Console.Transcript
import StagePlay.Proofs.Console.Cancellation
import StagePlay.Settings.Environment

/-!
# StagePlay.Proofs.Console.Ending

How a program ends, and what it owes then.

A program reads the lines of its input one by one, and time passes before each of them. It ends
after a line that asks to quit, or with the last line, and waits for the play under way. A line that
cannot be decoded breaks it off, and it waits for nothing.

* `transcript_eq_arrived`: a transcript is a program to which everything arrives at once.
* `flow_handle`: only a request to quit ends a session.
* `arrived_eq`: what a program prints, in the notices of its session.
* `reported_unless_broken_off`: a play goes without a report only if the program is broken off.
-/

namespace StagePlay

open Relation (ReflTransGen)
open InFlight (Polls SettledBy)

namespace Console

/-- A line that arrives after some waits, with the files as they are then. -/
structure Arrival where
  waits : List Nat
  files : Files
  line : List UInt8

def quits (text : String) : Bool :=
  match Registry.builtin.line text with
  | .request .quit => true
  | _ => false

/-- The rest of a program to which these lines arrive, and then, after some waits, the end of the
    input. -/
def arrived (ending : List Nat) (s : Session) : List Arrival → Transcript
  | [] => ⟨(s.takeAll (ending.map .pause)).finish.lines, true⟩
  | a :: rest =>
    let s := s.takeAll (a.waits.map .pause)
    match decode? a.line with
    | none => ⟨[], false⟩
    | some text =>
      let reply := s.handle a.files text
      match reply.flow with
      | .quit => Transcript.after ⟨reply.session.finish.lines, true⟩ reply.lines
      | .proceed => (arrived ending reply.session rest).after reply.lines

/-- What a session is given of these lines before the program ends. -/
def heeded (ending : List Nat) : List Arrival → List Input
  | [] => ending.map .pause
  | a :: rest =>
    a.waits.map .pause ++
      match decode? a.line with
      | none => []
      | some text => .line a.files text :: if quits text then [] else heeded ending rest

/-- A line that cannot be decoded comes before any that asks to quit. -/
def breaksOff : List (List UInt8) → Bool
  | [] => false
  | line :: rest =>
    match decode? line with
    | none => true
    | some text => !quits text && breaksOff rest

theorem breaksOff_iff (lines : List (List UInt8)) :
    breaksOff lines = true ↔ ∃ before line after, lines = before ++ line :: after ∧
      decode? line = none ∧ ∀ l ∈ before, ∃ text, decode? l = some text ∧ quits text = false := by
  induction lines with
  | nil => simp [breaksOff]
  | cons line rest ih =>
    rw [breaksOff]
    constructor
    · intro h
      cases hline : decode? line with
      | none => exact ⟨[], line, rest, rfl, hline, fun _ hl => nomatch hl⟩
      | some text =>
        rw [hline] at h
        simp only [Bool.and_eq_true, Bool.not_eq_true'] at h
        obtain ⟨before, broken, after, rfl, hbroken, hbefore⟩ := ih.mp h.2
        refine ⟨line :: before, broken, after, rfl, hbroken, fun l hl => ?_⟩
        rcases List.mem_cons.mp hl with rfl | hl
        · exact ⟨text, hline, h.1⟩
        · exact hbefore l hl
    · rintro ⟨before, broken, after, hlines, hbroken, hbefore⟩
      cases before with
      | nil =>
        obtain ⟨rfl, -⟩ := List.cons_eq_cons.mp hlines
        rw [hbroken]
      | cons first before =>
        obtain ⟨rfl, hrest⟩ := List.cons_eq_cons.mp hlines
        obtain ⟨text, htext, hquits⟩ := hbefore line List.mem_cons_self
        rw [htext]
        simp only [hquits, Bool.not_false, Bool.true_and]
        exact ih.mpr ⟨before, broken, after, hrest, hbroken, fun l hl =>
          hbefore l (List.mem_cons_of_mem line hl)⟩

theorem transcriptFrom_eq_arrived (files : Files) (s : Session) (lines : List (List UInt8)) :
    transcriptFrom files s lines = arrived [] s (lines.map fun line => ⟨[], files, line⟩) := by
  induction lines generalizing s with
  | nil => rfl
  | cons line rest ih =>
    simp only [List.map_cons, transcriptFrom, arrived, ih]
    rfl

theorem transcript_eq_arrived (settings : Settings) (files : Files) (input : List UInt8) :
    transcript settings files input = arrived [] (Session.initial settings).1
      ((linesFrom [] input).map fun line => ⟨[], files, line⟩) :=
  transcriptFrom_eq_arrived files _ _

end Console

namespace Session

variable {s : Session}

theorem flow_assign {script : Script} {reply : Reply} (h : s.assign script = .ok reply) :
    reply.flow = .proceed := by
  obtain ⟨id, -, h⟩ := exists_of_bind h
  obtain ⟨stage, -, h⟩ := exists_of_bind h
  cases h
  rfl

/-- Only one request ends a session. -/
theorem flow_answer {files : Files} {request : Console.Request} {reply : Reply}
    (h : s.answer files request = .ok reply) (hquit : request ≠ .quit) :
    reply.flow = .proceed := by
  cases request with
  | quit => exact absurd rfl hquit
  | help | echo text | actors | addActor name | palette | status =>
    cases h
    rfl
  | removeActor id =>
    simp only [answer] at h
    split at h <;> cases h
    rfl
  | select id =>
    simp only [answer] at h
    split at h <;> cases h
    rfl
  | place id x y =>
    simp only [answer] at h
    split at h <;> cases h
    rfl
  | setPalette slot field value =>
    obtain ⟨palette, -, h⟩ := exists_of_bind h
    obtain ⟨c, -, h⟩ := exists_of_bind h
    cases h
    rfl
  | drag slot =>
    obtain ⟨id, -, h⟩ := exists_of_bind h
    obtain ⟨c, -, h⟩ := exists_of_bind h
    obtain ⟨⟨stage, index⟩, -, h⟩ := exists_of_bind h
    cases h
    rfl
  | drop index =>
    obtain ⟨id, -, h⟩ := exists_of_bind h
    obtain ⟨⟨stage, c⟩, -, h⟩ := exists_of_bind h
    cases h
    rfl
  | setBlock index field value =>
    obtain ⟨id, -, h⟩ := exists_of_bind h
    obtain ⟨stage, -, h⟩ := exists_of_bind h
    cases h
    rfl
  | script =>
    obtain ⟨id, -, h⟩ := exists_of_bind h
    split at h <;> cases h
    rfl
  | assign json =>
    obtain ⟨script, -, h⟩ := exists_of_bind h
    exact flow_assign h
  | load path =>
    obtain ⟨script, -, h⟩ := exists_of_bind h
    exact flow_assign h
  | play =>
    simp only [answer, play] at h
    split at h
    · cases h
    · obtain ⟨id, -, h⟩ := exists_of_bind h
      split at h <;> cases h
      rfl
  | wait =>
    cases h
    unfold wait
    split <;> rfl

theorem flow_handle (files : Files) (s : Session) (text : String) :
    (s.handle files text).flow = if Console.quits text then .quit else .proceed := by
  unfold handle Console.quits
  cases Console.Registry.builtin.line text with
  | empty => rfl
  | refused e => rfl
  | request request =>
    by_cases hquit : request = .quit
    · subst hquit
      rfl
    · have hflow : (s.reap.1.reply files request).flow = .proceed := by
        unfold reply
        split
        · rename_i answer hanswer
          exact flow_answer hanswer hquit
        · rfl
      refine hflow.trans ?_
      cases request <;> first | rfl | contradiction

theorem toldAll_pauses (s : Session) (waits : List Nat) : s.toldAll (waits.map .pause) = [] := by
  induction waits generalizing s with
  | nil => rfl
  | cons ms rest ih => exact ih _

/-- What is printed, as notices. -/
def noticed (s : Session) (ending : List Nat) (arrivals : List Console.Arrival) : List Notice :=
  if Console.breaksOff (arrivals.map (·.line)) then s.toldAll (Console.heeded ending arrivals)
  else s.account (Console.heeded ending arrivals)

section Noticed

variable {ending : List Nat} {a : Console.Arrival} {rest : List Console.Arrival} {text : String}

theorem noticed_nil (ending : List Nat) (s : Session) :
    s.noticed ending [] = (s.takeAll (ending.map .pause)).awaited := by
  have h := s.account_append (ending.map .pause) []
  rw [List.append_nil, toldAll_pauses] at h
  exact h

theorem noticed_of_none (h : Console.decode? a.line = none) :
    s.noticed ending (a :: rest) = [] := by
  simp [noticed, Console.breaksOff, Console.heeded, h, toldAll_pauses]

theorem noticed_of_quits (h : Console.decode? a.line = some text)
    (hquits : Console.quits text = true) :
    let s' := s.takeAll (a.waits.map .pause)
    s.noticed ending (a :: rest) =
      s'.told (.line a.files text) ++ (s'.take (.line a.files text)).session.awaited := by
  simp [noticed, Console.breaksOff, Console.heeded, h, hquits, account_append, toldAll_pauses,
    account]

theorem noticed_of_goes (h : Console.decode? a.line = some text)
    (hquits : Console.quits text = false) :
    let s' := s.takeAll (a.waits.map .pause)
    s.noticed ending (a :: rest) =
      s'.told (.line a.files text) ++
        (s'.take (.line a.files text)).session.noticed ending rest := by
  simp only [noticed, List.map_cons, Console.breaksOff, Console.heeded, h, hquits, account_append,
    toldAll_append, toldAll_pauses, account, toldAll, Bool.not_false, Bool.true_and,
    Bool.false_eq_true, ↓reduceIte, List.nil_append]
  split <;> rfl

end Noticed

theorem arrived_eq (ending : List Nat) (s : Session) (arrivals : List Console.Arrival) :
    Console.arrived ending s arrivals = ⟨(s.noticed ending arrivals).flatMap Notice.lines,
      !Console.breaksOff (arrivals.map (·.line))⟩ := by
  induction arrivals generalizing s with
  | nil =>
    rw [noticed_nil, lines_awaited]
    rfl
  | cons a rest ih =>
    rw [List.map_cons, Console.arrived, Console.breaksOff]
    cases htext : Console.decode? a.line with
    | none =>
      rw [noticed_of_none htext]
      rfl
    | some text =>
      have hflow := flow_handle a.files (s.takeAll (a.waits.map .pause)) text
      have htold := lines_told (s.takeAll (a.waits.map .pause)) (.line a.files text)
      simp only [take] at htold
      cases hquits : Console.quits text with
      | true =>
        rw [hquits, if_pos rfl] at hflow
        simp only [noticed_of_quits htext hquits, hflow, hquits, List.flatMap_append, lines_awaited,
          htold]
        rfl
      | false =>
        rw [hquits, if_neg Bool.false_ne_true] at hflow
        simp only [noticed_of_goes htext hquits, hflow, hquits, List.flatMap_append, htold, ih]
        rfl

end Session

namespace Console

/-- **Which play goes without a report.** A program is given any bytes as its input, in any
environment, and its lines arrive one by one, with whatever time between them. All that it prints is
told by its notices, and no report comes before its play. If the program comes to its regular end,
after a line that asks to quit or at the end of the input, the plays that it has accepted and the
reports that it has printed come in pairs, in the same order. It does not come to a regular end
exactly if a line that is not UTF-8 comes before any that asks to quit. Then the play that is under
way when this line arrives, if there is one, is the last that was accepted, and nothing is printed
of its end; all plays before it have been reported. -/
theorem reported_unless_broken_off (env : Environment) {input : List UInt8}
    {arrivals : List Arrival} (ending : List Nat)
    (harrivals : arrivals.map (·.line) = linesFrom [] input) :
    let s := (Session.initial env.settings.1).1
    let t := arrived ending s arrivals
    let log := s.noticed ending arrivals
    t.lines = log.flatMap Notice.lines ∧
    (∀ n, ((log.take n).filterMap Notice.settled?).length ≤
        ((log.take n).filterMap Notice.accepted?).length ∧
      ((log.take n).filterMap Notice.accepted?).length ≤
        ((log.take n).filterMap Notice.settled?).length + 1) ∧
    (t.completed = false ↔ ∃ before line after, linesFrom [] input = before ++ line :: after ∧
      decode? line = none ∧
      ∀ l ∈ before, ∃ text, decode? l = some text ∧ quits text = false) ∧
    ∃ reported pending, log.filterMap Notice.accepted? = reported ++ pending ∧
      List.Forall₂ (fun r r' => r.play = .requested r.actor ∧ r.SettledBy r') reported
        (log.filterMap Notice.settled?) ∧
      (t.completed = true → pending = []) ∧
      (t.completed = false → List.Forall₂ (ReflTransGen Polls) pending
        (s.takeAll (heeded ending arrivals)).run.toList) := by
  intro s t log
  have ht : t = ⟨log.flatMap Notice.lines, !breaksOff (arrivals.map (·.line))⟩ :=
    Session.arrived_eq ending s arrivals
  -- what is held in the end: nothing, unless the program is broken off
  obtain ⟨held, hledger, hregular, hbroken⟩ : ∃ held, Ledger none log held ∧
      (t.completed = true → held = none) ∧
      (t.completed = false → held = (s.takeAll (heeded ending arrivals)).run) := by
    have hinitial := Session.orderly_initial env.settings.1
    cases hbreaks : breaksOff (arrivals.map (·.line)) with
    | true =>
      have hlog : log = s.toldAll (heeded ending arrivals) := if_pos hbreaks
      obtain ⟨-, hledger⟩ := Session.orderly_changes hinitial (s.changes_toldAll _)
      refine ⟨_, hlog ▸ hledger, fun h => ?_, fun _ => rfl⟩
      rw [ht, hbreaks] at h
      cases h
    | false =>
      have hlog : log = s.account (heeded ending arrivals) :=
        if_neg (by rw [hbreaks]; exact Bool.false_ne_true)
      obtain ⟨-, hledger⟩ := Session.orderly_changes hinitial (s.changes_account _)
      refine ⟨_, hlog ▸ hledger, fun _ => s.run_closed _, fun h => ?_⟩
      rw [ht, hbreaks] at h
      cases h
  obtain ⟨reported, pending, haccepted, hsettled, hpending⟩ := hledger.split
  rw [Option.toList_none, List.nil_append] at haccepted
  refine ⟨by rw [ht], ?_, ?_, reported, pending, haccepted, ?_, ?_, ?_⟩
  · intro n
    simpa using hledger.balance n
  · rw [ht, ← breaksOff_iff, ← harrivals, Bool.not_eq_eq_eq_not, Bool.not_false]
  · refine (List.forall₂_and_left _ _).mpr ⟨fun r hr => hledger.requested r ?_, hsettled⟩
    rw [haccepted]
    exact List.mem_append_left _ hr
  · intro hcompleted
    rw [hregular hcompleted] at hpending
    exact List.forall₂_nil_right_iff.mp hpending
  · intro hcompleted
    rw [← hbroken hcompleted]
    exact hpending

/-- A line that asks for a play, and then one that is not UTF-8. -/
def garbled : List UInt8 := [112, 108, 97, 121, 10, 255, 10]

/-- The play is under way when the second line arrives, and is not reported. -/
theorem reported_unless_broken_off_garbled :
    let arrivals : List Arrival := (linesFrom [] garbled).map fun line => ⟨[], Folder.read [], line⟩
    let s := (Session.initial (Environment.settings fun _ => .unset).1).1
    let log := s.noticed [] arrivals
    (arrived [] s arrivals).completed = false ∧ log.filterMap Notice.settled? = [] ∧
    ∃ r r', log.filterMap Notice.accepted? = [r] ∧ ReflTransGen Polls r r' ∧
      (s.takeAll (heeded [] arrivals)).run = some r' := by
  intro arrivals s log
  have hlines : arrivals.map (·.line) = linesFrom [] garbled := rfl
  obtain ⟨-, -, -, reported, pending, haccepted, hsettled, -, hpending⟩ :=
    reported_unless_broken_off (fun _ => .unset) [] hlines
  have hnone : log.filterMap Notice.settled? = [] := rfl
  rw [hnone] at hsettled
  obtain rfl := List.forall₂_nil_right_iff.mp hsettled
  obtain ⟨r, rest, hpolls, hrest, rfl⟩ := List.forall₂_cons_right_iff.mp (hpending rfl)
  obtain rfl := List.forall₂_nil_right_iff.mp hrest
  exact ⟨rfl, hnone, r, _, haccepted, hpolls, rfl⟩

/-- So not every play that is accepted is reported before the program ends. -/
theorem transcript_garbled :
    let t := transcript .initial (Folder.read []) garbled
    t.lines = ["playing actor 1"] ∧ ∀ result, outcome ⟨1⟩ result ∉ t.lines := by
  intro t
  have hlines : t.lines = ["playing actor 1"] := rfl
  refine ⟨hlines, fun result hreport => ?_⟩
  rw [hlines, List.mem_singleton] at hreport
  have hfirst := congrArg (·.toList.head?) hreport
  cases result <;> simp [outcome] at hfirst

end Console

end StagePlay
