import StagePlay.Proofs.Stage.Deed
import StagePlay.Run.Turn

/-!
# StagePlay.Proofs.Run.Unrolled

What a script does, told without a stage and without loops.

A script unrolls to a list of leaves: every loop becomes as many copies of its body as it has
iterations, and blocks of no known kind are left out. Each leaf has a cycle of actions, and the
course of a script is the cycles of its leaves in order, with the motion carried from one to the
next. `Performed` says what a list of actions does to a stage.

* `unrolled_blocks`: leaves written as blocks unroll to themselves.
* `course_append`: courses are put together leaf by leaf.
* `writes_course`: the writes of a course depend on the leaves and on the first motion alone.
* `Performed.append`: what two lists of actions do one after the other.
-/

namespace StagePlay

/-- A block that is carried out as it stands: no loop, and of a known kind. -/
inductive Leaf where
  | steer (change : Steering)
  | appear (visible : Bool)
  | wait (seconds : Float)
  | speak (kind : SpeechKind) (text : String)

/-- What a run does, one thing at a time. -/
inductive Action where
  /-- A write to the actor of the run, told to observers. -/
  | write (w : Write)
  | pause (d : Duration)
  | collide

def Action.write? : Action → Option Write
  | .write w => some w
  | _ => none

/-- A pause, if it takes time. -/
def Duration.timed (d : Duration) : List Duration := if d = .zero then [] else [d]

def Action.timed : Action → List Duration
  | .pause d => d.timed
  | _ => []

mutual

def Command.unrolled : Command → List Leaf
  | .steer change => [.steer change]
  | .appear visible => [.appear visible]
  | .wait seconds => [.wait seconds]
  | .speak kind text => [.speak kind text]
  | .loop times body => (List.replicate times.toNat (Script.unrolled body)).flatten
  | .unknown => []

/-- The leaves of a script in the order in which they come, inside loops as often as they come. -/
def Script.unrolled : Script → List Leaf
  | [] => []
  | c :: rest => c.unrolled ++ Script.unrolled rest

end

theorem Script.unrolled_append (s₁ s₂ : Script) :
    Script.unrolled (s₁ ++ s₂) = Script.unrolled s₁ ++ Script.unrolled s₂ := by
  induction s₁ with
  | nil => rfl
  | cons c rest ih => rw [List.cons_append, unrolled, ih, unrolled, List.append_assoc]

namespace Leaf

def block : Leaf → Command
  | .steer change => .steer change
  | .appear visible => .appear visible
  | .wait seconds => .wait seconds
  | .speak kind text => .speak kind text

theorem unrolled_blocks (ls : List Leaf) : Script.unrolled (ls.map block) = ls := by
  induction ls with
  | nil => rfl
  | cons l rest ih =>
    rw [List.map_cons, Script.unrolled, ih]
    cases l <;> rfl

def moved (m : Motion) : Leaf → Motion
  | .steer change => m.steer change
  | _ => m

def carried (m : Motion) (ls : List Leaf) : Motion := ls.foldl moved m

/-- The actions of a leaf, for an actor that the run carries with this motion. -/
def cycle (settings : Settings) (m : Motion) : Leaf → List Action
  | .steer change => [.write (.motion (m.steer change)), .pause settings.step, .collide]
  | .appear visible => [.write (.visible visible), .pause settings.step, .collide]
  | .wait seconds => [.pause (.ofSeconds seconds)]
  | .speak kind text =>
    [.write (.speech (some ⟨kind, text⟩)), .pause settings.speech, .write (.speech none)]

def course (settings : Settings) (m : Motion) : List Leaf → List Action
  | [] => []
  | l :: rest => l.cycle settings m ++ course settings (l.moved m) rest

def writes (m : Motion) : List Leaf → List Write
  | [] => []
  | .steer change :: rest => .motion (m.steer change) :: writes (m.steer change) rest
  | .appear visible :: rest => .visible visible :: writes m rest
  | .wait _ :: rest => writes m rest
  | .speak kind text :: rest => .speech (some ⟨kind, text⟩) :: .speech none :: writes m rest

theorem carried_append (m : Motion) (ls ks : List Leaf) :
    carried m (ls ++ ks) = carried (carried m ls) ks := List.foldl_append

theorem course_append (settings : Settings) (m : Motion) (ls ks : List Leaf) :
    course settings m (ls ++ ks) = course settings m ls ++ course settings (carried m ls) ks := by
  induction ls generalizing m with
  | nil => rfl
  | cons l rest ih =>
    rw [List.cons_append, course, course, ih, List.append_assoc]
    rfl

theorem writes_course (settings : Settings) (m : Motion) (ls : List Leaf) :
    (course settings m ls).filterMap Action.write? = writes m ls := by
  induction ls generalizing m with
  | nil => rfl
  | cons l rest ih =>
    rw [course, List.filterMap_append, ih]
    cases l <;> rfl

end Leaf

/-- Whether an event can be seen from outside: a publish, a pause or a collision pass. -/
def Event.isSeen : Event → Bool
  | .published _ | .paused _ | .collided _ => true
  | _ => false

def Event.seen (events : List Event) : List Event := events.filter Event.isSeen

theorem Event.seen_append (es fs : List Event) : seen (es ++ fs) = seen es ++ seen fs :=
  List.filter_append ..

/-- `Performed distance actor stage actions events stage'`: the actions take the first stage to
    the second, and the events are what is seen of them. A write needs the actor on the stage. -/
inductive Performed (distance : Float) (actor : ActorId) :
    Stage → List Action → List Event → Stage → Prop where
  | nil {stage : Stage} : Performed distance actor stage [] [] stage
  | write {stage stage' stage'' : Stage} {w : Write} {s : Snapshot} {rest : List Action}
      {events : List Event} :
      stage.written? actor w = some (stage', s) →
      Performed distance actor stage' rest events stage'' →
      Performed distance actor stage (.write w :: rest) (.published s :: events) stage''
  | pause {stage stage' : Stage} {d : Duration} {rest : List Action} {events : List Event} :
      Performed distance actor stage rest events stage' →
      Performed distance actor stage (.pause d :: rest) (.paused d :: events) stage'
  | collide {stage stage' : Stage} {rest : List Action} {events : List Event} :
      Performed distance actor (stage.collide distance).1 rest events stage' →
      Performed distance actor stage (.collide :: rest)
        (.collided (stage.collide distance).2 :: events) stage'

namespace Performed

variable {distance : Float} {actor : ActorId} {stage stage' stage'' : Stage}
  {as bs : List Action} {es fs : List Event}

theorem append (h : Performed distance actor stage as es stage')
    (h' : Performed distance actor stage' bs fs stage'') :
    Performed distance actor stage (as ++ bs) (es ++ fs) stage'' := by
  induction h with
  | nil => exact h'
  | write hw _ ih => exact .write hw (ih h')
  | pause _ ih => exact .pause (ih h')
  | collide _ ih => exact .collide (ih h')

/-- Actions do one thing: the events and the stage after them are determined. -/
theorem unique (h : Performed distance actor stage as es stage')
    (h' : Performed distance actor stage as fs stage'') : es = fs ∧ stage' = stage'' := by
  induction h generalizing fs with
  | nil => cases h'; exact ⟨rfl, rfl⟩
  | write hw _ ih =>
    cases h' with
    | write hw' hrest =>
      rw [hw, Option.some.injEq, Prod.mk.injEq] at hw'
      obtain ⟨rfl, rfl⟩ := hw'
      obtain ⟨rfl, rfl⟩ := ih hrest
      exact ⟨rfl, rfl⟩
  | pause _ ih =>
    cases h' with
    | pause hrest => obtain ⟨rfl, rfl⟩ := ih hrest; exact ⟨rfl, rfl⟩
  | collide _ ih =>
    cases h' with
    | collide hrest => obtain ⟨rfl, rfl⟩ := ih hrest; exact ⟨rfl, rfl⟩

/-- A run's own actions leave everybody in their place in line. -/
theorem alike (h : Performed distance actor stage as es stage') : stage'.Alike stage := by
  induction h with
  | nil => exact .refl _
  | write hw _ ih =>
    have hs := Stage.alike_written? hw
    exact ⟨ih.1.trans hs.1, ih.2.trans hs.2⟩
  | pause _ ih => exact ih
  | @collide stage _ _ _ _ ih =>
    have hs := stage.alike_collide distance
    exact ⟨ih.1.trans hs.1, ih.2.trans hs.2⟩

end Performed

end StagePlay
