import StagePlay.Json.Reading

/-!
# StagePlay.Proofs.Json.Depth

How many containers are nested in a value, and in the values that a reader returns.

* `Reading.returns_step`: a reader that lets so many containers be open returns no value in which
  more of them are nested.
-/

namespace StagePlay.Json

mutual

/-- How many containers are nested in a value, itself included. -/
def Value.depth : Value → Nat
  | .array items => itemsDepth items + 1
  | .object members => membersDepth members + 1
  | _ => 0

def itemsDepth : List Value → Nat
  | [] => 0
  | v :: rest => max v.depth (itemsDepth rest)

def membersDepth : List (String × Value) → Nat
  | [] => 0
  | (_, v) :: rest => max v.depth (membersDepth rest)

end

theorem itemsDepth_append (vs ws : List Value) :
    itemsDepth (vs ++ ws) = max (itemsDepth vs) (itemsDepth ws) := by
  induction vs with
  | nil => simp [itemsDepth]
  | cons v rest ih => rw [List.cons_append, itemsDepth, itemsDepth, ih, Nat.max_assoc]

theorem itemsDepth_reverse (vs : List Value) : itemsDepth vs.reverse = itemsDepth vs := by
  induction vs with
  | nil => rfl
  | cons v rest ih =>
    rw [List.reverse_cons, itemsDepth_append, ih, itemsDepth, itemsDepth, itemsDepth]
    omega

theorem membersDepth_append (ms ns : List (String × Value)) :
    membersDepth (ms ++ ns) = max (membersDepth ms) (membersDepth ns) := by
  induction ms with
  | nil => simp [membersDepth]
  | cons m rest ih => rw [List.cons_append, membersDepth, membersDepth, ih, Nat.max_assoc]

theorem membersDepth_reverse (ms : List (String × Value)) :
    membersDepth ms.reverse = membersDepth ms := by
  induction ms with
  | nil => rfl
  | cons m rest ih =>
    rw [List.reverse_cons, membersDepth_append, ih, membersDepth, membersDepth, membersDepth]
    omega

def Frame.depth : Frame → Nat
  | .array items => itemsDepth items
  | .object members _ => membersDepth members

/-- The words stand for values without containers. -/
def Expectation.Flat : Expectation → Prop
  | .word _ _ v => v.depth = 0
  | _ => True

namespace Reading

/-- What the open containers hold leaves room for the containers that it stands in. -/
def Fits (limit : Nat) : List Frame → Prop
  | [] => True
  | frame :: rest => rest.length + 1 + frame.depth ≤ limit ∧ Fits limit rest

structure Within (limit : Nat) (r : Reading) : Prop where
  stack : Fits limit r.stack
  expects : r.expects.Flat

/-- No more than `limit` containers are nested in what a step returns. -/
def Returns (limit : Nat) : Step Cause Reading Value → Prop
  | .more r => r.Within limit
  | .ended v | .before v => v.depth ≤ limit
  | .refused _ => True

variable {limit : Nat} {stack : List Frame} {v : Value} {c : Char}

theorem within_start : start.Within limit := ⟨trivial, trivial⟩

theorem Fits.length_le (h : Fits limit stack) : stack.length ≤ limit := by
  cases stack with
  | nil => exact Nat.zero_le _
  | cons frame rest =>
    have hframe := h.1
    rw [List.length_cons]
    omega

theorem returns_deliver (h : Fits limit stack) (hv : stack.length + v.depth ≤ limit) :
    Returns limit (deliver stack v) := by
  unfold deliver
  split
  · rwa [List.length_nil, Nat.zero_add] at hv
  · rename_i items rest
    obtain ⟨hitems, hrest⟩ := h
    refine ⟨⟨?_, hrest⟩, trivial⟩
    simp only [Frame.depth, itemsDepth, List.length_cons] at hitems hv ⊢
    omega
  · rename_i members key rest
    obtain ⟨hmembers, hrest⟩ := h
    refine ⟨⟨?_, hrest⟩, trivial⟩
    simp only [Frame.depth, membersDepth, List.length_cons] at hmembers hv ⊢
    omega
  · exact ⟨h, trivial⟩

theorem returns_deliver_flat (h : Fits limit stack) (hv : v.depth = 0) :
    Returns limit (deliver stack v) := by
  apply returns_deliver h
  rw [hv]
  exact h.length_le

theorem returns_close (h : Fits limit stack) : Returns limit (close stack) := by
  unfold close
  split
  · rename_i items rest
    obtain ⟨hitems, hrest⟩ := h
    apply returns_deliver hrest
    rw [Value.depth, itemsDepth_reverse]
    simp only [Frame.depth] at hitems
    omega
  · rename_i members key rest
    obtain ⟨hmembers, hrest⟩ := h
    apply returns_deliver hrest
    rw [Value.depth, membersDepth_reverse]
    simp only [Frame.depth] at hmembers
    omega
  · trivial

theorem returns_openFrame {frame : Frame} {e : Expectation} (h : Fits limit stack)
    (hframe : frame.depth = 0) (he : e.Flat) :
    Returns limit (openFrame limit stack frame e) := by
  unfold openFrame
  split
  · rename_i hlt
    refine ⟨⟨?_, h⟩, he⟩
    rw [hframe]
    exact hlt
  · trivial

theorem returns_startValue (h : Fits limit stack) (c : Char) :
    Returns limit (startValue limit stack c) := by
  unfold startValue
  split
  · exact ⟨h, rfl⟩
  · exact ⟨h, rfl⟩
  · exact ⟨h, rfl⟩
  · exact ⟨h, trivial⟩
  · exact returns_openFrame h rfl trivial
  · exact returns_openFrame h rfl trivial
  · split
    · exact ⟨h, trivial⟩
    · trivial

theorem returns_afterValue (h : Fits limit stack) (c : Char) :
    Returns limit (afterValue stack c) := by
  unfold afterValue
  split
  · split
    · exact ⟨h, trivial⟩
    · split
      · exact ⟨h, trivial⟩
      · split
        · exact returns_close h
        · trivial
  · split
    · exact ⟨h, trivial⟩
    · split
      · exact ⟨h, trivial⟩
      · split
        · exact returns_close h
        · trivial
  · trivial

variable [Rounding]

theorem returns_step {r : Reading} (h : r.Within limit) (c : Char) :
    Returns limit (r.step limit c) := by
  obtain ⟨stack, e⟩ := r
  obtain ⟨hstack, he⟩ := h
  have hstay : ∀ e' : Expectation, e'.Flat → Returns limit (.more ⟨stack, e'⟩) := by
    intro e' he'
    exact ⟨hstack, he'⟩
  cases e with
  | value =>
    simp only [step]
    split
    · exact hstay _ trivial
    · exact returns_startValue hstack c
  | firstItem =>
    simp only [step]
    split
    · exact hstay _ trivial
    · split
      · exact returns_close hstack
      · exact returns_startValue hstack c
  | nextItem =>
    simp only [step]
    split
    · exact hstay _ trivial
    · split
      · trivial
      · exact returns_startValue hstack c
  | itemEnd | memberEnd => exact returns_afterValue hstack c
  | firstKey =>
    simp only [step]
    split
    · exact hstay _ trivial
    · split
      · exact returns_close hstack
      · split
        · exact hstay _ trivial
        · trivial
  | nextKey =>
    simp only [step]
    split
    · exact hstay _ trivial
    · split
      · trivial
      · split
        · exact hstay _ trivial
        · trivial
  | colon =>
    simp only [step]
    split
    · exact hstay _ trivial
    · split
      · exact hstay _ trivial
      · trivial
  | word letter rest v =>
    simp only [step]
    split
    · cases rest with
      | nil => exact returns_deliver_flat hstack he
      | cons d ds => exact hstay _ he
    · trivial
  | number n =>
    simp only [step]
    split
    · exact hstay _ trivial
    · exact returns_deliver_flat hstack rfl
    · -- the number ends before this character, which its container takes then
      rename_i number _
      have hnumber := @returns_deliver_flat limit stack (.number number) hstack rfl
      split
      · rename_i next hnext
        rw [hnext] at hnumber
        exact returns_afterValue hnumber.stack c
      · rename_i v hv
        rw [hv] at hnumber
        exact hnumber
      · exact hnumber
    · trivial
  | text t =>
    simp only [step]
    split
    · exact hstay _ trivial
    · exact returns_deliver_flat hstack rfl
    · exact returns_deliver_flat hstack rfl
    · trivial
  | key t =>
    simp only [step]
    split
    · exact hstay _ trivial
    · split
      · exact ⟨hstack, trivial⟩
      · trivial
    · split
      · exact ⟨hstack, trivial⟩
      · trivial
    · trivial

end Reading

end StagePlay.Json
