import StagePlay.Json.Fault

/-!
# StagePlay.Proofs.Json.Consume

What a whole text does to a reader that takes one character at a time, and how a reader that runs
inside another one carries over to the outer reader.

* `consume_append`: a text is read piece by piece.
* `consume_lift`: an outer reader that hands its characters on follows the inner one.
-/

namespace StagePlay.Json

variable {κ κ' σ τ α β : Type}

/-- Takes the characters of a text; a result that is complete before its end stands `before` the
    rest. -/
def consume (step : σ → Char → Step κ σ α) (r : σ) : List Char → Step κ σ α
  | [] => .more r
  | c :: cs =>
    match step r c with
    | .more r' => consume step r' cs
    | .ended v => if cs = [] then .ended v else .before v
    | .before v => .before v
    | .refused f => .refused f

variable {step : σ → Char → Step κ σ α} {r r' : σ}

theorem consume_cons {c : Char} {cs : List Char} {t : σ} (h : step r c = .more t) :
    consume step r (c :: cs) = consume step t cs := by simp [consume, h]

@[simp] theorem consume_singleton (c : Char) : consume step r [c] = step r c := by
  simp only [consume]
  cases step r c <;> simp

/-- What the first character of a text does decides how the reading goes on. -/
theorem consume_cons_cases (step : σ → Char → Step κ σ α) (r : σ) (c : Char) (cs : List Char) :
    (∃ next, step r c = .more next ∧ consume step r (c :: cs) = consume step next cs) ∨
      (∃ v, step r c = .ended v ∧ cs = [] ∧ consume step r (c :: cs) = .ended v) ∨
      (∃ f, step r c = .refused f ∧ consume step r (c :: cs) = .refused f) ∨
      ∃ v, consume step r (c :: cs) = .before v := by
  simp only [consume]
  cases hs : step r c with
  | more next => exact .inl ⟨next, rfl, rfl⟩
  | ended v =>
    by_cases hnil : cs = []
    · exact .inr (.inl ⟨v, rfl, hnil, if_pos hnil⟩)
    · exact .inr (.inr (.inr ⟨v, if_neg hnil⟩))
  | before v => exact .inr (.inr (.inr ⟨v, rfl⟩))
  | refused f => exact .inr (.inr (.inl ⟨f, rfl, rfl⟩))

theorem of_consume_cons {c : Char} {cs : List Char} (h : consume step r (c :: cs) = .more r') :
    ∃ next, step r c = .more next ∧ consume step next cs = .more r' := by
  rcases consume_cons_cases step r c cs with
    ⟨next, hs, heq⟩ | ⟨v, -, -, heq⟩ | ⟨f, -, heq⟩ | ⟨v, heq⟩
  · exact ⟨next, hs, heq ▸ h⟩
  all_goals
    rw [heq] at h
    cases h

theorem of_consume_cons_refused {c : Char} {cs : List Char} {f : Fault κ}
    (h : consume step r (c :: cs) = .refused f) :
    step r c = .refused f ∨ ∃ next, step r c = .more next ∧ consume step next cs = .refused f := by
  rcases consume_cons_cases step r c cs with
    ⟨next, hs, heq⟩ | ⟨v, -, -, heq⟩ | ⟨g, hs, heq⟩ | ⟨v, heq⟩
  · exact .inr ⟨next, hs, heq ▸ h⟩
  all_goals
    rw [heq] at h
    cases h
  exact .inl hs

theorem of_consume_cons_ended {c : Char} {cs : List Char} {v : α}
    (h : consume step r (c :: cs) = .ended v) :
    (cs = [] ∧ step r c = .ended v)
      ∨ ∃ next, step r c = .more next ∧ consume step next cs = .ended v := by
  rcases consume_cons_cases step r c cs with
    ⟨next, hs, heq⟩ | ⟨w, hs, hnil, heq⟩ | ⟨f, -, heq⟩ | ⟨w, heq⟩
  · exact .inr ⟨next, hs, heq ▸ h⟩
  all_goals
    rw [heq] at h
    cases h
  exact .inl ⟨hnil, hs⟩

theorem consume_append {as : List Char} (bs : List Char) (h : consume step r as = .more r') :
    consume step r (as ++ bs) = consume step r' bs := by
  induction as generalizing r with
  | nil =>
    cases h
    rfl
  | cons c cs ih =>
    obtain ⟨next, hs, hcs⟩ := of_consume_cons h
    rw [List.cons_append, consume_cons hs]
    exact ih hcs

theorem consume_append_refused {as : List Char} {f : Fault κ} (bs : List Char)
    (h : consume step r as = .refused f) : consume step r (as ++ bs) = .refused f := by
  induction as generalizing r with
  | nil => cases h
  | cons c cs ih =>
    rcases of_consume_cons_refused h with hs | ⟨next, hs, hcs⟩
    · simp only [List.cons_append, consume, hs]
    · rw [List.cons_append, consume_cons hs]
      exact ih hcs

/-- A result that the text just completes is completed by its last character. -/
theorem consume_eq_ended {cs : List Char} {v : α} (h : consume step r cs = .ended v) :
    ∃ init last r', cs = init ++ [last] ∧ consume step r init = .more r'
      ∧ step r' last = .ended v := by
  induction cs generalizing r with
  | nil => cases h
  | cons c cs ih =>
    rcases of_consume_cons_ended h with ⟨rfl, hs⟩ | ⟨next, hs, hcs⟩
    · exact ⟨[], c, r, rfl, rfl, hs⟩
    · obtain ⟨init, last, r', rfl, hinit, hlast⟩ := ih hcs
      exact ⟨c :: init, last, r', rfl, by rw [consume_cons hs]; exact hinit, hlast⟩

/-- Before its last character a text that completes a result leaves the reader waiting. -/
theorem more_of_append_ended {as bs : List Char} {v : α} (hbs : bs ≠ [])
    (h : consume step r (as ++ bs) = .ended v) :
    ∃ r', consume step r as = .more r' ∧ consume step r' bs = .ended v := by
  induction as generalizing r with
  | nil => exact ⟨r, rfl, h⟩
  | cons c cs ih =>
    rcases of_consume_cons_ended h with ⟨hnil, -⟩ | ⟨next, hs, hcs⟩
    · exact absurd (List.append_eq_nil_iff.mp hnil).2 hbs
    · obtain ⟨r', hmore, hended⟩ := ih hcs
      exact ⟨r', by rw [consume_cons hs, hmore], hended⟩

/-- A reader that passes its characters on to another one follows its run. -/
theorem consume_lift {outer : τ → Char → Step κ' τ β} (wrap : σ → τ)
    (hstep : ∀ s c s', step s c = .more s' → outer (wrap s) c = .more (wrap s'))
    {cs : List Char} (h : consume step r cs = .more r') :
    consume outer (wrap r) cs = .more (wrap r') := by
  induction cs generalizing r with
  | nil =>
    cases h
    rfl
  | cons c cs ih =>
    obtain ⟨next, hs, hcs⟩ := of_consume_cons h
    rw [consume_cons (hstep _ _ _ hs)]
    exact ih hcs

theorem consume_lift_refused {outer : τ → Char → Step κ' τ β} (wrap : σ → τ)
    (tag : Fault κ → Fault κ')
    (hstep : ∀ s c s', step s c = .more s' → outer (wrap s) c = .more (wrap s'))
    (hrefused : ∀ s c f, step s c = .refused f → outer (wrap s) c = .refused (tag f))
    {cs : List Char} {f : Fault κ} (h : consume step r cs = .refused f) :
    consume outer (wrap r) cs = .refused (tag f) := by
  induction cs generalizing r with
  | nil => cases h
  | cons c cs ih =>
    rcases of_consume_cons_refused h with hs | ⟨next, hs, hcs⟩
    · simp only [consume, hrefused _ _ _ hs]
    · rw [consume_cons (hstep _ _ _ hs)]
      exact ih hcs

end StagePlay.Json
