import MinBasic.Diagnostic.Reporter
import MinBasic.Event

/-!
# Progress of work that reports

Work that reads a text keeps a state, writes reports and notes events, until a
report is refused.  A `Progress` is what a stretch of such work did.  Stretches
follow each other with `andThen`, which does nothing more after a refusal, and
`forEach` does one stretch for every item of a list.  Doing nothing is neutral,
`andThen` is associative, and so a list of items can be worked off in parts.
-/

namespace MinBasic.Check

open Channel Diagnostic

/-- The state that a stretch of work reached, what it wrote and noted, and the
refusal that ended it early. -/
structure Progress (σ : Type) where
  state : σ
  reporter : Reporter
  output : Bytes := []
  events : List Event := []
  refusal? : Option Refusal := none

/-- Work on a state, with a reporter. -/
abbrev Work (σ : Type) :=
  σ → Reporter → Progress σ

namespace Progress

variable {σ α : Type}

/-- No work yet. -/
def still (state : σ) (reporter : Reporter) : Progress σ :=
  { state, reporter }

/-- Go on with more work, unless a refusal ended the work so far. -/
def andThen (done : Progress σ) (more : Work σ) : Progress σ :=
  match done.refusal? with
  | some _ => done
  | none =>
      let later := more done.state done.reporter
      { later with
        output := done.output ++ later.output
        events := done.events ++ later.events }

/-- Do the work of every item in turn. -/
def forEach (work : α → Work σ) : List α → Work σ
  | [], state, reporter => still state reporter
  | item :: items, state, reporter => (work item state reporter).andThen (forEach work items)

theorem andThen_of_refused {done : Progress σ} {refusal : Refusal}
    (refused : done.refusal? = some refusal) (more : Work σ) : done.andThen more = done := by
  simp [andThen, refused]

theorem andThen_of_unrefused {done : Progress σ} (unrefused : done.refusal? = none)
    (more : Work σ) :
    done.andThen more =
      { more done.state done.reporter with
        output := done.output ++ (more done.state done.reporter).output
        events := done.events ++ (more done.state done.reporter).events } := by
  rw [andThen, unrefused]

@[simp]
theorem still_andThen (state : σ) (reporter : Reporter) (more : Work σ) :
    (still state reporter).andThen more = more state reporter := by
  simp [andThen, still]

@[simp]
theorem andThen_still (done : Progress σ) : done.andThen still = done := by
  rcases done with ⟨state, reporter, output, events, _ | refusal⟩ <;> simp [andThen, still]

theorem andThen_assoc (done : Progress σ) (next more : Work σ) :
    (done.andThen next).andThen more =
      done.andThen fun state reporter => (next state reporter).andThen more := by
  rcases done with ⟨state, reporter, output, events, _ | refusal⟩
  · simp only [andThen]
    cases refused : (next state reporter).refusal? <;> simp [refused]
  · simp [andThen]

@[simp]
theorem forEach_nil (work : α → Work σ) (state : σ) (reporter : Reporter) :
    forEach work [] state reporter = still state reporter :=
  rfl

@[simp]
theorem forEach_cons (work : α → Work σ) (item : α) (items : List α) (state : σ)
    (reporter : Reporter) :
    forEach work (item :: items) state reporter =
      (work item state reporter).andThen (forEach work items) :=
  rfl

/-- The work of two lists is the work of the first and then of the second. -/
theorem forEach_append (work : α → Work σ) (first second : List α) (state : σ)
    (reporter : Reporter) :
    forEach work (first ++ second) state reporter =
      (forEach work first state reporter).andThen (forEach work second) := by
  induction first generalizing state reporter with
  | nil => simp
  | cons item first ih =>
      rw [List.cons_append, forEach_cons, forEach_cons, andThen_assoc]
      congr 1
      funext state reporter
      exact ih state reporter

/-- The work of a mapped list is the work of the list. -/
theorem forEach_map {β : Type} (work : β → Work σ) (f : α → β) (items : List α) (state : σ)
    (reporter : Reporter) :
    forEach work (items.map f) state reporter =
      forEach (fun item => work (f item)) items state reporter := by
  induction items generalizing state reporter with
  | nil => rfl
  | cons item items ih =>
      rw [List.map_cons, forEach_cons, forEach_cons]
      congr 1
      funext state reporter
      exact ih state reporter

end Progress

end MinBasic.Check
