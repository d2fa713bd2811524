import LintBridge.Proofs.Workspace.Spent

namespace LintBridge

namespace Workspace

variable (w : Workspace) (held : List OperationId) (client : ClientId) (e : Errand)

theorem advance_enter : w.advance ⟨held, .enter e client⟩ =
    (w.enqueue (e.operation w.project), ⟨e.operation w.project :: held,
      .asking client (.ofAsk e.question) (.errand e)⟩) := rfl

theorem advance_asking {call : Call} (going : ∀ r, call ≠ .done r) (next : Next) :
    w.advance ⟨held, .asking client call next⟩ = ((w.stepCall client call).1,
      ⟨held, .asking client (w.stepCall client call).2 next⟩) := by
  cases call with
  | done r => exact absurd rfl (going r)
  | _ => rfl

theorem advance_answered (r : Except EngineError Reply) :
    w.advance ⟨held, .asking client (.done r) (.errand e)⟩ =
      ((w.answered e r).1, ⟨held, (w.answered e r).2⟩) := rfl

/-- A task that leaves goes on leaving, or is done. -/
theorem advance_leave (o : Outcome) : ∃ w' held' point',
    w.advance ⟨held, .leave o⟩ = (w', ⟨held', point'⟩) ∧
      (w' = w ∨ ∃ id, w' = w.dequeue id) ∧ (point' = .leave o ∨ point' = .done o) := by
  cases held with
  | nil => exact ⟨w, [], .done o, rfl, .inl rfl, .inr rfl⟩
  | cons id held => exact ⟨w.dequeue id, held, .leave o, rfl, .inr ⟨id, rfl⟩, .inl rfl⟩

end Workspace

namespace Site

variable {s : Site} {n : Nat} {m : Move} {entry : Option Task}

theorem task?_put_of_ne {k : Nat} (ne : n ≠ k) (next : Workspace × Task) :
    (s.put n next).task? k = s.task? k := by
  simp only [task?, put, List.getElem?_set_ne ne]

theorem task?_put_self {t : Task} (found : s.task? n = some t) (next : Workspace × Task) :
    (s.put n next).task? n = some next.2 := by
  have within : n < s.tasks.length := Nat.lt_of_not_le fun beyond => by
    rw [task?, List.getElem?_eq_none beyond] at found
    cases found
  simp only [task?, put, List.getElem?_set_self within, Option.join_some]

theorem tasks_of_task? {t : Task} (found : s.task? n = some t) : s.tasks[n]? = some (some t) :=
  Option.join_eq_some_iff.mp found

theorem task?_of_tasks (found : s.tasks[n]? = some entry) : s.task? n = entry := by
  rw [task?, found, Option.join_some]

/-- A move of another task leaves a task, or the place of one that is gone, where it is. -/
theorem tasks_move_of_ne (found : s.tasks[n]? = some entry) (other : m.task? ≠ some n) :
    (s.move m).tasks[n]? = some entry := by
  have within : n < s.tasks.length := (List.getElem?_eq_some_iff.mp found).1
  have elsewhere {k : Nat} (ne : k ≠ n) (t : Option Task) :
      (s.tasks.set k t)[n]? = some entry := (List.getElem?_set_ne ne).trans found
  cases m with
  | spawn => exact (List.getElem?_append_left within).trans found
  | finish => exact found
  | advance k | receive k _ | abandon k =>
    have ne : k ≠ n := fun same => other (congrArg some same)
    cases there : s.task? k with
    | none => simpa only [move, there, Option.map_none, Option.getD_none] using found
    | some t =>
      simp only [move, there, Option.map_some, Option.getD_some]
      exact elsewhere ne _

/-- A move of another task leaves a task where it is. -/
theorem task?_move_of_ne {t : Task} (found : s.task? n = some t) (other : m.task? ≠ some n) :
    (s.move m).task? n = some t :=
  task?_of_tasks (tasks_move_of_ne (tasks_of_task? found) other)

section Moves

variable {t : Task}

theorem move_advance (found : s.task? n = some t) :
    s.move (.advance n) = s.put n (s.workspace.advance t) := by
  simp only [move, found, Option.map_some, Option.getD_some]

theorem move_receive (found : s.task? n = some t) (a : Answer) :
    s.move (.receive n a) = s.put n (s.workspace.receive t a) := by
  simp only [move, found, Option.map_some, Option.getD_some]

theorem move_abandon (found : s.task? n = some t) :
    s.move (.abandon n) = Site.remove { s with workspace := s.workspace.abandon t } n := by
  simp only [move, found, Option.map_some, Option.getD_some]

/-- A task that is not under way makes no move. -/
theorem move_of_absent (absent : s.task? n = none) (own : m.task? = some n) : s.move m = s := by
  cases m with
  | spawn | finish => cases own
  | advance | receive | abandon =>
    cases own
    simp only [move, absent, Option.map_none, Option.getD_none]

end Moves

/-- A task's own moves: it goes on, takes an answer, or is abandoned; one that is gone makes
none. -/
inductive Own (s : Site) (n : Nat) : Option Task → Move → Prop
  | gone {own : Move} : s.move own = s → Own s n none own
  | advance {t} : s.move (.advance n) = s.put n (s.workspace.advance t) →
      Own s n (some t) (.advance n)
  | receive {t a} : s.move (.receive n a) = s.put n (s.workspace.receive t a) →
      Own s n (some t) (.receive n a)
  | abandon {t} :
      s.move (.abandon n) = Site.remove { s with workspace := s.workspace.abandon t } n →
      Own s n (some t) (.abandon n)

theorem own_of_task? (found : s.tasks[n]? = some entry) (own : m.task? = some n) :
    Own s n entry m := by
  have there := task?_of_tasks found
  cases entry with
  | none => exact .gone (move_of_absent there own)
  | some t =>
    cases m with
    | spawn | finish => cases own
    | advance =>
      cases own
      exact .advance (move_advance there)
    | receive _ a =>
      cases own
      exact .receive (move_receive there a)
    | abandon =>
      cases own
      exact .abandon (move_abandon there)

theorem length_move (other : ∀ e, m ≠ .spawn e) :
    (s.move m).tasks.length = s.tasks.length := by
  cases m with
  | spawn e => exact absurd rfl (other e)
  | advance n => cases found : s.task? n <;> simp [move, found, put]
  | receive n a => cases found : s.task? n <;> simp [move, found, put]
  | finish => rfl
  | abandon n => cases found : s.task? n <;> simp [move, found, remove]

theorem project_move (m : Move) : (s.move m).workspace.project = s.workspace.project := by
  have kept {v v' : View} {d : Option (Option Nat × Deed)} (step : v.Step d v') :
      v'.standing.project = v.standing.project := by
    cases step with
    | act _ step => cases step <;> rfl
    | _ => rfl
  exact kept (s.move_step m)

theorem project_run (moves : List Move) :
    (s.run moves).workspace.project = s.workspace.project := by
  induction moves generalizing s with
  | nil => rfl
  | cons m moves ih => exact ih.trans (project_move m)

end Site

end LintBridge
