import LintBridge.Workspace.Step

namespace LintBridge

/-- A point at which a task has no run: it has not started one, or has ended all. -/
def Point.rests : Point → Bool
  | begin _ | seek _ | quiet | done _ => true
  | _ => false

/-- A task that rests has ended the runs it has started. -/
def Task.Tidy (t : Task) : Prop := t.point.rests = true → t.held = []

theorem Purpose.rests_failed (p : Purpose) (e : EngineError) : (p.failed e).rests = false := by
  cases p <;> rfl

namespace Workspace

variable (w : Workspace)

theorem rests_probed (client : ClientId) (s : Start) (again : Bool)
    (r : Except EngineError Reply) : (w.probed client s again r).2.rests = false := by
  unfold probed
  split
  · split <;> rfl
  · split <;> rfl

theorem rests_publishOutput (files : Report → List (String × List Diagnostic))
    (r : Except EngineError Reply) : (w.publishOutput files r).2.rests = false := by
  unfold publishOutput
  split
  · split <;> rfl
  · rfl

theorem rests_answered (e : Errand) (r : Except EngineError Reply) :
    (w.answered e r).2.rests = false := by
  unfold answered
  split <;> first | rfl | exact w.rests_publishOutput _ _

theorem rests_commit (s : Start) (r : Except EngineError ClientId) :
    (w.commit s r).2.rests = false := by
  unfold commit
  split
  · rfl
  split
  · rfl
  · split <;> rfl

theorem tidy_of_not_rests {held : List OperationId} {point : Point}
    (active : point.rests = false) : (Task.mk held point).Tidy :=
  fun rests => nomatch active.symm.trans rests

theorem begin_tidy (e : Errand) : (w.begin e).2.Tidy := by
  cases e with
  | start | install | ask => exact tidy_of_not_rests rfl
  | _ => exact fun _ => rfl

/-- A task that goes on stays tidy. -/
theorem advance_tidy {t : Task} (tidy : t.Tidy) : (w.advance t).2.Tidy := by
  obtain ⟨held, point⟩ := t
  cases point with
  | begin e => exact w.begin_tidy e
  | tell c => cases c <;> exact tidy_of_not_rests rfl
  | load c =>
    simp only [advance]
    split <;> exact tidy_of_not_rests rfl
  | commit s result => exact tidy_of_not_rests (w.rests_commit s result)
  | seek e =>
    simp only [advance]
    split
    · exact fun _ => tidy rfl
    · exact tidy_of_not_rests rfl
  | asking client call next =>
    cases call with
    | done r =>
      cases next with
      | probe s again => exact tidy_of_not_rests (w.rests_probed client s again r)
      | errand e => exact tidy_of_not_rests (w.rests_answered e r)
    | _ => exact tidy_of_not_rests rfl
  | leave o =>
    cases held with
    | nil => exact fun _ => rfl
    | cons id rest => exact tidy_of_not_rests rfl
  | quiet => exact fun _ => tidy rfl
  | done o => exact tidy
  | _ => exact tidy_of_not_rests rfl

/-- A task that takes an answer stays tidy. -/
theorem receive_tidy {t : Task} (tidy : t.Tidy) (a : Answer) : (w.receive t a).2.Tidy := by
  unfold receive
  dsimp only
  split
  case h_6 => exact tidy_of_not_rests (Purpose.rests_failed _ _)
  case h_10 => exact tidy
  all_goals exact tidy_of_not_rests rfl

end Workspace

end LintBridge
