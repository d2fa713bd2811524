import LintBridge.Proofs.Engine.Calls
import LintBridge.Proofs.Progress.Visibility
import LintBridge.Proofs.Workspace.Places

namespace LintBridge

namespace Workspace

/-- Whether the tracker and the clients of a workspace are sound. -/
structure Proper (w : Workspace) : Prop where
  progress : w.progress.Sound
  clients : ∀ c ∈ w.clients, c.Proper

variable {w : Workspace}

theorem new_proper (project : Path) (defaults : Defaults) (files : FileTree) :
    (new project defaults files).Proper := ⟨Tracker.idle_sound, nofun⟩

namespace Proper

theorem emit (proper : w.Proper) (e : Event) : (w.emit e).Proper :=
  ⟨proper.progress, proper.clients⟩

theorem enqueue (proper : w.Proper) (id : OperationId) : (w.enqueue id).Proper :=
  ⟨proper.progress.call (.enqueue id), proper.clients⟩

theorem dequeue (proper : w.Proper) (id : OperationId) : (w.dequeue id).Proper :=
  ⟨proper.progress.call (.dequeue id), proper.clients⟩

theorem hush (proper : w.Proper) : w.hush.Proper := ⟨proper.progress.call .clear, proper.clients⟩

theorem lookAt (proper : w.Proper) (document : String) : (w.lookAt document).Proper :=
  ⟨proper.progress.call (.narrow ⟨document⟩), proper.clients⟩

theorem set (proper : w.Proper) (client : ClientId) {c : EngineClient} (sound : c.Proper) :
    Proper { w with clients := w.clients.set client c } := by
  refine ⟨proper.progress, fun c' member => ?_⟩
  rcases List.mem_or_eq_of_mem_set member with before | rfl
  · exact proper.clients c' before
  · exact sound

theorem probe (proper : w.Proper) (s : Start) (again : Bool) : (w.probe s again).1.Proper := by
  refine ⟨proper.progress, fun c member => ?_⟩
  rcases List.mem_append.mp member with before | new
  · exact proper.clients c before
  · rw [List.mem_singleton.mp new]
    exact EngineClient.new_proper _ _

theorem stepCall (proper : w.Proper) (client : ClientId) (call : Call) :
    (w.stepCall client call).1.Proper := by
  unfold Workspace.stepCall
  cases found : w.clients[client]? with
  | none => exact proper
  | some c =>
    have stepped := proper.set client ((proper.clients c (List.mem_of_getElem? found)).step call)
    dsimp only
    split
    · exact stepped.emit _
    · exact stepped

theorem finish (proper : w.Proper) (client : ClientId) (kept : Kept) (k : Nat)
    (r : Except EngineError String) : (w.finish client kept k r).Proper := by
  unfold Workspace.finish
  cases found : w.clients[client]? with
  | none => exact proper
  | some c =>
    exact proper.set client ((proper.clients c (List.mem_of_getElem? found)).finish kept k r)

theorem abandon (proper : w.Proper) (t : Task) : (w.abandon t).Proper := by
  unfold Workspace.abandon
  induction t.held generalizing w with
  | nil => exact proper
  | cons id held ih => exact ih (proper.dequeue id)

theorem answered (proper : w.Proper) (e : Errand) (r : Except EngineError Reply) :
    (w.answered e r).1.Proper := by
  have published (files : Report → List (String × List Diagnostic)) :
      (w.publishOutput files r).1.Proper := by
    unfold publishOutput
    split
    · split
      · exact ⟨proper.progress, proper.clients⟩
      · exact proper
    · exact proper
  unfold Workspace.answered
  split
  · exact published _
  · exact published _
  all_goals exact proper

theorem commit (proper : w.Proper) (s : Start) (r : Except EngineError ClientId) :
    (w.commit s r).1.Proper := by
  unfold Workspace.commit
  split
  · exact proper
  split
  · exact ⟨proper.progress, proper.clients⟩
  · split <;> exact ⟨proper.progress, proper.clients⟩

theorem probed (proper : w.Proper) (client : ClientId) (s : Start) (again : Bool)
    (r : Except EngineError Reply) : (w.probed client s again r).1.Proper := by
  cases r with
  | ok reply => exact proper
  | error e =>
    unfold Workspace.probed
    dsimp only
    split
    · exact proper
    · exact proper.emit _

theorem begin (proper : w.Proper) (e : Errand) : (w.begin e).1.Proper := by
  cases e with
  | install => exact proper.enqueue .system
  | look document => exact proper.lookAt document
  | shutdown => exact ⟨proper.progress, proper.clients⟩
  | _ => exact proper

/-- However a task goes on, it keeps the tracker and the clients sound. -/
theorem advance (proper : w.Proper) (t : Task) : (w.advance t).1.Proper := by
  obtain ⟨held, point⟩ := t
  cases point with
  | begin e => exact proper.begin e
  | takeOver => exact ⟨proper.progress, proper.clients⟩
  | announce s => exact (proper.enqueue .system).probe s false
  | copySettings => exact proper.emit _
  | save => exact ⟨proper.progress, proper.clients⟩
  | tell c =>
    cases c with
    | linter => exact proper
    | _ => exact proper.emit _
  | commit s r => exact proper.commit s r
  | noEngine s => exact proper.emit _
  | seek e =>
    simp only [Workspace.advance]
    split <;> exact proper
  | enter e client => exact proper.enqueue _
  | asking client call next =>
    cases call with
    | done r =>
      cases next with
      | probe s again => exact proper.probed client s again r
      | errand e => exact proper.answered e r
    | _ => exact proper.stepCall client _
  | quiet => exact proper.hush
  | leave o =>
    cases held with
    | nil => exact proper
    | cons id held => exact proper.dequeue id
  | _ => exact proper

theorem receive (proper : w.Proper) (t : Task) (a : Answer) : (w.receive t a).1.Proper := by
  unfold Workspace.receive
  dsimp only
  split
  · exact proper.emit _
  · exact proper.emit _
  · exact proper.emit _
  · exact proper.emit _
  · exact proper.emit _
  · exact proper
  · exact proper.probe _ true
  · exact proper
  · exact proper
  · exact proper

end Proper

end Workspace

namespace Site

variable {s : Site}

theorem proper_move (proper : s.workspace.Proper) (m : Move) : (s.move m).workspace.Proper := by
  cases m with
  | spawn e => exact proper
  | advance n =>
    cases found : s.task? n with
    | none => simpa only [move, found, Option.map_none, Option.getD_none] using proper
    | some t =>
      rw [move_advance found]
      exact proper.advance t
  | receive n a =>
    cases found : s.task? n with
    | none => simpa only [move, found, Option.map_none, Option.getD_none] using proper
    | some t =>
      rw [move_receive found]
      exact proper.receive t a
  | finish client kept k r => exact proper.finish client kept k r
  | abandon n =>
    cases found : s.task? n with
    | none => simpa only [move, found, Option.map_none, Option.getD_none] using proper
    | some t =>
      rw [move_abandon found]
      exact proper.abandon t

end Site

end LintBridge
