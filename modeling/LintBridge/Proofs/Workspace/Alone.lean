import LintBridge.Proofs.Workspace.Calls

namespace LintBridge

namespace Site

/-- The sites that a task comes to on its own, where the engine's run for it comes to a result;
`told` says whether it has. -/
inductive Alone (n : Nat) (r : Except EngineError String) (first : Site) : Bool → Site → Prop
  | start : Alone n r first false first
  | goOn {told s} : Alone n r first told s → Alone n r first told (s.move (.advance n))
  | answer {told s token command} : Alone n r first told s →
      s.need? n = some (.command token command) →
      Alone n r first true (s.move (.receive n (.ran r)))
  | finish {told s client kept k} : Alone n r first told s →
      s.need? n = some (.attempt client kept k) →
      Alone n r first true (s.move (.finish client kept k r))

/-- Whether a task on its own can come to its end. -/
def Ends (n : Nat) (r : Except EngineError String) (s : Site) : Prop :=
  ∃ told last o, Alone n r s told last ∧ last.outcome? n = some o

variable {n : Nat} {r : Except EngineError String} {first s last : Site} {told : Bool}

theorem Alone.trans {told' : Bool} (reached : Alone n r first told s)
    (on : Alone n r s told' last) : Alone n r first (told || told') last := by
  induction on with
  | start =>
    rw [Bool.or_false]
    exact reached
  | goOn _ ih => exact ih.goOn
  | answer _ waits ih =>
    rw [Bool.or_true]
    exact ih.answer waits
  | finish _ waits ih =>
    rw [Bool.or_true]
    exact ih.finish waits

theorem Ends.of_alone (ends : s.Ends n r) (reached : Alone n r first told s) : first.Ends n r := by
  obtain ⟨_, last, o, alone, ended⟩ := ends
  exact ⟨_, last, o, reached.trans alone, ended⟩

section Ends

variable {w w' : Workspace} {t t' : Task} {held : List OperationId} {e : Errand}
  {client : ClientId} {c : EngineClient}

theorem Stands.finish (stands : s.Stands n w t) (client : ClientId) (kept : Kept) (k : Nat)
    (r : Except EngineError String) :
    (s.move (.finish client kept k r)).Stands n (w.finish client kept k r) t := by
  obtain ⟨rfl, found⟩ := stands
  exact ⟨rfl, found⟩

theorem Stands.need? (stands : s.Stands n w t) : s.need? n = w.need? t := by
  obtain ⟨rfl, found⟩ := stands
  rw [Site.need?, found]
  rfl

theorem Ends.advance (stands : s.Stands n w t) (next : w.advance t = (w', t'))
    (ends : ∀ s : Site, s.Stands n w' t' → s.Ends n r) : s.Ends n r :=
  (ends _ (stands.advance next)).of_alone (.goOn .start)

theorem ends_done {o : Outcome} (stands : s.Stands n w ⟨held, .done o⟩) : s.Ends n r := by
  refine ⟨false, s, o, .start, ?_⟩
  rw [outcome?, stands.2]
  rfl

theorem ends_leave {o : Outcome} (stands : s.Stands n w ⟨held, .leave o⟩) : s.Ends n r := by
  induction held generalizing s w with
  | nil => exact .advance stands rfl fun _ => ends_done
  | cons id held ih => exact .advance stands rfl fun _ => ih

theorem ends_tell {linter : String} {active : Bool}
    (stands : s.Stands n w ⟨held, .tell (.linter linter active)⟩) : s.Ends n r :=
  .advance stands rfl fun _ => ends_leave

theorem ends_load {linter : String} {active : Bool}
    (stands : s.Stands n w ⟨held, .load (.linter linter active)⟩) : s.Ends n r := by
  rcases Errand.advance_load (w := w) held (.linter linter active) with ⟨config, next⟩ | next
  · exact .advance stands next fun _ saving => .advance saving rfl fun _ => ends_tell
  · exact .advance stands next fun _ => ends_tell

theorem ends_answered (call : e.IsCall) {result : Except EngineError Reply}
    (stands : s.Stands n w ⟨held, .asking client (.done result) (.errand e)⟩) : s.Ends n r := by
  have next := w.advance_answered held client e result
  cases why : e.trigger? with
  | none =>
    rcases Errand.answered_of_other (w := w) call why result with ⟨_, _, same, _⟩ | ⟨_, same, _⟩
    · rw [same] at next
      exact .advance stands next fun _ => ends_load
    · rw [same] at next
      exact .advance stands next fun _ => ends_leave
  | some trigger =>
    rcases Errand.answered_of_analysis (w := w) why result with same | ⟨_, _, _, _, _, same⟩
    · rw [same] at next
      exact .advance stands next fun _ => ends_leave
    · rw [same] at next
      exact .advance stands next fun _ => ends_leave

theorem ends_ran (call : e.IsCall) (there : w.clients[client]? = some c) {out : String}
    (stands : s.Stands n w ⟨held, .asking client (.ran e.question out) (.errand e)⟩) :
    s.Ends n r := by
  obtain ⟨w', stepped, _⟩ := Workspace.stepCall_like there (.ran e.question out)
  have going (result : Except EngineError Reply) : Call.ran e.question out ≠ .done result := nofun
  have next := w.advance_asking held client going (.errand e)
  rw [stepped] at next
  exact .advance stands next fun _ => ends_answered call

theorem ends_running (call : e.IsCall) (there : w.clients[client]? = some c)
    (stands : s.Stands n w ⟨held, .asking client (.running e.question) (.errand e)⟩) :
    s.Ends n r := by
  have waits : w.need? ⟨held, .asking client (.running e.question) (.errand e)⟩ =
      some (.command c.token (c.command e.question)) := by
    simp only [Workspace.need?, there]
  have told : Alone n r s true (s.move (.receive n (.ran r))) :=
    .answer .start (stands.need?.trans waits)
  have received := stands.receive (a := .ran r) rfl
  refine Ends.of_alone ?_ told
  cases r with
  | error err => exact ends_answered call received
  | ok out =>
    by_cases changes : e.question.changesCatalog = true
    · have same : Call.receive (.ok out) (.running e.question) = .ran e.question out :=
        if_pos changes
      rw [same] at received
      exact ends_ran call there received
    · have same : Call.receive (.ok out) (.running e.question) = .done (e.question.read out) :=
        if_neg changes
      rw [same] at received
      exact ends_answered call received

theorem ends_finished (call : e.IsCall) (there : w.clients[client]? = some c) {kept : Kept}
    {k : Nat} {result : Except EngineError Reply}
    (finished : c.attempt? kept k = some (.finished result))
    (stands : s.Stands n w ⟨held, .asking client (.waiting kept k) (.errand e)⟩) : s.Ends n r := by
  obtain ⟨w', stepped, _⟩ := Workspace.stepCall_like there (.waiting kept k)
  have next := w.advance_asking held client (Errand.waiting_going kept k) (.errand e)
  rw [stepped, EngineClient.step_of_finished finished] at next
  exact .advance stands next fun _ => ends_answered call

theorem ends_waiting (call : e.IsCall) (there : w.clients[client]? = some c) {kept : Kept} {k : Nat}
    {a : Attempt EngineError Reply} (attempt : c.attempt? kept k = some a)
    (stands : s.Stands n w ⟨held, .asking client (.waiting kept k) (.errand e)⟩) : s.Ends n r := by
  rcases EngineClient.inFlight_or_finished attempt with ⟨going, _⟩ | ⟨result, rfl⟩
  · obtain ⟨w', stepped, set, _⟩ := Workspace.stepCall_like there (.waiting kept k)
    obtain ⟨waits, running⟩ := EngineClient.step_of_inFlight going
    have next := w.advance_asking held client (Errand.waiting_going kept k) (.errand e)
    rw [stepped, waits] at next
    refine .advance stands next fun s stands => ?_
    -- now the attempt runs, and its run is waited for
    have needs := (Workspace.need?_waiting set held kept k (.errand e)).1 running
    obtain ⟨set', _⟩ := Workspace.finish_like set kept k r
    exact (ends_finished call set' (EngineClient.attempt?_finish running r)
      (stands.finish client kept k r)).of_alone (.finish .start (stands.need?.trans needs))
  · exact ends_finished call there attempt stands

theorem ends_asking (call : e.IsCall) (proper : w.Proper) (there : w.clients[client]? = some c)
    (stands : s.Stands n w ⟨held, .asking client (.ofAsk e.question) (.errand e)⟩) :
    s.Ends n r := by
  obtain ⟨w', stepped, set, _⟩ := Workspace.stepCall_like there (.ofAsk e.question)
  have next := w.advance_asking held client (Errand.ofAsk_going e.question) (.errand e)
  rw [stepped] at next
  rcases EngineClient.ofAsk_cases e.question with ⟨kept, same⟩ | other
  · have keeps := proper.clients c (List.mem_of_getElem? there)
    rw [same] at stands set next
    rcases keeps.step_ofAsk kept with ⟨result, done⟩ | ⟨k, a, waits, attempt⟩
    · rw [done] at next
      exact .advance stands next fun _ => ends_answered call
    · rw [waits] at next
      exact .advance stands next fun _ => ends_waiting call set attempt
  · rw [other] at stands set next
    exact .advance stands next fun _ => ends_running call set

theorem ends_seeking (call : e.IsCall) (proper : w.Proper) (reach : w.Reachable)
    (stands : s.Stands n w ⟨[], .seek e⟩) : s.Ends n r := by
  rcases Errand.advance_seek (w := w) (e := e) with ⟨_, next⟩ | ⟨client, ready, next⟩
  · exact .advance stands next fun _ => ends_done
  · obtain ⟨c, there⟩ := reach client ready
    exact .advance stands next fun _ entering => .advance entering (w.advance_enter [] client e)
      fun _ => ends_asking call (proper.enqueue _) there

/-- Wherever a call stands, it can come to its end on its own. -/
theorem ends_call (call : e.IsCall) (proper : w.Proper) (at' : e.At r w told t)
    (stands : s.Stands n w t) : s.Ends n r := by
  cases at' with
  | fresh reach =>
    rcases Errand.advance_call (w := w) call with next | next
    · exact .advance stands next fun _ => ends_seeking call proper reach
    · exact .advance stands next fun _ => ends_done
  | seeking reach => exact ends_seeking call proper reach stands
  | @entering client c there =>
    exact .advance stands (w.advance_enter [] client e) fun _ =>
      ends_asking call (proper.enqueue _) there
  | asking there => exact ends_asking call proper there stands
  | running there => exact ends_running call there stands
  | ran there => exact ends_ran call there stands
  | waiting _ there attempt => exact ends_waiting call there attempt stands
  | answered => exact ends_answered call stands
  | loading => exact ends_load stands
  | saving => exact .advance stands rfl fun _ => ends_tell
  | telling => exact ends_tell stands
  | leaving => exact ends_leave stands
  | ended => exact ends_done stands

end Ends

section Scoped

variable {e : Errand} {w : Workspace}

/-- Whether a call stands in a site as it does that has begun in a workspace. -/
def OnCall (e : Errand) (n : Nat) (r : Except EngineError String) (first : Workspace) (told : Bool)
    (s : Site) : Prop :=
  s.workspace.Proper ∧ ∃ t, s.task? n = some t ∧ e.OnCall r first s.workspace told t

/-- Wherever a call comes to on its own, it keeps to what it began with. -/
theorem OnCall.alone (call : e.IsCall) (sound : w.Proper) (calls : OnCall e n r w false first)
    (alone : Alone n r first told last) : OnCall e n r w told last := by
  induction alone with
  | start => exact calls
  | @goOn told s _ ih =>
    obtain ⟨proper, t, found, calls⟩ := ih
    obtain ⟨same, found'⟩ := Stands.advance ⟨rfl, found⟩ rfl
    refine ⟨proper_move proper _, _, found', ?_⟩
    rw [same]
    exact calls.advance call sound proper
  | @answer told s token command _ waits ih =>
    obtain ⟨proper, t, found, calls⟩ := ih
    obtain ⟨same, found'⟩ := Stands.receive (a := .ran r) ⟨rfl, found⟩ rfl
    rw [Site.need?, found] at waits
    refine ⟨proper_move proper _, _, found', ?_⟩
    rw [same]
    exact calls.receive waits
  | @finish told s client kept k _ waits ih =>
    obtain ⟨proper, t, found, calls⟩ := ih
    rw [Site.need?, found] at waits
    exact ⟨proper_move proper _, t, found, calls.finish waits⟩

theorem OnCall.ends (call : e.IsCall) (calls : OnCall e n r w told s) : s.Ends n r := by
  obtain ⟨proper, t, found, calls⟩ := calls
  exact ends_call call proper calls.at' ⟨rfl, found⟩

/-- A call that has come to its end has ended the runs that it began. -/
theorem OnCall.active (calls : OnCall e n r w told s) {o : Outcome}
    (ended : s.outcome? n = some o) : s.workspace.progress.active = w.progress.active := by
  obtain ⟨_, t, found, calls⟩ := calls
  rw [outcome?, found] at ended
  cases calls.at' with
  | ended => exact calls.active
  | _ => cases ended

/-- Where something is wrong with what the engine's run came to, a call has done nothing, and comes
to what tells so. -/
theorem OnCall.failed (calls : OnCall e n r w true s) {err : EngineError}
    (wrong : e.fault? r = some err) :
    s.workspace.published = w.published ∧ s.workspace.files = w.files ∧
      ∀ o, s.outcome? n = some o → o = e.failure err := by
  obtain ⟨_, t, found, calls⟩ := calls
  have faulty : e.fault? r ≠ none := by
    rw [wrong]
    exact Option.some_ne_none err
  obtain ⟨published, files⟩ := calls.untouched (.inr ⟨rfl, faulty⟩)
  refine ⟨published, files, fun o ended => ?_⟩
  rw [outcome?, found] at ended
  cases calls.at' with
  | ended told =>
    cases ended
    exact told rfl err wrong
  | _ => cases ended

end Scoped

end Site

end LintBridge
