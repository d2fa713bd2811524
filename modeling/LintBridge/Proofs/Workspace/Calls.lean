import LintBridge.Proofs.Workspace.Allowed
import LintBridge.Proofs.Workspace.Analysis
import LintBridge.Proofs.Workspace.Upkeep

namespace LintBridge

/-- The error of a result. -/
def errorOf {ε α : Type} : Except ε α → Option ε
  | .error e => some e
  | .ok _ => none

namespace Errand

/-- Whether an errand asks the client of the session. -/
def IsCall : Errand → Prop
  | analyze _ => True
  | analyzeFile _ _ => True
  | catalog => True
  | setActive _ _ => True
  | linterVersion _ _ => True
  | engineVersion => True
  | _ => False

/-- What is wrong with what the engine's run for an errand came to: it failed, or its output cannot
be read. -/
def fault? (e : Errand) : Except EngineError String → Option EngineError
  | .error err => some err
  | .ok out =>
    match e with
    | analyze _ => errorOf (Output.parse out)
    | analyzeFile _ _ => errorOf (Output.parse out)
    | e => errorOf (e.question.read out)

/-- What a call comes to where something is wrong. -/
def failure : Errand → EngineError → Outcome
  | analyze _, _ => .analysis .failed
  | analyzeFile _ _, _ => .analysis .failed
  | catalog, _ => .linters []
  | setActive _ _, _ => .activated none
  | linterVersion name _, _ => .linterVersion (.unknown name)
  | engineVersion, err => .engineVersion (.error err)
  | e, _ => e.unavailable

end Errand

/-- Whether a task at a point has neither published nor saved anything yet. -/
def Point.early : Point → Bool
  | tell _ => false
  | leave _ => false
  | done _ => false
  | _ => true

namespace Workspace

/-- Whether the client that may be asked is there. -/
def Reachable (w : Workspace) : Prop :=
  ∀ client, w.readyClient? = some client → ∃ c, w.clients[client]? = some c

/-- Whether one workspace is like another but for what its clients have learnt. -/
structure Like (w w' : Workspace) : Prop where
  session : w'.session = w.session
  progress : w'.progress = w.progress
  published : w'.published = w.published
  files : w'.files = w.files

variable {w : Workspace} {client : ClientId} {c : EngineClient}

theorem Like.refl (w : Workspace) : w.Like w := ⟨rfl, rfl, rfl, rfl⟩

/-- A step of a call changes nothing but its client. -/
theorem stepCall_like (there : w.clients[client]? = some c) (call : Call) : ∃ w',
    w.stepCall client call = (w', (c.step call).2.1) ∧
      w'.clients[client]? = some (c.step call).1 ∧ w.Like w' := by
  have within : client < w.clients.length := (List.getElem?_eq_some_iff.mp there).1
  have set : (w.clients.set client (c.step call).1)[client]? = some (c.step call).1 :=
    List.getElem?_set_self within
  unfold stepCall
  rw [there]
  dsimp only
  split
  · exact ⟨_, rfl, set, rfl, rfl, published_emit rfl, rfl⟩
  · exact ⟨_, rfl, set, rfl, rfl, rfl, rfl⟩

theorem finish_like (there : w.clients[client]? = some c) (kept : Kept) (k : Nat)
    (r : Except EngineError String) :
    (w.finish client kept k r).clients[client]? = some (c.finish kept k r) ∧
      w.Like (w.finish client kept k r) := by
  have within : client < w.clients.length := (List.getElem?_eq_some_iff.mp there).1
  rw [finish, there]
  exact ⟨List.getElem?_set_self within, rfl, rfl, rfl, rfl⟩

theorem need?_waiting (there : w.clients[client]? = some c) (held : List OperationId) (kept : Kept)
    (k : Nat) (next : Next) :
    (c.attempt? kept k = some .running →
      w.need? ⟨held, .asking client (.waiting kept k) next⟩ = some (.attempt client kept k)) ∧
    ∀ need, w.need? ⟨held, .asking client (.waiting kept k) next⟩ = some need →
      need = .attempt client kept k ∧ c.attempt? kept k = some .running := by
  cases kept with
  | version =>
    have need : w.need? ⟨held, .asking client (.waiting .version k) next⟩ =
        if c.version.isRunning k then some (.attempt client .version k) else none := by
      simp only [need?, there, Call.waiting]
    rw [need]
    refine ⟨fun running => ?_, fun need needs => ?_⟩
    · cases EngineClient.fills_of_attempt? running with
      | version there same =>
        cases EngineClient.of_map_eq_running same
        exact if_pos (Memo.isRunning_iff.mpr there)
    · split at needs
      · rename_i runs
        cases needs
        exact ⟨rfl, congrArg (Option.map (Attempt.map Reply.text)) (Memo.isRunning_iff.mp runs)⟩
      · cases needs
  | catalog =>
    have need : w.need? ⟨held, .asking client (.waiting .catalog k) next⟩ =
        if c.catalog.isRunning k then some (.attempt client .catalog k) else none := by
      simp only [need?, there, Call.waiting]
    rw [need]
    refine ⟨fun running => ?_, fun need needs => ?_⟩
    · cases EngineClient.fills_of_attempt? running with
      | catalog there same =>
        cases EngineClient.of_map_eq_running same
        exact if_pos (Memo.isRunning_iff.mpr there)
    · split at needs
      · rename_i runs
        cases needs
        exact ⟨rfl, congrArg (Option.map (Attempt.map Reply.linters)) (Memo.isRunning_iff.mp runs)⟩
      · cases needs

/-- What a task that asks a client waits for is the end of an attempt or of a run. -/
theorem of_need?_asking {held : List OperationId} {call : Call} {next : Next} {need : Need}
    (needs : w.need? ⟨held, .asking client call next⟩ = some need) :
    (∃ kept k, call = .waiting kept k ∧ need = .attempt client kept k) ∨
      ∃ a token command, call = .running a ∧ need = .command token command := by
  cases there : w.clients[client]? with
  | none =>
    simp only [need?, there] at needs
    cases needs
  | some c =>
    simp only [need?, there] at needs
    split at needs
    · split at needs
      · cases needs
        exact .inl ⟨.version, _, rfl, rfl⟩
      · cases needs
    · split at needs
      · cases needs
        exact .inl ⟨.catalog, _, rfl, rfl⟩
      · cases needs
    · cases needs
      exact .inr ⟨_, _, _, rfl, rfl⟩
    · cases needs

end Workspace

/-- How far a call has come. The engine's run for it comes to a result, and the truth value says
whether it has. -/
inductive Errand.At (e : Errand) (r : Except EngineError String) (w : Workspace) :
    Bool → Task → Prop
  | fresh : w.Reachable → At e r w false ⟨[], .begin e⟩
  | seeking : w.Reachable → At e r w false ⟨[], .seek e⟩
  | entering {client c} : w.clients[client]? = some c → At e r w false ⟨[], .enter e client⟩
  | asking {held client c} : w.clients[client]? = some c →
      At e r w false ⟨held, .asking client (.ofAsk e.question) (.errand e)⟩
  | running {held client c} : w.clients[client]? = some c →
      At e r w false ⟨held, .asking client (.running e.question) (.errand e)⟩
  | ran {held client c out} : w.clients[client]? = some c → r = .ok out →
      At e r w true ⟨held, .asking client (.ran e.question out) (.errand e)⟩
  | waiting {held told client c kept k a} : e.question = EngineClient.question kept →
      w.clients[client]? = some c → c.attempt? kept k = some a →
      (told = true → a = .finished (r.bind e.question.read)) →
      At e r w told ⟨held, .asking client (.waiting kept k) (.errand e)⟩
  | answered {held told client result} : (told = true → result = r.bind e.question.read) →
      At e r w told ⟨held, .asking client (.done result) (.errand e)⟩
  | loading {held told linter active} : (told = true → e.fault? r = none) →
      At e r w told ⟨held, .load (.linter linter active)⟩
  | saving {held told linter active config} : (told = true → e.fault? r = none) →
      At e r w told ⟨held, .save (.linter linter active) config⟩
  | telling {held told linter active} : (told = true → e.fault? r = none) →
      At e r w told ⟨held, .tell (.linter linter active)⟩
  | leaving {held told o} : (told = true → ∀ err, e.fault? r = some err → o = e.failure err) →
      At e r w told ⟨held, .leave o⟩
  | ended {told o} : (told = true → ∀ err, e.fault? r = some err → o = e.failure err) →
      At e r w told ⟨[], .done o⟩

/-- What a call keeps to, begun in one workspace and come to another: the session is the one it
found, and the operations running are those it found and those it holds. Until it publishes or saves
something, and altogether where something is wrong with the engine's run, neither is done. -/
structure Errand.OnCall (e : Errand) (r : Except EngineError String) (first w : Workspace)
    (told : Bool) (t : Task) : Prop where
  at' : e.At r w told t
  session : w.session = first.session
  active : w.progress.active = t.held.foldr Tracker.addRun first.progress.active
  untouched : t.point.early = true ∨ told = true ∧ e.fault? r ≠ none →
    w.published = first.published ∧ w.files = first.files

namespace Errand

section Steps

variable {e : Errand} {r : Except EngineError String} {first w w' : Workspace} {told : Bool}
  {t : Task}

theorem advance_call (call : e.IsCall) :
    w.advance ⟨[], .begin e⟩ = (w, ⟨[], .seek e⟩) ∨
      w.advance ⟨[], .begin e⟩ = (w, ⟨[], .done (.analysis .filtered)⟩) := by
  cases why : e.trigger? with
  | some trigger =>
    rw [Site.advance_analysis w [] why]
    cases w.filters trigger with
    | true => exact .inr rfl
    | false => exact .inl rfl
  | none =>
    cases e with
    | analyze | analyzeFile => cases why
    | start | install | look | shutdown | ask => exact call.elim
    | _ => exact .inl rfl

theorem advance_seek :
    (w.readyClient? = none ∧ w.advance ⟨[], .seek e⟩ = (w, ⟨[], .done e.unavailable⟩)) ∨
      ∃ client, w.readyClient? = some client ∧
        w.advance ⟨[], .seek e⟩ = (w, ⟨[], .enter e client⟩) := by
  cases ready : w.readyClient? with
  | none => exact .inl ⟨rfl, by simp only [Workspace.advance, ready]⟩
  | some client => exact .inr ⟨client, rfl, by simp only [Workspace.advance, ready]⟩

theorem advance_load (held : List OperationId) (c : Change) :
    (∃ config, w.advance ⟨held, .load c⟩ = (w, ⟨held, .save c config⟩)) ∨
      w.advance ⟨held, .load c⟩ = (w, ⟨held, .tell c⟩) := by
  simp only [Workspace.advance]
  split
  · exact .inl ⟨_, rfl⟩
  · exact .inr rfl

theorem ofAsk_going (a : Ask) (result : Except EngineError Reply) :
    Call.ofAsk a ≠ .done result := by
  cases a <;> exact nofun

theorem waiting_going (kept : Kept) (k : Nat) (result : Except EngineError Reply) :
    Call.waiting kept k ≠ .done result := by
  cases kept <;> exact nofun

theorem ofAsk_ne_waiting (a : Ask) (kept : Kept) (k : Nat) : Call.ofAsk a ≠ .waiting kept k := by
  cases a <;> cases kept <;> exact nofun

theorem ofAsk_ne_running (a b : Ask) : Call.ofAsk a ≠ .running b := by
  cases a <;> exact nofun

/-- A call that is silent for a step keeps to what it kept to. -/
theorem OnCall.silent (calls : e.OnCall r first w told t) {held : List OperationId} {point : Point}
    (like : w.Like w') (early : point.early = true → t.point.early = true)
    (held' : held = t.held) (next : e.At r w' told ⟨held, point⟩) :
    e.OnCall r first w' told ⟨held, point⟩ := by
  subst held'
  refine ⟨next, like.session.trans calls.session, ?_, fun still => ?_⟩
  · rw [like.progress]
    exact calls.active
  · obtain ⟨published, files⟩ := calls.untouched (still.imp_left early)
    exact ⟨like.published.trans published, like.files.trans files⟩

/-- Where an errand is no analysis, what is wrong is what is wrong with the reply. -/
theorem fault?_of_other (other : e.trigger? = none) (r : Except EngineError String) :
    e.fault? r = errorOf (r.bind e.question.read) := by
  cases r with
  | error err => rfl
  | ok out =>
    cases e with
    | analyze | analyzeFile => cases other
    | _ => simp only [fault?, Except.bind]

theorem answered_of_other (call : e.IsCall) (other : e.trigger? = none)
    (result : Except EngineError Reply) :
    (∃ linter active, w.answered e result = (w, .load (.linter linter active)) ∧
      ∀ err, result ≠ .error err) ∨
    ∃ o, w.answered e result = (w, .leave o) ∧ ∀ err, result = .error err → o = e.failure err := by
  cases e with
  | analyze | analyzeFile => cases other
  | start | install | look | shutdown | ask => exact call.elim
  | setActive linter active =>
    cases result with
    | ok reply => exact .inl ⟨linter, active, rfl, nofun⟩
    | error err => exact .inr ⟨_, rfl, fun _ _ => rfl⟩
  | engineVersion =>
    cases result with
    | ok reply => cases reply <;> exact .inr ⟨_, rfl, nofun⟩
    | error err => exact .inr ⟨_, rfl, fun _ same => by cases same; rfl⟩
  | catalog | linterVersion =>
    cases result with
    | ok reply => cases reply <;> exact .inr ⟨_, rfl, nofun⟩
    | error err => exact .inr ⟨_, rfl, fun _ _ => rfl⟩

theorem answered_of_analysis {trigger : Trigger} (why : e.trigger? = some trigger)
    (result : Except EngineError Reply) :
    w.answered e result = (w, .leave (.analysis .failed)) ∨
    ∃ raw report files, result = .ok (.text raw) ∧ Output.parse raw = .ok report ∧
      w.answered e result = (w.publish files, .leave (.analysis (.published files.length))) := by
  have published (files : Report → List (String × List Diagnostic)) :
      w.publishOutput files result = (w, .leave (.analysis .failed)) ∨
      ∃ raw report files', result = .ok (.text raw) ∧ Output.parse raw = .ok report ∧
        w.publishOutput files result =
          (w.publish files', .leave (.analysis (.published files'.length))) := by
    unfold Workspace.publishOutput
    split
    · rename_i raw
      cases converted : Output.convert raw w.project with
      | ok report =>
        obtain ⟨results, parsed, _⟩ := Output.of_convert converted
        exact .inr ⟨raw, results, files report, rfl, parsed, rfl⟩
      | error err => exact .inl rfl
    · exact .inl rfl
  cases e with
  | analyze =>
    rw [Workspace.answered]
    exact published _
  | analyzeFile =>
    rw [Workspace.answered]
    exact published _
  | _ => cases why

theorem analysis_of_trigger {trigger : Trigger} (why : e.trigger? = some trigger) :
    (∀ out, e.question.read out = .ok (.text out)) ∧
      (∀ out, e.fault? (.ok out) = errorOf (Output.parse out)) ∧
      ∀ err, e.failure err = .analysis .failed := by
  cases e with
  | analyze | analyzeFile => exact ⟨fun _ => rfl, fun _ => rfl, fun _ => rfl⟩
  | _ => cases why

/-- What a call comes to with its reply is what the engine's run makes of it. -/
theorem OnCall.answer {held : List OperationId} {client : ClientId}
    {result : Except EngineError Reply} (call : e.IsCall)
    (calls : e.OnCall r first w told ⟨held, .asking client (.done result) (.errand e)⟩)
    (read : told = true → result = r.bind e.question.read) :
    e.OnCall r first (w.answered e result).1 told ⟨held, (w.answered e result).2⟩ := by
  cases why : e.trigger? with
  | none =>
    have faulty (is : told = true) : e.fault? r = errorOf result := by
      rw [fault?_of_other why, read is]
    rcases answered_of_other (w := w) call why result with
      ⟨linter, active, next, well⟩ | ⟨o, next, fails⟩
    · rw [next]
      refine calls.silent (.refl w) (fun _ => rfl) rfl (.loading fun is => ?_)
      rw [faulty is]
      cases result with
      | ok reply => rfl
      | error err => exact absurd rfl (well err)
    · rw [next]
      refine calls.silent (.refl w) (fun _ => rfl) rfl (.leaving fun is err wrong => ?_)
      rw [faulty is] at wrong
      cases result with
      | ok reply => cases wrong
      | error err' =>
        cases wrong
        exact fails err rfl
  | some trigger =>
    obtain ⟨reads, faults, failed⟩ := analysis_of_trigger why
    rcases answered_of_analysis (w := w) why result with
      next | ⟨raw, report, files, rfl, parsed, next⟩
    · rw [next]
      exact calls.silent (.refl w) (fun _ => rfl) rfl
        (.leaving fun _ err _ => (failed err).symm)
    · -- an output that gave a report was read
      have none (is : told = true) : e.fault? r = none := by
        have same := read is
        cases r with
        | error err => cases same
        | ok out =>
          rw [Except.bind, reads] at same
          cases same
          rw [faults, parsed]
          rfl
      rw [next]
      refine ⟨.leaving fun is err wrong => ?_, calls.session, calls.active, ?_⟩
      · rw [none is] at wrong
        cases wrong
      · rintro (early | ⟨is, wrong⟩)
        · cases early
        · exact absurd (none is) wrong

/-- A call keeps to what it kept to as it goes on. -/
theorem OnCall.advance (call : e.IsCall) (sound : first.Proper) (proper : w.Proper)
    (calls : e.OnCall r first w told t) :
    e.OnCall r first (w.advance t).1 told (w.advance t).2 := by
  have unsaid {P : Prop} (is : false = true) : P := by cases is
  cases calls.at' with
  | fresh reach =>
    rcases advance_call (w := w) call with next | next
    · rw [next]
      exact calls.silent (.refl w) (fun _ => rfl) rfl (.seeking reach)
    · rw [next]
      exact calls.silent (.refl w) (fun _ => rfl) rfl (.ended unsaid)
  | seeking reach =>
    rcases advance_seek (w := w) (e := e) with ⟨_, next⟩ | ⟨client, ready, next⟩
    · rw [next]
      exact calls.silent (.refl w) (fun _ => rfl) rfl (.ended unsaid)
    · obtain ⟨c, there⟩ := reach client ready
      rw [next]
      exact calls.silent (.refl w) (fun _ => rfl) rfl (.entering there)
  | @entering client c there =>
    -- the one operation that the call holds from here on
    rw [w.advance_enter [] client e]
    refine ⟨.asking there, calls.session, ?_, fun _ => ?_⟩
    · exact (w.progress.enqueue_active _).trans (congrArg (Tracker.addRun _) calls.active)
    · obtain ⟨published, files⟩ := calls.untouched (.inl rfl)
      exact ⟨(Workspace.published_enqueue _).trans published, files⟩
  | @asking held client c there =>
    obtain ⟨w', stepped, set, like⟩ := Workspace.stepCall_like there (.ofAsk e.question)
    rw [w.advance_asking held client (ofAsk_going _) _, stepped]
    refine calls.silent like (fun _ => rfl) rfl ?_
    -- an answer that is kept may be there, or an attempt at it; anything else is run for at once
    rcases EngineClient.ofAsk_cases e.question with ⟨kept, same⟩ | other
    · have keeps := proper.clients c (List.mem_of_getElem? there)
      rw [same] at set ⊢
      rcases keeps.step_ofAsk kept with ⟨result, done⟩ | ⟨k, a, waits, attempt⟩
      · rw [done]
        exact .answered unsaid
      · rw [waits]
        exact .waiting same set attempt unsaid
    · rw [other] at set ⊢
      exact .running set
  | @running held client c there =>
    obtain ⟨w', stepped, set, like⟩ := Workspace.stepCall_like there (.running e.question)
    rw [w.advance_asking held client (fun _ => Call.noConfusion) _, stepped]
    exact calls.silent like (fun _ => rfl) rfl (.running set)
  | @ran held client c out there ended =>
    obtain ⟨w', stepped, _, like⟩ := Workspace.stepCall_like there (.ran e.question out)
    rw [w.advance_asking held client (fun _ => Call.noConfusion) _, stepped]
    exact calls.silent like (fun _ => rfl) rfl (.answered fun _ => by rw [ended]; rfl)
  | @waiting held _ client c kept k a asks there attempt ended =>
    obtain ⟨w', stepped, set, like⟩ := Workspace.stepCall_like there (.waiting kept k)
    rw [w.advance_asking held client (waiting_going kept k) _, stepped]
    refine calls.silent like (fun _ => rfl) rfl ?_
    rcases EngineClient.inFlight_or_finished attempt with ⟨going, not⟩ | ⟨result, rfl⟩
    · obtain ⟨waits, running⟩ := EngineClient.step_of_inFlight going
      rw [waits]
      exact .waiting asks set running fun is => absurd (ended is) (not _)
    · rw [EngineClient.step_of_finished attempt]
      exact .answered fun is => Attempt.finished.inj (ended is)
  | answered read => exact calls.answer call read
  | @loading held _ linter active well =>
    rcases advance_load (w := w) held (.linter linter active) with ⟨config, next⟩ | next
    · rw [next]
      exact calls.silent (.refl w) (fun _ => rfl) rfl (.saving well)
    · rw [next]
      exact calls.silent (.refl w) (fun _ => rfl) rfl (.telling well)
  | saving well =>
    -- this step changes a file, but then nothing was wrong
    refine ⟨.telling well, calls.session, calls.active, ?_⟩
    rintro (early | ⟨is, wrong⟩)
    · cases early
    · exact absurd (well is) wrong
  | telling well =>
    refine calls.silent (.refl w) id rfl (.leaving fun is err wrong => ?_)
    rw [well is] at wrong
    cases wrong
  | @leaving held _ o outcome =>
    cases held with
    | nil => exact calls.silent (.refl w) id rfl (.ended outcome)
    | cons id held =>
      refine ⟨.leaving outcome, calls.session, ?_, fun still => ?_⟩
      · exact Tracker.dequeue_of_addRun (Tracker.pos_addRuns sound.progress.positive held)
          calls.active
      · obtain ⟨published, files⟩ := calls.untouched still
        exact ⟨(Workspace.published_dequeue id).trans published, files⟩
  | ended outcome => exact calls.silent (.refl w) id rfl (.ended outcome)

/-- What a call waits for, and where it stands as it does. -/
inductive Needs (e : Errand) (w : Workspace) : Task → Need → Prop
  | command {held client c token command} : w.clients[client]? = some c →
      Needs e w ⟨held, .asking client (.running e.question) (.errand e)⟩ (.command token command)
  | attempt {held client c kept k} : e.question = EngineClient.question kept →
      w.clients[client]? = some c → c.attempt? kept k = some .running →
      Needs e w ⟨held, .asking client (.waiting kept k) (.errand e)⟩ (.attempt client kept k)

theorem At.needs {need : Need} (at' : e.At r w told t) (waits : w.need? t = some need) :
    e.Needs w t need := by
  cases at' with
  | asking there =>
    rcases Workspace.of_need?_asking waits with ⟨kept, k, same, _⟩ | ⟨a, _, _, same, _⟩
    · exact absurd same (ofAsk_ne_waiting _ kept k)
    · exact absurd same (ofAsk_ne_running _ a)
  | running there =>
    rcases Workspace.of_need?_asking waits with ⟨kept, k, same, _⟩ | ⟨a, _, _, _, rfl⟩
    · cases kept <;> cases same
    · exact .command there
  | ran =>
    rcases Workspace.of_need?_asking waits with ⟨kept, k, same, _⟩ | ⟨a, _, _, same, _⟩
    · cases kept <;> cases same
    · cases same
  | waiting asks there attempt ended =>
    obtain ⟨rfl, running⟩ := (Workspace.need?_waiting there _ _ _ _).2 _ waits
    exact .attempt asks there running
  | answered =>
    rcases Workspace.of_need?_asking waits with ⟨kept, k, same, _⟩ | ⟨a, _, _, same, _⟩
    · exact absurd same.symm (waiting_going kept k _)
    · cases same
  | _ => cases waits

/-- A call keeps to what it kept to as the engine's run for it comes to its result. -/
theorem OnCall.receive (calls : e.OnCall r first w told t) {token : Token} {command : Command}
    (waits : w.need? t = some (.command token command)) :
    e.OnCall r first (w.receive t (.ran r)).1 true (w.receive t (.ran r)).2 := by
  cases calls.at'.needs waits with
  | @command held client c _ _ there =>
    have still := calls.untouched (.inl rfl)
    cases r with
    | error err => exact ⟨.answered fun _ => rfl, calls.session, calls.active, fun _ => still⟩
    | ok out =>
      have received : w.receive ⟨held, .asking client (.running e.question) (.errand e)⟩
          (.ran (.ok out)) = (w, ⟨held, .asking client (if e.question.changesCatalog then
            .ran e.question out else .done (e.question.read out)) (.errand e)⟩) := rfl
      rw [received]
      split
      · exact ⟨.ran there rfl, calls.session, calls.active, fun _ => still⟩
      · exact ⟨.answered fun _ => rfl, calls.session, calls.active, fun _ => still⟩

/-- A call keeps to what it kept to as the run that it waits for comes to its result. -/
theorem OnCall.finish (calls : e.OnCall r first w told t) {client : ClientId} {kept : Kept}
    {k : Nat} (waits : w.need? t = some (.attempt client kept k)) :
    e.OnCall r first (w.finish client kept k r) true t := by
  cases calls.at'.needs waits with
  | attempt asks there running =>
    obtain ⟨set, like⟩ := Workspace.finish_like there kept k r
    have ended := EngineClient.attempt?_finish running r
    rw [← asks] at ended
    obtain ⟨published, files⟩ := calls.untouched (.inl rfl)
    refine ⟨.waiting asks set ended fun _ => rfl, like.session.trans calls.session, ?_, fun _ =>
      ⟨like.published.trans published, like.files.trans files⟩⟩
    rw [like.progress]
    exact calls.active

end Steps

end Errand

end LintBridge
