import LintBridge.Workspace.Site

namespace LintBridge

/-- What of a workspace bears on its session. -/
structure Standing where
  project : Path
  image : String
  session : Session
  /-- The engines of all clients so far, each with what cancels it. -/
  clients : List (Engine × Token)
  tokens : Nat
  cancelled : List Token
  /-- How often the editor was told that there is no engine. -/
  notices : Nat

namespace Standing

/-- The start that would take the session over now. -/
def startOf (σ : Standing) (s : Settings) (mayInstall : Bool) (installed : Option Path) : Start :=
  ⟨σ.session.generation + 1, σ.tokens, s, mayInstall, installed⟩

/-- The engine that settings name. -/
def engineOf (σ : Standing) (s : Settings) : Engine := ⟨s.engineDir, σ.project, s.mode, σ.image⟩

/-- The session takes new settings. -/
def takeOver (σ : Standing) (s : Settings) : Standing :=
  { σ with
    cancelled := σ.session.token :: σ.cancelled
    tokens := σ.tokens + 1
    session := ⟨.initializing, s, none, σ.tokens, σ.session.generation + 1⟩ }

/-- A client for the settings of a start is made. -/
def engage (σ : Standing) (s : Start) : Standing :=
  { σ with clients := σ.clients ++ [(σ.engineOf s.settings, s.token)] }

/-- A start becomes the session. -/
def ready (σ : Standing) (s : Start) (client : ClientId) : Standing :=
  { σ with session := { σ.session with
      phase := .ready, client := some client, settings := s.settings } }

/-- A start ends without an engine. -/
def rest (σ : Standing) (p : Phase) : Standing :=
  { σ with session := { σ.session with phase := p } }

/-- The session ends. -/
def close (σ : Standing) : Standing :=
  { σ with
    cancelled := σ.session.token :: σ.cancelled
    session := { σ.session with
      phase := .uninitialized, client := none, generation := σ.session.generation + 1 } }

/-- The editor is told that there is no engine. -/
def notice (σ : Standing) : Standing := { σ with notices := σ.notices + 1 }

end Standing

/-- What a task does that bears on the session. -/
inductive Deed where
  /-- It has come, and is to start the session with settings. -/
  | arrive (s : Settings)
  /-- It has come, and is to install an engine. -/
  | request
  | takeOver (s : Start)
  /-- Its start becomes the session. -/
  | ready (s : Start) (client : ClientId)
  /-- Its start was cancelled, and ends. -/
  | withdraw (s : Start)
  /-- Its start has found no engine. -/
  | fail (s : Start)
  /-- It tells the editor that its start has found no engine. -/
  | tell (s : Start)
  /-- It is gone before it could tell. -/
  | mute (s : Start)
  | close
  deriving DecidableEq

/-- What a task has at stake in the session. -/
inductive Stake where
  | bystander
  /-- It is to take the session over. -/
  | heir (s : Settings) (mayInstall : Bool) (installed : Option Path)
  /-- It is to install an engine, and has not looked at the session. -/
  | asked
  /-- It installs an engine for what the session was when it looked. -/
  | renewing (s : Settings) (token : Token)
  /-- It has taken the session over, and has no client to give it. -/
  | starting (s : Start)
  | engaged (s : Start) (client : ClientId)
  /-- Its start has found no engine, which is not told yet. -/
  | failed (s : Start)
  | leaving (o : Outcome)
  | gone

/-- The start that a task is at work on. -/
def Stake.start? : Stake → Option Start
  | starting s => some s
  | engaged s _ => some s
  | _ => none

/-- Whether a start is another one, but for an engine that was installed on the way. -/
def Start.IsOf (s' s : Start) : Prop :=
  s' = s ∨ ∃ path, s' = { s with settings := s.settings.withInstalled s.settings.mode path }

theorem Start.IsOf.generation {s' s : Start} (of : s'.IsOf s) : s'.generation = s.generation := by
  rcases of with rfl | ⟨path, rfl⟩ <;> rfl

theorem Start.IsOf.token {s' s : Start} (of : s'.IsOf s) : s'.token = s.token := by
  rcases of with rfl | ⟨path, rfl⟩ <;> rfl

/-- All that a task can do, with what it has at stake before and after. -/
inductive Stake.Step (σ : Standing) : Stake → Option Deed → Standing → Stake → Prop
  | stay {k} : Step σ k none σ k
  | takeOver {s mayInstall installed} :
      Step σ (.heir s mayInstall installed)
        (some (.takeOver (σ.startOf s mayInstall installed))) (σ.takeOver s)
        (.starting (σ.startOf s mayInstall installed))
  | look : Step σ .asked none σ (.renewing σ.session.settings σ.session.token)
  | renew {s token mode path} :
      Step σ (.renewing s token) none σ (.heir (s.withInstalled mode path) false (some path))
  | giveUp {s token e} :
      Step σ (.renewing s token) none σ (.leaving (.installed (.error e)))
  | engage {s s'} : s'.IsOf s →
      Step σ (.starting s) none (σ.engage s') (.engaged s' σ.clients.length)
  | lose {s client} : Step σ (.engaged s client) none σ (.starting s)
  | ready {s client} : σ.session.generation = s.generation →
      Step σ (.engaged s client) (some (.ready s client)) (σ.ready s client)
        (.leaving (s.outcome .ready))
  | withdraw {s} : σ.session.generation = s.generation →
      Step σ (.starting s) (some (.withdraw s)) (σ.rest .uninitialized)
        (.leaving (s.outcome .uninitialized))
  | fail {s} : σ.session.generation = s.generation →
      Step σ (.starting s) (some (.fail s)) (σ.rest .error) (.failed s)
  | overtaken {k s} : k.start? = some s → σ.session.generation ≠ s.generation →
      Step σ k none σ (.leaving (s.outcome σ.session.phase))
  | tell {s} : Step σ (.failed s) (some (.tell s)) σ.notice (.leaving (s.outcome .error))
  | close : Step σ .bystander (some .close) σ.close .bystander
  | depart {o} : Step σ .bystander none σ (.leaving o)

/-- Whatever a task does, the number of the session does not fall. -/
theorem Stake.Step.generation_le {σ σ' : Standing} {k k' : Stake} {d : Option Deed}
    (step : Stake.Step σ k d σ' k') : σ.session.generation ≤ σ'.session.generation := by
  cases step with
  | takeOver | close => exact Nat.le_succ _
  | _ => exact Nat.le_refl _

/-- A task gets a start by taking the session over only. -/
theorem Stake.Step.start?_of {σ σ' : Standing} {k k' : Stake} {d : Option Deed}
    (step : Stake.Step σ k d σ' k') {s' : Start} (start' : k'.start? = some s') :
    (∃ s, k.start? = some s ∧ s'.IsOf s) ∨
      d = some (.takeOver s') ∧ s'.generation = σ.session.generation + 1 := by
  cases step with
  | stay => exact .inl ⟨s', start', .inl rfl⟩
  | takeOver =>
    cases start'
    exact .inr ⟨rfl, rfl⟩
  | engage of =>
    cases start'
    exact .inl ⟨_, rfl, of⟩
  | lose =>
    cases start'
    exact .inl ⟨_, rfl, .inl rfl⟩
  | _ => cases start'

/-- What a task that installs for a purpose has at stake. -/
def Purpose.stake : Purpose → Stake
  | bootstrap s => .starting s
  | renewal s token _ => .renewing s token

/-- What a task that changes the project's file has at stake. -/
def Change.stake : Change → Stake
  | bootstrap s client => .engaged s client
  | renewal s path => .heir s false (some path)
  | linter _ _ => .bystander

/-- What a task has at stake at a point. -/
def Point.stake : Point → Stake
  | begin (.start s) => .heir s true none
  | begin .install => .asked
  | begin _ => .bystander
  | takeOver s mayInstall installed => .heir s mayInstall installed
  | announce s => .starting s
  | copySettings => .asked
  | probing _ s token => .renewing s token
  | policy p => p.stake
  | installing p _ => p.stake
  | load c => c.stake
  | save c _ => c.stake
  | tell c => c.stake
  | commit s (.ok client) => .engaged s client
  | commit s (.error _) => .starting s
  | noEngine s => .failed s
  | seek _ => .bystander
  | enter _ _ => .bystander
  | asking client _ (.probe s _) => .engaged s client
  | asking _ _ (.errand _) => .bystander
  | quiet => .bystander
  | leave o => .leaving o
  | done o => .leaving o

namespace Workspace

/-- What of a workspace bears on its session. -/
def standing (w : Workspace) : Standing where
  project := w.project
  image := w.defaults.image
  session := w.session
  clients := w.clients.map fun c => (c.engine, c.token)
  tokens := w.tokens
  cancelled := w.cancelled
  notices := w.events.count .noEngine

/-- What a task does to the session as it goes on by one point. -/
def deed? (w : Workspace) (t : Task) : Option Deed :=
  match t.point with
  | .begin .shutdown => some .close
  | .takeOver s mayInstall installed =>
    some (.takeOver ⟨w.session.generation + 1, w.tokens, s, mayInstall, installed⟩)
  | .commit s result =>
    if w.session.generation = s.generation then
      match result with
      | .ok client => some (.ready s client)
      | .error e => some (if e.isCancelled then .withdraw s else .fail s)
    else none
  | .noEngine s => some (.tell s)
  | _ => none

theorem emit_standing {e : Event} (other : e ≠ .noEngine) (w : Workspace) :
    (w.emit e).standing = w.standing := by
  simp [emit, standing, other]

@[simp] theorem tracked_standing (w : Workspace) (t : Tracked) :
    (w.tracked t).standing = w.standing := by
  simp [tracked, standing, List.count_eq_zero]

@[simp] theorem enqueue_standing (w : Workspace) (id : OperationId) :
    (w.enqueue id).standing = w.standing := tracked_standing ..

@[simp] theorem dequeue_standing (w : Workspace) (id : OperationId) :
    (w.dequeue id).standing = w.standing := tracked_standing ..

@[simp] theorem hush_standing (w : Workspace) : w.hush.standing = w.standing :=
  tracked_standing ..

@[simp] theorem lookAt_standing (w : Workspace) (document : String) :
    (w.lookAt document).standing = w.standing := tracked_standing ..

@[simp] theorem publish_standing (w : Workspace) (files : List (String × List Diagnostic)) :
    (w.publish files).standing = w.standing := by
  simp [publish, standing, List.count_eq_zero]

theorem abandon_standing (w : Workspace) (t : Task) : (w.abandon t).standing = w.standing := by
  unfold abandon
  induction t.held generalizing w with
  | nil => rfl
  | cons id held ih => rw [List.foldl_cons, ih, dequeue_standing]

theorem close_standing (w : Workspace) : w.close.standing = w.standing.close := rfl

@[simp] theorem publishOutput_standing (w : Workspace)
    (files : Report → List (String × List Diagnostic)) (r : Except EngineError Reply) :
    (w.publishOutput files r).1.standing = w.standing := by
  unfold publishOutput
  split
  · split <;> simp
  · rfl

@[simp] theorem answered_standing (w : Workspace) (e : Errand) (r : Except EngineError Reply) :
    (w.answered e r).1.standing = w.standing := by
  unfold answered
  split <;> simp

/-- A client keeps its engine and its token, whatever it has learnt. -/
theorem standing_of_client {w : Workspace} {client : ClientId} {c c' : EngineClient}
    (found : w.clients[client]? = some c) (engine : c'.engine = c.engine)
    (token : c'.token = c.token) :
    standing { w with clients := w.clients.set client c' } = w.standing := by
  have same : (w.clients.map fun c => (c.engine, c.token))[client]? =
      some (c'.engine, c'.token) := by
    rw [List.getElem?_map, found, engine, token]
    rfl
  obtain ⟨within, atClient⟩ := List.getElem?_eq_some_iff.mp same
  simp only [standing, List.map_set, ← atClient, List.set_getElem_self]

theorem step_engine (c : EngineClient) (call : Call) :
    (c.step call).1.engine = c.engine ∧ (c.step call).1.token = c.token := by
  cases call <;> exact ⟨rfl, rfl⟩

theorem finish_engine (c : EngineClient) (kept : Kept) (n : Nat)
    (r : Except EngineError String) :
    (c.finish kept n r).engine = c.engine ∧ (c.finish kept n r).token = c.token := by
  cases kept <;> exact ⟨rfl, rfl⟩

@[simp] theorem stepCall_standing (w : Workspace) (client : ClientId) (call : Call) :
    (w.stepCall client call).1.standing = w.standing := by
  unfold stepCall
  cases found : w.clients[client]? with
  | none => rfl
  | some c =>
    obtain ⟨engine, token⟩ := step_engine c call
    have kept := standing_of_client found engine token
    rcases run : c.step call with ⟨c', call', _ | command⟩
    · simpa only [run] using kept
    · simpa only [run, emit_standing (by simp : Event.runs command ≠ .noEngine)] using kept

@[simp] theorem finish_standing (w : Workspace) (client : ClientId) (kept : Kept) (n : Nat)
    (r : Except EngineError String) : (w.finish client kept n r).standing = w.standing := by
  unfold finish
  cases found : w.clients[client]? with
  | none => rfl
  | some c =>
    obtain ⟨engine, token⟩ := finish_engine c kept n r
    exact standing_of_client found engine token

theorem probe_standing (w : Workspace) (s : Start) (again : Bool) :
    (w.probe s again).1.standing = w.standing.engage s := by
  simp [probe, makeClient, standing, Standing.engage, Standing.engineOf, engineOf,
    EngineClient.new]

theorem probe_stake (w : Workspace) (s : Start) (again : Bool) :
    (w.probe s again).2.stake = .engaged s w.standing.clients.length := by
  simp [probe, makeClient, standing, Point.stake]

/-- The points to which a call's answer leads an errand are of no stake. -/
theorem answered_stake (w : Workspace) (e : Errand) (r : Except EngineError Reply) :
    (w.answered e r).2.stake = .bystander ∨ ∃ o, (w.answered e r).2.stake = .leaving o := by
  unfold answered
  split
  case h_1 | h_2 =>
    refine .inr ?_
    unfold publishOutput
    split
    · split <;> exact ⟨_, rfl⟩
    · exact ⟨_, rfl⟩
  case h_4 => exact .inl rfl
  all_goals exact .inr ⟨_, rfl⟩

/-- An answered probe leaves a start with its client, or without it. -/
theorem probed_step (w : Workspace) (client : ClientId) (s : Start) (again : Bool)
    (r : Except EngineError Reply) :
    Stake.Step w.standing (.engaged s client) none (w.probed client s again r).1.standing
      (w.probed client s again r).2.stake := by
  cases r with
  | ok reply => cases again <;> exact .stay
  | error e =>
    unfold probed
    dsimp only
    split
    · exact .lose
    · rw [askPolicy, emit_standing (by simp)]
      exact .lose

/-- A start that comes to its end becomes the session or ends without an engine, or another has
taken its place and it changes nothing. -/
theorem commit_step (w : Workspace) (held : List OperationId) (s : Start)
    (result : Except EngineError ClientId) :
    Stake.Step w.standing (Point.commit s result).stake (w.deed? ⟨held, .commit s result⟩)
      (w.commit s result).1.standing (w.commit s result).2.stake := by
  by_cases current : w.session.generation = s.generation
  · have same : ¬(w.session.generation != s.generation) = true := by simpa using current
    simp only [deed?, commit]
    rw [if_pos current, if_neg same]
    cases result with
    | ok client => exact .ready current
    | error e =>
      dsimp only
      split
      · exact .withdraw current
      · exact .fail current
  · have other : (w.session.generation != s.generation) = true := by simpa using current
    simp only [deed?, commit]
    rw [if_neg current, if_pos other]
    cases result with
    | ok client => exact .overtaken rfl current
    | error e => exact .overtaken rfl current

/-- Of all errands only a shutdown changes the session as it is begun. -/
theorem begin_step (w : Workspace) (held : List OperationId) (e : Errand) :
    Stake.Step w.standing (Point.begin e).stake (w.deed? ⟨held, .begin e⟩)
      (w.begin e).1.standing (w.begin e).2.point.stake := by
  cases e with
  | install =>
    rw [begin, enqueue_standing]
    exact .stay
  | analyze t =>
    simp only [begin]
    split
    · exact .depart
    · exact .stay
  | analyzeFile document t =>
    simp only [begin]
    split
    · exact .depart
    · exact .stay
  | look document =>
    rw [begin, lookAt_standing]
    exact .depart
  | shutdown => exact .close
  | _ => exact .stay

/-- A call of a client that goes on changes nothing at stake; its answer may. -/
theorem asking_step (w : Workspace) (held : List OperationId) (client : ClientId) (call : Call)
    (next : Next) :
    Stake.Step w.standing (Point.asking client call next).stake none
      (w.advance ⟨held, .asking client call next⟩).1.standing
      (w.advance ⟨held, .asking client call next⟩).2.point.stake := by
  cases call with
  | done r =>
    cases next with
    | probe s again => exact w.probed_step client s again r
    | errand e =>
      simp only [advance, answered_standing]
      rcases w.answered_stake e r with stake | ⟨o, stake⟩
      · rw [stake]
        exact .stay
      · rw [stake]
        exact .depart
  | _ =>
    simp only [advance, stepCall_standing]
    cases next <;> exact .stay

/-- A change of the project's file that has been told keeps what its task has at stake. -/
theorem tell_step (w : Workspace) (held : List OperationId) (c : Change) :
    Stake.Step w.standing c.stake none (w.advance ⟨held, .tell c⟩).1.standing
      (w.advance ⟨held, .tell c⟩).2.point.stake := by
  have told (path : Path) (mode : Mode) : Event.saveSettings path mode ≠ .noEngine := by simp
  cases c with
  | bootstrap s client =>
    simp only [advance, emit_standing (told _ _)]
    exact .stay
  | renewal s path =>
    simp only [advance, emit_standing (told _ _)]
    exact .stay
  | linter name active => exact .depart

/-- What a task does as it goes on by one point. -/
theorem advance_step (w : Workspace) (t : Task) :
    Stake.Step w.standing t.point.stake (w.deed? t) (w.advance t).1.standing
      (w.advance t).2.point.stake := by
  obtain ⟨held, point⟩ := t
  cases point with
  | begin e => exact w.begin_step held e
  | takeOver s mayInstall installed => exact .takeOver
  | announce s =>
    simp only [advance, probe_standing, probe_stake, enqueue_standing]
    exact .engage (.inl rfl)
  | copySettings =>
    have looked (c : Command) : Event.runs c ≠ .noEngine := by simp
    simp only [advance, look, emit_standing (looked _)]
    exact .look
  | load c =>
    simp only [advance]
    split <;> exact .stay
  | save c config => exact .stay
  | tell c => exact w.tell_step held c
  | commit s result => exact w.commit_step held s result
  | noEngine s =>
    have told : (w.emit .noEngine).standing = w.standing.notice := by
      simp [emit, standing, Standing.notice]
    simp only [advance, told]
    exact .tell
  | seek e =>
    simp only [advance]
    split
    · exact .depart
    · exact .stay
  | enter e client =>
    simp only [advance, enqueue_standing]
    exact .stay
  | asking client call next => exact w.asking_step held client call next
  | quiet =>
    simp only [advance, hush_standing]
    exact .depart
  | leave o =>
    cases held with
    | nil => exact .stay
    | cons id rest =>
      simp only [advance, dequeue_standing]
      exact .stay
  | _ => exact .stay

/-- What a task does as it takes an answer. -/
theorem receive_step (w : Workspace) (t : Task) (a : Answer) :
    Stake.Step w.standing t.point.stake none (w.receive t a).1.standing
      (w.receive t a).2.point.stake := by
  have asked : Event.askPolicy ≠ .noEngine := by simp
  have looked (c : Command) : Event.runs c ≠ .noEngine := by simp
  have requested (r : InstallRequest) : Event.installs r ≠ .noEngine := by simp
  obtain ⟨held, point⟩ := t
  cases point with
  | probing carrier s token =>
    cases a with
    | ran r =>
      cases carrier <;> cases r <;>
        simp only [receive, askPolicy, look, emit_standing asked, emit_standing (looked _)] <;>
        exact .stay
    | _ => cases carrier <;> exact .stay
  | policy p =>
    cases a with
    | policy policy =>
      simp only [receive, emit_standing (requested _)]
      exact .stay
    | _ => exact .stay
  | installing p r =>
    cases a with
    | installed result =>
      cases p with
      | bootstrap s =>
        cases result with
        | ok path =>
          simp only [receive, probe_standing, probe_stake]
          exact .engage (.inr ⟨path, rfl⟩)
        | error e => exact .stay
      | renewal s token mode =>
        cases result with
        | ok path => exact .renew
        | error e => exact .giveUp
    | _ => cases p <;> exact .stay
  | asking client call next => cases a <;> cases next <;> exact .stay
  | _ => exact .stay

end Workspace

end LintBridge
