import LintBridge.Proofs.Server.Exchange

namespace LintBridge

/-- How far a session has come: the editor has told the project or not, and asked for a shutdown
after that or not. -/
inductive Rpc.Stage where
  | unopened
  | opened
  | closing
  deriving DecidableEq

namespace Rpc

/-- Whether a frame tells the project: a request to initialize whose parameters make sense. -/
def opens (frame : Json) : Bool :=
  match Incoming.ofFrame? frame with
  | some (.request _ method params) =>
    method = "initialize" && (params.decode InitializeParams.decoder).toBool
  | _ => false

/-- Whether a frame is a request to shut down. -/
def asksShutdown (frame : Json) : Bool :=
  match Incoming.ofFrame? frame with
  | some (.request _ method _) => method = "shutdown"
  | _ => false

/-- The methods of the requests that an open session carries out. -/
def methods : List String :=
  ["shutdown", "linterhub/catalog", "linterhub/version", "linterhub/install", "linterhub/activate",
    "linterhub/analyze", "linterhub/linterVersion", "linterhub/linterInstall"]

end Rpc

namespace Rpc.Stage

/-- The stage behind a frame. -/
def next (stage : Stage) (frame : Json) : Stage :=
  match stage with
  | unopened => if Rpc.opens frame then opened else unopened
  | opened => if Rpc.asksShutdown frame then closing else opened
  | closing => closing

/-- The stage behind some frames. -/
def after (frames : List Json) : Stage := frames.foldl next unopened

/-- What a request is refused with at a stage, if it is: a code and a text. -/
def refusal? (stage : Stage) (method : String) (params : Json) : Option (Int × String) :=
  match stage with
  | unopened =>
    if method = "initialize" then
      match params.decode Rpc.InitializeParams.decoder with
      | .ok _ => none
      | .error e => some (-32602, e.message)
    else some (-32002, "server not initialized")
  | opened =>
    if method = "initialize" then some (-32600, "initialize sent twice")
    else if method ∈ Rpc.methods then none
    else some (-32601, "Method not found: " ++ method)
  | closing =>
    some (-32600, if method = "initialize" then "initialize sent twice"
      else "server is shutting down")

theorem after_concat (frames : List Json) (frame : Json) :
    after (frames ++ [frame]) = (after frames).next frame := by
  rw [after, List.foldl_append]
  rfl

theorem next_eq_unopened (stage : Stage) (frame : Json) :
    stage.next frame = unopened ↔ stage = unopened ∧ Rpc.opens frame = false := by
  cases stage with
  | unopened => cases opens : Rpc.opens frame <;> simp [next, opens]
  | opened => cases asks : Rpc.asksShutdown frame <;> simp [next, asks]
  | closing => simp [next]

/-- A session is unopened until the project was told. -/
theorem unopened_iff (frames : List Json) :
    after frames = unopened ↔ ∀ f ∈ frames, Rpc.opens f = false := by
  have fold (stage : Stage) : frames.foldl next stage = unopened ↔
      stage = unopened ∧ ∀ f ∈ frames, Rpc.opens f = false := by
    induction frames generalizing stage with
    | nil => simp
    | cons first rest ih =>
      rw [List.foldl_cons, ih, next_eq_unopened, List.forall_mem_cons, and_assoc]
  rw [after, fold, and_iff_right rfl]

theorem next_eq_closing (stage : Stage) (frame : Json) : stage.next frame = closing ↔
    stage = closing ∨ stage = opened ∧ Rpc.asksShutdown frame = true := by
  cases stage with
  | unopened => cases opens : Rpc.opens frame <;> simp [next, opens]
  | opened => cases asks : Rpc.asksShutdown frame <;> simp [next, asks]
  | closing => simp [next]

theorem foldl_eq_closing (stage : Stage) (frames : List Json) :
    frames.foldl next stage = closing ↔ stage = closing ∨
      ∃ front frame behind, frames = front ++ frame :: behind ∧
        front.foldl next stage = opened ∧ Rpc.asksShutdown frame = true := by
  -- the shutdown is the first frame, met at the stage itself, or comes behind it
  induction frames generalizing stage with
  | nil =>
    refine (or_iff_left ?_).symm
    rintro ⟨front, frame, behind, same, _⟩
    cases front <;> cases same
  | cons first rest ih =>
    rw [List.foldl_cons, ih, next_eq_closing]
    constructor
    · rintro ((closed | ⟨before, asks⟩) | ⟨front, frame, behind, rfl, before, asks⟩)
      · exact .inl closed
      · exact .inr ⟨[], first, rest, rfl, before, asks⟩
      · exact .inr ⟨first :: front, frame, behind, rfl, before, asks⟩
    · rintro (closed | ⟨_ | ⟨_, front⟩, frame, behind, same, before, asks⟩)
      · exact .inl (.inl closed)
      · cases same
        exact .inl (.inr ⟨before, asks⟩)
      · cases same
        exact .inr ⟨front, frame, behind, rfl, before, asks⟩

/-- Whether a shutdown was asked for while the session was open. -/
def Shut (frames : List Json) : Prop :=
  ∃ front frame behind, frames = front ++ frame :: behind ∧ after front = opened ∧
    Rpc.asksShutdown frame = true

theorem closing_iff (frames : List Json) : after frames = closing ↔ Shut frames := by
  rw [after, foldl_eq_closing]
  exact or_iff_right Stage.noConfusion

end Rpc.Stage

namespace Server

/-- The stage of a server's session. -/
def stage (s : Server) : Rpc.Stage :=
  if s.site?.isNone then .unopened else if s.shuttingDown then .closing else .opened

/-- What is left to be read, and whether that is all. -/
def line (s : Server) : Bytes × Bool := (s.input, s.closed)

variable {s : Server}

section Line

theorem tell_line (task : Option Nat) (s : Server) (e : Event) : (tell task s e).line = s.line := by
  cases e with
  | progress e => cases e <;> rfl
  | _ => rfl

theorem withSite_line (s : Server) (task : Option Nat) (next : Site) :
    (s.withSite task next).line = s.line := by
  have told (events : List Event) (s : Server) : (events.foldl (tell task) s).line = s.line := by
    induction events generalizing s with
    | nil => rfl
    | cons e rest ih => rw [List.foldl_cons, ih, tell_line]
  exact told _ _

theorem move_line (s : Server) (m : Move) : (s.move m).line = s.line := by
  have replied (s : Server) (n : Nat) : (s.reply n).line = s.line := by
    unfold reply
    split <;> rfl
  have told := s.withSite_line (taskOf m) (s.site.move m)
  unfold move
  dsimp only
  split
  · exact (replied _ _).trans told
  · exact told

theorem advance_line (s : Server) (n : Nat) : (s.advance n).line = s.line := by
  unfold advance
  split
  · rfl
  · rfl
  · split
    · exact move_line _ _
    · exact move_line _ _

end Line

section Frames

theorem stage_of_gist {s' : Server} {g : Gist} (same : s'.gist = g) : s'.stage =
    if g.site?.isNone then .unopened else if g.shuttingDown then .closing else .opened := by
  rw [← same]
  rfl

/-- What a frame does to a session: to its stage, to what is left to be read, and to its end. -/
structure Handled (s s' : Server) (frame : Json) : Prop where
  stage : s'.stage = s.stage.next frame
  line : s'.line = s.line
  ended : s'.ended = if Rpc.isExit frame then some (.left s.shuttingDown) else s.ended

theorem stage_of_none (closed : s.site?.isNone = true) : s.stage = .unopened := if_pos closed

theorem stage_of_some (opened : s.site?.isNone = false) :
    s.stage = if s.shuttingDown then .closing else .opened := by
  rw [stage, opened, if_neg Bool.false_ne_true]

/-- A frame that is no turning point leaves the session as it is. -/
theorem Handled.same {s' : Server} {frame : Json} (exit : Rpc.isExit frame = false)
    (still : s.stage.next frame = s.stage) (stage : s'.stage = s.stage)
    (line : s'.line = s.line) (ended : s'.ended = s.ended) : s.Handled s' frame :=
  ⟨stage.trans still.symm, line, by rw [exit]; exact ended⟩

theorem withSite_stage (opened : s.site?.isNone = false) (task : Option Nat) (next : Site) :
    (s.withSite task next).stage = s.stage := by
  have gist := s.withSite_gist task next
  rw [stage_of_gist gist, stage_of_some opened]
  rfl

theorem withSite_ended (s : Server) (task : Option Nat) (next : Site) :
    (s.withSite task next).ended = s.ended := congrArg Gist.ended (s.withSite_gist task next)

theorem spawn_stage (opened : s.site?.isNone = false) (e : Errand) (job : Job) :
    (s.spawn e job).stage = s.stage := by
  rw [stage_of_some opened]
  rfl

theorem spawnFor_same (opened : s.site?.isNone = false) (id params : Json) {α : Type}
    (read : Decoder α) (errand : α → Errand) :
    (s.spawnFor id params read errand).stage = s.stage ∧
      (s.spawnFor id params read errand).line = s.line ∧
      (s.spawnFor id params read errand).ended = s.ended := by
  unfold spawnFor
  split
  · exact ⟨spawn_stage opened _ _, rfl, rfl⟩
  · rw [stage_of_some opened]
    exact ⟨rfl, rfl, rfl⟩

section Request

variable {frame id : Json} {method : String} {params : Json}
  (message : Incoming.ofFrame? frame = some (.request id method params))

include message

theorem isExit_of_request : Rpc.isExit frame = false := by rw [Rpc.isExit, message]

theorem opens_of_request : Rpc.opens frame =
    (decide (method = "initialize") && (params.decode Rpc.InitializeParams.decoder).toBool) := by
  rw [Rpc.opens, message]

theorem asksShutdown_of_request : Rpc.asksShutdown frame = decide (method = "shutdown") := by
  rw [Rpc.asksShutdown, message]

theorem unopened_request (closed : s.site? = none) (up : s.shuttingDown = false) :
    s.Handled (s.request id method params) frame := by
  have exit := isExit_of_request message
  have stage : s.stage = .unopened := stage_of_none (by rw [closed]; rfl)
  have opens := opens_of_request message
  unfold request
  split
  · rename_i first
    unfold beginSession
    rw [closed, Option.isSome_none, if_neg Bool.false_ne_true]
    split
    · rename_i e read
      refine .same exit ?_ rfl rfl rfl
      rw [stage, Rpc.Stage.next, opens, read, Except.toBool, Bool.and_false,
        if_neg Bool.false_ne_true]
    · rename_i p read
      refine ⟨?_, rfl, by rw [exit]; rfl⟩
      rw [stage, Rpc.Stage.next, opens, first, read, stage_of_some rfl]
      exact if_neg (by rw [show _ = s.shuttingDown from rfl, up]; exact Bool.false_ne_true)
  · rename_i other
    rw [closed, Option.isNone_none, if_pos rfl]
    refine .same exit ?_ rfl rfl rfl
    rw [stage, Rpc.Stage.next, opens, decide_eq_false other, Bool.false_and,
      if_neg Bool.false_ne_true]

theorem closing_request (opened : s.site?.isNone = false) (down : s.shuttingDown = true) :
    s.Handled (s.request id method params) frame := by
  have twice : s.beginSession id params = s.send (Rpc.refuse id .twice) :=
    if_pos (by rw [← Option.not_isNone, opened]; rfl)
  have still : s.stage.next frame = s.stage := by
    rw [stage_of_some opened, if_pos down, Rpc.Stage.next]
  have refused (r : Rpc.Refusal) : s.Handled (s.send (Rpc.refuse id r)) frame :=
    .same (isExit_of_request message) still rfl rfl rfl
  unfold request
  rw [twice, opened, if_neg Bool.false_ne_true, if_pos down]
  split
  · exact refused _
  · exact refused _

theorem opened_request (opened : s.site?.isNone = false) (up : s.shuttingDown = false) :
    s.Handled (s.request id method params) frame := by
  have exit := isExit_of_request message
  have asks := asksShutdown_of_request message
  have twice : s.beginSession id params = s.send (Rpc.refuse id .twice) :=
    if_pos (by rw [← Option.not_isNone, opened]; rfl)
  have stage : s.stage = .opened := by
    rw [stage_of_some opened, up, if_neg Bool.false_ne_true]
  -- only a shutdown leads on from here
  have still (other : method ≠ "shutdown") : s.stage.next frame = s.stage := by
    rw [stage, Rpc.Stage.next, asks, decide_eq_false other, if_neg Bool.false_ne_true]
  have refused (r : Rpc.Refusal) (other : method ≠ "shutdown") :
      s.Handled (s.send (Rpc.refuse id r)) frame := .same exit (still other) rfl rfl rfl
  have spawned (e : Errand) (other : method ≠ "shutdown") :
      s.Handled (s.spawn e (.answers id)) frame :=
    .same exit (still other) (spawn_stage opened e _) rfl rfl
  have read {α : Type} (decoder : Decoder α) (errand : α → Errand) (other : method ≠ "shutdown") :
      s.Handled (s.spawnFor id params decoder errand) frame := by
    obtain ⟨stage', line, ended⟩ := spawnFor_same opened id params decoder errand
    exact .same exit (still other) stage' line ended
  unfold request
  rw [twice, opened, if_neg Bool.false_ne_true, up, if_neg Bool.false_ne_true]
  split
  · rename_i first
    exact refused _ (by rw [first]; decide)
  split
  · refine ⟨?_, withSite_line { s with shuttingDown := true } _ _, ?_⟩
    · rw [stage, Rpc.Stage.next, asks, decide_eq_true rfl, if_pos rfl]
      exact (withSite_stage (s := { s with shuttingDown := true }) opened _ _).trans
        (stage_of_some (s := { s with shuttingDown := true }) opened)
    · rw [exit]
      exact withSite_ended { s with shuttingDown := true } _ _
  · exact spawned _ (by decide)
  · exact spawned _ (by decide)
  · exact spawned _ (by decide)
  · exact read _ _ (by decide)
  · exact read _ _ (by decide)
  · exact read _ _ (by decide)
  · exact read _ _ (by decide)
  · rename_i other _ _ _ _ _ _ _
    exact refused _ other

theorem request_handled (up : s.site? = none → s.shuttingDown = false) :
    s.Handled (s.request id method params) frame := by
  cases closed : s.site?.isNone with
  | true =>
    have none : s.site? = none := Option.isNone_iff_eq_none.mp closed
    exact unopened_request message none (up none)
  | false =>
    cases down : s.shuttingDown with
    | true => exact closing_request message closed down
    | false => exact opened_request message closed down

end Request

theorem notified_handled {frame : Json} {method : String} {params : Json}
    (message : Incoming.ofFrame? frame = some (.notification method params)) :
    s.Handled (s.notified method params) frame := by
  have exit : Rpc.isExit frame = decide (method = "exit") := by rw [Rpc.isExit, message]
  have still : s.stage.next frame = s.stage := by
    have opens : Rpc.opens frame = false := by rw [Rpc.opens, message]
    have asks : Rpc.asksShutdown frame = false := by rw [Rpc.asksShutdown, message]
    cases s.stage <;> simp [Rpc.Stage.next, opens, asks]
  unfold notified
  split
  · rename_i leaves
    refine ⟨still.symm, rfl, ?_⟩
    rw [exit, decide_eq_true leaves]
    rfl
  rename_i stays
  rw [decide_eq_false stays] at exit
  have same : s.Handled s frame := .same exit still rfl rfl rfl
  cases closed : s.site?.isNone with
  | true => exact same
  | false =>
    have spawned (e : Errand) : s.Handled (s.spawn e .silent) frame :=
      .same exit still (spawn_stage closed e _) rfl rfl
    have analyzed (t : Trigger) : s.Handled (s.analyzeDocument params t) frame := by
      unfold analyzeDocument
      split
      · exact spawned _
      · exact same
    rw [if_neg Bool.false_ne_true]
    split
    · unfold configure
      split
      · exact spawned _
      · exact same
    · exact analyzed _
    · exact analyzed _
    · exact analyzed _
    · unfold look
      split
      · exact .same exit still (withSite_stage closed _ _) (withSite_line _ _ _)
          (withSite_ended _ _ _)
      · exact same
    · exact same

/-- What any frame does to a session. -/
theorem handle_handled (up : s.site? = none → s.shuttingDown = false) (frame : Json) :
    s.Handled (s.handle frame) frame := by
  have passed (message : Incoming.ofFrame? frame = none ∨
      ∃ id body, Incoming.ofFrame? frame = some (.response id body)) {s' : Server}
      (stage : s'.stage = s.stage) (line : s'.line = s.line) (ended : s'.ended = s.ended) :
      s.Handled s' frame := by
    have none : Rpc.opens frame = false ∧ Rpc.asksShutdown frame = false ∧
        Rpc.isExit frame = false := by
      rcases message with message | ⟨id, body, message⟩ <;>
        simp only [Rpc.opens, Rpc.asksShutdown, Rpc.isExit, message, and_self]
    refine .same none.2.2 ?_ stage line ended
    cases s.stage <;> simp [Rpc.Stage.next, none]
  unfold handle
  split
  · rename_i message
    exact passed (.inl message) rfl rfl rfl
  · rename_i id body message
    exact passed (.inr ⟨id, body, message⟩) rfl rfl rfl
  · rename_i message
    exact request_handled message up
  · rename_i message
    exact notified_handled message

/-- A request is refused as the stage has it, and that is all. -/
theorem request_refused {id : Json} {method : String} {params : Json} {code : Int} {text : String}
    (refuses : s.stage.refusal? method params = some (code, text)) :
    s.request id method params = s.send (Rpc.errorResponse id code text) := by
  have same {r : Rpc.Refusal} (told : some (r.code, r.message) = some (code, text)) :
      s.send (Rpc.refuse id r) = s.send (Rpc.errorResponse id code text) := by
    obtain ⟨same, same'⟩ := Prod.mk.inj (Option.some.inj told)
    rw [Rpc.refuse, same, same']
  unfold request
  cases closed : s.site?.isNone with
  | true =>
    rw [stage_of_none closed, Rpc.Stage.refusal?] at refuses
    by_cases first : method = "initialize"
    · rw [if_pos first] at refuses
      rw [if_pos first, beginSession, Option.isNone_iff_eq_none.mp closed,
        Option.isSome_none, if_neg Bool.false_ne_true]
      cases read : params.decode Rpc.InitializeParams.decoder with
      | ok p =>
        rw [read] at refuses
        cases refuses
      | error e =>
        rw [read] at refuses
        exact same (r := .badParams e) refuses
    · rw [if_neg first] at refuses
      rw [if_neg first, if_pos rfl]
      exact same (r := .notInitialized) refuses
  | false =>
    have opened : s.site?.isSome = true := by
      rw [← Option.not_isNone, closed]
      rfl
    rw [stage_of_some closed] at refuses
    cases down : s.shuttingDown with
    | true =>
      rw [down, if_pos rfl, Rpc.Stage.refusal?] at refuses
      by_cases first : method = "initialize"
      · rw [if_pos first] at refuses
        rw [if_pos first, beginSession, if_pos opened]
        exact same (r := .twice) refuses
      · rw [if_neg first] at refuses
        rw [if_neg first, if_neg Bool.false_ne_true, if_pos rfl]
        exact same (r := .shuttingDown) refuses
    | false =>
      rw [down, if_neg Bool.false_ne_true, Rpc.Stage.refusal?] at refuses
      by_cases first : method = "initialize"
      · rw [if_pos first] at refuses
        rw [if_pos first, beginSession, if_pos opened]
        exact same (r := .twice) refuses
      · rw [if_neg first] at refuses
        split at refuses
        · cases refuses
        · rename_i unknown
          rw [if_neg first, if_neg Bool.false_ne_true, if_neg Bool.false_ne_true]
          split
          case h_9 => exact same (r := .unknownMethod method) refuses
          all_goals exact absurd (by decide) unknown

/-- What a session does with a frame. -/
structure Obeys (s s' : Server) (frame : Json) : Prop extends s.Handled s' frame where
  refused : ∀ id method params code text,
    Incoming.ofFrame? frame = some (.request id method params) →
    s.stage.refusal? method params = some (code, text) →
    s' = s.send (Rpc.errorResponse id code text)
  opened : ∀ id method params, Incoming.ofFrame? frame = some (.request id method params) →
    s.stage = .unopened → Rpc.opens frame = true →
    ∃ p, params.decode Rpc.InitializeParams.decoder = .ok p ∧
      s' = Server.send
        { s with site? := some (.new (.new (p.projectRoot?.getD s.here) s.defaults s.files)) }
        (Rpc.response id Rpc.initializeResult)
  shut : ∀ id params, Incoming.ofFrame? frame = some (.request id "shutdown" params) →
    s.stage = .opened →
    s'.site? = some { s.site with workspace := s.site.workspace.shutdown } ∧
      ∃ news, Rpc.News news ∧ s'.sent = s.sent ++ (news ++ [Rpc.response id .null])
  /-- What is no message, an answer to nothing and, before the session is opened, a notification are
  passed over. -/
  passed : (Incoming.ofFrame? frame = none ∨
      (∃ id body, Incoming.ofFrame? frame = some (.response id body) ∧
        id ∉ s.outbound.pending) ∨
      ∃ method params, Incoming.ofFrame? frame = some (.notification method params) ∧
        method ≠ "exit" ∧ s.stage = .unopened) → s' = s

theorem isNone_of_unopened (unopened : s.stage = .unopened) : s.site?.isNone = true := by
  cases closed : s.site?.isNone with
  | true => rfl
  | false =>
    rw [stage_of_some closed] at unopened
    split at unopened <;> cases unopened

theorem isNone_of_opened (opened : s.stage = .opened) :
    s.site?.isNone = false ∧ s.shuttingDown = false := by
  cases closed : s.site?.isNone with
  | true => cases (stage_of_none closed).symm.trans opened
  | false =>
    rw [stage_of_some closed] at opened
    cases down : s.shuttingDown with
    | true =>
      rw [down] at opened
      cases opened
    | false => exact ⟨rfl, rfl⟩

theorem opened_of_opens {frame id : Json} {method : String} {params : Json}
    (message : Incoming.ofFrame? frame = some (.request id method params))
    (unopened : s.stage = .unopened) (opens : Rpc.opens frame = true) :
    ∃ p, params.decode Rpc.InitializeParams.decoder = .ok p ∧
      s.handle frame = Server.send
        { s with site? := some (.new (.new (p.projectRoot?.getD s.here) s.defaults s.files)) }
        (Rpc.response id Rpc.initializeResult) := by
  have closed := isNone_of_unopened unopened
  rw [Rpc.opens, message, Bool.and_eq_true, decide_eq_true_eq] at opens
  obtain ⟨first, sound⟩ := opens
  rw [handle, message]
  dsimp only
  unfold request
  rw [if_pos first, beginSession, Option.isNone_iff_eq_none.mp closed,
    Option.isSome_none, if_neg Bool.false_ne_true]
  cases read : params.decode Rpc.InitializeParams.decoder with
  | ok p => exact ⟨p, rfl, rfl⟩
  | error e =>
    rw [read] at sound
    cases sound

theorem shut_of_opened {frame id params : Json}
    (message : Incoming.ofFrame? frame = some (.request id "shutdown" params))
    (opened : s.stage = .opened) :
    (s.handle frame).site? = some { s.site with workspace := s.site.workspace.shutdown } ∧
      ∃ news, Rpc.News news ∧
        (s.handle frame).sent = s.sent ++ (news ++ [Rpc.response id .null]) := by
  obtain ⟨closed, down⟩ := isNone_of_opened opened
  have gist := withSite_gist { s with shuttingDown := true } none
    { s.site with workspace := s.site.workspace.shutdown }
  obtain ⟨news, quiet, told⟩ := withSite_says { s with shuttingDown := true } none
    { s.site with workspace := s.site.workspace.shutdown }
  rw [handle, message]
  dsimp only
  unfold request
  rw [if_neg (by decide), closed, if_neg Bool.false_ne_true, down, if_neg Bool.false_ne_true]
  refine ⟨congrArg Gist.site? gist, news, quiet, ?_⟩
  rw [← List.append_assoc]
  exact congrArg (· ++ [Rpc.response id .null]) told

/-- A session does with any frame what its stage says. -/
theorem obeys (up : s.site? = none → s.shuttingDown = false) (frame : Json) :
    s.Obeys (s.handle frame) frame where
  toHandled := handle_handled up frame
  refused id method params code text message refuses := by
    rw [handle, message]
    exact request_refused refuses
  opened id method params := opened_of_opens
  shut id params := shut_of_opened
  passed := by
    rintro (message | ⟨id, body, message, unknown⟩ | ⟨method, params, message, stays, unopened⟩)
    · rw [handle, message]
    · have absent : s.outbound.pending.contains id = false := by
        rw [Bool.eq_false_iff, ne_eq, List.contains_iff_mem]
        exact unknown
      rw [handle, message]
      dsimp only
      rw [Outbound.resolve, if_neg (by rw [absent]; exact Bool.false_ne_true)]
    · rw [handle, message]
      unfold notified
      dsimp only
      rw [if_neg stays, if_pos (isNone_of_unopened unopened)]

end Frames

end Server

end LintBridge
