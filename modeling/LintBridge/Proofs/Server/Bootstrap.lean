import LintBridge.CommandLine.Run
import LintBridge.Proofs.Config.Sections
import LintBridge.Proofs.Server.Inquiry

namespace LintBridge

/-- The settings of a start that may install an engine. -/
def Start.wants? (s : Start) : Option Settings := if s.mayInstall then some s.settings else none

/-- The settings that a task may come to install an engine for: those it is to start the session
with, until it has asked for the version. -/
def Point.wants? : Point → Option Settings
  | begin (.start s) => some s
  | takeOver s true _ => some s
  | announce s => s.wants?
  | asking _ _ (.probe s false) => s.wants?
  | policy (.bootstrap s) => some s.settings
  | _ => none

/-- How far a call has come is of no bearing on that. -/
theorem Point.wants?_asking (client : ClientId) (call call' : Call) (next : Next) :
    (asking client call next).wants? = (asking client call' next).wants? := by
  cases next with
  | probe s again => cases again <;> rfl
  | errand e => rfl

namespace Workspace

variable {w : Workspace} {t : Task} {st : Settings}

theorem wants?_begin {e : Errand}
    (wants : (w.begin e).2.point.wants? = some st) : Point.wants? (.begin e) = some st := by
  cases e with
  | start => exact wants
  | analyze | analyzeFile =>
    rw [begin] at wants
    dsimp only at wants
    split at wants <;> cases wants
  | _ => cases wants

theorem wants?_probed {client : ClientId} {s : Start} {again : Bool} {r : Except EngineError Reply}
    (wants : (w.probed client s again r).2.wants? = some st) :
    again = false ∧ s.wants? = some st := by
  unfold probed at wants
  split at wants
  · cases again <;> cases wants
  · split at wants
    · cases wants
    · rename_i open_
      simp only [Bool.or_eq_true, not_or, Bool.not_eq_true, Bool.not_eq_false'] at open_
      obtain ⟨⟨_, first⟩, may⟩ := open_
      refine ⟨first, Eq.trans (if_pos ?_) wants⟩
      simpa using may

theorem wants?_publishOutput {files : Report → List (String × List Diagnostic)}
    {r : Except EngineError Reply} : (w.publishOutput files r).2.wants? = none := by
  unfold publishOutput
  split
  · split <;> rfl
  · rfl

theorem wants?_answered {e : Errand} {r : Except EngineError Reply} :
    (w.answered e r).2.wants? = none := by
  unfold answered
  split
  · exact wants?_publishOutput
  · exact wants?_publishOutput
  · rfl
  · rfl
  · rfl
  · rfl
  · rfl
  · rfl
  · cases e <;> rfl

theorem wants?_commit {s : Start} {r : Except EngineError ClientId} :
    (w.commit s r).2.wants? = none := by
  unfold commit
  split
  · rfl
  split
  · rfl
  · split <;> rfl

/-- As a task goes on, it wants an engine for no other settings than before. -/
theorem wants?_advance (wants : (w.advance t).2.point.wants? = some st) :
    t.point.wants? = some st := by
  obtain ⟨held, point⟩ := t
  cases point with
  | begin e => exact wants?_begin wants
  | takeOver s mayInstall installed => cases mayInstall <;> exact wants
  | announce s => exact wants
  | load c =>
    simp only [advance] at wants
    split at wants <;> cases wants
  | tell c => cases c <;> cases wants
  | commit s r => cases wants?_commit.symm.trans wants
  | seek e =>
    simp only [advance] at wants
    split at wants <;> cases wants
  | asking client call next =>
    cases call with
    | done r =>
      cases next with
      | probe s again =>
        obtain ⟨rfl, start⟩ := wants?_probed wants
        exact start
      | errand e => cases wants?_answered.symm.trans wants
    | _ =>
      rw [advance_asking w held client (by rintro _ ⟨⟩)] at wants
      exact (Point.wants?_asking ..).trans wants
  | leave o => cases held <;> cases wants
  | _ => exact wants

/-- So it does with an answer. -/
theorem wants?_receive {a : Answer} (wants : (w.receive t a).2.point.wants? = some st) :
    t.point.wants? = some st := by
  obtain ⟨held, point⟩ := t
  unfold receive at wants
  dsimp only at wants
  split at wants
  · cases wants
  · cases wants
  · cases wants
  · cases wants
  · cases wants
  · rename_i p _ _
    cases p with
    | bootstrap | renewal => cases wants
  · cases wants
  · cases wants
  · exact (Point.wants?_asking ..).trans wants
  · exact wants

end Workspace

/-- A task that wants an engine after a move wanted it before. -/
theorem Site.wants?_move {s : Site} {m : Move} (spawns : ∀ e, m ≠ .spawn e) {n : Nat} {t' : Task}
    {st : Settings} (found : (s.move m).task? n = some t') (wants : t'.point.wants? = some st) :
    ∃ t, s.task? n = some t ∧ t.point.wants? = some st := by
  cases there : s.tasks[n]? with
  | none =>
    have beyond := List.getElem?_eq_none_iff.mp there
    rw [Site.task?, List.getElem?_eq_none (by rwa [length_move spawns])] at found
    cases found
  | some entry =>
    have atN := task?_of_tasks there
    by_cases own : m.task? = some n
    · cases own_of_task? there own with
      | gone same =>
        rw [same, atN] at found
        cases found
      | advance moved =>
        rw [moved, task?_put_self atN] at found
        cases found
        exact ⟨_, atN, Workspace.wants?_advance wants⟩
      | receive moved =>
        rw [moved, task?_put_self atN] at found
        cases found
        exact ⟨_, atN, Workspace.wants?_receive wants⟩
      | abandon moved =>
        rw [moved, remove, task?, List.getElem?_set_self (List.getElem?_eq_some_iff.mp there).1]
          at found
        cases found
    · rw [task?_of_tasks (tasks_move_of_ne there own)] at found
      exact ⟨t', atN.trans found, wants⟩

/-- A task that is there once another has come was there before, or is that one. -/
theorem Site.of_task?_concat {s : Site} {w : Workspace} {entry : Option Task} {n : Nat} {t : Task}
    (found : task? ⟨w, s.tasks ++ [entry]⟩ n = some t) : s.task? n = some t ∨ entry = some t := by
  have member := tasks_of_task? found
  rcases Nat.lt_or_ge n s.tasks.length with old | new
  · rw [List.getElem?_append_left old] at member
    exact .inl (task?_of_tasks member)
  · rw [List.getElem?_append_right new, List.getElem?_singleton] at member
    split at member
    · exact .inr (Option.some.inj member)
    · cases member

/-- A request that has met an answer has been answered. -/
theorem Outbound.mem_of_fate? {id left : Nat} {moves : List Move} {body : Json}
    (fate : fate? id left moves = some (some body)) : .answer id body ∈ moves := by
  obtain met | ⟨_, timed⟩ := Option.or_eq_some_iff.mp fate
  · obtain ⟨m, member, meets⟩ := List.exists_of_findSome?_eq_some met
    cases m with
    | answer n told =>
      rw [Move.meets?] at meets
      split at meets
      · rename_i same
        cases meets
        exact same ▸ member
      · cases meets
    | expire n =>
      rw [Move.meets?] at meets
      split at meets <;> cases meets
    | _ => cases meets
  · split at timed <;> cases timed

theorem Incoming.of_response {frame body : Json} {id : Nat}
    (message : ofFrame? frame = some (.response id body)) : body = frame := by
  unfold ofFrame? at message
  dsimp only at message
  split at message
  · cases message
  · cases message
  · split at message
    · obtain ⟨_, _, same⟩ := Option.map_eq_some_iff.mp message
      cases same
      rfl
    · cases message
  · cases message

/-- The section in a frame that changes the configuration. -/
def Rpc.Configures (frame : Json) (e : EditorSection) : Prop :=
  ∃ params v, Incoming.ofFrame? frame =
      some (.notification "workspace/didChangeConfiguration" params) ∧
    params.decode settingsParam = .ok v ∧ EditorSection.SaidBy v e

theorem Rpc.of_settings? {env : Environment} {d : Defaults} {frame : Json} {st : Settings}
    (reads : settings? env d frame = some st) : ∃ e, Configures frame e ∧ st.Heeds env d e := by
  unfold settings? at reads
  split at reads
  · rename_i params message
    obtain ⟨v, decoded, read⟩ := of_bind (of_toOption reads)
    obtain ⟨e, said, heeds⟩ := Settings.ofJson_eq_ok_iff.mp read
    exact ⟨e, ⟨params, v, message, decoded, said⟩, heeds⟩
  · cases reads

namespace Server

variable {s : Server} {env : Environment} {d : Defaults} {files : FileTree} {here : Path}
  {h : Chronicle} {n : Nat} {st : Settings}

/-- A task comes to want an engine only with a configuration of the editor. -/
theorem wants?_meet (past : s.Past env d files h) {i : Incident} {t' : Task}
    (found : (s.meet i).site.task? n = some t') (wants : t'.point.wants? = some st) :
    (∃ t, s.site.task? n = some t ∧ t.point.wants? = some st) ∨
      ∃ frame, i = .frame frame ∧ Rpc.settings? env d frame = some st := by
  have nothing (w : Workspace) : (Site.new w).task? n = none := rfl
  cases opened : s.site? with
  | none =>
    obtain ⟨_, first⟩ := meet_first opened (past.closed opened).1 i
    generalize gist : (s.meet i).gist = g at first
    have sites : (s.meet i).site? = g.site? := congrArg Gist.site? gist
    have defaults : (s.meet i).defaults = g.defaults := congrArg Gist.defaults gist
    cases first with
    | same | leave =>
      rw [site_of_closed (sites.trans opened), nothing] at found
      cases found
    | opened project =>
      rw [site_eq sites, nothing] at found
      cases found
  | some site =>
    have change := meet_change opened i
    generalize gist : (s.meet i).gist = g at change
    have sites : (s.meet i).site? = g.site? := congrArg Gist.site? gist
    have still (same : g.site? = some site) : s.site.task? n = some t' := by
      rwa [site_eq (sites.trans same), ← site_eq opened] at found
    cases change with
    | finished => exact .inl ⟨t', still opened, wants⟩
    | @frame value _ _ framed next =>
      cases next with
      | same | leave => exact .inl ⟨t', still opened, wants⟩
      | @spawn e job _ reads =>
        rw [site_eq sites] at found
        rcases Site.of_task?_concat found with old | new
        · rw [← site_eq opened] at old
          exact .inl ⟨t', old, wants⟩
        · cases new
          cases e with
          | start =>
            cases wants
            rw [← past.env_eq, ← past.defaults_eq]
            exact .inr ⟨value, framed, reads st rfl⟩
          | _ => cases wants
      | refuse =>
        rw [site_eq sites] at found
        rcases Site.of_task?_concat found with old | new
        · rw [← site_eq opened] at old
          exact .inl ⟨t', old, wants⟩
        · cases new
      | look | shutdown =>
        rw [site_eq sites] at found
        rw [site_eq opened]
        exact .inl ⟨t', found, wants⟩
    | turn _ turn =>
      cases turn with
      | rest | refuse => exact .inl ⟨t', still opened, wants⟩
      | move _ spawns =>
        rw [site_eq sites] at found
        exact .inl (Site.wants?_move spawns found wants)

/-- Whatever a task wants an engine for are the settings of a configuration that has been sent. -/
theorem wants?_course {past : List Incident} {t : Task}
    (found : ((new env d files here).course past).site.task? n = some t)
    (wants : t.point.wants? = some st) :
    ∃ frame, .frame frame ∈ past ∧ Rpc.settings? env d frame = some st := by
  induction past using List.reverseRecOn generalizing t with
  | nil => cases found
  | append_singleton past i ih =>
    rw [course_concat] at found
    rcases wants?_meet (past_course env d files here past) found wants with
      ⟨t', before, wanted⟩ | ⟨frame, rfl, reads⟩
    · obtain ⟨frame, sent, reads⟩ := ih before wanted
      exact ⟨frame, List.mem_append_left _ sent, reads⟩
    · exact ⟨frame, List.mem_append_right _ (List.mem_singleton_self _), reads⟩

/-- The settings that a task waits for the policy for are those of a section that the editor has
sent. -/
theorem of_purpose?_bootstrap {past : List Incident} {start : Start}
    (waits : ((new env d files here).course past).site.purpose? n = some (.bootstrap start)) :
    ∃ frame e, .frame frame ∈ past ∧ Rpc.Configures frame e ∧ start.settings.Heeds env d e := by
  obtain ⟨⟨held, point⟩, found, purpose⟩ := Option.bind_eq_some_iff.mp waits
  have wants : point.wants? = some start.settings := by
    cases point with
    | policy p =>
      cases purpose
      rfl
    | _ => cases purpose
  obtain ⟨frame, sent, reads⟩ := wants?_course found wants
  obtain ⟨e, configures, heeds⟩ := Rpc.of_settings? reads
  exact ⟨frame, e, sent, configures, heeds⟩

/-- What answers a question of a task is a frame that the editor has sent. -/
theorem Inquires.sent {first : Server} {past since : List Incident} {id : Nat} {body : Json}
    (inquires : first.Inquires past n id since)
    (met : Outbound.fate? id Outbound.timeout (since.filterMap Incident.tells?) =
      some (some body)) :
    .frame body ∈ past ∧ Incoming.ofFrame? body = some (.response id body) := by
  obtain ⟨before, asks, rfl, _⟩ := inquires
  obtain ⟨i, member, tells⟩ := List.mem_filterMap.mp (Outbound.mem_of_fate? met)
  cases i with
  | frame value =>
    simp only [Incident.tells?, Rpc.reply?] at tells
    split at tells
    · rename_i message
      cases tells
      have same := Incoming.of_response message
      subst same
      exact ⟨List.mem_append_right _ (List.mem_cons_of_mem _ member), message⟩
    · cases tells
  | _ => cases tells

end Server

/-- Whether a section names another mode or another root than the one that goes without saying. -/
def EditorSection.Overrides (env : Environment) (e : EditorSection) : Prop :=
  (∃ text m, e.mode = some text ∧ Mode.Named m text) ∨ ∃ p, Settings.Configured env e.cliRoot p

theorem Settings.Heeds.of_not_overrides {env : Environment} {d : Defaults} {e : EditorSection}
    {st : Settings} (heeds : st.Heeds env d e) (silent : ¬e.Overrides env) :
    st.mode = d.mode ∧ st.cliRoot = d.cliRoot := by
  obtain ⟨mode, root⟩ := not_or.mp silent
  refine ⟨heeds.mode_eq.elim (fun ⟨text, said⟩ => ?_) And.right,
    heeds.cliRoot_eq.elim (fun said => absurd ⟨_, said⟩ root) And.right⟩
  exact absurd ⟨text, _, said⟩ mode

/-- An answer of null leaves the policy as the defaults have it. -/
theorem Rpc.policyOf_null (d : Defaults) {answer : Option Json}
    (null : ∀ body, answer = some body → body.field? "result" = some .null) :
    policyOf d answer = ⟨d.proxy, d.strictSsl⟩ := by
  cases answer with
  | none => rfl
  | some body =>
    refine policyOf_of_not_tells (fun proxy strictSsl tells => ?_) d
    have shaped := tells.shaped
    rw [null body rfl] at shaped
    exact shaped

/-- The request that a start makes where nothing is said is the one of the command line, but that it
is for the root. -/
theorem Start.request_of_silence {env : Environment} {d : Defaults} {e : EditorSection}
    {start : Start} {answer : Option Json} (heeds : start.settings.Heeds env d e)
    (silent : ¬e.Overrides env)
    (null : ∀ body, answer = some body → body.field? "result" = some .null) :
    (Purpose.bootstrap start).request d (Rpc.policyOf d answer) =
      { CommandLine.installRequest d none none with targetDir := d.cliRoot } := by
  obtain ⟨mode, root⟩ := heeds.of_not_overrides silent
  rw [Rpc.policyOf_null d null, Purpose.request, Purpose.mode, Purpose.settings, mode, root,
    Option.or_self]
  rfl

theorem CommandLine.installRequest_root_iff (d : Defaults) (root : Path) :
    { installRequest d none none with targetDir := root } = installRequest d none none ↔
      d.installDir = root := by
  simp [installRequest, eq_comm]

/-- The command line installs where the file says, or at the root where it says nothing. -/
theorem Defaults.installDir_ofConfig (env : Environment) (c : ServerConfig) :
    (ofConfig env c).installDir = ((c.install.bind InstallSection.dir).map fun dir =>
      Path.ofText (env.expand dir)).getD (ofConfig env c).cliRoot := by
  rw [ofConfig]
  cases c.engine with
  | none => cases c.install <;> rfl
  | some e => cases c.install <;> cases e.cliRoot <;> rfl

namespace Server

variable {s : Server} {n : Nat} {held : List OperationId} {client : ClientId} {err : EngineError}
  {start : Start}

/-- A start that may install an engine waits for the policy once its first probe has failed. -/
theorem waits_of_failed_probe (orderly : s.Orderly) (running : s.ended.isSome = false)
    (waiting : ∀ a ∈ s.asked, ∃ p, s.site.purpose? a.task = some p)
    (found : s.site.task? n =
      some ⟨held, .asking client (.done (.error err)) (.probe start false)⟩)
    (may : start.mayInstall = true) (going : err.isCancelled = false) :
    (s.meet (.goOn n)).site.purpose? n = some (.bootstrap start) := by
  have working : s.isOver n = false := by
    rw [← Bool.not_eq_true, orderly.isOver_iff found]
    exact Bool.false_ne_true
  have unasked : s.asked? n = none := by
    refine List.find?_eq_none.mpr fun a member own => ?_
    obtain ⟨p, waits⟩ := waiting a member
    rw [beq_iff_eq.mp own, Site.purpose?, found] at waits
    cases waits
  have meets : s.meet (.goOn n) = s.move (.advance n) := by
    rw [meet, running, if_neg Bool.false_ne_true, working]
    rcases orderly.atWork found working with job | ⟨id, job⟩ <;>
      simp only [Bool.false_eq_true, if_false, advance, job, unasked, Option.bind_none]
  rw [meets, (s.move_behind _).1, Site.move_advance found, Site.purpose?_put found,
    Function.update_self]
  simp only [Workspace.advance, Workspace.probed, going, may, Bool.not_true, Bool.or_self,
    Bool.false_eq_true, if_false]
  rfl

/-- A session that finds no engine has one installed at the root. A start waits for the policy once
its first probe of the version has failed; it has put a question to the editor then, and calls the
installer once that question has ended. Nothing else calls it for a start, and every start is by a
configuration that the editor has sent. Where that names neither a mode nor a root, and the editor
answers null or nothing, the call is the one of the command line but for the directory: they are the
same just when the directory of the command line is the root, which it is where the file says
nothing else. -/
theorem first_install_at_root (env : Environment) (c : ServerConfig) (files : FileTree)
    (here : Path) (past : List Incident) (unprompted : Unprompted past)
    (running : ((new env (.ofConfig env c) files here).course past).ended.isSome = false) :
    let d := Defaults.ofConfig env c
    let asked := CommandLine.installRequest d none none
    let first := new env d files here
    let s := first.course past
    (∀ n held client err start, s.site.task? n =
        some ⟨held, .asking client (.done (.error err)) (.probe start false)⟩ →
      start.mayInstall = true → err.isCancelled = false →
      (s.meet (.goOn n)).site.purpose? n = some (.bootstrap start)) ∧
    (∀ n start, s.site.purpose? n = some (.bootstrap start) → ∃ id since,
      first.Inquires past n id since ∧ ∀ answer,
        Outbound.fate? id Outbound.timeout (since.filterMap Incident.tells?) = some answer →
        ∃ r, s.site.workspace.Tells (s.meet (.goOn n)).site.workspace [.installs r]) ∧
    (∀ i, (∀ n policy, i ≠ .answer n (.policy policy)) → ∃ told,
      s.site.workspace.Tells (s.meet i).site.workspace told ∧ ∀ r, .installs r ∈ told →
        ∃ n p id since answer, i = .goOn n ∧ s.site.purpose? n = some p ∧
          first.Inquires past n id since ∧
          Outbound.fate? id Outbound.timeout (since.filterMap Incident.tells?) = some answer ∧
          (∀ body, answer = some body → .frame body ∈ past ∧
            Incoming.ofFrame? body = some (.response id body)) ∧
          ∀ start, p = .bootstrap start → ∃ frame e, .frame frame ∈ past ∧
            Rpc.Configures frame e ∧ start.settings.Heeds env d e ∧
            (¬e.Overrides env →
              (∀ body, answer = some body → body.field? "result" = some .null) →
              r = { asked with targetDir := d.cliRoot } ∧
                (r = asked ↔ d.installDir = d.cliRoot))) ∧
    d.installDir = ((c.install.bind InstallSection.dir).map fun dir =>
      Path.ofText (env.expand dir)).getD d.cliRoot := by
  intro d asked first s
  have inquiring : first.Inquiring past d := inquiring_course env d files here unprompted running
  have orderly : s.Orderly := (orderly_new env d files here).course past
  have same : s.defaults = d := (past_course env d files here past).defaults_eq
  refine ⟨fun n held client err start found may going => ?_, fun n start waits => ?_,
    fun i own => ?_, Defaults.installDir_ofConfig env c⟩
  · exact waits_of_failed_probe orderly running inquiring.matched.waiting found may going
  · obtain ⟨id, since, inquires, calls, _⟩ := inquiring.turn same orderly running waits
    exact ⟨id, since, inquires, fun answer met => ⟨_, calls answer met⟩⟩
  · obtain ⟨told, tells, calls⟩ := inquiring.calls same
      (meet_loads running inquiring.matched.waiting own)
    refine ⟨told, tells, fun r called => ?_⟩
    obtain ⟨n, id, since, p, answer, turn, waits, inquires, met, rfl⟩ := calls r called
    refine ⟨n, p, id, since, answer, turn, waits, inquires, met, fun body answered => ?_, ?_⟩
    · exact inquires.sent (met.trans (congrArg some answered))
    rintro start rfl
    obtain ⟨frame, e, sent, configures, heeds⟩ := of_purpose?_bootstrap waits
    refine ⟨frame, e, sent, configures, heeds, fun silent null => ?_⟩
    rw [start.request_of_silence heeds silent null]
    exact ⟨rfl, CommandLine.installRequest_root_iff d d.cliRoot⟩

/-- A file that has the command line install elsewhere. -/
def elsewhere : ServerConfig :=
  ⟨some ⟨some "/opt/lh", none, none, none, none⟩, some ⟨none, some "/srv/lh", none, none⟩, none,
    none⟩

/-- An editor that says nothing of its own, where there is no engine. -/
def engineless : List Incident :=
  [.frame Rpc.initializeFrame, .frame (Rpc.configureFrame .null)] ++
  List.replicate 5 (.goOn 0) ++ [.finish 0 .version 0 (.error (.unavailable "cli"))] ++
  List.replicate 2 (.goOn 0) ++ [.frame (Json.object [("id", .nat 1), ("result", .null)])]

theorem unprompted_engineless : Unprompted engineless := by
  intro n policy member
  simp [engineless] at member

theorem frames_engineless {frame : Json} (sent : .frame frame ∈ engineless) :
    frame = Rpc.initializeFrame ∨ frame = Rpc.configureFrame .null ∨
      frame = Json.object [("id", .nat 1), ("result", .null)] := by
  simpa [engineless] using sent

/-- The editor has sent one configuration, which says nothing. -/
theorem configures_engineless {frame : Json} {e : EditorSection} (sent : .frame frame ∈ engineless)
    (configures : Rpc.Configures frame e) : ¬e.Overrides ⟨[]⟩ := by
  obtain ⟨params, v, message, decoded, said⟩ := configures
  rcases frames_engineless sent with rfl | rfl | rfl
  · cases message
  · cases message
    cases decoded
    cases EditorSection.ofJson_iff.mpr said
    rintro (⟨_, _, ⟨⟩, _⟩ | ⟨_, _, ⟨⟩, _⟩)
  · cases message

/-- It has answered null. -/
theorem answers_engineless {frame : Json} {id : Nat} {body : Json}
    (sent : .frame frame ∈ engineless)
    (message : Incoming.ofFrame? frame = some (.response id body)) :
    body.field? "result" = some .null := by
  rcases frames_engineless sent with rfl | rfl | rfl
  · cases message
  · cases message
  · cases message
    rfl

/-- Its start has asked the editor, and has the engine installed with its next turn. -/
theorem installs_of_engineless :
    let s := (new ⟨[]⟩ (.ofConfig ⟨[]⟩ elsewhere) ⟨[], []⟩ ⟨[]⟩).course engineless
    let r : InstallRequest := ⟨.nativeBinary, .ofText "/opt/lh", none, true⟩
    (∃ start, s.site.purpose? 0 = some (.bootstrap start)) ∧
      .installs r ∉ s.site.workspace.events ∧
      .installs r ∈ (s.meet (.goOn 0)).site.workspace.events := by
  intro s r
  have before : s.site.workspace.events.filter Event.loads = [.askPolicy] := rfl
  have last : (s.meet (.goOn 0)).site.workspace.events.getLast? = some (.installs r) := rfl
  refine ⟨⟨_, rfl⟩, fun member => ?_, List.mem_of_getLast? last⟩
  have told := List.mem_filter.mpr ⟨member, (rfl : Event.loads (.installs r) = true)⟩
  rw [before] at told
  cases List.mem_singleton.mp told

/-- The engine is installed at the root then, and not where the command line would. -/
theorem installs_at_root_of_engineless :
    let d := Defaults.ofConfig ⟨[]⟩ elsewhere
    let s := (new ⟨[]⟩ d ⟨[], []⟩ ⟨[]⟩).course engineless
    let r : InstallRequest := ⟨.nativeBinary, .ofText "/opt/lh", none, true⟩
    Unprompted engineless ∧ s.ended.isSome = false ∧
      .installs r ∈ (s.meet (.goOn 0)).site.workspace.events ∧
      r = { CommandLine.installRequest d none none with targetDir := d.cliRoot } ∧
      (r = CommandLine.installRequest d none none ↔ d.installDir = d.cliRoot) := by
  have running : ((new ⟨[]⟩ (.ofConfig ⟨[]⟩ elsewhere) ⟨[], []⟩ ⟨[]⟩).course
    engineless).ended.isSome = false := rfl
  obtain ⟨⟨start, waits⟩, fresh, installs⟩ := installs_of_engineless
  obtain ⟨_, _, calls, _⟩ := first_install_at_root ⟨[]⟩ elsewhere ⟨[], []⟩ ⟨[]⟩ engineless
    unprompted_engineless running
  obtain ⟨told, tells, calls⟩ := calls (.goOn 0) fun n policy => Incident.noConfusion
  refine ⟨unprompted_engineless, running, installs, ?_⟩
  obtain ⟨n, p, id, _, answer, turn, found, _, _, answered, of⟩ :=
    calls _ ((tells.mem installs rfl).resolve_left fresh)
  cases turn
  obtain ⟨frame, e, sent, configures, _, same⟩ :=
    of start (Option.some.inj (found.symm.trans waits))
  refine same (configures_engineless sent configures) fun body told => ?_
  obtain ⟨member, message⟩ := answered body told
  exact answers_engineless member message

/-- A session does not always install where the command line does. -/
theorem not_installs_as_asked :
    ¬∀ (env : Environment) (c : ServerConfig) (files : FileTree) (here : Path)
      (past : List Incident),
      let d := Defaults.ofConfig env c
      let s := (new env d files here).course past
      Unprompted past → s.ended.isSome = false →
      (∀ frame e, .frame frame ∈ past → Rpc.Configures frame e → ¬e.Overrides env) →
      (∀ frame id body, .frame frame ∈ past →
        Incoming.ofFrame? frame = some (.response id body) →
          body.field? "result" = some .null) →
      ∀ n start r, s.site.purpose? n = some (.bootstrap start) →
        .installs r ∉ s.site.workspace.events →
        .installs r ∈ (s.meet (.goOn n)).site.workspace.events →
          r = CommandLine.installRequest d none none := by
  intro all
  obtain ⟨⟨start, waits⟩, fresh, installs⟩ := installs_of_engineless
  have same := all ⟨[]⟩ elsewhere ⟨[], []⟩ ⟨[]⟩ engineless unprompted_engineless rfl
    (fun frame e => configures_engineless) (fun frame id body => answers_engineless) 0 start _
    waits fresh installs
  revert same
  decide +kernel

end Server

end LintBridge
