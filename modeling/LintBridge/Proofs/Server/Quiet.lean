import LintBridge.Proofs.Server.Course
import LintBridge.Proofs.Workspace.Origin
import LintBridge.Proofs.Workspace.Places

namespace LintBridge

/-- Whether a program is run. -/
def Event.isRun : Event → Bool
  | runs _ => true
  | _ => false

/-- How many programs have been run. -/
def Workspace.runs (w : Workspace) : Nat := w.events.countP Event.isRun

/-- A point from which a task that a notification has begun after a shutdown does nothing but start
the session, and that only if it is to do so. -/
inductive Point.Idle (mayStart : Prop) : Point → Prop
  | analyze {document t} : Idle mayStart (.begin (.analyzeFile document t))
  | seek {document t} : Idle mayStart (.seek (.analyzeFile document t))
  | start {s} : mayStart → Idle mayStart (.begin (.start s))
  | takeOver {s mayInstall installed} : mayStart →
      Idle mayStart (.takeOver s mayInstall installed)
  | done {o} : Idle mayStart (.done o)

/-- Without a session such a task changes nothing, unless it takes the session over. -/
theorem Point.Idle.advance {mayStart : Prop} {w : Workspace} {t : Task}
    (idle : t.point.Idle mayStart) (closed : w.session.phase = .uninitialized) :
    (∃ st, w.deed? t = some (.takeOver st)) ∨
      ((w.advance t).1 = w ∧ (w.advance t).2.point.Idle mayStart) := by
  obtain ⟨held, point⟩ := t
  cases idle with
  | @analyze document t =>
    refine .inr ⟨rfl, ?_⟩
    simp only [Workspace.advance, Workspace.begin]
    split
    · exact .done
    · exact .seek
  | seek =>
    have none : w.readyClient? = none := by
      unfold Workspace.readyClient?
      rw [closed]
    refine .inr ?_
    simp only [Workspace.advance, none]
    exact ⟨trivial, .done⟩
  | start may => exact .inr ⟨rfl, .takeOver may⟩
  | takeOver => exact .inl ⟨_, rfl⟩
  | done => exact .inr ⟨rfl, .done⟩

/-- Such a task waits for nothing. -/
theorem Point.Idle.receive {mayStart : Prop} {t : Task} (idle : t.point.Idle mayStart)
    (w : Workspace) (a : Answer) : w.receive t a = (w, t) := by
  obtain ⟨held, point⟩ := t
  cases idle <;> rfl

theorem Workspace.runs_tracked (w : Workspace) (t : Tracked) : (w.tracked t).runs = w.runs := by
  simp [tracked, runs, List.countP_append, List.countP_map, Function.comp_def, Event.isRun]

theorem Workspace.runs_finish (w : Workspace) (client : ClientId) (kept : Kept) (n : Nat)
    (r : Except EngineError String) : (w.finish client kept n r).runs = w.runs := by
  unfold finish
  split <;> rfl

theorem Server.taskOf_eq (m : Move) : taskOf m = m.task? := by cases m <;> rfl

/-- The task whose turn an incident is, or whose answer. -/
def Incident.task? : Incident → Option Nat
  | goOn n | answer n _ => some n
  | _ => none

/-- A task takes the session over where it stands at that point. -/
theorem Workspace.point_of_takeOver {w : Workspace} {t : Task} {st : Start}
    (takes : w.deed? t = some (.takeOver st)) :
    ∃ mayInstall installed, t.point = .takeOver st.settings mayInstall installed := by
  obtain ⟨held, point⟩ := t
  cases point with
  | takeOver s mayInstall installed =>
    cases takes
    exact ⟨_, _, rfl⟩
  | begin e => cases e <;> cases takes
  | commit s result =>
    simp only [deed?] at takes
    split at takes
    · split at takes
      · cases takes
      · split at takes <;> cases takes
    · cases takes
  | _ => cases takes

theorem Stake.Step.not_request {σ σ' : Standing} {k k' : Stake} :
    ¬Stake.Step σ k (some .request) σ' k' := nofun

namespace Server

theorem task?_of_move? {s : Server} {i : Incident} {m : Move} (move : s.move? i = some m)
    (other : ∀ e, m ≠ .spawn e) : i.task? = taskOf m ∧ ∀ n, m ≠ .abandon n := by
  cases i with
  | frame value =>
    simp only [move?] at move
    split at move
    · cases move
      exact absurd rfl (other _)
    · cases move
  | goOn n =>
    simp only [move?] at move
    split at move
    · split at move <;> cases move <;> exact ⟨rfl, fun n => Move.noConfusion⟩
    · split at move <;> cases move <;> exact ⟨rfl, fun n => Move.noConfusion⟩
    · cases move
  | answer n a =>
    simp only [move?] at move
    split at move
    · cases move
    · cases move
      exact ⟨rfl, fun n => Move.noConfusion⟩
  | finish client kept n r =>
    simp only [move?] at move
    split at move
    · cases move
      exact ⟨rfl, fun n => Move.noConfusion⟩
    · cases move
  | elapse ms => cases move

/-- The task whose move an incident comes to is at work. -/
theorem working_of_move? {s : Server} {i : Incident} {m : Move} (move : s.move? i = some m)
    (other : ∀ e, m ≠ .spawn e) {n : Nat} (own : taskOf m = some n) : s.isOver n = false := by
  cases i with
  | frame value =>
    simp only [move?] at move
    split at move
    · cases move
      exact absurd rfl (other _)
    · cases move
  | goOn k =>
    obtain rfl : k = n := Option.some.inj ((task?_of_move? move other).1.trans own)
    simp only [move?] at move
    split at move
    · rename_i job
      simp only [isOver, job]
    · rename_i job
      simp only [isOver, job]
    · cases move
  | answer k a =>
    simp only [move?] at move
    split at move
    · cases move
    · rename_i working
      cases move
      cases own
      exact Bool.eq_false_iff.mpr working
  | finish =>
    simp only [move?] at move
    split at move
    · cases move
      cases own
    · cases move
  | elapse => cases move

/-- A server that was shut down, whose session nobody has taken over, and whose tasks from some
number on are as notifications have begun them. -/
structure Quiet (mayStart : Prop) (first : Nat) (s : Server) (site : Site) : Prop where
  found : s.site? = some site
  down : s.shuttingDown = true
  sound : site.view.Sound
  closed : site.workspace.session.phase = .uninitialized
  few : first ≤ site.tasks.length
  idle : ∀ n t, first ≤ n → site.task? n = some t → t.point.Idle mayStart

variable {mayStart : Prop} {first : Nat} {s : Server} {site : Site}

/-- The workspace of a quiet server after a move that is no takeover: tasks that came late do
nothing in it. -/
theorem Quiet.move (quiet : s.Quiet mayStart first site) {m : Move} (spawns : ∀ e, m ≠ .spawn e)
    (abandons : ∀ n, m ≠ .abandon n) (none : ∀ who st, site.deed? m ≠ some (who, .takeOver st)) :
    (∀ n t, first ≤ n → (site.move m).task? n = some t → t.point.Idle mayStart) ∧
      ((site.move m).workspace.runs = site.workspace.runs ∨
        ∃ n, taskOf m = some n ∧ n < first) := by
  have after {n : Nat} {t : Task} (found : site.task? n = some t) (next : Workspace × Task)
      (own : first ≤ n → next.1 = site.workspace ∧ next.2.point.Idle mayStart) :
      (∀ m t, first ≤ m → (site.put n next).task? m = some t → t.point.Idle mayStart) ∧
        ((site.put n next).workspace.runs = site.workspace.runs ∨ n < first) := by
    refine ⟨fun m t late atM => ?_, ?_⟩
    · by_cases same : n = m
      · subst same
        rw [Site.task?_put_self found] at atM
        exact Option.some.inj atM ▸ (own late).2
      · rw [Site.task?_put_of_ne same] at atM
        exact quiet.idle m t late atM
    · rcases Nat.lt_or_ge n first with early | late
      · exact .inr early
      · exact .inl (congrArg Workspace.runs (own late).1)
  cases m with
  | spawn e => exact absurd rfl (spawns e)
  | abandon n => exact absurd rfl (abandons n)
  | finish client kept n r =>
    exact ⟨quiet.idle, .inl (site.workspace.runs_finish client kept n r)⟩
  | advance n =>
    cases found : site.task? n with
    | none =>
      simp only [Site.move, found, Option.map_none, Option.getD_none]
      exact ⟨quiet.idle, .inl trivial⟩
    | some t =>
      simp only [Site.move, found, Option.map_some, Option.getD_some]
      obtain ⟨idle, runs⟩ := after found (site.workspace.advance t) fun late => by
        rcases (quiet.idle n t late found).advance quiet.closed with ⟨st, deed⟩ | rests
        · refine absurd ?_ (none (some n) st)
          simp only [Site.deed?, found, Option.bind_some, deed, Option.map_some]
        · exact rests
      exact ⟨idle, runs.imp_right fun early => ⟨n, rfl, early⟩⟩
  | receive n a =>
    cases found : site.task? n with
    | none =>
      simp only [Site.move, found, Option.map_none, Option.getD_none]
      exact ⟨quiet.idle, .inl trivial⟩
    | some t =>
      simp only [Site.move, found, Option.map_some, Option.getD_some]
      obtain ⟨idle, runs⟩ := after found (site.workspace.receive t a) fun late => by
        have idle := quiet.idle n t late found
        rw [idle.receive]
        exact ⟨rfl, idle⟩
      exact ⟨idle, runs.imp_right fun early => ⟨n, rfl, early⟩⟩

/-- What happens to a quiet server, short of a takeover, leaves it quiet; and no program is run
unless by a task that came early. -/
theorem Quiet.meet (quiet : s.Quiet mayStart first site) (i : Incident)
    (settings : ∀ value st, s.ended.isSome = false → i = .frame value →
      Rpc.settings? s.env s.defaults value = some st → mayStart)
    (none : ∀ who st, s.deed? i ≠ some (who, .takeOver st)) :
    ∃ site', (s.meet i).Quiet mayStart first site' ∧
      (site'.workspace.runs = site.workspace.runs ∨
        ∃ n, i.task? = some n ∧ n < first ∧ s.isOver n = false) := by
  obtain ⟨site', found', step⟩ := meet_step quiet.found i
  have sound := quiet.sound.step step
  have closed := step.uninitialized quiet.sound quiet.closed none
  have change := meet_change quiet.found i
  refine ⟨site', ?_⟩
  generalize gist : (s.meet i).gist = g at change
  have sites : g.site? = some site' := (congrArg Gist.site? gist).symm.trans found'
  have down' : (s.meet i).shuttingDown = g.shuttingDown := congrArg Gist.shuttingDown gist
  have same (same : g.site? = s.site?) (down : g.shuttingDown = s.shuttingDown) :
      (s.meet i).Quiet mayStart first site' ∧ (site'.workspace.runs = site.workspace.runs ∨
        ∃ n, i.task? = some n ∧ n < first ∧ s.isOver n = false) := by
    have still : site' = site := Option.some.inj (sites.symm.trans (same.trans quiet.found))
    subst still
    exact ⟨⟨found', down'.trans (down.trans quiet.down), sound, closed, quiet.few, quiet.idle⟩,
      .inl rfl⟩
  have up {P : Prop} (up : s.gist.shuttingDown = false) : P := by
    rw [show s.gist.shuttingDown = true from quiet.down] at up
    cases up
  cases change with
  | finished => exact same rfl rfl
  | frame running framed next =>
    cases next with
    | same | leave => exact same rfl rfl
    | @spawn e job allowed reads =>
      cases sites
      refine ⟨⟨found', down'.trans quiet.down, sound, closed, ?_, fun n t late atN => ?_⟩, .inl rfl⟩
      · simp only [Site.move, List.length_append]
        exact Nat.le_add_right_of_le quiet.few
      · rcases Nat.lt_or_ge n site.tasks.length with old | new
        · refine quiet.idle n t late ?_
          rw [← atN, Site.task?, Site.task?, Site.move, List.getElem?_append_left old]
        · rw [Site.task?, Site.move, List.getElem?_append_right new, List.getElem?_singleton] at atN
          split at atN
          · cases atN
            rcases allowed quiet.down with ⟨document, t, rfl⟩ | ⟨st, rfl⟩
            · exact .analyze
            · exact .start (settings _ st running framed (reads st rfl))
          · cases atN
    | refuse running => exact up running
    | look document =>
      cases sites
      exact ⟨⟨found', down'.trans quiet.down, sound, closed, quiet.few, quiet.idle⟩,
        .inl (site.workspace.runs_tracked _)⟩
    | shutdown running => exact up running
  | turn running turn =>
    cases turn with
    | rest | refuse => exact same rfl rfl
    | @move m jobs move spawns working =>
      obtain ⟨task, abandons⟩ := task?_of_move? move spawns
      have deed := deed?_of_move quiet.found running (down'.trans rfl) move
      rw [site_eq quiet.found] at sites
      cases sites
      obtain ⟨idle, runs⟩ := quiet.move spawns abandons fun who st labelled =>
        none who st (deed.trans labelled)
      refine ⟨⟨found', down'.trans quiet.down, sound, closed, ?_, idle⟩, ?_⟩
      · rw [Site.length_move spawns]
        exact quiet.few
      · rcases runs with same | ⟨n, own, early⟩
        · exact .inl same
        · exact .inr ⟨n, task.trans own, early, working n own⟩

/-- Where a task takes the session over, it has its turn, and stands where that is done. -/
theorem of_takeOver (found : s.site? = some site) {i : Incident} {who : Option Nat} {st : Start}
    (labelled : s.deed? i = some (who, .takeOver st)) : ∃ n t, who = some n ∧ i.task? = some n ∧
      s.isOver n = false ∧ site.task? n = some t ∧
        ∃ mayInstall installed, t.point = .takeOver st.settings mayInstall installed := by
  obtain ⟨_, ⟨_, closes⟩ | ⟨m, move, does⟩⟩ := of_deed? found labelled
  · cases closes
  cases does with
  | @own n t _ atN does =>
    have other (e : Errand) : Move.advance n ≠ .spawn e := Move.noConfusion
    exact ⟨n, t, rfl, (task?_of_move? move other).1, working_of_move? move other rfl, atN,
      Workspace.point_of_takeOver does⟩

/-- A server that was shut down takes no request to install any more. -/
theorem not_request_of_down (found : s.site? = some site) (down : s.shuttingDown = true)
    (i : Incident) (who : Option Nat) : s.deed? i ≠ some (who, .request) := by
  intro labelled
  obtain ⟨_, ⟨up, _⟩ | ⟨m, move, does⟩⟩ := of_deed? found labelled
  · cases up.symm.trans down
  cases does with
  | request =>
    obtain ⟨_, _, allowed, _⟩ := of_spawn found move
    rcases allowed down with ⟨_, _, other⟩ | ⟨_, other⟩ <;> cases other
  | own _ does => exact (does ▸ site.workspace.advance_step _).not_request

/-- Whatever happens to a quiet server short of a takeover, it is quiet afterwards. -/
theorem Quiet.course (quiet : s.Quiet mayStart first site) (may : mayStart)
    (incidents : List Incident) (none : ∀ who st, (who, .takeOver st) ∉ s.deeds incidents) :
    ∃ site', (s.course incidents).Quiet mayStart first site' := by
  induction incidents generalizing s site with
  | nil => exact ⟨site, quiet⟩
  | cons i rest ih =>
    obtain ⟨site', quiet', _⟩ := quiet.meet i (fun _ _ _ _ _ => may) fun who st labelled =>
      none who st (List.mem_append_left _ (Option.mem_toList.mpr labelled))
    exact ih quiet' fun who st member => none who st (List.mem_append_right _ member)

/-- Short of a takeover a quiet server has no session. -/
theorem Quiet.uninitialized (quiet : s.Quiet mayStart first site) (may : mayStart)
    {later p : List Incident} (none : ∀ who st, (who, .takeOver st) ∉ s.deeds later)
    (part : p <+: later) : (s.course p).site.workspace.session.phase = .uninitialized := by
  obtain ⟨site', quiet'⟩ := quiet.course may p fun who st member =>
    none who st (mem_deeds_mono part member)
  rw [site_eq quiet'.found]
  exact quiet'.closed

/-- Short of a takeover a quiet server runs no program but by tasks that came early. -/
theorem Quiet.runs_of_early (quiet : s.Quiet mayStart first site) (may : mayStart)
    {later p : List Incident} {i : Incident}
    (none : ∀ who st, (who, .takeOver st) ∉ s.deeds later) (part : p ++ [i] <+: later)
    (differs : (s.course (p ++ [i])).site.workspace.runs ≠ (s.course p).site.workspace.runs) :
    ∃ n, i.task? = some n ∧ n < first ∧ (s.course p).isOver n = false := by
  have none' (who : Option Nat) (st : Start) : (who, .takeOver st) ∉ s.deeds (p ++ [i]) :=
    fun member => none who st (mem_deeds_mono part member)
  rw [deeds_concat] at none'
  obtain ⟨site', quiet'⟩ := quiet.course may p fun who st member =>
    none' who st (List.mem_append_left _ member)
  obtain ⟨site'', quiet'', runs⟩ := quiet'.meet i (fun _ _ _ _ _ => may) fun who st labelled =>
    none' who st (List.mem_append_right _ (Option.mem_toList.mpr labelled))
  rw [course_concat, site_eq quiet''.found, site_eq quiet'.found] at differs
  exact runs.resolve_left differs

/-- A job that is done stays so. -/
theorem done_meet (found : s.site? = some site) {n : Nat} (finished : s.jobs[n]? = some .done)
    (i : Incident) : (s.meet i).jobs[n]? = some .done := by
  have change := meet_change found i
  generalize gist : (s.meet i).gist = g at change
  rw [show (s.meet i).jobs = g.jobs from congrArg Gist.jobs gist]
  obtain ⟨within, _⟩ := List.getElem?_eq_some_iff.mp finished
  have set (k : Nat) : (s.jobs.set k .done)[n]? = some .done := by
    by_cases same : k = n
    · subst same
      exact List.getElem?_set_self within
    · exact (List.getElem?_set_ne same).trans finished
  cases change with
  | finished => exact finished
  | frame _ _ next =>
    cases next with
    | spawn | refuse => exact (List.getElem?_append_left within).trans finished
    | _ => exact finished
  | turn _ turn =>
    cases turn with
    | rest => exact finished
    | refuse => exact set _
    | move _ _ _ jobs =>
      rcases jobs with rfl | ⟨k, _, rfl, _⟩
      · exact finished
      · exact set k

/-- Whether a server, from now until the editor leaves, has no session and runs no program. -/
def Rests (s : Server) (later : List Incident) : Prop :=
  ∀ p, p <+: later → (s.course p).site.workspace.session.phase = .uninitialized ∧
    (s.course p).site.workspace.runs = s.site.workspace.runs

end Server

/-- The frame that comes with an incident. -/
def Incident.frame? : Incident → Option Json
  | frame value => some value
  | _ => none

/-- Whether one of some frames changes the configuration before the editor leaves. -/
def Rpc.reconfigures (env : Environment) (d : Defaults) : List Json → Bool
  | [] => false
  | frame :: rest =>
    (Rpc.settings? env d frame).isSome || (!Rpc.isExit frame && reconfigures env d rest)

namespace Server

variable {s : Server} {site : Site}

/-- Once the editor has left or will not change the configuration, so it is ever after. -/
theorem still_meet (found : s.site? = some site) {i : Incident} {rest : List Incident}
    (still : s.ended.isSome = true ∨
      Rpc.reconfigures s.env s.defaults ((i :: rest).filterMap Incident.frame?) = false) :
    (s.meet i).ended.isSome = true ∨ Rpc.reconfigures (s.meet i).env (s.meet i).defaults
      (rest.filterMap Incident.frame?) = false := by
  obtain ⟨env, defaults, _⟩ := constant_of_change (meet_change found i)
  rw [show (s.meet i).env = s.env from env, show (s.meet i).defaults = s.defaults from defaults]
  cases running : s.ended.isSome with
  | true =>
    have meets : s.meet i = s := if_pos running
    rw [meets]
    exact .inl running
  | false =>
    have still := still.resolve_left (by rw [running]; exact Bool.false_ne_true)
    cases i with
    | frame value =>
      rw [meet_frame running]
      cases exit : Rpc.isExit value with
      | true => exact .inl (handle_exit exit)
      | false =>
        have first : ((Rpc.settings? s.env s.defaults value).isSome ||
            (!Rpc.isExit value && Rpc.reconfigures s.env s.defaults
              (rest.filterMap Incident.frame?))) = false := still
        rw [exit, Bool.or_eq_false_iff] at first
        exact .inr first.2
    | _ => exact .inr still

/-- A server that has nothing under way as it is shut down rests, however its tasks take their
turns, as long as the configuration does not change. -/
theorem rests_of_not_reconfigures {first : Nat} (quiet : s.Quiet False first site)
    (finished : ∀ n, n < first → s.jobs[n]? = some .done) {later : List Incident}
    (still : s.ended.isSome = true ∨
      Rpc.reconfigures s.env s.defaults (later.filterMap Incident.frame?) = false) :
    s.Rests later := by
  induction later generalizing s site with
  | nil =>
    rintro p ⟨rest, nothing⟩
    obtain rfl := (List.append_eq_nil_iff.mp nothing).1
    refine ⟨?_, rfl⟩
    rw [show s.course [] = s from rfl, site_eq quiet.found]
    exact quiet.closed
  | cons i rest ih =>
    have late {n : Nat} (working : s.isOver n = false) : first ≤ n := by
      refine Nat.le_of_not_lt fun early => ?_
      have done : s.isOver n = true := by simp only [isOver, finished n early]
      cases done.symm.trans working
    have reads (value : Json) (st : Settings) (running : s.ended.isSome = false)
        (framed : i = .frame value) (reads : Rpc.settings? s.env s.defaults value = some st) :
        False := by
      subst framed
      rcases still with ended | still
      · cases running.symm.trans ended
      · have first : ((Rpc.settings? s.env s.defaults value).isSome ||
            (!Rpc.isExit value && Rpc.reconfigures s.env s.defaults
              (rest.filterMap Incident.frame?))) = false := still
        rw [reads] at first
        cases first
    have none (who : Option Nat) (st : Start) : s.deed? i ≠ some (who, .takeOver st) := by
      intro labelled
      obtain ⟨n, t, _, _, working, atN, _, _, point⟩ := of_takeOver quiet.found labelled
      have idle := quiet.idle n t (late working) atN
      rw [point] at idle
      cases idle
      assumption
    obtain ⟨site', quiet', runs⟩ := quiet.meet i reads none
    have same : site'.workspace.runs = site.workspace.runs := by
      rcases runs with same | ⟨n, _, early, working⟩
      · exact same
      · exact absurd early (Nat.not_lt_of_le (late working))
    have rests := ih quiet' (fun n early => done_meet quiet.found (finished n early) i)
      (still_meet quiet.found still)
    rintro (_ | ⟨j, p⟩) ⟨more, whole⟩
    · refine ⟨?_, rfl⟩
      rw [show s.course [] = s from rfl, site_eq quiet.found]
      exact quiet.closed
    · cases whole
      obtain ⟨closed, runs⟩ := rests p ⟨more, rfl⟩
      refine ⟨closed, runs.trans ?_⟩
      rw [site_eq quiet'.found, site_eq quiet.found, same]

end Server

end LintBridge
