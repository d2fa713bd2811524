import LintBridge.Proofs.Server.Reconfigure

namespace LintBridge

namespace Server

variable {s : Server} {site : Site} {env : Environment} {d : Defaults} {files : FileTree}

/-- How a request to shut down is carried out. -/
theorem handle_shutdown (found : s.site? = some site) (up : s.shuttingDown = false)
    {frame id params : Json}
    (message : Incoming.ofFrame? frame = some (.request id "shutdown" params)) :
    s.handle frame = ({ s with shuttingDown := true }.withSite none
      { site with workspace := site.workspace.shutdown }).send (Rpc.response id .null) := by
  unfold handle
  simp only [message]
  unfold request
  rw [if_neg (by decide), if_neg (by rw [found]; simp), up, if_neg Bool.false_ne_true,
    site_eq found]
  rfl

/-- A server is quiet as it is shut down. -/
theorem quiet_of_shutdown (found : s.site? = some site) (sound : site.view.Sound)
    (up : s.shuttingDown = false) (running : s.ended.isSome = false) {frame id params : Json}
    (message : Incoming.ofFrame? frame = some (.request id "shutdown" params)) (mayStart : Prop) :
    (s.meet (.frame frame)).Quiet mayStart site.tasks.length
        { site with workspace := site.workspace.shutdown } ∧
      (s.meet (.frame frame)).jobs = s.jobs ∧ (s.meet (.frame frame)).ended = s.ended := by
  have gist := withSite_gist { s with shuttingDown := true } none
    { site with workspace := site.workspace.shutdown }
  rw [meet_frame running, handle_shutdown found up message]
  refine ⟨⟨congrArg Gist.site? gist, congrArg Gist.shuttingDown gist, ?_, rfl, Nat.le_refl _,
    fun n t late atN => ?_⟩, congrArg Gist.jobs gist, congrArg Gist.ended gist⟩
  · rw [Site.shutdown_view]
    exact sound.close
  · rw [Site.task?, List.getElem?_eq_none late] at atN
    cases atN

theorem down_of_change {i : Incident} {g : Gist} (change : s.Change site i g)
    (down : s.shuttingDown = true) : g.shuttingDown = true := by
  cases change with
  | finished => exact down
  | frame _ _ next =>
    cases next with
    | shutdown => rfl
    | _ => exact down
  | turn _ turn => cases turn <;> exact down

/-- A server that was shut down takes no request to install any more, whatever happens. -/
theorem not_request_mem (found : s.site? = some site) (down : s.shuttingDown = true)
    (later : List Incident) (who : Option Nat) : (who, .request) ∉ s.deeds later := by
  induction later generalizing s site with
  | nil => exact List.not_mem_nil
  | cons i rest ih =>
    obtain ⟨site', found', _⟩ := meet_step found i
    have down' : (s.meet i).shuttingDown = true := down_of_change (meet_change found i) down
    intro member
    rcases List.mem_append.mp member with first | more
    · exact not_request_of_down found down i who (Option.mem_toList.mp first)
    · exact ih found' down' more

theorem done_of_isOver {n : Nat} (within : n < s.jobs.length) (finished : s.isOver n = true) :
    s.jobs[n]? = some .done := by
  unfold isOver at finished
  split at finished
  · assumption
  · rename_i beyond
    rw [List.getElem?_eq_none_iff] at beyond
    omega
  · cases finished

/-- Where a task takes the session over on the way, it was started there. -/
theorem phase_of_takeOver (found : s.site? = some site) {later : List Incident} {who : Option Nat}
    {st : Start} (member : (who, .takeOver st) ∈ s.deeds later) :
    ∃ p, p <+: later ∧ (s.course p).site.workspace.session.phase = .initializing := by
  obtain ⟨before, i, rest, rfl, labelled⟩ := of_deeds member
  obtain ⟨site', found', _⟩ := course_reach found before
  obtain ⟨site'', found'', step⟩ := meet_step found' i
  rw [labelled] at step
  refine ⟨before ++ [i], ⟨rest, by rw [List.append_assoc]; rfl⟩, ?_⟩
  rw [course_concat, site_eq found'']
  exact congrArg Session.phase step.session_of_takeOver.1

/-- A task that takes the session over after a shutdown has come to start it, before or after, or
was to install an engine before. -/
theorem came_of_takeOver {here : Path} {before later : List Incident} {frame id params : Json}
    (found : ((new env d files here).course before).site? = some site)
    (sound : site.view.Sound)
    (up : ((new env d files here).course before).shuttingDown = false)
    (running : ((new env d files here).course before).ended.isSome = false)
    (message : Incoming.ofFrame? frame = some (.request id "shutdown" params))
    {who : Option Nat} {st : Start}
    (member : (who, .takeOver st) ∈
      (((new env d files here).course before).meet (.frame frame)).deeds later) :
    ∃ n, who = some n ∧
      ((some n, .arrive st.settings) ∈
          (new env d files here).deeds (before ++ .frame frame :: later) ∨
        (some n, .request) ∈ (new env d files here).deeds before) := by
  have quiet := (quiet_of_shutdown found sound up running message True).1
  have whole : (new env d files here).deeds (before ++ .frame frame :: later) =
      (new env d files here).deeds before ++ ((some (none, .close)).toList ++
        (((new env d files here).course before).meet (.frame frame)).deeds later) := by
    rw [deeds_append, deeds, deed?, running, up, quiet.down]
    rfl
  obtain ⟨site', atEnd, _⟩ := course_reach quiet.found later
  have past := past_course env d files here (before ++ .frame frame :: later)
  rw [course_append] at past
  obtain ⟨_, project, reach⟩ := past.opened site' atEnd
  obtain ⟨n, own, founded⟩ := (reach.origins rfl).took who st (whole ▸
    List.mem_append_right _ (List.mem_append_right _ member))
  refine ⟨n, own, founded.symm.imp_right fun asked => ?_⟩
  rw [whole] at asked
  rcases List.mem_append.mp asked with old | new
  · exact old
  · rcases List.mem_append.mp new with first | more
    · cases List.mem_singleton.mp first
    · exact absurd more (not_request_mem quiet.found quiet.down later _)

/-- After a shutdown was accepted the session stays as it is just as long as no task takes it over,
and that none does but those that a change of the configuration has begun, before the shutdown or
after it, and installations that were asked for before. Unless one does, no program is run but by
tasks that were under way. Where none was, nothing starts the session and no program is run, however
the tasks take their turns, just when the configuration does not change before the editor leaves. -/
theorem server_after_shutdown (env : Environment) (d : Defaults) (files : FileTree) (here : Path)
    (before later : List Incident) (frame id params : Json) :
    let first := new env d files here
    let s := first.course before
    let down := s.meet (.frame frame)
    Incoming.ofFrame? frame = some (.request id "shutdown" params) →
    s.ended.isSome = false → s.site?.isSome = true → s.shuttingDown = false →
    down.sent.getLast? = some (Rpc.response id .null) ∧
    ((∀ p, p <+: later → (down.course p).site.workspace.session.phase = .uninitialized) ↔
      ∀ who st, (who, .takeOver st) ∉ down.deeds later) ∧
    (∀ who st, (who, .takeOver st) ∈ down.deeds later → ∃ n, who = some n ∧
      ((some n, .arrive st.settings) ∈ first.deeds (before ++ .frame frame :: later) ∨
        (some n, .request) ∈ first.deeds before)) ∧
    ((∀ who st, (who, .takeOver st) ∉ down.deeds later) → ∀ p i, p ++ [i] <+: later →
      (down.course (p ++ [i])).site.workspace.runs ≠ (down.course p).site.workspace.runs →
      ∃ n, i.task? = some n ∧ n < s.jobs.length ∧ (down.course p).isOver n = false) ∧
    ((∀ n, down.isOver n = true) → ∀ frames,
      (∀ later, later.filterMap Incident.frame? = frames → down.Rests later) ↔
        Rpc.reconfigures env d frames = false) := by
  intro first s down message running opened up
  obtain ⟨site, found⟩ := Option.isSome_iff_exists.mp opened
  have past : s.Past env d files (first.deeds before) := past_course env d files here before
  obtain ⟨length, project, reach⟩ := past.opened site found
  have sound : site.view.Sound := reach.sound (Workspace.new_sound project d files)
  obtain ⟨quiet, jobs, ended⟩ := quiet_of_shutdown found sound up running message True
  have past' : down.Past env d files _ := past.meet (.frame frame)
  refine ⟨?_, ⟨fun all who st member => ?_, fun none p => quiet.uninitialized trivial none⟩,
    fun who st => came_of_takeOver found sound up running message,
    fun none p i part differs => ?_,
    fun finished frames => ⟨fun all => ?_, fun still later same => ?_⟩⟩
  · rw [show down = _ from (meet_frame running frame).trans (handle_shutdown found up message)]
    exact List.getLast?_concat
  · obtain ⟨p, part, starts⟩ := phase_of_takeOver quiet.found member
    cases (all p part).symm.trans starts
  · rw [← length]
    exact quiet.runs_of_early trivial none part differs
  · cases changes : Rpc.reconfigures env d frames with
    | false => rfl
    | true =>
      have within := (askedWithin_course env d files here before).meet past (.frame frame)
      have running' : down.ended.isSome = false := ended ▸ running
      obtain ⟨later', p, same, part, starts⟩ :=
        starts_of_reconfigures past' within quiet.found running' changes
      cases ((all later' same) p part).1.symm.trans starts
  · have quiet' := (quiet_of_shutdown found sound up running message False).1
    refine rests_of_not_reconfigures quiet' (fun n early => ?_) (.inr ?_)
    · have within : n < down.jobs.length := by
        rw [jobs, ← length]
        exact early
      exact done_of_isOver within (finished n)
    · rw [same, show down.env = env from past'.env_eq,
        show down.defaults = d from past'.defaults_eq]
      exact still

/-- A server that was just told its project rests after a shutdown, if nothing else comes. -/
theorem rests_after_shutdown :
    let s := (new ⟨[]⟩ (.builtIn ⟨[]⟩) ⟨[], []⟩ ⟨[]⟩).course [.frame Rpc.initializeFrame]
    let down := s.meet (.frame Rpc.shutdownFrame)
    down.sent.getLast? = some (Rpc.response (.nat 2) .null) ∧
    ∀ later, later.filterMap Incident.frame? = [] → down.Rests later := by
  obtain ⟨accepted, _, _, _, rests⟩ := server_after_shutdown ⟨[]⟩ (.builtIn ⟨[]⟩) ⟨[], []⟩ ⟨[]⟩
    [.frame Rpc.initializeFrame] [] Rpc.shutdownFrame (.nat 2) .null rfl rfl rfl rfl
  exact ⟨accepted, (rests (fun n => rfl) []).mpr rfl⟩

/-- Not every server stays without a session after a shutdown: a change of the configuration starts
one. -/
theorem not_uninitialized_after_shutdown :
    ¬∀ (env : Environment) (d : Defaults) (files : FileTree) (here : Path)
      (before later : List Incident) (frame id params : Json),
      let s := (new env d files here).course before
      Incoming.ofFrame? frame = some (.request id "shutdown" params) →
      s.ended.isSome = false → s.site?.isSome = true → s.shuttingDown = false →
      ∀ p, p <+: later →
        ((s.meet (.frame frame)).course p).site.workspace.session.phase = .uninitialized := by
  intro all
  have stays := all ⟨[]⟩ (.builtIn ⟨[]⟩) ⟨[], []⟩ ⟨[]⟩ [.frame Rpc.initializeFrame]
    [.frame (Rpc.configureFrame .null), .goOn 0, .goOn 0] Rpc.shutdownFrame (.nat 2) .null
    rfl rfl rfl rfl _ (List.prefix_refl _)
  cases stays

end Server

end LintBridge
