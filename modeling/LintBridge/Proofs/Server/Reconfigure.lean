import LintBridge.Proofs.Server.Turns

namespace LintBridge

namespace Server

variable {s : Server} {site : Site}

/-- A configuration that has changed is what the session starts with, once its task has had two
turns. -/
theorem starts_of_settings {env : Environment} {d : Defaults} {files : FileTree} {h : Chronicle}
    (past : s.Past env d files h) (within : s.AskedWithin) (found : s.site? = some site)
    (running : s.ended.isSome = false) {frame : Json} {st : Settings}
    (reads : Rpc.settings? s.env s.defaults frame = some st) :
    (s.course [.frame frame, .goOn s.jobs.length, .goOn s.jobs.length]).site.workspace.session.phase
      = .initializing := by
  obtain ⟨found₁, due₁⟩ := due_of_settings past within found running reads
  have running₁ : (s.meet (.frame frame)).ended.isSome = false := by
    rw [meet_frame running, handle_settings found reads]
    exact running
  obtain ⟨meets, due₂⟩ := due₁.first found₁ running₁
  have found₂ := congrArg Server.site? meets
  have running₂ := congrArg (fun s => s.ended.isSome) meets
  obtain ⟨st', takes, _⟩ := due₂.second found₂ (running₂.trans running₁)
  obtain ⟨site', found', step⟩ := meet_step found₂ (.goOn s.jobs.length)
  rw [takes] at step
  have last : (s.course [.frame frame, .goOn s.jobs.length, .goOn s.jobs.length]).site = site' :=
    site_eq found'
  rw [last]
  exact congrArg Session.phase step.session_of_takeOver.1

/-- Where the configuration changes before the editor leaves, the tasks of a server can take their
turns so that the session starts. -/
theorem starts_of_reconfigures {env : Environment} {d : Defaults} {files : FileTree} {h : Chronicle}
    (past : s.Past env d files h) (within : s.AskedWithin) (found : s.site? = some site)
    (running : s.ended.isSome = false) {frames : List Json}
    (changes : Rpc.reconfigures env d frames = true) :
    ∃ later p, later.filterMap Incident.frame? = frames ∧ p <+: later ∧
      (s.course p).site.workspace.session.phase = .initializing := by
  induction frames generalizing s site h with
  | nil => cases changes
  | cons frame rest ih =>
    have all (frames : List Json) :
        (frames.map Incident.frame).filterMap Incident.frame? = frames := by
      rw [List.filterMap_map]
      exact List.filterMap_some
    cases reads : Rpc.settings? env d frame with
    | some st =>
      let turns : List Incident := [.frame frame, .goOn s.jobs.length, .goOn s.jobs.length]
      refine ⟨turns ++ rest.map Incident.frame, turns, ?_, List.prefix_append _ _, ?_⟩
      · rw [List.filterMap_append, all]
        rfl
      · rw [← past.env_eq, ← past.defaults_eq] at reads
        exact starts_of_settings past within found running reads
    | none =>
      rw [Rpc.reconfigures, reads, Option.isSome_none, Bool.false_or, Bool.and_eq_true] at changes
      obtain ⟨site', found', _⟩ := meet_step found (.frame frame)
      have running' : (s.meet (.frame frame)).ended.isSome = false := by
        rw [meet_frame running]
        have next := s.handle_next found frame
        generalize gist : (s.handle frame).gist = g at next
        rw [show (s.handle frame).ended = g.ended from congrArg Gist.ended gist]
        cases next with
        | leave exit =>
          rw [exit] at changes
          cases changes.1
        | _ => exact running
      obtain ⟨later, p, frames, ⟨more, part⟩, starts⟩ := ih (past.meet (.frame frame))
        (within.meet past (.frame frame)) found' running' changes.2
      refine ⟨.frame frame :: later, .frame frame :: p, ?_, ⟨more, ?_⟩, starts⟩
      · exact congrArg (frame :: ·) frames
      · rw [← part]
        rfl

end Server

end LintBridge
