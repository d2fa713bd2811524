import LintBridge.Proofs.Server.Asking
import LintBridge.Proofs.Workspace.Latest

namespace LintBridge

namespace Server

variable {s : Server} {site : Site}

theorem tell_asked {task : Option Nat} {e : Event} {a : Asked}
    (member : a ∈ (tell task s e).asked) :
    a ∈ s.asked ∨ task = some a.task := by
  cases e with
  | askPolicy =>
    rcases List.mem_append.mp member with old | new
    · exact .inl old
    · obtain ⟨n, own, rfl⟩ := Option.map_eq_some_iff.mp (Option.mem_toList.mp new)
      exact .inr own
  | progress e => cases e <;> exact .inl member
  | _ => exact .inl member

/-- Only a task asks the editor, and for its own sake. -/
theorem withSite_asked {task : Option Nat} {next : Site} {a : Asked}
    (member : a ∈ (s.withSite task next).asked) : a ∈ s.asked ∨ task = some a.task := by
  have told (events : List Event) {s : Server} (member : a ∈ (events.foldl (tell task) s).asked) :
      a ∈ s.asked ∨ task = some a.task := by
    induction events generalizing s with
    | nil => exact .inl member
    | cons e rest ih =>
      rcases ih member with old | own
      · exact tell_asked old
      · exact .inr own
  exact told _ (s := { s with site? := some next }) member

theorem move_asked {m : Move} {a : Asked} (member : a ∈ (s.move m).asked) :
    a ∈ s.asked ∨ taskOf m = some a.task := by
  rw [(s.move_behind m).2.2.1] at member
  rw [taskOf_eq]
  exact withSite_asked member

/-- No frame asks the editor. -/
theorem handle_asked {frame : Json} {a : Asked} (member : a ∈ (s.handle frame).asked) :
    a ∈ s.asked := (s.handle_requests frame).2 ▸ member

theorem advance_asked {n : Nat} {a : Asked} (member : a ∈ (s.advance n).asked) :
    a ∈ s.asked ∨ n = a.task := by
  unfold advance at member
  split at member
  · exact .inl member
  · exact .inl member
  · split at member
    · rcases move_asked member with old | own
      · exact .inl (List.mem_filter.mp old).1
      · exact .inr (Option.some.inj own)
    · rcases move_asked member with old | own
      · exact .inl old
      · exact .inr (Option.some.inj own)

/-- Only a task that is at work asks the editor. -/
theorem asked_meet {i : Incident} {a : Asked} (member : a ∈ (s.meet i).asked) :
    a ∈ s.asked ∨ i.task? = some a.task ∧ s.isOver a.task = false := by
  unfold Server.meet at member
  split at member
  · exact .inl member
  · cases i with
    | frame value => exact .inl (handle_asked member)
    | goOn n =>
      simp only at member
      split at member
      · exact .inl member
      · rename_i working
        rcases advance_asked member with old | rfl
        · exact .inl old
        · exact .inr ⟨rfl, Bool.eq_false_iff.mpr working⟩
    | answer n answer =>
      simp only at member
      split at member
      · exact .inl member
      · rename_i working
        rcases move_asked member with old | own
        · exact .inl old
        · cases own
          exact .inr ⟨rfl, Bool.eq_false_iff.mpr working⟩
    | finish =>
      simp only at member
      split at member
      · rcases move_asked member with old | own
        · exact .inl old
        · cases own
      · exact .inl member
    | elapse ms => exact .inl member

/-- Only tasks that there are have asked the editor. -/
def AskedWithin (s : Server) : Prop := ∀ a ∈ s.asked, a.task < s.jobs.length

theorem jobs_meet {env : Environment} {d : Defaults} {files : FileTree} {h : Chronicle}
    (past : s.Past env d files h) (i : Incident) : s.jobs.length ≤ (s.meet i).jobs.length := by
  cases found : s.site? with
  | none =>
    rw [(past.closed found).1]
    exact Nat.zero_le _
  | some site =>
    have change := meet_change found i
    generalize gist : (s.meet i).gist = g at change
    rw [show (s.meet i).jobs = g.jobs from congrArg Gist.jobs gist]
    cases change with
    | finished => exact Nat.le_refl _
    | frame _ _ next =>
      cases next with
      | spawn | refuse =>
        rw [List.length_append]
        exact Nat.le_add_right _ _
      | _ => exact Nat.le_refl _
    | turn _ turn =>
      cases turn with
      | rest => exact Nat.le_refl _
      | refuse => exact Nat.le_of_eq (List.length_set).symm
      | move _ _ _ jobs =>
        rcases jobs with rfl | ⟨n, _, rfl, _⟩
        · exact Nat.le_refl _
        · exact Nat.le_of_eq (List.length_set).symm

theorem isOver_of_silent {n : Nat} (silent : s.jobs[n]? = some .silent) : s.isOver n = false := by
  simp only [isOver, silent]

theorem within_of_working {n : Nat} (working : s.isOver n = false) : n < s.jobs.length := by
  refine Nat.lt_of_not_le fun beyond => ?_
  simp only [isOver, List.getElem?_eq_none beyond] at working
  cases working

theorem AskedWithin.meet {env : Environment} {d : Defaults} {files : FileTree} {h : Chronicle}
    (past : s.Past env d files h) (within : s.AskedWithin) (i : Incident) :
    (s.meet i).AskedWithin := by
  intro a member
  have grows := jobs_meet past i
  rcases asked_meet member with old | ⟨_, working⟩
  · have before := within a old
    omega
  · have before := within_of_working working
    omega

theorem askedWithin_course (env : Environment) (d : Defaults) (files : FileTree) (here : Path)
    (incidents : List Incident) : ((new env d files here).course incidents).AskedWithin := by
  have all {s : Server} {h : Chronicle} (past : s.Past env d files h) (within : s.AskedWithin) :
      (s.course incidents).AskedWithin := by
    induction incidents generalizing s h with
    | nil => exact within
    | cons i rest ih => exact ih (past.meet i) (within.meet past i)
  exact all (past_new env d files here) fun a member => nomatch member

/-- A change of the workspace that is no news to the editor. -/
theorem withSite_of_no_events (task : Option Nat) {next : Site}
    (same : next.workspace.events = s.site.workspace.events) :
    s.withSite task next = { s with site? := some next } := by
  unfold withSite
  rw [same, List.drop_length]
  rfl

/-- The turn of a task that a notification has begun, and that has asked nothing. -/
theorem meet_goOn {n : Nat} (running : s.ended.isSome = false) (atN : s.jobs[n]? = some .silent)
    (quiet : ∀ a ∈ s.asked, a.task ≠ n) : s.meet (.goOn n) = s.move (.advance n) := by
  have finished := isOver_of_silent atN
  have unasked : s.asked? n = none := by
    refine List.find?_eq_none.mpr fun a member => ?_
    simpa using quiet a member
  rw [meet, running, finished]
  simp only [Bool.false_eq_true, if_false, advance, atN, unasked, Option.bind_none]

end Server

/-- Where a task that is to start the session stands after its first turns. -/
def Settings.pointAfter (st : Settings) : Nat → Point
  | 0 => .begin (.start st)
  | _ => .takeOver st true none

theorem Settings.pointAfter_stake (st : Settings) (turns : Nat) :
    (st.pointAfter turns).stake = .heir st true none := by
  cases turns <;> rfl

namespace Server

variable {s : Server} {site : Site}

/-- A task that is to start the session, and has had less than two turns. -/
structure Due (s : Server) (site : Site) (n : Nat) (st : Settings) (turns : Nat) : Prop where
  early : turns < 2
  task : site.task? n = some ⟨[], st.pointAfter turns⟩
  job : s.jobs[n]? = some .silent
  unasked : ∀ a ∈ s.asked, a.task ≠ n

/-- A change of the configuration begins a task that is to start the session. -/
theorem due_of_settings {env : Environment} {d : Defaults} {files : FileTree} {h : Chronicle}
    (past : s.Past env d files h) (within : s.AskedWithin) (found : s.site? = some site)
    (running : s.ended.isSome = false) {frame : Json} {st : Settings}
    (reads : Rpc.settings? s.env s.defaults frame = some st) :
    let site' := site.move (.spawn (.start st))
    (s.meet (.frame frame)).site? = some site' ∧
      (s.meet (.frame frame)).Due site' s.jobs.length st 0 := by
  intro site'
  obtain ⟨length, _⟩ := past.opened site found
  rw [meet_frame running, handle_settings found reads]
  refine ⟨congrArg (fun site => some (Site.move site (.spawn (.start st)))) (site_eq found), ?_⟩
  refine ⟨Nat.zero_lt_two, ?_, ?_, fun a member => Nat.ne_of_lt (within a member)⟩
  · simp [site', Site.move, Site.task?, ← length, Settings.pointAfter]
  · simp [spawn]

variable {n : Nat} {st : Settings}

/-- With its first turn such a task sets out. -/
theorem Due.first (due : s.Due site n st 0) (found : s.site? = some site)
    (running : s.ended.isSome = false) :
    let site' := site.put n (site.workspace, ⟨[], .takeOver st true none⟩)
    s.meet (.goOn n) = { s with site? := some site' } ∧ (s.meet (.goOn n)).Due site' n st 1 := by
  intro site'
  have moved : s.site.move (.advance n) = site' := by
    rw [site_eq found]
    simp only [Site.move, due.task, Option.map_some, Option.getD_some]
    rfl
  have atTakeOver : site'.task? n = some ⟨[], .takeOver st true none⟩ :=
    Site.task?_put_self due.task _
  have news : site'.workspace.events = s.site.workspace.events := by
    rw [site_eq found]
    rfl
  have unfinished : ({ s with site? := some site' } : Server).site.outcome? n = none := by
    rw [show ({ s with site? := some site' } : Server).site = site' from rfl, Site.outcome?,
      atTakeOver]
    rfl
  have meets : s.meet (.goOn n) = { s with site? := some site' } := by
    rw [meet_goOn running due.job due.unasked, Server.move, moved, taskOf,
      withSite_of_no_events _ news]
    show ({ s with site? := some site' } : Server).reply n = { s with site? := some site' }
    rw [reply, unfinished]
  rw [meets]
  exact ⟨rfl, Nat.one_lt_two, atTakeOver, due.job, due.unasked⟩

/-- With its second turn it takes the session over. -/
theorem Due.second (due : s.Due site n st 1) (found : s.site? = some site)
    (running : s.ended.isSome = false) :
    ∃ st', s.deed? (.goOn n) = some (some n, .takeOver st') ∧ st'.settings = st := by
  have unasked : s.asked? n = none := by
    refine List.find?_eq_none.mpr fun a member => ?_
    simpa using due.unasked a member
  have move : s.move? (.goOn n) = some (.advance n) := by
    simp only [move?, due.job, unasked, Option.bind_none]
  have same : (s.meet (.goOn n)).shuttingDown = s.shuttingDown := by
    have turn := s.meet_turn running (i := .goOn n) fun value => Incident.noConfusion
    generalize gist : (s.meet (.goOn n)).gist = g at turn
    rw [show (s.meet (.goOn n)).shuttingDown = g.shuttingDown from congrArg Gist.shuttingDown gist]
    cases turn <;> rfl
  rw [deed?_of_move found running same move]
  simp only [Site.deed?, due.task, Option.bind_some]
  exact ⟨_, rfl, rfl⟩

end Server

/-- A task that goes on or takes an answer is there afterwards. -/
theorem Site.there_of_move {s : Site} {m : Move} {n : Nat} {t : Task}
    (abandons : ∀ n, m ≠ .abandon n) (own : Server.taskOf m = some n) (task : s.task? n = some t) :
    ∃ t', (s.move m).task? n = some t' := by
  cases m with
  | spawn | finish => cases own
  | abandon k => exact absurd rfl (abandons k)
  | advance k | receive k a =>
    cases own
    simp only [move, task, Option.map_some, Option.getD_some]
    exact ⟨_, task?_put_self task _⟩

namespace Server

variable {s : Server} {site : Site} {n : Nat} {st : Settings}

/-- What a change leaves of a task, where it is not the task's own: task and job stay as they
are. -/
theorem others_of_change {i : Incident} {g : Gist} {site' : Site} {t : Task} {job : Job}
    (found : s.site? = some site) (change : s.Change site i g) (found' : g.site? = some site')
    (other : s.ended.isSome = true ∨ i.task? ≠ some n) (task : site.task? n = some t)
    (atN : s.jobs[n]? = some job) (answers : ∀ id r, job ≠ .refuses id r) :
    site'.task? n = some t ∧ g.jobs[n]? = some job := by
  have within : n < site.tasks.length := Nat.lt_of_not_le fun beyond => by
    rw [Site.task?, List.getElem?_eq_none beyond] at task
    cases task
  have within' : n < s.jobs.length := (List.getElem?_eq_some_iff.mp atN).1
  have same (same : g.site? = s.site?) : site'.task? n = some t := by
    cases found'.symm.trans (same.trans found)
    exact task
  cases change with
  | finished => exact ⟨same rfl, atN⟩
  | frame _ _ next =>
    cases next with
    | same | leave => exact ⟨same rfl, atN⟩
    | spawn | refuse =>
      cases found'
      refine ⟨?_, (List.getElem?_append_left within').trans atN⟩
      rw [← task, Site.task?, Site.task?]
      exact congrArg Option.join (List.getElem?_append_left within)
    | look | shutdown =>
      cases found'
      exact ⟨task, atN⟩
  | turn running turn =>
    have other := other.resolve_left (by rw [running]; exact Bool.false_ne_true)
    cases turn with
    | rest => exact ⟨same rfl, atN⟩
    | @refuse k id r _ refuses =>
      refine ⟨same rfl, (List.getElem?_set_ne fun same => ?_).trans atN⟩
      subst same
      exact answers id r (Option.some.inj (atN.symm.trans refuses))
    | @move m jobs move spawns _ finished =>
      obtain ⟨own, _⟩ := task?_of_move? move spawns
      rw [own] at other
      cases found'
      refine ⟨?_, ?_⟩
      · rw [taskOf_eq] at other
        exact Site.task?_move_of_ne (site_eq found ▸ task) other
      · rcases finished with rfl | ⟨k, own, rfl, _⟩
        · exact atN
        · refine (List.getElem?_set_ne fun same => other ?_).trans atN
          exact own.trans (congrArg some same)

/-- What else happens does not bear on a task that is to start the session. -/
theorem Due.other {turns : Nat} (due : s.Due site n st turns) (found : s.site? = some site)
    {i : Incident} (other : s.ended.isSome = true ∨ i.task? ≠ some n) :
    ∃ site', (s.meet i).site? = some site' ∧ (s.meet i).Due site' n st turns := by
  obtain ⟨site', found', _⟩ := meet_step found i
  obtain ⟨task, job⟩ := others_of_change found (meet_change found i) found' other due.task due.job
    fun id r => Job.noConfusion
  refine ⟨site', found', due.early, task, job, fun a member => ?_⟩
  rcases other with ended | other
  · have meets : s.meet i = s := if_pos ended
    rw [meets] at member
    exact due.unasked a member
  · rcases asked_meet member with old | ⟨own, _⟩
    · exact due.unasked a old
    · exact fun same => other (own.trans (congrArg some same))

/-- Neither do answers, as it has asked nothing. -/
theorem Due.answer {turns : Nat} (due : s.Due site n st turns) (found : s.site? = some site)
    (running : s.ended.isSome = false) (a : Answer) :
    ∃ site', (s.meet (.answer n a)).site? = some site' ∧
      (s.meet (.answer n a)).Due site' n st turns := by
  have finished := isOver_of_silent due.job
  let site' := site.put n (site.workspace, ⟨[], st.pointAfter turns⟩)
  have moved : s.site.move (.receive n a) = site' := by
    rw [site_eq found]
    simp only [Site.move, due.task, Option.map_some, Option.getD_some]
    cases turns <;> rfl
  have task : site'.task? n = some ⟨[], st.pointAfter turns⟩ := Site.task?_put_self due.task _
  have news : site'.workspace.events = s.site.workspace.events := by
    rw [site_eq found]
    rfl
  have unfinished : ({ s with site? := some site' } : Server).site.outcome? n = none := by
    rw [show ({ s with site? := some site' } : Server).site = site' from rfl, Site.outcome?, task]
    cases turns <;> rfl
  have meets : s.meet (.answer n a) = { s with site? := some site' } := by
    rw [meet, running, finished]
    simp only [Bool.false_eq_true, if_false]
    rw [Server.move, moved, taskOf, withSite_of_no_events _ news]
    show ({ s with site? := some site' } : Server).reply n = { s with site? := some site' }
    rw [reply, unfinished]
  rw [meets]
  exact ⟨site', rfl, due.early, task, due.job, due.unasked⟩

/-- A task that a notification has begun is there, and its job goes on until it has come to its
outcome. -/
structure Underway (s : Server) (site : Site) (n : Nat) : Prop where
  there : ∃ t, site.task? n = some t
  job : s.jobs[n]? = some .silent ∨ s.jobs[n]? = some .done ∧ (site.outcome? n).isSome

theorem Due.underway {turns : Nat} (due : s.Due site n st turns) : s.Underway site n :=
  ⟨⟨_, due.task⟩, .inl due.job⟩

/-- Whatever happens, such a task is not gone. -/
theorem Underway.meet (underway : s.Underway site n) (found : s.site? = some site) (i : Incident)
    {site' : Site} (found' : (s.meet i).site? = some site') : (s.meet i).Underway site' n := by
  obtain ⟨t, task⟩ := underway.there
  have change := meet_change found i
  have others (other : s.ended.isSome = true ∨ i.task? ≠ some n) : (s.meet i).Underway site' n := by
    rcases underway.job with silent | ⟨done, outcome⟩
    · obtain ⟨task', job⟩ := others_of_change found change found' other task silent
        fun id r => Job.noConfusion
      exact ⟨⟨t, task'⟩, .inl job⟩
    · obtain ⟨task', job⟩ := others_of_change found change found' other task done
        fun id r => Job.noConfusion
      refine ⟨⟨t, task'⟩, .inr ⟨job, ?_⟩⟩
      rw [Site.outcome?, task']
      rw [Site.outcome?, task] at outcome
      exact outcome
  by_cases own : i.task? = some n
  · generalize gist : (s.meet i).gist = g at change
    have sites : g.site? = some site' := (congrArg Gist.site? gist).symm.trans found'
    have jobs : (s.meet i).jobs = g.jobs := congrArg Gist.jobs gist
    have same (same : g.site? = s.site?) (job : g.jobs[n]? = s.jobs[n]?) :
        (s.meet i).Underway site' n := by
      cases sites.symm.trans (same.trans found)
      refine ⟨underway.there, ?_⟩
      rw [jobs, job]
      exact underway.job
    cases change with
    | finished => exact same rfl rfl
    | frame _ framed =>
      subst framed
      cases own
    | turn running turn =>
      cases turn with
      | rest => exact same rfl rfl
      | @refuse k id r _ refuses =>
        refine same rfl (List.getElem?_set_ne fun differ => ?_)
        subst differ
        rcases underway.job with silent | ⟨done, _⟩
        · cases silent.symm.trans refuses
        · cases done.symm.trans refuses
      | @move m jobs' move spawns working finished =>
        obtain ⟨same, abandons⟩ := task?_of_move? move spawns
        have own : taskOf m = some n := same.symm.trans own
        rw [site_eq found] at sites finished
        cases sites
        have silent : s.jobs[n]? = some .silent := by
          refine underway.job.resolve_right fun ended => ?_
          obtain ⟨done, _⟩ := ended
          have finished := working n own
          simp only [isOver, done] at finished
          cases finished
        refine ⟨Site.there_of_move abandons own task, ?_⟩
        rw [jobs]
        rcases finished with rfl | ⟨k, own', rfl, outcome⟩
        · exact .inl silent
        · cases own.symm.trans own'
          exact .inr ⟨List.getElem?_set_self (List.getElem?_eq_some_iff.mp silent).1, outcome⟩
  · exact others (.inr own)

end Server

end LintBridge
