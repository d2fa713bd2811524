import LintBridge.Proofs.Server.Frame
import LintBridge.Proofs.Workspace.Places

namespace LintBridge

/-- What can happen to a server. -/
inductive Incident where
  | frame (value : Json)
  /-- A task has its turn, and goes on by one point. -/
  | goOn (task : Nat)
  | answer (task : Nat) (a : Answer)
  | finish (client : ClientId) (kept : Kept) (n : Nat) (r : Except EngineError String)
  /-- Time goes by. -/
  | elapse (ms : Nat)

namespace Server

variable {s : Server} {site : Site} {frame : Json}

/-- What happens to a server. Once the editor has left, nothing does; what a task that is over, or
an engine before there is a workspace, is said to do passes it by. -/
def meet (s : Server) (i : Incident) : Server :=
  if s.ended.isSome then s
  else
    match i with
    | .frame value => s.handle value
    | .goOn n => if s.isOver n then s else s.advance n
    | .answer n a => if s.isOver n then s else s.move (.receive n a)
    | .finish client kept n r => if s.site?.isSome then s.move (.finish client kept n r) else s
    | .elapse ms => { s with outbound := s.outbound.elapse ms }

/-- What happens to a server, one thing after another. -/
def course (s : Server) (incidents : List Incident) : Server := incidents.foldl meet s

/-- The move that an incident comes to in the workspace, if it is a task's or begins one. -/
def move? (s : Server) : Incident → Option Move
  | .frame value =>
    match (s.handle value).site.task? s.site.tasks.length with
    | some ⟨_, .begin e⟩ => some (.spawn e)
    | _ => none
  | .goOn n =>
    match s.jobs[n]? with
    | some .silent | some (.answers _) =>
      match (s.asked? n).bind fun a => s.outbound.conclude? a.request with
      | some (_, answer) => some (.receive n (.policy (Rpc.policyOf s.defaults answer)))
      | none => some (.advance n)
    | _ => none
  | .answer n a => if s.isOver n then none else some (.receive n a)
  | .finish client kept n r => if s.site?.isSome then some (.finish client kept n r) else none
  | .elapse _ => none

/-- The deed of an incident, if it is one. A shutdown is no task's. -/
def deed? (s : Server) (i : Incident) : Option (Option Nat × Deed) :=
  if s.ended.isSome then none
  else if !s.shuttingDown && (s.meet i).shuttingDown then some (none, .close)
  else (s.move? i).bind s.site.deed?

/-- The chronicle of some incidents. -/
def deeds (s : Server) : List Incident → Chronicle
  | [] => []
  | i :: rest => (s.deed? i).toList ++ (s.meet i).deeds rest

theorem meet_frame (running : s.ended.isSome = false) (frame : Json) :
    s.meet (.frame frame) = s.handle frame := by
  rw [meet, running]
  rfl

/-- An incident that comes to a move of the workspace does what the move does. -/
theorem deed?_of_move (found : s.site? = some site) {m : Move} {i : Incident}
    (running : s.ended.isSome = false) (same : (s.meet i).shuttingDown = s.shuttingDown)
    (move : s.move? i = some m) : s.deed? i = site.deed? m := by
  rw [deed?, running, same, move, Option.bind_some, site_eq found]
  cases s.shuttingDown <;> rfl

theorem step_of_move (found : s.site? = some site) {m : Move} {i : Incident}
    (running : s.ended.isSome = false) (same : (s.meet i).shuttingDown = s.shuttingDown)
    (move : s.move? i = some m) : site.view.Step (s.deed? i) (site.move m).view := by
  rw [deed?_of_move found running same move]
  exact site.move_step m

/-- An incident that comes to no move, and is no shutdown, is no deed. -/
theorem deed?_of_no_move {i : Incident} (same : (s.meet i).shuttingDown = s.shuttingDown)
    (rests : s.move? i = none) : s.deed? i = none := by
  rw [deed?, same, rests]
  cases s.ended.isSome <;> cases s.shuttingDown <;> rfl

/-- Every frame is a step of the view. -/
theorem handle_step (found : s.site? = some site) (running : s.ended.isSome = false)
    (frame : Json) : ∃ site', (s.handle frame).site? = some site' ∧
      site.view.Step (s.deed? (.frame frame)) site'.view := by
  have next := s.handle_next found frame
  have new {site' : Site} (found' : (s.handle frame).site? = some site') :
      s.move? (.frame frame) = match site'.task? site.tasks.length with
        | some ⟨_, .begin e⟩ => some (.spawn e)
        | _ => none := by
    rw [move?, site_eq found', site_eq found]
  generalize gist : (s.handle frame).gist = g at next
  have found' : (s.handle frame).site? = g.site? := congrArg Gist.site? gist
  have down : (s.meet (.frame frame)).shuttingDown = g.shuttingDown := by
    rw [meet_frame running]
    exact congrArg Gist.shuttingDown gist
  have past : site.task? site.tasks.length = none := by simp [Site.task?]
  cases next with
  | same | leave =>
    refine ⟨site, found'.trans found, ?_⟩
    rw [deed?_of_no_move down (by rw [new (found'.trans found), past])]
    exact .stay
  | @spawn e job =>
    refine ⟨_, found', step_of_move found running down ?_⟩
    have begun : (site.move (.spawn e)).task? site.tasks.length = some ⟨[], .begin e⟩ := by
      simp [Site.move, Site.task?]
    rw [new found', begun]
  | refuse =>
    refine ⟨_, found', ?_⟩
    have begun :
        Site.task? { site with tasks := site.tasks ++ [none] } site.tasks.length = none := by
      simp [Site.task?]
    have view : Site.view { site with tasks := site.tasks ++ [none] } =
        ⟨site.view.standing, site.view.stakes ++ [.gone]⟩ := by
      simp [Site.view, Task.stake]
    rw [deed?_of_no_move down (by rw [new found', begun]), view]
    exact .refuse
  | look document =>
    refine ⟨_, found', ?_⟩
    have begun : Site.task? { site with workspace := site.workspace.lookAt document }
        site.tasks.length = none := past
    have view : Site.view { site with workspace := site.workspace.lookAt document } =
        site.view := by
      simp only [Site.view, Workspace.lookAt_standing]
    rw [deed?_of_no_move down (by rw [new found', begun]), view]
    exact .stay
  | shutdown up =>
    refine ⟨_, found', ?_⟩
    have deed : s.deed? (.frame frame) = some (none, .close) := by
      rw [deed?, running, down, show s.shuttingDown = false from up]
      rfl
    rw [deed, Site.shutdown_view]
    exact .close

/-- What happens to a server that is no frame: at most one move of the workspace, and at most one
job that is over with it. -/
inductive Turn (s : Server) (i : Incident) : Gist → Prop
  | rest : s.move? i = none → Turn s i s.gist
  | refuse {n id r} : s.move? i = none → s.jobs[n]? = some (.refuses id r) →
      Turn s i { s.gist with jobs := s.jobs.set n .done }
  | move {m jobs} : s.move? i = some m → (∀ e, m ≠ .spawn e) →
      (∀ n, taskOf m = some n → s.isOver n = false) →
      (jobs = s.jobs ∨ ∃ n, taskOf m = some n ∧ jobs = s.jobs.set n .done ∧
        ((s.site.move m).outcome? n).isSome) →
      Turn s i { s.gist with site? := some (s.site.move m), jobs := jobs }

theorem turn_of_move {i : Incident} {s' : Server} {m : Move} (same : s'.gist = s.gist)
    (sites : s'.site = s.site) (meets : s.meet i = s'.move m) (move : s.move? i = some m)
    (other : ∀ e, m ≠ .spawn e) (working : ∀ n, taskOf m = some n → s.isOver n = false) :
    s.Turn i (s.meet i).gist := by
  obtain ⟨jobs, gist, finished⟩ := s'.move_gist m
  have jobs' : s'.jobs = s.jobs := congrArg Gist.jobs same
  rw [same, sites] at gist
  rw [sites, jobs'] at finished
  rw [meets, gist]
  exact .move move other working finished

theorem taskOf_receive {n m : Nat} {a : Answer} (task : taskOf (.receive n a) = some m) : m = n :=
  (Option.some.inj task).symm

/-- The turn of a task that is at work. -/
theorem working_turn (running : s.ended.isSome = false) {n : Nat} {job : Job}
    (atN : s.jobs[n]? = some job) (working : job = .silent ∨ ∃ id, job = .answers id) :
    s.Turn (.goOn n) (s.meet (.goOn n)).gist := by
  have finished : s.isOver n = false := by
    rcases working with rfl | ⟨id, rfl⟩ <;> simp only [isOver, atN]
  have meets : s.meet (.goOn n) = s.advance n := by
    rw [meet, running, finished]
    rfl
  have own (m : Nat) (same : some n = some m) : s.isOver m = false :=
    Option.some.inj same ▸ finished
  cases answer : (s.asked? n).bind fun a => s.outbound.conclude? a.request with
  | none =>
    have advance : s.advance n = s.move (.advance n) := by
      rcases working with rfl | ⟨id, rfl⟩ <;> simp only [Server.advance, atN, answer]
    have move : s.move? (.goOn n) = some (.advance n) := by
      rcases working with rfl | ⟨id, rfl⟩ <;> simp only [move?, atN, answer]
    exact turn_of_move rfl rfl (meets.trans advance) move (fun e same => by cases same) own
  | some concluded =>
    obtain ⟨outbound, answer'⟩ := concluded
    let s' : Server :=
      { s with outbound := outbound, asked := s.asked.filter fun a => a.task != n }
    let m : Move := .receive n (.policy (Rpc.policyOf s.defaults answer'))
    have advance : s.advance n = s'.move m := by
      rcases working with rfl | ⟨id, rfl⟩ <;> simp only [Server.advance, atN, answer, s', m]
    have move : s.move? (.goOn n) = some m := by
      rcases working with rfl | ⟨id, rfl⟩ <;> simp only [move?, atN, answer, m]
    have other (e : Errand) : m ≠ .spawn e := Move.noConfusion
    have same : s'.gist = s.gist := rfl
    exact turn_of_move same rfl (meets.trans advance) move other own

/-- What happens to a server that is no frame. -/
theorem meet_turn (running : s.ended.isSome = false) {i : Incident}
    (other : ∀ value, i ≠ .frame value) : s.Turn i (s.meet i).gist := by
  cases i with
  | frame value => exact absurd rfl (other value)
  | goOn n =>
    have meets : s.meet (.goOn n) = if s.isOver n then s else s.advance n := by
      rw [meet, running]
      rfl
    cases atN : s.jobs[n]? with
    | none =>
      have finished : s.isOver n = true := by simp only [isOver, atN]
      rw [meets, finished, if_pos rfl]
      exact .rest (by simp only [move?, atN])
    | some job =>
      cases job with
      | silent => exact working_turn running atN (.inl rfl)
      | answers id => exact working_turn running atN (.inr ⟨id, rfl⟩)
      | refuses id r =>
        have finished : s.isOver n = false := by simp only [isOver, atN]
        have advance : s.advance n = (s.send (Rpc.refuse id r)).finish n := by
          simp only [Server.advance, atN]
        rw [meets, finished, if_neg Bool.false_ne_true, advance]
        exact .refuse (by simp only [move?, atN]) atN
      | done =>
        have finished : s.isOver n = true := by simp only [isOver, atN]
        rw [meets, finished, if_pos rfl]
        exact .rest (by simp only [move?, atN])
  | answer n a =>
    cases finished : s.isOver n with
    | true =>
      have meets : s.meet (.answer n a) = s := by
        rw [meet, running, finished]
        rfl
      rw [meets]
      exact .rest (by simp only [move?, finished, if_true])
    | false =>
      have meets : s.meet (.answer n a) = s.move (.receive n a) := by
        rw [meet, running, finished]
        rfl
      have move : s.move? (.answer n a) = some (.receive n a) := by
        simp only [move?, finished, Bool.false_eq_true, if_false]
      exact turn_of_move rfl rfl meets move (fun e same => by cases same)
        fun m same => taskOf_receive same ▸ finished
  | finish client kept n r =>
    cases opened : s.site?.isSome with
    | true =>
      have meets : s.meet (.finish client kept n r) = s.move (.finish client kept n r) := by
        rw [meet, running, opened]
        rfl
      have move : s.move? (.finish client kept n r) = some (.finish client kept n r) := by
        simp only [move?, opened, if_true]
      exact turn_of_move rfl rfl meets move (fun e same => by cases same)
        fun m same => by cases same
    | false =>
      have meets : s.meet (.finish client kept n r) = s := by
        rw [meet, running, opened]
        rfl
      rw [meets]
      exact .rest (by simp only [move?, opened, Bool.false_eq_true, if_false])
  | elapse ms =>
    have meets : s.meet (.elapse ms) = { s with outbound := s.outbound.elapse ms } := by
      rw [meet, running]
      rfl
    rw [meets]
    exact .rest rfl

/-- All that can happen to a server whose workspace is open. -/
inductive Change (s : Server) (site : Site) (i : Incident) : Gist → Prop
  | finished : s.ended.isSome = true → Change s site i s.gist
  | frame {value g} : s.ended.isSome = false → i = .frame value → s.gist.Next site value g →
      Change s site i g
  | turn {g} : s.ended.isSome = false → s.Turn i g → Change s site i g

theorem meet_change (found : s.site? = some site) (i : Incident) :
    s.Change site i (s.meet i).gist := by
  cases running : s.ended.isSome with
  | true =>
    have meets : s.meet i = s := if_pos running
    rw [meets]
    exact .finished running
  | false =>
    by_cases framed : ∃ value, i = .frame value
    · obtain ⟨value, rfl⟩ := framed
      rw [meet_frame running]
      exact .frame running rfl (s.handle_next found value)
    · exact .turn running (s.meet_turn running fun value same => framed ⟨value, same⟩)

/-- Every incident is a step of the view. -/
theorem meet_step (found : s.site? = some site) (i : Incident) :
    ∃ site', (s.meet i).site? = some site' ∧ site.view.Step (s.deed? i) site'.view := by
  have change := meet_change found i
  generalize gist : (s.meet i).gist = g at change
  have found' : (s.meet i).site? = g.site? := congrArg Gist.site? gist
  have down : (s.meet i).shuttingDown = g.shuttingDown := congrArg Gist.shuttingDown gist
  cases change with
  | finished ended =>
    have deed : s.deed? i = none := if_pos ended
    rw [deed]
    exact ⟨site, found'.trans found, .stay⟩
  | frame running framed =>
    subst framed
    rw [meet_frame running]
    exact handle_step found running _
  | turn running turn =>
    cases turn with
    | rest rests | refuse rests =>
      rw [deed?_of_no_move down rests]
      exact ⟨site, found'.trans found, .stay⟩
    | move move =>
      rw [site_eq found] at found'
      exact ⟨_, found', step_of_move found running down move⟩

/-- Only frames begin tasks, and only those that `Gist.Next` says. -/
theorem of_spawn (found : s.site? = some site) {i : Incident} {e : Errand}
    (move : s.move? i = some (.spawn e)) : ∃ value, i = .frame value ∧
      (s.shuttingDown = true → (∃ document t, e = .analyzeFile document t) ∨ ∃ st, e = .start st) ∧
      ∀ st, e = .start st → Rpc.settings? s.env s.defaults value = some st := by
  cases i with
  | frame value =>
    refine ⟨value, rfl, ?_⟩
    have next := s.handle_next found value
    generalize gist : (s.handle value).gist = g at next
    have sites : (s.handle value).site? = g.site? := congrArg Gist.site? gist
    have begun {site' : Site} (opened : g.site? = some site') :
        ∃ held, site'.task? site.tasks.length = some ⟨held, .begin e⟩ := by
      simp only [move?, site_eq (sites.trans opened), site_eq found] at move
      split at move
      · rename_i held e' atLast
        cases move
        exact ⟨held, atLast⟩
      · cases move
    have past : site.task? site.tasks.length = none := by simp [Site.task?]
    cases next with
    | same | leave =>
      obtain ⟨_, atLast⟩ := begun found
      cases past.symm.trans atLast
    | spawn allowed reads =>
      obtain ⟨_, atLast⟩ := begun rfl
      simp only [Site.move, Site.task?, List.getElem?_append_right (Nat.le_refl _), Nat.sub_self,
        List.getElem?_cons_zero, Option.join_some, Option.some.injEq, Task.mk.injEq,
        Point.begin.injEq] at atLast
      exact atLast.2 ▸ ⟨allowed, reads⟩
    | refuse =>
      obtain ⟨_, atLast⟩ := begun rfl
      simp [Site.task?] at atLast
    | look | shutdown =>
      obtain ⟨_, atLast⟩ := begun rfl
      cases past.symm.trans atLast
  | goOn n =>
    simp only [move?] at move
    split at move
    · split at move <;> cases move
    · split at move <;> cases move
    · cases move
  | answer n a =>
    simp only [move?] at move
    split at move <;> cases move
  | finish =>
    simp only [move?] at move
    split at move <;> cases move
  | elapse => cases move

/-- A deed is the shutdown, or that of the move that an incident comes to. -/
theorem of_deed? (found : s.site? = some site) {i : Incident} {d : Option Nat × Deed}
    (labelled : s.deed? i = some d) : s.ended.isSome = false ∧
      ((s.shuttingDown = false ∧ d = (none, .close)) ∨
        ∃ m, s.move? i = some m ∧ site.Does m d) := by
  unfold deed? at labelled
  split at labelled
  · cases labelled
  rename_i running
  refine ⟨Bool.eq_false_iff.mpr running, ?_⟩
  split at labelled
  · rename_i closes
    rw [Bool.and_eq_true, Bool.not_eq_true'] at closes
    exact .inl ⟨closes.1, (Option.some.inj labelled).symm⟩
  · obtain ⟨m, move, deed⟩ := Option.bind_eq_some_iff.mp labelled
    rw [site_eq found] at deed
    exact .inr ⟨m, move, Site.does_of_deed? deed⟩

theorem course_append (s : Server) (incidents more : List Incident) :
    s.course (incidents ++ more) = (s.course incidents).course more := List.foldl_append

theorem deeds_append (s : Server) (incidents more : List Incident) :
    s.deeds (incidents ++ more) = s.deeds incidents ++ (s.course incidents).deeds more := by
  induction incidents generalizing s with
  | nil => rfl
  | cons i rest ih =>
    rw [List.cons_append, deeds, deeds, ih, List.append_assoc]
    rfl

theorem course_concat (s : Server) (incidents : List Incident) (i : Incident) :
    s.course (incidents ++ [i]) = (s.course incidents).meet i := s.course_append incidents [i]

theorem deeds_concat (s : Server) (incidents : List Incident) (i : Incident) :
    s.deeds (incidents ++ [i]) = s.deeds incidents ++ ((s.course incidents).deed? i).toList := by
  rw [deeds_append, deeds, deeds, List.append_nil]

theorem mem_deeds_mono {p incidents : List Incident} (part : p <+: incidents)
    {d : Option Nat × Deed} (member : d ∈ s.deeds p) : d ∈ s.deeds incidents := by
  obtain ⟨rest, rfl⟩ := part
  rw [deeds_append]
  exact List.mem_append_left _ member

/-- What stands in a chronicle is the deed of one of the incidents. -/
theorem of_deeds {incidents : List Incident} {d : Option Nat × Deed}
    (member : d ∈ s.deeds incidents) : ∃ before i rest, incidents = before ++ i :: rest ∧
      (s.course before).deed? i = some d := by
  induction incidents generalizing s with
  | nil => cases member
  | cons i rest ih =>
    rcases List.mem_append.mp member with first | later
    · exact ⟨[], i, rest, rfl, Option.mem_toList.mp first⟩
    · obtain ⟨before, i', rest', rfl, found⟩ := ih later
      exact ⟨i :: before, i', rest', rfl, found⟩

/-- Every course is a way from view to view, with its chronicle. -/
theorem course_reach (found : s.site? = some site) (incidents : List Incident) :
    ∃ site', (s.course incidents).site? = some site' ∧
      View.Reach site.view (s.deeds incidents) site'.view := by
  induction incidents generalizing s site with
  | nil => exact ⟨site, found, .start⟩
  | cons i rest ih =>
    obtain ⟨next, found', step⟩ := meet_step found i
    obtain ⟨site', found'', reach⟩ := ih found'
    exact ⟨site', found'', (View.Reach.start.next step).trans reach⟩

/-- What has become of a server since it began, with the chronicle of its workspace. -/
structure Past (env : Environment) (d : Defaults) (files : FileTree) (h : Chronicle) (s : Server) :
    Prop where
  env_eq : s.env = env
  defaults_eq : s.defaults = d
  files_eq : s.files = files
  closed : s.site? = none → s.jobs = [] ∧ s.shuttingDown = false ∧ h = []
  opened : ∀ site, s.site? = some site → site.tasks.length = s.jobs.length ∧
    ∃ project, View.Reach (Site.new (.new project d files)).view h site.view

theorem past_new (env : Environment) (d : Defaults) (files : FileTree) (here : Path) :
    Past env d files [] (.new env d files here) where
  env_eq := rfl
  defaults_eq := rfl
  files_eq := rfl
  closed _ := ⟨rfl, rfl, rfl⟩
  opened site found := by cases found

end Server

namespace Server

variable {s : Server} {site : Site} {env : Environment} {d : Defaults} {files : FileTree}
  {h : Chronicle}

/-- There is a job for every task. -/
theorem length_meet (found : s.site? = some site) (length : site.tasks.length = s.jobs.length)
    (i : Incident) {site' : Site} (found' : (s.meet i).site? = some site') :
    site'.tasks.length = (s.meet i).jobs.length := by
  have change := meet_change found i
  generalize gist : (s.meet i).gist = g at change
  have sites : g.site? = some site' := (congrArg Gist.site? gist).symm.trans found'
  rw [show (s.meet i).jobs = g.jobs from congrArg Gist.jobs gist]
  cases change with
  | finished =>
    cases found.symm.trans sites
    exact length
  | frame _ _ next =>
    cases next with
    | same | leave =>
      cases found.symm.trans sites
      exact length
    | spawn | refuse =>
      cases sites
      simp only [Site.move, List.length_append, List.length_singleton, length]
      rfl
    | look | shutdown =>
      cases sites
      exact length
  | turn _ turn =>
    cases turn with
    | rest =>
      cases found.symm.trans sites
      exact length
    | refuse =>
      cases found.symm.trans sites
      exact length.trans (List.length_set).symm
    | move move other _ finished =>
      cases sites
      rw [Site.length_move other, site_eq found, length]
      rcases finished with rfl | ⟨n, _, rfl, _⟩
      · rfl
      · exact (List.length_set).symm

/-- What stays as it is, whatever happens to a server. -/
theorem constant_of_change {i : Incident} {g : Gist} (change : s.Change site i g) :
    g.env = s.env ∧ g.defaults = s.defaults ∧ g.files = s.files := by
  cases change with
  | finished => exact ⟨rfl, rfl, rfl⟩
  | frame _ _ next => cases next <;> exact ⟨rfl, rfl, rfl⟩
  | turn _ turn => cases turn <;> exact ⟨rfl, rfl, rfl⟩

/-- What happens to a server that has no workspace is no deed. -/
theorem meet_first (closed : s.site? = none) (idle : s.jobs = []) (i : Incident) :
    s.deed? i = none ∧ s.gist.First (s.meet i).gist := by
  have first : s.gist.First (s.meet i).gist ∧ s.move? i = none := by
    cases i with
    | frame value =>
      have handled := handle_first closed value
      refine ⟨?_, ?_⟩
      · unfold meet
        split
        · exact .same
        · exact handled
      · have tasks : (s.handle value).site.tasks = [] := by
          generalize gist : (s.handle value).gist = g at handled
          rw [Server.site, show (s.handle value).site? = g.site? from congrArg Gist.site? gist]
          cases handled with
          | same | leave =>
            rw [show s.gist.site? = none from closed]
            rfl
          | opened => rfl
        simp only [move?, Site.task?, tasks, List.getElem?_nil, Option.join_none]
    | goOn n =>
      simp only [meet, move?, isOver, idle, List.getElem?_nil, if_true, ite_self]
      exact ⟨.same, trivial⟩
    | answer n a =>
      simp only [meet, move?, isOver, idle, List.getElem?_nil, if_true, ite_self]
      exact ⟨.same, trivial⟩
    | finish client kept n r =>
      simp only [meet, move?, closed, Option.isSome_none, Bool.false_eq_true, if_false, ite_self]
      exact ⟨.same, trivial⟩
    | elapse ms =>
      refine ⟨?_, rfl⟩
      unfold meet
      split <;> exact .same
  refine ⟨deed?_of_no_move ?_ first.2, first.1⟩
  have next := first.1
  generalize gist : (s.meet i).gist = g at next
  rw [show (s.meet i).shuttingDown = g.shuttingDown from congrArg Gist.shuttingDown gist]
  cases next <;> rfl

theorem Past.meet (past : s.Past env d files h) (i : Incident) :
    (s.meet i).Past env d files (h ++ (s.deed? i).toList) := by
  have constant {g : Gist} (gist : (s.meet i).gist = g)
      (same : g.env = s.env ∧ g.defaults = s.defaults ∧ g.files = s.files) :
      (s.meet i).env = env ∧ (s.meet i).defaults = d ∧ (s.meet i).files = files := by
    rw [← gist, past.env_eq, past.defaults_eq, past.files_eq] at same
    exact same
  cases found : s.site? with
  | none =>
    obtain ⟨idle, up, none⟩ := past.closed found
    obtain ⟨deed, first⟩ := meet_first found idle i
    rw [deed, none]
    generalize gist : (s.meet i).gist = g at first
    have sites : (s.meet i).site? = g.site? := congrArg Gist.site? gist
    have jobs : (s.meet i).jobs = g.jobs := congrArg Gist.jobs gist
    have down : (s.meet i).shuttingDown = g.shuttingDown := congrArg Gist.shuttingDown gist
    cases first with
    | same | leave =>
      obtain ⟨env', defaults', files'⟩ := constant gist ⟨rfl, rfl, rfl⟩
      refine ⟨env', defaults', files', fun _ => ⟨jobs.trans idle, down.trans up, rfl⟩,
        fun site' found' => ?_⟩
      cases (sites.trans found).symm.trans found'
    | opened project =>
      obtain ⟨env', defaults', files'⟩ := constant gist ⟨rfl, rfl, rfl⟩
      refine ⟨env', defaults', files', fun closed' => ?_, fun site' found' => ?_⟩
      · cases sites.symm.trans closed'
      · cases sites.symm.trans found'
        rw [jobs, show s.gist.jobs = [] from idle]
        refine ⟨rfl, project, ?_⟩
        rw [show s.gist.defaults = d from past.defaults_eq,
          show s.gist.files = files from past.files_eq]
        exact .start
  | some site =>
    obtain ⟨length, project, reach⟩ := past.opened site found
    obtain ⟨site', found', step⟩ := meet_step found i
    obtain ⟨env', defaults', files'⟩ := constant rfl (constant_of_change (meet_change found i))
    refine ⟨env', defaults', files', fun closed' => ?_, fun site'' found'' => ?_⟩
    · cases closed'.symm.trans found'
    · cases found'.symm.trans found''
      exact ⟨length_meet found length i found', project, reach.next step⟩

/-- What has become of a server after any course. -/
theorem past_course (env : Environment) (d : Defaults) (files : FileTree) (here : Path)
    (incidents : List Incident) :
    ((new env d files here).course incidents).Past env d files
      ((new env d files here).deeds incidents) := by
  have all {s : Server} {h : Chronicle} (past : s.Past env d files h) :
      (s.course incidents).Past env d files (h ++ s.deeds incidents) := by
    induction incidents generalizing s h with
    | nil =>
      rw [deeds, List.append_nil]
      exact past
    | cons i rest ih =>
      rw [deeds, ← List.append_assoc]
      exact ih (past.meet i)
  exact all (past_new env d files here)

end Server

end LintBridge
