import LintBridge.Proofs.Json.Fields
import LintBridge.Proofs.Server.Quiet
import LintBridge.Proofs.Workspace.Tidy

namespace LintBridge

namespace Rpc

/-- The request that a frame of the server answers, by its id. What has a method answers none. -/
def answered? (frame : Json) : Option Json :=
  if (frame.field? "method").isSome then none else frame.field? "id"

/-- The id of a request of the editor. -/
def requestId? (frame : Json) : Option Json :=
  match Incoming.ofFrame? frame with
  | some (.request id _ _) => some id
  | _ => none

/-- Frames that answer nothing. -/
def News (frames : List Json) : Prop := ∀ f ∈ frames, answered? f = none

/-- Frames of which the last one answers a request, and no other answers any. -/
def Concludes (id : Json) (frames : List Json) : Prop :=
  ∃ news answer, frames = news ++ [answer] ∧ News news ∧ answered? answer = some id

theorem answered?_request (id : Nat) (method : String) (params : Json) :
    answered? (request id method params) = none := by
  simp [answered?, request, Json.field?_object]

theorem answered?_notification (method : String) (params : Json) :
    answered? (notification method params) = none := by
  simp [answered?, notification, Json.field?_object]

theorem answered?_response (id result : Json) : answered? (response id result) = some id := by
  simp [answered?, response, Json.field?_object]

theorem answered?_refuse (id : Json) (r : Refusal) : answered? (refuse id r) = some id := by
  simp [answered?, refuse, errorResponse, Json.field?_object]

theorem answered?_answerTo (id : Json) (o : Outcome) : answered? (answerTo id o) = some id := by
  unfold answerTo
  split
  · exact answered?_response _ _
  · exact answered?_response _ _
  · exact answered?_response _ _
  · exact answered?_response _ _
  · exact answered?_refuse _ _
  · exact answered?_response _ _
  · exact answered?_refuse _ _
  · exact answered?_response _ _

theorem News.nil : News [] := fun _ member => nomatch member

theorem News.one {f : Json} (news : answered? f = none) : News [f] :=
  fun _ member => List.mem_singleton.mp member ▸ news

theorem News.append {front behind : List Json} (first : News front) (later : News behind) :
    News (front ++ behind) := fun f member =>
  (List.mem_append.mp member).elim (first f) (later f)

theorem Concludes.one {id answer : Json} (answers : answered? answer = some id) :
    Concludes id [answer] := ⟨[], answer, rfl, .nil, answers⟩

theorem Concludes.behind {id answer : Json} {news : List Json} (quiet : News news)
    (answers : answered? answer = some id) : Concludes id (news ++ [answer]) :=
  ⟨news, answer, rfl, quiet, answers⟩

theorem News.concludes {id : Json} {front behind : List Json} (quiet : News front)
    (concludes : Concludes id behind) : Concludes id (front ++ behind) := by
  obtain ⟨news, answer, rfl, later, answers⟩ := concludes
  exact ⟨front ++ news, answer, (List.append_assoc ..).symm, quiet.append later, answers⟩

theorem News.answers {frames : List Json} (quiet : News frames) :
    frames.filterMap answered? = [] := List.filterMap_eq_nil_iff.mpr quiet

theorem Concludes.answers {id : Json} {frames : List Json} (concludes : Concludes id frames) :
    frames.filterMap answered? = [id] := by
  obtain ⟨news, answer, rfl, quiet, answers⟩ := concludes
  rw [List.filterMap_append, quiet.answers, List.filterMap_cons, answers]
  rfl

end Rpc

/-- The request that an incident brings, by its id. -/
def Incident.asks? (i : Incident) : Option Json := i.frame?.bind Rpc.requestId?

/-- The request that a job is to answer, by its id. -/
def Job.owes? : Job → Option Json
  | answers id => some id
  | refuses id _ => some id
  | silent | done => none

/-- A job as it is begun, and its task. A refusal has none. -/
inductive Job.Fresh : Job → Option Task → Prop
  | silent (e : Errand) : Fresh .silent (some ⟨[], .begin e⟩)
  | answers (id : Json) (e : Errand) : Fresh (.answers id) (some ⟨[], .begin e⟩)
  | refuses (id : Json) (r : Rpc.Refusal) : Fresh (.refuses id r) none

namespace Server

section Says

theorem tell_says (task : Option Nat) (s : Server) (e : Event) :
    ∃ news, Rpc.News news ∧ (tell task s e).sent = s.sent ++ news := by
  cases e with
  | progress e => cases e <;> exact ⟨_, .one (Rpc.answered?_notification _ _), rfl⟩
  | askPolicy => exact ⟨_, .one (Rpc.answered?_request _ _ _), rfl⟩
  | runs | installs => exact ⟨[], .nil, (List.append_nil _).symm⟩
  | _ => exact ⟨_, .one (Rpc.answered?_notification _ _), rfl⟩

theorem foldl_tell_says (task : Option Nat) (s : Server) (events : List Event) :
    ∃ news, Rpc.News news ∧ (events.foldl (tell task) s).sent = s.sent ++ news := by
  induction events generalizing s with
  | nil => exact ⟨[], .nil, (List.append_nil _).symm⟩
  | cons e rest ih =>
    obtain ⟨front, quiet, first⟩ := tell_says task s e
    obtain ⟨behind, later, others⟩ := ih (tell task s e)
    refine ⟨front ++ behind, quiet.append later, ?_⟩
    rw [List.foldl_cons, others, first, List.append_assoc]

/-- What happens in the workspace is told as news. -/
theorem withSite_says (s : Server) (task : Option Nat) (next : Site) :
    ∃ news, Rpc.News news ∧ (s.withSite task next).sent = s.sent ++ news :=
  foldl_tell_says task { s with site? := some next } _

theorem withSite_site (s : Server) (task : Option Nat) (next : Site) :
    (s.withSite task next).site = next :=
  site_eq (congrArg Gist.site? (s.withSite_gist task next))

theorem withSite_jobs (s : Server) (task : Option Nat) (next : Site) :
    (s.withSite task next).jobs = s.jobs := congrArg Gist.jobs (s.withSite_gist task next)

end Says

/-- What an incident does: the request it brings, if it brings one, and the task whose turn it is
are given. -/
inductive Exchange (s s' : Server) (asks : Option Json) (who : Option Nat) : Prop
  /-- The editor is told something at most. -/
  | news {said : List Json} : asks = none → Rpc.News said → s'.sent = s.sent ++ said →
      s'.jobs = s.jobs → s'.site.tasks = s.site.tasks → Exchange s s' asks who
  /-- A request is answered on the spot. -/
  | answered {id : Json} {said : List Json} : asks = some id → Rpc.Concludes id said →
      s'.sent = s.sent ++ said → s'.jobs = s.jobs → s'.site.tasks = s.site.tasks →
      Exchange s s' asks who
  | begun {job : Job} {task : Option Task} : asks = job.owes? → job.Fresh task →
      s'.sent = s.sent → s'.jobs = s.jobs ++ [job] → s'.site.tasks = s.site.tasks ++ [task] →
      Exchange s s' asks who
  /-- A task goes on that has not come to its outcome. -/
  | goesOn {n : Nat} {t t' : Task} {said : List Json} : asks = none → who = some n →
      s.isOver n = false → s.site.task? n = some t → (t.Tidy → t'.Tidy) →
      t'.point.outcome? = none → Rpc.News said → s'.sent = s.sent ++ said → s'.jobs = s.jobs →
      s'.site.tasks = s.site.tasks.set n (some t') → Exchange s s' asks who
  /-- A task comes to its outcome, and its request is answered if it has one. -/
  | ends {n : Nat} {t t' : Task} {job : Job} {said : List Json} : asks = none → who = some n →
      s.site.task? n = some t → (t.Tidy → t'.Tidy) → t'.point.outcome?.isSome = true →
      s.jobs[n]? = some job →
      (job = .silent ∧ Rpc.News said ∨ ∃ id, job = .answers id ∧ Rpc.Concludes id said) →
      s'.sent = s.sent ++ said → s'.jobs = s.jobs.set n .done →
      s'.site.tasks = s.site.tasks.set n (some t') → Exchange s s' asks who
  /-- A task refuses its request. -/
  | refused {n : Nat} {id : Json} {r : Rpc.Refusal} {said : List Json} : asks = none →
      who = some n → s.jobs[n]? = some (.refuses id r) → Rpc.Concludes id said →
      s'.sent = s.sent ++ said → s'.jobs = s.jobs.set n .done →
      s'.site.tasks = s.site.tasks → Exchange s s' asks who

/-- What holds of the tasks and the jobs of a server at any time. -/
structure Orderly (s : Server) : Prop where
  length : s.site.tasks.length = s.jobs.length
  refused : ∀ n id r, s.jobs[n]? = some (.refuses id r) → s.site.task? n = none
  done : ∀ n t, s.site.task? n = some t →
    (t.point.outcome?.isSome = true ↔ s.jobs[n]? = some .done)
  tidy : ∀ n t, s.site.task? n = some t → t.Tidy

variable {s : Server}

/-- What has been said stays said. -/
theorem Exchange.sent {s' : Server} {asks : Option Json} {who : Option Nat}
    (exchange : s.Exchange s' asks who) : ∃ said, s'.sent = s.sent ++ said := by
  cases exchange with
  | news _ _ told | answered _ _ told | goesOn _ _ _ _ _ _ _ told | ends _ _ _ _ _ _ _ told
    | refused _ _ _ _ told => exact ⟨_, told⟩
  | begun _ _ told => exact ⟨[], told.trans (List.append_nil _).symm⟩

section Frames

theorem Exchange.still {who : Option Nat} {s' : Server} (sent : s'.sent = s.sent)
    (jobs : s'.jobs = s.jobs) (sites : s'.site.tasks = s.site.tasks) :
    s.Exchange s' none who := by
  have told : s'.sent = s.sent ++ [] := sent.trans (List.append_nil _).symm
  exact .news rfl .nil told jobs sites

theorem Exchange.refuse (id : Json) (r : Rpc.Refusal) :
    s.Exchange (s.send (Rpc.refuse id r)) (some id) none :=
  .answered rfl (.one (Rpc.answered?_refuse id r)) rfl rfl rfl

theorem spawn_exchange (e : Errand) {job : Job} (fresh : job.Fresh (some ⟨[], .begin e⟩)) :
    s.Exchange (s.spawn e job) job.owes? none := .begun rfl fresh rfl rfl rfl

theorem spawnFor_exchange (id params : Json) {α : Type} (read : Decoder α) (errand : α → Errand) :
    s.Exchange (s.spawnFor id params read errand) (some id) none := by
  unfold spawnFor
  split
  · exact spawn_exchange _ (.answers id _)
  · refine .begun ?_ (.refuses id _) rfl rfl rfl
    rfl

theorem beginSession_exchange (id params : Json) :
    s.Exchange (s.beginSession id params) (some id) none := by
  unfold beginSession
  split
  · exact .refuse id _
  rename_i unopened
  split
  · exact .refuse id _
  · have none : s.site.tasks = [] := by
      rw [Bool.not_eq_true, Option.isSome_eq_false_iff, Option.isNone_iff_eq_none] at unopened
      rw [site, unopened]
      rfl
    exact .answered rfl (.one (Rpc.answered?_response id _)) rfl rfl none.symm

theorem request_exchange (id : Json) (method : String) (params : Json) :
    s.Exchange (s.request id method params) (some id) none := by
  unfold request
  split
  · exact beginSession_exchange id params
  split
  · exact .refuse id _
  split
  · exact .refuse id _
  split
  · obtain ⟨news, quiet, told⟩ := withSite_says { s with shuttingDown := true } none
      { s.site with workspace := s.site.workspace.shutdown }
    have tasks : ({ s with shuttingDown := true }.withSite none
        { s.site with workspace := s.site.workspace.shutdown }).site.tasks = s.site.tasks := by
      rw [withSite_site]
    have concludes : Rpc.Concludes id (news ++ [Rpc.response id .null]) :=
      .behind quiet (Rpc.answered?_response id _)
    refine .answered rfl concludes ?_ (withSite_jobs { s with shuttingDown := true } _ _) tasks
    rw [← List.append_assoc]
    exact congrArg (· ++ [Rpc.response id .null]) told
  · exact spawn_exchange _ (.answers id _)
  · exact spawn_exchange _ (.answers id _)
  · exact spawn_exchange _ (.answers id _)
  · exact spawnFor_exchange id params _ _
  · exact spawnFor_exchange id params _ _
  · exact spawnFor_exchange id params _ _
  · exact spawnFor_exchange id params _ _
  · exact .refuse id _

theorem notified_exchange (method : String) (params : Json) :
    s.Exchange (s.notified method params) none none := by
  have analyzed (t : Trigger) : s.Exchange (s.analyzeDocument params t) none none := by
    unfold analyzeDocument
    split
    · exact spawn_exchange _ (.silent _)
    · exact .still rfl rfl rfl
  unfold notified
  split
  · exact .still rfl rfl rfl
  split
  · exact .still rfl rfl rfl
  split
  · unfold configure
    split
    · exact spawn_exchange _ (.silent _)
    · exact .still rfl rfl rfl
  · exact analyzed _
  · exact analyzed _
  · exact analyzed _
  · unfold look
    split
    · rename_i document _
      obtain ⟨news, quiet, told⟩ := withSite_says s none
        { s.site with workspace := s.site.workspace.lookAt document }
      have tasks : (s.withSite none
          { s.site with workspace := s.site.workspace.lookAt document }).site.tasks =
          s.site.tasks := by
        rw [withSite_site]
      exact .news rfl quiet told (withSite_jobs _ _ _) tasks
    · exact .still rfl rfl rfl
  · exact .still rfl rfl rfl

/-- Only a request is answered, and it is answered at once or begins a task that owes the answer. -/
theorem handle_exchange (frame : Json) :
    s.Exchange (s.handle frame) (Rpc.requestId? frame) none := by
  unfold handle Rpc.requestId?
  cases Incoming.ofFrame? frame with
  | none => exact .still rfl rfl rfl
  | some message =>
    cases message with
    | response => exact .still rfl rfl rfl
    | request id method params => exact request_exchange id method params
    | notification method params => exact notified_exchange method params

end Frames

section Tasks

/-- A task that is there and not over is at work for a notification or for a request. -/
theorem Orderly.atWork (orderly : s.Orderly) {n : Nat} {t : Task}
    (found : s.site.task? n = some t) (working : s.isOver n = false) :
    s.jobs[n]? = some .silent ∨ ∃ id, s.jobs[n]? = some (.answers id) := by
  unfold isOver at working
  cases atN : s.jobs[n]? with
  | none =>
    rw [atN] at working
    cases working
  | some job =>
    cases job with
    | silent => exact .inl rfl
    | answers id => exact .inr ⟨id, rfl⟩
    | refuses id r => cases (orderly.refused n id r atN).symm.trans found
    | done =>
      rw [atN] at working
      cases working

/-- What a task's move comes to: the task goes on, and what it comes to is answered. -/
theorem move_exchange (orderly : s.Orderly) {m : Move} {n : Nat} {t t' : Task}
    (own : taskOf m = some n) (working : s.isOver n = false)
    (found : s.site.task? n = some t) (tidy : t.Tidy → t'.Tidy)
    (moved : (s.site.move m).tasks = s.site.tasks.set n (some t')) :
    s.Exchange (s.move m) none (some n) := by
  obtain ⟨news, quiet, told⟩ := withSite_says s (some n) (s.site.move m)
  have sites := withSite_site s (some n) (s.site.move m)
  have jobs := withSite_jobs s (some n) (s.site.move m)
  have atN : (s.site.move m).task? n = some t' := by
    have within : n < s.site.tasks.length := Nat.lt_of_not_le fun beyond => by
      rw [Site.task?, List.getElem?_eq_none beyond] at found
      cases found
    rw [Site.task?, moved, List.getElem?_set_self within]
    rfl
  have outcome : (s.site.move m).outcome? n = t'.point.outcome? := by
    rw [Site.outcome?, atN]
    rfl
  have moves : s.move m = (s.withSite (some n) (s.site.move m)).reply n := by
    simp only [Server.move, own]
  have set (s' : Server) (same : s'.jobs = s.jobs) : (s'.finish n).jobs = s.jobs.set n .done := by
    rw [finish, same]
  rw [moves]
  unfold reply
  rw [sites, jobs, outcome]
  split
  · rename_i o id came job
    refine .ends rfl rfl found tidy (by rw [came]; rfl) job (.inr ⟨id, rfl,
      .behind quiet (Rpc.answered?_answerTo id o)⟩) ?_ (set _ jobs)
      ((congrArg Site.tasks sites).trans moved)
    rw [← List.append_assoc, ← told]
    rfl
  · rename_i o came job
    exact .ends rfl rfl found tidy (by rw [came]; rfl) job (.inl ⟨rfl, quiet⟩) told
      (set _ jobs) ((congrArg Site.tasks sites).trans moved)
  · rename_i other silent
    refine .goesOn rfl rfl working found tidy ?_ quiet told jobs
      ((congrArg Site.tasks sites).trans moved)
    cases came : t'.point.outcome? with
    | none => rfl
    | some o =>
      rcases orderly.atWork found working with job | ⟨id, job⟩
      · exact (silent o came job).elim
      · exact (other o id came job).elim

/-- A move of a task that is not there changes nothing but what is told. -/
theorem move_absent {m : Move} {n : Nat} (own : taskOf m = some n)
    (absent : s.site.task? n = none) (moved : s.site.move m = s.site) :
    s.Exchange (s.move m) none (some n) := by
  obtain ⟨news, quiet, told⟩ := withSite_says s (some n) (s.site.move m)
  have sites := withSite_site s (some n) (s.site.move m)
  have outcome : (s.site.move m).outcome? n = none := by
    rw [moved, Site.outcome?, absent]
    rfl
  have moves : s.move m = s.withSite (some n) (s.site.move m) := by
    simp only [Server.move, own, reply, sites, outcome]
  rw [moves]
  exact .news rfl quiet told (withSite_jobs _ _ _) (congrArg Site.tasks (sites.trans moved))

theorem advance_move_exchange (orderly : s.Orderly) {n : Nat} (working : s.isOver n = false) :
    s.Exchange (s.move (.advance n)) none (some n) := by
  cases found : s.site.task? n with
  | none => exact move_absent rfl found (by simp only [Site.move, found]; rfl)
  | some t =>
    have tidy : t.Tidy → (s.site.workspace.advance t).2.Tidy := s.site.workspace.advance_tidy
    refine move_exchange orderly rfl working found tidy ?_
    simp only [Site.move, found]
    rfl

theorem receive_move_exchange (orderly : s.Orderly) {n : Nat} (working : s.isOver n = false)
    (a : Answer) : s.Exchange (s.move (.receive n a)) none (some n) := by
  cases found : s.site.task? n with
  | none => exact move_absent rfl found (by simp only [Site.move, found]; rfl)
  | some t =>
    have tidy : t.Tidy → (s.site.workspace.receive t a).2.Tidy :=
      fun tidy => s.site.workspace.receive_tidy tidy a
    refine move_exchange orderly rfl working found tidy ?_
    simp only [Site.move, found]
    rfl

/-- What has been asked of the editor does not matter to what is said. -/
theorem Exchange.of_asking {s' : Server} {asks : Option Json} {who : Option Nat}
    {outbound : Outbound} {asked : List Asked}
    (exchange : Server.Exchange { s with outbound := outbound, asked := asked } s' asks who) :
    s.Exchange s' asks who := by
  cases exchange with
  | news none quiet told jobs tasks => exact .news none quiet told jobs tasks
  | answered some concludes told jobs tasks => exact .answered some concludes told jobs tasks
  | begun owes fresh told jobs tasks => exact .begun owes fresh told jobs tasks
  | goesOn none own working found tidy busy quiet told jobs tasks =>
    exact .goesOn none own working found tidy busy quiet told jobs tasks
  | ends none own found tidy came job said told jobs tasks =>
    exact .ends none own found tidy came job said told jobs tasks
  | refused none own job concludes told jobs tasks =>
    exact .refused none own job concludes told jobs tasks

theorem advance_exchange (orderly : s.Orderly) {n : Nat} (working : s.isOver n = false) :
    s.Exchange (s.advance n) none (some n) := by
  unfold advance
  split
  · rename_i id r job
    exact .refused rfl rfl job (.one (Rpc.answered?_refuse id r)) rfl rfl rfl
  · exact .still rfl rfl rfl
  · split
    · rename_i outbound answer _
      have orderly' : Server.Orderly
          { s with outbound := outbound, asked := s.asked.filter fun a => a.task != n } :=
        ⟨orderly.length, orderly.refused, orderly.done, orderly.tidy⟩
      exact (receive_move_exchange orderly' working _).of_asking
    · exact advance_move_exchange orderly working

/-- What any incident does. -/
theorem meet_exchange (orderly : s.Orderly) (running : s.ended.isSome = false) (i : Incident) :
    s.Exchange (s.meet i) i.asks? i.task? := by
  unfold Server.meet
  rw [running, if_neg Bool.false_ne_true]
  cases i with
  | frame value => exact handle_exchange value
  | goOn n =>
    dsimp only
    split
    · exact .still rfl rfl rfl
    · rename_i working
      exact advance_exchange orderly (Bool.eq_false_iff.mpr working)
  | answer n a =>
    dsimp only
    split
    · exact .still rfl rfl rfl
    · rename_i working
      exact receive_move_exchange orderly (Bool.eq_false_iff.mpr working) a
  | finish client kept n r =>
    dsimp only
    split
    · obtain ⟨news, quiet, told⟩ := withSite_says s none (s.site.move (.finish client kept n r))
      have tasks : (s.withSite none (s.site.move (.finish client kept n r))).site.tasks =
          s.site.tasks := by
        rw [withSite_site]
        rfl
      exact .news rfl quiet told (withSite_jobs _ _ _) tasks
    · exact .still rfl rfl rfl
  | elapse ms => exact .still rfl rfl rfl

end Tasks

section Order

theorem Orderly.of_same (orderly : s.Orderly) {s' : Server} (jobs : s'.jobs = s.jobs)
    (tasks : s'.site.tasks = s.site.tasks) : s'.Orderly := by
  have same (n : Nat) : s'.site.task? n = s.site.task? n := by rw [Site.task?, tasks, Site.task?]
  refine ⟨?_, fun n id r atN => ?_, fun n t found => ?_, fun n t found => ?_⟩
  · rw [tasks, jobs]
    exact orderly.length
  · rw [same]
    exact orderly.refused n id r (jobs ▸ atN)
  · rw [jobs]
    exact orderly.done n t (same n ▸ found)
  · exact orderly.tidy n t (same n ▸ found)

theorem Orderly.begun (orderly : s.Orderly) {s' : Server} {job : Job} {task : Option Task}
    (fresh : job.Fresh task) (jobs : s'.jobs = s.jobs ++ [job])
    (tasks : s'.site.tasks = s.site.tasks ++ [task]) : s'.Orderly := by
  have length := orderly.length
  have place (n : Nat) : (s'.jobs[n]? = s.jobs[n]? ∧ s'.site.task? n = s.site.task? n) ∨
      (s'.jobs[n]? = some job ∧ s'.site.task? n = task) := by
    rw [Site.task?, jobs, tasks]
    rcases Nat.lt_trichotomy n s.jobs.length with old | rfl | beyond
    · rw [List.getElem?_append_left old, List.getElem?_append_left (length ▸ old)]
      exact .inl ⟨rfl, rfl⟩
    · rw [List.getElem?_concat_length, ← length, List.getElem?_concat_length]
      exact .inr ⟨rfl, rfl⟩
    · refine .inl ⟨?_, ?_⟩
      · rw [List.getElem?_eq_none (by simp; omega), List.getElem?_eq_none (by omega)]
      · rw [List.getElem?_eq_none (by simp; omega), Site.task?, List.getElem?_eq_none (by omega)]
  refine ⟨?_, fun n id r atN => ?_, fun n t found => ?_, fun n t found => ?_⟩
  · rw [tasks, jobs, List.length_append, List.length_append, length]
    rfl
  · rcases place n with ⟨same, still⟩ | ⟨new, none⟩
    · rw [still]
      exact orderly.refused n id r (same ▸ atN)
    · cases new.symm.trans atN
      cases fresh
      exact none
  · rcases place n with ⟨same, still⟩ | ⟨new, begun⟩
    · rw [same]
      exact orderly.done n t (still ▸ found)
    · rw [new]
      rw [begun] at found
      cases fresh <;> cases found <;> simp [Point.outcome?]
  · rcases place n with ⟨same, still⟩ | ⟨new, begun⟩
    · exact orderly.tidy n t (still ▸ found)
    · rw [begun] at found
      cases fresh <;> cases found <;> exact fun _ => rfl

/-- A task has gone on, and its job is over with it or not. -/
theorem Orderly.set (orderly : s.Orderly) {s' : Server} {n : Nat} {t t' : Task}
    (found : s.site.task? n = some t) (tidy : t.Tidy → t'.Tidy)
    (length : s'.jobs.length = s.jobs.length)
    (own : t'.point.outcome?.isSome = true ↔ s'.jobs[n]? = some .done)
    (others : ∀ m, m ≠ n → s'.jobs[m]? = s.jobs[m]?)
    (kept : ∀ id r, s'.jobs[n]? = some (.refuses id r) → s.jobs[n]? = some (.refuses id r))
    (tasks : s'.site.tasks = s.site.tasks.set n (some t')) : s'.Orderly := by
  have within : n < s.site.tasks.length := Nat.lt_of_not_le fun beyond => by
    rw [Site.task?, List.getElem?_eq_none beyond] at found
    cases found
  have atN : s'.site.task? n = some t' := by
    rw [Site.task?, tasks, List.getElem?_set_self within]
    rfl
  have same (m : Nat) (other : m ≠ n) : s'.site.task? m = s.site.task? m := by
    rw [Site.task?, tasks, List.getElem?_set_ne other.symm, Site.task?]
  refine ⟨?_, fun m id r atM => ?_, fun m t₁ foundM => ?_, fun m t₁ foundM => ?_⟩
  · rw [tasks, List.length_set, length]
    exact orderly.length
  · by_cases here : m = n
    · subst here
      cases (orderly.refused m id r (kept id r atM)).symm.trans found
    · rw [same m here]
      exact orderly.refused m id r (others m here ▸ atM)
  · by_cases here : m = n
    · subst here
      cases atN.symm.trans foundM
      exact own
    · rw [others m here]
      exact orderly.done m t₁ (same m here ▸ foundM)
  · by_cases here : m = n
    · subst here
      cases atN.symm.trans foundM
      exact tidy (orderly.tidy m t found)
    · exact orderly.tidy m t₁ (same m here ▸ foundM)

theorem Orderly.of_exchange (orderly : s.Orderly) {s' : Server} {asks : Option Json}
    {who : Option Nat} (exchange : s.Exchange s' asks who) : s'.Orderly := by
  cases exchange with
  | news _ _ _ jobs tasks | answered _ _ _ jobs tasks => exact orderly.of_same jobs tasks
  | begun _ fresh _ jobs tasks => exact orderly.begun fresh jobs tasks
  | @goesOn n t t' _ _ _ working found tidy busy _ _ jobs tasks =>
    refine orderly.set found tidy (congrArg List.length jobs) ?_ (fun m _ => jobs ▸ rfl)
      (fun id r kept => jobs ▸ kept) tasks
    rw [busy, jobs]
    refine iff_of_false Bool.false_ne_true fun done => ?_
    rw [isOver, done] at working
    cases working
  | @ends n t t' job _ _ _ found tidy came atN _ _ jobs tasks =>
    have within : n < s.jobs.length := (List.getElem?_eq_some_iff.mp atN).1
    have done : s'.jobs[n]? = some .done := by rw [jobs, List.getElem?_set_self within]
    refine orderly.set found tidy (by rw [jobs, List.length_set]) (iff_of_true came done)
      (fun m other => by rw [jobs, List.getElem?_set_ne other.symm]) (fun id r kept => ?_) tasks
    cases done.symm.trans kept
  | @refused n id r _ _ _ atN _ _ jobs tasks =>
    have within : n < s.jobs.length := (List.getElem?_eq_some_iff.mp atN).1
    have absent := orderly.refused n id r atN
    have same (m : Nat) : s'.site.task? m = s.site.task? m := by
      rw [Site.task?, tasks, Site.task?]
    have others (m : Nat) (other : m ≠ n) : s'.jobs[m]? = s.jobs[m]? := by
      rw [jobs, List.getElem?_set_ne other.symm]
    refine ⟨?_, fun m id' r' atM => ?_, fun m t found => ?_, fun m t found => ?_⟩
    · rw [tasks, jobs, List.length_set]
      exact orderly.length
    · by_cases here : m = n
      · rw [here, same]
        exact absent
      · rw [same]
        exact orderly.refused m id' r' (others m here ▸ atM)
    · by_cases here : m = n
      · rw [here, same, absent] at found
        cases found
      · rw [others m here]
        exact orderly.done m t (same m ▸ found)
    · exact orderly.tidy m t (same m ▸ found)

theorem Orderly.meet (orderly : s.Orderly) (i : Incident) : (s.meet i).Orderly := by
  cases running : s.ended.isSome with
  | true =>
    have meets : s.meet i = s := if_pos running
    rw [meets]
    exact orderly
  | false => exact orderly.of_exchange (meet_exchange orderly running i)

theorem Orderly.course (orderly : s.Orderly) (incidents : List Incident) :
    (s.course incidents).Orderly := by
  induction incidents generalizing s with
  | nil => exact orderly
  | cons i rest ih => exact ih (orderly.meet i)

theorem orderly_new (env : Environment) (d : Defaults) (files : FileTree) (here : Path) :
    (new env d files here).Orderly := by
  refine ⟨rfl, fun n id r atN => ?_, fun n t found => ?_, fun n t found => ?_⟩ <;>
    simp [new, site, Site.new, Site.task?] at *

end Order

end Server

end LintBridge
