import LintBridge.Proofs.Server.Exchange
import Mathlib.Data.List.Perm.Basic

namespace LintBridge

namespace Server

variable {s : Server}

section Ledger

/-- What a server says with an incident. -/
def said (s : Server) (i : Incident) : List Json := (s.meet i).sent.drop s.sent.length

/-- What a task says while some incidents come to pass. -/
def spoken (s : Server) (n : Nat) : List Incident → List Json
  | [] => []
  | i :: rest => (if i.task? = some n then s.said i else []) ++ (s.meet i).spoken n rest

/-- The frames that a server takes note of: those that come before the editor has left. -/
def heard (s : Server) : List Incident → List Json
  | [] => []
  | i :: rest => (if s.ended.isSome then [] else i.frame?.toList) ++ (s.meet i).heard rest

/-- The requests that have been answered and those that tasks are to answer, by their ids. -/
def ledger (s : Server) : List Json := s.sent.filterMap Rpc.answered? ++ s.jobs.filterMap Job.owes?

theorem said_of_sent {i : Incident} {said : List Json} (told : (s.meet i).sent = s.sent ++ said) :
    s.said i = said := by
  rw [Server.said, told, List.drop_left]

theorem meet_of_ended (ended : s.ended.isSome = true) (i : Incident) : s.meet i = s := if_pos ended

theorem said_of_ended (ended : s.ended.isSome = true) (i : Incident) : s.said i = [] := by
  rw [said, meet_of_ended ended, List.drop_length]

/-- A job that is over owes nothing any more. -/
theorem owes?_set {n : Nat} {job : Job} (atN : s.jobs[n]? = some job) :
    (job.owes?.toList ++ (s.jobs.set n .done).filterMap Job.owes?).Perm
      (s.jobs.filterMap Job.owes?) := by
  obtain ⟨within, rfl⟩ := List.getElem?_eq_some_iff.mp atN
  have now := (List.set_perm_cons_eraseIdx within Job.done).filterMap Job.owes?
  have before := (List.getElem_cons_eraseIdx_perm within).filterMap Job.owes?
  rw [List.filterMap_cons_none rfl] at now
  refine (now.append_left _).trans (.trans ?_ before)
  cases owes : (s.jobs[n]).owes? with
  | none =>
    rw [List.filterMap_cons_none owes]
    exact .refl _
  | some id =>
    rw [List.filterMap_cons_some owes]
    exact .refl _

theorem Exchange.ledger {s' : Server} {asks : Option Json} {who : Option Nat}
    (exchange : s.Exchange s' asks who) : s'.ledger.Perm (s.ledger ++ asks.toList) := by
  unfold Server.ledger
  have closes {n : Nat} {job : Job} {said : List Json} (atN : s.jobs[n]? = some job)
      (answers : said.filterMap Rpc.answered? = job.owes?.toList) :
      ((s.sent ++ said).filterMap Rpc.answered? ++
        (s.jobs.set n .done).filterMap Job.owes?).Perm
        (s.sent.filterMap Rpc.answered? ++ s.jobs.filterMap Job.owes?) := by
    rw [List.filterMap_append, answers, List.append_assoc]
    exact (owes?_set atN).append_left _
  cases exchange with
  | news none quiet told jobs | goesOn none _ _ _ _ _ quiet told jobs =>
    rw [none, told, jobs, List.filterMap_append, quiet.answers]
    simp
  | answered some concludes told jobs =>
    rw [some, told, jobs, List.filterMap_append, concludes.answers, List.append_assoc,
      List.append_assoc]
    exact List.perm_append_comm.append_left _
  | @begun job task owes _ told jobs =>
    rw [owes, told, jobs, List.filterMap_append, List.append_assoc]
    cases owed : job.owes? <;> simp [owed]
  | ends none _ _ _ _ atN said told jobs =>
    rw [none, told, jobs, Option.toList_none, List.append_nil]
    rcases said with ⟨rfl, quiet⟩ | ⟨id, rfl, concludes⟩
    · exact closes atN quiet.answers
    · exact closes atN concludes.answers
  | refused none _ atN concludes told jobs =>
    rw [none, told, jobs, Option.toList_none, List.append_nil]
    exact closes atN concludes.answers

/-- A server has answered, or its tasks owe, just what it has been asked. -/
theorem ledger_course (orderly : s.Orderly) (incidents : List Incident) :
    (s.course incidents).ledger.Perm
      (s.ledger ++ (s.heard incidents).filterMap Rpc.requestId?) := by
  induction incidents generalizing s with
  | nil => simp [course, heard]
  | cons i rest ih =>
    refine (ih (orderly.meet i)).trans ?_
    rw [heard, List.filterMap_append, ← List.append_assoc]
    refine .append_right _ ?_
    cases running : s.ended.isSome with
    | true =>
      rw [meet_of_ended running]
      simp
    | false =>
      have asks : i.asks?.toList = i.frame?.toList.filterMap Rpc.requestId? := by
        unfold Incident.asks?
        cases i.frame? with
        | none => rfl
        | some frame => cases asks : Rpc.requestId? frame <;> simp [asks]
      have step := (meet_exchange orderly running i).ledger
      rw [asks] at step
      exact step

end Ledger

section Spoken

/-- A task that is over says nothing any more. -/
theorem spoken_of_done (orderly : s.Orderly) {n : Nat} (done : s.jobs[n]? = some .done)
    (later : List Incident) :
    (s.course later).jobs[n]? = some .done ∧ s.spoken n later = [] := by
  induction later generalizing s with
  | nil => exact ⟨done, rfl⟩
  | cons i rest ih =>
    have finished : s.isOver n = true := by simp only [isOver, done]
    have silent : i.task? = some n → s.said i = [] := by
      intro own
      have meets : s.meet i = s := by
        unfold Server.meet
        cases i with
        | goOn m | answer m a =>
          cases own
          simp only [finished, if_true, ite_self]
        | _ => cases own
      rw [said, meets, List.drop_length]
    have still : (s.meet i).jobs[n]? = some .done := by
      cases running : s.ended.isSome with
      | true =>
        rw [meet_of_ended running]
        exact done
      | false =>
        have within : n < s.jobs.length := (List.getElem?_eq_some_iff.mp done).1
        cases meet_exchange orderly running i with
        | news _ _ _ jobs | answered _ _ _ jobs | goesOn _ _ _ _ _ _ _ _ jobs =>
          rw [jobs]
          exact done
        | begun _ _ _ jobs => rw [jobs, List.getElem?_append_left within, done]
        | @ends m _ _ _ _ _ _ _ _ _ _ _ _ jobs | @refused m _ _ _ _ _ _ _ _ jobs =>
          rw [jobs]
          by_cases here : m = n
          · rw [here, List.getElem?_set_self within]
          · rw [List.getElem?_set_ne here, done]
    obtain ⟨done', nothing⟩ := ih (orderly.meet i) still
    refine ⟨done', ?_⟩
    rw [spoken, nothing, List.append_nil]
    split
    · exact silent (by assumption)
    · rfl

/-- What has become of a job, and what its task has said. -/
inductive Story (job : Job) (now : Option Job) (frames : List Json) : Prop
  | underway : now = some job → Rpc.News frames → Story job now frames
  | answered {id : Json} : now = some .done → job.owes? = some id → Rpc.Concludes id frames →
      Story job now frames
  | passed : now = some .done → job.owes? = none → Rpc.News frames → Story job now frames

theorem asks?_of_task? {i : Incident} {n : Nat} (own : i.task? = some n) : i.asks? = none := by
  cases i with
  | goOn | answer => rfl
  | _ => cases own

/-- A task says news as long as it is under way, and the answer it owes as it is over. -/
theorem story_meet (orderly : s.Orderly) {n : Nat} {job : Job} (atN : s.jobs[n]? = some job)
    (i : Incident) : Story job (s.meet i).jobs[n]? (if i.task? = some n then s.said i else []) := by
  have within : n < s.jobs.length := (List.getElem?_eq_some_iff.mp atN).1
  have elsewhere (other : i.task? ≠ some n) (now : (s.meet i).jobs[n]? = some job) :
      Story job (s.meet i).jobs[n]? (if i.task? = some n then s.said i else []) := by
    rw [if_neg other]
    exact .underway now .nil
  cases running : s.ended.isSome with
  | true =>
    rw [meet_of_ended running, said_of_ended running, ite_self]
    exact .underway atN .nil
  | false =>
    cases meet_exchange orderly running i with
    | news _ quiet told jobs | goesOn _ _ _ _ _ _ quiet told jobs =>
      rw [said_of_sent told]
      refine .underway (jobs ▸ atN) ?_
      split
      · exact quiet
      · exact .nil
    | answered asks _ _ jobs =>
      exact elsewhere (fun own => nomatch (asks?_of_task? own).symm.trans asks) (jobs ▸ atN)
    | begun _ _ told jobs =>
      rw [said_of_sent (told.trans (List.append_nil _).symm), ite_self]
      exact .underway (by rw [jobs, List.getElem?_append_left within, atN]) .nil
    | @ends m _ _ job' _ _ own _ _ _ atM ends told jobs =>
      by_cases here : m = n
      · subst here
        cases atM.symm.trans atN
        rw [if_pos own, said_of_sent told]
        have done : (s.meet i).jobs[m]? = some .done := by rw [jobs, List.getElem?_set_self within]
        rcases ends with ⟨rfl, quiet⟩ | ⟨id, rfl, concludes⟩
        · exact .passed done rfl quiet
        · exact .answered done rfl concludes
      · refine elsewhere (fun same => here (Option.some.inj (own.symm.trans same))) ?_
        rw [jobs, List.getElem?_set_ne here, atN]
    | @refused m id r _ _ own atM concludes told jobs =>
      by_cases here : m = n
      · subst here
        cases atM.symm.trans atN
        rw [if_pos own, said_of_sent told]
        exact .answered (by rw [jobs, List.getElem?_set_self within]) rfl concludes
      · refine elsewhere (fun same => here (Option.some.inj (own.symm.trans same))) ?_
        rw [jobs, List.getElem?_set_ne here, atN]

theorem story_course (orderly : s.Orderly) {n : Nat} {job : Job} (atN : s.jobs[n]? = some job)
    (later : List Incident) : Story job (s.course later).jobs[n]? (s.spoken n later) := by
  induction later generalizing s with
  | nil => exact .underway atN .nil
  | cons i rest ih =>
    rw [spoken]
    cases story_meet orderly atN i with
    | underway now quiet =>
      cases ih (orderly.meet i) now with
      | underway after later => exact .underway after (quiet.append later)
      | answered after owes concludes => exact .answered after owes (quiet.concludes concludes)
      | passed after owes later => exact .passed after owes (quiet.append later)
    | answered now owes concludes =>
      obtain ⟨after, nothing⟩ := spoken_of_done (orderly.meet i) now rest
      rw [nothing, List.append_nil]
      exact .answered after owes concludes
    | passed now owes quiet =>
      obtain ⟨after, nothing⟩ := spoken_of_done (orderly.meet i) now rest
      rw [nothing, List.append_nil]
      exact .passed after owes quiet

/-- What a task says stands among the frames of the server in that order. -/
theorem spoken_sublist (orderly : s.Orderly) (n : Nat) (later : List Incident) :
    ∃ told, (s.course later).sent = s.sent ++ told ∧ (s.spoken n later).Sublist told := by
  induction later generalizing s with
  | nil => exact ⟨[], (List.append_nil _).symm, .slnil⟩
  | cons i rest ih =>
    obtain ⟨behind, others, later⟩ := ih (orderly.meet i)
    obtain ⟨front, first⟩ : ∃ said, (s.meet i).sent = s.sent ++ said := by
      cases running : s.ended.isSome with
      | true => exact ⟨[], by rw [meet_of_ended running, List.append_nil]⟩
      | false => exact (meet_exchange orderly running i).sent
    refine ⟨front ++ behind, ?_, ?_⟩
    · rw [← List.append_assoc, ← first]
      exact others
    · rw [spoken, said_of_sent first]
      refine .append ?_ later
      split
      · exact .refl _
      · exact List.nil_sublist _

end Spoken

section Closing

theorem abandon_says (s : Server) (n : Nat) :
    ∃ news, Rpc.News news ∧ (s.abandon n).sent = s.sent ++ news := withSite_says _ _ _

/-- What is left of the tasks as the session ends is not answered. -/
theorem close_says (s : Server) (order : List Nat) :
    ∃ news, Rpc.News news ∧ (s.close order).sent = s.sent ++ news := by
  have abandoned (order : List Nat) (s : Server) :
      ∃ news, Rpc.News news ∧ (order.foldl abandon s).sent = s.sent ++ news := by
    induction order generalizing s with
    | nil => exact ⟨[], .nil, (List.append_nil _).symm⟩
    | cons n rest ih =>
      obtain ⟨front, quiet, first⟩ := abandon_says s n
      obtain ⟨behind, later, others⟩ := ih (s.abandon n)
      exact ⟨front ++ behind, quiet.append later, by
        rw [List.foldl_cons, others, first, List.append_assoc]⟩
  obtain ⟨front, quiet, first⟩ := abandoned (order.filter fun n => !s.isOver n) s
  unfold close
  dsimp only
  split
  · exact ⟨front, quiet, first⟩
  · rename_i site _
    obtain ⟨behind, later, last⟩ := withSite_says
      ((order.filter fun n => !s.isOver n).foldl abandon s) none
      { site with workspace := site.workspace.shutdown }
    exact ⟨front ++ behind, quiet.append later, by rw [last, first, List.append_assoc]⟩

end Closing

/-- How a task answers a request while some incidents come to pass: it says news until it is over,
and the answer as the last thing, when it has come to its outcome and ended all its runs. -/
structure Answers (s : Server) (n : Nat) (id : Json) (later : List Incident) : Prop where
  underway : (s.course later).isOver n = false → Rpc.News (s.spoken n later)
  said : (s.course later).isOver n = true → Rpc.Concludes id (s.spoken n later)
  came : ∀ t, (s.course later).site.task? n = some t →
    ((s.course later).isOver n = true ↔ t.point.outcome?.isSome = true)
  ended : ∀ t, (s.course later).site.task? n = some t → (s.course later).isOver n = true →
    t.held = []
  told : ∃ told, (s.course later).sent = s.sent ++ told ∧ (s.spoken n later).Sublist told

theorem Orderly.isOver_iff (orderly : s.Orderly) {n : Nat} {t : Task}
    (found : s.site.task? n = some t) : s.isOver n = true ↔ t.point.outcome?.isSome = true := by
  have length := orderly.length
  have within : n < s.jobs.length := Nat.lt_of_not_le fun beyond => by
    rw [Site.task?, List.getElem?_eq_none (by omega)] at found
    cases found
  rw [orderly.done n t found, isOver]
  cases atN : s.jobs[n]? with
  | none =>
    rw [List.getElem?_eq_none_iff] at atN
    omega
  | some job => cases job <;> simp

theorem Orderly.answers (orderly : s.Orderly) {n : Nat} {id : Json} {job : Job}
    (atN : s.jobs[n]? = some job) (owes : job.owes? = some id) (later : List Incident) :
    s.Answers n id later := by
  have story := story_course orderly atN later
  have orderly' := orderly.course later
  refine ⟨fun working => ?_, fun finished => ?_, fun t found => orderly'.isOver_iff found,
    fun t found finished => orderly'.tidy n t found ?_, spoken_sublist orderly n later⟩
  · cases story with
    | underway _ quiet => exact quiet
    | answered done => simp [isOver, done] at working
    | passed _ none => cases none.symm.trans owes
  · cases story with
    | underway still =>
      rw [isOver, still] at finished
      cases job with
      | done => cases owes
      | _ => cases finished
    | answered _ owes' concludes =>
      cases owes'.symm.trans owes
      exact concludes
    | passed _ none => cases none.symm.trans owes
  · obtain ⟨o, came⟩ := Option.isSome_iff_exists.mp ((orderly'.isOver_iff found).mp finished)
    cases point : t.point with
    | done o => rfl
    | _ =>
      rw [point] at came
      cases came

/-- Every request of the editor is answered once at most, under its own id whatever it is, and
nothing else is: what has been answered and what tasks owe is just what has been asked, and the end
of the session answers nothing. A frame that is no request is met with news, and a task begun by it
says nothing else. A request is answered on the spot, or by a task, as the last thing it says. -/
theorem requests_are_answered (env : Environment) (d : Defaults) (files : FileTree) (here : Path)
    (before : List Incident) :
    let first := new env d files here
    let s := first.course before
    s.ledger.Perm ((first.heard before).filterMap Rpc.requestId?) ∧
    (∀ order, ∃ news, Rpc.News news ∧ (s.close order).sent = s.sent ++ news) ∧
    (∀ value, Rpc.requestId? value = none → Rpc.News (s.said (.frame value)) ∧
      ((s.meet (.frame value)).jobs = s.jobs ∨
        (s.meet (.frame value)).jobs = s.jobs ++ [.silent])) ∧
    (∀ n later, s.jobs[n]? = some .silent → Rpc.News (s.spoken n later)) ∧
    ∀ value id, s.ended.isSome = false → Rpc.requestId? value = some id →
      (Rpc.Concludes id (s.said (.frame value)) ∧ (s.meet (.frame value)).jobs = s.jobs) ∨
      (s.said (.frame value) = [] ∧ ∃ job, (s.meet (.frame value)).jobs = s.jobs ++ [job] ∧
        job.owes? = some id ∧
        ∀ later, (s.meet (.frame value)).Answers s.jobs.length id later) := by
  intro first s
  have orderly : s.Orderly := (orderly_new env d files here).course before
  refine ⟨?_, close_says s, fun value other => ?_, fun n later silent => ?_,
    fun value id running asks => ?_⟩
  · exact ledger_course (orderly_new env d files here) before
  · cases running : s.ended.isSome with
    | true =>
      rw [said_of_ended running, meet_of_ended running]
      exact ⟨.nil, .inl rfl⟩
    | false =>
      cases meet_exchange orderly running (.frame value) with
      | news _ quiet told jobs => exact ⟨said_of_sent told ▸ quiet, .inl jobs⟩
      | answered some => cases some.symm.trans other
      | begun owes fresh told jobs =>
        rw [said_of_sent (told.trans (List.append_nil _).symm)]
        cases fresh with
        | silent => exact ⟨.nil, .inr jobs⟩
        | _ => cases owes.symm.trans other
      | goesOn _ own | ends _ own | refused _ own => cases own
  · cases story_course orderly silent later with
    | underway _ quiet | passed _ _ quiet => exact quiet
    | answered _ owes => cases owes
  · have orderly' := orderly.meet (.frame value)
    cases meet_exchange orderly running (.frame value) with
    | news none => cases none.symm.trans asks
    | answered some concludes told jobs =>
      cases some.symm.trans asks
      rw [said_of_sent told]
      exact .inl ⟨concludes, jobs⟩
    | @begun job _ owes _ told jobs =>
      have atLast : (s.meet (.frame value)).jobs[s.jobs.length]? = some job := by
        rw [jobs, List.getElem?_concat_length]
      have owes' : job.owes? = some id := owes.symm.trans asks
      rw [said_of_sent (told.trans (List.append_nil _).symm)]
      exact .inr ⟨rfl, job, jobs, owes', orderly'.answers atLast owes'⟩
    | goesOn _ own | ends _ own | refused _ own => cases own

/-- A catalog that is asked for where there is no session is answered with the second turn of its
task, under an id that is no number. -/
theorem catalog_is_answered :
    let s := (new ⟨[]⟩ (.builtIn ⟨[]⟩) ⟨[], []⟩ ⟨[]⟩).course [.frame Rpc.initializeFrame]
    let asked := s.meet (.frame (Json.object
      [("id", .arr [.null]), ("method", .str "linterhub/catalog")]))
    Rpc.Concludes (.arr [.null]) (asked.spoken 0 [.goOn 0, .goOn 0]) := by
  intro s asked
  have answers := (requests_are_answered ⟨[]⟩ (.builtIn ⟨[]⟩) ⟨[], []⟩ ⟨[]⟩
    [.frame Rpc.initializeFrame]).2.2.2.2
    (Json.object [("id", .arr [.null]), ("method", .str "linterhub/catalog")]) (.arr [.null])
    rfl rfl
  rcases answers with ⟨_, none⟩ | ⟨_, _, _, _, answers⟩
  · cases none
  · exact (answers [.goOn 0, .goOn 0]).said rfl

end Server

end LintBridge
