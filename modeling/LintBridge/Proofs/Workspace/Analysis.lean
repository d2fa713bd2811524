import LintBridge.Proofs.Engine.Document
import LintBridge.Proofs.Workspace.Places

namespace LintBridge

/-- What an event publishes. -/
def Event.published? : Event → Option (String × List Diagnostic)
  | publish uri items => some (uri, items)
  | _ => none

namespace Workspace

/-- What has been published so far. -/
def published (w : Workspace) : List (String × List Diagnostic) :=
  w.events.filterMap Event.published?

variable {w : Workspace}

@[simp] theorem published_tracked (t : Tracked) : (w.tracked t).published = w.published := by
  have none : (t.events.map Event.progress).filterMap Event.published? = [] := by
    rw [List.filterMap_map]
    exact List.filterMap_eq_nil_iff.mpr fun e _ => rfl
  rw [published, tracked, List.filterMap_append, none, List.append_nil, published]

@[simp] theorem published_enqueue (id : OperationId) : (w.enqueue id).published = w.published :=
  published_tracked _

@[simp] theorem published_dequeue (id : OperationId) : (w.dequeue id).published = w.published :=
  published_tracked _

theorem published_publish (files : List (String × List Diagnostic)) :
    (w.publish files).published = w.published ++ files := by
  rw [published, publish, List.filterMap_append, List.filterMap_map]
  exact congrArg (_ ++ ·) List.filterMap_some

theorem published_emit {e : Event} (none : e.published? = none) :
    (w.emit e).published = w.published := by
  have silent : [e].filterMap Event.published? = [] :=
    List.filterMap_eq_nil_iff.mpr fun _ member => List.mem_singleton.mp member ▸ none
  simp only [published, emit, List.filterMap_append, silent, List.append_nil]

theorem published_stepCall (client : ClientId) (call : Call) :
    (w.stepCall client call).1.published = w.published := by
  unfold stepCall
  cases w.clients[client]? with
  | none => rfl
  | some c =>
    dsimp only
    cases (c.step call).2.2 with
    | none => rfl
    | some command => exact published_emit rfl

theorem published_abandon (t : Task) : (w.abandon t).published = w.published := by
  unfold abandon
  induction t.held generalizing w with
  | nil => rfl
  | cons id held ih => rw [List.foldl_cons, ih, published_dequeue]

end Workspace

/-- How far the analysis of a document has come that was told some outputs, and what it has
published by then. -/
inductive Analyzes (project : Path) (document : String) (trigger : Trigger) (told : List String) :
    Task → List (String × List Diagnostic) → Prop
  | fresh {held} : Analyzes project document trigger told
      ⟨held, .begin (.analyzeFile document trigger)⟩ []
  | seeking {held} : Analyzes project document trigger told
      ⟨held, .seek (.analyzeFile document trigger)⟩ []
  | entering {held client} : Analyzes project document trigger told
      ⟨held, .enter (.analyzeFile document trigger) client⟩ []
  | asking {held client} : Analyzes project document trigger told
      ⟨held, .asking client (.asking (.analyzeFile document))
        (.errand (.analyzeFile document trigger))⟩ []
  | running {held client} : Analyzes project document trigger told
      ⟨held, .asking client (.running (.analyzeFile document))
        (.errand (.analyzeFile document trigger))⟩ []
  | refused {held client e} : Analyzes project document trigger told
      ⟨held, .asking client (.done (.error e)) (.errand (.analyzeFile document trigger))⟩ []
  | answered {held client raw} : raw ∈ told → Analyzes project document trigger told
      ⟨held, .asking client (.done (.ok (.text raw))) (.errand (.analyzeFile document trigger))⟩ []
  | without {held point a} : point = .leave (.analysis a) ∨ point = .done (.analysis a) →
      (∀ k, a ≠ .published k) → Analyzes project document trigger told ⟨held, point⟩ []
  | published {held point raw report files} : raw ∈ told →
      Output.convert raw project = .ok report → files = report.filesFor project document →
      point = .leave (.analysis (.published files.length)) ∨
        point = .done (.analysis (.published files.length)) →
      Analyzes project document trigger told ⟨held, point⟩ files

section Steps

variable {w : Workspace} {document : String} {trigger : Trigger} {told : List String} {t : Task}
  {files : List (String × List Diagnostic)}

theorem Analyzes.mono {project : Path} (stands : Analyzes project document trigger told t files)
    (more : List String) : Analyzes project document trigger (told ++ more) t files := by
  cases stands with
  | fresh => exact .fresh
  | seeking => exact .seeking
  | entering => exact .entering
  | asking => exact .asking
  | running => exact .running
  | refused => exact .refused
  | answered member => exact .answered (List.mem_append_left _ member)
  | without point other => exact .without point other
  | published member converted same point =>
    exact .published (List.mem_append_left _ member) converted same point

/-- An analysis publishes the files of its report at once. -/
theorem Analyzes.answer (raw : String) (held : List OperationId) (member : raw ∈ told) :
    ∃ more, (w.answered (.analyzeFile document trigger) (.ok (.text raw))).1.published =
        w.published ++ more ∧
      Analyzes w.project document trigger told
        ⟨held, (w.answered (.analyzeFile document trigger) (.ok (.text raw))).2⟩ more := by
  rw [Workspace.answered, Workspace.publishOutput]
  cases converted : Output.convert raw w.project with
  | error e => exact ⟨[], (List.append_nil _).symm, .without (.inl rfl) (by simp)⟩
  | ok report =>
    exact ⟨_, Workspace.published_publish _, .published member converted rfl (.inl rfl)⟩

/-- What an analysis publishes as it goes on is what it has published afterwards more than
before. -/
theorem Analyzes.advance (stands : Analyzes w.project document trigger told t files) :
    ∃ more, (w.advance t).1.published = w.published ++ more ∧
      Analyzes w.project document trigger told (w.advance t).2 (files ++ more) := by
  have silent {held held' : List OperationId} {point point' : Point} {w' : Workspace}
      (next : w.advance ⟨held, point⟩ = (w', ⟨held', point'⟩)) (same : w'.published = w.published)
      (stands : Analyzes w.project document trigger told ⟨held', point'⟩ files) :
      ∃ more, (w.advance ⟨held, point⟩).1.published = w.published ++ more ∧
        Analyzes w.project document trigger told (w.advance ⟨held, point⟩).2 (files ++ more) := by
    rw [next]
    exact ⟨[], by rw [same, List.append_nil], by rw [List.append_nil]; exact stands⟩
  have leaving {held : List OperationId} {point : Point} {o : Outcome}
      (last : point = .leave o ∨ point = .done o) : ∃ w' held' point',
      w.advance ⟨held, point⟩ = (w', ⟨held', point'⟩) ∧ w'.published = w.published ∧
        (point' = .leave o ∨ point' = .done o) := by
    rcases last with rfl | rfl
    · obtain ⟨w', held', point', next, same, last⟩ := w.advance_leave held o
      refine ⟨w', held', point', next, ?_, last⟩
      rcases same with rfl | ⟨id, rfl⟩
      · rfl
      · exact Workspace.published_dequeue id
    · exact ⟨w, held, .done o, rfl, rfl, .inr rfl⟩
  cases stands with
  | @fresh held =>
    cases filtered : w.filters trigger with
    | true =>
      have next : w.advance ⟨held, .begin (.analyzeFile document trigger)⟩ =
          (w, ⟨[], .done (.analysis .filtered)⟩) := by
        simp only [Workspace.advance, Workspace.begin, filtered, if_true]
      exact silent next rfl (.without (.inr rfl) (by simp))
    | false =>
      have next : w.advance ⟨held, .begin (.analyzeFile document trigger)⟩ =
          (w, ⟨[], .seek (.analyzeFile document trigger)⟩) := by
        simp only [Workspace.advance, Workspace.begin, filtered, Bool.false_eq_true, if_false]
      exact silent next rfl .seeking
  | @seeking held =>
    cases ready : w.readyClient? with
    | none =>
      have next : w.advance ⟨held, .seek (.analyzeFile document trigger)⟩ =
          (w, ⟨held, .done (.analysis .unavailable)⟩) := by
        simp only [Workspace.advance, ready, Errand.unavailable]
      exact silent next rfl (.without (.inr rfl) (by simp))
    | some client =>
      have next : w.advance ⟨held, .seek (.analyzeFile document trigger)⟩ =
          (w, ⟨held, .enter (.analyzeFile document trigger) client⟩) := by
        simp only [Workspace.advance, ready]
      exact silent next rfl .entering
  | @entering held client =>
    exact silent (w.advance_enter held client _) (Workspace.published_enqueue _) .asking
  | @asking held client =>
    refine silent (w.advance_asking held client (fun _ => Call.noConfusion) _)
      (Workspace.published_stepCall _ _) ?_
    unfold Workspace.stepCall
    cases w.clients[client]? with
    | none => exact .asking
    | some c => exact .running
  | @running held client =>
    refine silent (w.advance_asking held client (fun _ => Call.noConfusion) _)
      (Workspace.published_stepCall _ _) ?_
    unfold Workspace.stepCall
    cases w.clients[client]? with
    | none => exact .running
    | some c => exact .running
  | @refused held client e =>
    exact silent (w.advance_answered held client _ _) rfl (.without (.inl rfl) (by simp))
  | @answered held client raw member =>
    rw [Workspace.advance_answered]
    simpa only [List.nil_append] using Analyzes.answer raw held member
  | @without held point a last other =>
    obtain ⟨_, _, _, next, same, last'⟩ := leaving last
    exact silent next same (.without last' other)
  | @published held point raw report files member converted same last =>
    obtain ⟨_, _, _, next, kept, last'⟩ := leaving last
    exact silent next kept (.published member converted same last')

/-- The output that an answer tells, if it does. -/
def Answer.told? : Answer → Option String
  | .ran (.ok raw) => some raw
  | _ => none

theorem Analyzes.receive (stands : Analyzes w.project document trigger told t files) (a : Answer) :
    (w.receive t a).1.published = w.published ∧
      Analyzes w.project document trigger (told ++ a.told?.toList) (w.receive t a).2 files := by
  have still {held : List OperationId} {point : Point}
      (next : w.receive ⟨held, point⟩ a = (w, ⟨held, point⟩))
      (stands : Analyzes w.project document trigger told ⟨held, point⟩ files) :
      (w.receive ⟨held, point⟩ a).1.published = w.published ∧
        Analyzes w.project document trigger (told ++ a.told?.toList)
          (w.receive ⟨held, point⟩ a).2 files := by
    rw [next]
    exact ⟨rfl, stands.mono _⟩
  cases stands with
  | fresh => exact still (by cases a <;> rfl) .fresh
  | seeking => exact still (by cases a <;> rfl) .seeking
  | entering => exact still (by cases a <;> rfl) .entering
  | asking => exact still (by cases a <;> rfl) .asking
  | refused => exact still (by cases a <;> rfl) .refused
  | answered member => exact still (by cases a <;> rfl) (.answered member)
  | running =>
    cases a with
    | ran r =>
      cases r with
      | error e => exact ⟨rfl, .refused⟩
      | ok raw => exact ⟨rfl, .answered (List.mem_append_right _ (List.mem_singleton_self raw))⟩
    | installed | policy => exact still rfl .running
  | without last other =>
    refine still ?_ (.without last other)
    rcases last with rfl | rfl <;> cases a <;> rfl
  | published member converted same last =>
    refine still ?_ (.published member converted same last)
    rcases last with rfl | rfl <;> cases a <;> rfl

/-- An analysis that tells it has published has done so with a report. -/
theorem Analyzes.of_published {project : Path} {k : Nat}
    (stands : Analyzes project document trigger told t files)
    (ended : t.point.outcome? = some (.analysis (.published k))) :
    k = files.length ∧ ∃ raw ∈ told, ∃ report, Output.convert raw project = .ok report ∧
      files = report.filesFor project document := by
  cases stands with
  | without last other =>
    rcases last with rfl | rfl
    · cases ended
    · cases ended
      exact absurd rfl (other k)
  | published member converted same last =>
    rcases last with rfl | rfl
    · cases ended
    · cases ended
      exact ⟨rfl, _, member, _, converted, same⟩
  | _ => cases ended

end Steps

namespace Site

/-- What a move publishes. -/
def publishes (s : Site) (m : Move) : List (String × List Diagnostic) :=
  (s.move m).workspace.published.drop s.workspace.published.length

/-- What a task publishes in the course of some moves. -/
def publishedBy (n : Nat) : Site → List Move → List (String × List Diagnostic)
  | _, [] => []
  | s, m :: moves =>
    (if m.task? = some n then s.publishes m else []) ++ publishedBy n (s.move m) moves

/-- The outputs that a task is told in the course of some moves. -/
def toldTo (n : Nat) (moves : List Move) : List String :=
  moves.filterMap fun
    | .receive k a => if k = n then a.told? else none
    | _ => none

/-- Where the analysis of a document stands in a site; one that is gone has published what it had
when it was abandoned. -/
def Analyzes (project : Path) (document : String) (trigger : Trigger) (told : List String)
    (entry : Option Task) (files : List (String × List Diagnostic)) : Prop :=
  match entry with
  | some t => LintBridge.Analyzes project document trigger told t files
  | none => ∃ t, LintBridge.Analyzes project document trigger told t files

variable {s : Site} {n : Nat} {document : String} {trigger : Trigger} {told : List String}
  {entry : Option Task} {files : List (String × List Diagnostic)}

theorem Analyzes.mono {project : Path} (stands : Analyzes project document trigger told entry files)
    (more : List String) : Analyzes project document trigger (told ++ more) entry files := by
  cases entry with
  | some t => exact LintBridge.Analyzes.mono stands more
  | none =>
    obtain ⟨t, stands⟩ := stands
    exact ⟨t, stands.mono more⟩

theorem publishes_eq {m : Move} {more : List (String × List Diagnostic)}
    (same : (s.move m).workspace.published = s.workspace.published ++ more) :
    s.publishes m = more := by
  rw [publishes, same, List.drop_left]

theorem publishes_eq_nil {m : Move}
    (same : (s.move m).workspace.published = s.workspace.published) : s.publishes m = [] :=
  publishes_eq (same.trans (List.append_nil _).symm)

/-- A move takes the analysis of a document one step on, or leaves it where it is. -/
theorem Analyzes.move (atN : s.tasks[n]? = some entry)
    (stands : Analyzes s.workspace.project document trigger told entry files) (m : Move) :
    ∃ entry', (s.move m).tasks[n]? = some entry' ∧
      Analyzes (s.move m).workspace.project document trigger (told ++ toldTo n [m]) entry'
        (files ++ if m.task? = some n then s.publishes m else []) := by
  have within : n < s.tasks.length := (List.getElem?_eq_some_iff.mp atN).1
  have after (t : Option Task) : (s.tasks.set n t)[n]? = some t := List.getElem?_set_self within
  rw [project_move]
  by_cases own : m.task? = some n
  · rw [if_pos own]
    cases own_of_task? atN own with
    | gone same =>
      rw [publishes_eq_nil (by rw [same]), same, List.append_nil]
      exact ⟨none, atN, stands.mono _⟩
    | @advance t same =>
      obtain ⟨more, said, next⟩ := LintBridge.Analyzes.advance stands
      have published : s.publishes (.advance n) = more := publishes_eq (by rw [same]; exact said)
      rw [published, same]
      exact ⟨_, after _, next.mono _⟩
    | @receive t a same =>
      obtain ⟨said, next⟩ := LintBridge.Analyzes.receive stands a
      have told' : toldTo n [.receive n a] = a.told?.toList := by
        simp only [toldTo, List.filterMap_cons, if_true, List.filterMap_nil]
        cases a.told? <;> rfl
      rw [publishes_eq_nil (by rw [same]; exact said), same, List.append_nil, told']
      exact ⟨_, after _, next⟩
    | @abandon t same =>
      rw [publishes_eq_nil (by rw [same]; exact Workspace.published_abandon t), same,
        List.append_nil]
      exact ⟨none, after none, t, LintBridge.Analyzes.mono stands _⟩
  · rw [if_neg own, List.append_nil]
    exact ⟨entry, tasks_move_of_ne atN own, stands.mono _⟩

/-- However an analysis comes to its end, what it has published tells how. -/
theorem Analyzes.run (atN : s.tasks[n]? = some entry)
    (stands : Analyzes s.workspace.project document trigger told entry files) (moves : List Move) :
    ∃ entry', (s.run moves).tasks[n]? = some entry' ∧
      Analyzes s.workspace.project document trigger (told ++ toldTo n moves) entry'
        (files ++ s.publishedBy n moves) := by
  induction moves generalizing s told entry files with
  | nil =>
    rw [publishedBy, toldTo, List.filterMap_nil, List.append_nil, List.append_nil]
    exact ⟨entry, atN, stands⟩
  | cons m moves ih =>
    obtain ⟨entry', atN', stands'⟩ := Analyzes.move atN stands m
    obtain ⟨entry'', atN'', stands''⟩ := ih atN' stands'
    have told' : toldTo n (m :: moves) = toldTo n [m] ++ toldTo n moves :=
      List.filterMap_append (l := [m])
    rw [project_move, List.append_assoc, List.append_assoc, ← told'] at stands''
    exact ⟨entry'', atN'', stands''⟩

/-- An analysis that tells it has published has published the report on an output it was told. -/
theorem published_of_outcome
    (begun : s.tasks[n]? = some (some ⟨[], .begin (.analyzeFile document trigger)⟩))
    (moves : List Move) {k : Nat}
    (ended : (s.run moves).outcome? n = some (.analysis (.published k))) :
    k = (s.publishedBy n moves).length ∧ ∃ raw ∈ toldTo n moves, ∃ report,
      Output.convert raw s.workspace.project = .ok report ∧
      s.publishedBy n moves = report.filesFor s.workspace.project document := by
  have fresh : Analyzes s.workspace.project document trigger []
      (some ⟨[], .begin (.analyzeFile document trigger)⟩) [] := LintBridge.Analyzes.fresh
  obtain ⟨entry, found, stands⟩ := Analyzes.run begun fresh moves
  obtain ⟨t, atT, last⟩ := Option.bind_eq_some_iff.mp ended
  rw [task?_of_tasks found] at atT
  subst atT
  rw [List.nil_append, List.nil_append] at stands
  exact LintBridge.Analyzes.of_published stands last

section Alone

variable {w w' : Workspace} {t t' : Task}

/-- A task with its workspace. -/
def Stands (s : Site) (n : Nat) (w : Workspace) (t : Task) : Prop :=
  s.workspace = w ∧ s.task? n = some t

theorem Stands.advance (stands : s.Stands n w t) (next : w.advance t = (w', t')) :
    (s.move (.advance n)).Stands n w' t' := by
  obtain ⟨rfl, found⟩ := stands
  simp only [Stands, move, found, Option.map_some, Option.getD_some, next]
  exact ⟨rfl, task?_put_self found _⟩

theorem Stands.receive (stands : s.Stands n w t) {a : Answer} (next : w.receive t a = (w', t')) :
    (s.move (.receive n a)).Stands n w' t' := by
  obtain ⟨rfl, found⟩ := stands
  simp only [Stands, move, found, Option.map_some, Option.getD_some, next]
  exact ⟨rfl, task?_put_self found _⟩

/-- The moves of an analysis that nothing comes between. -/
def undisturbed (n : Nat) (raw : String) : List Move :=
  [.advance n, .advance n, .advance n, .advance n, .receive n (.ran (.ok raw)), .advance n,
    .advance n, .advance n]

theorem outcome_of_undisturbed {client : ClientId} {c : EngineClient} {raw : String}
    {report : Report} (begun : s.Stands n w ⟨[], .begin (.analyzeFile document trigger)⟩)
    (admitted : w.filters trigger = false) (ready : w.readyClient? = some client)
    (there : w.clients[client]? = some c) (converted : Output.convert raw w.project = .ok report) :
    (s.run (undisturbed n raw)).outcome? n =
      some (.analysis (.published (report.filesFor w.project document).length)) := by
  let e : Errand := .analyzeFile document trigger
  have sought : w.advance ⟨[], .begin e⟩ = (w, ⟨[], .seek e⟩) := by
    simp only [e, Workspace.advance, Workspace.begin, admitted, Bool.false_eq_true, if_false]
  have found : w.advance ⟨[], .seek e⟩ = (w, ⟨[], .enter e client⟩) := by
    simp only [Workspace.advance, ready]
  have started : ∃ w', (w.enqueue ⟨document⟩).stepCall client (.asking (.analyzeFile document)) =
      (w', .running (.analyzeFile document)) ∧ w'.project = w.project := by
    have there' : (w.enqueue ⟨document⟩).clients[client]? = some c := there
    rw [Workspace.stepCall, there']
    exact ⟨_, rfl, rfl⟩
  obtain ⟨w', called, same⟩ := started
  have asked : (w.enqueue ⟨document⟩).advance ⟨[⟨document⟩], .asking client
      (.asking (.analyzeFile document)) (.errand e)⟩ =
      (w', ⟨[⟨document⟩], .asking client (.running (.analyzeFile document)) (.errand e)⟩) := by
    simp only [Workspace.advance, called]
  have published : w'.advance ⟨[⟨document⟩], .asking client (.done (.ok (.text raw)))
      (.errand e)⟩ = (w'.publish (report.filesFor w.project document), ⟨[⟨document⟩],
        .leave (.analysis (.published (report.filesFor w.project document).length))⟩) := by
    rw [← same] at converted ⊢
    simp only [Workspace.advance, e, Workspace.answered, Workspace.publishOutput, converted]
  have received : w'.receive ⟨[⟨document⟩], .asking client (.running (.analyzeFile document))
      (.errand e)⟩ (.ran (.ok raw)) =
        (w', ⟨[⟨document⟩], .asking client (.done (.ok (.text raw))) (.errand e)⟩) := rfl
  have running := (((begun.advance sought).advance found).advance rfl).advance asked
  have ended := (((running.receive received).advance published).advance rfl).advance rfl
  simp only [outcome?, run, undisturbed, List.foldl_cons, List.foldl_nil, ended.2]
  rfl

end Alone

/-- The analysis of a document in a site, after whatever has happened there. With a session that is
ready and admits it, an analysis that nothing comes between publishes whatever the output converts
to; and however other tasks come between, one that has published did so with an output it was told,
and the number it tells is that of the files it has published. These answer for the document just
when the output spells it as it was asked for. -/
theorem analysis_of_document {project : Path} (absolute : project.isAbsolute = true)
    (defaults : Defaults) (tree : FileTree) (before : List Move) (document : String)
    (trigger : Trigger) :
    let site := (Site.new (.new project defaults tree)).run before
    let n := site.tasks.length
    let begun := site.move (.spawn (.analyzeFile document trigger))
    (site.workspace.session.phase = .ready → site.workspace.filters trigger = false →
      ∀ raw report, Output.convert raw project = .ok report →
        ∃ moves k, toldTo n moves = [raw] ∧
          (begun.run moves).outcome? n = some (.analysis (.published k))) ∧
    ∀ moves k, (begun.run moves).outcome? n = some (.analysis (.published k)) →
      let published := begun.publishedBy n moves
      k = published.length ∧ ∃ raw ∈ toldTo n moves, ∃ results, Output.parse raw = .ok results ∧
        published = (Output.aggregate results project).filesFor project document ∧
        (Output.Answers results project document published ↔
          Output.Spells results project document) := by
  intro site n begun
  have here : site.workspace.project = project := project_run before
  have atN : begun.tasks[n]? = some (some ⟨[], .begin (.analyzeFile document trigger)⟩) :=
    List.getElem?_concat_length
  refine ⟨fun ready admitted raw report converted => ?_, fun moves k ended => ?_⟩
  · have reach := (Site.new (.new project defaults tree)).run_reach before
    have sound := (reach.sound (Workspace.new_sound project defaults tree)).standing
    obtain ⟨client, has⟩ := Option.isSome_iff_exists.mp (sound.ready_iff.mp ready)
    have made := sound.client client has
    obtain ⟨c, there, _⟩ := Option.map_eq_some_iff.mp ((List.getElem?_map).symm.trans made)
    have readyClient : site.workspace.readyClient? = some client := by
      rw [Workspace.readyClient?, ready]
      exact has
    have begins : begun.Stands n site.workspace ⟨[], .begin (.analyzeFile document trigger)⟩ :=
      ⟨rfl, task?_of_tasks atN⟩
    exact ⟨undisturbed n raw, _, by simp [undisturbed, toldTo, Answer.told?],
      outcome_of_undisturbed begins admitted readyClient there (here ▸ converted)⟩
  · obtain ⟨same, raw, member, report, converted, files⟩ := published_of_outcome atN moves ended
    rw [show begun.workspace.project = project from here] at converted files
    obtain ⟨results, parsed, rfl⟩ := Output.of_convert converted
    refine ⟨same, raw, member, results, parsed, files, ?_⟩
    rw [files]
    exact ⟨fun answers => answers.spells absolute, fun spells => spells.answers absolute⟩

/-- A start that finds its engine. -/
def readied (s : Settings) : List Move :=
  [.spawn (.start s), .advance 0, .advance 0, .advance 0, .advance 0, .advance 0,
    .finish 0 .version 0 (.ok "1"), .advance 0, .advance 0, .advance 0]

theorem ready_readied :
    let site := (Site.new (.new (.ofText "/p") (.builtIn ⟨[]⟩) ⟨[], []⟩)).run
      (readied (.ofDefaults (.builtIn ⟨[]⟩)))
    site.tasks.length = 1 ∧ site.workspace.project = .ofText "/p" ∧
      site.workspace.session.phase = .ready ∧ site.workspace.filters .force = false ∧
      site.workspace.readyClient? = some 0 ∧ ∃ c, site.workspace.clients[0]? = some c :=
  ⟨rfl, rfl, rfl, rfl, rfl, _, rfl⟩

theorem analysis_of_spelledTwice :
    let site := (Site.new (.new (.ofText "/p") (.builtIn ⟨[]⟩) ⟨[], []⟩)).run
      (readied (.ofDefaults (.builtIn ⟨[]⟩)))
    let begun := site.move (.spawn (.analyzeFile "file:///p/b" .force))
    ∃ moves k results, Output.parse Output.spelledTwice = .ok results ∧
      (begun.run moves).outcome? site.tasks.length = some (.analysis (.published k)) ∧
      Output.Answers results (.ofText "/p") "file:///p/b"
        (begun.publishedBy site.tasks.length moves) := by
  have parsed := Output.parse_spelledTwice
  have path : Engine.documentPath "file:///p/b" = .ofText "/p/b" := by decide +kernel
  have text : IsUtf8 (Engine.documentPath "file:///p/b").bytes := by
    rw [path]
    exact Path.isUtf8_ofText "/p/b"
  obtain ⟨_, _, ready, admitted, _⟩ := ready_readied
  have whole := @analysis_of_document (.ofText "/p") rfl (.builtIn ⟨[]⟩) ⟨[], []⟩
    (readied (.ofDefaults (.builtIn ⟨[]⟩))) "file:///p/b" .force
  dsimp only at whole ⊢
  generalize (Site.new (.new (.ofText "/p") (.builtIn ⟨[]⟩) ⟨[], []⟩)).run
    (readied (.ofDefaults (.builtIn ⟨[]⟩))) = site at *
  obtain ⟨alone, any⟩ := whole
  obtain ⟨moves, k, told, ended⟩ := alone ready admitted Output.spelledTwice _
    (by rw [Output.convert, parsed]; rfl)
  obtain ⟨_, raw, member, results, parsed', _, answers⟩ := any moves k ended
  rw [told, List.mem_singleton] at member
  rw [member, parsed] at parsed'
  cases parsed'
  refine ⟨moves, k, _, parsed, ended, answers.mpr ?_⟩
  exact Output.spells_of_level rfl (fun _ => by decide +kernel) text (by decide +kernel)
    (by decide +kernel) (by decide +kernel)

/-- An output with a path by way of a directory beside the file. -/
def spelledAround : String :=
  "[\x7b\"engine\":\"e\",\"result\":[\x7b\"path\":\"a/../b\",\"messages\":[\x7b\x7d]\x7d]\x7d]"

/-- What is said of a document by way of another directory is published beside it, and the document
as a file of which nothing is said. -/
theorem not_answers_spelledAround :
    ¬∀ (project : Path) (before moves : List Move) (document : String) (k : Nat)
      (results : List EngineResult),
      let site := (Site.new (.new project (.builtIn ⟨[]⟩) ⟨[], []⟩)).run before
      let begun := site.move (.spawn (.analyzeFile document .force))
      project.isAbsolute = true → Output.parse spelledAround = .ok results →
      toldTo site.tasks.length moves = [spelledAround] →
      (begun.run moves).outcome? site.tasks.length = some (.analysis (.published k)) →
      Output.Answers results project document (begun.publishedBy site.tasks.length moves) := by
  intro all
  obtain ⟨results, same⟩ : ∃ results : List EngineResult, results = [⟨"e",
      [⟨"a/../b", [⟨.warning, ⟨0, 0, 0, 1000⟩, "", none⟩]⟩]⟩] := ⟨_, rfl⟩
  have parsed : Output.parse spelledAround = .ok results :=
    of_toOption (same ▸ by decide +kernel)
  obtain ⟨length, project, _, admitted, ready, c, there⟩ := ready_readied
  have all := all (.ofText "/p") (readied (.ofDefaults (.builtIn ⟨[]⟩)))
    (undisturbed 1 spelledAround) "/p/b"
  dsimp only at all
  generalize (Site.new (.new (.ofText "/p") (.builtIn ⟨[]⟩) ⟨[], []⟩)).run
    (readied (.ofDefaults (.builtIn ⟨[]⟩))) = site at *
  rw [length] at all
  have begins : (site.move (.spawn (.analyzeFile "/p/b" .force))).tasks[1]? =
      some (some ⟨[], .begin (.analyzeFile "/p/b" .force)⟩) := by
    rw [← length]
    exact List.getElem?_concat_length
  have converted : Output.convert spelledAround site.workspace.project =
      .ok (Output.aggregate results site.workspace.project) := by
    rw [Output.convert, parsed]
    rfl
  have stands : (site.move (.spawn (.analyzeFile "/p/b" .force))).Stands 1 site.workspace
      ⟨[], .begin (.analyzeFile "/p/b" .force)⟩ := ⟨rfl, task?_of_tasks begins⟩
  have ended := outcome_of_undisturbed stands admitted ready there converted
  obtain ⟨_, raw, member, report, converted', published⟩ :=
    published_of_outcome begins (undisturbed 1 spelledAround) ended
  have answers := all _ _ rfl parsed rfl ended
  cases List.mem_singleton.mp member
  cases converted.symm.trans converted'
  rw [published, show (site.move _).workspace.project = site.workspace.project from rfl,
    project] at answers
  subst same
  exact absurd ((answers.spells rfl).file _ List.mem_cons_self) (by decide +kernel)

end Site

end LintBridge
