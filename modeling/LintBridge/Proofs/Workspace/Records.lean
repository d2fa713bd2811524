import LintBridge.Proofs.Workspace.Drafts
import LintBridge.Proofs.Workspace.Places

namespace LintBridge

/-- What a task at a point is about to save. -/
def Point.draft? : Point → Option ProjectConfig
  | save _ c => some c
  | _ => none

/-- How far a request at a point has come with the file. -/
def Point.drafting : Point → Drafting
  | save _ c => .holding c
  | tell _ => .settled
  | leave (.activated (some _)) => .settled
  | done (.activated (some _)) => .settled
  | leave _ => .gone
  | done _ => .gone
  | _ => .waiting

/-- The points on the way of a request. -/
inductive Activation.Passes (a : Activation) : Point → Prop
  | begin : Passes a (.begin a.errand)
  | seek : Passes a (.seek a.errand)
  | enter {client} : Passes a (.enter a.errand client)
  | asking {client call} : Passes a (.asking client call (.errand a.errand))
  | load : Passes a (.load a.change)
  | save {c} : Passes a (.save a.change c)
  | tell : Passes a (.tell a.change)
  | leave {linter} : Passes a (.leave (.activated linter))
  | done {linter} : Passes a (.done (.activated linter))

/-- All that a request can do with the file when it goes on. -/
inductive Activation.Goes (a : Activation) (w w' : Workspace) (before after : Drafting) : Prop
  | stay : w'.files = w.files → (∀ c, before ≠ .holding c) → after = before →
      Goes a w w' before after
  | fail : w'.files = w.files → (∀ c, before ≠ .holding c) → after = .gone →
      Goes a w w' before after
  | load {c} : w'.files = w.files → before = .waiting →
      a.change.apply ((ProjectConfig.load w.files w.project).toOption.getD .empty) = (c, true) →
      after = .holding c → Goes a w w' before after
  | find {c} : w'.files = w.files → before = .waiting →
      a.change.apply ((ProjectConfig.load w.files w.project).toOption.getD .empty) = (c, false) →
      after = .settled → Goes a w w' before after
  | save {c} : before = .holding c → w'.files = (c.save w.files w.project).1 →
      after = .settled → Goes a w w' before after

namespace Workspace

variable {w : Workspace}

theorem files_stepCall (client : ClientId) (call : Call) :
    (w.stepCall client call).1.files = w.files := by
  unfold stepCall
  cases w.clients[client]? with
  | none => rfl
  | some c =>
    dsimp only
    cases (c.step call).2.2 <;> rfl

theorem files_abandon (t : Task) : (w.abandon t).files = w.files := by
  unfold abandon
  induction t.held generalizing w with
  | nil => rfl
  | cons id held ih => exact ih (w := w.dequeue id)

theorem files_finish (client : ClientId) (kept : Kept) (n : Nat)
    (r : Except EngineError String) : (w.finish client kept n r).files = w.files := by
  unfold finish
  cases w.clients[client]? <;> rfl

theorem advance_passes {a : Activation} {t : Task} (passes : a.Passes t.point) :
    a.Passes (w.advance t).2.point ∧
      a.Goes w (w.advance t).1 t.point.drafting (w.advance t).2.point.drafting := by
  have waits : ∀ c, Drafting.waiting ≠ .holding c := by simp
  have settles : ∀ c, Drafting.settled ≠ .holding c := by simp
  have parts : ∀ c, Drafting.gone ≠ .holding c := by simp
  obtain ⟨held, point⟩ := t
  cases passes with
  | begin => exact ⟨.seek, .stay rfl waits rfl⟩
  | seek =>
    cases ready : w.readyClient? with
    | none =>
      have next : w.advance ⟨held, .seek a.errand⟩ = (w, ⟨held, .done (.activated none)⟩) := by
        simp only [advance, ready, Activation.errand, Errand.unavailable]
      rw [next]
      exact ⟨.done, .fail rfl waits rfl⟩
    | some client =>
      have next : w.advance ⟨held, .seek a.errand⟩ = (w, ⟨held, .enter a.errand client⟩) := by
        simp only [advance, ready]
      rw [next]
      exact ⟨.enter, .stay rfl waits rfl⟩
  | @enter client =>
    rw [w.advance_enter held client]
    exact ⟨.asking, .stay rfl waits rfl⟩
  | @asking client call =>
    by_cases answered : ∃ r, call = .done r
    · obtain ⟨r, rfl⟩ := answered
      rw [w.advance_answered held client]
      cases r with
      | ok reply => exact ⟨.load, .stay rfl waits rfl⟩
      | error e => exact ⟨.leave, .fail rfl waits rfl⟩
    · have going : ∀ r, call ≠ .done r := fun r same => answered ⟨r, same⟩
      rw [w.advance_asking held client going]
      exact ⟨.asking, .stay (files_stepCall client call) waits rfl⟩
  | load =>
    cases applied : a.change.apply
        ((ProjectConfig.load w.files w.project).toOption.getD .empty) with
    | mk c changed =>
      cases changed with
      | true =>
        have next : w.advance ⟨held, .load a.change⟩ = (w, ⟨held, .save a.change c⟩) := by
          simp only [advance, applied, if_true]
        rw [next]
        exact ⟨.save, .load rfl rfl applied rfl⟩
      | false =>
        have next : w.advance ⟨held, .load a.change⟩ = (w, ⟨held, .tell a.change⟩) := by
          simp only [advance, applied, Bool.false_eq_true, if_false]
        rw [next]
        exact ⟨.tell, .find rfl rfl applied rfl⟩
  | save => exact ⟨.tell, .save rfl rfl rfl⟩
  | tell => exact ⟨.leave, .stay rfl settles rfl⟩
  | @leave linter =>
    obtain ⟨w', held', point', next, same, last⟩ := w.advance_leave held (.activated linter)
    have files : w'.files = w.files := by rcases same with rfl | ⟨id, rfl⟩ <;> rfl
    have idle : ∀ c, (Point.leave (.activated linter)).drafting ≠ .holding c := by
      cases linter with
      | none => exact parts
      | some => exact settles
    rw [next]
    rcases last with rfl | rfl
    · exact ⟨.leave, .stay files idle rfl⟩
    · exact ⟨.done, .stay files idle (by cases linter <;> rfl)⟩
  | @done linter =>
    cases linter with
    | none => exact ⟨.done, .stay rfl parts rfl⟩
    | some => exact ⟨.done, .stay rfl settles rfl⟩

theorem receive_passes {a : Activation} {t : Task} (passes : a.Passes t.point) (r : Answer) :
    a.Passes (w.receive t r).2.point ∧ (w.receive t r).1.files = w.files ∧
      (w.receive t r).2.point.drafting = t.point.drafting := by
  obtain ⟨held, point⟩ := t
  have still {point : Point} (passes : a.Passes point)
      (next : w.receive ⟨held, point⟩ r = (w, ⟨held, point⟩)) :
      a.Passes (w.receive ⟨held, point⟩ r).2.point ∧
        (w.receive ⟨held, point⟩ r).1.files = w.files ∧
        (w.receive ⟨held, point⟩ r).2.point.drafting = point.drafting := by
    rw [next]
    exact ⟨passes, rfl, rfl⟩
  cases passes with
  | asking => cases r <;> exact ⟨.asking, rfl, rfl⟩
  | begin => exact still .begin (by cases r <;> rfl)
  | seek => exact still .seek (by cases r <;> rfl)
  | enter => exact still .enter (by cases r <;> rfl)
  | load => exact still .load (by cases r <;> rfl)
  | save => exact still .save (by cases r <;> rfl)
  | tell => exact still .tell (by cases r <;> rfl)
  | leave => exact still .leave (by cases r <;> rfl)
  | done => exact still .done (by cases r <;> rfl)

end Workspace

/-- How far a task, or one that is gone, has come with the file. -/
def Task.drafting : Option Task → Drafting
  | some t => t.point.drafting
  | none => .gone

/-- The errands that some moves begin. -/
def Move.spawned (moves : List Move) : List Errand :=
  moves.filterMap fun
    | spawn e => some e
    | _ => none

namespace Site

/-- What a task is about to save. -/
def draft? (s : Site) (n : Nat) : Option ProjectConfig :=
  (s.task? n).bind fun t => t.point.draft?

/-- The task that a move saves the file for. -/
def saver? (s : Site) : Move → Option Nat
  | .advance n => if (s.draft? n).isSome then some n else none
  | _ => none

/-- Whether a move that saves the file does so without a fault. -/
def savesWell (s : Site) : Move → Bool
  | .advance n =>
    (s.draft? n).all fun c => (c.save s.workspace.files s.workspace.project).2.isNone
  | _ => true

/-- Whether no other task is about to save the file when a move does. -/
def savesAlone (s : Site) (m : Move) : Bool :=
  (s.saver? m).all fun n =>
    (List.range s.tasks.length).all fun k => k == n || (s.draft? k).isNone

/-- Whether every move is made in a site that admits it. -/
def throughout (admits : Site → Move → Bool) (s : Site) : List Move → Bool
  | [] => true
  | m :: moves => admits s m && (s.move m).throughout admits moves

/-- Whether the tasks of a site are requests, in their order, that have come as far with the file
as a filing says. -/
structure Filed (requests : List Activation) (s : Site) (f : Filing) : Prop where
  loaded : ProjectConfig.load s.workspace.files s.workspace.project = .ok f.file
  stages : f.stages = s.tasks.map Task.drafting
  passes : ∀ n t, s.task? n = some t → ∃ a, requests[n]? = some a ∧ a.Passes t.point

section Moves

variable {requests : List Activation} {first : ProjectConfig} {s : Site} {f : Filing} {m : Move}
  {n : Nat} {t : Task}

theorem Filed.draft? (filed : s.Filed requests f) (n : Nat) : f.draft? n = s.draft? n := by
  unfold Filing.draft? Site.draft? Site.task?
  rw [filed.stages, List.getElem?_map]
  cases s.tasks[n]? with
  | none => rfl
  | some entry =>
    cases entry with
    | none => rfl
    | some t =>
      obtain ⟨held, point⟩ := t
      cases point with
      | leave o => cases o with
        | activated linter => cases linter <;> rfl
        | _ => rfl
      | done o => cases o with
        | activated linter => cases linter <;> rfl
        | _ => rfl
      | _ => rfl

theorem set_of_getElem? {α : Type} {l : List α} {n : Nat} {a : α}
    (there : l[n]? = some a) : l.set n a = l := by
  obtain ⟨within, same⟩ := List.getElem?_eq_some_iff.mp there
  rw [← same, List.set_getElem_self]

theorem Filed.stage (filed : s.Filed requests f) (found : s.task? n = some t) :
    f.stages[n]? = some t.point.drafting := by
  rw [filed.stages, List.getElem?_map, tasks_of_task? found]
  rfl

/-- A task that has come to stand elsewhere has not moved the others. -/
theorem Filed.put (filed : s.Filed requests f) {a : Activation} {next : Workspace × Task}
    {file : ProjectConfig} (found : s.task? n = some t) (asked : requests[n]? = some a)
    (passes : a.Passes next.2.point)
    (loaded : ProjectConfig.load next.1.files next.1.project = .ok file) :
    (s.put n next).Filed requests ⟨file, f.stages.set n next.2.point.drafting⟩ where
  loaded := loaded
  stages := by
    rw [filed.stages, Site.put, List.map_set]
    rfl
  passes k t' found' := by
    by_cases own : k = n
    · subst own
      rw [task?_put_self found] at found'
      cases found'
      exact ⟨a, asked, passes⟩
    · rw [task?_put_of_ne (Ne.symm own)] at found'
      exact filed.passes k t' found'

theorem Filed.saver? (filed : s.Filed requests f) (found : s.task? n = some t)
    (idle : ∀ c, t.point.drafting ≠ .holding c) : s.saver? (.advance n) = none := by
  rw [Site.saver?, ← filed.draft? n]
  cases draft : f.draft? n with
  | none => rfl
  | some c =>
    have holding := (filed.stage found).symm.trans (Filing.draft?_eq_some.mp draft)
    exact absurd (Option.some.inj holding) (idle c)

theorem Filed.advance (filed : s.Filed requests f) (sound : f.Sound requests first)
    (well : s.savesWell (.advance n)) (found : s.task? n = some t) :
    ∃ f', Filing.Step requests f (s.saver? (.advance n)) f' ∧
      (s.put n (s.workspace.advance t)).Filed requests f' := by
  obtain ⟨a, asked, passes⟩ := filed.passes n t found
  obtain ⟨passes', goes⟩ := Workspace.advance_passes (w := s.workspace) passes
  have stage := filed.stage found
  have project : (s.workspace.advance t).1.project = s.workspace.project := by
    have same := project_move (s := s) (.advance n)
    rwa [move_advance found] at same
  have kept (same : (s.workspace.advance t).1.files = s.workspace.files) :
      ProjectConfig.load (s.workspace.advance t).1.files (s.workspace.advance t).1.project =
        .ok f.file := by
    rw [same, project, filed.loaded]
  have current : (ProjectConfig.load s.workspace.files s.workspace.project).toOption.getD .empty =
      f.file := by
    rw [filed.loaded]
    rfl
  cases goes with
  | stay files idle after =>
    have next := filed.put found asked passes' (kept files)
    rw [after, set_of_getElem? stage] at next
    rw [filed.saver? found idle]
    exact ⟨f, .stay, next⟩
  | fail files idle after =>
    have next := filed.put found asked passes' (kept files)
    rw [after] at next
    rw [filed.saver? found idle]
    exact ⟨_, .drop, next⟩
  | load files before applied after =>
    have next := filed.put found asked passes' (kept files)
    rw [after] at next
    rw [filed.saver? found (by rw [before]; nofun)]
    rw [current] at applied
    exact ⟨_, .load asked (before ▸ stage) applied, next⟩
  | find files before applied after =>
    have next := filed.put found asked passes' (kept files)
    rw [after] at next
    rw [filed.saver? found (by rw [before]; nofun)]
    rw [current] at applied
    exact ⟨_, .find asked (before ▸ stage) applied, next⟩
  | @save c before files after =>
    have holding : f.stages[n]? = some (.holding c) := before ▸ stage
    have draft : f.draft? n = some c := Filing.draft?_eq_some.mpr holding
    have own : s.draft? n = some c := (filed.draft? n).symm.trans draft
    rw [savesWell, own, Option.all_some, Option.isNone_iff_eq_none] at well
    -- what is saved comes from what was loaded, so that it is read back as it is
    have saved : c.save s.workspace.files s.workspace.project =
        ((s.workspace.advance t).1.files, none) := Prod.ext files.symm well
    have loaded := ProjectConfig.load_save (sound.kin (some n) c draft).steady saved
    rw [← project] at loaded
    have next := filed.put found asked passes' loaded
    rw [after] at next
    rw [Site.saver?, own]
    exact ⟨_, .save holding, next⟩

/-- Whatever happens in a site of requests happens to its filing. -/
theorem Filed.move (filed : s.Filed requests f) (sound : f.Sound requests first)
    (spawned : ∀ e, m = .spawn e → ∃ a, requests[s.tasks.length]? = some a ∧ e = a.errand)
    (well : s.savesWell m) :
    ∃ f', Filing.Step requests f (s.saver? m) f' ∧ (s.move m).Filed requests f' := by
  have still (nobody : s.saver? m = none) (same : s.move m = s) :
      ∃ f', Filing.Step requests f (s.saver? m) f' ∧ (s.move m).Filed requests f' := by
    rw [nobody, same]
    exact ⟨f, .stay, filed⟩
  cases m with
  | spawn e =>
    obtain ⟨a, asked, rfl⟩ := spawned e rfl
    refine ⟨_, .come, filed.loaded, ?_, fun k t found => ?_⟩
    · rw [filed.stages, Site.move, List.map_append]
      rfl
    · rw [Site.move, task?] at found
      rcases Nat.lt_trichotomy k s.tasks.length with before | rfl | beyond
      · rw [List.getElem?_append_left before] at found
        exact filed.passes k t found
      · rw [List.getElem?_concat_length] at found
        cases found
        exact ⟨a, asked, .begin⟩
      · rw [List.getElem?_eq_none (by rw [List.length_append, List.length_singleton]; omega)]
          at found
        cases found
  | finish client kept k r =>
    refine ⟨f, .stay, ?_, filed.stages, filed.passes⟩
    rw [project_move]
    exact (congrArg (ProjectConfig.load · _) (Workspace.files_finish client kept k r)).trans
      filed.loaded
  | abandon n =>
    cases found : s.task? n with
    | none => exact still rfl (move_of_absent found rfl)
    | some t =>
      have moved := move_abandon found
      refine ⟨_, .drop (n := n), ?_, ?_, fun k t' found' => ?_⟩
      · rw [project_move, moved]
        exact (congrArg (ProjectConfig.load · _) (Workspace.files_abandon t)).trans filed.loaded
      · rw [filed.stages, moved, Site.remove, List.map_set]
        rfl
      · rw [moved, Site.remove, task?] at found'
        by_cases own : n = k
        · subst own
          have within := (List.getElem?_eq_some_iff.mp (tasks_of_task? found)).1
          rw [List.getElem?_set_self within] at found'
          cases found'
        · rw [List.getElem?_set_ne own] at found'
          exact filed.passes k t' found'
  | receive n r =>
    cases found : s.task? n with
    | none => exact still rfl (move_of_absent found rfl)
    | some t =>
      obtain ⟨a, asked, passes⟩ := filed.passes n t found
      obtain ⟨passes', files, same⟩ := Workspace.receive_passes (w := s.workspace) passes r
      have loaded := filed.loaded
      rw [← files, ← project_move (.receive n r), move_receive found] at loaded
      have next := filed.put found asked passes' loaded
      rw [same, set_of_getElem? (filed.stage found)] at next
      rw [move_receive found]
      exact ⟨f, .stay, next⟩
  | advance n =>
    cases found : s.task? n with
    | none =>
      refine still ?_ (move_of_absent found rfl)
      rw [Site.saver?, Site.draft?, found]
      rfl
    | some t =>
      rw [move_advance found]
      exact filed.advance sound well found

theorem Filed.savesAlone_iff (filed : s.Filed requests f) :
    s.savesAlone m = true ↔ f.Alone (s.saver? m) := by
  have held (k : Nat) : (s.draft? k).isNone = false ↔ ∃ c, f.draft? k = some c := by
    rw [filed.draft? k]
    cases s.draft? k <;> simp
  simp only [savesAlone, Option.all_eq_true, List.all_eq_true, List.mem_range, Bool.or_eq_true,
    beq_iff_eq]
  constructor
  · intro alone n own k c draft
    have some : (s.draft? k).isNone = false := (held k).mpr ⟨c, draft⟩
    have within : k < s.tasks.length := by
      refine Nat.lt_of_not_le fun beyond => ?_
      rw [Site.draft?, task?, List.getElem?_eq_none beyond] at some
      cases some
    exact (alone n own k within).resolve_right (by simp [some])
  · intro alone n own k _
    cases none : (s.draft? k).isNone with
    | true => exact .inr rfl
    | false =>
      obtain ⟨c, draft⟩ := (held k).mp none
      exact .inl (alone n own k c draft)

/-- The errands that are begun are the requests in their order. -/
theorem asked_of_spawned {moves : List Move} (spawned : Move.spawned (m :: moves) =
    (requests.drop s.tasks.length).map Activation.errand) :
    (∀ e, m = .spawn e → ∃ a, requests[s.tasks.length]? = some a ∧ e = a.errand) ∧
      Move.spawned moves = (requests.drop (s.move m).tasks.length).map Activation.errand := by
  by_cases begun : ∃ e, m = .spawn e
  · obtain ⟨e, rfl⟩ := begun
    cases rest : requests.drop s.tasks.length with
    | nil =>
      rw [rest] at spawned
      cases spawned
    | cons a others =>
      rw [rest] at spawned
      obtain ⟨same, later⟩ := List.cons.inj spawned
      have first : requests[s.tasks.length]? = some a := by
        rw [← Nat.add_zero s.tasks.length, ← List.getElem?_drop, rest]
        rfl
      have length : (s.move (.spawn e)).tasks.length = s.tasks.length + 1 :=
        List.length_append
      refine ⟨fun e' own => ⟨a, first, ?_⟩, ?_⟩
      · cases own
        exact same
      · rw [length, ← List.tail_drop, rest]
        exact later
  · have other (e : Errand) : m ≠ .spawn e := fun same => begun ⟨e, same⟩
    refine ⟨fun e same => absurd same (other e), ?_⟩
    rw [length_move other, ← spawned]
    cases m with
    | spawn e => exact absurd rfl (other e)
    | _ => rfl

/-- However requests come between each other, nothing is lost while every save is made alone, and
something is lost for good by the first that is not. -/
theorem Filed.run (distinct : Activation.Distinct requests) (filed : s.Filed requests f)
    (sound : f.Sound requests first) {moves : List Move}
    (spawned : Move.spawned moves = (requests.drop s.tasks.length).map Activation.errand)
    (well : s.throughout savesWell moves) :
    ∃ f', (s.run moves).Filed requests f' ∧ f'.Sound requests first ∧
      (f.Recorded requests → s.throughout savesAlone moves → f'.Recorded requests) ∧
      (f.Torn requests ∨ ¬s.throughout savesAlone moves → f'.Torn requests) := by
  induction moves generalizing s f with
  | nil =>
    exact ⟨f, filed, sound, fun recorded _ => recorded, fun torn => torn.resolve_right (· rfl)⟩
  | cons m moves ih =>
    rw [throughout, Bool.and_eq_true] at well
    obtain ⟨asked, rest⟩ := asked_of_spawned spawned
    obtain ⟨f₁, step, filed₁⟩ := filed.move sound asked well.1
    have sound₁ := sound.step distinct step
    obtain ⟨f', filed', sound', keeps, tears⟩ := ih filed₁ sound₁ rest well.2
    refine ⟨f', filed', sound', fun recorded alone => ?_, fun torn => tears ?_⟩
    · rw [throughout, Bool.and_eq_true] at alone
      exact keeps (recorded.step distinct sound step (filed.savesAlone_iff.mp alone.1)) alone.2
    · rw [throughout, Bool.and_eq_true, not_and] at torn
      rcases torn with torn | together
      · exact .inl (torn.step distinct step)
      · by_cases alone : s.savesAlone m = true
        · exact .inr (together alone)
        · exact .inl (sound.torn step fun apart => alone (filed.savesAlone_iff.mpr apart))

end Moves

section Requests

variable {w : Workspace} {first : ProjectConfig} {requests : List Activation} {moves : List Move}

theorem distinct_of_nodup (distinct : (requests.map Activation.linter).Nodup) :
    Activation.Distinct requests := by
  intro n k a b askedN askedK other same
  have within : n < (requests.map Activation.linter).length := by
    rw [List.length_map]
    exact (List.getElem?_eq_some_iff.mp askedN).1
  refine other ((List.getElem?_inj within distinct).mp ?_)
  rw [List.getElem?_map, List.getElem?_map, askedN, askedK, Option.map_some, Option.map_some, same]

/-- A file that can be loaded, before anything has been asked for. -/
theorem filed_new (loaded : ProjectConfig.load w.files w.project = .ok first) :
    (Site.new w).Filed requests ⟨first, []⟩ where
  loaded := loaded
  stages := rfl
  passes n t found := by
    rw [task?, Site.new, List.getElem?_nil] at found
    cases found

theorem sound_new (steady : first.Steady) : Filing.Sound requests first ⟨first, []⟩ where
  kin place c copy := by
    cases place with
    | none =>
      cases copy
      exact ⟨rfl, rfl, steady⟩
    | some n => cases copy
  pending n a _ _ place c _ copy := by
    cases place with
    | none =>
      cases copy
      exact Iff.rfl
    | some n => cases copy
  held n c draft := nomatch draft

/-- What requests for different linters leave in the file of a project. -/
theorem filed_of_requests (loaded : ProjectConfig.load w.files w.project = .ok first)
    (numbers : ∀ l ∈ first.linters, ∀ n ∈ l.config.numbers, n.Steady)
    (distinct : (requests.map Activation.linter).Nodup)
    (spawned : Move.spawned moves = requests.map Activation.errand)
    (well : (Site.new w).throughout savesWell moves) :
    ∃ f, ((Site.new w).run moves).Filed requests f ∧ f.Sound requests first ∧
      ((Site.new w).throughout savesAlone moves → f.Recorded requests) ∧
      (¬(Site.new w).throughout savesAlone moves → f.Torn requests) := by
  have steady := ProjectConfig.steady_of_load loaded numbers
  obtain ⟨f, filed, sound, keeps, tears⟩ := (filed_new loaded).run (distinct_of_nodup distinct)
    (sound_new steady) (spawned : _ = (requests.drop 0).map _) well
  exact ⟨f, filed, sound, keeps fun n a _ settled => (nomatch settled),
    fun apart => tears (.inr apart)⟩

theorem Filed.settled {s : Site} {f : Filing} {n : Nat} {linter : String}
    (filed : s.Filed requests f) (ended : s.outcome? n = some (.activated (some linter))) :
    f.stages[n]? = some .settled := by
  obtain ⟨⟨held, point⟩, found, last⟩ := Option.bind_eq_some_iff.mp ended
  rw [filed.stage found]
  cases point with
  | done o =>
    cases last
    rfl
  | _ => cases last

/-- Several requests for different linters in a workspace whose file can be loaded. When each of
them has come to its end and every save has been carried out, the entries of other linters are as
they were, and so is the mode; and each linter is as it was asked for just when nobody has saved
while another request was about to save. -/
theorem requests_recorded_iff (loaded : ProjectConfig.load w.files w.project = .ok first)
    (numbers : ∀ l ∈ first.linters, ∀ n ∈ l.config.numbers, n.Steady)
    (distinct : (requests.map Activation.linter).Nodup)
    (spawned : Move.spawned moves = requests.map Activation.errand)
    (well : (Site.new w).throughout savesWell moves)
    (ended : ∀ n a, requests[n]? = some a →
      ((Site.new w).run moves).outcome? n = some (.activated (some a.linter))) :
    ∃ last, ProjectConfig.load ((Site.new w).run moves).workspace.files w.project = .ok last ∧
      last.mode = first.mode ∧
      Activation.others requests last = Activation.others requests first ∧
      ((∀ a ∈ requests, last.isActive a.linter = a.active) ↔
        (Site.new w).throughout savesAlone moves) := by
  obtain ⟨f, filed, sound, keeps, tears⟩ := filed_of_requests loaded numbers distinct spawned well
  have kin := sound.kin none f.file rfl
  refine ⟨f.file, ?_, kin.mode, kin.others, fun all => ?_, fun alone a member => ?_⟩
  · have same := filed.loaded
    rwa [project_run] at same
  · refine Decidable.byContradiction fun together => ?_
    obtain ⟨i, j, a, b, askedI, askedJ, _, _, apart⟩ := tears together
    exact apart none f.file rfl
      ⟨all a (List.mem_of_getElem? askedI), all b (List.mem_of_getElem? askedJ)⟩
  · obtain ⟨n, asked⟩ := List.getElem?_of_mem member
    exact keeps alone n a asked (filed.settled (ended n a asked)) none f.file rfl

/-- A workspace whose session is ready, in a project without a file. -/
def readyBlank : Workspace :=
  let w : Workspace := .new (.ofText "/p") (.builtIn ⟨[]⟩) ⟨[([utf8 "p"], .directory)], []⟩
  ((Site.new w).run [.spawn (.start (.ofDefaults (.builtIn ⟨[]⟩))), .advance 0, .advance 0,
    .advance 0, .advance 0, .advance 0, .finish 0 .version 0 (.ok "1"), .advance 0, .advance 0,
    .advance 0]).workspace

/-- Two linters that are made active. -/
def twoLinters : List Activation := [⟨"a", true⟩, ⟨"b", true⟩]

/-- The moves of a request up to where it loads the file. -/
def untilLoad (n : Nat) : List Move :=
  [.advance n, .advance n, .advance n, .advance n, .receive n (.ran (.ok "")), .advance n,
    .advance n]

/-- The moves of two requests that come to the file in an order. -/
def interleaved (order : List Nat) : List Move :=
  twoLinters.map (fun a => .spawn a.errand) ++ untilLoad 0 ++ untilLoad 1 ++ order.map .advance ++
    [.advance 0, .advance 0, .advance 0, .advance 1, .advance 1, .advance 1]

/-- The linter that was made active or inactive, if an outcome tells one. -/
def recorded? : Outcome → Option String
  | .activated linter => linter
  | _ => none

theorem over_interleaved {order : List Nat}
    (all : ∀ n ∈ [0, 1],
      (((Site.new readyBlank).run (interleaved order)).outcome? n).bind recorded? =
        (twoLinters[n]?).map Activation.linter) :
    ∀ n a, twoLinters[n]? = some a →
      ((Site.new readyBlank).run (interleaved order)).outcome? n =
        some (.activated (some a.linter)) := by
  intro n a asked
  have within : n ∈ [0, 1] := by
    have bound : n < 2 := (List.getElem?_eq_some_iff.mp asked).1
    match n, bound with
    | 0, _ | 1, _ => decide
  have told := all n within
  rw [asked, Option.map_some] at told
  obtain ⟨o, ended, same⟩ := Option.bind_eq_some_iff.mp told
  rw [ended]
  unfold recorded? at same
  split at same
  · rw [same]
  · cases same

theorem requests_recorded_in_turn :
    let site := (Site.new readyBlank).run (interleaved [0, 0, 1, 1])
    ∃ last, ProjectConfig.load site.workspace.files readyBlank.project = .ok last ∧
      ∀ a ∈ twoLinters, last.isActive a.linter = a.active := by
  have blank : ProjectConfig.load readyBlank.files readyBlank.project = .ok .empty := rfl
  have distinct : (twoLinters.map Activation.linter).Nodup := by decide
  have spawned : Move.spawned (interleaved [0, 0, 1, 1]) = twoLinters.map Activation.errand := rfl
  obtain ⟨last, loaded, _, _, recorded⟩ := requests_recorded_iff blank
    (fun _ member => nomatch member) distinct spawned (by decide +kernel)
    (over_interleaved (by decide +kernel))
  exact ⟨last, loaded, recorded.mpr (by decide +kernel)⟩

/-- Of two requests that have both loaded the file before one of them saves, one is lost. -/
theorem not_requests_recorded :
    ¬∀ (w : Workspace) (first : ProjectConfig) (requests : List Activation) (moves : List Move),
      ProjectConfig.load w.files w.project = .ok first →
      (requests.map Activation.linter).Nodup →
      Move.spawned moves = requests.map Activation.errand →
      (Site.new w).throughout savesWell moves →
      (∀ n a, requests[n]? = some a →
        ((Site.new w).run moves).outcome? n = some (.activated (some a.linter))) →
      ∃ last, ProjectConfig.load ((Site.new w).run moves).workspace.files w.project = .ok last ∧
        ∀ a ∈ requests, last.isActive a.linter = a.active := by
  intro all
  have blank : ProjectConfig.load readyBlank.files readyBlank.project = .ok .empty := rfl
  have distinct : (twoLinters.map Activation.linter).Nodup := by decide
  have well : (Site.new readyBlank).throughout savesWell (interleaved [0, 1, 0, 1]) := by
    decide +kernel
  have together : ¬(Site.new readyBlank).throughout savesAlone (interleaved [0, 1, 0, 1]) := by
    decide +kernel
  obtain ⟨last, loaded, recorded⟩ := all readyBlank .empty twoLinters
    (interleaved [0, 1, 0, 1]) blank distinct rfl well (over_interleaved (by decide +kernel))
  obtain ⟨f, filed, _, _, tears⟩ :=
    filed_of_requests blank (fun _ member => nomatch member) distinct rfl well
  have file := filed.loaded
  rw [project_run] at file
  cases loaded.symm.trans file
  obtain ⟨i, j, a, b, askedI, askedJ, _, _, apart⟩ := tears together
  exact apart none _ rfl ⟨recorded a (List.mem_of_getElem? askedI),
    recorded b (List.mem_of_getElem? askedJ)⟩

end Requests

end Site

end LintBridge
