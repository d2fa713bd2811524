import LintBridge.Proofs.Progress.Statuses
import LintBridge.Proofs.Workspace.Tidy
import LintBridge.Proofs.Workspace.Upkeep

namespace LintBridge

/-- What an event tells of progress. -/
def Event.progress? : Event → Option ProgressEvent
  | .progress e => some e
  | _ => none

/-- The call of the tracker that a task makes as it goes on. -/
def Task.call? (project : Path) (t : Task) : Option TrackerCall :=
  match t.point with
  | .begin .install | .announce _ => some (.enqueue .system)
  | .begin (.look document) => some (.narrow ⟨document⟩)
  | .enter e _ => some (.enqueue (e.operation project))
  | .quiet => some .clear
  | .leave _ => t.held.head?.map .dequeue
  | _ => none

namespace Workspace

/-- What was told of progress so far. -/
def told (w : Workspace) : List ProgressEvent := w.events.filterMap Event.progress?

/-- Whether a workspace has come from another one by calls of the tracker. -/
structure Called (w : Workspace) (calls : List TrackerCall) (w' : Workspace) : Prop where
  progress : w'.progress = (w.progress.course calls).1
  told : w'.told = w.told ++ (w.progress.course calls).2

variable {w w' w'' : Workspace} {calls calls' : List TrackerCall}

namespace Called

theorem still (progress : w'.progress = w.progress) (told : w'.told = w.told) : w.Called [] w' :=
  ⟨progress, told.trans (List.append_nil _).symm⟩

theorem refl (w : Workspace) : w.Called [] w := .still rfl rfl

theorem trans (first : w.Called calls w') (next : w'.Called calls' w'') :
    w.Called (calls ++ calls') w'' := by
  have course := w.progress.course_append calls calls'
  constructor
  · rw [course, next.progress, first.progress]
  · rw [course, next.told, first.told, first.progress, List.append_assoc]

theorem call (w : Workspace) (c : TrackerCall) : w.Called [c] (w.tracked (w.progress.call c)) := by
  refine ⟨rfl, ?_⟩
  have all (events : List ProgressEvent) :
      (events.map Event.progress).filterMap Event.progress? = events := by
    rw [List.filterMap_map]
    exact List.filterMap_some
  simp only [Workspace.told, tracked, List.filterMap_append, all, Tracker.course, List.append_nil]

/-- An event that is not of progress. -/
theorem emit (w : Workspace) {e : Event} (other : e.progress? = none) : w.Called [] (w.emit e) := by
  refine still rfl ?_
  rw [Workspace.told, Workspace.emit, List.filterMap_append, List.filterMap_cons_none other]
  exact List.append_nil _

theorem publish (w : Workspace) (files : List (String × List Diagnostic)) :
    w.Called [] (w.publish files) := by
  refine still rfl ?_
  rw [Workspace.told, Workspace.publish, List.filterMap_append, List.filterMap_map]
  exact List.append_right_eq_self.mpr (List.filterMap_eq_nil_iff.mpr fun _ _ => rfl)

theorem stepCall (w : Workspace) (client : ClientId) (call : Call) :
    w.Called [] (w.stepCall client call).1 := by
  unfold Workspace.stepCall
  cases w.clients[client]? with
  | none => exact refl w
  | some c =>
    have stepped : w.Called [] { w with clients := w.clients.set client (c.step call).1 } :=
      still rfl rfl
    dsimp only
    split
    · exact stepped.trans (emit _ rfl)
    · exact stepped

theorem probed (w : Workspace) (client : ClientId) (s : Start) (again : Bool)
    (r : Except EngineError Reply) : w.Called [] (w.probed client s again r).1 := by
  cases r with
  | ok reply => exact refl w
  | error e =>
    unfold Workspace.probed
    dsimp only
    split
    · exact refl w
    · exact emit w rfl

theorem answered (w : Workspace) (e : Errand) (r : Except EngineError Reply) :
    w.Called [] (w.answered e r).1 := by
  have published (files : Report → List (String × List Diagnostic)) :
      w.Called [] (w.publishOutput files r).1 := by
    unfold publishOutput
    split
    · split
      · exact publish w _
      · exact refl w
    · exact refl w
  unfold Workspace.answered
  split
  · exact published _
  · exact published _
  all_goals exact refl w

theorem commit (w : Workspace) (s : Start) (r : Except EngineError ClientId) :
    w.Called [] (w.commit s r).1 := by
  unfold Workspace.commit
  split
  · exact refl w
  split
  · exact still rfl rfl
  · split <;> exact still rfl rfl

theorem begin (w : Workspace) (e : Errand) (held : List OperationId) :
    w.Called ((Task.mk held (.begin e)).call? w.project).toList (w.begin e).1 := by
  cases e with
  | install => exact call w (.enqueue .system)
  | look document => exact call w (.narrow ⟨document⟩)
  | shutdown => exact still rfl rfl
  | _ => exact refl w

/-- A task that goes on makes the call of its point. -/
theorem advance (w : Workspace) (t : Task) :
    w.Called (t.call? w.project).toList (w.advance t).1 := by
  obtain ⟨held, point⟩ := t
  cases point with
  | begin e => exact begin w e held
  | takeOver => exact still rfl rfl
  | announce s => exact (call w (.enqueue .system)).trans (still rfl rfl)
  | copySettings => exact emit w rfl
  | save => exact still rfl rfl
  | tell c =>
    cases c with
    | linter => exact refl w
    | _ => exact emit w rfl
  | commit s r => exact commit w s r
  | noEngine s => exact emit w rfl
  | seek e =>
    simp only [Workspace.advance]
    split <;> exact refl w
  | enter e client => exact call w (.enqueue _)
  | asking client question next =>
    cases question with
    | done r =>
      cases next with
      | probe s again => exact probed w client s again r
      | errand e => exact answered w e r
    | _ => exact stepCall w client _
  | quiet => exact call w .clear
  | leave o =>
    cases held with
    | nil => exact refl w
    | cons id held => exact call w (.dequeue id)
  | _ => exact refl w

theorem receive (w : Workspace) (t : Task) (a : Answer) : w.Called [] (w.receive t a).1 := by
  unfold Workspace.receive
  dsimp only
  split
  case h_6 | h_8 | h_9 | h_10 => exact refl w
  case h_7 => exact still rfl rfl
  all_goals exact emit w rfl

theorem finish (w : Workspace) (client : ClientId) (kept : Kept) (n : Nat)
    (r : Except EngineError String) : w.Called [] (w.finish client kept n r) := by
  unfold Workspace.finish
  split
  · exact refl w
  · exact still rfl rfl

theorem abandon (w : Workspace) (t : Task) :
    w.Called (t.held.map .dequeue) (w.abandon t) := by
  unfold Workspace.abandon
  induction t.held generalizing w with
  | nil => exact refl w
  | cons id held ih => exact (call w (.dequeue id)).trans (ih (w.dequeue id))

end Called

end Workspace

/-- What calls make of the runs that a task holds: it holds those that it starts, and lets go those
that it ends. -/
inductive Task.Deal : List OperationId → List TrackerCall → List OperationId → Prop
  | stay {held : List OperationId} : Deal held [] held
  | start {held : List OperationId} (id : OperationId) : Deal held [.enqueue id] (id :: held)
  | finish {held : List OperationId} (id : OperationId) : Deal (id :: held) [.dequeue id] held
  | look {held : List OperationId} (id : OperationId) : Deal held [.narrow id] held
  | hush {held : List OperationId} : Deal held [.clear] held
  | drop {held : List OperationId} : Deal held (held.map .dequeue) []

namespace Task

theorem foldl_dequeue (held : List OperationId) (id : OperationId) (runs : Nat) :
    (held.map TrackerCall.dequeue).foldl (TrackerCall.count id) runs = runs - held.count id := by
  induction held generalizing runs with
  | nil => rfl
  | cons other held ih =>
    rw [List.map_cons, List.foldl_cons, ih, List.count_cons, TrackerCall.count]
    by_cases same : other = id
    · simp only [same, if_true, beq_self_eq_true]
      omega
    · simp [same]

/-- The runs that count are held, by the task or by others. -/
theorem Deal.count_le {held held' : List OperationId} {calls : List TrackerCall}
    (deal : Deal held calls held') {id : OperationId} {runs others : Nat}
    (short : runs ≤ others + held.count id) :
    calls.foldl (TrackerCall.count id) runs ≤ others + held'.count id := by
  cases deal with
  | stay | look => exact short
  | start other =>
    simp only [List.foldl_cons, List.foldl_nil, TrackerCall.count, List.count_cons, beq_iff_eq]
    split <;> omega
  | finish other =>
    simp only [List.foldl_cons, List.foldl_nil, TrackerCall.count]
    rw [List.count_cons] at short
    by_cases same : other = id
    · simp only [same, beq_self_eq_true, if_true] at short ⊢
      omega
    · simpa [same] using short
  | hush => exact Nat.zero_le _
  | drop =>
    rw [foldl_dequeue, List.count_nil]
    omega

variable {t : Task}

theorem call?_eq_clear_iff {project : Path} : t.call? project = some .clear ↔ t.point = .quiet := by
  unfold call?
  split <;> simp_all

theorem deal_advance (tidy : t.Tidy) (w : Workspace) :
    Deal t.held (t.call? w.project).toList (w.advance t).2.held := by
  obtain ⟨held, point⟩ := t
  cases point with
  | begin e =>
    obtain rfl : held = [] := tidy rfl
    cases e with
    | install => exact .start _
    | look => exact .look _
    | _ => exact .stay
  | announce | enter => exact .start _
  | tell c => cases c <;> exact .stay
  | seek e =>
    simp only [Workspace.advance]
    split <;> exact .stay
  | asking client call next =>
    cases call with
    | done r => cases next <;> exact .stay
    | _ => exact .stay
  | quiet => exact .hush
  | leave o =>
    cases held with
    | nil => exact .stay
    | cons id held => exact .finish id
  | _ => exact .stay

theorem held_receive (w : Workspace) (t : Task) (a : Answer) :
    (w.receive t a).2.held = t.held := by
  unfold Workspace.receive
  dsimp only
  split <;> rfl

end Task

namespace Site

/-- The runs that are held by tasks. -/
def held (s : Site) : List OperationId := s.tasks.flatMap fun t => (t.map Task.held).getD []

/-- Whether all tasks have come to an outcome or are gone. -/
def isOver (s : Site) : Bool := s.tasks.all fun t => t.all fun t => t.point.outcome?.isSome

/-- The calls of the tracker that a move makes. -/
def callsOf (s : Site) : Move → List TrackerCall
  | .advance n => ((s.task? n).bind (Task.call? s.workspace.project)).toList
  | .abandon n => ((s.task? n).map fun t => t.held.map .dequeue).getD []
  | _ => []

/-- The calls of the tracker that moves make. -/
def calls (s : Site) : List Move → List TrackerCall
  | [] => []
  | m :: moves => s.callsOf m ++ (s.move m).calls moves

variable {s : Site}

theorem called_move (s : Site) (m : Move) :
    s.workspace.Called (s.callsOf m) (s.move m).workspace := by
  cases m with
  | spawn => exact .refl _
  | finish client kept n r => exact .finish s.workspace client kept n r
  | advance n =>
    cases found : s.task? n with
    | none =>
      rw [callsOf, found, move_of_absent found rfl]
      exact .refl _
    | some t =>
      rw [callsOf, found, move_advance found]
      exact .advance s.workspace t
  | receive n a =>
    cases found : s.task? n with
    | none =>
      rw [move_of_absent found rfl]
      exact .refl _
    | some t =>
      rw [move_receive found]
      exact .receive s.workspace t a
  | abandon n =>
    cases found : s.task? n with
    | none =>
      rw [callsOf, found, move_of_absent found rfl]
      exact .refl _
    | some t =>
      rw [callsOf, found, move_abandon found]
      exact .abandon s.workspace t

/-- What a site tells of progress is what a tracker tells under the calls of its tasks. -/
theorem called_run (s : Site) (moves : List Move) :
    s.workspace.Called (s.calls moves) (s.run moves).workspace := by
  induction moves generalizing s with
  | nil => exact .refl _
  | cons m moves ih => exact (called_move s m).trans (ih (s.move m))

/-- The runs held by a task, and those held by others, whatever becomes of the task. -/
theorem count_held_set {n : Nat} {entry : Option Task} (found : s.tasks[n]? = some entry)
    (id : OperationId) : ∃ others,
      s.held.count id = others + ((entry.map Task.held).getD []).count id ∧
      ∀ (w : Workspace) (entry' : Option Task), (Site.mk w (s.tasks.set n entry')).held.count id =
        others + ((entry'.map Task.held).getD []).count id := by
  obtain ⟨within, atN⟩ := List.getElem?_eq_some_iff.mp found
  have split : s.tasks = s.tasks.take n ++ entry :: s.tasks.drop (n + 1) := by
    rw [← atN, ← List.drop_eq_getElem_cons within, List.take_append_drop]
  have around (entry' : Option Task) :
      ((s.tasks.take n ++ entry' :: s.tasks.drop (n + 1)).flatMap fun t =>
        (t.map Task.held).getD []).count id =
      (((s.tasks.take n).flatMap fun t => (t.map Task.held).getD []).count id +
        ((s.tasks.drop (n + 1)).flatMap fun t => (t.map Task.held).getD []).count id) +
          ((entry'.map Task.held).getD []).count id := by
    simp only [List.flatMap_append, List.flatMap_cons, List.count_append]
    omega
  have now : s.held.count id = _ :=
    (congrArg (fun tasks => (held ⟨s.workspace, tasks⟩).count id) split).trans (around entry)
  refine ⟨_, now, fun w entry' => ?_⟩
  rw [held, List.set_eq_take_append_cons_drop, if_pos within]
  exact around entry'

/-- What holds of the runs of a site: each one that counts is held by a task. -/
structure Counted (s : Site) : Prop where
  tidy : ∀ t, some t ∈ s.tasks → t.Tidy
  sound : s.workspace.progress.Sound
  short : ∀ id, s.workspace.progress.runs id ≤ s.held.count id

namespace Counted

theorem new {w : Workspace} (idle : w.progress = .idle) : (Site.new w).Counted where
  tidy _ member := nomatch member
  sound := idle ▸ Tracker.idle_sound
  short _ := by
    rw [Site.new, idle]
    exact Nat.zero_le _

/-- A task has made calls of the tracker, or is gone. -/
theorem set (counted : s.Counted) {n : Nat} {t : Task} {entry : Option Task} {w : Workspace}
    {calls : List TrackerCall} (found : s.task? n = some t) (tidy : ∀ t', entry = some t' → t'.Tidy)
    (called : s.workspace.Called calls w)
    (deal : Task.Deal t.held calls ((entry.map Task.held).getD [])) :
    (Site.mk w (s.tasks.set n entry)).Counted where
  tidy t' member := by
    rcases List.mem_or_eq_of_mem_set member with before | new
    · exact counted.tidy t' before
    · exact tidy t' new.symm
  sound := by
    rw [called.progress]
    exact counted.sound.course calls
  short id := by
    obtain ⟨others, before, after⟩ := count_held_set (tasks_of_task? found) id
    have short := counted.short id
    rw [before] at short
    rw [after, called.progress, counted.sound.runs_course]
    exact deal.count_le short

theorem move (counted : s.Counted) (m : Move) : (s.move m).Counted := by
  have tidy {n : Nat} {t : Task} (found : s.task? n = some t) : t.Tidy :=
    counted.tidy t (List.mem_of_getElem? (tasks_of_task? found))
  cases m with
  | spawn e =>
    refine ⟨fun t member => ?_, counted.sound, fun id => ?_⟩
    · rcases List.mem_append.mp member with before | new
      · exact counted.tidy t before
      · obtain rfl := Option.some.inj (List.mem_singleton.mp new)
        exact fun _ => rfl
    · have same : (s.move (.spawn e)).held = s.held :=
        List.flatMap_append.trans (List.append_nil _)
      rw [same]
      exact counted.short id
  | finish client kept n r =>
    have called := Workspace.Called.finish s.workspace client kept n r
    refine ⟨counted.tidy, ?_, fun id => ?_⟩
    · exact called.progress ▸ counted.sound
    · exact called.progress ▸ counted.short id
  | advance n =>
    cases found : s.task? n with
    | none =>
      rw [move_of_absent found rfl]
      exact counted
    | some t =>
      rw [move_advance found]
      exact counted.set found
        (fun t' same => Option.some.inj same ▸ s.workspace.advance_tidy (tidy found))
        (.advance s.workspace t) (Task.deal_advance (tidy found) s.workspace)
  | receive n a =>
    cases found : s.task? n with
    | none =>
      rw [move_of_absent found rfl]
      exact counted
    | some t =>
      rw [move_receive found]
      refine counted.set found
        (fun t' same => Option.some.inj same ▸ s.workspace.receive_tidy (tidy found) a)
        (.receive s.workspace t a) ?_
      rw [Option.map_some, Option.getD_some, Task.held_receive]
      exact .stay
  | abandon n =>
    cases found : s.task? n with
    | none =>
      rw [move_of_absent found rfl]
      exact counted
    | some t =>
      rw [move_abandon found]
      exact counted.set found (fun _ => nofun) (.abandon s.workspace t) .drop

theorem run (counted : s.Counted) (moves : List Move) : (s.run moves).Counted := by
  induction moves generalizing s with
  | nil => exact counted
  | cons m moves ih => exact ih (counted.move m)

/-- When all tasks have come to an outcome or are gone, no run is held. -/
theorem held_of_isOver (counted : s.Counted) (ended : s.isOver = true) : s.held = [] := by
  refine List.flatMap_eq_nil_iff.mpr fun entry member => ?_
  cases entry with
  | none => rfl
  | some t =>
    refine counted.tidy t member ?_
    have done : t.point.outcome?.isSome = true := List.all_eq_true.mp ended _ member
    unfold Point.outcome? at done
    split at done
    · simp only [Point.rests, *]
    · cases done

end Counted

/-- What a move makes the tracker forget: the runs that are left when a shutdown goes on. -/
theorem forgotten_callsOf (s : Site) (m : Move) (id : OperationId) :
    s.workspace.progress.forgotten id (s.callsOf m) = 0 ↔
      ∀ n t, m = .advance n → s.task? n = some t → t.point = .quiet →
        s.workspace.progress.runs id = 0 := by
  cases m with
  | advance n =>
    cases found : s.task? n with
    | none =>
      rw [callsOf, found]
      refine iff_of_true rfl fun n' t same there => ?_
      cases same
      cases found.symm.trans there
    | some t =>
      have only : (∀ n' t', Move.advance n = .advance n' → s.task? n' = some t' →
          t'.point = .quiet → s.workspace.progress.runs id = 0) ↔
          (t.point = .quiet → s.workspace.progress.runs id = 0) := by
        constructor
        · exact fun all => all n t rfl found
        · intro own n' t' same there
          cases same
          cases found.symm.trans there
          exact own
      rw [only, callsOf, found, Option.bind_some]
      by_cases quiet : t.point = .quiet
      · rw [Task.call?_eq_clear_iff.mpr quiet]
        simp [Tracker.forgotten, quiet]
      · have kept : .clear ∉ (t.call? s.workspace.project).toList := fun member =>
          quiet (Task.call?_eq_clear_iff.mp (Option.mem_toList.mp member))
        exact iff_of_true (Tracker.forgotten_of_not_mem kept) fun same => absurd same quiet
  | abandon n =>
    refine iff_of_true (Tracker.forgotten_of_not_mem fun member => ?_) fun _ _ => Move.noConfusion
    cases found : s.task? n <;> simp [callsOf, found] at member
  | _ => exact iff_of_true rfl fun _ _ => Move.noConfusion

theorem forgotten_calls (s : Site) (moves : List Move) (id : OperationId) :
    s.workspace.progress.forgotten id (s.calls moves) = 0 ↔
      ∀ before n t, before ++ [.advance n] <+: moves → (s.run before).task? n = some t →
        t.point = .quiet → (s.run before).workspace.progress.runs id = 0 := by
  induction moves generalizing s with
  | nil =>
    refine iff_of_true rfl fun before n t part => ?_
    exact absurd (List.prefix_nil.mp part) (List.append_ne_nil_of_right_ne_nil _ nofun)
  | cons m moves ih =>
    rw [calls, Tracker.forgotten_append, Nat.add_eq_zero_iff, forgotten_callsOf,
      ← (called_move s m).progress, ih (s.move m)]
    constructor
    · rintro ⟨first, later⟩ before n t part
      cases before with
      | nil =>
        obtain ⟨same, _⟩ := List.cons_prefix_cons.mp part
        exact first n t same.symm
      | cons m' before =>
        obtain ⟨rfl, rest⟩ := List.cons_prefix_cons.mp part
        exact later before n t rest
    · intro all
      refine ⟨fun n t same => ?_, fun before n t part => ?_⟩
      · exact all [] n t (same ▸ List.cons_prefix_cons.mpr ⟨rfl, List.nil_prefix⟩)
      · exact all (m :: before) n t (List.cons_prefix_cons.mpr ⟨rfl, part⟩)

theorem count_told (events : List Event) (e : ProgressEvent) :
    events.count (.progress e) = (events.filterMap Event.progress?).count e := by
  rw [List.count_filterMap]
  exact List.countP_congr fun event _ => by cases event <;> simp [Event.progress?]

/-- The starts and ends of runs that the editor is told, whatever happens in a site. At no time were
more ends told than starts. Every run that counts is held by a task, and none is once all tasks have
come to an outcome or are gone. When no run is held any more, as many ends as starts were told of an
operation just when it had no run left whenever a shutdown made the tracker forget its runs. -/
theorem starts_and_ends (project : Path) (defaults : Defaults) (files : FileTree)
    (moves : List Move) (id : OperationId) :
    let first := Site.new (.new project defaults files)
    let s := first.run moves
    (∀ told, told <+: s.workspace.events →
      told.count (.progress (.operation id false)) ≤
        told.count (.progress (.operation id true))) ∧
    s.workspace.progress.runs id ≤ s.held.count id ∧
    (s.isOver = true → s.held = []) ∧
    (s.held = [] →
      (s.workspace.events.count (.progress (.operation id true)) =
          s.workspace.events.count (.progress (.operation id false)) ↔
        ∀ before n t, before ++ [.advance n] <+: moves → (first.run before).task? n = some t →
          t.point = .quiet → (first.run before).workspace.progress.runs id = 0)) := by
  intro first s
  have counted : s.Counted := (Counted.new rfl : first.Counted).run moves
  have called := called_run first moves
  have told : s.workspace.told = (Tracker.idle.course (first.calls moves)).2 := called.told
  refine ⟨fun front part => ?_, counted.short id, counted.held_of_isOver, fun ended => ?_⟩
  · rw [count_told, count_told]
    have part' : front.filterMap Event.progress? <+: (Tracker.idle.course (first.calls moves)).2 :=
      told ▸ part.filterMap _
    exact (Tracker.idle_sound.ended_le _ id part').trans (Nat.le_of_eq (Nat.zero_add _))
  · have balance := Tracker.idle_sound.balance_course (first.calls moves) id
    have short := counted.short id
    rw [ended, List.count_nil, called.progress] at short
    rw [← forgotten_calls, count_told, count_told]
    have fresh : Tracker.idle.runs id = 0 := rfl
    change s.workspace.told.count _ = s.workspace.told.count _ ↔
      Tracker.idle.forgotten id (first.calls moves) = 0
    rw [told]
    have spent : (Tracker.idle.course (first.calls moves)).1.runs id ≤ 0 := short
    omega

/-- A site that starts a session. -/
def startingSite : Site := .new (.new (.ofText "/p") (.builtIn ⟨[]⟩) ⟨[], []⟩)

/-- The moves of a start up to where it asks for the version. -/
def untilAsked : List Move :=
  [.spawn (.start (.ofDefaults (.builtIn ⟨[]⟩))), .advance 0, .advance 0, .advance 0, .advance 0]

/-- The moves of a start that is told no version. -/
def untilRefused : List Move :=
  [.advance 0, .finish 0 .version 0 (.error .cancelled), .advance 0, .advance 0, .advance 0,
    .advance 0, .advance 0]

def untilShut : List Move := [.spawn .shutdown, .advance 1, .advance 1]

theorem told_of_shutdown_afterwards :
    let s := startingSite.run (untilAsked ++ untilRefused ++ untilShut)
    s.held = [] ∧ s.workspace.events.count (.progress (.operation .system true)) = 1 ∧
      s.workspace.events.count (.progress (.operation .system false)) = 1 := by
  obtain ⟨_, _, emptied, told⟩ := starts_and_ends (.ofText "/p") (.builtIn ⟨[]⟩) ⟨[], []⟩
    (untilAsked ++ untilRefused ++ untilShut) .system
  have ended := emptied (by decide +kernel)
  have started : (startingSite.run (untilAsked ++ untilRefused ++ untilShut)).workspace.events.count
      (.progress (.operation .system true)) = 1 := by decide +kernel
  have kept : startingSite.workspace.progress.forgotten .system
      (startingSite.calls (untilAsked ++ untilRefused ++ untilShut)) = 0 := by decide +kernel
  have same := (told ended).mpr ((forgotten_calls _ _ _).mp kept)
  exact ⟨ended, started, same.symm.trans started⟩

/-- The end of a start that is under way as the session is shut down is not told. -/
theorem not_ended_after_shutdown :
    ¬∀ (project : Path) (defaults : Defaults) (files : FileTree) (moves : List Move)
        (id : OperationId),
      let s := (Site.new (.new project defaults files)).run moves
      s.isOver = true → s.workspace.events.count (.progress (.operation id true)) =
        s.workspace.events.count (.progress (.operation id false)) := by
  intro all
  have same := all (.ofText "/p") (.builtIn ⟨[]⟩) ⟨[], []⟩
    (untilAsked ++ untilShut ++ untilRefused) .system (by decide +kernel)
  revert same
  decide +kernel

end Site

end LintBridge
