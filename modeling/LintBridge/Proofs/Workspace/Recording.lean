import LintBridge.Proofs.Workspace.Records
import LintBridge.Proofs.Workspace.Session

namespace LintBridge

/-- Whether an event tells the editor what engine there is. -/
def Event.isNotice : Event → Bool
  | noEngine | saveSettings .. => true
  | _ => false

/-- Where the engine of a start is, and its mode. -/
def Start.engine (s : Start) : Path × Mode := (s.settings.engineDir, s.settings.mode)

/-- The engine that a start is to record: one that it has installed and that has told its
version. -/
def Point.proven? : Point → Option (Path × Mode)
  | asking _ (.done (.ok _)) (.probe s true) | load (.bootstrap s _) => some s.engine
  | _ => none

theorem Point.proven?_of_going {client : ClientId} {call : Call} (going : ∀ r, call ≠ .done r)
    (next : Next) : (asking client call next).proven? = none := by
  cases call with
  | done r => exact absurd rfl (going r)
  | _ => rfl

/-- Whether a start has begun to record its engine at a point, and is not done with that. -/
def Point.records : Point → Bool
  | save (.bootstrap _ _) _ | tell (.bootstrap _ _) => true
  | _ => false

namespace Workspace

/-- What the editor has been told of engines so far. -/
def notices (w : Workspace) : List Event := w.events.filter Event.isNotice

variable {w : Workspace}

theorem notices_emit (e : Event) :
    (w.emit e).notices = w.notices ++ if e.isNotice then [e] else [] := by
  rw [notices, emit, List.filter_append, List.filter_cons, List.filter_nil]
  rfl

theorem notices_emit_of_not {e : Event} (other : e.isNotice = false) :
    (w.emit e).notices = w.notices := by
  rw [notices_emit, other, if_neg Bool.false_ne_true, List.append_nil]

@[simp] theorem notices_tracked (t : Tracked) : (w.tracked t).notices = w.notices := by
  have none : (t.events.map Event.progress).filter Event.isNotice = [] := by
    refine List.filter_eq_nil_iff.mpr fun e member => ?_
    obtain ⟨_, _, rfl⟩ := List.mem_map.mp member
    exact Bool.false_ne_true
  rw [notices, tracked, List.filter_append, none, List.append_nil, notices]

@[simp] theorem notices_enqueue (id : OperationId) : (w.enqueue id).notices = w.notices :=
  notices_tracked _

@[simp] theorem notices_dequeue (id : OperationId) : (w.dequeue id).notices = w.notices :=
  notices_tracked _

theorem notices_stepCall (client : ClientId) (call : Call) :
    (w.stepCall client call).1.notices = w.notices := by
  unfold stepCall
  cases w.clients[client]? with
  | none => rfl
  | some c =>
    dsimp only
    cases (c.step call).2.2 with
    | none => rfl
    | some command => exact notices_emit_of_not rfl

theorem notices_abandon (t : Task) : (w.abandon t).notices = w.notices := by
  unfold abandon
  induction t.held generalizing w with
  | nil => rfl
  | cons id held ih => rw [List.foldl_cons, ih, notices_dequeue]

end Workspace

/-- What the editor is told of an engine that a start has to record. -/
def recordNotices (engine : Option (Path × Mode)) : List Event :=
  (engine.map fun e => .saveSettings e.1 e.2).toList

/-- What a start saves that has an engine to record: a file with its mode, once at most. -/
inductive Saves : Option (Path × Mode) → List ProjectConfig → Prop
  | nothing {engine} : Saves engine []
  | once {dir mode c} : c.mode = some mode → Saves (some (dir, mode)) [c]

theorem Saves.eq_nil {saved : List ProjectConfig} (saves : Saves none saved) : saved = [] := by
  cases saves
  rfl

theorem Saves.mode {saved : List ProjectConfig} {dir : Path} {mode : Mode}
    (saves : Saves (some (dir, mode)) saved) : ∀ c ∈ saved, c.mode = some mode := by
  cases saves with
  | nothing => nofun
  | once same => exact fun c member => List.mem_singleton.mp member ▸ same

/-- How far a start of a number has come: the engine that it has to record, once that has told its
version, what it has told the editor and what it has saved by then. -/
inductive Unwinds (g : Nat) :
    Point → Option (Path × Mode) → List Event → List ProjectConfig → Prop
  | announce {s} : s.generation = g → Unwinds g (.announce s) none [] []
  | policy {s} : s.generation = g → Unwinds g (.policy (.bootstrap s)) none [] []
  | installing {s r} : s.generation = g → Unwinds g (.installing (.bootstrap s) r) none [] []
  | asking {client call s again} : s.generation = g →
      Unwinds g (.asking client call (.probe s again)) none [] []
  | load {s client engine} : s.generation = g → engine.or (some s.engine) = some s.engine →
      Unwinds g (.load (.bootstrap s client)) engine [] []
  | save {s client c} : s.generation = g → c.mode = some s.settings.mode →
      Unwinds g (.save (.bootstrap s client) c) (some s.engine) [] []
  | tell {s client saved} : s.generation = g → Saves (some s.engine) saved →
      Unwinds g (.tell (.bootstrap s client)) (some s.engine) [] saved
  | commit {s result engine saved} : s.generation = g → Saves engine saved →
      Unwinds g (.commit s result) engine (recordNotices engine) saved
  | leave {point o engine saved} : point = .leave o ∨ point = .done o → Saves engine saved →
      Unwinds g point engine (recordNotices engine) saved

section Steps

variable {w : Workspace} {g : Nat} {t : Task} {engine : Option (Path × Mode)} {told : List Event}
  {saved : List ProjectConfig}

theorem Unwinds.saves {point : Point} (stands : Unwinds g point engine told saved) :
    Saves engine saved := by
  cases stands with
  | tell _ saves | commit _ saves | leave _ saves => exact saves
  | _ => exact .nothing

/-- A start tells nothing but what it has to record. -/
theorem Unwinds.told_prefix {point : Point} (stands : Unwinds g point engine told saved) :
    told <+: recordNotices engine := by
  cases stands with
  | commit | leave => exact List.prefix_rfl
  | _ => exact List.nil_prefix

/-- A start that is at its end has told what it had to record. -/
theorem Unwinds.told_of_outcome? {point : Point} {o : Outcome}
    (stands : Unwinds g point engine told saved) (ended : point.outcome? = some o) :
    told = recordNotices engine := by
  cases stands with
  | leave => rfl
  | _ => cases ended

/-- What a start that was overtaken does as it goes on. -/
structure Unwinds.Goes (g : Nat) (w : Workspace) (t : Task) (engine : Option (Path × Mode))
    (told : List Event) (saved : List ProjectConfig) (w' : Workspace) (t' : Task) : Prop where
  files : w'.files = (t.point.draft?).elim w.files fun c => (c.save w.files w.project).1
  goes : ∃ more, w'.notices = w.notices ++ more ∧
    Unwinds g t'.point (engine.or t.point.proven?) (told ++ more) (saved ++ t.point.draft?.toList)

/-- A start that was overtaken goes on to its end as if it were not, and changes nothing there. -/
theorem Unwinds.advance (stands : Unwinds g t.point engine told saved)
    (overtaken : w.session.generation ≠ g) :
    Unwinds.Goes g w t engine told saved (w.advance t).1 (w.advance t).2 := by
  have silent {held held' : List OperationId} {point point' : Point} {w' : Workspace}
      (next : w.advance ⟨held, point⟩ = (w', ⟨held', point'⟩)) (same : w'.notices = w.notices)
      (files : w'.files = w.files) (none : point.draft? = none)
      (stands : Unwinds g point' (engine.or point.proven?) told saved) :
      Unwinds.Goes g w ⟨held, point⟩ engine told saved (w.advance ⟨held, point⟩).1
        (w.advance ⟨held, point⟩).2 := by
    rw [next]
    refine ⟨by rw [none]; exact files, [], by rw [same, List.append_nil], ?_⟩
    rw [none, Option.toList_none, List.append_nil, List.append_nil]
    exact stands
  obtain ⟨held, point⟩ := t
  dsimp only at stands
  cases stands with
  | @announce s number =>
    have same : ((w.enqueue .system).probe s false).1.notices = w.notices :=
      Workspace.notices_enqueue _
    exact silent rfl same rfl rfl (.asking number)
  | policy number => exact silent rfl rfl rfl rfl (.policy number)
  | installing number => exact silent rfl rfl rfl rfl (.installing number)
  | @asking client call s again number =>
    by_cases answered : ∃ r, call = .done r
    · obtain ⟨r, rfl⟩ := answered
      cases r with
      | ok reply =>
        cases again with
        | true => exact silent rfl rfl rfl rfl (.load number rfl)
        | false => exact silent rfl rfl rfl rfl (.commit number .nothing)
      | error e =>
        cases answered : w.probed client s again (.error e) with
        | mk w' point' =>
          have next : w.advance ⟨held, .asking client (.done (.error e)) (.probe s again)⟩ =
              (w', ⟨held, point'⟩) := by
            simp only [Workspace.advance, answered]
          simp only [Workspace.probed] at answered
          split at answered
          · cases answered
            exact silent next rfl rfl rfl (.commit number .nothing)
          · cases answered
            exact silent next (Workspace.notices_emit_of_not rfl) rfl rfl (.policy number)
    · have going : ∀ r, call ≠ .done r := fun r same => answered ⟨r, same⟩
      refine silent (w.advance_asking held client going _) (Workspace.notices_stepCall _ _)
        (Workspace.files_stepCall _ _) rfl ?_
      rw [Point.proven?_of_going going, Option.none_or]
      exact .asking number
  | @load s client engine number same =>
    cases applied : (Change.bootstrap s client).apply
        ((ProjectConfig.load w.files w.project).toOption.getD .empty) with
    | mk c changed =>
      have mode : c.mode = some s.settings.mode := by
        cases applied
        rfl
      cases changed with
      | true =>
        have next : w.advance ⟨held, .load (.bootstrap s client)⟩ =
            (w, ⟨held, .save (.bootstrap s client) c⟩) := by
          simp only [Workspace.advance, applied, if_true]
        exact silent next rfl rfl rfl (same ▸ .save number mode)
      | false =>
        have next : w.advance ⟨held, .load (.bootstrap s client)⟩ =
            (w, ⟨held, .tell (.bootstrap s client)⟩) := by
          simp only [Workspace.advance, applied, Bool.false_eq_true, if_false]
        exact silent next rfl rfl rfl (same ▸ .tell number .nothing)
  | @save s client c number mode =>
    exact ⟨rfl, [], (List.append_nil _).symm, .tell number (.once mode)⟩
  | @tell s client _ number saves =>
    have nothing : saved ++ (Point.tell (.bootstrap s client)).draft?.toList = saved :=
      List.append_nil saved
    exact ⟨rfl, [.saveSettings s.settings.engineDir s.settings.mode], Workspace.notices_emit _,
      nothing.symm ▸ .commit number saves⟩
  | @commit s result _ _ number saves =>
    have other : (w.session.generation != s.generation) = true := by
      simpa [number] using overtaken
    have next : w.advance ⟨held, .commit s result⟩ =
        (w, ⟨held, .leave (s.outcome w.session.phase)⟩) := by
      simp only [Workspace.advance, Workspace.commit, other, if_true]
    have same : engine.or (Point.commit s result).proven? = engine := Option.or_none
    exact silent next rfl rfl rfl (same.symm ▸ .leave (.inl rfl) saves)
  | @leave _ o _ _ last saves =>
    have none {point : Point} (last : point = .leave o ∨ point = .done o) :
        point.draft? = none ∧ point.proven? = none := by
      rcases last with rfl | rfl <;> exact ⟨rfl, rfl⟩
    have ends {point' : Point} (last' : point' = .leave o ∨ point' = .done o) :
        Unwinds g point' (engine.or point.proven?) (recordNotices engine) saved := by
      rw [(none last).2, Option.or_none]
      exact .leave last' saves
    rcases last with rfl | rfl
    · obtain ⟨w', held', point', next, same, last'⟩ := w.advance_leave held o
      rcases same with rfl | ⟨id, rfl⟩
      · exact silent next rfl rfl rfl (ends last')
      · exact silent next (Workspace.notices_dequeue id) rfl rfl (ends last')
    · exact silent rfl rfl rfl rfl (ends (.inr rfl))

/-- An answer brings a start further, but it tells and saves nothing. -/
theorem Unwinds.receive (stands : Unwinds g t.point engine told saved) (a : Answer) :
    (w.receive t a).1.files = w.files ∧ (w.receive t a).1.notices = w.notices ∧
      Unwinds g (w.receive t a).2.point engine told saved := by
  have still {held : List OperationId} {point : Point}
      (next : w.receive ⟨held, point⟩ a = (w, ⟨held, point⟩))
      (stands : Unwinds g point engine told saved) :
      (w.receive ⟨held, point⟩ a).1.files = w.files ∧
        (w.receive ⟨held, point⟩ a).1.notices = w.notices ∧
        Unwinds g (w.receive ⟨held, point⟩ a).2.point engine told saved := by
    rw [next]
    exact ⟨rfl, rfl, stands⟩
  obtain ⟨held, point⟩ := t
  dsimp only at stands
  cases stands with
  | policy number =>
    cases a with
    | policy => exact ⟨rfl, Workspace.notices_emit_of_not rfl, .installing number⟩
    | _ => exact ⟨rfl, rfl, .policy number⟩
  | installing number =>
    cases a with
    | installed r =>
      cases r with
      | ok path => exact ⟨rfl, rfl, .asking number⟩
      | error e => exact ⟨rfl, rfl, .commit number .nothing⟩
    | _ => exact ⟨rfl, rfl, .installing number⟩
  | asking number => cases a <;> exact ⟨rfl, rfl, .asking number⟩
  | announce number => exact still (by cases a <;> rfl) (.announce number)
  | load number same => exact still (by cases a <;> rfl) (.load number same)
  | save number mode => exact still (by cases a <;> rfl) (.save number mode)
  | tell number saves => exact still (by cases a <;> rfl) (.tell number saves)
  | commit number saves => exact still (by cases a <;> rfl) (.commit number saves)
  | leave last saves =>
    refine still ?_ (.leave last saves)
    rcases last with rfl | rfl <;> cases a <;> rfl

/-- A task at work on a start that has not begun to record. -/
theorem Unwinds.of_start {point : Point} {s : Start} (start : point.stake.start? = some s)
    (before : point.records = false) : Unwinds s.generation point none [] [] := by
  cases point with
  | announce => cases start; exact .announce rfl
  | policy p =>
    cases p with
    | bootstrap => cases start; exact .policy rfl
    | renewal => cases start
  | installing p r =>
    cases p with
    | bootstrap => cases start; exact .installing rfl
    | renewal => cases start
  | asking client call next =>
    cases next with
    | probe => cases start; exact .asking rfl
    | errand => cases start
  | load c =>
    cases c with
    | bootstrap => cases start; exact .load rfl rfl
    | _ => cases start
  | save c _ | tell c =>
    cases c with
    | bootstrap => cases before
    | _ => cases start
  | commit s result => cases result <;> cases start <;> exact .commit rfl .nothing
  | begin e => cases e <;> cases start
  | _ => cases start

end Steps

namespace Site

/-- What a task does by its own moves in the course of some. -/
def ofTask {α : Type} (n : Nat) (f : Site → Move → List α) : Site → List Move → List α
  | _, [] => []
  | s, m :: moves => (if m.task? = some n then f s m else []) ++ ofTask n f (s.move m) moves

/-- What a move tells the editor of engines. -/
def tells (s : Site) (m : Move) : List Event :=
  (s.move m).workspace.notices.drop s.workspace.notices.length

/-- What a move saves in the file of the project. -/
def saves (s : Site) : Move → List ProjectConfig
  | .advance n => (s.draft? n).toList
  | _ => []

/-- The engine that a start has to record from a move on. -/
def proves (s : Site) : Move → List (Path × Mode)
  | .advance n => ((s.task? n).bind fun t => t.point.proven?).toList
  | _ => []

/-- What a task tells the editor of engines in the course of some moves. -/
def toldBy (n : Nat) (s : Site) (moves : List Move) : List Event := ofTask n tells s moves

/-- What a task saves in the file of the project in the course of some moves. -/
def savedBy (n : Nat) (s : Site) (moves : List Move) : List ProjectConfig := ofTask n saves s moves

/-- The engine that a start comes to have to record in the course of some moves. -/
def provenBy (n : Nat) (s : Site) (moves : List Move) : Option (Path × Mode) :=
  (ofTask n proves s moves).head?

/-- The moves of a task leave the files as they are. -/
def LeavesFiles (n : Nat) : Site → List Move → Prop
  | _, [] => True
  | s, m :: moves =>
    (m.task? = some n → (s.move m).workspace.files = s.workspace.files) ∧
      LeavesFiles n (s.move m) moves

/-- How far a start of a number has come in a site; one that is gone came as far as it had when it
was abandoned. -/
def Unwinds (g : Nat) (entry : Option Task) (engine : Option (Path × Mode)) (told : List Event)
    (saved : List ProjectConfig) : Prop :=
  match entry with
  | some t => LintBridge.Unwinds g t.point engine told saved
  | none => ∃ point, LintBridge.Unwinds g point engine told saved

variable {s : Site} {m : Move} {n g : Nat} {entry : Option Task} {engine : Option (Path × Mode)}
  {told : List Event} {saved : List ProjectConfig}

theorem Unwinds.point (stands : Unwinds g entry engine told saved) :
    ∃ point, LintBridge.Unwinds g point engine told saved := by
  cases entry with
  | some t => exact ⟨t.point, stands⟩
  | none => exact stands

theorem tells_eq {more : List Event}
    (same : (s.move m).workspace.notices = s.workspace.notices ++ more) : s.tells m = more := by
  rw [tells, same, List.drop_left]

theorem tells_eq_nil (same : (s.move m).workspace.notices = s.workspace.notices) :
    s.tells m = [] := tells_eq (same.trans (List.append_nil _).symm)

/-- Only a move on is one from which a task has something to record, or that saves. -/
theorem proves_and_saves (own : m.task? = some n) (other : m ≠ .advance n ∨ s.task? n = none) :
    s.proves m = [] ∧ s.saves m = [] := by
  cases m with
  | advance =>
    cases own
    have absent := other.resolve_left (absurd rfl)
    simp only [proves, saves, draft?, absent, Option.bind_none, Option.toList_none, and_self]
  | spawn | finish => cases own
  | _ => exact ⟨rfl, rfl⟩

/-- A move of its own takes a start that was overtaken one step on. -/
theorem Unwinds.own (atN : s.tasks[n]? = some entry) (stands : Unwinds g entry engine told saved)
    (overtaken : s.workspace.session.generation ≠ g) (own : m.task? = some n) :
    (∃ entry', (s.move m).tasks[n]? = some entry' ∧
      Unwinds g entry' (engine.or (s.proves m).head?) (told ++ s.tells m) (saved ++ s.saves m)) ∧
      (s.saves m = [] → (s.move m).workspace.files = s.workspace.files) := by
  have within : n < s.tasks.length := (List.getElem?_eq_some_iff.mp atN).1
  have after (t : Option Task) : (s.tasks.set n t)[n]? = some t := List.getElem?_set_self within
  have silent (other : m ≠ .advance n ∨ s.task? n = none) {entry' : Option Task}
      (tells : (s.move m).workspace.notices = s.workspace.notices)
      (stands : Unwinds g entry' engine told saved) :
      Unwinds g entry' (engine.or (s.proves m).head?) (told ++ s.tells m) (saved ++ s.saves m) := by
    obtain ⟨proves, saves⟩ := proves_and_saves own other
    rw [proves, saves, tells_eq_nil tells, List.append_nil, List.append_nil, List.head?_nil,
      Option.or_none]
    exact stands
  cases own_of_task? atN own with
  | gone same =>
    have absent := task?_of_tasks atN
    refine ⟨⟨none, same.symm ▸ atN, silent (.inr absent) ?_ stands⟩, fun _ => ?_⟩ <;> rw [same]
  | @advance t same =>
    have found := task?_of_tasks atN
    obtain ⟨files, more, said, next⟩ :=
      LintBridge.Unwinds.advance (w := s.workspace) stands overtaken
    have proves : (s.proves (.advance n)).head? = t.point.proven? := by
      rw [Site.proves, found, Option.bind_some]
      cases t.point.proven? <;> rfl
    have saves : s.saves (.advance n) = t.point.draft?.toList := by
      rw [Site.saves, draft?, found, Option.bind_some]
    have tells : s.tells (.advance n) = more := tells_eq (by rw [same]; exact said)
    rw [proves, saves, tells, same]
    refine ⟨⟨_, after _, next⟩, fun none => ?_⟩
    rw [Option.toList_eq_nil_iff.mp none] at files
    exact files
  | @receive t a same =>
    obtain ⟨files, quiet, next⟩ := LintBridge.Unwinds.receive (w := s.workspace) stands a
    have other : Move.receive n a ≠ .advance n := by rintro ⟨⟩
    refine ⟨⟨some _, ?_, silent (.inl other) ?_ next⟩, fun _ => ?_⟩
    · exact same ▸ after _
    · exact same ▸ quiet
    · exact same ▸ files
  | @abandon t same =>
    have other : Move.abandon n ≠ .advance n := by rintro ⟨⟩
    refine ⟨⟨none, ?_, silent (.inl other) ?_ ⟨t.point, stands⟩⟩, fun _ => ?_⟩
    · exact same ▸ after none
    · exact same ▸ Workspace.notices_abandon t
    · exact same ▸ Workspace.files_abandon t

theorem generation_le_move (s : Site) (m : Move) :
    s.workspace.session.generation ≤ (s.move m).workspace.session.generation :=
  (s.move_step m).generation_le

/-- However a start goes on that was overtaken, it tells and saves what it has to record, if it
comes to have something to record. -/
theorem Unwinds.run (atN : s.tasks[n]? = some entry) (stands : Unwinds g entry engine told saved)
    (overtaken : g < s.workspace.session.generation) (moves : List Move) :
    (∃ entry', (s.run moves).tasks[n]? = some entry' ∧
      Unwinds g entry' (engine.or (s.provenBy n moves)) (told ++ s.toldBy n moves)
        (saved ++ s.savedBy n moves)) ∧
      (s.savedBy n moves = [] → LeavesFiles n s moves) := by
  induction moves generalizing s entry engine told saved with
  | nil =>
    rw [provenBy, toldBy, savedBy, ofTask, ofTask, ofTask, List.head?_nil, Option.or_none,
      List.append_nil, List.append_nil]
    exact ⟨⟨entry, atN, stands⟩, fun _ => trivial⟩
  | cons m moves ih =>
    have still := Nat.lt_of_lt_of_le overtaken (generation_le_move s m)
    by_cases own : m.task? = some n
    · obtain ⟨⟨entry', atN', stands'⟩, files⟩ := stands.own atN (Nat.ne_of_gt overtaken) own
      obtain ⟨⟨entry'', atN'', stands''⟩, leaves⟩ := ih atN' stands' still
      rw [Option.or_assoc, List.append_assoc, List.append_assoc] at stands''
      simp only [provenBy, toldBy, savedBy, ofTask, if_pos own, List.head?_append]
      refine ⟨⟨entry'', atN'', stands''⟩, fun none => ?_⟩
      obtain ⟨now, later⟩ := List.append_eq_nil_iff.mp none
      exact ⟨fun _ => files now, leaves later⟩
    · obtain ⟨reaches, leaves⟩ := ih (tasks_move_of_ne atN own) stands still
      simp only [provenBy, toldBy, savedBy, ofTask, if_neg own, List.nil_append] at reaches leaves ⊢
      exact ⟨reaches, fun none => ⟨fun own' => absurd own' own, leaves none⟩⟩

end Site

/-- A start that another start or a shutdown has overtaken before it began to record, however it
goes on and whatever comes between. It never tells the editor that there is no engine. Until an
engine that it has installed tells its version it tells the editor nothing and leaves the files as
they are; but once one has, it records it as the latest start would: it saves no mode but that of
the engine and, unless it is abandoned before, tells the editor where the engine is. -/
theorem record_of_overtaken_start (project : Path) (defaults : Defaults) (files : FileTree)
    (before after : List Move) (n : Nat) (st : Start) :
    let later := (Site.new (.new project defaults files)).run before
    (later.task? n).bind Task.start? = some st →
    later.workspace.session.generation ≠ st.generation →
    (later.task? n).any (fun t => t.point.records) = false →
    .noEngine ∉ later.toldBy n after ∧
    (later.provenBy n after = none → later.toldBy n after = [] ∧ later.LeavesFiles n after) ∧
    ∀ dir mode, later.provenBy n after = some (dir, mode) →
      (∀ c ∈ later.savedBy n after, c.mode = some mode) ∧
      (((later.run after).outcome? n).isSome = true →
        later.toldBy n after = [.saveSettings dir mode]) := by
  intro later start overtaken unrecorded
  obtain ⟨t, found, starts⟩ := Option.bind_eq_some_iff.mp start
  rw [found, Option.any_some] at unrecorded
  have sound := (Site.run_reach _ before).sound (Workspace.new_sound project defaults files)
  have fits := sound.fits _ (List.mem_of_getElem? (Site.stake_of_task? found))
  have below : st.generation < later.workspace.session.generation :=
    Nat.lt_of_le_of_ne (fits.generation_le st starts) overtaken.symm
  have stands : Site.Unwinds st.generation (some t) none [] [] := .of_start starts unrecorded
  obtain ⟨⟨entry, atEnd, ends⟩, leaves⟩ := stands.run (Site.tasks_of_task? found) below after
  rw [Option.none_or, List.nil_append, List.nil_append] at ends
  obtain ⟨point, stage⟩ := ends.point
  refine ⟨fun told => ?_, fun nothing => ?_, fun dir mode proven => ⟨fun c member => ?_,
    fun ended => ?_⟩⟩
  · have recorded := stage.told_prefix.subset told
    rw [recordNotices, Option.mem_toList, Option.map_eq_some_iff] at recorded
    obtain ⟨_, _, other⟩ := recorded
    cases other
  · rw [nothing] at stage
    exact ⟨List.prefix_nil.mp stage.told_prefix, leaves stage.saves.eq_nil⟩
  · rw [proven] at stage
    exact stage.saves.mode c member
  · obtain ⟨o, outcome⟩ := Option.isSome_iff_exists.mp ended
    obtain ⟨t', atT, last⟩ := Option.bind_eq_some_iff.mp outcome
    rw [Site.task?_of_tasks atEnd] at atT
    subst atT
    rw [proven] at ends
    exact LintBridge.Unwinds.told_of_outcome? ends last

/-- A start that has found no engine and asks the editor how to load one, and another that takes
the session over meanwhile. -/
def overtakenStart (s : Settings) : List Move :=
  [.spawn (.start s), .advance 0, .advance 0, .advance 0, .advance 0, .advance 0,
    .finish 0 .version 0 (.error .malformedOutput), .advance 0, .advance 0,
    .spawn (.start s), .advance 1, .advance 1]

/-- The rest of that start, when the installer comes to a result and an engine that it has installed
tells its version. -/
def restOfStart (result : Except InstallError Path) : List Move :=
  [.receive 0 (.policy ⟨none, true⟩), .receive 0 (.installed result), .advance 0, .advance 0,
    .finish 1 .version 0 (.ok "1"), .advance 0, .advance 0, .advance 0, .advance 0, .advance 0,
    .advance 0, .advance 0, .advance 0]

/-- An overtaken start that installs an engine records it, and one that fails to tells nothing. -/
theorem overtakenStart_recorded :
    let s := Settings.ofDefaults (.builtIn ⟨[]⟩)
    let later := (Site.new (.new ⟨[]⟩ (.builtIn ⟨[]⟩) ⟨[], []⟩)).run (overtakenStart s)
    later.toldBy 0 (restOfStart (.ok ⟨[]⟩)) = [.saveSettings ⟨[]⟩ s.mode] ∧
    later.toldBy 0 (restOfStart (.error .client)) = [] ∧
    later.LeavesFiles 0 (restOfStart (.error .client)) := by
  have records (after : List Move) := record_of_overtaken_start ⟨[]⟩ (.builtIn ⟨[]⟩) ⟨[], []⟩
    (overtakenStart (.ofDefaults (.builtIn ⟨[]⟩))) after 0
    ⟨1, 1, .ofDefaults (.builtIn ⟨[]⟩), true, none⟩ rfl (by decide) rfl
  have ended : ((((Site.new (.new ⟨[]⟩ (.builtIn ⟨[]⟩) ⟨[], []⟩)).run
      (overtakenStart (.ofDefaults (.builtIn ⟨[]⟩)))).run
        (restOfStart (.ok ⟨[]⟩))).outcome? 0).isSome = true := by decide +kernel
  obtain ⟨_, _, told⟩ := records (restOfStart (.ok ⟨[]⟩))
  obtain ⟨_, silent, _⟩ := records (restOfStart (.error .client))
  exact ⟨(told ⟨[]⟩ _ rfl).2 ended, silent rfl⟩

/-- Not every start that was overtaken before it began to record leaves no record. -/
theorem not_silent_overtakenStart :
    ¬∀ (project : Path) (defaults : Defaults) (files : FileTree) (before after : List Move)
      (n : Nat) (st : Start),
      let later := (Site.new (.new project defaults files)).run before
      (later.task? n).bind Task.start? = some st →
      later.workspace.session.generation ≠ st.generation →
      (later.task? n).any (fun t => t.point.records) = false →
      later.toldBy n after = [] ∧ later.LeavesFiles n after := by
  intro all
  obtain ⟨silent, _⟩ := all ⟨[]⟩ (.builtIn ⟨[]⟩) ⟨[], []⟩
    (overtakenStart (.ofDefaults (.builtIn ⟨[]⟩))) (restOfStart (.ok ⟨[]⟩)) 0 _ rfl (by decide) rfl
  exact absurd silent (by decide)

end LintBridge
