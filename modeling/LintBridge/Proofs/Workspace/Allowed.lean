import LintBridge.Proofs.Files.Replacing
import LintBridge.Proofs.Workspace.Places

namespace LintBridge

namespace Settings

/-- Whether `force` is allowed and no trigger is listed twice. -/
def Proper (s : Settings) : Prop := .force ∈ s.run ∧ s.run.Nodup

/-- Settings as they come about: from defaults, or from what an editor sends. -/
inductive Given : Settings → Prop
  | defaults (d : Defaults) : Given (.ofDefaults d)
  | editor {env : Environment} {d : Defaults} {v : Json} {s : Settings} :
      ofJson env d v = .ok s → Given s

theorem mem_firsts {t : Trigger} {run : List Trigger} : t ∈ firsts run ↔ t ∈ run := by
  induction run with
  | nil => exact Iff.rfl
  | cons first run ih =>
    rw [firsts, List.mem_cons, List.mem_cons, List.mem_filter, ih]
    by_cases same : t = first
    · simp [same]
    · simp [same]

theorem nodup_firsts (run : List Trigger) : (firsts run).Nodup := by
  induction run with
  | nil => exact List.nodup_nil
  | cons first run ih =>
    refine List.nodup_cons.mpr ⟨fun member => ?_, ih.filter _⟩
    have other := (List.mem_filter.mp member).2
    simp at other

theorem proper_normalized (enabled : Bool) (run : List Trigger) (mode : Mode) (cliRoot : Path)
    (cliPath : Option Path) : (normalized enabled run mode cliRoot cliPath).Proper := by
  refine ⟨mem_firsts.mpr ?_, nodup_firsts _⟩
  split
  · rename_i listed
    exact List.contains_iff_mem.mp listed
  · exact List.mem_append_right _ (List.mem_singleton_self _)

theorem Given.proper {s : Settings} (given : s.Given) : s.Proper := by
  cases given with
  | defaults d => exact proper_normalized ..
  | @editor env d v s read =>
    obtain ⟨section', _, rfl⟩ := of_map read
    exact proper_normalized ..

theorem Proper.withInstalled {s : Settings} (proper : s.Proper) (mode : Mode) (path : Path) :
    (s.withInstalled mode path).Proper := proper

end Settings

theorem Start.IsOf.proper {s s' : Start} (of : s'.IsOf s) (proper : s.settings.Proper) :
    s'.settings.Proper := by
  rcases of with rfl | ⟨path, rfl⟩
  · exact proper
  · exact proper.withInstalled _ path

/-- The settings that a task may give to the session. -/
def Stake.settings? : Stake → Option Settings
  | heir s _ _ => some s
  | renewing s _ => some s
  | starting s => some s.settings
  | engaged s _ => some s.settings
  | _ => none

/-- Whether the settings of the session are proper, and those that it may be given. -/
structure View.Proper (v : View) : Prop where
  session : v.standing.session.settings.Proper
  stakes : ∀ k ∈ v.stakes, ∀ s ∈ k.settings?, s.Proper

theorem Stake.Step.proper {σ σ' : Standing} {k k' : Stake} {d : Option Deed}
    (step : Stake.Step σ k d σ' k') (session : σ.session.settings.Proper)
    (own : ∀ s ∈ k.settings?, s.Proper) :
    σ'.session.settings.Proper ∧ ∀ s ∈ k'.settings?, s.Proper := by
  cases step with
  | stay => exact ⟨session, own⟩
  | @takeOver s =>
    refine ⟨own s rfl, ?_⟩
    rintro _ ⟨⟩
    exact own s rfl
  | look =>
    refine ⟨session, ?_⟩
    rintro _ ⟨⟩
    exact session
  | @renew s _ mode path =>
    refine ⟨session, ?_⟩
    rintro _ ⟨⟩
    exact (own s rfl).withInstalled mode path
  | @engage s s' of =>
    refine ⟨session, ?_⟩
    rintro _ ⟨⟩
    exact of.proper (own s.settings rfl)
  | @lose s =>
    refine ⟨session, ?_⟩
    rintro _ ⟨⟩
    exact own s.settings rfl
  | @ready s => exact ⟨own s.settings rfl, nofun⟩
  | close => exact ⟨session, own⟩
  | _ => exact ⟨session, nofun⟩

theorem View.Step.proper {v v' : View} {d : Option (Option Nat × Deed)} (step : v.Step d v')
    (proper : v.Proper) (arriving : ∀ n s, d = some (some n, .arrive s) → s.Proper) :
    v'.Proper := by
  obtain ⟨session, stakes⟩ := proper
  -- a task either joins the others or goes on in its place
  have joined {k : Stake} (fresh : ∀ s ∈ k.settings?, s.Proper) :
      ∀ k' ∈ v.stakes ++ [k], ∀ s ∈ k'.settings?, s.Proper := by
    intro k' member
    rcases List.mem_append.mp member with before | new
    · exact stakes k' before
    · exact List.mem_singleton.mp new ▸ fresh
  have placed {n : Nat} {k : Stake} (fresh : ∀ s ∈ k.settings?, s.Proper) :
      ∀ k' ∈ v.stakes.set n k, ∀ s ∈ k'.settings?, s.Proper := by
    intro k' member
    rcases List.mem_or_eq_of_mem_set member with before | rfl
    · exact stakes k' before
    · exact fresh
  cases step with
  | stay => exact ⟨session, stakes⟩
  | close => exact ⟨session, stakes⟩
  | arrive s =>
    refine ⟨session, joined ?_⟩
    rintro _ ⟨⟩
    exact arriving _ s rfl
  | request => exact ⟨session, joined nofun⟩
  | join => exact ⟨session, joined nofun⟩
  | refuse => exact ⟨session, joined nofun⟩
  | act atN step =>
    obtain ⟨after, own⟩ := step.proper session (stakes _ (List.mem_of_getElem? atN))
    exact ⟨after, placed own⟩
  | drop => exact ⟨session, placed nofun⟩
  | mute => exact ⟨session, placed nofun⟩

/-- Why an errand analyzes, if it does. -/
def Errand.trigger? : Errand → Option Trigger
  | analyze t => some t
  | analyzeFile _ t => some t
  | _ => none

/-- Whether a task at a point will not come to be filtered. -/
def Point.Admitted : Point → Prop
  | begin e => e.trigger? = none
  | leave o => o ≠ .analysis .filtered
  | done o => o ≠ .analysis .filtered
  | _ => True

namespace Workspace

variable (w : Workspace)

theorem unavailable_ne_filtered (e : Errand) : e.unavailable ≠ .analysis .filtered := by
  cases e <;> exact nofun

theorem outcome_ne_filtered (s : Start) (p : Phase) : s.outcome p ≠ .analysis .filtered := by
  unfold Start.outcome
  split <;> exact nofun

theorem admitted_publishOutput (files : Report → List (String × List Diagnostic))
    (r : Except EngineError Reply) : (w.publishOutput files r).2.Admitted := by
  unfold publishOutput
  split
  · split <;> exact nofun
  · exact nofun

theorem admitted_answered (e : Errand) (r : Except EngineError Reply) :
    (w.answered e r).2.Admitted := by
  unfold answered
  split
  · exact admitted_publishOutput w _ _
  · exact admitted_publishOutput w _ _
  · exact nofun
  · trivial
  · exact nofun
  · exact nofun
  · exact nofun
  · exact nofun
  · exact unavailable_ne_filtered _

theorem admitted_probed (client : ClientId) (s : Start) (again : Bool)
    (r : Except EngineError Reply) : (w.probed client s again r).2.Admitted := by
  cases r with
  | ok reply => cases again <;> trivial
  | error e =>
    unfold probed
    dsimp only
    split <;> trivial

theorem admitted_commit (s : Start) (r : Except EngineError ClientId) :
    (w.commit s r).2.Admitted := by
  unfold commit
  split
  · exact outcome_ne_filtered s _
  split
  · exact outcome_ne_filtered s _
  · split
    · exact outcome_ne_filtered s _
    · trivial

theorem admitted_begin {e : Errand} (other : e.trigger? = none) : (w.begin e).2.point.Admitted := by
  cases e with
  | analyze | analyzeFile => cases other
  | look => exact nofun
  | _ => trivial

theorem admitted_advance {t : Task} (admitted : t.point.Admitted) :
    (w.advance t).2.point.Admitted := by
  obtain ⟨held, point⟩ := t
  cases point with
  | begin e => exact w.admitted_begin admitted
  | load c =>
    simp only [advance]
    split <;> trivial
  | tell c =>
    cases c with
    | linter =>
      intro same
      cases same
    | _ => trivial
  | commit s r => exact w.admitted_commit s r
  | noEngine s => exact outcome_ne_filtered s .error
  | seek e =>
    simp only [advance]
    split
    · exact unavailable_ne_filtered e
    · trivial
  | asking client call next =>
    cases call with
    | done r =>
      cases next with
      | probe s again => exact w.admitted_probed client s again r
      | errand e => exact w.admitted_answered e r
    | _ => trivial
  | quiet =>
    intro same
    cases same
  | leave o => cases held <;> exact admitted
  | done o => exact admitted
  | _ => trivial

theorem admitted_receive {t : Task} (admitted : t.point.Admitted) (a : Answer) :
    (w.receive t a).2.point.Admitted := by
  have failed (p : Purpose) (e : EngineError) : (p.failed e).Admitted := by
    cases p with
    | bootstrap => trivial
    | renewal => exact nofun
  unfold receive
  dsimp only
  split
  · trivial
  · trivial
  · trivial
  · trivial
  · trivial
  · exact failed _ _
  · trivial
  · trivial
  · trivial
  · exact admitted

end Workspace

namespace Site

/-- Settings arrive with the task that is to start the session. -/
theorem start_of_arrive {s : Site} {m : Move} {n : Nat} {st : Settings}
    (arrives : s.deed? m = some (some n, .arrive st)) : m = .spawn (.start st) := by
  cases does_of_deed? arrives with
  | arrive => rfl
  | own found does =>
    -- no task that goes on brings settings in
    unfold Workspace.deed? at does
    split at does
    · cases does
    · cases does
    · split at does
      · split at does
        · cases does
        · split at does <;> cases does
      · cases does
    · cases does
    · cases does

/-- Whatever happens in a site, the settings of its session stay proper. -/
theorem proper_run {s : Site} (proper : s.view.Proper) {moves : List Move}
    (given : ∀ st, .spawn (.start st) ∈ moves → st.Given) : (s.run moves).view.Proper := by
  induction moves generalizing s with
  | nil => exact proper
  | cons m moves ih =>
    refine ih ((s.move_step m).proper proper fun n st arrives => ?_) fun st member =>
      given st (List.mem_cons_of_mem _ member)
    exact (given st (start_of_arrive arrives ▸ List.mem_cons_self)).proper

/-- A task that is admitted does not come to be filtered, whatever happens. -/
theorem admitted_run {s : Site} {n : Nat} {entry : Option Task} (found : s.tasks[n]? = some entry)
    (admitted : ∀ t ∈ entry, t.point.Admitted) (moves : List Move) :
    (s.run moves).outcome? n ≠ some (.analysis .filtered) := by
  induction moves generalizing s entry with
  | nil =>
    intro filtered
    obtain ⟨t, there, last⟩ := Option.bind_eq_some_iff.mp filtered
    rw [run, List.foldl_nil, task?_of_tasks found] at there
    have spared := admitted t there
    cases point : t.point with
    | done o =>
      rw [point] at last spared
      exact spared (Option.some.inj last)
    | _ =>
      rw [point] at last
      cases last
  | cons m moves ih =>
    have within : n < s.tasks.length := (List.getElem?_eq_some_iff.mp found).1
    by_cases own : m.task? = some n
    · -- its own moves keep it admitted, those of others leave it where it stands
      cases own_of_task? found own with
      | gone same =>
        rw [run, List.foldl_cons, same]
        exact ih found admitted
      | @advance t same =>
        rw [run, List.foldl_cons, same]
        refine ih (List.getElem?_set_self within) ?_
        rintro _ ⟨⟩
        exact s.workspace.admitted_advance (admitted t rfl)
      | @receive t a same =>
        rw [run, List.foldl_cons, same]
        refine ih (List.getElem?_set_self within) ?_
        rintro _ ⟨⟩
        exact s.workspace.admitted_receive (admitted t rfl) a
      | abandon same =>
        rw [run, List.foldl_cons, same]
        exact ih (List.getElem?_set_self within) fun _ member => by cases member
    · exact ih (tasks_move_of_ne found own) admitted

section Filtering

variable {s : Site} {n : Nat} {e : Errand} {t : Trigger}

/-- What makes an analysis not run. -/
theorem filters_iff (w : Workspace) (t : Trigger) : w.filters t = true ↔
    w.session.settings.enabled = false ∨ t ∉ w.session.settings.run := by
  cases enabled : w.session.settings.enabled <;>
    simp [Workspace.filters, Settings.allows, enabled]

theorem advance_analysis (w : Workspace) (held : List OperationId) (why : e.trigger? = some t) :
    w.advance ⟨held, .begin e⟩ =
      (w, ⟨[], if w.filters t then .done (.analysis .filtered) else .seek e⟩) := by
  cases e with
  | analyze | analyzeFile =>
    cases why
    rfl
  | _ => cases why

theorem move_of_filtered (begun : s.task? n = some ⟨[], .begin e⟩) (why : e.trigger? = some t)
    (filtered : s.workspace.filters t = true) :
    s.move (.advance n) = s.put n (s.workspace, ⟨[], .done (.analysis .filtered)⟩) := by
  rw [move_advance begun, advance_analysis _ _ why, if_pos filtered]

theorem filtered_of_outcome (begun : s.task? n = some ⟨[], .begin e⟩) (why : e.trigger? = some t)
    {moves : List Move}
    (ended : ((s.move (.advance n)).run moves).outcome? n = some (.analysis .filtered)) :
    s.workspace.filters t = true := by
  cases filtered : s.workspace.filters t with
  | true => rfl
  | false =>
    have within := (List.getElem?_eq_some_iff.mp (tasks_of_task? begun)).1
    have next : s.move (.advance n) = s.put n (s.workspace, ⟨[], .seek e⟩) := by
      rw [move_advance begun, advance_analysis _ _ why, filtered]
      rfl
    rw [next] at ended
    refine absurd ended (admitted_run (List.getElem?_set_self within) ?_ moves)
    rintro _ ⟨⟩
    trivial

end Filtering

/-- In every site, the settings of the session allow `force` and list no trigger twice, as long as
sessions are started with settings that came about as settings do. So an analysis by force comes to
be filtered just when the settings are disabled. In any site at all, an analysis whose trigger is
not allowed is filtered where it begins, and nothing else changes. -/
theorem analyses_are_filtered (project : Path) (defaults : Defaults) (tree : FileTree)
    (before : List Move) (given : ∀ s, .spawn (.start s) ∈ before → s.Given) :
    let site := (Site.new (.new project defaults tree)).run before
    let settings := site.workspace.session.settings
    (.force ∈ settings.run ∧ settings.run.Nodup) ∧
    (∀ n e, site.task? n = some ⟨[], .begin e⟩ → e.trigger? = some .force →
      (settings.enabled = false →
        (site.move (.advance n)).outcome? n = some (.analysis .filtered)) ∧
      ∀ rest, ((site.move (.advance n)).run rest).outcome? n = some (.analysis .filtered) →
        settings.enabled = false) ∧
    ∀ (s : Site) n e t, s.task? n = some ⟨[], .begin e⟩ → e.trigger? = some t →
      let settings := s.workspace.session.settings
      (settings.enabled = false ∨ t ∉ settings.run →
        s.move (.advance n) = s.put n (s.workspace, ⟨[], .done (.analysis .filtered)⟩)) ∧
      ∀ rest, ((s.move (.advance n)).run rest).outcome? n = some (.analysis .filtered) →
        settings.enabled = false ∨ t ∉ settings.run := by
  intro site settings
  have first : (Site.new (.new project defaults tree)).view.Proper :=
    ⟨(Settings.Given.defaults defaults).proper, nofun⟩
  have proper : settings.Proper := (proper_run first given).session
  have forced : site.workspace.filters .force = true ↔ settings.enabled = false := by
    rw [filters_iff]
    exact ⟨fun why => why.resolve_right fun absent => absent proper.1, .inl⟩
  refine ⟨proper, fun n e begun why => ⟨fun disabled => ?_, fun rest ended => ?_⟩,
    fun s n e t begun why => ⟨fun filtered => ?_, fun rest ended => ?_⟩⟩
  · rw [move_of_filtered begun why (forced.mpr disabled), outcome?, task?_put_self begun]
    rfl
  · exact forced.mp (filtered_of_outcome begun why ended)
  · exact move_of_filtered begun why ((filters_iff _ t).mpr filtered)
  · exact (filters_iff _ t).mp (filtered_of_outcome begun why ended)

/-- A start that takes the session over before an analysis by force begins. -/
def startedFirst (s : Settings) : List Move :=
  [.spawn (.start s), .advance 0, .advance 0, .spawn (.analyze .force)]

theorem run_startedFirst (w : Workspace) (s : Settings) :
    let site := (Site.new w).run (startedFirst s)
    site.workspace.session.settings = s ∧ site.task? 1 = some ⟨[], .begin (.analyze .force)⟩ :=
  ⟨rfl, rfl⟩

theorem analyses_are_filtered_disabled :
    let defaults := Defaults.builtIn ⟨[]⟩
    ∃ s, s.Given ∧
      let site := (Site.new (.new (.ofText "/p") defaults ⟨[], []⟩)).run (startedFirst s)
      .force ∈ site.workspace.session.settings.run ∧
      (site.move (.advance 1)).outcome? 1 = some (.analysis .filtered) := by
  intro defaults
  let disabled := Settings.ofSection ⟨[]⟩ defaults ⟨some false, [], none, none, none⟩
  have given : disabled.Given :=
    @Settings.Given.editor ⟨[]⟩ defaults (.obj [("enable", .bool false)]) _ rfl
  have all : ∀ s, .spawn (.start s) ∈ startedFirst disabled → s.Given := by
    intro s member
    simp only [startedFirst, List.mem_cons, Move.spawn.injEq, Errand.start.injEq, reduceCtorEq,
      List.not_mem_nil, or_false] at member
    exact member ▸ given
  obtain ⟨⟨forced, _⟩, filtered, _⟩ :=
    analyses_are_filtered (.ofText "/p") defaults ⟨[], []⟩ (startedFirst disabled) all
  obtain ⟨settings, begun⟩ := run_startedFirst (.new (.ofText "/p") defaults ⟨[], []⟩) disabled
  exact ⟨disabled, given, forced, (filtered 1 _ begun rfl).1 (settings ▸ rfl)⟩

end Site

end LintBridge
