import LintBridge.Proofs.Workspace.Stake

namespace LintBridge

/-- Deeds in their order, each with the task that did it. What is done on the spot is of no
task. -/
abbrev Chronicle := List (Option Nat × Deed)

/-- What bears on the session, and what each task has at stake in it, by number. -/
structure View where
  standing : Standing
  stakes : List Stake

/-- What can happen in a view. -/
inductive View.Step (v : View) : Option (Option Nat × Deed) → View → Prop
  | stay : Step v none v
  | arrive (s : Settings) :
      Step v (some (some v.stakes.length, .arrive s))
        ⟨v.standing, v.stakes ++ [.heir s true none]⟩
  | request :
      Step v (some (some v.stakes.length, .request)) ⟨v.standing, v.stakes ++ [.asked]⟩
  | join : Step v none ⟨v.standing, v.stakes ++ [.bystander]⟩
  | refuse : Step v none ⟨v.standing, v.stakes ++ [.gone]⟩
  | act {n k d σ k'} : v.stakes[n]? = some k → Stake.Step v.standing k d σ k' →
      Step v (d.map (some n, ·)) ⟨σ, v.stakes.set n k'⟩
  | drop {n k} : v.stakes[n]? = some k → (∀ s, k ≠ .failed s) →
      Step v none ⟨v.standing, v.stakes.set n .gone⟩
  | mute {n s} : v.stakes[n]? = some (.failed s) →
      Step v (some (some n, .mute s)) ⟨v.standing, v.stakes.set n .gone⟩
  | close : Step v (some (none, .close)) ⟨v.standing.close, v.stakes⟩

/-- The views that come about from one, each with the chronicle on the way to it. -/
inductive View.Reach (first : View) : Chronicle → View → Prop
  | start : Reach first [] first
  | next {h v d v'} : Reach first h v → View.Step v d v' → Reach first (h ++ d.toList) v'

theorem View.Reach.trans {a b c : View} {h h' : Chronicle} (before : View.Reach a h b)
    (after : View.Reach b h' c) : View.Reach a (h ++ h') c := by
  induction after with
  | start => simpa only [List.append_nil] using before
  | next _ step ih =>
    rw [← List.append_assoc]
    exact ih.next step

/-- What a step is to a task: another's, its own, or that it is gone. -/
inductive View.Turn (v v' : View) (n : Nat) (k : Stake) (d : Option (Option Nat × Deed)) : Prop
  | other : v'.stakes[n]? = some k → (∀ e, d ≠ some (some n, e)) → Turn v v' n k d
  | own {e k'} : v'.stakes[n]? = some k' → d = e.map (some n, ·) →
      Stake.Step v.standing k e v'.standing k' → Turn v v' n k d
  | drop : v'.stakes[n]? = some .gone → d = none → (∀ s, k ≠ .failed s) → Turn v v' n k d
  | mute {s} : v'.stakes[n]? = some .gone → d = some (some n, .mute s) → k = .failed s →
      Turn v v' n k d

theorem View.Step.turn {v v' : View} {d : Option (Option Nat × Deed)} (step : v.Step d v')
    {n : Nat} {k : Stake} (atN : v.stakes[n]? = some k) : View.Turn v v' n k d := by
  obtain ⟨within, _⟩ := List.getElem?_eq_some_iff.mp atN
  have joined (k' : Stake) : (v.stakes ++ [k'])[n]? = some k := by
    rw [List.getElem?_append_left within, atN]
  cases step with
  | stay | close => exact .other atN fun e labelled => by cases labelled
  | join | refuse => exact .other (joined _) fun e labelled => by cases labelled
  | arrive | request =>
    refine .other (joined _) fun e labelled => ?_
    cases labelled
    exact Nat.lt_irrefl _ within
  | @act m km e σ km' atM step =>
    by_cases same : m = n
    · subst same
      cases Option.some.inj (atM.symm.trans atN)
      exact .own (List.getElem?_set_self within) rfl step
    · refine .other ((List.getElem?_set_ne same).trans atN) fun e' labelled => ?_
      cases e <;> cases labelled
      exact same rfl
  | @drop m km atM other =>
    by_cases same : m = n
    · subst same
      cases Option.some.inj (atM.symm.trans atN)
      exact .drop (List.getElem?_set_self within) rfl other
    · exact .other ((List.getElem?_set_ne same).trans atN) fun e labelled => by cases labelled
  | @mute m s atM =>
    by_cases same : m = n
    · subst same
      cases Option.some.inj (atM.symm.trans atN)
      exact .mute (List.getElem?_set_self within) rfl rfl
    · refine .other ((List.getElem?_set_ne same).trans atN) fun e labelled => ?_
      cases labelled
      exact same rfl

theorem View.Step.generation_le {v v' : View} {d : Option (Option Nat × Deed)}
    (step : v.Step d v') :
    v.standing.session.generation ≤ v'.standing.session.generation := by
  cases step with
  | act atN step => exact step.generation_le
  | close => exact Nat.le_succ _
  | _ => exact Nat.le_refl _

/-- A start that is at work was so before, or has just taken the session over. -/
theorem View.Step.start_of {v v' : View} {d : Option (Option Nat × Deed)} (step : v.Step d v')
    {k' : Stake} (member : k' ∈ v'.stakes) {s' : Start} (start' : k'.start? = some s') :
    (∃ k ∈ v.stakes, ∃ s, k.start? = some s ∧ s'.IsOf s) ∨ ∃ n, d = some (some n, .takeOver s') ∧
      s'.generation = v.standing.session.generation + 1 := by
  have old (member : k' ∈ v.stakes) : ∃ k ∈ v.stakes, ∃ s, k.start? = some s ∧ s'.IsOf s :=
    ⟨k', member, s', start', .inl rfl⟩
  cases step with
  | stay | close => exact .inl (old member)
  | arrive | request | join | refuse =>
    rcases List.mem_append.mp member with before | new
    · exact .inl (old before)
    · rw [List.mem_singleton.mp new] at start'
      cases start'
  | @act n k d σ k'' atN step =>
    rcases List.mem_or_eq_of_mem_set member with before | rfl
    · exact .inl (old before)
    · rcases step.start?_of start' with ⟨s, start, of⟩ | ⟨rfl, number⟩
      · exact .inl ⟨k, List.mem_of_getElem? atN, s, start, of⟩
      · exact .inr ⟨n, rfl, number⟩
  | drop | mute =>
    rcases List.mem_or_eq_of_mem_set member with before | rfl
    · exact .inl (old before)
    · cases start'

/-- A start that has found no engine is at the one point from which it tells so. -/
theorem Point.of_failed {p : Point} {s : Start} (failed : p.stake = .failed s) :
    p = .noEngine s := by
  cases p with
  | noEngine st => exact congrArg noEngine (Stake.failed.inj failed)
  | begin e => cases e <;> cases failed
  | policy p | installing p _ => cases p <;> cases failed
  | load c | save c _ | tell c => cases c <;> cases failed
  | commit s result => cases result <;> cases failed
  | asking client call next => cases next <;> cases failed
  | _ => cases failed

/-- What a task has at stake; nothing once it is gone. -/
def Task.stake (t : Option Task) : Stake := t.elim .gone fun t => t.point.stake

namespace Site

/-- The view of a site. -/
def view (s : Site) : View := ⟨s.workspace.standing, s.tasks.map Task.stake⟩

/-- The deed of a move, if it is one. -/
def deed? (s : Site) : Move → Option (Option Nat × Deed)
  | .spawn (.start settings) => some (some s.tasks.length, .arrive settings)
  | .spawn .install => some (some s.tasks.length, .request)
  | .advance n => ((s.task? n).bind s.workspace.deed?).map (some n, ·)
  | .abandon n =>
    match (s.task? n).map Task.point with
    | some (.noEngine start) => some (some n, .mute start)
    | _ => none
  | _ => none

/-- The chronicle of some moves. -/
def deeds (s : Site) : List Move → Chronicle
  | [] => []
  | m :: rest => (s.deed? m).toList ++ (s.move m).deeds rest

/-- The moves that are deeds, each with its deed. -/
inductive Does (s : Site) : Move → Option Nat × Deed → Prop
  | arrive {st} : Does s (.spawn (.start st)) (some s.tasks.length, .arrive st)
  | request : Does s (.spawn .install) (some s.tasks.length, .request)
  | own {n t d} : s.task? n = some t → s.workspace.deed? t = some d →
      Does s (.advance n) (some n, d)
  | mute {n st} : Does s (.abandon n) (some n, .mute st)

theorem does_of_deed? {s : Site} {m : Move} {d : Option Nat × Deed}
    (labelled : s.deed? m = some d) : s.Does m d := by
  cases m with
  | spawn e =>
    cases e <;> cases labelled
    · exact .arrive
    · exact .request
  | advance n =>
    obtain ⟨e, own, rfl⟩ := Option.map_eq_some_iff.mp labelled
    obtain ⟨t, found, does⟩ := Option.bind_eq_some_iff.mp own
    exact .own found does
  | abandon n =>
    simp only [deed?] at labelled
    split at labelled <;> cases labelled
    exact .mute
  | _ => cases labelled

theorem stake_of_task? {s : Site} {n : Nat} {t : Task} (found : s.task? n = some t) :
    s.view.stakes[n]? = some t.point.stake := by
  unfold task? at found
  cases atN : s.tasks[n]? with
  | none => simp [atN] at found
  | some held =>
    simp only [atN, Option.join_some] at found
    simp only [view, List.getElem?_map, atN, found, Option.map_some, Task.stake, Option.elim_some]

theorem stake_of_outcome? {s : Site} {n : Nat} {o : Outcome} (found : s.outcome? n = some o) :
    s.view.stakes[n]? = some (.leaving o) := by
  obtain ⟨t, atN, outcome⟩ := Option.bind_eq_some_iff.mp found
  have stake : t.point.stake = .leaving o := by
    cases point : t.point with
    | done o' =>
      rw [point] at outcome
      cases outcome
      rfl
    | _ =>
      rw [point] at outcome
      cases outcome
  exact stake ▸ stake_of_task? atN

theorem put_view (s : Site) (n : Nat) (next : Workspace × Task) :
    (s.put n next).view = ⟨next.1.standing, s.view.stakes.set n next.2.point.stake⟩ := by
  simp [put, view, List.map_set, Task.stake]

theorem remove_view (s : Site) (n : Nat) :
    (s.remove n).view = ⟨s.workspace.standing, s.view.stakes.set n .gone⟩ := by
  simp [remove, view, List.map_set, Task.stake]

theorem spawn_view (s : Site) (e : Errand) :
    (s.move (.spawn e)).view =
      ⟨s.workspace.standing, s.view.stakes ++ [(Point.begin e).stake]⟩ := by
  simp [move, view, Task.stake]

theorem shutdown_view (s : Site) :
    Site.view { s with workspace := s.workspace.shutdown } =
      ⟨s.view.standing.close, s.view.stakes⟩ := by
  simp only [view, Workspace.shutdown, Workspace.hush_standing, Workspace.close_standing]

/-- An abandoned task does nothing more; one that has found no engine does not tell. -/
theorem abandon_step (s : Site) (n : Nat) :
    s.view.Step (s.deed? (.abandon n)) (s.move (.abandon n)).view := by
  cases found : s.task? n with
  | none =>
    simp only [deed?, move, found, Option.map_none, Option.getD_none]
    exact .stay
  | some t =>
    have stake := stake_of_task? found
    simp only [deed?, move, found, Option.map_some, Option.getD_some, remove_view,
      Workspace.abandon_standing]
    split
    · rename_i start point
      rw [Option.some.inj point] at stake
      exact .mute stake
    · rename_i other
      exact .drop stake fun start failed => other start (congrArg some (Point.of_failed failed))

/-- Every move is a step of the view. -/
theorem move_step (s : Site) (m : Move) : s.view.Step (s.deed? m) (s.move m).view := by
  cases m with
  | spawn e =>
    rw [spawn_view]
    have length : s.tasks.length = s.view.stakes.length := by simp [view]
    cases e with
    | start settings =>
      simp only [deed?, length]
      exact .arrive settings
    | install =>
      simp only [deed?, length]
      exact .request
    | _ => exact .join
  | advance n =>
    cases found : s.task? n with
    | none =>
      simp only [deed?, move, found, Option.bind_none, Option.map_none, Option.getD_none]
      exact .stay
    | some t =>
      simp only [deed?, move, found, Option.bind_some, Option.map_some, Option.getD_some, put_view]
      exact .act (stake_of_task? found) (s.workspace.advance_step t)
  | receive n a =>
    cases found : s.task? n with
    | none =>
      simp only [deed?, move, found, Option.map_none, Option.getD_none]
      exact .stay
    | some t =>
      simp only [deed?, move, found, Option.map_some, Option.getD_some, put_view]
      exact .act (stake_of_task? found) (s.workspace.receive_step t a)
  | finish client kept n r =>
    have same : (s.move (.finish client kept n r)).view = s.view := by
      simp only [move, view, Workspace.finish_standing]
    rw [same]
    exact .stay
  | abandon n => exact s.abandon_step n

theorem run_append (s : Site) (moves more : List Move) :
    s.run (moves ++ more) = (s.run moves).run more := List.foldl_append

theorem deeds_append (s : Site) (moves more : List Move) :
    s.deeds (moves ++ more) = s.deeds moves ++ (s.run moves).deeds more := by
  induction moves generalizing s with
  | nil => rfl
  | cons m rest ih =>
    rw [List.cons_append, deeds, deeds, ih, List.append_assoc]
    rfl

/-- Every run is a way from view to view, with its chronicle. -/
theorem run_reach (s : Site) (moves : List Move) :
    View.Reach s.view (s.deeds moves) (s.run moves).view := by
  induction moves generalizing s with
  | nil => exact .start
  | cons m rest ih =>
    have first := View.Reach.start.next (s.move_step m)
    exact first.trans (ih (s.move m))

end Site

end LintBridge
