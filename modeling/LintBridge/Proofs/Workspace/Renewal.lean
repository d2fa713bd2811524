import LintBridge.Proofs.Workspace.Origin
import LintBridge.Proofs.Workspace.Spent

namespace LintBridge

/-- An installation that has looked at the session and found settings in it, and has not taken the
session over. -/
inductive Stake.Renewing (s : Settings) : Stake → Prop
  | installing {token} : Renewing s (.renewing s token)
  | heir {mode path} : Renewing s (.heir (s.withInstalled mode path) false (some path))
  | leaving {e} : Renewing s (.leaving (.installed (.error e)))
  | gone : Renewing s .gone

/-- An installation that has taken the session over. -/
inductive Stake.Renewed (path : Path) : Stake → Prop
  | starting {k s} : k.start? = some s → s.installed = some path → Renewed path k
  | failed {s} : s.installed = some path → Renewed path (.failed s)
  | leaving : Renewed path (.leaving (.installed (.ok path)))
  | gone : Renewed path .gone

theorem Start.IsOf.installed {s' s : Start} (of : s'.IsOf s) : s'.installed = s.installed := by
  rcases of with rfl | ⟨path, rfl⟩ <;> rfl

theorem Start.outcome_of_installed {s : Start} {path : Path} (installed : s.installed = some path)
    (p : Phase) : s.outcome p = .installed (.ok path) := by
  rw [Start.outcome, installed]

/-- An installation does nothing to the session until it takes it over. -/
theorem Stake.Renewing.step {σ σ' : Standing} {k k' : Stake} {d : Option Deed} {s : Settings}
    (renewing : k.Renewing s) (step : Stake.Step σ k d σ' k') :
    (d = none ∧ k'.Renewing s) ∨ ∃ mode path,
      d = some (.takeOver (σ.startOf (s.withInstalled mode path) false (some path))) ∧
        k'.Renewed path := by
  cases renewing with
  | installing =>
    cases step with
    | stay => exact .inl ⟨rfl, .installing⟩
    | renew => exact .inl ⟨rfl, .heir⟩
    | giveUp => exact .inl ⟨rfl, .leaving⟩
    | overtaken start => cases start
  | @heir mode path =>
    cases step with
    | stay => exact .inl ⟨rfl, .heir⟩
    | takeOver => exact .inr ⟨mode, path, rfl, .starting rfl rfl⟩
    | overtaken start => cases start
  | leaving =>
    cases step with
    | stay => exact .inl ⟨rfl, .leaving⟩
    | overtaken start => cases start
  | gone =>
    cases step with
    | stay => exact .inl ⟨rfl, .gone⟩
    | overtaken start => cases start

/-- An installation that has taken the session over has succeeded, whatever its start comes to. -/
theorem Stake.Renewed.step {σ σ' : Standing} {k k' : Stake} {d : Option Deed}
    {path : Path} (renewed : k.Renewed path) (step : Stake.Step σ k d σ' k') :
    k'.Renewed path := by
  cases renewed with
  | starting start installed =>
    have leaving (p : Phase) := Start.outcome_of_installed installed p
    cases step with
    | stay => exact .starting start installed
    | overtaken start' =>
      cases start.symm.trans start'
      rw [leaving]
      exact .leaving
    | engage of =>
      cases start
      exact .starting rfl (of.installed.trans installed)
    | lose =>
      cases start
      exact .starting rfl installed
    | ready | withdraw =>
      cases start
      rw [leaving]
      exact .leaving
    | fail =>
      cases start
      exact .failed installed
    | _ => cases start
  | failed installed =>
    cases step with
    | stay => exact .failed installed
    | tell =>
      rw [Start.outcome_of_installed installed]
      exact .leaving
    | overtaken start => cases start
  | leaving =>
    cases step with
    | stay => exact .leaving
    | overtaken start => cases start
  | gone =>
    cases step with
    | stay => exact .gone
    | overtaken start => cases start

/-- What has become of an installation on the way to a view: it has done nothing to the session
yet, or has taken it over with the settings it had found. -/
inductive Renewal (n : Nat) (s : Settings) (h : Chronicle) (k : Stake) : Prop
  | still : k.Renewing s → (∀ d, (some n, d) ∉ h) → Renewal n s h k
  | restarted (st : Start) (mode : Mode) (path : Path) : k.Renewed path →
      (some n, .takeOver st) ∈ h → st.settings = s.withInstalled mode path → Renewal n s h k

theorem View.Step.renewal {v v' : View} {d : Option (Option Nat × Deed)} (step : v.Step d v')
    {n : Nat} {s : Settings} {h : Chronicle} {k : Stake} (atN : v.stakes[n]? = some k)
    (renewal : Renewal n s h k) :
    ∃ k', v'.stakes[n]? = some k' ∧ Renewal n s (h ++ d.toList) k' := by
  have kept {e : Deed} (member : (some n, e) ∈ h) : (some n, e) ∈ h ++ d.toList :=
    List.mem_append_left _ member
  have still (none : ∀ e, (some n, e) ∉ h) (other : ∀ e, d ≠ some (some n, e)) (e : Deed) :
      (some n, e) ∉ h ++ d.toList := by
    intro member
    rcases List.mem_append.mp member with old | new
    · exact none e old
    · exact other e (Option.mem_toList.mp new)
  cases renewal with
  | still renewing none =>
    cases step.turn atN with
    | other atN' other => exact ⟨k, atN', .still renewing (still none other)⟩
    | @own e k' atN' labelled own =>
      rcases renewing.step own with ⟨rfl, renewing'⟩ | ⟨mode, path, rfl, renewed⟩
      · refine ⟨k', atN', .still renewing' (still none fun e same => ?_)⟩
        cases labelled.symm.trans same
      · let st := v.standing.startOf (s.withInstalled mode path) false (some path)
        refine ⟨k', atN', .restarted st mode path renewed (List.mem_append_right _ ?_) rfl⟩
        rw [labelled]
        exact List.mem_singleton.mpr rfl
    | drop atN' labelled =>
      refine ⟨.gone, atN', .still .gone (still none fun e same => ?_)⟩
      cases labelled.symm.trans same
    | mute _ _ failed =>
      subst failed
      cases renewing
  | restarted st mode path renewed member settings =>
    cases step.turn atN with
    | other atN' => exact ⟨k, atN', .restarted st mode path renewed (kept member) settings⟩
    | @own e k' atN' _ own =>
      exact ⟨k', atN', .restarted st mode path (renewed.step own) (kept member) settings⟩
    | drop atN' | mute atN' =>
      exact ⟨.gone, atN', .restarted st mode path .gone (kept member) settings⟩

theorem View.Reach.renewal {first v : View} {h : Chronicle} (reach : View.Reach first h v)
    {n : Nat} {s : Settings} {k : Stake} (atN : first.stakes[n]? = some k)
    (renewing : k.Renewing s) : ∃ k', v.stakes[n]? = some k' ∧ Renewal n s h k' := by
  induction reach with
  | start => exact ⟨k, atN, .still renewing fun d member => nomatch member⟩
  | next _ step ih =>
    obtain ⟨k', atN', renewal⟩ := ih
    exact step.renewal atN' renewal

/-- Whatever takes a session's place cancels it. -/
theorem View.Step.cancels {v v' : View} {d : Option (Option Nat × Deed)} (step : v.Step d v') :
    v'.standing.session.generation = v.standing.session.generation ∧
        v'.standing.session.token = v.standing.session.token ∧
        v'.standing.cancelled = v.standing.cancelled ∨
      v'.standing.cancelled = v.standing.session.token :: v.standing.cancelled := by
  cases step with
  | act atN step =>
    cases step with
    | takeOver | close => exact .inr rfl
    | _ => exact .inl ⟨rfl, rfl, rfl⟩
  | close => exact .inr rfl
  | _ => exact .inl ⟨rfl, rfl, rfl⟩

/-- A session that is not what it was is cancelled. -/
theorem View.Reach.cancels {first v : View} {h : Chronicle} (reach : View.Reach first h v) :
    v.standing.session.generation = first.standing.session.generation ∧
        v.standing.session.token = first.standing.session.token ∨
      first.standing.session.token ∈ v.standing.cancelled := by
  induction reach with
  | start => exact .inl ⟨rfl, rfl⟩
  | next _ step ih =>
    rcases step.cancels with ⟨number, token, cancelled⟩ | cancelled
    · rw [number, token, cancelled]
      exact ih
    · rw [cancelled]
      refine .inr ?_
      rcases ih with ⟨_, token⟩ | member
      · rw [token]
        exact List.mem_cons_self
      · exact List.mem_cons_of_mem _ member

/-- What a task does that is no deed leaves the session as it is. -/
theorem Stake.Step.session_of_no_deed {σ σ' : Standing} {k k' : Stake}
    (step : Stake.Step σ k none σ' k') : σ'.session = σ.session := by
  cases step <;> rfl

namespace Site

/-- Whether the moves of a task leave the session as it is. -/
def leavesSession (n : Nat) (s : Site) : List Move → Bool
  | [] => true
  | m :: rest =>
    decide (m.task? = some n → (s.move m).workspace.session = s.workspace.session) &&
      leavesSession n (s.move m) rest

theorem leavesSession_of_no_deed {s : Site} {n : Nat} {moves : List Move}
    (none : ∀ d, (some n, d) ∉ s.deeds moves) : s.leavesSession n moves = true := by
  induction moves generalizing s with
  | nil => rfl
  | cons m rest ih =>
    rw [leavesSession, Bool.and_eq_true, decide_eq_true_iff]
    refine ⟨fun own => ?_, ih fun d member => none d (List.mem_append_right _ member)⟩
    rcases s.own_step own with same | ⟨t, d, k, _, labelled, step⟩
    · exact same
    · cases d with
      | none => exact step.session_of_no_deed
      | some d =>
        refine absurd (List.mem_append_left _ ?_) (none d)
        rw [labelled]
        exact List.mem_singleton.mpr rfl

theorem task?_of_takeOver {s : Site} {m : Move} {who : Option Nat} {st : Start}
    (labelled : s.deed? m = some (who, .takeOver st)) : m.task? = who := by
  cases does_of_deed? labelled
  rfl

/-- Where a task takes the session over, its start is what the session is then. -/
theorem session_of_takeOver {s : Site} {who : Option Nat} {st : Start} {moves : List Move}
    (member : (who, .takeOver st) ∈ s.deeds moves) :
    ∃ before m rest, moves = before ++ m :: rest ∧ m.task? = who ∧
      ((s.run before).move m).workspace.session =
        ⟨.initializing, st.settings, none, st.token, st.generation⟩ ∧
      st.generation = (s.run before).workspace.session.generation + 1 := by
  induction moves generalizing s with
  | nil => cases member
  | cons m rest ih =>
    rcases List.mem_append.mp member with first | later
    · have labelled := Option.mem_toList.mp first
      exact ⟨[], m, rest, rfl, task?_of_takeOver labelled,
        View.Step.session_of_takeOver (labelled ▸ s.move_step m)⟩
    · obtain ⟨before, m', rest', rfl, found⟩ := ih later
      exact ⟨m :: before, m', rest', rfl, found⟩

theorem session_of_leavesSession {s : Site} {n : Nat} {before rest : List Move} {m : Move}
    (leaves : s.leavesSession n (before ++ m :: rest) = true) (own : m.task? = some n) :
    ((s.run before).move m).workspace.session = (s.run before).workspace.session := by
  induction before generalizing s with
  | nil =>
    rw [List.nil_append, leavesSession, Bool.and_eq_true, decide_eq_true_iff] at leaves
    exact leaves.1 own
  | cons first before ih =>
    rw [List.cons_append, leavesSession, Bool.and_eq_true] at leaves
    exact ih leaves.2

/-- A task that takes the session over does not leave it as it is. -/
theorem not_leavesSession_of_takeOver {s : Site} {n : Nat} {st : Start} {moves : List Move}
    (member : (some n, .takeOver st) ∈ s.deeds moves) : ¬s.leavesSession n moves = true := by
  intro leaves
  obtain ⟨before, m, rest, rfl, own, session, number⟩ := session_of_takeOver member
  have same := congrArg Session.generation (session_of_leavesSession leaves own)
  rw [session] at same
  exact absurd (number.symm.trans same) (Nat.succ_ne_self _)

/-- What an installation takes with it as it looks at the session. -/
theorem stake_of_look {s : Site} {n : Nat}
    (found : (s.task? n).map Task.point = some .copySettings) :
    (s.move (.advance n)).view.stakes[n]? =
        some (.renewing s.workspace.session.settings s.workspace.session.token) ∧
      (s.move (.advance n)).workspace.session = s.workspace.session := by
  obtain ⟨⟨held, point⟩, atN, rfl⟩ := Option.map_eq_some_iff.mp found
  obtain ⟨within, _⟩ := List.getElem?_eq_some_iff.mp (stake_of_task? atN)
  simp only [move, atN, Option.map_some, Option.getD_some]
  rw [put_view, List.getElem?_set_self within]
  exact ⟨rfl, rfl⟩

/-- An installation leaves the session alone until it takes it over. -/
theorem leavesSession_iff {s : Site} {n : Nat} {k : Stake} {settings : Settings}
    (atN : s.view.stakes[n]? = some k) (renewing : k.Renewing settings) (moves : List Move) :
    s.leavesSession n moves = true ↔ ∀ st, (some n, .takeOver st) ∉ s.deeds moves := by
  refine ⟨fun leaves st member => not_leavesSession_of_takeOver member leaves, fun none => ?_⟩
  obtain ⟨k', _, renewal⟩ := (s.run_reach moves).renewal atN renewing
  cases renewal with
  | still _ nothing => exact leavesSession_of_no_deed nothing
  | restarted st _ _ _ member => exact absurd member (none st)

/-- An installation that comes to an error has done nothing to the session, and one that does not
has taken it over with the settings it had found. -/
theorem renewal_of_outcome? {s : Site} {n : Nat} {k : Stake} {settings : Settings}
    (atN : s.view.stakes[n]? = some k) (renewing : k.Renewing settings) {moves : List Move}
    {o : Outcome} (outcome : (s.run moves).outcome? n = some o) :
    (∃ e, o = .installed (.error e)) ∧ (∀ d, (some n, d) ∉ s.deeds moves) ∨
      ∃ path mode st, o = .installed (.ok path) ∧ (some n, .takeOver st) ∈ s.deeds moves ∧
        st.settings = settings.withInstalled mode path := by
  obtain ⟨k', atEnd, renewal⟩ := (s.run_reach moves).renewal atN renewing
  cases Option.some.inj (atEnd.symm.trans (stake_of_outcome? outcome))
  cases renewal with
  | still left nothing =>
    refine .inl ⟨?_, nothing⟩
    cases left
    exact ⟨_, rfl⟩
  | restarted st mode path left member same =>
    refine .inr ⟨path, mode, st, ?_, member, same⟩
    cases left with
    | starting start => cases start
    | leaving => rfl

/-- Where a task takes the session over, there is a point at which the session is as it starts. -/
theorem started_of_takeOver {s : Site} {who : Option Nat} {st : Start} {moves : List Move}
    (member : (who, .takeOver st) ∈ s.deeds moves) : ∃ p, p <+: moves ∧
      (s.run p).workspace.session.phase = .initializing ∧
      (s.run p).workspace.session.settings = st.settings := by
  obtain ⟨before, m, rest, rfl, _, session, _⟩ := session_of_takeOver member
  refine ⟨before ++ [m], ⟨rest, by rw [List.append_assoc]; rfl⟩, ?_⟩
  have start : (s.run (before ++ [m])).workspace.session =
      ⟨.initializing, st.settings, none, st.token, st.generation⟩ := by
    rw [run_append]
    exact session
  rw [start]
  exact ⟨rfl, rfl⟩

end Site

/-- An installation whose session another task has overtaken since it looked, by a start or a
shutdown. What it looked at is cancelled, but it heeds that only as far as the installer does: it
leaves the session alone until it takes it over, and for good just when it comes to an error.
Otherwise it starts the session over with the settings it had found, and brings a session that was
shut down back. -/
theorem install_of_overtaken_session (project : Path) (defaults : Defaults) (files : FileTree)
    (before between after : List Move) (n : Nat) :
    let copying := (Site.new (.new project defaults files)).run before
    let looked := copying.move (.advance n)
    let later := looked.run between
    (copying.task? n).map Task.point = some .copySettings →
    looked.leavesSession n between = true →
    later.workspace.session.generation ≠ looked.workspace.session.generation →
    later.workspace.isCancelled copying.workspace.session.token = true ∧
    (later.leavesSession n after = true ↔ ∀ s, (some n, .takeOver s) ∉ later.deeds after) ∧
    ∀ o, (later.run after).outcome? n = some o →
      (later.leavesSession n after = true ↔ ∃ e, o = .installed (.error e)) ∧
      (∀ path, o = .installed (.ok path) → ∃ mode p, p <+: after ∧
        (later.run p).workspace.session.settings =
          copying.workspace.session.settings.withInstalled mode path) ∧
      (later.workspace.session.phase = .uninitialized →
        (∀ m s, (m, .takeOver s) ∈ later.deeds after → m = some n) →
        ((∀ p, p <+: after → (later.run p).workspace.session.phase = .uninitialized) ↔
          ∃ e, o = .installed (.error e))) := by
  intro copying looked later found rests overtaken
  obtain ⟨stake, same⟩ := Site.stake_of_look found
  have way : View.Reach looked.view (looked.deeds between) later.view := looked.run_reach between
  have sound : later.view.Sound := by
    refine way.sound ?_
    have first := (Site.run_reach _ before).sound (Workspace.new_sound project defaults files)
    exact first.step (copying.move_step (.advance n))
  obtain ⟨k, atLater, renewal⟩ := way.renewal stake .installing
  have renewing : k.Renewing copying.workspace.session.settings := by
    cases renewal with
    | still renewing => exact renewing
    | restarted _ _ _ _ member => exact absurd rests (Site.not_leavesSession_of_takeOver member)
  refine ⟨?_, Site.leavesSession_iff atLater renewing after, fun o outcome => ?_⟩
  · rcases way.cancels with ⟨number, _⟩ | cancelled
    · exact absurd number overtaken
    · have token : looked.workspace.session.token ∈ later.workspace.cancelled := cancelled
      rw [same] at token
      simpa only [Workspace.isCancelled, List.contains_eq_mem, decide_eq_true_eq] using token
  rcases Site.renewal_of_outcome? atLater renewing outcome with
    ⟨failed, nothing⟩ | ⟨path, mode, st, rfl, member, settings⟩
  · refine ⟨iff_of_true (Site.leavesSession_of_no_deed nothing) failed, fun path ok => ?_,
      fun closed others => iff_of_true (fun p part => ?_) failed⟩
    · obtain ⟨e, rfl⟩ := failed
      cases ok
    · refine (later.run_reach p).uninitialized sound closed fun who s member => ?_
      obtain ⟨rest, rfl⟩ := part
      rw [Site.deeds_append] at others nothing
      have whole := List.mem_append_left ((later.run p).deeds rest) member
      obtain rfl := others who s whole
      exact nothing _ whole
  · have succeeded : ¬∃ e, Outcome.installed (.ok path) = .installed (.error e) := nofun
    obtain ⟨p, part, starts, takes⟩ := Site.started_of_takeOver member
    refine ⟨iff_of_false (Site.not_leavesSession_of_takeOver member) succeeded,
      fun path' ok => ?_, fun _ _ => iff_of_false (fun all => ?_) succeeded⟩
    · cases ok
      exact ⟨mode, p, part, takes.trans settings⟩
    · cases (all p part).symm.trans starts

/-- What is left of an installation once it has looked at the session. -/
def restOfInstall (result : Except InstallError Path) : List Move :=
  [.receive 0 (.ran (.ok "8")), .receive 0 (.policy ⟨none, true⟩), .receive 0 (.installed result),
    .advance 0, .advance 0, .advance 0, .advance 0, .advance 0, .advance 0, .advance 0,
    .finish 0 .version 0 (.ok "1"), .advance 0, .advance 0, .advance 0, .advance 0, .advance 0,
    .advance 0]

/-- An installation that fails leaves a session alone that was shut down while it was at work. -/
theorem failed_install_after_shutdown :
    let copying := (Site.new (.new ⟨[]⟩ (.builtIn ⟨[]⟩) ⟨[], []⟩)).run [.spawn .install, .advance 0]
    let later := (copying.move (.advance 0)).run [.spawn .shutdown, .advance 1, .advance 1]
    let after := restOfInstall (.error .client)
    later.leavesSession 0 after = true ∧
    ∀ p, p <+: after → (later.run p).workspace.session.phase = .uninitialized := by
  intro copying later after
  obtain ⟨_, _, ends⟩ := install_of_overtaken_session ⟨[]⟩ (.builtIn ⟨[]⟩) ⟨[], []⟩
    [.spawn .install, .advance 0] [.spawn .shutdown, .advance 1, .advance 1] after 0
    rfl (by decide) (by decide)
  obtain ⟨leaves, _, rests⟩ := ends _ rfl
  have alone : ∀ d ∈ later.deeds after, d.1 = some 0 := by decide
  exact ⟨leaves.mpr ⟨_, rfl⟩, (rests rfl fun m s member => alone _ member).mpr ⟨_, rfl⟩⟩

/-- Not every installation leaves a session alone that was overtaken: one that succeeds starts it
again, though it was shut down. -/
theorem not_leavesSession_after_shutdown :
    ¬∀ (project : Path) (defaults : Defaults) (files : FileTree)
      (before between after : List Move) (n : Nat),
      let copying := (Site.new (.new project defaults files)).run before
      let looked := copying.move (.advance n)
      let later := looked.run between
      (copying.task? n).map Task.point = some .copySettings →
      looked.leavesSession n between = true →
      later.workspace.session.generation ≠ looked.workspace.session.generation →
      later.leavesSession n after = true := by
  intro all
  have leaves := all ⟨[]⟩ (.builtIn ⟨[]⟩) ⟨[], []⟩ [.spawn .install, .advance 0]
    [.spawn .shutdown, .advance 1, .advance 1] (restOfInstall (.ok ⟨[]⟩)) 0
    rfl (by decide) (by decide)
  exact absurd leaves (by decide)

end LintBridge
