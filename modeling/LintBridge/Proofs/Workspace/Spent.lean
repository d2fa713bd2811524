import LintBridge.Proofs.Workspace.Sound

namespace LintBridge

/-- What a task has at stake that changes the session no more. -/
inductive Standing.Spent (σ : Standing) : Stake → Prop
  | overtaken {k s} : k.start? = some s → s.generation < σ.session.generation → Spent σ k
  | failed {s} : Spent σ (.failed s)
  | leaving {o} : Spent σ (.leaving o)
  | gone : Spent σ .gone

theorem Standing.Spent.mono {σ σ' : Standing} {k : Stake} (spent : σ.Spent k)
    (grows : σ.session.generation ≤ σ'.session.generation) : σ'.Spent k := by
  cases spent with
  | overtaken start below => exact .overtaken start (by omega)
  | failed => exact .failed
  | leaving => exact .leaving
  | gone => exact .gone

/-- A spent task does nothing to the session, and stays spent. -/
theorem Standing.Spent.step {σ σ' : Standing} {k k' : Stake} {d : Option Deed}
    (spent : σ.Spent k) (step : Stake.Step σ k d σ' k') :
    σ'.session = σ.session ∧ σ'.Spent k' := by
  cases spent with
  | overtaken start below =>
    cases step with
    | stay => exact ⟨rfl, .overtaken start below⟩
    | engage of =>
      cases start
      exact ⟨rfl, .overtaken rfl (of.generation ▸ below)⟩
    | lose => exact ⟨rfl, .overtaken start below⟩
    | overtaken => exact ⟨rfl, .leaving⟩
    | ready current | withdraw current | fail current =>
      cases start
      omega
    | _ => cases start
  | failed =>
    cases step with
    | stay => exact ⟨rfl, .failed⟩
    | tell => exact ⟨rfl, .leaving⟩
    | overtaken start => cases start
  | leaving =>
    cases step with
    | stay => exact ⟨rfl, .leaving⟩
    | overtaken start => cases start
  | gone =>
    cases step with
    | stay => exact ⟨rfl, .gone⟩
    | overtaken start => cases start

/-- Whatever happens, a spent task stays spent. -/
theorem View.Step.spent {v v' : View} {d : Option (Option Nat × Deed)} (step : v.Step d v')
    {n : Nat} {k : Stake} (atN : v.stakes[n]? = some k) (spent : v.standing.Spent k) :
    ∃ k', v'.stakes[n]? = some k' ∧ v'.standing.Spent k' := by
  cases step.turn atN with
  | other atN' => exact ⟨k, atN', spent.mono step.generation_le⟩
  | own atN' _ own => exact ⟨_, atN', (spent.step own).2⟩
  | drop atN' | mute atN' => exact ⟨.gone, atN', .gone⟩

theorem View.Reach.spent {first v : View} {h : Chronicle} (reach : View.Reach first h v)
    {n : Nat} {k : Stake} (atN : first.stakes[n]? = some k) (spent : first.standing.Spent k) :
    ∃ k', v.stakes[n]? = some k' ∧ v.standing.Spent k' := by
  induction reach with
  | start => exact ⟨k, atN, spent⟩
  | next _ step ih =>
    obtain ⟨k', atN', spent'⟩ := ih
    exact step.spent atN' spent'

/-- The task that a move is of. -/
def Move.task? : Move → Option Nat
  | advance n | receive n _ | abandon n => some n
  | _ => none

namespace Site

/-- What a task does by a move of its own, if it does anything to the session. -/
theorem own_step {s : Site} {n : Nat} {m : Move} (own : m.task? = some n) :
    (s.move m).workspace.session = s.workspace.session ∨
      ∃ t d k, s.task? n = some t ∧ s.deed? m = d.map (some n, ·) ∧
        Stake.Step s.workspace.standing t.point.stake d (s.move m).workspace.standing k := by
  cases m with
  | advance =>
    cases own
    cases found : s.task? n with
    | none => simp [move, found]
    | some t =>
      refine .inr ⟨t, s.workspace.deed? t, (s.workspace.advance t).2.point.stake, rfl, ?_, ?_⟩
      · simp only [deed?, found, Option.bind_some]
      · simp only [move, found, Option.map_some, Option.getD_some, put]
        exact s.workspace.advance_step t
  | receive _ a =>
    cases own
    cases found : s.task? n with
    | none => simp [move, found]
    | some t =>
      refine .inr ⟨t, none, (s.workspace.receive t a).2.point.stake, rfl, rfl, ?_⟩
      simp only [move, found, Option.map_some, Option.getD_some, put]
      exact s.workspace.receive_step t a
  | abandon =>
    cases own
    cases found : s.task? n with
    | none => simp [move, found]
    | some t =>
      simp only [move, found, Option.map_some, Option.getD_some, remove]
      exact .inl (congrArg Standing.session (s.workspace.abandon_standing t))
  | _ => cases own

/-- The moves of a spent task leave the session as it is. -/
theorem session_of_spent {s : Site} {n : Nat}
    (spent : ∀ t, s.task? n = some t → s.workspace.standing.Spent t.point.stake) {m : Move}
    (own : m.task? = some n) : (s.move m).workspace.session = s.workspace.session := by
  rcases s.own_step own with same | ⟨t, d, k, found, _, step⟩
  · exact same
  · exact ((spent t found).step step).1

/-- A spent task leaves the session as it is from then on, whatever comes between its moves. -/
theorem session_of_run_spent {s : Site} {n : Nat} {t : Task} (found : s.task? n = some t)
    (spent : s.workspace.standing.Spent t.point.stake) (later : List Move) {m : Move}
    (own : m.task? = some n) :
    ((s.run later).move m).workspace.session = (s.run later).workspace.session := by
  obtain ⟨k, atN, spent⟩ := (s.run_reach later).spent (stake_of_task? found) spent
  refine session_of_spent (fun t' found' => ?_) own
  have same := (stake_of_task? found').symm.trans atN
  exact Option.some.inj same ▸ spent

end Site

end LintBridge
