import LintBridge.Proofs.Workspace.Course

namespace LintBridge

/-- Whether a task is still to take the session over. -/
def Stake.isPending : Stake → Bool
  | heir .. | asked | renewing .. => true
  | _ => false

/-- A task that is still to take the session over was so before, and has done nothing. -/
theorem Stake.Step.pending_of {σ σ' : Standing} {k k' : Stake} {d : Option Deed}
    (step : Stake.Step σ k d σ' k') (pending : k'.isPending = true) :
    d = none ∧ k.isPending = true ∧ (k' = k ∨ k = .asked ∨ ∃ s token, k = .renewing s token) := by
  cases step with
  | stay => exact ⟨rfl, pending, .inl rfl⟩
  | look => exact ⟨rfl, rfl, .inr (.inl rfl)⟩
  | renew => exact ⟨rfl, rfl, .inr (.inr ⟨_, _, rfl⟩)⟩
  | _ => cases pending

/-- A task that takes the session over was to do so. -/
theorem Stake.Step.of_takeOver {σ σ' : Standing} {k k' : Stake} {st : Start}
    (step : Stake.Step σ k (some (.takeOver st)) σ' k') :
    (∃ mayInstall installed, k = .heir st.settings mayInstall installed) ∧
      k'.isPending = false := by
  cases step
  exact ⟨⟨_, _, rfl⟩, rfl⟩

/-- What a task is to do that has just come. -/
theorem View.Step.of_new {v v' : View} {d : Option (Option Nat × Deed)} (step : v.Step d v')
    {n : Nat} {k : Stake} (atN : v'.stakes[n]? = some k) (new : v.stakes[n]? = none)
    (pending : k.isPending = true) :
    d = some (some n, .request) ∨ ∃ s, k = .heir s true none ∧ d = some (some n, .arrive s) := by
  have last {k' : Stake} (joined : (v.stakes ++ [k'])[n]? = some k) :
      n = v.stakes.length ∧ k' = k := by
    have beyond := List.getElem?_eq_none_iff.mp new
    rw [List.getElem?_append_right beyond, List.getElem?_singleton] at joined
    split at joined
    · exact ⟨by omega, Option.some.inj joined⟩
    · cases joined
  have absent {k' : Stake} {m : Nat} (changed : (v.stakes.set m k')[n]? = some k) : False := by
    rw [List.getElem?_eq_none_iff] at new
    obtain ⟨within, _⟩ := List.getElem?_eq_some_iff.mp changed
    rw [List.length_set] at within
    omega
  cases step with
  | stay | close => cases new.symm.trans atN
  | arrive s =>
    obtain ⟨rfl, rfl⟩ := last atN
    exact .inr ⟨s, rfl, rfl⟩
  | request =>
    obtain ⟨rfl, rfl⟩ := last atN
    exact .inl rfl
  | join | refuse =>
    obtain ⟨_, rfl⟩ := last atN
    cases pending
  | act | drop | mute => exact (absent atN).elim

/-- Only a task that was to do so takes the session over. -/
theorem View.Step.of_takeOver {v v' : View} {who : Option Nat} {st : Start}
    (step : v.Step (some (who, .takeOver st)) v') : ∃ n k k', who = some n ∧
      v.stakes[n]? = some k ∧ v'.stakes[n]? = some k' ∧
        Stake.Step v.standing k (some (.takeOver st)) v'.standing k' := by
  generalize labelled : some (who, Deed.takeOver st) = label at step
  cases step with
  | @act n k d σ k' atN step =>
    cases d with
    | none => cases labelled
    | some d =>
      cases labelled
      obtain ⟨within, _⟩ := List.getElem?_eq_some_iff.mp atN
      exact ⟨n, k, k', rfl, atN, List.getElem?_set_self within, step⟩
  | _ => cases labelled

/-- What the session is where it was just taken over. -/
theorem View.Step.session_of_takeOver {v v' : View} {who : Option Nat} {st : Start}
    (step : v.Step (some (who, .takeOver st)) v') :
    v'.standing.session = ⟨.initializing, st.settings, none, st.token, st.generation⟩ ∧
      st.generation = v.standing.session.generation + 1 := by
  obtain ⟨n, k, k', _, _, _, own⟩ := step.of_takeOver
  generalize v'.standing = σ at own
  cases own
  exact ⟨rfl, rfl⟩

/-- Where the tasks come from that take the session over, or are to do so. -/
structure View.Origins (h : Chronicle) (v : View) : Prop where
  came : ∀ n k, v.stakes[n]? = some k → k.isPending = true →
    (some n, .request) ∈ h ∨ ∃ s, k = .heir s true none ∧ (some n, .arrive s) ∈ h
  took : ∀ who st, (who, .takeOver st) ∈ h → ∃ n, who = some n ∧
    ((some n, .request) ∈ h ∨ (some n, .arrive st.settings) ∈ h)
  finished : ∀ n st, (some n, .takeOver st) ∈ h → ∃ k, v.stakes[n]? = some k ∧ k.isPending = false

theorem View.Origins.step {v v' : View} {h : Chronicle} {d : Option (Option Nat × Deed)}
    (origins : View.Origins h v) (step : v.Step d v') : View.Origins (h ++ d.toList) v' := by
  have kept {e : Option Nat × Deed} (member : e ∈ h) : e ∈ h ++ d.toList :=
    List.mem_append_left _ member
  have own {e : Option Nat × Deed} (labelled : d = some e) : e ∈ h ++ d.toList :=
    List.mem_append_right _ (Option.mem_toList.mpr labelled)
  refine ⟨fun n k atN pending => ?_, fun who st member => ?_, fun n st member => ?_⟩
  · cases before : v.stakes[n]? with
    | none =>
      rcases step.of_new atN before pending with asked | ⟨s, heir, arrives⟩
      · exact .inl (own asked)
      · exact .inr ⟨s, heir, own arrives⟩
    | some k₀ =>
      cases step.turn before with
      | other same =>
        cases Option.some.inj (same.symm.trans atN)
        exact (origins.came n k before pending).imp kept fun ⟨s, heir, arrives⟩ =>
          ⟨s, heir, kept arrives⟩
      | own next _ own =>
        cases Option.some.inj (next.symm.trans atN)
        obtain ⟨_, pending₀, related⟩ := own.pending_of pending
        rcases origins.came n k₀ before pending₀ with asked | ⟨s, heir, arrives⟩
        · exact .inl (kept asked)
        · rcases related with same | asked | ⟨_, _, renewing⟩
          · exact .inr ⟨s, same.trans heir, kept arrives⟩
          · cases heir.symm.trans asked
          · cases heir.symm.trans renewing
      | drop gone | mute gone =>
        cases Option.some.inj (gone.symm.trans atN)
        cases pending
  · rcases List.mem_append.mp member with old | new
    · obtain ⟨n, same, founded⟩ := origins.took who st old
      exact ⟨n, same, founded.imp kept kept⟩
    · have labelled := Option.mem_toList.mp new
      subst labelled
      obtain ⟨n, k, k', rfl, before, _, own⟩ := step.of_takeOver
      obtain ⟨⟨mayInstall, installed, rfl⟩, _⟩ := own.of_takeOver
      refine ⟨n, rfl, ?_⟩
      rcases origins.came n _ before rfl with asked | ⟨s, heir, arrives⟩
      · exact .inl (kept asked)
      · cases heir
        exact .inr (kept arrives)
  · rcases List.mem_append.mp member with old | new
    · obtain ⟨k, before, settled⟩ := origins.finished n st old
      cases step.turn before with
      | other same => exact ⟨k, same, settled⟩
      | @own e k' next _ own =>
        refine ⟨k', next, ?_⟩
        cases pending : k'.isPending with
        | false => rfl
        | true => cases settled.symm.trans (own.pending_of pending).2.1
      | drop gone | mute gone => exact ⟨.gone, gone, rfl⟩
    · have labelled := Option.mem_toList.mp new
      subst labelled
      obtain ⟨m, k, k', same, _, after, own⟩ := step.of_takeOver
      cases same
      exact ⟨k', after, own.of_takeOver.2⟩

theorem View.Reach.origins {first v : View} {h : Chronicle} (reach : View.Reach first h v)
    (fresh : first.stakes = []) : View.Origins h v := by
  induction reach with
  | start =>
    refine ⟨fun n k atN => ?_, fun _ _ member => ?_, fun _ _ member => ?_⟩
    · rw [fresh, List.getElem?_nil] at atN
      cases atN
    · cases member
    · cases member
  | next _ step ih => exact ih.step step

end LintBridge
