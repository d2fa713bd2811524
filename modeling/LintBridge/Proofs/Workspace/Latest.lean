import LintBridge.Proofs.Workspace.Origin
import LintBridge.Proofs.Workspace.Sound

namespace LintBridge

/-- Whether settings are others, but for an engine that was installed for them. -/
def Settings.IsOf (s' s : Settings) : Prop :=
  s' = s ∨ ∃ path, s' = s.withInstalled s.mode path

theorem Start.IsOf.settings {s' s : Start} {settings : Settings} (of : s'.IsOf s)
    (same : s.settings.IsOf settings) : s'.settings.IsOf settings := by
  rcases of with rfl | ⟨path, rfl⟩
  · exact same
  · rcases same with same | ⟨_, same⟩ <;> exact .inr ⟨path, by simp [same, Settings.withInstalled]⟩

namespace Chronicle

/-- The tasks that have come to start the session, with their settings, in their order. -/
def arrivals (h : Chronicle) : List (Nat × Settings) :=
  h.filterMap fun
    | (some n, .arrive s) => some (n, s)
    | _ => none

/-- The tasks that have taken the session over, with the settings they did it with, in the order in
which they did. -/
def takeOvers (h : Chronicle) : List (Nat × Settings) :=
  h.filterMap fun
    | (some n, .takeOver st) => some (n, st.settings)
    | _ => none

theorem arrivals_append (h h' : Chronicle) :
    arrivals (h ++ h') = arrivals h ++ arrivals h' := List.filterMap_append

theorem takeOvers_append (h h' : Chronicle) :
    takeOvers (h ++ h') = takeOvers h ++ takeOvers h' := List.filterMap_append

theorem mem_arrivals {h : Chronicle} {n : Nat} {s : Settings} :
    (n, s) ∈ arrivals h ↔ (some n, .arrive s) ∈ h := by
  unfold arrivals
  rw [List.mem_filterMap]
  constructor
  · rintro ⟨⟨who, d⟩, member, same⟩
    cases who <;> cases d <;> cases same
    exact member
  · exact fun member => ⟨_, member, rfl⟩

theorem mem_takeOvers {h : Chronicle} {n : Nat} {s : Settings} :
    (n, s) ∈ takeOvers h ↔ ∃ st, (some n, .takeOver st) ∈ h ∧ st.settings = s := by
  unfold takeOvers
  rw [List.mem_filterMap]
  constructor
  · rintro ⟨⟨who, d⟩, member, same⟩
    cases who <;> cases d <;> cases same
    exact ⟨_, member, rfl⟩
  · rintro ⟨st, member, rfl⟩
    exact ⟨_, member, rfl⟩

theorem takeOvers_toList (d : Option (Option Nat × Deed)) :
    takeOvers d.toList = [] ∨ ∃ n st, d = some (some n, .takeOver st) := by
  rcases d with _ | ⟨_ | n, d⟩
  · exact .inl rfl
  · cases d <;> exact .inl rfl
  · cases d with
    | takeOver st => exact .inr ⟨n, st, rfl⟩
    | _ => exact .inl rfl

end Chronicle

/-- What the session was last started with is what it has, and so have all at work on it. -/
structure View.Latest (h : Chronicle) (v : View) : Prop where
  session : ∀ last, (Chronicle.takeOvers h).getLast? = some last →
    v.standing.session.settings.IsOf last.2
  starts : ∀ last, (Chronicle.takeOvers h).getLast? = some last → ∀ k ∈ v.stakes, ∀ s,
    k.start? = some s → s.generation = v.standing.session.generation → s.settings.IsOf last.2

theorem View.Latest.step {v v' : View} {h : Chronicle} {d : Option (Option Nat × Deed)}
    (latest : View.Latest h v) (sound : v.Sound) (step : v.Step d v') :
    View.Latest (h ++ d.toList) v' := by
  have number {k : Stake} (member : k ∈ v.stakes) {s : Start} (start : k.start? = some s) :
      s.generation ≤ v.standing.session.generation := (sound.fits k member).generation_le s start
  rcases Chronicle.takeOvers_toList d with none | ⟨n, st, rfl⟩
  · have same : Chronicle.takeOvers (h ++ d.toList) = Chronicle.takeOvers h := by
      rw [Chronicle.takeOvers_append, none, List.append_nil]
    refine ⟨fun last found => ?_, fun last found k' member s' start' current => ?_⟩
    · rw [same] at found
      have before := latest.session last found
      cases step with
      | act atN step =>
        cases step with
        | takeOver => cases none
        | ready current =>
          exact latest.starts last found _ (List.mem_of_getElem? atN) _ rfl current.symm
        | _ => exact before
      | _ => exact before
    · rw [same] at found
      rcases step.start_of member start' with ⟨k, before, s, start, of⟩ | ⟨_, rfl, _⟩
      · refine of.settings (latest.starts last found k before s start ?_)
        have below := number before start
        have grows := step.generation_le
        have kept := of.generation
        omega
      · cases none
  · obtain ⟨session, new⟩ := step.session_of_takeOver
    have ends : (Chronicle.takeOvers (h ++ [(some n, .takeOver st)])).getLast? =
        some (n, st.settings) := by
      rw [Chronicle.takeOvers_append]
      exact List.getLast?_concat
    refine ⟨fun last found => ?_, fun last found k' member s' start' current => ?_⟩
    · cases ends.symm.trans found
      rw [session]
      exact .inl rfl
    · cases ends.symm.trans found
      rw [session] at current
      rcases step.start_of member start' with ⟨k, before, s, start, of⟩ | ⟨_, same, _⟩
      · have below := number before start
        have kept := of.generation
        have now : s'.generation = st.generation := current
        omega
      · cases same
        exact .inl rfl

theorem View.Reach.latest {first v : View} {h : Chronicle} (reach : View.Reach first h v)
    (sound : first.Sound) : View.Latest h v := by
  induction reach with
  | start => exact ⟨nofun, nofun⟩
  | next reach step ih => exact ih.step (reach.sound sound) step

/-- What becomes of those that come to start the session: they are numbered in their order, and
each takes the session over once, unless it is gone before. -/
structure View.Order (h : Chronicle) (v : View) : Prop where
  came : (Chronicle.arrivals h).Pairwise fun a b => a.1 < b.1
  within : ∀ a ∈ Chronicle.arrivals h, a.1 < v.stakes.length
  took : (Chronicle.takeOvers h).Pairwise fun a b => a.1 ≠ b.1
  kept : ∀ n s, (n, s) ∈ Chronicle.arrivals h → ∃ k, v.stakes[n]? = some k ∧
    (k = .heir s true none ∨ k = .gone ∨ (n, s) ∈ Chronicle.takeOvers h)

theorem View.Step.arrivals {v v' : View} {d : Option (Option Nat × Deed)} (step : v.Step d v') :
    v.stakes.length ≤ v'.stakes.length ∧ (Chronicle.arrivals d.toList = [] ∨
      ∃ s, d = some (some v.stakes.length, .arrive s) ∧
        v'.stakes = v.stakes ++ [.heir s true none]) := by
  cases step with
  | stay | close => exact ⟨Nat.le_refl _, .inl rfl⟩
  | arrive s =>
    rw [List.length_append]
    exact ⟨Nat.le_add_right _ _, .inr ⟨s, rfl, rfl⟩⟩
  | request | join | refuse =>
    rw [List.length_append]
    exact ⟨Nat.le_add_right _ _, .inl rfl⟩
  | act atN step =>
    rw [List.length_set]
    refine ⟨Nat.le_refl _, .inl ?_⟩
    cases step <;> rfl
  | drop | mute =>
    rw [List.length_set]
    exact ⟨Nat.le_refl _, .inl rfl⟩

/-- A task that has come to start the session does so with its next step, if it is not gone. -/
theorem View.Order.kept_step {v v' : View} {h : Chronicle} {d : Option (Option Nat × Deed)}
    (order : View.Order h v) (step : v.Step d v') {n : Nat} {s : Settings}
    (member : (n, s) ∈ Chronicle.arrivals h) : ∃ k, v'.stakes[n]? = some k ∧
      (k = .heir s true none ∨ k = .gone ∨ (n, s) ∈ Chronicle.takeOvers (h ++ d.toList)) := by
  have later (member : (n, s) ∈ Chronicle.takeOvers h) :
      (n, s) ∈ Chronicle.takeOvers (h ++ d.toList) := by
    rw [Chronicle.takeOvers_append]
    exact List.mem_append_left _ member
  obtain ⟨k, atN, state⟩ := order.kept n s member
  cases step.turn atN with
  | other same => exact ⟨k, same, state.imp_right fun state => state.imp_right later⟩
  | @own e k' next labelled own =>
    refine ⟨k', next, ?_⟩
    generalize v'.standing = σ' at own
    rcases state with rfl | rfl | taken
    · cases own with
      | stay => exact .inl rfl
      | takeOver =>
        refine .inr (.inr ?_)
        rw [labelled, Chronicle.takeOvers_append]
        exact List.mem_append_right _ (List.mem_singleton.mpr rfl)
      | overtaken start => cases start
    · cases own with
      | stay => exact .inr (.inl rfl)
      | overtaken start => cases start
    · exact .inr (.inr (later taken))
  | drop gone | mute gone => exact ⟨.gone, gone, .inr (.inl rfl)⟩

/-- A task that has taken the session over does not do so again. -/
theorem View.Order.took_step {v v' : View} {h : Chronicle} {d : Option (Option Nat × Deed)}
    (order : View.Order h v) (origins : View.Origins h v) (step : v.Step d v') :
    (Chronicle.takeOvers (h ++ d.toList)).Pairwise fun a b => a.1 ≠ b.1 := by
  rw [Chronicle.takeOvers_append]
  rcases Chronicle.takeOvers_toList d with none | ⟨n, st, rfl⟩
  · rw [none, List.append_nil]
    exact order.took
  · refine List.pairwise_append.mpr ⟨order.took, List.pairwise_singleton .., ?_⟩
    rintro ⟨m, s⟩ member b new rfl
    cases List.mem_singleton.mp new
    obtain ⟨st', before, _⟩ := Chronicle.mem_takeOvers.mp member
    obtain ⟨k, atN, settled⟩ := origins.finished _ st' before
    obtain ⟨m, k', _, same, atM, _, own⟩ := step.of_takeOver
    cases same
    cases Option.some.inj (atN.symm.trans atM)
    obtain ⟨⟨_, _, rfl⟩, _⟩ := own.of_takeOver
    cases settled

theorem View.Order.step {v v' : View} {h : Chronicle} {d : Option (Option Nat × Deed)}
    (order : View.Order h v) (origins : View.Origins h v) (step : v.Step d v') :
    View.Order (h ++ d.toList) v' := by
  have took := order.took_step origins step
  have kept {n : Nat} {s : Settings} := order.kept_step step (n := n) (s := s)
  obtain ⟨longer, none | ⟨s, rfl, joined⟩⟩ := step.arrivals
  · have same : Chronicle.arrivals (h ++ d.toList) = Chronicle.arrivals h := by
      rw [Chronicle.arrivals_append, none, List.append_nil]
    rw [← same] at kept
    refine ⟨same ▸ order.came, fun a member => ?_, took, fun n s => kept⟩
    have within := order.within a (same ▸ member)
    omega
  · have more : Chronicle.arrivals (h ++ [(some v.stakes.length, .arrive s)]) =
        Chronicle.arrivals h ++ [(v.stakes.length, s)] := Chronicle.arrivals_append ..
    refine ⟨?_, fun a member => ?_, took, fun n s' member => ?_⟩
    · rw [Option.toList_some, more]
      refine List.pairwise_append.mpr ⟨order.came, List.pairwise_singleton .., ?_⟩
      intro a member b new
      rw [List.mem_singleton.mp new]
      exact order.within a member
    · rw [Option.toList_some, more] at member
      rw [joined, List.length_append, List.length_singleton]
      rcases List.mem_append.mp member with before | new
      · have within := order.within a before
        omega
      · rw [List.mem_singleton.mp new]
        omega
    · rw [Option.toList_some, more] at member
      rcases List.mem_append.mp member with before | new
      · exact kept before
      · cases List.mem_singleton.mp new
        refine ⟨_, ?_, .inl rfl⟩
        rw [joined, List.getElem?_append_right (Nat.le_refl _), Nat.sub_self]
        rfl

theorem View.Reach.order {first v : View} {h : Chronicle} (reach : View.Reach first h v)
    (fresh : first.stakes = []) : View.Order h v := by
  induction reach with
  | start => exact ⟨.nil, nofun, .nil, nofun⟩
  | next reach step ih => exact ih.step (reach.origins fresh) step

/-- Where nobody is to install an engine, it is those that came to start the session that take it
over. -/
theorem View.Reach.arrived_of_takeOver {first v : View} {h : Chronicle}
    (reach : View.Reach first h v) (fresh : first.stakes = []) (none : ∀ who, (who, .request) ∉ h)
    {a : Nat × Settings} (taken : a ∈ Chronicle.takeOvers h) : a ∈ Chronicle.arrivals h := by
  obtain ⟨n, s⟩ := a
  obtain ⟨st, takes, rfl⟩ := Chronicle.mem_takeOvers.mp taken
  obtain ⟨m, same, asked | arrives⟩ := (reach.origins fresh).took _ st takes
  · exact absurd asked (none _)
  · cases same
    exact Chronicle.mem_arrivals.mpr arrives

/-- Where no task is to take the session over any more, and none is gone, all that have come have
taken it over, each once. -/
theorem View.Reach.takeOvers_perm {first v : View} {h : Chronicle} (reach : View.Reach first h v)
    (fresh : first.stakes = []) (none : ∀ who, (who, .request) ∉ h)
    (settled : ∀ n s, (n, s) ∈ Chronicle.arrivals h → ∃ o, v.stakes[n]? = some (.leaving o)) :
    (Chronicle.takeOvers h).Perm (Chronicle.arrivals h) := by
  have order := reach.order fresh
  have distinct : (Chronicle.takeOvers h).Nodup :=
    order.took.imp fun differ same => differ (congrArg Prod.fst same)
  have distinct' : (Chronicle.arrivals h).Nodup :=
    order.came.imp fun below same => Nat.ne_of_lt below (congrArg Prod.fst same)
  refine (List.perm_ext_iff_of_nodup distinct distinct').mpr fun ⟨n, s⟩ =>
    ⟨reach.arrived_of_takeOver fresh none, fun member => ?_⟩
  obtain ⟨o, left⟩ := settled n s member
  obtain ⟨k, atN, state⟩ := order.kept n s member
  cases Option.some.inj (left.symm.trans atN)
  rcases state with heir | gone | taken
  · cases heir
  · cases gone
  · exact taken

end LintBridge
