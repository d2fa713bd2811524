import LintBridge.Proofs.Workspace.Course

namespace LintBridge

/-- What a session keeps to: it is ready just when it has a client, which is one for its settings
under its token, and that token is not cancelled while the session starts or is ready. -/
structure Standing.Sound (σ : Standing) : Prop where
  ready_iff : σ.session.phase = .ready ↔ σ.session.client.isSome
  client : ∀ client, σ.session.client = some client →
    σ.clients[client]? = some (σ.engineOf σ.session.settings, σ.session.token)
  live : σ.session.phase = .initializing ∨ σ.session.phase = .ready →
    σ.session.token ∉ σ.cancelled
  token_lt_iff : ∀ t, t < σ.tokens ↔ t = σ.session.token ∨ t ∈ σ.cancelled

/-- What a task at work on a start keeps to. Only the start of the session's own number may still
become the session, and the session waits for it. -/
structure Standing.Fits (σ : Standing) (k : Stake) : Prop where
  generation_le : ∀ s, k.start? = some s → s.generation ≤ σ.session.generation
  current : ∀ s, k.start? = some s → s.generation = σ.session.generation →
    s.token = σ.session.token ∧ σ.session.phase = .initializing
  client : ∀ s client, k = .engaged s client →
    σ.clients[client]? = some (σ.engineOf s.settings, s.token)

/-- Whether a task is at work on the start of a number. -/
def Stake.holds (g : Nat) (k : Stake) : Bool := k.start?.any fun s => s.generation == g

/-- The session is sound, every task fits it, and no two tasks are at work on one start. -/
structure View.Sound (v : View) : Prop where
  standing : v.standing.Sound
  fits : ∀ k ∈ v.stakes, v.standing.Fits k
  once : ∀ g, v.stakes.countP (Stake.holds g) ≤ 1

theorem Stake.holds_iff {k : Stake} {g : Nat} :
    k.holds g = true ↔ ∃ s, k.start? = some s ∧ s.generation = g := by
  cases start : k.start? <;> simp [holds, start]

theorem Stake.not_holds {k : Stake} (none : k.start? = none) (g : Nat) : k.holds g = false := by
  simp [holds, none]

theorem Standing.Fits.of_start?_eq_none {σ : Standing} {k : Stake} (none : k.start? = none) :
    σ.Fits k where
  generation_le s start := by simp [none] at start
  current s start := by simp [none] at start
  client s client engaged := by simp [engaged, Stake.start?] at none

/-- One element of a list more, or less, that has a property. -/
theorem countP_set_add {α : Type} {p : α → Bool} {l : List α} {n : Nat} {a : α}
    (atN : l[n]? = some a) (b : α) :
    (l.set n b).countP p + (if p a then 1 else 0) = l.countP p + if p b then 1 else 0 := by
  obtain ⟨within, rfl⟩ := List.getElem?_eq_some_iff.mp atN
  have positive : (if p l[n] then 1 else 0) ≤ l.countP p := List.boole_getElem_le_countP within
  rw [List.countP_set within]
  omega

namespace View.Sound

variable {v : View} {σ : Standing} {n : Nat} {k k' : Stake} {s : Start} {client : ClientId}

/-- The number of tasks at work on a start does not grow unless one takes it up. -/
theorem once_set (sound : v.Sound) (atN : v.stakes[n]? = some k)
    (held : ∀ s, k'.start? = some s → ∃ s', k.start? = some s' ∧ s'.generation = s.generation)
    (g : Nat) : (v.stakes.set n k').countP (Stake.holds g) ≤ 1 := by
  have sum := countP_set_add (p := Stake.holds g) atN k'
  have before := sound.once g
  by_cases now : k'.holds g = true
  · obtain ⟨s, start, number⟩ := Stake.holds_iff.mp now
    obtain ⟨s', start', number'⟩ := held s start
    have was : k.holds g = true := Stake.holds_iff.mpr ⟨s', start', number'.trans number⟩
    simp only [now, was, if_true] at sum
    omega
  · simp only [now, Bool.false_eq_true, if_false] at sum
    omega

/-- Where a start comes to its end, no other task is at work on it. -/
theorem alone (sound : v.Sound) (atN : v.stakes[n]? = some k) (start : k.start? = some s)
    (finished : k'.start? = none) {other : Stake} (member : other ∈ v.stakes.set n k') {s' : Start}
    (start' : other.start? = some s') : s'.generation ≠ s.generation := by
  intro same
  have sum := countP_set_add (p := Stake.holds s.generation) atN k'
  have held : k.holds s.generation = true := Stake.holds_iff.mpr ⟨s, start, rfl⟩
  simp only [held, Stake.not_holds finished, if_true, Bool.false_eq_true, if_false] at sum
  have before := sound.once s.generation
  have none : (v.stakes.set n k').countP (Stake.holds s.generation) = 0 := by omega
  exact List.countP_eq_zero.mp none other member (Stake.holds_iff.mpr ⟨s', start', same⟩)

/-- A task moves on while the session stays as it is. -/
theorem set (sound : v.Sound) (atN : v.stakes[n]? = some k) (fits : v.standing.Fits k')
    (held : ∀ s, k'.start? = some s → ∃ s', k.start? = some s' ∧ s'.generation = s.generation) :
    View.Sound ⟨v.standing, v.stakes.set n k'⟩ where
  standing := sound.standing
  fits other member := by
    rcases List.mem_or_eq_of_mem_set member with old | new
    · exact sound.fits other old
    · exact new ▸ fits
  once := sound.once_set atN held

/-- A task that is at work on no start moves on, or ceases to be at work on one. -/
theorem set_none (sound : v.Sound) (atN : v.stakes[n]? = some k) (none : k'.start? = none) :
    View.Sound ⟨v.standing, v.stakes.set n k'⟩ :=
  sound.set atN (.of_start?_eq_none none) fun s start => by simp [none] at start

/-- A task comes. -/
theorem append (sound : v.Sound) (none : k.start? = none) :
    View.Sound ⟨v.standing, v.stakes ++ [k]⟩ where
  standing := sound.standing
  fits other member := by
    rcases List.mem_append.mp member with old | new
    · exact sound.fits other old
    · rw [List.mem_singleton.mp new]
      exact .of_start?_eq_none none
  once g := by
    have before := sound.once g
    simpa [List.countP_append, Stake.not_holds none] using before

/-- A start finds its client again among more clients. -/
theorem engage (sound : v.Sound) (atN : v.stakes[n]? = some (.starting s)) {s' : Start}
    (of : s'.IsOf s) :
    View.Sound ⟨v.standing.engage s', v.stakes.set n (.engaged s' v.standing.clients.length)⟩ := by
  have kept {client : ClientId} {e : Engine × Token}
      (found : v.standing.clients[client]? = some e) :
      (v.standing.engage s').clients[client]? = some e := by
    obtain ⟨within, _⟩ := List.getElem?_eq_some_iff.mp found
    simpa only [Standing.engage, List.getElem?_append_left within] using found
  have own := sound.fits _ (List.mem_of_getElem? atN)
  refine ⟨⟨sound.standing.ready_iff, fun client found => kept (sound.standing.client client found),
    sound.standing.live, sound.standing.token_lt_iff⟩, fun other member => ?_, ?_⟩
  · rcases List.mem_or_eq_of_mem_set member with old | rfl
    · have fits := sound.fits other old
      exact ⟨fits.generation_le, fits.current, fun s client engaged =>
        kept (fits.client s client engaged)⟩
    · refine ⟨fun t start => ?_, fun t start current => ?_, fun t client engaged => ?_⟩
      · cases start
        exact of.generation ▸ own.generation_le s rfl
      · cases start
        rw [of.token]
        exact own.current s rfl (of.generation ▸ current)
      · cases engaged
        simp [Standing.engage, Standing.engineOf]
  · exact sound.once_set atN fun t start => ⟨s, rfl, by cases start; exact of.generation.symm⟩

/-- A task takes the session over. -/
theorem takeOver (sound : v.Sound) {settings : Settings} {mayInstall : Bool}
    {installed : Option Path} (atN : v.stakes[n]? = some (.heir settings mayInstall installed)) :
    View.Sound ⟨v.standing.takeOver settings,
      v.stakes.set n (.starting (v.standing.startOf settings mayInstall installed))⟩ := by
  have tokens := sound.standing.token_lt_iff
  refine ⟨⟨by simp [Standing.takeOver], by simp [Standing.takeOver], fun _ => ?_, fun t => ?_⟩,
    fun other member => ?_, fun g => ?_⟩
  · intro cancelled
    exact absurd ((tokens v.standing.tokens).mpr (List.mem_cons.mp cancelled)) (Nat.lt_irrefl _)
  · show t < v.standing.tokens + 1 ↔ t = v.standing.tokens ∨
      t ∈ v.standing.session.token :: v.standing.cancelled
    rw [List.mem_cons, ← tokens t]
    omega
  · rcases List.mem_or_eq_of_mem_set member with old | rfl
    · have fits := sound.fits other old
      refine ⟨fun s start => Nat.le_succ_of_le (fits.generation_le s start),
        fun s start same => ?_, fits.client⟩
      have below := fits.generation_le s start
      have above : s.generation = v.standing.session.generation + 1 := same
      omega
    · refine ⟨fun s start => ?_, fun s start _ => ?_, fun s client engaged => ?_⟩
      · cases start
        exact Nat.le_refl _
      · cases start
        exact ⟨rfl, rfl⟩
      · cases engaged
  · show (v.stakes.set n (.starting (v.standing.startOf settings mayInstall installed))).countP
      (Stake.holds g) ≤ 1
    have sum := countP_set_add (p := Stake.holds g) atN
      (.starting (v.standing.startOf settings mayInstall installed))
    have was : (Stake.heir settings mayInstall installed).holds g = false := rfl
    have before := sound.once g
    rw [was] at sum
    by_cases now : v.standing.session.generation + 1 = g
    · have none : v.stakes.countP (Stake.holds g) = 0 := by
        refine List.countP_eq_zero.mpr fun other member held => ?_
        obtain ⟨s, start, number⟩ := Stake.holds_iff.mp held
        have below := (sound.fits other member).generation_le s start
        omega
      simp only [Bool.false_eq_true, if_false] at sum
      split at sum <;> omega
    · have not : (Stake.starting (v.standing.startOf settings mayInstall installed)).holds g =
          false := by
        simpa [Stake.holds, Stake.start?, Standing.startOf] using now
      simp only [not, Bool.false_eq_true, if_false] at sum
      omega

/-- The start of the session's own number comes to its end. -/
theorem settle (sound : v.Sound) (atN : v.stakes[n]? = some k) (start : k.start? = some s)
    (current : v.standing.session.generation = s.generation) (finished : k'.start? = none)
    (settled : σ.Sound) (number : σ.session.generation = v.standing.session.generation)
    (clients : σ.clients = v.standing.clients)
    (engines : ∀ s, σ.engineOf s = v.standing.engineOf s) :
    View.Sound ⟨σ, v.stakes.set n k'⟩ := by
  refine ⟨settled, fun other member => ⟨fun t start' => ?_, fun t start' same => ?_,
    fun t client engaged => ?_⟩, sound.once_set atN fun t start' => by simp [finished] at start'⟩
  · rcases List.mem_or_eq_of_mem_set member with old | rfl
    · exact number ▸ (sound.fits other old).generation_le t start'
    · simp [finished] at start'
  · exact absurd (same.trans (number.trans current)) (sound.alone atN start finished member start')
  · rcases List.mem_or_eq_of_mem_set member with old | rfl
    · rw [clients, engines]
      exact (sound.fits other old).client t client engaged
    · simp [engaged, Stake.start?] at finished

/-- A start becomes the session. -/
theorem ready (sound : v.Sound) (atN : v.stakes[n]? = some (.engaged s client))
    (current : v.standing.session.generation = s.generation) (finished : k'.start? = none) :
    View.Sound ⟨v.standing.ready s client, v.stakes.set n k'⟩ := by
  have fits := sound.fits _ (List.mem_of_getElem? atN)
  obtain ⟨token, phase⟩ := fits.current s rfl current.symm
  refine sound.settle atN rfl current finished ⟨?_, fun c same => ?_, fun _ => ?_, ?_⟩ rfl rfl
    fun _ => rfl
  · simp [Standing.ready]
  · cases same
    exact token ▸ fits.client s client rfl
  · exact sound.standing.live (.inl phase)
  · exact sound.standing.token_lt_iff

/-- A start ends without an engine. -/
theorem rest (sound : v.Sound) (atN : v.stakes[n]? = some (.starting s))
    (current : v.standing.session.generation = s.generation) (finished : k'.start? = none)
    {p : Phase} (ended : p = .uninitialized ∨ p = .error) :
    View.Sound ⟨v.standing.rest p, v.stakes.set n k'⟩ := by
  obtain ⟨_, phase⟩ :=
    (sound.fits _ (List.mem_of_getElem? atN)).current s rfl current.symm
  have without : ¬v.standing.session.client.isSome := by
    rw [← sound.standing.ready_iff, phase]
    simp
  refine sound.settle atN rfl current finished ⟨⟨fun ready => ?_, fun some => ?_⟩, fun c same => ?_,
    fun live => ?_, sound.standing.token_lt_iff⟩ rfl rfl fun _ => rfl
  · rcases ended with rfl | rfl <;> cases ready
  · exact absurd some without
  · exact sound.standing.client c same
  · rcases ended with rfl | rfl <;> rcases live with live | live <;> cases live

/-- The session is closed, whatever is at work on it. -/
theorem close (sound : v.Sound) : View.Sound ⟨v.standing.close, v.stakes⟩ := by
  refine ⟨⟨by simp [Standing.close], by simp [Standing.close], by simp [Standing.close],
    fun t => ?_⟩, fun k member => ?_, sound.once⟩
  · show t < v.standing.tokens ↔ t = v.standing.session.token ∨
      t ∈ v.standing.session.token :: v.standing.cancelled
    rw [sound.standing.token_lt_iff t, List.mem_cons, or_self_left]
  · have fits := sound.fits k member
    refine ⟨fun s start => Nat.le_succ_of_le (fits.generation_le s start),
      fun s start same => ?_, fits.client⟩
    have below := fits.generation_le s start
    have above : s.generation = v.standing.session.generation + 1 := same
    omega

/-- Nothing at stake depends on what the editor was told. -/
theorem notice (sound : v.Sound) : View.Sound ⟨v.standing.notice, v.stakes⟩ where
  standing := ⟨sound.standing.ready_iff, sound.standing.client, sound.standing.live,
    sound.standing.token_lt_iff⟩
  fits k member :=
    have fits := sound.fits k member
    ⟨fits.generation_le, fits.current, fits.client⟩
  once := sound.once

/-- Whatever a task does, all stays sound. -/
theorem act (sound : v.Sound) {d : Option Deed} (atN : v.stakes[n]? = some k)
    (step : Stake.Step v.standing k d σ k') : View.Sound ⟨σ, v.stakes.set n k'⟩ := by
  have own := sound.fits k (List.mem_of_getElem? atN)
  cases step with
  | stay => exact sound.set atN own fun s start => ⟨s, start, rfl⟩
  | takeOver => exact sound.takeOver atN
  | look | renew | giveUp | overtaken | depart => exact sound.set_none atN rfl
  | engage of => exact sound.engage atN of
  | lose =>
    refine sound.set atN ⟨own.generation_le, own.current, fun s client engaged => ?_⟩
      fun s start => ⟨s, start, rfl⟩
    cases engaged
  | ready current => exact sound.ready atN current rfl
  | withdraw current => exact sound.rest atN current rfl (.inl rfl)
  | fail current => exact sound.rest atN current rfl (.inr rfl)
  | tell => exact (sound.set_none atN rfl).notice
  | close => exact (sound.set_none atN rfl).close

/-- Whatever happens, all stays sound. -/
theorem step (sound : v.Sound) {d : Option (Option Nat × Deed)} {v' : View}
    (step : v.Step d v') : v'.Sound := by
  cases step with
  | stay => exact sound
  | arrive | request | join | refuse => exact sound.append rfl
  | act atN step => exact sound.act atN step
  | drop atN | mute atN => exact sound.set_none atN rfl
  | close => exact sound.close

end View.Sound

theorem View.Reach.sound {first v : View} {h : Chronicle} (reach : View.Reach first h v)
    (sound : first.Sound) : v.Sound := by
  induction reach with
  | start => exact sound
  | next _ step ih => exact ih.step step

/-- A session that is uninitialized stays so until a task takes it over. -/
theorem View.Step.uninitialized {v v' : View} {d : Option (Option Nat × Deed)} (step : v.Step d v')
    (sound : v.Sound) (rests : v.standing.session.phase = .uninitialized)
    (none : ∀ who s, d ≠ some (who, .takeOver s)) :
    v'.standing.session.phase = .uninitialized := by
  cases step with
  | act atN step =>
    have own := (sound.fits _ (List.mem_of_getElem? atN)).current
    cases step with
    | takeOver => exact absurd rfl (none _ _)
    | ready current | fail current =>
      obtain ⟨_, phase⟩ := own _ rfl current.symm
      cases rests.symm.trans phase
    | withdraw | close => rfl
    | _ => exact rests
  | close => rfl
  | _ => exact rests

theorem View.Reach.uninitialized {first v : View} {h : Chronicle} (reach : View.Reach first h v)
    (sound : first.Sound) (rests : first.standing.session.phase = .uninitialized)
    (none : ∀ who s, (who, .takeOver s) ∉ h) : v.standing.session.phase = .uninitialized := by
  induction reach with
  | start => exact rests
  | next reach step ih =>
    have before := ih fun who s member => none who s (List.mem_append_left _ member)
    refine step.uninitialized (reach.sound sound) before fun who s labelled => none who s ?_
    exact List.mem_append_right _ (Option.mem_toList.mpr labelled)

/-- A workspace before its first session is sound. -/
theorem Workspace.new_sound (project : Path) (defaults : Defaults) (files : FileTree) :
    (Site.new (.new project defaults files)).view.Sound where
  standing := by
    refine ⟨?_, ?_, ?_, fun t => ?_⟩ <;> simp [Site.view, Site.new, standing, new]
  fits k member := by simp [Site.view, Site.new] at member
  once g := by simp [Site.view, Site.new]

end LintBridge
