import LintBridge.Proofs.Workspace.Spent

namespace LintBridge

/-- Whether a deed is the failure of the start of a number. -/
def Deed.fails (g : Nat) : Deed → Bool
  | fail s => s.generation == g
  | _ => false

/-- Whether a deed tells the editor of the start of a number. -/
def Deed.tells (g : Nat) : Deed → Bool
  | tell s => s.generation == g
  | _ => false

/-- Whether a deed keeps the start of a number from being told of. -/
def Deed.mutes (g : Nat) : Deed → Bool
  | mute s => s.generation == g
  | _ => false

def Deed.isTelling : Deed → Bool
  | tell _ => true
  | _ => false

/-- Whether a start of a number has found no engine, and is not told of yet. -/
def Stake.unheard (g : Nat) : Stake → Bool
  | failed s => s.generation == g
  | _ => false

/-- How often a deed of a kind was done. -/
def Chronicle.times (h : Chronicle) (kind : Deed → Bool) : Nat := h.countP fun d => kind d.2

theorem Chronicle.times_append (h h' : Chronicle) (kind : Deed → Bool) :
    Chronicle.times (h ++ h') kind = Chronicle.times h kind + Chronicle.times h' kind :=
  List.countP_append

/-- Whether the start of a number may still fail: it has not come, or a task is at work on it. -/
def View.Open (v : View) (g : Nat) : Prop :=
  v.standing.session.generation < g ∨ ∃ k ∈ v.stakes, k.holds g = true

/-- Once the start of a number cannot fail any more, it never can. -/
theorem View.Step.open_of {v v' : View} {d : Option (Option Nat × Deed)} (step : v.Step d v')
    {g : Nat} (may : v'.Open g) : v.Open g := by
  rcases may with later | ⟨k', member, held⟩
  · have grows := step.generation_le
    exact .inl (by omega)
  · obtain ⟨s', start', rfl⟩ := Stake.holds_iff.mp held
    rcases step.start_of member start' with ⟨k, before, s, start, of⟩ | ⟨_, _, new⟩
    · exact .inr ⟨k, before, Stake.holds_iff.mpr ⟨s, start, of.generation.symm⟩⟩
    · exact .inl (by omega)

/-- A start that fails could do so, and cannot any more. -/
theorem View.Step.open_of_fails {v v' : View} {who : Option Nat} {d : Deed}
    (step : v.Step (some (who, d)) v') (sound : v.Sound) {g : Nat} (fails : d.fails g = true) :
    v.Open g ∧ ¬v'.Open g := by
  obtain ⟨s, rfl, rfl⟩ : ∃ s, d = .fail s ∧ s.generation = g := by
    cases d with
    | fail s => exact ⟨s, rfl, by simpa [Deed.fails] using fails⟩
    | _ => cases fails
  generalize labelled : some (who, Deed.fail s) = label at step
  cases step with
  | @act n k d σ k' atN step =>
    cases step with
    | fail current =>
      cases labelled
      have member := List.mem_of_getElem? atN
      refine ⟨.inr ⟨_, member, Stake.holds_iff.mpr ⟨s, rfl, rfl⟩⟩, fun may => ?_⟩
      rcases may with later | ⟨k', member', held⟩
      · have same : v.standing.session.generation < s.generation := later
        omega
      · obtain ⟨s', start', same⟩ := Stake.holds_iff.mp held
        exact sound.alone atN rfl rfl member' start' same
    | _ => cases labelled
  | _ => cases labelled

theorem Stake.not_unheard {k : Stake} {s : Start} (start : k.start? = some s) (g : Nat) :
    k.unheard g = false := by
  cases k with
  | failed => cases start
  | _ => rfl

/-- A start that fails is to be told of; nothing else is, and it is no longer when it was. -/
theorem Stake.Step.balance {σ σ' : Standing} {k k' : Stake} {d : Option Deed}
    (step : Stake.Step σ k d σ' k') (g : Nat) :
    (if k.unheard g then 1 else 0) + (if d.any (Deed.fails g) then 1 else 0) =
      (if k'.unheard g then 1 else 0) + if d.any (Deed.tells g) then 1 else 0 := by
  cases step with
  | fail => exact Nat.add_comm ..
  | tell => exact Nat.add_comm ..
  | overtaken start => rw [Stake.not_unheard start]; rfl
  | _ => rfl

theorem Stake.Step.not_mutes {σ σ' : Standing} {k k' : Stake} {d : Option Deed}
    (step : Stake.Step σ k d σ' k') (g : Nat) : d.any (Deed.mutes g) = false := by
  cases step <;> rfl

theorem Chronicle.times_one (who : Option Nat) (d : Deed) (kind : Deed → Bool) :
    Chronicle.times [(who, d)] kind = if kind d then 1 else 0 := List.countP_singleton

theorem Chronicle.times_map (d : Option Deed) (who : Option Nat) (kind : Deed → Bool) :
    Chronicle.times (d.map (who, ·)).toList kind = if d.any kind then 1 else 0 := by
  cases d with
  | none => rfl
  | some d => exact Chronicle.times_one who d kind

/-- What fails is told, kept from being told, or still to be told. -/
theorem View.Step.balance {v v' : View} {d : Option (Option Nat × Deed)} (step : v.Step d v')
    (g : Nat) :
    v.stakes.countP (Stake.unheard g) + Chronicle.times d.toList (Deed.fails g) =
      v'.stakes.countP (Stake.unheard g) + Chronicle.times d.toList (Deed.tells g) +
        Chronicle.times d.toList (Deed.mutes g) := by
  have joined {k : Stake} (other : k.unheard g = false) :
      (v.stakes ++ [k]).countP (Stake.unheard g) = v.stakes.countP (Stake.unheard g) := by
    simp [List.countP_append, other]
  cases step with
  | stay | close => rfl
  | arrive | request | join | refuse => rw [joined rfl]; rfl
  | @act n k d σ k' atN step =>
    have sum := countP_set_add (p := Stake.unheard g) atN k'
    have own := step.balance g
    simp only [Chronicle.times_map, step.not_mutes, Bool.false_eq_true, if_false]
    omega
  | @drop n k atN other =>
    have sum := countP_set_add (p := Stake.unheard g) atN .gone
    have quiet : k.unheard g = false := by
      cases k with
      | failed s => exact absurd rfl (other s)
      | _ => rfl
    rw [quiet] at sum
    exact sum.symm
  | @mute n s atN =>
    have sum := countP_set_add (p := Stake.unheard g) atN .gone
    simp only [Option.toList_some, Chronicle.times_one]
    exact sum.symm

/-- The editor hears of starts without an engine by what tasks tell, and of nothing else. -/
theorem View.Step.notices {v v' : View} {d : Option (Option Nat × Deed)} (step : v.Step d v') :
    v'.standing.notices = v.standing.notices + Chronicle.times d.toList Deed.isTelling := by
  cases step with
  | act atN step =>
    rw [Chronicle.times_map]
    cases step <;> rfl
  | _ => rfl

/-- What becomes of starts that find no engine: each fails at most once, and is then told of once,
unless its task is gone before, or still has to tell. -/
structure View.Ledger (first : View) (h : Chronicle) (v : View) : Prop where
  once : ∀ g, Chronicle.times h (Deed.fails g) ≤ 1
  fresh : ∀ g, v.Open g → Chronicle.times h (Deed.fails g) = 0
  told : ∀ g, first.stakes.countP (Stake.unheard g) + Chronicle.times h (Deed.fails g) =
    v.stakes.countP (Stake.unheard g) + Chronicle.times h (Deed.tells g) +
      Chronicle.times h (Deed.mutes g)
  notices : v.standing.notices = first.standing.notices + Chronicle.times h Deed.isTelling

theorem View.Reach.ledger {first v : View} {h : Chronicle} (reach : View.Reach first h v)
    (sound : first.Sound) : View.Ledger first h v := by
  induction reach with
  | start => exact ⟨fun _ => Nat.zero_le _, fun _ _ => rfl, fun _ => rfl, rfl⟩
  | @next h v d v' reach step ih =>
    refine ⟨fun g => ?_, fun g may => ?_, fun g => ?_, ?_⟩
    · have once := ih.once g
      rw [Chronicle.times_append]
      rcases d with _ | ⟨who, d⟩
      · exact once
      · rw [Option.toList_some, Chronicle.times_one]
        by_cases fails : d.fails g = true
        · have before := ih.fresh g (step.open_of_fails (reach.sound sound) fails).1
          rw [if_pos fails]
          omega
        · rw [if_neg fails]
          exact once
    · have before := ih.fresh g (step.open_of may)
      rw [Chronicle.times_append, before]
      rcases d with _ | ⟨who, d⟩
      · rfl
      · rw [Option.toList_some, Chronicle.times_one, if_neg]
        exact fun fails => (step.open_of_fails (reach.sound sound) fails).2 may
    · have before := ih.told g
      have balance := step.balance g
      simp only [Chronicle.times_append]
      omega
    · rw [step.notices, ih.notices, Chronicle.times_append, Nat.add_assoc]

/-- Whether a task may be abandoned at a point: before it has set out, where it waits, and when it
is over. Elsewhere it goes on to the next point at once. -/
def Point.suspends : Point → Bool
  | begin _ | probing .. | policy _ | installing .. | asking .. | done _ => true
  | _ => false

/-- Whether tasks are abandoned only where they may be. -/
def Site.orderly (s : Site) : List Move → Bool
  | [] => true
  | .abandon n :: rest =>
    (s.task? n).all (fun t => t.point.suspends) && (s.move (.abandon n)).orderly rest
  | m :: rest => (s.move m).orderly rest

/-- In an orderly run no task is gone before it could tell. -/
theorem Site.times_mutes_of_orderly {s : Site} {moves : List Move} (orderly : s.orderly moves)
    (g : Nat) : Chronicle.times (s.deeds moves) (Deed.mutes g) = 0 := by
  induction moves generalizing s with
  | nil => rfl
  | cons m rest ih =>
    rw [deeds, Chronicle.times_append]
    have own : Chronicle.times (s.deed? m).toList (Deed.mutes g) = 0 ∧
        (s.move m).orderly rest = true := by
      cases m with
      | spawn e => cases e <;> exact ⟨rfl, orderly⟩
      | advance n =>
        refine ⟨?_, orderly⟩
        simp only [deed?]
        rw [Chronicle.times_map]
        cases found : s.task? n with
        | none => rfl
        | some t =>
          rw [Option.bind_some, (s.workspace.advance_step t).not_mutes g]
          rfl
      | abandon n =>
        rw [Site.orderly, Bool.and_eq_true] at orderly
        refine ⟨?_, orderly.2⟩
        cases found : s.task? n with
        | none => simp [deed?, found, Chronicle.times]
        | some t =>
          obtain ⟨held, point⟩ := t
          have suspends : point.suspends = true := by simpa [found] using orderly.1
          cases point with
          | noEngine start => cases suspends
          | _ => simp [deed?, found, Chronicle.times]
      | _ => exact ⟨rfl, orderly⟩
    rw [own.1, ih own.2]

/-- The start that a task is at work on. -/
def Task.start? (t : Task) : Option Start := t.point.stake.start?

/-- How many tasks have found no engine for the start of a number, and are about to tell so. -/
def Site.unheard (s : Site) (g : Nat) : Nat :=
  s.tasks.countP fun t => (Task.stake t).unheard g

/-- The session of a project after any moves, however the tasks took their turns and whatever the
engine and the installer answered. It is ready just when it has a client; that client was made of
the session's settings and holds the session's token, which is not cancelled. A start that was
overtaken leaves the session alone for good. Each start fails at most once, the editor is told of
no start that did not fail, and, as tasks are abandoned only where they wait, once of each that
did. -/
theorem session_after_any_run (project : Path) (defaults : Defaults) (files : FileTree)
    (moves : List Move) :
    let first := Site.new (.new project defaults files)
    let site := first.run moves
    let w := site.workspace
    (w.session.phase = .ready ↔ w.session.client.isSome) ∧
    (w.session.phase = .ready → ∃ id client, w.session.client = some id ∧
      w.clients[id]? = some client ∧ client.engine = w.engineOf w.session.settings ∧
      client.token = w.session.token ∧ w.isCancelled w.session.token = false) ∧
    (∀ n t s, site.task? n = some t → t.start? = some s →
      s.generation ≠ w.session.generation → ∀ later m, m.task? = some n →
        ((site.run later).move m).workspace.session = (site.run later).workspace.session) ∧
    (∀ g, let count := Chronicle.times (first.deeds moves)
      count (Deed.fails g) ≤ 1 ∧ count (Deed.tells g) ≤ count (Deed.fails g) ∧
      (first.orderly moves → count (Deed.fails g) = count (Deed.tells g) + site.unheard g)) ∧
    w.events.count .noEngine = Chronicle.times (first.deeds moves) Deed.isTelling := by
  intro first site w
  have reach : View.Reach first.view (first.deeds moves) site.view := first.run_reach moves
  have new : first.view.Sound := Workspace.new_sound project defaults files
  have sound : site.view.Sound := reach.sound new
  have ledger := reach.ledger new
  have session : w.standing.Sound := sound.standing
  refine ⟨session.ready_iff, fun ready => ?_, fun n t s found start other later m own => ?_,
    fun g => ?_, ?_⟩
  · obtain ⟨id, has⟩ := Option.isSome_iff_exists.mp (session.ready_iff.mp ready)
    have made : (w.clients.map fun c => (c.engine, c.token))[id]? =
        some (w.engineOf w.session.settings, w.session.token) := session.client id has
    rw [List.getElem?_map, Option.map_eq_some_iff] at made
    obtain ⟨client, found, same⟩ := made
    refine ⟨id, client, has, found, congrArg Prod.fst same, congrArg Prod.snd same, ?_⟩
    have live : w.session.token ∉ w.cancelled := session.live (.inr ready)
    simpa only [Workspace.isCancelled, List.contains_eq_mem, decide_eq_false_iff_not] using live
  · refine Site.session_of_run_spent found (.overtaken start ?_) later own
    have fits := sound.fits _ (List.mem_of_getElem? (Site.stake_of_task? found))
    have below : s.generation ≤ w.session.generation := fits.generation_le s start
    exact Nat.lt_of_le_of_ne below other
  · have told := ledger.told g
    have none : first.view.stakes.countP (Stake.unheard g) = 0 := rfl
    have unheard : site.view.stakes.countP (Stake.unheard g) = site.unheard g := List.countP_map
    refine ⟨ledger.once g, ?_, fun orderly => ?_⟩
    · omega
    · rw [Site.times_mutes_of_orderly orderly g] at told
      omega
  · have notices : w.events.count .noEngine =
        0 + Chronicle.times (first.deeds moves) Deed.isTelling := ledger.notices
    rw [notices, Nat.zero_add]

/-- A start that finds no engine, and two that overlap, the latter of which gets to the end. -/
def overlappingStarts (s : Settings) : List Move :=
  [.spawn (.start s), .advance 0, .advance 0, .advance 0, .advance 0, .advance 0,
    .finish 0 .version 0 (.error .malformedOutput), .advance 0, .advance 0,
    .receive 0 (.policy ⟨none, true⟩), .receive 0 (.installed (.error .client)), .advance 0,
    .advance 0, .advance 0,
    .spawn (.start s), .spawn (.start s), .advance 1, .advance 1, .advance 1, .advance 2,
    .advance 2, .advance 2, .advance 2, .advance 2, .finish 2 .version 0 (.ok "1"), .advance 2,
    .advance 2, .advance 2]

theorem session_after_overlapping_starts :
    let first := Site.new (.new ⟨[]⟩ (.builtIn ⟨[]⟩) ⟨[], []⟩)
    let moves := overlappingStarts (.ofDefaults (.builtIn ⟨[]⟩))
    let site := first.run moves
    site.workspace.session.phase = .ready ∧
    site.workspace.isCancelled site.workspace.session.token = false ∧
    (site.move (.advance 1)).workspace.session = site.workspace.session ∧
    first.orderly moves = true ∧
    Chronicle.times (first.deeds moves) (Deed.fails 1) = 1 ∧
    Chronicle.times (first.deeds moves) (Deed.tells 1) = 1 := by
  obtain ⟨_, ready, overtaken, told, _⟩ :=
    session_after_any_run ⟨[]⟩ (.builtIn ⟨[]⟩) ⟨[], []⟩
      (overlappingStarts (.ofDefaults (.builtIn ⟨[]⟩)))
  obtain ⟨_, _, _, _, _, _, live⟩ := ready rfl
  obtain ⟨_, _, once⟩ := told 1
  exact ⟨rfl, live, overtaken 1 _ _ rfl rfl (by decide) [] (.advance 1) rfl, by decide, rfl,
    (once (by decide)).symm⟩

end LintBridge
