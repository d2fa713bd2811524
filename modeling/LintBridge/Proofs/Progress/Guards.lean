import LintBridge.Proofs.Progress.Visibility
import Mathlib.Data.List.Count

namespace LintBridge

/-- A guard: its operation, and how often the tracker had been cleared when it was made. -/
structure Guard where
  id : OperationId
  epoch : Nat
  deriving DecidableEq

/-- A tracker and the guards that were made of it, by number. One that was let go is none. -/
structure Guarded where
  tracker : Tracker
  /-- How often the tracker has been cleared. -/
  epoch : Nat
  guards : List (Option Guard)

/-- What is done with a tracker and its guards. -/
inductive GuardCall where
  | track (id : OperationId)
  | letGo (guard : Nat)
  | clear
  deriving DecidableEq

namespace Guarded

/-- A tracker of which no guard has been made. -/
def idle : Guarded := ⟨.idle, 0, []⟩

/-- A guard that has not been let go. -/
def guard? (g : Guarded) (n : Nat) : Option Guard := g.guards[n]?.join

/-- Carry out a call. A guard is let go once. -/
def call (g : Guarded) : GuardCall → Guarded
  | .track id =>
    { g with
      tracker := (g.tracker.enqueue id).tracker
      guards := g.guards ++ [some ⟨id, g.epoch⟩] }
  | .letGo n =>
    match g.guard? n with
    | some held =>
      { g with
        tracker := (g.tracker.dequeue held.id).tracker
        guards := g.guards.set n none }
    | none => g
  | .clear => { g with tracker := g.tracker.clear.tracker, epoch := g.epoch + 1 }

/-- Carry out calls one after another. -/
def course (g : Guarded) (calls : List GuardCall) : Guarded := calls.foldl call g

/-- The number of guards of an operation that were made since the tracker was last cleared and have
not been let go. -/
def fresh (g : Guarded) (id : OperationId) : Nat := g.guards.count (some ⟨id, g.epoch⟩)

/-- A guard of an operation that the tracker was cleared since, and that has not been let go. -/
def Outlives (g : Guarded) (n : Nat) (id : OperationId) : Prop :=
  ∃ held, g.guard? n = some held ∧ held.id = id ∧ held.epoch < g.epoch

/-- What holds of a tracker and its guards after any calls. -/
structure Sound (g : Guarded) : Prop where
  tracker : g.tracker.Sound
  /-- Without narrowing, progress is shown just while an operation runs. -/
  shown : g.tracker.visible = true ↔ g.tracker.active ≠ []
  made : ∀ n held, g.guard? n = some held → held.epoch ≤ g.epoch
  short : ∀ id, g.tracker.runs id ≤ g.fresh id

variable {g : Guarded}

theorem guard?_append (g : Guarded) (t : Tracker) (new : Guard) (n : Nat) (held : Guard)
    (found : guard? { g with tracker := t, guards := g.guards ++ [some new] } n = some held) :
    g.guard? n = some held ∨ held = new := by
  rw [guard?, Option.join_eq_some_iff] at found
  rcases Nat.lt_or_ge n g.guards.length with within | beyond
  · rw [List.getElem?_append_left within] at found
    exact .inl (Option.join_eq_some_iff.mpr found)
  · have member := List.mem_of_getElem? ((List.getElem?_append_right beyond).symm.trans found)
    exact .inr (Option.some.inj (List.mem_singleton.mp member))

theorem guard?_set (g : Guarded) (t : Tracker) (m n : Nat) (held : Guard)
    (found : guard? { g with tracker := t, guards := g.guards.set m none } n = some held) :
    g.guard? n = some held := by
  rw [guard?, Option.join_eq_some_iff] at found
  by_cases same : m = n
  · subst same
    rw [List.getElem?_set_self'] at found
    cases atN : g.guards[m]? <;> simp [atN] at found
  · rw [List.getElem?_set_ne same] at found
    exact Option.join_eq_some_iff.mpr found

theorem fresh_track (g : Guarded) (id other : OperationId) :
    (g.call (.track id)).fresh other = g.fresh other + if id = other then 1 else 0 := by
  have one : ([some ⟨id, g.epoch⟩] : List (Option Guard)).count (some ⟨other, g.epoch⟩) =
      if id = other then 1 else 0 := by
    by_cases same : id = other <;> simp [same]
  simp only [fresh, call, List.count_append, one]

theorem fresh_letGo {n : Nat} {held : Guard} (found : g.guard? n = some held)
    (id : OperationId) : (g.call (.letGo n)).fresh id =
      g.fresh id - if held = ⟨id, g.epoch⟩ then 1 else 0 := by
  have atN := Option.join_eq_some_iff.mp found
  obtain ⟨within, atN⟩ := List.getElem?_eq_some_iff.mp atN
  simp only [call, found, fresh, List.count_set within, atN]
  simp

/-- As the tracker is cleared, no guard has been made since. -/
theorem fresh_clear (sound : g.Sound) (id : OperationId) : (g.call .clear).fresh id = 0 := by
  refine List.count_eq_zero.mpr fun member => ?_
  obtain ⟨n, atN⟩ := List.mem_iff_getElem?.mp member
  have made := sound.made n _ (Option.join_eq_some_iff.mpr atN)
  exact Nat.not_succ_le_self _ made

theorem letGo_of_gone {n : Nat} (gone : g.guard? n = none) : g.call (.letGo n) = g := by
  simp only [call, gone]

theorem runs_track (sound : g.Sound) (id other : OperationId) :
    (g.call (.track id)).tracker.runs other =
      g.tracker.runs other + if id = other then 1 else 0 := by
  have runs := sound.tracker.runs_call (.enqueue id) other
  simp only [Tracker.call, TrackerCall.count] at runs
  simp only [call, runs]
  split <;> rfl

theorem runs_letGo (sound : g.Sound) {n : Nat} {held : Guard} (found : g.guard? n = some held)
    (id : OperationId) : (g.call (.letGo n)).tracker.runs id =
      g.tracker.runs id - if held.id = id then 1 else 0 := by
  have runs := sound.tracker.runs_call (.dequeue held.id) id
  simp only [Tracker.call, TrackerCall.count] at runs
  simp only [call, found, runs]
  split <;> rfl

theorem runs_clear (sound : g.Sound) (id : OperationId) :
    (g.call .clear).tracker.runs id = 0 :=
  sound.tracker.runs_call .clear id

theorem idle_sound : idle.Sound where
  tracker := Tracker.idle_sound
  shown := by decide
  made n held found := by simp [guard?, idle] at found
  short id := Nat.zero_le _

theorem Sound.call (sound : g.Sound) (c : GuardCall) : (g.call c).Sound := by
  cases c with
  | track id =>
    refine ⟨sound.tracker.call (.enqueue id), Tracker.visible_call (c := .enqueue id)
      (fun _ => TrackerCall.noConfusion) sound.shown, fun n held found => ?_, fun other => ?_⟩
    · rcases guard?_append g _ _ n held found with old | rfl
      · exact sound.made n held old
      · exact Nat.le_refl _
    · have short := sound.short other
      rw [runs_track sound, fresh_track]
      omega
  | letGo n =>
    cases found : g.guard? n with
    | none =>
      rw [letGo_of_gone found]
      exact sound
    | some held =>
      have tracker : (g.call (.letGo n)).tracker = (g.tracker.dequeue held.id).tracker := by
        simp only [Guarded.call, found]
      refine ⟨?_, ?_, fun m other atM => ?_, fun id => ?_⟩
      · rw [tracker]
        exact sound.tracker.call (.dequeue held.id)
      · rw [tracker]
        exact Tracker.visible_call (c := .dequeue held.id) (fun _ => TrackerCall.noConfusion)
          sound.shown
      · simp only [Guarded.call, found] at atM ⊢
        exact sound.made m other (guard?_set g _ n m other atM)
      · have short := sound.short id
        rw [runs_letGo sound found, fresh_letGo found]
        by_cases own : held.id = id
        · rw [if_pos own]
          split <;> omega
        · have other : held ≠ ⟨id, g.epoch⟩ := fun same => own (congrArg Guard.id same)
          rw [if_neg own, if_neg other]
          omega
  | clear =>
    refine ⟨sound.tracker.call .clear, Tracker.visible_call (c := .clear)
      (fun _ => TrackerCall.noConfusion) sound.shown, fun n held found => ?_, fun id => ?_⟩
    · exact Nat.le_succ_of_le (sound.made n held found)
    · rw [runs_clear sound]
      exact Nat.zero_le _

theorem Sound.course (sound : g.Sound) (calls : List GuardCall) : (g.course calls).Sound := by
  induction calls generalizing g with
  | nil => exact sound
  | cons c rest ih => exact ih (sound.call c)

theorem course_concat (g : Guarded) (calls : List GuardCall) (c : GuardCall) :
    g.course (calls ++ [c]) = (g.course calls).call c := List.foldl_concat ..

/-- A call keeps the runs of an operation to its guards, unless it lets go a guard that outlives a
clearing while there is a newer one. -/
theorem runs_call_iff (sound : g.Sound) (id : OperationId) (kept : g.tracker.runs id = g.fresh id)
    (c : GuardCall) : (g.call c).tracker.runs id = (g.call c).fresh id ↔
      ∀ n, c = .letGo n → g.Outlives n id → g.fresh id = 0 := by
  cases c with
  | track other =>
    rw [runs_track sound, fresh_track, kept]
    exact iff_of_true rfl nofun
  | clear =>
    rw [runs_clear sound, fresh_clear sound]
    exact iff_of_true rfl nofun
  | letGo n =>
    cases found : g.guard? n with
    | none =>
      rw [letGo_of_gone found]
      refine iff_of_true kept fun m same outlives => ?_
      obtain ⟨held, atM, _⟩ := outlives
      cases same
      cases found.symm.trans atM
    | some held =>
      have made := sound.made n held found
      rw [runs_letGo sound found, fresh_letGo found, kept]
      have outlives : g.Outlives n id ↔ held.id = id ∧ held.epoch < g.epoch := by
        simp only [Outlives, found, Option.some.injEq, exists_eq_left']
      have own : held = ⟨id, g.epoch⟩ ↔ held.id = id ∧ held.epoch = g.epoch := by
        obtain ⟨_, _⟩ := held
        exact Guard.mk.injEq ..  ▸ Iff.rfl
      simp only [GuardCall.letGo.injEq, forall_eq', outlives, own]
      by_cases same : held.id = id
      · by_cases current : held.epoch = g.epoch
        · simp [same, current]
        · have older : held.epoch < g.epoch := by omega
          simp only [same, current, older, and_false, and_self, if_true, if_false, forall_const]
          omega
      · simp [same]

/-- A guard that outlives a clearing ends a run of a newer one as it is let go. -/
theorem runs_of_outlives (sound : g.Sound) {n : Nat} {id : OperationId}
    (outlives : g.Outlives n id) :
    (g.call (.letGo n)).tracker.runs id = g.tracker.runs id - 1 ∧
      (g.call (.letGo n)).fresh id = g.fresh id := by
  obtain ⟨held, found, rfl, older⟩ := outlives
  have other : held ≠ ⟨held.id, g.epoch⟩ :=
    fun same => Nat.ne_of_lt older (congrArg Guard.epoch same)
  rw [runs_letGo sound found, fresh_letGo found, if_pos rfl, if_neg other]
  exact ⟨rfl, rfl⟩

theorem Sound.visible_iff (sound : g.Sound) :
    g.tracker.visible = true ↔ ∃ id, 0 < g.tracker.runs id := by
  simp only [sound.shown, Tracker.active_ne_nil_iff, sound.tracker.isActive_iff]

theorem Sound.isBusy_iff (sound : g.Sound) :
    g.tracker.isBusy = true ↔ ∃ id, 0 < g.tracker.runs id := by
  rw [← sound.visible_iff, sound.shown, Tracker.isBusy, Bool.not_eq_true',
    List.isEmpty_eq_false_iff]

/-- The runs of an operation that a tracker counts, and the guards of it that were made since the
tracker was last cleared. There are never more runs than such guards, and they are as many all along
just when no guard that outlives a clearing is let go while there is a newer one: it ends the run of
the newer one. Progress is shown, and the tracker busy, as long as there are runs, so that they are
not while a newer guard is held just when all runs have been ended that way. -/
theorem runs_of_guards (calls : List GuardCall) :
    let g := idle.course calls
    (∀ id, g.tracker.runs id ≤ g.fresh id) ∧
    (∀ id, (∀ p, p <+: calls → (idle.course p).tracker.runs id = (idle.course p).fresh id) ↔
      ∀ p n, p ++ [.letGo n] <+: calls → (idle.course p).Outlives n id →
        (idle.course p).fresh id = 0) ∧
    (∀ n id, g.Outlives n id →
      (g.call (.letGo n)).tracker.runs id = g.tracker.runs id - 1 ∧
        (g.call (.letGo n)).fresh id = g.fresh id) ∧
    (g.tracker.visible = true ↔ ∃ id, 0 < g.tracker.runs id) ∧
    (g.tracker.isBusy = true ↔ ∃ id, 0 < g.tracker.runs id) := by
  intro g
  have sound (p : List GuardCall) : (idle.course p).Sound := idle_sound.course p
  refine ⟨(sound calls).short, fun id => ⟨fun all p n part outlives => ?_, fun none p part => ?_⟩,
    fun n id => runs_of_outlives (sound calls), (sound calls).visible_iff, (sound calls).isBusy_iff⟩
  · have before := all p ((List.prefix_append p _).trans part)
    have after := all (p ++ [.letGo n]) part
    rw [course_concat] at after
    exact (runs_call_iff (sound p) id before _).mp after n rfl outlives
  · induction p using List.reverseRecOn with
    | nil => rfl
    | append_singleton p c ih =>
      have before := ih ((List.prefix_append p _).trans part)
      rw [course_concat]
      refine (runs_call_iff (sound p) id before c).mpr fun n same outlives => ?_
      subst same
      exact none p n part outlives

/-- A guard made before the tracker was cleared hides the progress of one made since. -/
theorem hidden_while_held :
    let calls : List GuardCall := [.track ⟨"a"⟩, .clear, .track ⟨"a"⟩]
    let g := idle.course calls
    g.Outlives 0 ⟨"a"⟩ ∧ (g.call (.letGo 0)).tracker.runs ⟨"a"⟩ = g.tracker.runs ⟨"a"⟩ - 1 ∧
      (g.call (.letGo 0)).fresh ⟨"a"⟩ = 1 ∧
      ((idle.course (calls ++ [.letGo 0])).tracker.visible = true ↔
        ∃ id, 0 < (idle.course (calls ++ [.letGo 0])).tracker.runs id) ∧
      (g.call (.letGo 0)).tracker.visible = false := by
  intro calls g
  have outlives : g.Outlives 0 ⟨"a"⟩ := ⟨⟨⟨"a"⟩, 0⟩, by decide, rfl, by decide⟩
  obtain ⟨_, _, ended, _⟩ := runs_of_guards calls
  obtain ⟨_, _, _, shown, _⟩ := runs_of_guards (calls ++ [.letGo 0])
  obtain ⟨runs, held⟩ := ended 0 ⟨"a"⟩ outlives
  have one : g.fresh ⟨"a"⟩ = 1 := by decide
  exact ⟨outlives, runs, held.trans one, shown, by decide⟩

/-- The runs are not always as many as the guards made since the tracker was last cleared. -/
theorem not_counted_across_clear :
    ¬∀ (calls : List GuardCall) (id : OperationId),
      (idle.course calls).tracker.runs id = (idle.course calls).fresh id := by
  intro all
  have counted := all [.track ⟨"a"⟩, .clear, .track ⟨"a"⟩, .letGo 0] ⟨"a"⟩
  revert counted
  decide

end Guarded

end LintBridge
