import LintBridge.Progress.Spinner
import LintBridge.Proofs.Progress.Visibility

namespace LintBridge

/-- What happens to a tracker with spinners: it is called, or a spinner wakes up. -/
inductive SpinnerMove where
  | call (c : TrackerCall)
  | wake (spinner : Nat)
  deriving DecidableEq

/-- A tracker and the spinners that it has started, by number. One that has stopped is none. -/
structure Spinning where
  frames : List String
  tracker : Tracker
  spinners : List (Option Spinner)
  told : List ProgressEvent

/-- What events tell as text. -/
def texts (events : List ProgressEvent) : List String :=
  events.filterMap fun
    | .text glyph => some glyph
    | _ => none

theorem texts_append (a b : List ProgressEvent) : texts (a ++ b) = texts a ++ texts b :=
  List.filterMap_append

namespace Tracker

/-- How a call leaves the visibility: it keeps it and tells of runs alone, it shows progress, or it
hides it, and then the blank text comes first. -/
inductive Turns (t : Tracker) : Tracked → Prop
  | keeps {t' : Tracker} {runs : List ProgressEvent} :
      (∀ e ∈ runs, ∃ id started, e = .operation id started) →
      t'.visible = t.visible → t'.generation = t.generation → Turns t ⟨t', runs, false⟩
  | shows {t' : Tracker} {runs : List ProgressEvent} :
      (∀ e ∈ runs, ∃ id started, e = .operation id started) → t.visible = false →
      t'.visible = true → t'.generation = t.generation + 1 →
      Turns t ⟨t', runs ++ [.visible true], true⟩
  | hides {t' : Tracker} {runs : List ProgressEvent} :
      (∀ e ∈ runs, ∃ id started, e = .operation id started) → t.visible = true →
      t'.visible = false → t'.generation = t.generation + 1 →
      Turns t ⟨t', runs ++ [.text idleGlyph, .visible false], true⟩

theorem turns_call (t : Tracker) (c : TrackerCall) : t.Turns (t.call c) := by
  have none : ∀ e ∈ ([] : List ProgressEvent), ∃ id started, e = .operation id started := nofun
  have one (id : OperationId) (started : Bool) :
      ∀ e ∈ [ProgressEvent.operation id started], ∃ id started, e = .operation id started :=
    fun e member => ⟨id, started, List.mem_singleton.mp member⟩
  cases c with
  | enqueue id =>
    cases visible : t.visible with
    | true =>
      simp only [call, enqueue, visible, if_true]
      exact .keeps (one id true) visible.symm rfl
    | false =>
      simp only [call, enqueue, visible, Bool.false_eq_true, if_false]
      exact .shows (one id true) visible rfl rfl
  | dequeue id =>
    simp only [call, dequeue]
    split
    · split
      · rename_i both
        exact .hides (one id false) (Bool.and_eq_true_iff.mp both).2 rfl rfl
      · exact .keeps (one id false) rfl rfl
    · exact .keeps none rfl rfl
  | narrow id =>
    cases concerns : t.concerns id <;> cases visible : t.visible <;>
      simp only [call, narrow, concerns, visible, Bool.not_true, Bool.not_false, Bool.and_true,
        Bool.and_false, Bool.false_eq_true, if_true, if_false]
    · exact .keeps none rfl rfl
    · exact .hides none visible rfl rfl
    · exact .shows none visible rfl rfl
    · exact .keeps none rfl rfl
  | clear =>
    simp only [call, clear]
    split
    · rename_i visible
      exact .hides none visible rfl rfl
    · exact .keeps none rfl rfl

end Tracker

namespace Spinning

/-- A tracker that has not been called. -/
def idle (frames : List String) : Spinning := ⟨frames, .idle, [], []⟩

/-- A spinner that has not stopped. -/
def spinner? (g : Spinning) (n : Nat) : Option Spinner := g.spinners[n]?.join

/-- Carry out a move. One of a spinner that has stopped does nothing. -/
def move (g : Spinning) : SpinnerMove → Spinning
  | .call c =>
    let t := g.tracker.call c
    { g with
      tracker := t.tracker
      spinners := g.spinners ++ (Spinner.ofTracked? g.frames t).toList.map some
      told := g.told ++ t.events }
  | .wake n =>
    match g.spinner? n with
    | none => g
    | some s =>
      match s.tick? g.frames g.tracker with
      | some (e, s) => { g with spinners := g.spinners.set n (some s), told := g.told ++ [e] }
      | none => { g with spinners := g.spinners.set n none }

/-- Carry out moves one after another. -/
def course (g : Spinning) (moves : List SpinnerMove) : Spinning := moves.foldl move g

/-- Whether texts are the frames in turn, from the first one on, as they are counted. -/
def InTurn (frames told : List String) : Prop :=
  ∀ i < told.length, told[i]? = frames[i % Spinner.frameLimit % frames.length]?

/-- What a tracker with spinners has told, by the number of frames since progress was shown; none
while it is hidden. -/
inductive Trace (frames : List String) : Option Nat → List ProgressEvent → Prop
  | nil : Trace frames none []
  | run {shown told} (id : OperationId) (started : Bool) : Trace frames shown told →
      Trace frames shown (told ++ [.operation id started])
  | shows {told} : Trace frames none told → Trace frames (some 0) (told ++ [.visible true])
  | frame {k told glyph} : Trace frames (some k) told →
      frames[k % Spinner.frameLimit % frames.length]? = some glyph →
      Trace frames (some (k + 1)) (told ++ [.text glyph])
  | hides {k told} : Trace frames (some k) told →
      Trace frames none (told ++ [.text Tracker.idleGlyph, .visible false])

/-- What holds of a tracker with spinners after any moves, by the number of frames since progress
was shown. -/
structure Sound (g : Spinning) (shown : Option Nat) : Prop where
  trace : Trace g.frames shown g.told
  visible : g.tracker.visible = shown.isSome
  /-- While progress is shown, one spinner belongs to it and has the next frame. -/
  turning : ∀ k, shown = some k → ∃ n s, g.spinner? n = some s ∧
    s.generation = g.tracker.generation ∧ s.frame = k % Spinner.frameLimit
  past : ∀ n s, g.spinner? n = some s → s.generation ≤ g.tracker.generation
  alone : ∀ n m s s', g.spinner? n = some s → g.spinner? m = some s' →
    s.generation = s'.generation → n = m

variable {g : Spinning} {frames : List String} {shown : Option Nat}

section Spinners

variable {n : Nat} {s : Spinner}

theorem lt_of_spinner? (found : g.spinner? n = some s) : n < g.spinners.length :=
  (List.getElem?_eq_some_iff.mp (Option.join_eq_some_iff.mp found)).1

/-- One that has been started is there behind those that were. -/
theorem spinner?_append {new : Spinner} :
    (g.spinners ++ [some new])[n]?.join = some s ↔
      g.spinner? n = some s ∨ n = g.spinners.length ∧ s = new := by
  rcases Nat.lt_trichotomy n g.spinners.length with within | rfl | beyond
  · rw [List.getElem?_append_left within, or_iff_left fun last => Nat.ne_of_lt within last.1]
    rfl
  · have absent : g.spinner? g.spinners.length = none := by
      rw [spinner?, List.getElem?_eq_none (Nat.le_refl _), Option.join_none]
    simp [absent, eq_comm]
  · have absent : g.spinner? n = none := by
      rw [spinner?, List.getElem?_eq_none (Nat.le_of_lt beyond), Option.join_none]
    have none : (g.spinners ++ [some new])[n]? = none :=
      List.getElem?_eq_none (by rw [List.length_append]; exact beyond)
    simp [absent, none, Nat.ne_of_gt beyond]

theorem spinner?_set (found : g.spinner? n = some s) (next : Option Spinner) (m : Nat) :
    (g.spinners.set n next)[m]?.join = if m = n then next else g.spinner? m := by
  by_cases same : m = n
  · subst same
    rw [List.getElem?_set_self (lt_of_spinner? found), if_pos rfl, Option.join_some]
  · rw [List.getElem?_set_ne (Ne.symm same), if_neg same, spinner?]

theorem isCurrent_iff : s.isCurrent g.tracker = true ↔
    s.generation = g.tracker.generation ∧ g.tracker.visible = true := by
  rw [Spinner.isCurrent, Bool.and_eq_true, beq_iff_eq]

/-- What comes of a spinner that wakes up: it has stopped before, it stops because its showing has
ended, or it shows the frame that it has come to. -/
inductive Woken (g : Spinning) (n : Nat) : Spinning → Prop
  | gone : g.spinner? n = none → Woken g n g
  | stops {s : Spinner} : g.spinner? n = some s → s.isCurrent g.tracker = false →
      Woken g n { g with spinners := g.spinners.set n none }
  | shows {s : Spinner} {glyph : String} : g.spinner? n = some s →
      s.isCurrent g.tracker = true → g.frames[s.frame % g.frames.length]? = some glyph →
      Woken g n { g with
        spinners := g.spinners.set n
          (some { s with frame := (s.frame + 1) % Spinner.frameLimit })
        told := g.told ++ [.text glyph] }

theorem Woken.tracker {g' : Spinning} (woken : g.Woken n g') : g'.tracker = g.tracker := by
  cases woken <;> rfl

/-- A spinner that is left was there before, for the same showing. -/
theorem Woken.spinner {g' : Spinning} (woken : g.Woken n g') {i : Nat} {s' : Spinner}
    (there : g'.spinner? i = some s') :
    ∃ s, g.spinner? i = some s ∧ s.generation = s'.generation := by
  have kept {s : Spinner} {next : Option Spinner} (found : g.spinner? n = some s)
      (same : ∀ s', next = some s' → s.generation = s'.generation)
      (there : (g.spinners.set n next)[i]?.join = some s') :
      ∃ s, g.spinner? i = some s ∧ s.generation = s'.generation := by
    rw [spinner?_set found] at there
    split at there
    · rename_i own
      exact ⟨s, own ▸ found, same s' there⟩
    · exact ⟨s', there, rfl⟩
  cases woken with
  | gone => exact ⟨s', there, rfl⟩
  | stops found => exact kept found (fun _ gone => absurd gone (Option.some_ne_none _).symm) there
  | shows found =>
    refine kept found (fun s' next => ?_) there
    rw [← Option.some.inj next]

theorem woken (filled : g.frames ≠ []) (n : Nat) : g.Woken n (g.move (.wake n)) := by
  simp only [move]
  cases found : g.spinner? n with
  | none => exact .gone found
  | some s =>
    cases current : s.isCurrent g.tracker with
    | false =>
      simp only [Spinner.tick?, current, Bool.false_eq_true, if_false]
      exact .stops found current
    | true =>
      have there := List.getElem?_eq_getElem (Nat.mod_lt s.frame (List.length_pos_iff.mpr filled))
      simp only [Spinner.tick?, current, if_true, there, Option.map_some]
      exact .shows found current there

/-- A spinner that is none of the showing under way tells nothing as it wakes up. -/
theorem wake_silent (filled : g.frames ≠ [])
    (stale : ∀ s, g.spinner? n = some s → s.isCurrent g.tracker = false) :
    (g.move (.wake n)).told = g.told := by
  have woken := g.woken filled n
  generalize g.move (.wake n) = g' at woken
  cases woken with
  | shows found current => cases (stale _ found).symm.trans current
  | _ => rfl

end Spinners

section Moves

theorem Trace.runs {told runs : List ProgressEvent}
    (operations : ∀ e ∈ runs, ∃ id started, e = .operation id started)
    (trace : Trace frames shown told) : Trace frames shown (told ++ runs) := by
  induction runs generalizing told with
  | nil => rwa [List.append_nil]
  | cons e runs ih =>
    obtain ⟨id, started, rfl⟩ := operations e List.mem_cons_self
    rw [← List.singleton_append, ← List.append_assoc]
    exact ih (fun e member => operations e (List.mem_cons_of_mem _ member)) (.run id started trace)

theorem idle_sound (frames : List String) : (idle frames).Sound none where
  trace := .nil
  visible := rfl
  turning := nofun
  past n s found := by simp [spinner?, idle] at found
  alone n m s s' found := by simp [spinner?, idle] at found

/-- A call keeps what is shown, or shows or hides progress; a spinner is started as it is shown. -/
theorem Sound.call (sound : g.Sound shown) (filled : g.frames ≠ []) (c : TrackerCall) :
    ∃ shown', (g.move (.call c)).Sound shown' := by
  have turns := g.tracker.turns_call c
  simp only [move]
  generalize g.tracker.call c = t at turns
  cases turns with
  | @keeps t' runs operations visible generation =>
    have quiet : Spinner.ofTracked? g.frames ⟨t', runs, false⟩ = none := by
      simp [Spinner.ofTracked?]
    simp only [quiet, Option.toList_none, List.map_nil, List.append_nil]
    refine ⟨shown, sound.trace.runs operations, visible.trans sound.visible, fun k now => ?_,
      fun n s found => ?_, sound.alone⟩
    · obtain ⟨n, s, found, current, frame⟩ := sound.turning k now
      exact ⟨n, s, found, current.trans generation.symm, frame⟩
    · rw [generation]
      exact sound.past n s found
  | @shows t' runs operations hidden visible generation =>
    have started : Spinner.ofTracked? g.frames ⟨t', runs ++ [.visible true], true⟩ =
        some ⟨t'.generation, 0⟩ := by
      simp [Spinner.ofTracked?, visible, filled]
    simp only [started, Option.toList_some, List.map_cons, List.map_nil]
    cases shown with
    | some k => cases hidden.symm.trans sound.visible
    | none =>
      have old {n : Nat} {s : Spinner} (found : g.spinner? n = some s) :
          s.generation < t'.generation := by
        have past := sound.past n s found
        omega
      refine ⟨some 0, ?_, visible, fun k now => ?_, fun n s found => ?_,
        fun n m s s' first second same => ?_⟩
      · rw [← List.append_assoc]
        exact (sound.trace.runs operations).shows
      · cases now
        exact ⟨g.spinners.length, _, spinner?_append.mpr (.inr ⟨rfl, rfl⟩), rfl,
          (Nat.zero_mod _).symm⟩
      · rcases spinner?_append.mp found with before | ⟨_, rfl⟩
        · exact Nat.le_of_lt (old before)
        · exact Nat.le_refl _
      · rcases spinner?_append.mp first with before | ⟨rfl, rfl⟩ <;>
          rcases spinner?_append.mp second with before' | ⟨rfl, rfl⟩
        · exact sound.alone n m s s' before before' same
        · exact absurd same (Nat.ne_of_lt (old before))
        · exact absurd same.symm (Nat.ne_of_lt (old before'))
        · rfl
  | @hides t' runs operations visible hidden generation =>
    have quiet : Spinner.ofTracked? g.frames
        ⟨t', runs ++ [.text Tracker.idleGlyph, .visible false], true⟩ = none := by
      simp [Spinner.ofTracked?, hidden]
    simp only [quiet, Option.toList_none, List.map_nil, List.append_nil]
    cases shown with
    | none => cases visible.symm.trans sound.visible
    | some k =>
      refine ⟨none, ?_, hidden, nofun, fun n s found => ?_, sound.alone⟩
      · rw [← List.append_assoc]
        exact (sound.trace.runs operations).hides
      · rw [generation]
        exact Nat.le_succ_of_le (sound.past n s found)

/-- A spinner that wakes up shows the next frame, or stops. -/
theorem Sound.wake (sound : g.Sound shown) (filled : g.frames ≠ []) (n : Nat) :
    ∃ shown', (g.move (.wake n)).Sound shown' := by
  have woken := g.woken filled n
  generalize g.move (.wake n) = g' at woken
  have past (i : Nat) (s : Spinner) (there : g'.spinner? i = some s) :
      s.generation ≤ g'.tracker.generation := by
    obtain ⟨before, there, generation⟩ := woken.spinner there
    rw [woken.tracker, ← generation]
    exact sound.past i before there
  have alone (i j : Nat) (a b : Spinner) (first : g'.spinner? i = some a)
      (second : g'.spinner? j = some b) (same : a.generation = b.generation) : i = j := by
    obtain ⟨_, first, generationA⟩ := woken.spinner first
    obtain ⟨_, second, generationB⟩ := woken.spinner second
    exact sound.alone i j _ _ first second (generationA.trans (same.trans generationB.symm))
  cases woken with
  | gone => exact ⟨shown, sound⟩
  | @stops s found stale =>
    refine ⟨shown, sound.trace, sound.visible, fun k now => ?_, past, alone⟩
    obtain ⟨m, s', found', generation, frame⟩ := sound.turning k now
    have other : m ≠ n := by
      rintro rfl
      cases found.symm.trans found'
      have visible : g.tracker.visible = true := by rw [sound.visible, now, Option.isSome_some]
      cases stale.symm.trans (isCurrent_iff.mpr ⟨generation, visible⟩)
    exact ⟨m, s', ((spinner?_set found _ m).trans (if_neg other)).trans found', generation, frame⟩
  | @shows s glyph found current frame =>
    obtain ⟨generation, visible⟩ := isCurrent_iff.mp current
    cases shown with
    | none => cases visible.symm.trans sound.visible
    | some k =>
      obtain ⟨m, s', found', generation', frame'⟩ := sound.turning k rfl
      cases sound.alone n m s s' found found' (generation.trans generation'.symm)
      cases found.symm.trans found'
      refine ⟨some (k + 1), sound.trace.frame (frame' ▸ frame), sound.visible, fun k' now => ?_,
        past, alone⟩
      cases now
      refine ⟨n, _, (spinner?_set found _ n).trans (if_pos rfl), generation, ?_⟩
      rw [frame', Nat.mod_add_mod]

theorem frames_move (g : Spinning) (m : SpinnerMove) : (g.move m).frames = g.frames := by
  cases m with
  | call c => rfl
  | wake n =>
    simp only [move]
    split
    · rfl
    · split <;> rfl

theorem course_append (g : Spinning) (p q : List SpinnerMove) :
    g.course (p ++ q) = (g.course p).course q := List.foldl_append

theorem frames_course (g : Spinning) (moves : List SpinnerMove) :
    (g.course moves).frames = g.frames := by
  induction moves generalizing g with
  | nil => rfl
  | cons m moves ih => exact (ih (g.move m)).trans (g.frames_move m)

theorem Sound.course (sound : g.Sound shown) (filled : g.frames ≠ []) (moves : List SpinnerMove) :
    ∃ shown', (g.course moves).Sound shown' := by
  induction moves generalizing g shown with
  | nil => exact ⟨shown, sound⟩
  | cons m moves ih =>
    have next : ∃ shown', (g.move m).Sound shown' := by
      cases m with
      | call c => exact sound.call filled c
      | wake n => exact sound.wake filled n
    obtain ⟨shown', sound'⟩ := next
    exact ih sound' ((g.frames_move m).symm ▸ filled)

end Moves

section Later

/-- What has become of a tracker with spinners: more was told, those spinners that are left are of
the showings that they were of, and a showing that has ended is not the present one. -/
structure Later (g g' : Spinning) (new : List ProgressEvent) : Prop where
  told : g'.told = g.told ++ new
  length : g.spinners.length ≤ g'.spinners.length
  generation : g.tracker.generation ≤ g'.tracker.generation
  ended : .visible false ∈ new → g.tracker.generation < g'.tracker.generation
  spinner : ∀ n s', n < g.spinners.length → g'.spinner? n = some s' →
    ∃ s, g.spinner? n = some s ∧ s.generation = s'.generation

theorem Later.refl (g : Spinning) : g.Later g [] :=
  ⟨(List.append_nil _).symm, Nat.le_refl _, Nat.le_refl _, nofun,
    fun _ s' _ found => ⟨s', found, rfl⟩⟩

theorem Later.trans {g g' g'' : Spinning} {new new' : List ProgressEvent} (first : g.Later g' new)
    (second : g'.Later g'' new') : g.Later g'' (new ++ new') where
  told := by rw [second.told, first.told, List.append_assoc]
  length := first.length.trans second.length
  generation := first.generation.trans second.generation
  ended member := by
    rcases List.mem_append.mp member with before | after
    · exact (first.ended before).trans_le second.generation
    · exact first.generation.trans_lt (second.ended after)
  spinner n s'' within found := by
    obtain ⟨s', found', same'⟩ := second.spinner n s'' (within.trans_le first.length) found
    obtain ⟨s, found, same⟩ := first.spinner n s' within found'
    exact ⟨s, found, same.trans same'⟩

theorem later_move (filled : g.frames ≠ []) (m : SpinnerMove) : ∃ new, g.Later (g.move m) new := by
  cases m with
  | call c =>
    have turns := g.tracker.turns_call c
    refine ⟨(g.tracker.call c).events, rfl, ?_, ?_, ?_, fun n s' within found => ⟨s', ?_, rfl⟩⟩
    · simp [move]
    · simp only [move]
      generalize g.tracker.call c = t at turns
      cases turns <;> simp [*]
    · simp only [move]
      generalize g.tracker.call c = t at turns
      cases turns with
      | keeps operations =>
        intro member
        obtain ⟨_, _, same⟩ := operations _ member
        cases same
      | shows operations _ _ generation => simp [generation]
      | hides operations _ _ generation => simp [generation]
    · rw [spinner?, move, List.getElem?_append_left within] at found
      exact found
  | wake n =>
    have woken := g.woken filled n
    generalize g.move (.wake n) = g' at woken
    have kept (i : Nat) (s' : Spinner) (_ : i < g.spinners.length)
        (there : g'.spinner? i = some s') := woken.spinner there
    cases woken with
    | gone => exact ⟨[], .refl g⟩
    | stops => exact ⟨[], (List.append_nil _).symm, by simp, Nat.le_refl _, nofun, kept⟩
    | @shows _ glyph => exact ⟨[.text glyph], rfl, by simp, Nat.le_refl _, by simp, kept⟩

theorem later_course (filled : g.frames ≠ []) (moves : List SpinnerMove) :
    ∃ new, g.Later (g.course moves) new := by
  induction moves generalizing g with
  | nil => exact ⟨[], .refl g⟩
  | cons m moves ih =>
    obtain ⟨new, first⟩ := later_move filled m
    obtain ⟨new', others⟩ := ih ((g.frames_move m).symm ▸ filled)
    exact ⟨new ++ new', first.trans others⟩

/-- A spinner that was started before progress was last hidden is of a showing that has ended. -/
theorem Later.stale {g g' : Spinning} {new : List ProgressEvent} (later : g.Later g' new)
    (sound : g.Sound shown) (ended : .visible false ∈ new) {n : Nat}
    (within : n < g.spinners.length) {s : Spinner} (found : g'.spinner? n = some s) :
    s.isCurrent g'.tracker = false := by
  obtain ⟨before, there, same⟩ := later.spinner n s within found
  have past := sound.past n before there
  have ended := later.ended ended
  refine Bool.eq_false_iff.mpr fun current => ?_
  obtain ⟨generation, _⟩ := isCurrent_iff.mp current
  omega

end Later

section Traces

/-- What was told since progress was shown: the frames in turn and nothing of the visibility, up to
now or up to where progress was hidden, which the blank text and the visibility say in that order.
-/
inductive Since (frames : List String) (shown : Option Nat) (told : List ProgressEvent) : Prop
  | shown : shown = some (texts told).length → visibilities told = [] →
      InTurn frames (texts told) → Since frames shown told
  | ended {during later : List ProgressEvent} :
      told = during ++ .text Tracker.idleGlyph :: .visible false :: later →
      visibilities during = [] → InTurn frames (texts during) → Since frames shown told

theorem eq_nil_or_of_concat {α : Type} {a c : α} {as bs cs : List α}
    (same : as ++ [a] = bs ++ c :: cs) :
    cs = [] ∧ a = c ∧ as = bs ∨ ∃ cs', cs = cs' ++ [a] ∧ as = bs ++ c :: cs' := by
  rcases List.eq_nil_or_concat cs with rfl | ⟨cs', b, rfl⟩
  · obtain ⟨front, last⟩ := List.append_inj' same rfl
    exact .inl ⟨rfl, List.cons.inj last |>.1, front⟩
  · rw [List.concat_eq_append, ← List.cons_append, ← List.append_assoc] at same
    obtain ⟨front, last⟩ := List.append_inj' same rfl
    exact .inr ⟨cs', by rw [List.concat_eq_append, (List.cons.inj last).1], front⟩

theorem inTurn_append {told : List String} {glyph : String} (turn : InTurn frames told)
    (next : frames[told.length % Spinner.frameLimit % frames.length]? = some glyph) :
    InTurn frames (told ++ [glyph]) := by
  intro i within
  rcases Nat.lt_or_ge i told.length with before | last
  · rw [List.getElem?_append_left before, turn i before]
  · have same : i = told.length := by
      rw [List.length_append, List.length_singleton] at within
      omega
    rw [same, next, List.getElem?_append_right (Nat.le_refl _), Nat.sub_self,
      List.getElem?_cons_zero]

/-- A showing that has ended stays so, whatever is told afterwards. -/
theorem Since.ended_append {told during later : List ProgressEvent}
    (same : told = during ++ .text Tracker.idleGlyph :: .visible false :: later)
    (kept : visibilities during = []) (turn : InTurn frames (texts during))
    (new : List ProgressEvent) : Since frames shown (told ++ new) := by
  refine .ended (?_ : _ = during ++ .text Tracker.idleGlyph :: .visible false :: (later ++ new))
    kept turn
  rw [same, List.append_assoc]
  rfl

/-- What follows a showing in a trace. -/
theorem Trace.since {told before after : List ProgressEvent} (trace : Trace frames shown told)
    (same : told = before ++ .visible true :: after) : Since frames shown after := by
  induction trace generalizing after with
  | nil => cases before <;> cases same
  | @run shown told id started _ ih =>
    rcases eq_nil_or_of_concat same with ⟨_, other, _⟩ | ⟨front, rfl, was⟩
    · cases other
    cases ih was with
    | shown now kept turn =>
      have silent : texts (front ++ [.operation id started]) = texts front := by simp [texts]
      exact .shown (silent ▸ now) (by simpa [visibilities] using kept) (silent ▸ turn)
    | ended was kept turn => exact .ended_append was kept turn _
  | shows _ ih =>
    rcases eq_nil_or_of_concat same with ⟨rfl, _, _⟩ | ⟨front, rfl, was⟩
    · exact .shown rfl rfl fun i within => absurd within (Nat.not_lt_zero i)
    cases ih was with
    | shown now => cases now
    | ended was kept turn => exact .ended_append was kept turn _
  | @frame k told glyph _ next ih =>
    rcases eq_nil_or_of_concat same with ⟨_, other, _⟩ | ⟨front, rfl, was⟩
    · cases other
    cases ih was with
    | shown now kept turn =>
      have glyphs : texts (front ++ [.text glyph]) = texts front ++ [glyph] := texts_append ..
      rw [Option.some.inj now] at next ⊢
      refine .shown ?_ ?_ (glyphs ▸ inTurn_append turn next)
      · rw [glyphs, List.length_append, List.length_singleton]
      · rw [visibilities_append, kept]
        rfl
    | ended was kept turn => exact .ended_append was kept turn _
  | @hides k told _ ih =>
    rw [← List.singleton_append, ← List.append_assoc] at same
    rcases eq_nil_or_of_concat same with ⟨_, other, _⟩ | ⟨middle, rfl, blank⟩
    · cases other
    rcases eq_nil_or_of_concat blank with ⟨_, other, _⟩ | ⟨front, rfl, was⟩
    · cases other
    rw [List.append_assoc]
    cases ih was with
    | shown _ kept turn => exact .ended rfl kept turn
    | ended was kept turn => exact .ended_append was kept turn _

end Traces

/-- Spinners that wake up in any order beside the calls of a tracker, for any frames. Since progress
was shown the frames were told in turn, from the first one on, and nothing of the visibility, up to
now or to where it was hidden; the blank text comes first then. A call that hides progress tells
just that, behind the end of a run. While progress is hidden no spinner that wakes up tells
anything, and one that was started before progress was last hidden never does, though it is shown
again. While it is shown, one spinner goes on, and no other. -/
theorem frames_of_showings {frames : List String} (filled : frames ≠ [])
    (moves : List SpinnerMove) :
    let g := (idle frames).course moves
    (∀ before after, g.told = before ++ .visible true :: after →
      ∃ during rest, after = during ++ rest ∧ visibilities during = [] ∧
        (rest = [] ∨
          ∃ later, rest = .text Tracker.idleGlyph :: .visible false :: later) ∧
        ((texts during).length ≤ Spinner.frameLimit → ∀ i < (texts during).length,
          (texts during)[i]? = frames[i % frames.length]?)) ∧
    (∀ c, g.tracker.visible = true → (g.tracker.call c).tracker.visible = false →
      ∃ runs, (g.tracker.call c).events = runs ++ [.text Tracker.idleGlyph, .visible false] ∧
        ∀ e ∈ runs, ∃ id started, e = .operation id started) ∧
    (g.tracker.visible = false → ∀ n, (g.move (.wake n)).told = g.told) ∧
    (∀ p q later n, moves = p ++ q → g.told = ((idle frames).course p).told ++ later →
      .visible false ∈ later → n < ((idle frames).course p).spinners.length →
      (g.move (.wake n)).told = g.told) ∧
    (g.tracker.visible = true → ∃ n glyph, (g.move (.wake n)).told = g.told ++ [.text glyph] ∧
      ∀ m, m ≠ n → (g.move (.wake m)).told = g.told) := by
  intro g
  have same : g.frames = frames := frames_course _ moves
  obtain ⟨shown, sound⟩ := (idle_sound frames).course filled moves
  refine ⟨fun before after told => ?_, fun c visible hidden => ?_, fun hidden n => ?_,
    fun p q later n parts told ended within => ?_, fun visible => ?_⟩
  · have limited {told : List String} (short : told.length ≤ Spinner.frameLimit)
        (turn : InTurn frames told) :
        ∀ i < told.length, told[i]? = frames[i % frames.length]? := fun i within => by
      rw [turn i within, Nat.mod_eq_of_lt (within.trans_le short)]
    cases (same ▸ sound.trace).since told with
    | shown _ kept turn =>
      exact ⟨after, [], (List.append_nil _).symm, kept, .inl rfl, fun short => limited short turn⟩
    | @ended during later told kept turn =>
      exact ⟨during, _, told, kept, .inr ⟨later, rfl⟩, fun short => limited short turn⟩
  · have turns := g.tracker.turns_call c
    generalize g.tracker.call c = t at turns hidden
    cases turns with
    | keeps _ kept => cases visible.symm.trans (kept.symm.trans hidden)
    | shows _ _ shown => cases shown.symm.trans hidden
    | @hides t' runs operations => exact ⟨runs, rfl, operations⟩
  · refine wake_silent (same ▸ filled) fun s _ => Bool.eq_false_iff.mpr fun current => ?_
    cases hidden.symm.trans (isCurrent_iff.mp current).2
  · obtain ⟨_, started⟩ := (idle_sound frames).course filled p
    have onward : g = ((idle frames).course p).course q := by rw [← course_append, ← parts]
    have same' : ((idle frames).course p).frames = frames := frames_course _ p
    obtain ⟨new, followed⟩ := later_course (same'.symm ▸ filled) q
    rw [← onward] at followed
    have news : later = new := List.append_cancel_left (told.symm.trans followed.told)
    exact wake_silent (same ▸ filled) fun s found =>
      followed.stale started (news ▸ ended) within found
  · cases shown with
    | none => cases visible.symm.trans sound.visible
    | some k =>
      obtain ⟨n, s, found, generation, frame⟩ := sound.turning k rfl
      have current := isCurrent_iff.mpr ⟨generation, visible⟩
      have next : ∃ glyph, (g.move (.wake n)).told = g.told ++ [.text glyph] := by
        have woken := g.woken (same.symm ▸ filled) n
        generalize g.move (.wake n) = g' at woken
        cases woken with
        | gone absent => cases found.symm.trans absent
        | stops found' stale =>
          cases found.symm.trans found'
          cases current.symm.trans stale
        | @shows _ glyph => exact ⟨glyph, rfl⟩
      obtain ⟨glyph, told⟩ := next
      refine ⟨n, glyph, told, fun m other => wake_silent (same.symm ▸ filled) fun s' found' =>
        Bool.eq_false_iff.mpr fun current' => other ?_⟩
      exact sound.alone m n s' s found' found ((isCurrent_iff.mp current').1.trans generation.symm)

/-- The spinner of a first showing, and one of a second that has told a frame. -/
def shownTwice : List SpinnerMove :=
  [.call (.enqueue ⟨"a"⟩), .wake 0, .wake 0, .call (.dequeue ⟨"a"⟩), .call (.enqueue ⟨"b"⟩),
    .wake 1]

theorem frames_of_shownTwice :
    let frames := SpinnerFrames.ascii.glyphs
    let g := (idle frames).course shownTwice
    frames ≠ [] ∧ g.told = [.operation ⟨"a"⟩ true, .visible true, .text "-", .text "\\",
      .operation ⟨"a"⟩ false, .text Tracker.idleGlyph, .visible false, .operation ⟨"b"⟩ true,
      .visible true, .text "-"] ∧ (g.move (.wake 0)).told = g.told ∧
      ∃ n glyph, (g.move (.wake n)).told = g.told ++ [.text glyph] ∧
        ∀ m, m ≠ n → (g.move (.wake m)).told = g.told := by
  have filled : SpinnerFrames.ascii.glyphs ≠ [] := by decide
  obtain ⟨_, _, _, stale, turning⟩ := frames_of_showings filled shownTwice
  have ended := stale (shownTwice.take 3) (shownTwice.drop 3)
    [.operation ⟨"a"⟩ false, .text Tracker.idleGlyph, .visible false, .operation ⟨"b"⟩ true,
      .visible true, .text "-"] 0 rfl (by decide) (by decide) (by decide)
  exact ⟨filled, by decide, ended, turning (by decide)⟩

end Spinning

end LintBridge
