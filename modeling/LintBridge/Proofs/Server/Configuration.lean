import LintBridge.Proofs.Server.Turns
import Mathlib.Data.List.Induction

namespace LintBridge

open Chronicle (arrivals takeOvers)

/-- Whether an incident is the turn of a task. -/
def Incident.isTurn (n : Nat) : Incident → Bool
  | goOn m => m = n
  | _ => false

namespace Server

variable {s : Server} {site : Site} {env : Environment} {d : Defaults} {files : FileTree}
  {h : Chronicle}

/-- The settings that the server is told by an incident. -/
def configuration? (s : Server) : Incident → Option Settings
  | .frame value =>
    if s.ended.isSome then none else s.site?.bind fun _ => Rpc.settings? s.env s.defaults value
  | _ => none

/-- The settings that the server is told, in their order. -/
def configurations (s : Server) : List Incident → List Settings
  | [] => []
  | i :: rest => (s.configuration? i).toList ++ (s.meet i).configurations rest

/-- How many turns of a task an incident is. -/
def turn (s : Server) (n : Nat) (i : Incident) : Nat :=
  if s.ended.isNone && i.isTurn n && !s.isOver n then 1 else 0

/-- How many turns a task has. -/
def turns (s : Server) (n : Nat) : List Incident → Nat
  | [] => 0
  | i :: rest => s.turn n i + (s.meet i).turns n rest

/-- Whether the tasks that come to start the session have their second turns in the order in which
they came. -/
def InTurn (s : Server) (incidents : List Incident) : Prop :=
  ∀ p, p <+: incidents → ∀ older ∈ arrivals (s.deeds incidents),
    ∀ newer ∈ arrivals (s.deeds incidents), older.1 < newer.1 →
      2 ≤ s.turns newer.1 p → 2 ≤ s.turns older.1 p

end Server

/-- A task that has come is another's than the one that goes on. -/
theorem Stake.Step.not_arrive {σ σ' : Standing} {k k' : Stake} {st : Settings} :
    ¬Stake.Step σ k (some (.arrive st)) σ' k' := nofun

namespace Server

variable {s : Server} {site : Site} {env : Environment} {d : Defaults} {files : FileTree}
  {h : Chronicle}

/-- Only a change of the configuration that makes sense makes a task come to start the session. -/
theorem configuration?_of_arrive (found : s.site? = some site) {i : Incident} {who : Option Nat}
    {st : Settings} (labelled : s.deed? i = some (who, .arrive st)) :
    s.configuration? i = some st := by
  obtain ⟨running, ⟨_, closes⟩ | ⟨m, move, does⟩⟩ := of_deed? found labelled
  · cases closes
  cases does with
  | arrive =>
    obtain ⟨value, rfl, _, reads⟩ := of_spawn found move
    rw [configuration?, running, if_neg Bool.false_ne_true, found]
    exact reads st rfl
  | own _ does => exact absurd (does ▸ site.workspace.advance_step _) Stake.Step.not_arrive

/-- What a change of the configuration is, to a server whose workspace is open. -/
theorem of_configuration? {i : Incident} {st : Settings} (told : s.configuration? i = some st) :
    ∃ value site, i = .frame value ∧ s.ended.isSome = false ∧ s.site? = some site ∧
      Rpc.settings? s.env s.defaults value = some st := by
  cases i with
  | frame value =>
    simp only [configuration?] at told
    split at told
    · cases told
    · rename_i running
      obtain ⟨site, found, reads⟩ := Option.bind_eq_some_iff.mp told
      exact ⟨value, site, rfl, Bool.eq_false_iff.mpr running, found, reads⟩
  | _ => cases told

/-- Every change of the configuration makes a task come. -/
theorem arrive_of_configuration? (past : s.Past env d files h) {i : Incident} {st : Settings}
    (told : s.configuration? i = some st) :
    s.deed? i = some (some s.jobs.length, .arrive st) := by
  obtain ⟨value, site, rfl, running, found, reads⟩ := of_configuration? told
  obtain ⟨length, _⟩ := past.opened site found
  have handled : s.handle value = s.spawn (.start st) .silent := handle_settings found reads
  have sites : (s.handle value).site = site.move (.spawn (.start st)) := by
    rw [handled, ← site_eq found]
    rfl
  have same : (s.meet (.frame value)).shuttingDown = s.shuttingDown := by
    rw [meet_frame running, handled]
    rfl
  have move : s.move? (.frame value) = some (.spawn (.start st)) := by
    simp [move?, sites, site_eq found, Site.move, Site.task?]
  rw [deed?_of_move found running same move, ← length]
  rfl

/-- The tasks that come with an incident are those of its configuration. -/
theorem arrivals_deed? (past : s.Past env d files h) (i : Incident) :
    arrivals (s.deed? i).toList = ((s.configuration? i).map (s.jobs.length, ·)).toList := by
  cases told : s.configuration? i with
  | some st =>
    rw [arrive_of_configuration? past told]
    rfl
  | none =>
    refine List.eq_nil_iff_forall_not_mem.mpr fun ⟨n, st⟩ member => ?_
    have labelled := Option.mem_toList.mp (Chronicle.mem_arrivals.mp member)
    cases found : s.site? with
    | none =>
      rw [(meet_first found (past.closed found).1 i).1] at labelled
      cases labelled
    | some site => cases told.symm.trans (configuration?_of_arrive found labelled)

/-- The tasks that have come have the settings that the server was told. -/
theorem arrivals_deeds (past : s.Past env d files h) (incidents : List Incident) :
    (arrivals (s.deeds incidents)).map Prod.snd = s.configurations incidents := by
  induction incidents generalizing s h with
  | nil => rfl
  | cons i rest ih =>
    rw [deeds, configurations, Chronicle.arrivals_append, List.map_append, ih (past.meet i),
      arrivals_deed? past i]
    cases s.configuration? i <;> rfl

theorem turns_append (s : Server) (n : Nat) (incidents more : List Incident) :
    s.turns n (incidents ++ more) = s.turns n incidents + (s.course incidents).turns n more := by
  induction incidents generalizing s with
  | nil => exact (Nat.zero_add _).symm
  | cons i rest ih =>
    rw [List.cons_append, turns, turns, ih, Nat.add_assoc]
    rfl

theorem turns_concat (s : Server) (n : Nat) (incidents : List Incident) (i : Incident) :
    s.turns n (incidents ++ [i]) = s.turns n incidents + (s.course incidents).turn n i := by
  rw [turns_append, turns, turns, Nat.add_zero]

theorem turn_of_ended (ended : s.ended.isSome = true) (n : Nat) (i : Incident) :
    s.turn n i = 0 := by
  have finished : s.ended.isNone = false := by rw [← Option.not_isSome, ended]; rfl
  rw [turn, finished]
  rfl

theorem turn_of_other {n : Nat} {i : Incident} (other : i ≠ .goOn n) : s.turn n i = 0 := by
  have others : i.isTurn n = false := by
    cases i with
    | goOn m => exact decide_eq_false fun same => other (congrArg Incident.goOn same)
    | _ => rfl
  rw [turn, others, Bool.and_false]
  rfl

theorem turn_of_goOn {n : Nat} (running : s.ended.isSome = false) (working : s.isOver n = false) :
    s.turn n (.goOn n) = 1 := by
  have goes : s.ended.isNone = true := by rw [← Option.not_isSome, running]; rfl
  have own : (Incident.goOn n).isTurn n = true := decide_eq_true rfl
  rw [turn, goes, own, working]
  rfl

/-- A task that is to start the session is still to do so until its second turn, and does so with
it. -/
theorem Due.meet {n : Nat} {st : Settings} {turns : Nat} (due : s.Due site n st turns)
    (found : s.site? = some site) (i : Incident) {site' : Site}
    (found' : (s.meet i).site? = some site') :
    (s.meet i).Due site' n st (turns + s.turn n i) ∨ 2 ≤ turns + s.turn n i ∧
      ∃ st', s.deed? i = some (some n, .takeOver st') ∧ st'.settings = st := by
  have working := isOver_of_silent due.job
  have still (none : s.turn n i = 0)
      (after : ∃ site', (s.meet i).site? = some site' ∧ (s.meet i).Due site' n st turns) :
      (s.meet i).Due site' n st (turns + s.turn n i) := by
    obtain ⟨site'', found'', due'⟩ := after
    cases found'.symm.trans found''
    rw [none]
    exact due'
  cases running : s.ended.isSome with
  | true => exact .inl (still (turn_of_ended running n i) (due.other found (.inl running)))
  | false =>
    by_cases own : i.task? = some n
    · cases i with
      | goOn m =>
        cases own
        rw [turn_of_goOn running working]
        rcases Nat.lt_or_ge turns 1 with none | one
        · obtain rfl : turns = 0 := by omega
          obtain ⟨meets, due'⟩ := due.first found running
          cases found'.symm.trans (congrArg Server.site? meets)
          exact .inl due'
        · obtain rfl : turns = 1 := by have := due.early; omega
          exact .inr ⟨Nat.le_refl _, due.second found running⟩
      | answer m a =>
        cases own
        exact .inl (still (turn_of_other Incident.noConfusion) (due.answer found running a))
      | _ => cases own
    · refine .inl (still (turn_of_other fun same => own ?_) (due.other found (.inr own)))
      rw [same]
      rfl

/-- Where the tasks that have come to start the session stand after their turns: one that has had
two has taken the session over, and one that has not is still to do so. -/
structure Appointed (s : Server) (h : Chronicle) (turns : Nat → Nat) : Prop where
  none : ∀ n, s.jobs.length ≤ n → turns n = 0
  kept : ∀ n st, (n, st) ∈ arrivals h → ∃ site, s.site? = some site ∧ s.Underway site n ∧
    (s.Due site n st (turns n) ∨ 2 ≤ turns n ∧ (n, st) ∈ takeOvers h)

theorem Appointed.meet {turns : Nat → Nat} (appointed : s.Appointed h turns)
    (past : s.Past env d files h) (within : s.AskedWithin) (i : Incident) :
    (s.meet i).Appointed (h ++ (s.deed? i).toList) fun n => turns n + s.turn n i := by
  have none (n : Nat) (beyond : s.jobs.length ≤ n) : turns n + s.turn n i = 0 := by
    have finished : s.isOver n = true := by simp only [isOver, List.getElem?_eq_none beyond]
    simp [appointed.none n beyond, turn, finished]
  refine ⟨fun n beyond => none n (Nat.le_trans (jobs_meet past i) beyond), fun n st member => ?_⟩
  rw [Chronicle.arrivals_append] at member
  rcases List.mem_append.mp member with old | new
  · obtain ⟨site, found, underway, state⟩ := appointed.kept n st old
    obtain ⟨site', found', _⟩ := meet_step found i
    refine ⟨site', found', underway.meet found i found', ?_⟩
    have later {a : Nat × Settings} (member : a ∈ takeOvers h) :
        a ∈ takeOvers (h ++ (s.deed? i).toList) := by
      rw [Chronicle.takeOvers_append]
      exact List.mem_append_left _ member
    rcases state with due | ⟨twice, taken⟩
    · rcases due.meet found i found' with due' | ⟨twice, st', takes, same⟩
      · exact .inl due'
      · refine .inr ⟨twice, Chronicle.mem_takeOvers.mpr ⟨st', List.mem_append_right _ ?_, same⟩⟩
        exact Option.mem_toList.mpr takes
    · exact .inr ⟨by omega, later taken⟩
  · rw [arrivals_deed? past i] at new
    obtain ⟨st', told, same⟩ := Option.map_eq_some_iff.mp (Option.mem_toList.mp new)
    cases same
    obtain ⟨value, site, rfl, running, found, reads⟩ := of_configuration? told
    obtain ⟨found', due⟩ := due_of_settings past within found running reads
    refine ⟨_, found', due.underway, .inl ?_⟩
    rw [none _ (Nat.le_refl _)]
    exact due

theorem appointed_course (env : Environment) (d : Defaults) (files : FileTree) (here : Path)
    (incidents : List Incident) : let first := new env d files here
    (first.course incidents).Appointed (first.deeds incidents)
      fun n => first.turns n incidents := by
  intro first
  induction incidents using List.reverseRecOn with
  | nil => exact ⟨fun _ _ => rfl, nofun⟩
  | append_singleton p i ih =>
    have next := ih.meet (past_course env d files here p) (askedWithin_course env d files here p) i
    simp only [course_concat, deeds_concat, turns_concat]
    exact next

/-- A task that comes later has a higher number than those that there are. -/
theorem length_le_of_arrivals (past : s.Past env d files h) {incidents : List Incident}
    {a : Nat × Settings} (member : a ∈ arrivals (s.deeds incidents)) : s.jobs.length ≤ a.1 := by
  induction incidents generalizing s h with
  | nil => cases member
  | cons i rest ih =>
    rw [deeds, Chronicle.arrivals_append] at member
    rcases List.mem_append.mp member with first | later
    · rw [arrivals_deed? past i] at first
      obtain ⟨st, _, rfl⟩ := Option.map_eq_some_iff.mp (Option.mem_toList.mp first)
      exact Nat.le_refl _
    · have grows := jobs_meet past i
      have beyond := ih (past.meet i) later
      omega

section Order

variable (env : Environment) (d : Defaults) (files : FileTree) (here : Path)

/-- The chronicle of a server is one of views, from one without tasks. -/
theorem reach_deeds (p : List Incident) : ∃ v₀ v : View, v₀.stakes = [] ∧ v₀.Sound ∧
    View.Reach v₀ ((new env d files here).deeds p) v ∧
      ∀ site, ((new env d files here).course p).site? = some site → site.view = v := by
  have past := past_course env d files here p
  cases found : ((new env d files here).course p).site? with
  | none =>
    let v₀ := (Site.new (.new here d files)).view
    have nothing : (new env d files here).deeds p = [] := (past.closed found).2.2
    refine ⟨v₀, v₀, rfl, Workspace.new_sound here d files, nothing ▸ .start, fun site opened => ?_⟩
    cases opened
  | some site =>
    obtain ⟨_, project, reach⟩ := past.opened site found
    let v₀ := (Site.new (.new project d files)).view
    refine ⟨v₀, site.view, rfl, Workspace.new_sound project d files, reach, fun site' opened => ?_⟩
    rw [Option.some.inj opened]

/-- A task that has come takes the session over with its second turn. -/
theorem mem_takeOvers_iff {p : List Incident} {n : Nat} {st : Settings}
    (came : (n, st) ∈ arrivals ((new env d files here).deeds p)) :
    (n, st) ∈ takeOvers ((new env d files here).deeds p) ↔
      2 ≤ (new env d files here).turns n p := by
  obtain ⟨site, found, _, state⟩ := (appointed_course env d files here p).kept n st came
  obtain ⟨_, project, reach⟩ := (past_course env d files here p).opened site found
  refine ⟨fun taken => state.elim (fun due => ?_) And.left,
    fun twice => state.elim (fun due => ?_) And.right⟩
  · obtain ⟨st', takes, _⟩ := Chronicle.mem_takeOvers.mp taken
    obtain ⟨k, atN, finished⟩ := (reach.origins rfl).finished n st' takes
    cases Option.some.inj ((Site.stake_of_task? due.task).symm.trans atN)
    rw [Settings.pointAfter_stake] at finished
    cases finished
  · exact absurd twice (Nat.not_le_of_lt due.early)

/-- A task that has had a turn has come before it. -/
theorem mem_arrivals_of_turns {p rest : List Incident} {a : Nat × Settings}
    (came : a ∈ arrivals ((new env d files here).deeds (p ++ rest)))
    (turned : 0 < (new env d files here).turns a.1 p) :
    a ∈ arrivals ((new env d files here).deeds p) := by
  rw [deeds_append, Chronicle.arrivals_append] at came
  refine (List.mem_append.mp came).resolve_right fun later => ?_
  have beyond := length_le_of_arrivals (past_course env d files here p) later
  have none := (appointed_course env d files here p).none a.1 beyond
  omega

/-- Where the session is taken over in the order in which the tasks came, they had their second
turns in that order. -/
theorem inTurn_of_pairwise {incidents : List Incident}
    (none : ∀ who, (who, .request) ∉ (new env d files here).deeds incidents)
    (all : ∀ a ∈ arrivals ((new env d files here).deeds incidents),
      a ∈ takeOvers ((new env d files here).deeds incidents))
    (order : (takeOvers ((new env d files here).deeds incidents)).Pairwise fun a b => a.1 < b.1) :
    (new env d files here).InTurn incidents := by
  rintro p ⟨rest, rfl⟩ ⟨m, st⟩ older ⟨n, st'⟩ newer less twice
  have came := mem_arrivals_of_turns env d files here newer (by omega)
  have taken := (mem_takeOvers_iff env d files here came).mpr twice
  have finished := all _ older
  rw [deeds_append, Chronicle.takeOvers_append] at order finished
  obtain ⟨_, _, across⟩ := List.pairwise_append.mp order
  have before : (m, st) ∈ takeOvers ((new env d files here).deeds p) := by
    refine (List.mem_append.mp finished).resolve_right fun later => ?_
    exact Nat.lt_asymm less (across _ taken _ later)
  rw [deeds_append] at none
  obtain ⟨_, _, fresh, _, reach, _⟩ := reach_deeds env d files here p
  have came' := reach.arrived_of_takeOver fresh
    (fun who member => none who (List.mem_append_left _ member)) before
  exact (mem_takeOvers_iff env d files here came').mp before

/-- Where the tasks have their second turns in the order in which they came, they take the session
over in that order. -/
theorem pairwise_of_inTurn {incidents : List Incident}
    (none : ∀ who, (who, .request) ∉ (new env d files here).deeds incidents)
    (inTurn : (new env d files here).InTurn incidents) :
    (takeOvers ((new env d files here).deeds incidents)).Pairwise fun a b => a.1 < b.1 := by
  induction incidents using List.reverseRecOn with
  | nil => exact .nil
  | append_singleton p i ih =>
    have whole := (new env d files here).deeds_concat p i
    have grown {a : Nat × Settings} (member : a ∈ arrivals ((new env d files here).deeds p)) :
        a ∈ arrivals ((new env d files here).deeds (p ++ [i])) := by
      rw [whole, Chronicle.arrivals_append]
      exact List.mem_append_left _ member
    have none' : ∀ who, (who, .request) ∉ (new env d files here).deeds p := fun who member =>
      none who (whole ▸ List.mem_append_left _ member)
    have first := ih none' fun q part older before newer after =>
      inTurn q (part.trans (List.prefix_append _ _)) older (grown before) newer (grown after)
    obtain ⟨_, _, fresh, _, reach, _⟩ := reach_deeds env d files here p
    obtain ⟨_, _, fresh', _, reach', _⟩ := reach_deeds env d files here (p ++ [i])
    have took := (reach'.order fresh').took
    rw [whole, Chronicle.takeOvers_append] at took ⊢
    rcases Chronicle.takeOvers_toList (((new env d files here).course p).deed? i) with
      rests | ⟨n, st, takes⟩
    · rw [rests, List.append_nil]
      exact first
    obtain ⟨_, _, differ⟩ := List.pairwise_append.mp took
    refine List.pairwise_append.mpr ⟨first, ?_, fun a early b late => ?_⟩
    · rw [takes]
      exact List.pairwise_singleton ..
    -- The one that takes over now came before, and has not had its second turn until now.
    have came := reach.arrived_of_takeOver fresh none' early
    have came' : b ∈ arrivals ((new env d files here).deeds p) := by
      have taken : b ∈ takeOvers ((new env d files here).deeds (p ++ [i])) := by
        rw [whole, Chronicle.takeOvers_append]
        exact List.mem_append_right _ late
      have arrived := reach'.arrived_of_takeOver fresh' none taken
      rw [whole, Chronicle.arrivals_append, takes] at arrived
      exact (List.mem_append.mp arrived).resolve_right List.not_mem_nil
    refine Nat.lt_of_not_le fun le => ?_
    have apart := differ a early b late
    have less : b.1 < a.1 := by omega
    have twice := (mem_takeOvers_iff env d files here came).mp early
    have twice' := inTurn p (List.prefix_append _ _) b (grown came') a (grown came) less twice
    have before := (mem_takeOvers_iff env d files here came').mpr twice'
    exact differ b before b late rfl

end Order

/-- A server that is told configurations starts its session with each of them once, as no engine is
to be installed. When all tasks are over, the session is left with what the task that took it over
last started it with. That is the last configuration, and none takes the place of a newer one, just
when the tasks had their second turns in the order in which they came. -/
theorem session_after_configurations (env : Environment) (d : Defaults) (files : FileTree)
    (here : Path) (incidents : List Incident) :
    let first := new env d files here
    let s := first.course incidents
    let h := first.deeds incidents
    let isLeft (a : Nat × Settings) := s.site.workspace.session.settings.IsOf a.2
    (∀ who, (who, .request) ∉ h) → (∀ n, s.isOver n = true) →
    (arrivals h).map Prod.snd = first.configurations incidents ∧
    (arrivals h).Pairwise (fun a b => a.1 < b.1) ∧
    (takeOvers h).Perm (arrivals h) ∧
    (∀ last, (takeOvers h).getLast? = some last → isLeft last) ∧
    ((∀ newest, (arrivals h).getLast? = some newest → isLeft newest) ∧
      (takeOvers h).Pairwise (fun a b => a.1 < b.1) ↔ first.InTurn incidents) := by
  intro first s h isLeft none finished
  obtain ⟨v₀, v, fresh, sound, reach, view⟩ := reach_deeds env d files here incidents
  have order : (arrivals h).Pairwise fun a b => a.1 < b.1 := (reach.order fresh).came
  have all : (takeOvers h).Perm (arrivals h) := by
    refine reach.takeOvers_perm fresh none fun n st came => ?_
    obtain ⟨site, found, underway, _⟩ :=
      (appointed_course env d files here incidents).kept n st came
    rcases underway.job with silent | ⟨_, outcome⟩
    · cases (finished n).symm.trans (isOver_of_silent silent)
    · obtain ⟨o, outcome⟩ := Option.isSome_iff_exists.mp outcome
      exact ⟨o, view site found ▸ Site.stake_of_outcome? outcome⟩
  have left (last : Nat × Settings) (ends : (takeOvers h).getLast? = some last) : isLeft last := by
    have came := reach.arrived_of_takeOver fresh none (List.mem_of_getLast? ends)
    obtain ⟨site, found, _⟩ := (appointed_course env d files here incidents).kept _ _ came
    have settled := (reach.latest sound).session _ ends
    rw [← view site found] at settled
    have same : s.site = site := site_eq found
    simp only [isLeft, same]
    exact settled
  refine ⟨arrivals_deeds (past_new env d files here) incidents, order, all, left,
    fun ⟨_, inOrder⟩ => ?_, fun inTurn => ?_⟩
  · exact inTurn_of_pairwise env d files here none (fun a => all.mem_iff.mpr) inOrder
  · have inOrder := pairwise_of_inTurn env d files here none inTurn
    refine ⟨fun newest ends => left newest ?_, inOrder⟩
    have same : takeOvers h = arrivals h := all.eq_of_pairwise
      (fun a b _ _ less less' => absurd less' (Nat.lt_asymm less)) inOrder order
    rw [same]
    exact ends

/-- An editor that switches the analyses off and on again, with some turns of the two tasks in which
they take the session over, and what is left of them where their engines answer. -/
def offAndOn (turns : List Nat) : List Incident :=
  [.frame Rpc.initializeFrame, .frame (Rpc.configureFrame (Json.object [("enable", .bool false)])),
    .frame (Rpc.configureFrame .null)] ++ turns.map .goOn ++
  List.replicate 3 (.goOn 0) ++ List.replicate 3 (.goOn 1) ++
  [.finish 0 .version 0 (.ok "1"), .finish 1 .version 0 (.ok "1")] ++
  List.replicate 5 (.goOn 0) ++ List.replicate 5 (.goOn 1)

/-- Either way no engine is to be installed, and the tasks come to their ends. -/
theorem over_of_offAndOn {turns : List Nat} (either : turns = [0, 0, 1, 1] ∨ turns = [1, 1, 0, 0]) :
    (∀ who, (who, .request) ∉
      (new ⟨[]⟩ (.builtIn ⟨[]⟩) ⟨[], []⟩ ⟨[]⟩).deeds (offAndOn turns)) ∧
    ∀ n, ((new ⟨[]⟩ (.builtIn ⟨[]⟩) ⟨[], []⟩ ⟨[]⟩).course (offAndOn turns)).isOver n = true := by
  have none : ∀ d ∈ (new ⟨[]⟩ (.builtIn ⟨[]⟩) ⟨[], []⟩ ⟨[]⟩).deeds (offAndOn turns),
      d.2 ≠ .request := by
    rcases either with rfl | rfl <;> decide
  have jobs : ((new ⟨[]⟩ (.builtIn ⟨[]⟩) ⟨[], []⟩ ⟨[]⟩).course (offAndOn turns)).jobs =
      [.done, .done] := by
    rcases either with rfl | rfl <;> rfl
  refine ⟨fun who member => none _ member rfl, fun n => ?_⟩
  rw [isOver, jobs]
  rcases n with _ | _ | n <;> rfl

/-- Where the tasks have their turns in their order, the session is left with the later settings. -/
theorem enabled_of_turns_in_order :
    let first := new ⟨[]⟩ (.builtIn ⟨[]⟩) ⟨[], []⟩ ⟨[]⟩
    let incidents := offAndOn [0, 0, 1, 1]
    (first.configurations incidents).map Settings.enabled = [false, true] ∧
    (takeOvers (first.deeds incidents)).Perm (arrivals (first.deeds incidents)) ∧
    (first.course incidents).site.workspace.session.settings.enabled = true ∧
    first.InTurn incidents := by
  obtain ⟨none, finished⟩ := over_of_offAndOn (.inl rfl)
  obtain ⟨_, _, all, left, inTurn⟩ :=
    session_after_configurations ⟨[]⟩ (.builtIn ⟨[]⟩) ⟨[], []⟩ ⟨[]⟩ _ none finished
  refine ⟨by decide, all, rfl, inTurn.mp ⟨fun newest ends => left newest ?_, by decide⟩⟩
  exact Eq.trans (by decide) ends

/-- Not every session is left with the latest configuration: an older one takes its place where its
task has its turns later. -/
theorem not_latest_configuration :
    ¬∀ (env : Environment) (d : Defaults) (files : FileTree) (here : Path)
      (incidents : List Incident),
      let first := new env d files here
      let s := first.course incidents
      (∀ who, (who, .request) ∉ first.deeds incidents) → (∀ n, s.isOver n = true) →
      ∀ latest, (first.configurations incidents).getLast? = some latest →
        s.site.workspace.session.settings.IsOf latest := by
  intro all
  obtain ⟨none, finished⟩ := over_of_offAndOn (.inr rfl)
  rcases all ⟨[]⟩ (.builtIn ⟨[]⟩) ⟨[], []⟩ ⟨[]⟩ _ none finished _ rfl with same | ⟨_, same⟩
  · cases congrArg Settings.enabled same
  · cases congrArg Settings.enabled same

end Server

end LintBridge
