import LintBridge.Proofs.Workspace.Places
import Mathlib.Logic.Function.Basic

namespace LintBridge

/-- Whether an event is about how a release is loaded. -/
def Event.loads : Event → Bool
  | askPolicy | installs _ => true
  | _ => false

/-- The policy that an answer gives. -/
def Answer.policy? : Answer → Option InstallPolicy
  | policy p => some p
  | _ => none

/-- What a policy is waited for. -/
def Point.purpose? : Point → Option Purpose
  | policy p => some p
  | _ => none

namespace Workspace

/-- What a workspace has told since about how releases are loaded. Its defaults stay. -/
structure Tells (w w' : Workspace) (told : List Event) : Prop where
  defaults : w'.defaults = w.defaults
  events : ∃ news, w'.events = w.events ++ news ∧ news.filter Event.loads = told

variable {w w' w'' : Workspace} {told told' : List Event}

namespace Tells

theorem still (defaults : w'.defaults = w.defaults) (events : w'.events = w.events) :
    w.Tells w' [] := ⟨defaults, [], by rw [events, List.append_nil], rfl⟩

theorem refl (w : Workspace) : w.Tells w [] := .still rfl rfl

theorem trans (first : w.Tells w' told) (later : w'.Tells w'' told') :
    w.Tells w'' (told ++ told') := by
  obtain ⟨defaults, news, events, rfl⟩ := first
  obtain ⟨defaults', news', events', rfl⟩ := later
  refine ⟨defaults'.trans defaults, news ++ news', ?_, List.filter_append ..⟩
  rw [events', events, List.append_assoc]

theorem news (defaults : w'.defaults = w.defaults) {news : List Event}
    (events : w'.events = w.events ++ news) (quiet : ∀ e ∈ news, e.loads = false) :
    w.Tells w' [] :=
  ⟨defaults, news, events, List.filter_eq_nil_iff.mpr fun e member => by rw [quiet e member]; simp⟩

/-- Whatever is told about the loading of releases was told before, or is told since. -/
theorem mem (tells : w.Tells w' told) {e : Event} (member : e ∈ w'.events)
    (loads : e.loads = true) : e ∈ w.events ∨ e ∈ told := by
  obtain ⟨_, news, events, rfl⟩ := tells
  rw [events] at member
  exact (List.mem_append.mp member).imp_right fun new => List.mem_filter.mpr ⟨new, loads⟩

theorem emit (w : Workspace) {e : Event} (quiet : e.loads = false) : w.Tells (w.emit e) [] :=
  news rfl rfl (List.forall_mem_singleton.mpr quiet)

theorem emit_loads (w : Workspace) {e : Event} (loads : e.loads = true) :
    w.Tells (w.emit e) [e] := ⟨rfl, [e], rfl, List.filter_cons_of_pos loads⟩

theorem tracked (w : Workspace) (t : Tracked) : w.Tells (w.tracked t) [] := by
  refine news rfl rfl fun e member => ?_
  obtain ⟨_, _, rfl⟩ := List.mem_map.mp member
  rfl

theorem shutdown (w : Workspace) : w.Tells w.shutdown [] := by
  have closed : w.Tells w.close [] := .still rfl rfl
  exact closed.trans (.tracked w.close _)

theorem lookAt (w : Workspace) (document : String) : w.Tells (w.lookAt document) [] := .tracked w _

theorem probe (w : Workspace) (s : Start) (again : Bool) : w.Tells (w.probe s again).1 [] :=
  .still rfl rfl

theorem stepCall (w : Workspace) (client : ClientId) (call : Call) :
    w.Tells (w.stepCall client call).1 [] := by
  unfold Workspace.stepCall
  split
  · exact .refl w
  · dsimp only
    split
    · exact .news rfl rfl (List.forall_mem_singleton.mpr rfl)
    · exact .still rfl rfl

theorem finish (w : Workspace) (client : ClientId) (kept : Kept) (k : Nat)
    (r : Except EngineError String) : w.Tells (w.finish client kept k r) [] := by
  unfold Workspace.finish
  split
  · exact .refl w
  · exact .still rfl rfl

end Tells

theorem publishOutput_loads (w : Workspace) (files : Report → List (String × List Diagnostic))
    (r : Except EngineError Reply) :
    w.Tells (w.publishOutput files r).1 [] ∧ (w.publishOutput files r).2.purpose? = none := by
  unfold publishOutput
  split
  · split
    · refine ⟨.news rfl rfl fun e member => ?_, rfl⟩
      obtain ⟨_, _, rfl⟩ := List.mem_map.mp member
      rfl
    · exact ⟨.refl w, rfl⟩
  · exact ⟨.refl w, rfl⟩

theorem answered_loads (w : Workspace) (e : Errand) (r : Except EngineError Reply) :
    w.Tells (w.answered e r).1 [] ∧ (w.answered e r).2.purpose? = none := by
  unfold answered
  split
  · exact w.publishOutput_loads _ r
  · exact w.publishOutput_loads _ r
  all_goals exact ⟨.refl w, rfl⟩

theorem commit_loads (w : Workspace) (s : Start) (r : Except EngineError ClientId) :
    w.Tells (w.commit s r).1 [] ∧ (w.commit s r).2.purpose? = none := by
  unfold commit
  split
  · exact ⟨.refl w, rfl⟩
  split
  · exact ⟨.still rfl rfl, rfl⟩
  · split <;> exact ⟨.still rfl rfl, rfl⟩

/-- How a task goes on that was given a policy or was not, as far as the loading of releases is
concerned. -/
inductive Loads (w : Workspace) (t : Task) (given : Option InstallPolicy)
    (next : Workspace × Task) : Prop
  | rest : w.Tells next.1 [] → next.2.point.purpose? = t.point.purpose? → Loads w t given next
  | asks (p : Purpose) : t.point.purpose? = none → w.Tells next.1 [.askPolicy] →
      next.2.point.purpose? = some p → Loads w t given next
  | installs {p : Purpose} {policy : InstallPolicy} : given = some policy →
      t.point.purpose? = some p → w.Tells next.1 [.installs (p.request w.defaults policy)] →
      next.2.point.purpose? = none → Loads w t given next

theorem askPolicy_loads {t : Task} (idle : t.point.purpose? = none) (p : Purpose)
    (given : Option InstallPolicy) :
    w.Loads t given ((w.askPolicy p).1, { t with point := (w.askPolicy p).2 }) :=
  .asks p idle (.emit_loads w rfl) rfl

theorem begin_loads (w : Workspace) (held : List OperationId) (e : Errand) :
    w.Loads ⟨held, .begin e⟩ none (w.begin e) := by
  have filtered (t : Trigger) (o : Outcome) (e : Errand) :
      (if w.filters t then Point.done o else .seek e).purpose? = none := by
    split <;> rfl
  cases e with
  | install => exact .rest (.tracked w _) rfl
  | analyze t => exact .rest (.refl w) (filtered t _ _)
  | analyzeFile document t => exact .rest (.refl w) (filtered t _ _)
  | look document => exact .rest (.tracked w _) rfl
  | shutdown => exact .rest (.still rfl rfl) rfl
  | _ => exact .rest (.refl w) rfl

theorem probed_loads (w : Workspace) (held : List OperationId) (client : ClientId) (s : Start)
    (again : Bool) (r : Except EngineError Reply) {point : Point} (idle : point.purpose? = none) :
    w.Loads ⟨held, point⟩ none
      ((w.probed client s again r).1, ⟨held, (w.probed client s again r).2⟩) := by
  cases r with
  | ok reply =>
    refine .rest (.refl w) (Eq.trans ?_ idle.symm)
    rw [probed]
    split <;> rfl
  | error e =>
    rw [probed]
    split
    · exact .rest (.refl w) idle.symm
    · exact askPolicy_loads idle (.bootstrap s) none

/-- As a task goes on, it asks the editor just as it comes to wait for the policy. -/
theorem advance_loads (w : Workspace) (t : Task) : w.Loads t none (w.advance t) := by
  obtain ⟨held, point⟩ := t
  cases point with
  | begin e => exact w.begin_loads held e
  | takeOver => exact .rest (.still rfl rfl) rfl
  | announce s => exact .rest (.trans (.tracked w _) (.probe _ s false)) rfl
  | copySettings => exact .rest (.emit w rfl) rfl
  | load c =>
    refine .rest (.refl w) ?_
    simp only [advance]
    split <;> rfl
  | save => exact .rest (.still rfl rfl) rfl
  | tell c =>
    cases c with
    | linter => exact .rest (.refl w) rfl
    | _ => exact .rest (.emit w rfl) rfl
  | commit s r => exact .rest (w.commit_loads s r).1 (w.commit_loads s r).2
  | noEngine s => exact .rest (.emit w rfl) rfl
  | seek e =>
    simp only [advance]
    split <;> exact .rest (.refl w) rfl
  | enter e client => exact .rest (.tracked w _) rfl
  | asking client call next =>
    cases call with
    | done r =>
      cases next with
      | probe s again => exact w.probed_loads held client s again r rfl
      | errand e => exact .rest (w.answered_loads e r).1 (w.answered_loads e r).2
    | _ => exact .rest (.stepCall w client _) rfl
  | quiet => exact .rest (.tracked w _) rfl
  | leave o =>
    cases held with
    | nil => exact .rest (.refl w) rfl
    | cons id held => exact .rest (.tracked w _) rfl
  | _ => exact .rest (.refl w) rfl

/-- With an answer a task asks the editor just as it comes to wait for the policy, and calls the
installer just with the policy that it has waited for. -/
theorem receive_loads (w : Workspace) (t : Task) (a : Answer) :
    w.Loads t a.policy? (w.receive t a) := by
  obtain ⟨held, point⟩ := t
  unfold receive
  dsimp only
  split
  · exact askPolicy_loads rfl _ _
  · exact .rest (.emit w rfl) rfl
  · exact askPolicy_loads rfl _ _
  · exact askPolicy_loads rfl _ _
  · exact .installs rfl rfl (.emit_loads w rfl) rfl
  · rename_i p _ e
    refine .rest (.refl w) ?_
    cases p <;> rfl
  · exact .rest (.probe w _ true) rfl
  · exact .rest (.refl w) rfl
  · exact .rest (.refl w) rfl
  · exact .rest (.refl w) rfl

end Workspace

namespace Site

/-- What the policy is waited for by a task. -/
def purpose? (s : Site) (n : Nat) : Option Purpose := (s.task? n).bind fun t => t.point.purpose?

/-- What a move of a site comes to as far as the loading of releases is concerned. -/
inductive Loads (s : Site) (m : Move) : Site → Prop
  | rest {s' : Site} : s.workspace.Tells s'.workspace [] → s'.purpose? = s.purpose? →
      Loads s m s'
  | asks {s' : Site} {n : Nat} {p : Purpose} : m.task? = some n → s.purpose? n = none →
      s.workspace.Tells s'.workspace [.askPolicy] →
      s'.purpose? = Function.update s.purpose? n (some p) → Loads s m s'
  | installs {s' : Site} {n : Nat} {p : Purpose} {policy : InstallPolicy} :
      m = .receive n (.policy policy) → s.purpose? n = some p →
      s.workspace.Tells s'.workspace [.installs (p.request s.workspace.defaults policy)] →
      s'.purpose? = Function.update s.purpose? n none → Loads s m s'

variable {s : Site} {n : Nat}

theorem purpose?_put {t : Task} (found : s.task? n = some t) (next : Workspace × Task) :
    (s.put n next).purpose? = Function.update s.purpose? n next.2.point.purpose? := by
  funext k
  by_cases own : k = n
  · subst own
    rw [purpose?, task?_put_self found, Function.update_self]
    rfl
  · rw [purpose?, task?_put_of_ne (Ne.symm own), Function.update_of_ne own]
    rfl

/-- A task that has been begun, or is gone from the first, waits for no policy. -/
theorem purpose?_concat {entry : Option Task} {w : Workspace}
    (idle : ∀ t, entry = some t → t.point.purpose? = none) :
    purpose? ⟨w, s.tasks ++ [entry]⟩ = s.purpose? := by
  funext k
  rw [purpose?, purpose?, task?, task?]
  obtain old | rfl | beyond := Nat.lt_trichotomy k s.tasks.length
  · rw [List.getElem?_append_left old]
  · rw [List.getElem?_concat_length, List.getElem?_eq_none (Nat.le_refl _)]
    cases entry with
    | none => rfl
    | some t => exact idle t rfl
  · rw [List.getElem?_eq_none (Nat.le_of_lt beyond), List.getElem?_eq_none]
    rw [List.length_append]
    exact beyond

/-- What a task comes to that goes on. -/
theorem loads_put {m : Move} {t : Task} {given : Option InstallPolicy} {next : Workspace × Task}
    (found : s.task? n = some t) (own : m.task? = some n)
    (policy : ∀ policy, given = some policy → m = .receive n (.policy policy))
    (loads : s.workspace.Loads t given next) : s.Loads m (s.put n next) := by
  have before : s.purpose? n = t.point.purpose? := by
    rw [purpose?, found]
    rfl
  have after := purpose?_put found next
  cases loads with
  | rest tells same =>
    refine .rest tells (after.trans ?_)
    rw [same, ← before, Function.update_eq_self]
  | asks p idle tells asked =>
    rw [asked] at after
    exact .asks own (before.trans idle) tells after
  | installs given waits tells gone =>
    rw [gone] at after
    exact .installs (policy _ given) (before.trans waits) tells after

/-- A site asks the editor just for a task that comes to wait for the policy, and calls the
installer just with the policy that a task is given that waits for it. -/
theorem move_loads (s : Site) {m : Move} (stays : ∀ n, m ≠ .abandon n) : s.Loads m (s.move m) := by
  cases m with
  | spawn e =>
    exact .rest (.refl _) (purpose?_concat (by rintro _ ⟨⟩; rfl))
  | advance n =>
    cases found : s.task? n with
    | none =>
      rw [move_of_absent found rfl]
      exact .rest (.refl _) rfl
    | some t =>
      rw [move_advance found]
      exact loads_put found rfl (by rintro _ ⟨⟩) (s.workspace.advance_loads t)
  | receive n a =>
    cases found : s.task? n with
    | none =>
      rw [move_of_absent found rfl]
      exact .rest (.refl _) rfl
    | some t =>
      rw [move_receive found]
      refine loads_put found rfl (fun policy given => ?_) (s.workspace.receive_loads t a)
      cases a with
      | policy p => cases given; rfl
      | _ => cases given
  | finish client kept k r => exact .rest (.finish _ client kept k r) rfl
  | abandon n => exact absurd rfl (stays n)

/-- A task that waits for the policy calls the installer with the one that it is given. -/
theorem receive_policy {p : Purpose} (waits : s.purpose? n = some p) (policy : InstallPolicy) :
    s.workspace.Tells (s.move (.receive n (.policy policy))).workspace
        [.installs (p.request s.workspace.defaults policy)] ∧
      (s.move (.receive n (.policy policy))).purpose? = Function.update s.purpose? n none := by
  obtain ⟨⟨held, point⟩, found, purpose⟩ := Option.bind_eq_some_iff.mp waits
  cases point with
  | policy q =>
    cases purpose
    rw [move_receive found]
    exact ⟨.emit_loads s.workspace rfl, purpose?_put found _⟩
  | _ => cases purpose

end Site

end LintBridge
