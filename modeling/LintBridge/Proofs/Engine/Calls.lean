import LintBridge.Engine.Client
import LintBridge.Proofs.Memo.Attempts

namespace LintBridge

/-- An attempt to make what is made of its value. -/
def Attempt.map {ε α β : Type} (f : α → β) : Attempt ε α → Attempt ε β
  | agreed => agreed
  | running => running
  | finished result => finished (result.map f)

namespace Memo

variable {ε α : Type} {m m' : Memo ε α} {k : Nat}

/-- Whether a memo has come about by steps and by forgetting. -/
def Proper (m : Memo ε α) : Prop := ∃ first, m.Since first

theorem new_proper : (new : Memo ε α).Proper := ⟨0, new_since⟩

theorem Proper.step (proper : m.Proper) (step : m.Step m') : m'.Proper := by
  obtain ⟨first, since⟩ := proper
  exact ⟨first, since.step step⟩

theorem forget_proper (m : Memo ε α) : m.forget.Proper := ⟨_, forget_since m⟩

/-- Who joins is answered at once, or waits for an attempt that is there. -/
theorem Proper.join (proper : m.Proper) : (∃ value, m.join.2 = .answered (.ok value)) ∨
    ∃ k a, m.join.2 = .waiting k ∧ m.join.1.attempt? k = some a := by
  obtain ⟨first, since⟩ := proper
  obtain ⟨n, _, newest, waits | ⟨value, _, answered⟩⟩ := since.join_newest
  · exact .inr ⟨n, _, waits, List.getElem?_eq_getElem (by omega)⟩
  · exact .inl ⟨value, answered⟩

theorem step_of_inFlight (going : m.InFlight k) : (m.step (.waiting k)).2 = .waiting k ∧
    (m.step (.waiting k)).1.attempt? k = some .running := by
  rcases going with agreed | running
  · rw [step, agreed]
    refine ⟨rfl, ?_⟩
    rw [launch_of_agreed agreed]
    exact List.getElem?_set_self (lt_of_attempt? agreed)
  · rw [step, running]
    exact ⟨rfl, running⟩

theorem attempt?_finish (running : m.attempt? k = some .running) (result : Except ε α) :
    (m.finish k result).attempt? k = some (.finished result) := by
  rw [finish_of_running running]
  exact List.getElem?_set_self (lt_of_attempt? running)

end Memo

/-- The call that waits for an attempt to make an answer that is kept. -/
def Call.waiting : Kept → Nat → Call
  | .version, k => .version (.waiting k)
  | .catalog, k => .catalog (.waiting k)

namespace EngineClient

variable {c : EngineClient} {kept : Kept} {k : Nat} {result : Except EngineError Reply}

/-- An attempt of a client, with the reply it has come to. -/
def attempt? (c : EngineClient) : Kept → Nat → Option (Attempt EngineError Reply)
  | .version, k => (c.version.attempt? k).map (.map .text)
  | .catalog, k => (c.catalog.attempt? k).map (.map .linters)

/-- Whether what a client keeps has come about as memos do. -/
structure Proper (c : EngineClient) : Prop where
  version : c.version.Proper
  catalog : c.catalog.Proper

theorem new_proper (engine : Engine) (token : Token) : (new engine token).Proper :=
  ⟨Memo.new_proper, Memo.new_proper⟩

theorem Proper.step (proper : c.Proper) (call : Call) : (c.step call).1.Proper := by
  obtain ⟨version, catalog⟩ := proper
  cases call with
  | version caller => exact ⟨version.step (c.version.step_step caller), catalog⟩
  | catalog caller => exact ⟨version, catalog.step (c.catalog.step_step caller)⟩
  | ran a out => exact ⟨version, c.catalog.forget_proper⟩
  | _ => exact ⟨version, catalog⟩

theorem Proper.finish (proper : c.Proper) (kept : Kept) (k : Nat)
    (r : Except EngineError String) : (c.finish kept k r).Proper := by
  obtain ⟨version, catalog⟩ := proper
  cases kept with
  | version => exact ⟨version.step (.finish k _), catalog⟩
  | catalog => exact ⟨version, catalog.step (.finish k _)⟩

section Steps

variable (caller : Caller EngineError String) (caller' : Caller EngineError (List Linter))

theorem step_version : (c.step (.version caller)).1.version = (c.version.step caller).1 ∧
    (c.step (.version caller)).2.1 = .ofVersion (c.version.step caller).2 := ⟨rfl, rfl⟩

theorem step_catalog : (c.step (.catalog caller')).1.catalog = (c.catalog.step caller').1 ∧
    (c.step (.catalog caller')).2.1 = .ofCatalog (c.catalog.step caller').2 := ⟨rfl, rfl⟩

end Steps

/-- A call for what is kept is answered at once, or waits for an attempt that is there. -/
theorem Proper.step_ofAsk (proper : c.Proper) (kept : Kept) :
    let stepped := c.step (.ofAsk (question kept))
    (∃ result, stepped.2.1 = .done result) ∨
      ∃ k a, stepped.2.1 = .waiting kept k ∧ stepped.1.attempt? kept k = some a := by
  cases kept with
  | version =>
    obtain ⟨memo, call⟩ := c.step_version .asking
    rcases proper.version.join with ⟨value, answered⟩ | ⟨k, a, waits, there⟩
    · exact .inl ⟨.ok (.text value), call.trans (congrArg Call.ofVersion answered)⟩
    · refine .inr ⟨k, a.map .text, call.trans (congrArg Call.ofVersion waits), ?_⟩
      exact congrArg (Option.map _) ((congrArg (Memo.attempt? · k) memo).trans there)
  | catalog =>
    obtain ⟨memo, call⟩ := c.step_catalog .asking
    rcases proper.catalog.join with ⟨value, answered⟩ | ⟨k, a, waits, there⟩
    · exact .inl ⟨.ok (.linters value), call.trans (congrArg Call.ofCatalog answered)⟩
    · refine .inr ⟨k, a.map .linters, call.trans (congrArg Call.ofCatalog waits), ?_⟩
      exact congrArg (Option.map _) ((congrArg (Memo.attempt? · k) memo).trans there)

/-- An attempt of a client is one of the memo that it is to fill. -/
inductive Fills (c : EngineClient) (k : Nat) (a : Attempt EngineError Reply) : Kept → Prop
  | version {b} : c.version.attempt? k = some b → b.map .text = a → Fills c k a .version
  | catalog {b} : c.catalog.attempt? k = some b → b.map .linters = a → Fills c k a .catalog

theorem fills_of_attempt? {a : Attempt EngineError Reply} (found : c.attempt? kept k = some a) :
    c.Fills k a kept := by
  cases kept with
  | version =>
    obtain ⟨b, there, same⟩ := Option.map_eq_some_iff.mp found
    exact .version there same
  | catalog =>
    obtain ⟨b, there, same⟩ := Option.map_eq_some_iff.mp found
    exact .catalog there same

theorem of_map_eq_running {α : Type} {f : α → Reply} {b : Attempt EngineError α}
    (same : b.map f = .running) : b = .running := by
  cases b with
  | running => rfl
  | _ => cases same

/-- Whether an attempt of a client has not ended. -/
def InFlight (c : EngineClient) : Kept → Nat → Prop
  | .version, k => c.version.InFlight k
  | .catalog, k => c.catalog.InFlight k

theorem inFlight_or_finished {a : Attempt EngineError Reply}
    (found : c.attempt? kept k = some a) :
    (c.InFlight kept k ∧ ∀ result, a ≠ .finished result) ∨ ∃ result, a = .finished result := by
  cases fills_of_attempt? found with
  | @version b there same =>
    subst same
    cases b with
    | agreed => exact .inl ⟨.inl there, nofun⟩
    | running => exact .inl ⟨.inr there, nofun⟩
    | finished r => exact .inr ⟨_, rfl⟩
  | @catalog b there same =>
    subst same
    cases b with
    | agreed => exact .inl ⟨.inl there, nofun⟩
    | running => exact .inl ⟨.inr there, nofun⟩
    | finished r => exact .inr ⟨_, rfl⟩

/-- A call goes on waiting for an attempt that has not ended, and sets it going. -/
theorem step_of_inFlight (going : c.InFlight kept k) :
    (c.step (.waiting kept k)).2.1 = .waiting kept k ∧
      (c.step (.waiting kept k)).1.attempt? kept k = some .running := by
  cases kept with
  | version =>
    obtain ⟨waits, running⟩ := Memo.step_of_inFlight going
    exact ⟨congrArg Call.ofVersion waits, congrArg (Option.map _) running⟩
  | catalog =>
    obtain ⟨waits, running⟩ := Memo.step_of_inFlight going
    exact ⟨congrArg Call.ofCatalog waits, congrArg (Option.map _) running⟩

theorem ofAsk_cases (a : Ask) :
    (∃ kept, a = question kept) ∨ Call.ofAsk a = .asking a := by
  cases a with
  | version => exact .inl ⟨.version, rfl⟩
  | catalog => exact .inl ⟨.catalog, rfl⟩
  | _ => exact .inr rfl

/-- A call that waits takes what its attempt has come to. -/
theorem step_of_finished (finished : c.attempt? kept k = some (.finished result)) :
    (c.step (.waiting kept k)).2.1 = .done result := by
  cases fills_of_attempt? finished with
  | @version b there same =>
    cases b with
    | finished r =>
      cases same
      exact congrArg (fun m => Call.ofVersion m.2) (Memo.step_of_finished there)
    | _ => cases same
  | @catalog b there same =>
    cases b with
    | finished r =>
      cases same
      exact congrArg (fun m => Call.ofCatalog m.2) (Memo.step_of_finished there)
    | _ => cases same

theorem bind_readVersion (r : Except EngineError String) :
    (r.bind Ask.readVersion).map Reply.text = r.bind Ask.version.read := by
  cases r with
  | error e => rfl
  | ok out => rw [Except.bind, Except.bind, Ask.read]

theorem bind_readCatalog (r : Except EngineError String) :
    (r.bind Ask.readCatalog).map Reply.linters = r.bind Ask.catalog.read := by
  cases r with
  | error e => rfl
  | ok out => rw [Except.bind, Except.bind, Ask.read]

/-- An attempt comes to what its output says, or to the error of its run. -/
theorem attempt?_finish (running : c.attempt? kept k = some .running)
    (r : Except EngineError String) :
    (c.finish kept k r).attempt? kept k = some (.finished (r.bind (question kept).read)) := by
  cases fills_of_attempt? running with
  | version there same =>
    cases of_map_eq_running same
    have ended := Memo.attempt?_finish there (r.bind Ask.readVersion)
    rw [question, ← bind_readVersion]
    exact congrArg (Option.map (Attempt.map Reply.text)) ended
  | catalog there same =>
    cases of_map_eq_running same
    have ended := Memo.attempt?_finish there (r.bind Ask.readCatalog)
    rw [question, ← bind_readCatalog]
    exact congrArg (Option.map (Attempt.map Reply.linters)) ended

end EngineClient

end LintBridge
