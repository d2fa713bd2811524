import LintBridge.Proofs.Rpc.Requests
import LintBridge.Proofs.Server.Exchange
import LintBridge.Proofs.Workspace.Loading

namespace LintBridge

/-- The answer to a request of the server that a frame is. -/
def Rpc.reply? (frame : Json) : Option Outbound.Move :=
  match Incoming.ofFrame? frame with
  | some (.response id body) => some (.answer id body)
  | _ => none

/-- What an incident is to the requests of the server: an answer to one, or the passing of time. -/
def Incident.tells? : Incident → Option Outbound.Move
  | frame value => Rpc.reply? value
  | elapse ms => some (.elapse ms)
  | _ => none

namespace Server

variable {s : Server}

section Requests

variable (task : Option Nat) {next : Site} {told : List Event}

/-- Nothing but a task's question to the editor makes a request. -/
theorem tell_requests {e : Event} (other : e ≠ .askPolicy) :
    (tell task s e).outbound = s.outbound ∧ (tell task s e).asked = s.asked := by
  cases e with
  | askPolicy => exact absurd rfl other
  | progress e => cases e <;> exact ⟨rfl, rfl⟩
  | _ => exact ⟨rfl, rfl⟩

theorem foldl_tell_requests {events : List Event} (others : .askPolicy ∉ events) :
    (events.foldl (tell task) s).outbound = s.outbound ∧
      (events.foldl (tell task) s).asked = s.asked := by
  induction events generalizing s with
  | nil => exact ⟨rfl, rfl⟩
  | cons e rest ih =>
    rw [List.mem_cons, not_or] at others
    obtain ⟨outbound, asked⟩ := ih (s := tell task s e) others.2
    obtain ⟨outbound', asked'⟩ := tell_requests (s := s) task (Ne.symm others.1)
    exact ⟨outbound.trans outbound', asked.trans asked'⟩

theorem withSite_requests (tells : s.site.workspace.Tells next.workspace told)
    (others : .askPolicy ∉ told) : (s.withSite task next).outbound = s.outbound ∧
      (s.withSite task next).asked = s.asked := by
  obtain ⟨_, news, events, rfl⟩ := tells
  rw [withSite, events, List.drop_left]
  exact foldl_tell_requests (s := { s with site? := some next }) task fun member =>
    others (List.mem_filter.mpr ⟨member, rfl⟩)

/-- A task's question is sent, and is noted for the task. -/
theorem withSite_asks {n : Nat} (tells : s.site.workspace.Tells next.workspace [.askPolicy]) :
    (s.withSite (some n) next).outbound = s.outbound.request.1 ∧
      (s.withSite (some n) next).asked = s.asked ++ [⟨n, s.outbound.nextId⟩] ∧
      ∃ said, (s.withSite (some n) next).sent = s.sent ++ said ∧
        Rpc.request s.outbound.nextId "linterhub/config" .null ∈ said := by
  obtain ⟨_, news, events, asks⟩ := tells
  obtain ⟨front, behind, rfl, before, _, after⟩ := List.filter_eq_cons_iff.mp asks
  have quiet {events : List Event} (none : ∀ e ∈ events, ¬e.loads = true) :
      .askPolicy ∉ events := fun member => none _ member rfl
  let opened : Server := { s with site? := some next }
  let asking := front.foldl (tell (some n)) opened
  let asked := tell (some n) asking .askPolicy
  have first := foldl_tell_requests (s := opened) (some n) (quiet before)
  have last := foldl_tell_requests (s := asked) (some n)
    (quiet (List.filter_eq_nil_iff.mp after))
  have number : asking.outbound.nextId = s.outbound.nextId :=
    congrArg Outbound.nextId first.1
  have whole : s.withSite (some n) next = behind.foldl (tell (some n)) asked := by
    rw [withSite, events, List.drop_left, List.foldl_append, List.foldl_cons]
  rw [whole]
  refine ⟨?_, ?_, ?_⟩
  · rw [last.1]
    exact congrArg (·.request.1) first.1
  · rw [last.2, ← number]
    exact congrArg (· ++ [Asked.mk n asking.outbound.nextId]) first.2
  · obtain ⟨said, _, sent⟩ := foldl_tell_says (some n) opened front
    obtain ⟨said', _, sent'⟩ := foldl_tell_says (some n) asked behind
    refine ⟨said ++ Rpc.request s.outbound.nextId "linterhub/config" .null :: said', ?_,
      List.mem_append_right _ List.mem_cons_self⟩
    have request : asked.sent =
        asking.sent ++ [Rpc.request s.outbound.nextId "linterhub/config" .null] := by
      rw [← number]
      rfl
    rw [sent', request, sent, List.append_assoc, List.append_assoc]
    rfl

end Requests

section Frames

/-- A request of the editor is of no bearing on the requests to it. -/
theorem request_requests (id : Json) (method : String) (params : Json) :
    (s.request id method params).outbound = s.outbound ∧
      (s.request id method params).asked = s.asked := by
  unfold request
  split
  · unfold beginSession
    split
    · exact ⟨rfl, rfl⟩
    · split <;> exact ⟨rfl, rfl⟩
  split
  · exact ⟨rfl, rfl⟩
  split
  · exact ⟨rfl, rfl⟩
  split
  case h_1 =>
    exact withSite_requests (s := { s with shuttingDown := true }) none (.shutdown s.site.workspace)
      List.not_mem_nil
  case h_5 | h_6 | h_7 | h_8 =>
    unfold spawnFor
    split <;> exact ⟨rfl, rfl⟩
  all_goals exact ⟨rfl, rfl⟩

theorem notified_requests (method : String) (params : Json) :
    (s.notified method params).outbound = s.outbound ∧
      (s.notified method params).asked = s.asked := by
  unfold notified
  split
  · exact ⟨rfl, rfl⟩
  split
  · exact ⟨rfl, rfl⟩
  split
  case h_1 =>
    unfold configure
    split <;> exact ⟨rfl, rfl⟩
  case h_2 | h_3 | h_4 =>
    unfold analyzeDocument
    split <;> exact ⟨rfl, rfl⟩
  case h_5 =>
    unfold look
    split
    · exact withSite_requests none (.lookAt s.site.workspace _) List.not_mem_nil
    · exact ⟨rfl, rfl⟩
  case h_6 => exact ⟨rfl, rfl⟩

/-- A frame is of no bearing on the requests to the editor but as an answer to one. -/
theorem handle_requests (frame : Json) :
    (s.handle frame).outbound = s.outbound.run (Rpc.reply? frame).toList ∧
      (s.handle frame).asked = s.asked := by
  unfold handle Rpc.reply?
  cases Incoming.ofFrame? frame with
  | none => exact ⟨rfl, rfl⟩
  | some message =>
    cases message with
    | response => exact ⟨rfl, rfl⟩
    | request id method params => exact request_requests id method params
    | notification method params => exact notified_requests method params

end Frames

/-- What a move of the workspace does to the requests of a server is done as its news are told. -/
theorem move_behind (s : Server) (m : Move) : (s.move m).site = s.site.move m ∧
    (s.move m).outbound = (s.withSite m.task? (s.site.move m)).outbound ∧
    (s.move m).asked = (s.withSite m.task? (s.site.move m)).asked ∧
    ∃ said, (s.move m).sent = (s.withSite m.task? (s.site.move m)).sent ++ said := by
  have replied (s : Server) (n : Nat) : (s.reply n).site = s.site ∧
      (s.reply n).outbound = s.outbound ∧ (s.reply n).asked = s.asked ∧
      ∃ said, (s.reply n).sent = s.sent ++ said := by
    unfold reply
    split
    · exact ⟨rfl, rfl, rfl, _, rfl⟩
    · exact ⟨rfl, rfl, rfl, [], (List.append_nil _).symm⟩
    · exact ⟨rfl, rfl, rfl, [], (List.append_nil _).symm⟩
  have sites := s.withSite_site m.task? (s.site.move m)
  rw [move, taskOf_eq]
  cases own : m.task? with
  | none =>
    rw [own] at sites
    exact ⟨sites, rfl, rfl, [], (List.append_nil _).symm⟩
  | some n =>
    rw [own] at sites
    obtain ⟨same, rest⟩ := replied (s.withSite (some n) (s.site.move m)) n
    exact ⟨same.trans sites, rest⟩

end Server

end LintBridge
