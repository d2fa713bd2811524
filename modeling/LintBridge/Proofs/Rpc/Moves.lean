import LintBridge.Rpc.Outbound

namespace LintBridge

namespace Ticket

/-- What a request has met, if it has met something. -/
def met? : Ticket → Option (Option Json)
  | waiting => none
  | answered body => some (some body)
  | expired | closed => some none

theorem met?_eq_none {t : Ticket} : t.met? = none ↔ t = .waiting := by
  cases t <;> simp [met?]

theorem answer_of_ne_waiting {t : Ticket} (idle : t ≠ .waiting) (body : Json) :
    t.answer body = t := by
  cases t with
  | waiting => exact absurd rfl idle
  | answered | expired | closed => rfl

end Ticket

namespace Outbound

/-- What can happen to the requests of a server. -/
inductive Move where
  | ask
  | answer (id : Nat) (body : Json)
  | elapse (ms : Nat)
  /-- A request that finds its time over has looked for its answer, for the last time. -/
  | expire (id : Nat)
  | close (id : Nat)
  | finish (id : Nat)

namespace Move

/-- How long a move takes. -/
def span : Move → Nat
  | elapse ms => ms
  | _ => 0

/-- What a request meets with a move: an answer, or the end of its time. -/
def meets? (id : Nat) : Move → Option (Option Json)
  | answer n body => if n = id then some (some body) else none
  | expire n => if n = id then some none else none
  | _ => none

/-- What a move makes of a request that stays. -/
def acts (id : Nat) (t : Ticket) : Move → Ticket
  | answer n body => if n = id then t.answer body else t
  | expire n => if n = id then t.expire else t
  | close n => if n = id then t.close else t
  | _ => t

theorem met?_acts (id : Nat) (t : Ticket) (m : Move) :
    (m.acts id t).met? = t.met?.or (m.meets? id) := by
  cases m with
  | ask | elapse | finish => exact (Option.or_none).symm
  | answer n body | expire n =>
    by_cases own : n = id <;> cases t <;> simp [acts, meets?, own] <;> rfl
  | close n => by_cases own : n = id <;> cases t <;> simp [acts, meets?, own] <;> rfl

end Move

/-- What a request meets first in the course of some moves: an answer of its number, or the end of
its time. -/
def met? (id : Nat) (moves : List Move) : Option (Option Json) := moves.findSome? (Move.meets? id)

/-- How much time goes by with some moves. -/
def spent (moves : List Move) : Nat := moves.foldl (fun ms m => ms + m.span) 0

/-- How a request with some time left comes to its end in a turn behind some moves, if it does: with
what it has met first, or without an answer once its time is over. -/
def fate? (id left : Nat) (moves : List Move) : Option (Option Json) :=
  (met? id moves).or (if left ≤ spent moves then some none else none)

/-- A request has looked for its answer for the last time in the course of some moves, and was
neither answered nor closed since. -/
def Late (id : Nat) (moves : List Move) : Prop :=
  ∃ before since, moves = before ++ .expire id :: since ∧ met? id before = none ∧
    (∀ body, .answer id body ∉ since) ∧ .close id ∉ since

theorem met?_cons (id : Nat) (m : Move) (rest : List Move) :
    met? id (m :: rest) = (m.meets? id).or (met? id rest) := by
  rw [met?, List.findSome?_cons]
  cases m.meets? id <;> rfl

theorem met?_append (id : Nat) (before after : List Move) :
    met? id (before ++ after) = (met? id before).or (met? id after) := List.findSome?_append

/-- A request that has met nothing meets the answer of its number that comes. -/
theorem met?_answer {id : Nat} {before : List Move} (body : Json) (after : List Move)
    (still : met? id before = none) :
    met? id (before ++ .answer id body :: after) = some (some body) := by
  rw [met?_append, still, Option.none_or, met?_cons, Move.meets?, if_pos rfl, Option.some_or]

theorem Late.met? {id : Nat} {moves : List Move} (late : Late id moves) (after : List Move) :
    met? id (moves ++ after) = some none := by
  obtain ⟨before, since, rfl, still, _⟩ := late
  rw [met?_append, met?_append, still, Option.none_or, met?_cons, Move.meets?, if_pos rfl,
    Option.some_or, Option.some_or]

theorem late_concat {id : Nat} {moves : List Move} {m : Move} : Late id (moves ++ [m]) ↔
    m = .expire id ∧ met? id moves = none ∨
      Late id moves ∧ m ≠ .close id ∧ ∀ body, m ≠ .answer id body := by
  constructor
  · rintro ⟨before, since, split, still, unanswered, open'⟩
    rcases List.eq_nil_or_concat since with rfl | ⟨since, last, rfl⟩
    · obtain ⟨rfl, same⟩ := List.append_inj' split rfl
      exact .inl ⟨List.head_eq_of_cons_eq same, still⟩
    · rw [List.concat_eq_append, ← List.cons_append, ← List.append_assoc] at split
      obtain ⟨rfl, same⟩ := List.append_inj' split rfl
      obtain rfl := List.head_eq_of_cons_eq same
      simp only [List.concat_eq_append, List.mem_append, List.mem_singleton, not_or]
        at unanswered open'
      exact .inr ⟨⟨before, since, rfl, still, fun body => (unanswered body).1, open'.1⟩,
        Ne.symm open'.2, fun body => Ne.symm (unanswered body).2⟩
  · rintro (⟨rfl, still⟩ | ⟨⟨before, since, rfl, still, unanswered, open'⟩, other, others⟩)
    · exact ⟨moves, [], rfl, still, fun _ => List.not_mem_nil, List.not_mem_nil⟩
    · refine ⟨before, since ++ [m], by rw [List.append_assoc, List.cons_append], still, ?_, ?_⟩
      · intro body member
        rcases List.mem_append.mp member with old | new
        · exact unanswered body old
        · exact others body (List.mem_singleton.mp new).symm
      · intro member
        rcases List.mem_append.mp member with old | new
        · exact open' old
        · exact other (List.mem_singleton.mp new).symm

end Outbound

end LintBridge
