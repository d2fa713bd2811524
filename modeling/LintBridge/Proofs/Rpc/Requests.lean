import LintBridge.Proofs.Rpc.Standing
import Mathlib.Data.List.Induction

namespace LintBridge

namespace Outbound

variable {o : Outbound} {id : Nat} {body : Json} {t : Ticket}

section Runs

variable {moves : List Move} {r : Option Json}

theorem run_append (o : Outbound) (before after : List Move) :
    o.run (before ++ after) = (o.run before).run after := List.foldl_append

theorem Sound.run (sound : o.Sound) (moves : List Move) : (o.run moves).Sound := by
  induction moves generalizing o with
  | nil => exact sound
  | cons m rest ih => exact ih (sound.move m)

theorem sound_new : new.Sound where
  below := nofun
  once := List.nodup_nil
  distinct := List.nodup_nil
  present := nofun
  waiting := nofun
  timely := nofun

/-- Requests get numbers of their own, one after another. -/
theorem asked_eq (o : Outbound) (moves : List Move) :
    o.asked moves = List.range' o.nextId (o.asked moves).length := by
  induction moves generalizing o with
  | nil => rfl
  | cons m rest ih =>
    have grows := nextId_move o m
    have later := ih (o.move m)
    rw [asked]
    cases told : o.asks? m with
    | none =>
      rw [told] at grows
      rw [grows] at later
      exact later
    | some n =>
      have number : n = o.nextId := by
        cases m with
        | ask => exact (Option.some.inj told).symm
        | _ => cases told
      subst number
      rw [told] at grows
      rw [grows] at later
      exact congrArg (List.cons o.nextId) later

/-- A request that is gone does not come back, and is not completed again. -/
theorem absent_run (sound : o.Sound) (known : id < o.nextId) (absent : o.ticket? id = none)
    (moves : List Move) : (o.run moves).ticket? id = none ∧ ∀ r, (id, r) ∉ o.completed moves := by
  induction moves generalizing o with
  | nil => exact ⟨absent, nofun⟩
  | cons m rest ih =>
    obtain ⟨stays | ⟨_, new⟩, silent⟩ := absent_move sound absent m
    · have grows := nextId_move o m
      obtain ⟨ends, none⟩ := ih (sound.move m) (by omega) stays
      refine ⟨ends, fun r member => ?_⟩
      rcases List.mem_append.mp member with now | later
      · exact silent r (Option.mem_toList.mp now)
      · exact none r later
    · omega

/-- A request stands by what it has met, until it is completed with that. -/
theorem standing_run (sound : o.Sound) (stands : o.ticket? id = some t) (moves : List Move) :
    (∃ t', (o.run moves).ticket? id = some t' ∧ t'.met? = t.met?.or (met? id moves) ∧
      ∀ r, (id, r) ∉ o.completed moves) ∨
    ∃ r, t.met?.or (met? id moves) = some r ∧ (o.run moves).ticket? id = none ∧
      (id, r) ∈ o.completed moves ∧ ∀ r', (id, r') ∈ o.completed moves → r' = r := by
  induction moves generalizing o t with
  | nil => exact .inl ⟨t, stands, (Option.or_none).symm, nofun⟩
  | cons m rest ih =>
    rcases standing_move sound stands m with ⟨stays, silent⟩ | ⟨r, met, gone, told⟩
    · have same (r : Option Json) :
          (id, r) ∈ o.completed (m :: rest) ↔ (id, r) ∈ (o.move m).completed rest := by
        rw [completed, List.mem_append, Option.mem_toList]
        exact or_iff_right (silent r)
      have next := ih (sound.move m) stays
      rw [Move.met?_acts, Option.or_assoc, ← met?_cons] at next
      simp only [same]
      exact next
    · have grows := nextId_move o m
      have known := lt_nextId sound stands
      obtain ⟨ends, none⟩ := absent_run (sound.move m) (by omega) gone rest
      refine .inr ⟨r, by rw [met, Option.some_or], ends,
        List.mem_append_left _ (Option.mem_toList.mpr told), fun r' member => ?_⟩
      rcases List.mem_append.mp member with now | later
      · exact (Prod.mk.inj (Option.some.inj ((Option.mem_toList.mp now).symm.trans told))).2
      · exact absurd later (none r')

/-- What becomes of a request from when it is made. -/
theorem request_run (sound : o.Sound) (after : List Move) :
    (∃ t, (o.request.1.run after).ticket? o.request.2 = some t ∧
      t.met? = met? o.request.2 after ∧ ∀ r, (o.request.2, r) ∉ o.request.1.completed after) ∨
    ∃ r, met? o.request.2 after = some r ∧
      (o.request.1.run after).ticket? o.request.2 = none ∧
      (o.request.2, r) ∈ o.request.1.completed after ∧
      ∀ r', (o.request.2, r') ∈ o.request.1.completed after → r' = r :=
  standing_run sound.request (ticket?_request_self sound).1 after

/-- A request waits as long as it has met nothing. -/
theorem waiting_run (sound : o.Sound) (since : List Move) :
    (o.request.1.run since).ticket? o.request.2 = some .waiting ↔
      met? o.request.2 since = none := by
  rcases request_run sound since with ⟨t, stands, met, _⟩ | ⟨r, met, gone, _⟩
  · rw [stands, Option.some.injEq, ← met, Ticket.met?_eq_none]
  · rw [gone, met]
    exact iff_of_false nofun nofun

theorem nextId_run (o : Outbound) (moves : List Move) : o.nextId ≤ (o.run moves).nextId := by
  induction moves generalizing o with
  | nil => exact Nat.le_refl _
  | cons m rest ih => exact Nat.le_trans (Nat.le.intro (nextId_move o m).symm) (ih (o.move m))

theorem lingers_run (sound : o.Sound) (since : List Move) :
    (o.request.1.run since).Lingers o.request.2 ↔ Late o.request.2 since := by
  induction since using List.reverseRecOn with
  | nil =>
    refine iff_of_false ?_ ?_
    · rintro ⟨stands, _⟩
      cases (ticket?_request_self sound).1.symm.trans stands
    · rintro ⟨before, since, split, _⟩
      cases before <;> cases split
  | append_singleton since m ih =>
    have known : o.request.2 < (o.request.1.run since).nextId :=
      Nat.lt_of_lt_of_le (Nat.lt_succ_self o.nextId) (nextId_run o.request.1 since)
    rw [run_append, late_concat, ← ih, ← waiting_run sound]
    exact lingers_move (sound.request.run since) known m

/-- What is completed is gone. -/
theorem absent_of_completes? {m : Move} (sound : o.Sound) (told : o.completes? m = some (id, r)) :
    (o.move m).ticket? id = none ∧ id < (o.move m).nextId := by
  have own : m = .finish id := by
    by_contra other
    exact completes?_of_ne o other r told
  subst own
  obtain ⟨c, finished, _⟩ := Option.map_eq_some_iff.mp told
  obtain ⟨⟨t, stands, _⟩, _⟩ := of_finish? finished
  have grows := nextId_move o (.finish id)
  have known := lt_nextId sound stands
  rcases move_finish_self stands with ⟨_, silent⟩ | ⟨_, _, gone, _⟩
  · cases silent.symm.trans told
  · exact ⟨gone, by omega⟩

/-- No request is completed twice. -/
theorem completed_once (sound : o.Sound) (moves : List Move) :
    ((o.completed moves).map Prod.fst).Nodup := by
  induction moves generalizing o with
  | nil => exact List.nodup_nil
  | cons m rest ih =>
    have later := ih (sound.move m)
    rw [completed]
    cases told : o.completes? m with
    | none => exact later
    | some c =>
      refine List.nodup_cons.mpr ⟨fun again => ?_, later⟩
      obtain ⟨⟨n, r⟩, member, same⟩ := List.mem_map.mp again
      obtain ⟨gone, known⟩ := absent_of_completes? sound told
      subst same
      exact (absent_run (sound.move m) known gone rest).2 r member

/-- A request that has been completed is gone. -/
theorem absent_of_completed (sound : o.Sound) (done : (id, r) ∈ o.completed moves) :
    (o.run moves).ticket? id = none := by
  induction moves generalizing o with
  | nil => cases done
  | cons m rest ih =>
    rcases List.mem_append.mp done with now | later
    · obtain ⟨gone, known⟩ := absent_of_completes? sound (Option.mem_toList.mp now)
      exact (absent_run (sound.move m) known gone rest).1
    · exact ih (sound.move m) later

/-- What is there was asked for. -/
theorem asked_of_ticket? (stands : (new.run moves).ticket? id = some t) :
    ∃ before after, moves = before ++ .ask :: after ∧ (new.run before).request.2 = id := by
  induction moves using List.reverseRecOn generalizing t with
  | nil => cases stands
  | append_singleton moves m ih =>
    rw [run_append] at stands
    cases earlier : (new.run moves).ticket? id with
    | some t' =>
      obtain ⟨before, after, rfl, number⟩ := ih earlier
      exact ⟨before, after ++ [m], by rw [List.append_assoc]; rfl, number⟩
    | none =>
      obtain ⟨stays | ⟨rfl, number⟩, _⟩ := absent_move (sound_new.run moves) earlier m
      · cases stays.symm.trans stands
      · exact ⟨moves, [], rfl, number.symm⟩

/-- An answer is taken by a request that has met nothing since it was made, or has looked for its
answer for the last time and was neither answered nor closed. -/
theorem taken_iff : ((new.run moves).resolve id body).2 = true ↔ ∃ before since,
    moves = before ++ .ask :: since ∧ (new.run before).request.2 = id ∧
      (met? id since = none ∨ Late id since) := by
  have since (before since : List Move) :
      new.run (before ++ .ask :: since) = (new.run before).request.1.run since :=
    run_append new before (.ask :: since)
  rw [resolve_iff (sound_new.run moves)]
  constructor
  · intro open'
    obtain ⟨t, stands⟩ : ∃ t, (new.run moves).ticket? id = some t := by
      rcases open' with waits | ⟨lingers, _⟩
      · exact ⟨_, waits⟩
      · exact ⟨_, lingers⟩
    obtain ⟨before, after, rfl, rfl⟩ := asked_of_ticket? stands
    rw [since, waiting_run (sound_new.run before), lingers_run (sound_new.run before)] at open'
    exact ⟨before, after, rfl, rfl, open'⟩
  · rintro ⟨before, after, rfl, rfl, open'⟩
    rwa [since, waiting_run (sound_new.run before), lingers_run (sound_new.run before)]

theorem left_le_timeout (sound : o.Sound) (id : Nat) : o.left id ≤ timeout := by
  rw [left, deadline?]
  cases found : o.find? id with
  | none => exact Nat.zero_le _
  | some r => exact Nat.sub_le_iff_le_add'.mpr (sound.timely r (mem_of_find? found).1)

/-- A request that waits comes to its end once the time for an answer has gone by. -/
theorem conclude?_elapse (sound : o.Sound) (waits : o.ticket? id = some .waiting) :
    (o.elapse timeout).conclude? id = some ((o.elapse timeout).forget id, none) := by
  have later : (o.elapse timeout).ticket? id = some .waiting := waits
  have spent : (o.elapse timeout).left id = 0 := by
    have passed := left_move (m := .elapse timeout) sound waits nofun
    exact passed.trans (Nat.sub_eq_zero_of_le (left_le_timeout sound id))
  rw [conclude?_eq later, spent]
  rfl

/-- A request that has met something comes to its end with that, once it is closed. -/
theorem finish?_close {t : Ticket} (stands : o.ticket? id = some t) (met : t.met? = some r) :
    (o.close id).finish? id = some (o.forget id, r) := by
  have closed : (o.close id).ticket? id = some t.close :=
    (ticket?_change o id _ id).trans (by rw [if_pos rfl, stands]; rfl)
  rw [finish?, closed, show (o.close id).forget id = o.forget id from forget_change o id _]
  cases t <;> cases met <;> rfl

/-- The requests of a server in the course of any moves, fewer of them than there are numbers:
numbers are given once and requests completed once. A request is completed with what it has met
first, an answer of its number or the end of its time, which is its last look for one; until it has
met either it waits, and ends without an answer when the time for one has gone by. An answer is
told to be taken just when a request of its number was made that has met neither before, and then
ends with it, or that has looked for the last time and was neither answered nor closed since, and
then ends without it; and it bears on no other. No number of a completed request stays in the
table. -/
theorem requests_completed_once (moves : List Move) (few : (new.asked moves).length < UInt64.size) :
    let o := new.run moves
    (new.asked moves).Nodup ∧ (∀ id ∈ new.asked moves, id < UInt64.size) ∧
    ((new.completed moves).map Prod.fst).Nodup ∧
    (∀ before after, moves = before ++ .ask :: after →
      let id := (new.run before).request.2
      let start := (new.run before).request.1
      (∀ r, (id, r) ∈ start.completed after → met? id after = some r) ∧
      (∀ r, met? id after = some r → (id, r) ∉ start.completed after →
        ∃ rest, (o.close id).finish? id = some (rest, r)) ∧
      (met? id after = none → o.isWaiting id = true ∧
        ∃ rest, (o.elapse timeout).conclude? id = some (rest, none))) ∧
    (∀ before id body after, moves = before ++ .answer id body :: after →
      (((new.run before).resolve id body).2 = true ↔ ∃ earlier since,
        before = earlier ++ .ask :: since ∧ (new.run earlier).request.2 = id ∧
          (met? id since = none ∧
            met? id (since ++ .answer id body :: after) = some (some body) ∨
          Late id since ∧ met? id (since ++ .answer id body :: after) = some none)) ∧
      ∀ other, other ≠ id →
        ((new.run before).resolve id body).1.find? other = (new.run before).find? other) ∧
    ∀ id r, (id, r) ∈ new.completed moves → id ∉ o.pending := by
  intro o
  refine ⟨?_, fun id member => ?_, completed_once sound_new moves, ?_, ?_, ?_⟩
  · rw [asked_eq]
    exact List.nodup_range'
  · rw [asked_eq] at member
    have within := (List.mem_range'_1.mp member).2
    rw [show new.nextId = 1 from rfl] at within
    omega
  · rintro before after rfl id start
    have ends : o = start.run after := run_append new before _
    have sound : o.Sound := sound_new.run _
    rcases request_run (sound_new.run before) after with
      ⟨t, stands, met, never⟩ | ⟨r, met, gone, done, only⟩
    · rw [← ends] at stands
      refine ⟨fun r done => absurd done (never r),
        fun r met' _ => ⟨_, finish?_close stands (met.trans met')⟩, fun still => ?_⟩
      obtain rfl := Ticket.met?_eq_none.mp (met.trans still)
      exact ⟨isWaiting_iff.mpr stands, _, conclude?_elapse sound stands⟩
    · refine ⟨fun r' done' => only r' done' ▸ met, fun r' met' fresh => ?_, fun still => ?_⟩
      · cases met.symm.trans met'
        exact absurd done fresh
      · cases still.symm.trans met
  · rintro before id body after rfl
    refine ⟨?_, fun other differs => find?_resolve_of_ne _ differs.symm body⟩
    rw [taken_iff]
    constructor
    · rintro ⟨earlier, since, split, number, still | late⟩
      · exact ⟨earlier, since, split, number, .inl ⟨still, met?_answer body after still⟩⟩
      · exact ⟨earlier, since, split, number, .inr ⟨late, late.met? _⟩⟩
    · rintro ⟨earlier, since, split, number, ⟨still, _⟩ | ⟨late, _⟩⟩
      · exact ⟨earlier, since, split, number, .inl still⟩
      · exact ⟨earlier, since, split, number, .inr late⟩
  · intro id r done pending
    have absent := absent_of_completed sound_new done
    obtain ⟨r', member, rfl⟩ := (sound_new.run moves).present id pending
    rw [ticket?, find?_of_mem (sound_new.run moves) member] at absent
    cases absent

/-- Three requests. The second is answered twice, the first once its time is over, and the third
when it has looked for the last time but is not closed yet. -/
def crossing : List Move :=
  [.ask, .ask, .ask, .answer 2 (.bool true), .answer 2 .null, .elapse timeout, .expire 1, .close 1,
    .answer 1 .null, .finish 1, .expire 3, .answer 3 .null, .close 3, .finish 3, .finish 2]

theorem requests_completed_beside_late_answers :
    new.completed crossing = [(1, none), (3, none), (2, some (.bool true))] ∧
      1 ∉ (new.run crossing).pending ∧ 2 ∉ (new.run crossing).pending ∧
      3 ∉ (new.run crossing).pending ∧
      ((new.run (crossing.take 8)).resolve 1 .null).2 = false ∧
      ((new.run (crossing.take 11)).resolve 3 .null).2 = true := by
  have completed : new.completed crossing = [(1, none), (3, none), (2, some (.bool true))] := by rfl
  obtain ⟨_, _, _, _, answers, gone⟩ :=
    requests_completed_once crossing (show List.length [1, 2, 3] < UInt64.size by decide)
  refine ⟨completed, gone 1 none (by simp [completed]),
    gone 2 (some (.bool true)) (by simp [completed]), gone 3 none (by simp [completed]), by rfl, ?_⟩
  -- the third has looked for the last time with the tenth of the moves
  refine (answers (crossing.take 11) 3 .null (crossing.drop 12) rfl).1.mpr
    ⟨[.ask, .ask], (crossing.take 11).drop 3, rfl, rfl, .inr ⟨?_, rfl⟩⟩
  exact ⟨(crossing.take 10).drop 3, [], rfl, rfl, fun _ => List.not_mem_nil, List.not_mem_nil⟩

/-- An answer can be told to be taken although the request of its number ends without it: it comes
when the request has looked for the last time. -/
theorem answer_taken_in_vain :
    ¬∀ moves before id body after, moves = before ++ .answer id body :: after →
      ((new.run before).resolve id body).2 = true →
      (id, none) ∉ new.completed moves := by
  intro all
  exact all [.ask, .elapse timeout, .expire 1, .answer 1 .null, .close 1, .finish 1]
    [.ask, .elapse timeout, .expire 1] 1 .null [.close 1, .finish 1] rfl rfl
    (List.mem_singleton_self _)

end Runs

end Outbound

end LintBridge
