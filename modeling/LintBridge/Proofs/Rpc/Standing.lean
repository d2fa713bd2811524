import LintBridge.Proofs.Rpc.Moves
import Mathlib.Data.List.Nodup

namespace LintBridge

namespace Outbound

/-- Carry out a move. -/
def move (o : Outbound) : Move → Outbound
  | .ask => o.request.1
  | .answer id body => (o.resolve id body).1
  | .elapse ms => o.elapse ms
  | .expire id => o.expire id
  | .close id => o.close id
  | .finish id => ((o.finish? id).map Prod.fst).getD o

/-- Carry out moves one after another. -/
def run (o : Outbound) (moves : List Move) : Outbound := moves.foldl move o

/-- The number of the request that a move makes. -/
def asks? (o : Outbound) : Move → Option Nat
  | .ask => some o.request.2
  | _ => none

/-- The request that a move completes, with its answer if it has one. -/
def completes? (o : Outbound) : Move → Option (Nat × Option Json)
  | .finish id => (o.finish? id).map fun c => (id, c.2)
  | _ => none

/-- The numbers of the requests that are made in the course of some moves. -/
def asked (o : Outbound) : List Move → List Nat
  | [] => []
  | m :: rest => (o.asks? m).toList ++ asked (o.move m) rest

/-- The requests that are completed in the course of some moves. -/
def completed (o : Outbound) : List Move → List (Nat × Option Json)
  | [] => []
  | m :: rest => (o.completes? m).toList ++ completed (o.move m) rest

/-- When the time of a request is over that is still there. -/
def deadline? (o : Outbound) (id : Nat) : Option Nat := (o.find? id).map OpenRequest.deadline

/-- How much time a request has left. -/
def left (o : Outbound) (id : Nat) : Nat := (o.deadline? id).elim 0 (· - o.now)

/-- An answer to a request would be taken, although it looks for none any more. -/
def Lingers (o : Outbound) (id : Nat) : Prop :=
  o.ticket? id = some .expired ∧ id ∈ o.pending

/-- What the requests of a server and the numbers that answers are accepted for keep to. -/
structure Sound (o : Outbound) : Prop where
  below : ∀ r ∈ o.requests, r.id < o.nextId
  once : (o.requests.map OpenRequest.id).Nodup
  distinct : o.pending.Nodup
  present : ∀ id ∈ o.pending, ∃ r ∈ o.requests, r.id = id
  waiting : ∀ r ∈ o.requests, r.ticket = .waiting → r.id ∈ o.pending
  timely : ∀ r ∈ o.requests, r.deadline ≤ o.now + timeout

variable {o : Outbound} {id n : Nat} {body : Json} {t : Ticket} {f : Ticket → Ticket}

theorem mem_of_find? {r : OpenRequest} (found : o.find? id = some r) :
    r ∈ o.requests ∧ r.id = id :=
  ⟨List.mem_of_find?_eq_some found, beq_iff_eq.mp (List.find?_some found :)⟩

theorem find?_of_mem (sound : o.Sound) {r : OpenRequest} (member : r ∈ o.requests) :
    o.find? r.id = some r := by
  cases found : o.find? r.id with
  | none => exact absurd (beq_self_eq_true r.id) (List.find?_eq_none.mp found r member)
  | some r' =>
    obtain ⟨member', same⟩ := mem_of_find? found
    exact congrArg some (List.inj_on_of_nodup_map sound.once member' member same)

theorem isWaiting_iff : o.isWaiting id = true ↔ o.ticket? id = some .waiting := by
  unfold isWaiting
  split <;> simp_all

theorem lt_nextId (sound : o.Sound) (stands : o.ticket? id = some t) : id < o.nextId := by
  obtain ⟨r, found, _⟩ := Option.map_eq_some_iff.mp stands
  obtain ⟨member, rfl⟩ := mem_of_find? found
  exact sound.below r member

theorem pending_of_waiting (sound : o.Sound) (waits : o.ticket? id = some .waiting) :
    id ∈ o.pending := by
  obtain ⟨r, found, ticket⟩ := Option.map_eq_some_iff.mp waits
  obtain ⟨member, rfl⟩ := mem_of_find? found
  exact sound.waiting r member ticket

section Change

theorem find?_change (o : Outbound) (n : Nat) (f : Ticket → Ticket) (id : Nat) :
    (o.change n f).find? id =
      (o.find? id).map fun r => if r.id = n then { r with ticket := f r.ticket } else r := by
  have kept : ((fun r : OpenRequest => r.id == id) ∘
      fun r => if r.id = n then { r with ticket := f r.ticket } else r) = fun r => r.id == id := by
    funext r
    by_cases named : r.id = n <;> simp [named]
  rw [find?, change, List.find?_map, kept, find?]

theorem find?_change_of_ne (other : n ≠ id) (f : Ticket → Ticket) :
    (o.change n f).find? id = o.find? id := by
  rw [find?_change]
  cases found : o.find? id with
  | none => rfl
  | some r => rw [Option.map_some, if_neg ((mem_of_find? found).2 ▸ other.symm)]

/-- A change is one of the request it is made to. -/
theorem ticket?_change (o : Outbound) (n : Nat) (f : Ticket → Ticket) (id : Nat) :
    (o.change n f).ticket? id = if n = id then (o.ticket? id).map f else o.ticket? id := by
  by_cases own : n = id
  · subst own
    rw [if_pos rfl, ticket?, find?_change, ticket?, Option.map_map, Option.map_map]
    cases found : o.find? n with
    | none => rfl
    | some r =>
      have named := (mem_of_find? found).2
      simp only [Option.map_some, Function.comp_apply, if_pos named]
  · rw [if_neg own, ticket?, find?_change_of_ne own, ticket?]

@[simp] theorem deadline?_change (o : Outbound) (n : Nat) (f : Ticket → Ticket) (id : Nat) :
    (o.change n f).deadline? id = o.deadline? id := by
  rw [deadline?, find?_change, Option.map_map]
  refine Option.map_congr fun r _ => ?_
  rw [Function.comp]
  split <;> rfl

theorem map_id_change (o : Outbound) (n : Nat) (f : Ticket → Ticket) :
    (o.change n f).requests.map OpenRequest.id = o.requests.map OpenRequest.id := by
  rw [change, List.map_map]
  refine List.map_congr_left fun r _ => ?_
  by_cases named : r.id = n <;> simp [named]

theorem of_mem_change {r : OpenRequest} (member : r ∈ (o.change n f).requests) :
    ∃ r' ∈ o.requests, r.id = r'.id ∧ r.deadline = r'.deadline ∧
      (r.ticket = r'.ticket ∨ r.ticket = f r'.ticket) := by
  obtain ⟨r', member', rfl⟩ := List.mem_map.mp member
  refine ⟨r', member', ?_⟩
  split
  · exact ⟨rfl, rfl, .inr rfl⟩
  · exact ⟨rfl, rfl, .inl rfl⟩

/-- A change that makes no request wait keeps what the requests keep to. -/
theorem Sound.change (sound : o.Sound) (stops : ∀ t, f t = .waiting → t = .waiting) (n : Nat) :
    (o.change n f).Sound where
  below r member := by
    obtain ⟨r', before, same, _⟩ := of_mem_change member
    exact same ▸ sound.below r' before
  once := map_id_change o n f ▸ sound.once
  distinct := sound.distinct
  present id pending := by
    obtain ⟨r, member, same⟩ := sound.present id pending
    have listed := List.mem_map_of_mem (f := OpenRequest.id) member
    rw [← map_id_change o n f] at listed
    obtain ⟨r', member', same'⟩ := List.mem_map.mp listed
    exact ⟨r', member', same'.trans same⟩
  waiting r member waits := by
    obtain ⟨r', before, same, _, kept | changed⟩ := of_mem_change member
    · exact same ▸ sound.waiting r' before (kept.symm.trans waits)
    · exact same ▸ sound.waiting r' before (stops _ (changed.symm.trans waits))
  timely r member := by
    obtain ⟨r', before, _, same, _⟩ := of_mem_change member
    exact same ▸ sound.timely r' before

/-- A number that is taken out of the table is no longer there, but all others are. -/
theorem Sound.erase (sound : o.Sound) (idle : o.ticket? id ≠ some .waiting) :
    Sound { o with pending := o.pending.erase id } where
  below := sound.below
  once := sound.once
  distinct := sound.distinct.erase id
  present n pending := sound.present n (List.mem_of_mem_erase pending)
  waiting r member waits := by
    refine (List.mem_erase_of_ne fun same => idle ?_).mpr (sound.waiting r member waits)
    rw [ticket?, ← same, find?_of_mem sound member, Option.map_some, waits]
  timely := sound.timely

end Change

section Moves

variable {m : Move} {r : Option Json}

theorem find?_request (sound : o.Sound) (id : Nat) : o.request.1.find? id =
    if id = o.nextId then some ⟨o.nextId, o.now + timeout, .waiting⟩ else o.find? id := by
  rw [find?, request, List.find?_append]
  by_cases new : id = o.nextId
  · subst new
    have absent : o.requests.find? (fun r => r.id == o.nextId) = none :=
      List.find?_eq_none.mpr fun r member => by
        have := sound.below r member
        simp only [beq_iff_eq]
        omega
    rw [absent, if_pos rfl, List.find?_singleton, if_pos (beq_self_eq_true _)]
    rfl
  · have other : (o.nextId == id) = false := beq_false_of_ne (Ne.symm new)
    rw [if_neg new, List.find?_singleton, other, if_neg Bool.false_ne_true, Option.or_none]
    rfl

theorem ticket?_request_self (sound : o.Sound) :
    o.request.1.ticket? o.request.2 = some .waiting ∧ o.request.1.left o.request.2 = timeout := by
  have found := find?_request sound o.request.2
  rw [if_pos (show o.request.2 = o.nextId from rfl)] at found
  refine ⟨congrArg (Option.map OpenRequest.ticket) found, ?_⟩
  rw [left, deadline?, found]
  exact Nat.add_sub_cancel_left o.now timeout

/-- A new request changes nothing about another. -/
theorem find?_request_of_ne (sound : o.Sound) (other : id ≠ o.nextId) :
    o.request.1.find? id = o.find? id := by
  rw [find?_request sound, if_neg other]

theorem ticket?_request_of_ne (sound : o.Sound) (other : id ≠ o.nextId) :
    o.request.1.ticket? id = o.ticket? id :=
  congrArg (Option.map OpenRequest.ticket) (find?_request_of_ne sound other)

theorem Sound.request (sound : o.Sound) : o.request.1.Sound where
  below r member := by
    rcases List.mem_append.mp member with before | new
    · exact Nat.lt_succ_of_lt (sound.below r before)
    · rw [List.mem_singleton.mp new]
      exact Nat.lt_succ_self _
  once := by
    have fresh : o.nextId ∉ o.requests.map OpenRequest.id := fun member => by
      obtain ⟨r, before, same⟩ := List.mem_map.mp member
      exact absurd (sound.below r before) (by omega)
    simp only [Outbound.request, List.map_append, List.map_singleton]
    exact List.nodup_append.mpr ⟨sound.once, List.nodup_singleton _, fun a before b new => by
      rw [List.mem_singleton.mp new]
      exact fun same => fresh (same ▸ before)⟩
  distinct := by
    refine List.nodup_cons.mpr ⟨fun member => ?_, sound.distinct⟩
    obtain ⟨r, before, same⟩ := sound.present _ member
    exact absurd (sound.below r before) (by omega)
  present id pending := by
    rcases List.mem_cons.mp pending with rfl | before
    · exact ⟨_, List.mem_append_right _ (List.mem_singleton_self _), rfl⟩
    · obtain ⟨r, member, same⟩ := sound.present id before
      exact ⟨r, List.mem_append_left _ member, same⟩
  waiting r member waits := by
    rcases List.mem_append.mp member with before | new
    · exact List.mem_cons_of_mem _ (sound.waiting r before waits)
    · rw [List.mem_singleton.mp new]
      exact List.mem_cons_self
  timely r member := by
    rcases List.mem_append.mp member with before | new
    · exact sound.timely r before
    · rw [List.mem_singleton.mp new]
      exact Nat.le_refl _

/-- An answer takes its number out of the table, and reaches the request that looks for it. -/
theorem resolve_fst (sound : o.Sound) (id : Nat) (body : Json) : ∃ pending,
    (∀ n, n ∈ pending ↔ n ≠ id ∧ n ∈ o.pending) ∧
      (o.resolve id body).1 = { o with pending := pending }.change id (.answer body) := by
  by_cases accepted : o.pending.contains id = true
  · refine ⟨o.pending.erase id, fun n => sound.distinct.mem_erase_iff, ?_⟩
    rw [resolve, if_pos accepted]
  · refine ⟨o.pending, fun n => ?_, ?_⟩
    · refine (and_iff_right_of_imp ?_).symm
      rintro member rfl
      exact accepted (List.contains_iff_mem.mpr member)
    · rw [resolve, if_neg accepted]
      -- a request that is not in the table does not look for its answer
      have still (r : OpenRequest) (member : r ∈ o.requests) :
          (if r.id = id then { r with ticket := r.ticket.answer body } else r) = r := by
        split
        · rename_i same
          have idle : r.ticket ≠ .waiting := fun waits =>
            accepted (List.contains_iff_mem.mpr (same ▸ sound.waiting r member waits))
          rw [Ticket.answer_of_ne_waiting idle]
        · rfl
      exact congrArg (fun requests => { o with requests := requests })
        ((List.map_congr_left still).trans (List.map_id' o.requests)).symm

/-- An answer is of no bearing on requests of other numbers. -/
theorem find?_resolve_of_ne (o : Outbound) (other : n ≠ id) (body : Json) :
    (o.resolve n body).1.find? id = o.find? id := by
  unfold resolve
  split
  · exact find?_change_of_ne other _
  · rfl

/-- An answer is taken by a request that waits, and by one that looks no more and was neither
closed nor answered. -/
theorem resolve_iff (sound : o.Sound) (id : Nat) (body : Json) :
    (o.resolve id body).2 = true ↔ o.ticket? id = some .waiting ∨ o.Lingers id := by
  by_cases accepted : id ∈ o.pending
  · rw [resolve, if_pos (List.contains_iff_mem.mpr accepted)]
    rcases stands : o.ticket? id with _ | _ | _ | _ | _ <;>
      simp [Lingers, stands, accepted, Ticket.isOpen]
  · rw [resolve, if_neg fun listed => accepted (List.contains_iff_mem.mp listed)]
    refine iff_of_false Bool.false_ne_true ?_
    rintro (waits | ⟨_, listed⟩)
    · exact accepted (pending_of_waiting sound waits)
    · exact accepted listed

theorem Sound.resolve (sound : o.Sound) (id : Nat) (body : Json) : (o.resolve id body).1.Sound := by
  unfold Outbound.resolve
  split
  · have answered := sound.change (f := .answer body) (fun t waits => by cases t <;> cases waits) id
    refine answered.erase fun waits => ?_
    rw [ticket?_change, if_pos rfl] at waits
    obtain ⟨t, _, same⟩ := Option.map_eq_some_iff.mp waits
    cases t <;> cases same
  · exact sound

theorem find?_forget (o : Outbound) (n id : Nat) :
    (o.forget n).find? id = if n = id then none else o.find? id := by
  rw [find?, forget, List.find?_filter]
  by_cases same : n = id
  · subst same
    rw [if_pos rfl, List.find?_eq_none.mpr (by simp)]
  · rw [if_neg same, find?]
    congr 1
    funext r
    by_cases named : r.id = id <;> simp [named, Ne.symm same]

theorem ticket?_forget (o : Outbound) (n id : Nat) :
    (o.forget n).ticket? id = if n = id then none else o.ticket? id := by
  rw [ticket?, find?_forget]
  split <;> rfl

theorem forget_change (o : Outbound) (id : Nat) (f : Ticket → Ticket) :
    (o.change id f).forget id = o.forget id := by
  rw [forget, change, List.filter_map]
  refine congrArg
    (fun requests => { o with pending := o.pending.erase id, requests := requests }) ?_
  have kept : ((fun r : OpenRequest => r.id != id) ∘
      fun r => if r.id = id then { r with ticket := f r.ticket } else r) = fun r => r.id != id := by
    funext r
    by_cases named : r.id = id <;> simp [named]
  rw [kept]
  refine (List.map_congr_left fun r member => ?_).trans (List.map_id' _)
  exact if_neg (bne_iff_ne.mp (List.mem_filter.mp member).2)

theorem Sound.forget (sound : o.Sound) (id : Nat) : (o.forget id).Sound where
  below r member := sound.below r (List.mem_filter.mp member).1
  once := sound.once.sublist (List.filter_sublist.map _)
  distinct := sound.distinct.erase id
  present n pending := by
    obtain ⟨other, before⟩ := sound.distinct.mem_erase_iff.mp pending
    obtain ⟨r, member, same⟩ := sound.present n before
    refine ⟨r, List.mem_filter.mpr ⟨member, ?_⟩, same⟩
    rw [bne_iff_ne, same]
    exact other
  waiting r member waits := by
    obtain ⟨before, other⟩ := List.mem_filter.mp member
    exact (List.mem_erase_of_ne (bne_iff_ne.mp other)).mpr (sound.waiting r before waits)
  timely r member := sound.timely r (List.mem_filter.mp member).1

/-- Only what has been met is told when a request comes to its end, and the request is gone then. -/
theorem of_finish? {rest : Outbound} (finished : o.finish? id = some (rest, r)) :
    (∃ t, o.ticket? id = some t ∧ t.met? = some r) ∧ rest = o.forget id := by
  rw [finish?] at finished
  split at finished
  · rename_i body stands
    cases finished
    exact ⟨⟨_, stands, rfl⟩, rfl⟩
  · rename_i stands
    cases finished
    exact ⟨⟨_, stands, rfl⟩, rfl⟩
  · cases finished

theorem move_finish (o : Outbound) (id : Nat) :
    o.move (.finish id) = o ∧ o.completes? (.finish id) = none ∨
      ∃ t r, o.ticket? id = some t ∧ t.met? = some r ∧ t ≠ .expired ∧
        o.move (.finish id) = o.forget id ∧ o.completes? (.finish id) = some (id, r) := by
  rw [move, completes?, finish?]
  split
  · rename_i body stands
    exact .inr ⟨_, some body, stands, rfl, nofun, rfl, rfl⟩
  · rename_i stands
    exact .inr ⟨_, none, stands, rfl, nofun, rfl, rfl⟩
  · exact .inl ⟨rfl, rfl⟩

theorem completes?_of_ne (o : Outbound) (other : m ≠ .finish id) (r : Option Json) :
    o.completes? m ≠ some (id, r) := by
  cases m with
  | finish n =>
    intro said
    obtain ⟨c, _, told⟩ := Option.map_eq_some_iff.mp said
    exact other (congrArg Move.finish (Prod.mk.inj told).1)
  | _ => nofun

theorem Sound.elapse (sound : o.Sound) (ms : Nat) : (o.elapse ms).Sound where
  below := sound.below
  once := sound.once
  distinct := sound.distinct
  present := sound.present
  waiting := sound.waiting
  timely r member := by
    have := sound.timely r member
    change r.deadline ≤ o.now + ms + timeout
    omega

theorem Sound.move (sound : o.Sound) (m : Move) : (o.move m).Sound := by
  cases m with
  | ask => exact sound.request
  | answer id body => exact sound.resolve id body
  | elapse ms => exact sound.elapse ms
  | expire id => exact sound.change (fun t waits => by cases t <;> cases waits) id
  | close id => exact sound.change (fun t waits => by cases t <;> first | rfl | cases waits) id
  | finish id =>
    rcases o.move_finish id with ⟨same, _⟩ | ⟨_, _, _, _, _, same, _⟩ <;> rw [same]
    · exact sound
    · exact sound.forget id

/-- A request that has not come to its end is what a move makes of it. -/
theorem ticket?_move (sound : o.Sound) (stands : o.ticket? id = some t) (other : m ≠ .finish id) :
    (o.move m).ticket? id = some (m.acts id t) := by
  have known := lt_nextId sound stands
  cases m with
  | ask => exact (ticket?_request_of_ne sound (Nat.ne_of_lt known)).trans stands
  | elapse ms => exact stands
  | answer n body =>
    obtain ⟨pending, _, resolved⟩ := resolve_fst sound n body
    rw [move, resolved, ticket?_change, Move.acts]
    change (if n = id then (o.ticket? id).map _ else o.ticket? id) = _
    rw [stands]
    split <;> rfl
  | expire n | close n =>
    rw [move, Move.acts]
    refine (ticket?_change o n _ id).trans ?_
    rw [stands]
    split <;> rfl
  | finish n =>
    have differs : n ≠ id := fun same => other (congrArg Move.finish same)
    rcases o.move_finish n with ⟨same, _⟩ | ⟨_, _, _, _, _, same, _⟩ <;> rw [same]
    · exact stands
    · rw [ticket?_forget, if_neg differs, stands]
      rfl

/-- A request that has come to its end has met what it comes to. -/
theorem move_finish_self (stands : o.ticket? id = some t) :
    (o.move (.finish id)).ticket? id = some t ∧ o.completes? (.finish id) = none ∨
      ∃ r, t.met? = some r ∧ (o.move (.finish id)).ticket? id = none ∧
        o.completes? (.finish id) = some (id, r) := by
  rcases o.move_finish id with ⟨same, silent⟩ | ⟨t', r, stands', met, _, same, told⟩
  · exact .inl ⟨by rw [same, stands], silent⟩
  · cases stands.symm.trans stands'
    exact .inr ⟨r, met, by rw [same, ticket?_forget, if_pos rfl], told⟩

/-- A request stands by one move more, or comes to its end. -/
theorem standing_move (sound : o.Sound) (stands : o.ticket? id = some t) (m : Move) :
    ((o.move m).ticket? id = some (m.acts id t) ∧ ∀ r, o.completes? m ≠ some (id, r)) ∨
      ∃ r, t.met? = some r ∧ (o.move m).ticket? id = none ∧ o.completes? m = some (id, r) := by
  by_cases own : m = .finish id
  · subst own
    rcases move_finish_self stands with ⟨stays, silent⟩ | ended
    · exact .inl ⟨stays, fun r told => nomatch silent.symm.trans told⟩
    · exact .inr ended
  · exact .inl ⟨ticket?_move sound stands own, completes?_of_ne o own⟩

/-- A request comes to be there by being made only. -/
theorem absent_move (sound : o.Sound) (absent : o.ticket? id = none) (m : Move) :
    ((o.move m).ticket? id = none ∨ m = .ask ∧ id = o.nextId) ∧
      ∀ r, o.completes? m ≠ some (id, r) := by
  cases m with
  | ask =>
    refine ⟨?_, nofun⟩
    by_cases new : id = o.nextId
    · exact .inr ⟨rfl, new⟩
    · exact .inl ((ticket?_request_of_ne sound new).trans absent)
  | elapse ms => exact ⟨.inl absent, nofun⟩
  | answer n body =>
    obtain ⟨pending, _, resolved⟩ := resolve_fst sound n body
    refine ⟨.inl ?_, nofun⟩
    rw [move, resolved, ticket?_change]
    change (if n = id then (o.ticket? id).map _ else o.ticket? id) = _
    rw [absent]
    exact ite_self _
  | expire n | close n =>
    refine ⟨.inl ((ticket?_change o n _ id).trans ?_), nofun⟩
    rw [absent]
    exact ite_self _
  | finish n =>
    rcases o.move_finish n with ⟨same, silent⟩ | ⟨t, r, stands, _, _, same, told⟩
    · exact ⟨.inl (by rw [same, absent]), fun r told => nomatch silent.symm.trans told⟩
    · refine ⟨.inl ?_, fun r' told' => ?_⟩
      · rw [same, ticket?_forget, absent]
        exact ite_self _
      · cases told.symm.trans told'
        cases stands.symm.trans absent

/-- The numbers only grow, by the one that a request gets. -/
theorem nextId_move (o : Outbound) (m : Move) :
    (o.move m).nextId = o.nextId + (o.asks? m).toList.length := by
  cases m with
  | ask | elapse | expire | close => rfl
  | answer id body =>
    rw [move, resolve]
    split <;> rfl
  | finish id =>
    rcases o.move_finish id with ⟨same, _⟩ | ⟨_, _, _, _, _, same, _⟩ <;> rw [same] <;> rfl

/-- The time that a request has left is what it had less what goes by. -/
theorem left_move (sound : o.Sound) (stands : o.ticket? id = some t) (other : m ≠ .finish id) :
    (o.move m).left id = o.left id - m.span := by
  have known := lt_nextId sound stands
  have clock : (o.move m).now = o.now + m.span := by
    cases m with
    | ask | elapse | expire | close => rfl
    | answer n body =>
      rw [move, resolve]
      split <;> rfl
    | finish n =>
      rcases o.move_finish n with ⟨same, _⟩ | ⟨_, _, _, _, _, same, _⟩ <;> rw [same] <;> rfl
  have deadline : (o.move m).deadline? id = o.deadline? id := by
    cases m with
    | ask => exact congrArg (Option.map _) (find?_request_of_ne sound (Nat.ne_of_lt known))
    | elapse => rfl
    | answer n body =>
      rw [move, resolve]
      split
      · exact deadline?_change _ n _ id
      · rfl
    | expire n | close n => exact deadline?_change o n _ id
    | finish n =>
      have differs : n ≠ id := fun same => other (congrArg Move.finish same)
      rcases o.move_finish n with ⟨same, _⟩ | ⟨_, _, _, _, _, same, _⟩ <;> rw [same]
      exact congrArg (Option.map _) ((find?_forget o n id).trans (if_neg differs))
  rw [left, deadline, clock, left]
  cases o.deadline? id with
  | none => exact (Nat.zero_sub m.span).symm
  | some d => exact (Nat.sub_sub d o.now m.span).symm

/-- A request comes to linger when it looks for its answer for the last time, and goes on to until
it is answered or closed. -/
theorem lingers_move (sound : o.Sound) (known : id < o.nextId) (m : Move) :
    (o.move m).Lingers id ↔ m = .expire id ∧ o.ticket? id = some .waiting ∨
      o.Lingers id ∧ m ≠ .close id ∧ ∀ body, m ≠ .answer id body := by
  have listed (waits : o.ticket? id = some .waiting) := pending_of_waiting sound waits
  cases m with
  | ask =>
    have same := ticket?_request_of_ne sound (Nat.ne_of_lt known)
    have listed : id ∈ o.request.1.pending ↔ id ∈ o.pending :=
      List.mem_cons.trans (or_iff_right (Nat.ne_of_lt known))
    simp [Lingers, move, same, listed]
  | elapse ms =>
    have same : (o.move (.elapse ms)).Lingers id ↔ o.Lingers id := Iff.rfl
    simp [same]
  | answer n body =>
    obtain ⟨pending, left, resolved⟩ := resolve_fst sound n body
    have lists : (o.move (.answer n body)).pending = pending := congrArg Outbound.pending resolved
    have stands : (o.move (.answer n body)).ticket? id =
        if n = id then (o.ticket? id).map (Ticket.answer body) else o.ticket? id := by
      rw [move, resolved]
      exact ticket?_change _ n _ id
    rw [Lingers, lists, left, stands, Lingers]
    by_cases own : n = id
    · simp [own]
    · simp [own, Ne.symm own]
  | expire n =>
    rw [Lingers, show (o.move (.expire n)).ticket? id = _ from ticket?_change o n _ id, Lingers,
      show (o.move (.expire n)).pending = o.pending from rfl]
    by_cases own : n = id
    · rcases stands : o.ticket? id with _ | _ | _ | _ | _ <;>
        simp_all [Ticket.expire]
    · simp [own]
  | close n =>
    rw [Lingers, show (o.move (.close n)).ticket? id = _ from ticket?_change o n _ id, Lingers,
      show (o.move (.close n)).pending = o.pending from rfl]
    by_cases own : n = id
    · rcases stands : o.ticket? id with _ | _ | _ | _ | _ <;> simp_all [Ticket.close]
    · simp [own]
  | finish n =>
    rcases o.move_finish n with ⟨same, _⟩ | ⟨t, r, stands, _, past, same, _⟩ <;> rw [same]
    · simp
    · rw [Lingers, ticket?_forget, show (o.forget n).pending = o.pending.erase n from rfl,
        sound.distinct.mem_erase_iff, Lingers]
      by_cases own : n = id
      · subst own
        simp [stands, past]
      · simp [own, Ne.symm own]

end Moves

section Turn

variable {r : Option Json}

theorem left_eq_zero (stands : o.ticket? id = some t) :
    o.left id = 0 ↔ (o.find? id).any (fun r => r.deadline ≤ o.now) = true := by
  obtain ⟨r, found, _⟩ := Option.map_eq_some_iff.mp stands
  rw [left, deadline?, found, Option.map_some, Option.elim_some, Option.any_some,
    decide_eq_true_iff, Nat.sub_eq_zero_iff_le]

/-- A request comes to its end in its asker's turn when it has met something or its time is over. -/
theorem conclude?_eq (stands : o.ticket? id = some t) : o.conclude? id =
    (t.met?.or (if o.left id = 0 then some none else none)).map fun r => (o.forget id, r) := by
  have looked : (o.look id).ticket? id = some (if o.left id = 0 then t.expire else t) ∧
      (o.look id).forget id = o.forget id := by
    rw [look]
    by_cases due : o.left id = 0
    · rw [if_pos ((left_eq_zero stands).mp due), if_pos due]
      exact ⟨(ticket?_change o id _ id).trans (by rw [if_pos rfl, stands]; rfl),
        forget_change o id _⟩
    · rw [if_neg fun past => due ((left_eq_zero stands).mpr past), if_neg due]
      exact ⟨stands, rfl⟩
  have closed : ((o.look id).close id).ticket? id =
      some (if o.left id = 0 then t.expire else t).close :=
    (ticket?_change _ id _ id).trans (by rw [if_pos rfl, looked.1]; rfl)
  have forgets : ((o.look id).close id).forget id = o.forget id :=
    (forget_change _ id _).trans looked.2
  rw [conclude?, finish?, closed, forgets]
  by_cases due : o.left id = 0 <;> cases t <;> simp [due, Ticket.expire, Ticket.close, Ticket.met?]

theorem conclude?_of_absent (absent : o.ticket? id = none) : o.conclude? id = none := by
  have change (o : Outbound) (absent : o.ticket? id = none) (f : Ticket → Ticket) :
      (o.change id f).ticket? id = none := by
    rw [ticket?_change, if_pos rfl, absent]
    rfl
  have looked : (o.look id).ticket? id = none := by
    rw [look]
    split
    · exact change o absent _
    · exact absent
  rw [conclude?, finish?, show ((o.look id).close id).ticket? id = none from change _ looked _]

theorem of_conclude? {rest : Outbound} (concluded : o.conclude? id = some (rest, r)) :
    rest = o.forget id := by
  cases stands : o.ticket? id with
  | none => cases (conclude?_of_absent stands).symm.trans concluded
  | some t =>
    rw [conclude?_eq stands] at concluded
    obtain ⟨_, _, same⟩ := Option.map_eq_some_iff.mp concluded
    exact (Prod.mk.inj same).1.symm

end Turn

end Outbound

end LintBridge
