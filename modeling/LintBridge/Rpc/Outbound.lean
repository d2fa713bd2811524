import LintBridge.Json.Basic

namespace LintBridge

/-- How far a request has come. -/
inductive Ticket where
  | waiting
  | answered (body : Json)
  /-- Its time was over when it looked for its answer and found none. It looks no more, but an
  answer that comes is still taken, and lost. -/
  | expired
  /-- No answer is taken any more. -/
  | closed

namespace Ticket

/-- A request that looks for its answer and finds none looks no more. -/
def expire : Ticket → Ticket
  | waiting => expired
  | t => t

def close : Ticket → Ticket
  | expired => closed
  | t => t

/-- An answer reaches a request that still looks for it. -/
def answer (body : Json) : Ticket → Ticket
  | waiting => answered body
  | t => t

/-- Whether an answer is taken. -/
def isOpen : Ticket → Bool
  | waiting | expired => true
  | answered _ | closed => false

end Ticket

/-- A request that has been sent and has not come to its end. -/
structure OpenRequest where
  id : Nat
  deadline : Nat
  ticket : Ticket

structure Outbound where
  /-- The number of the next request. It counts in 64 bits, so numbers come again only where that
  many requests have been made. -/
  nextId : Nat
  /-- The time, in milliseconds. -/
  now : Nat
  /-- The numbers that answers are accepted for. -/
  pending : List Nat
  requests : List OpenRequest

namespace Outbound

def timeout : Nat := 10000

def new : Outbound := ⟨1, 0, [], []⟩

/-- Ask something. Tells the number of the request. -/
def request (o : Outbound) : Outbound × Nat :=
  ({ o with
      nextId := o.nextId + 1
      pending := o.nextId :: o.pending
      requests := o.requests ++ [⟨o.nextId, o.now + timeout, .waiting⟩] },
    o.nextId)

def find? (o : Outbound) (id : Nat) : Option OpenRequest := o.requests.find? fun r => r.id == id

/-- How a request stands that is still there. -/
def ticket? (o : Outbound) (id : Nat) : Option Ticket := (o.find? id).map OpenRequest.ticket

def isWaiting (o : Outbound) (id : Nat) : Bool :=
  match o.ticket? id with
  | some .waiting => true
  | _ => false

def change (o : Outbound) (id : Nat) (f : Ticket → Ticket) : Outbound :=
  { o with requests := o.requests.map fun r =>
      if r.id = id then { r with ticket := f r.ticket } else r }

/-- An answer has come. Tells whether a request has taken it, be it one that looks no more. -/
def resolve (o : Outbound) (id : Nat) (body : Json) : Outbound × Bool :=
  if o.pending.contains id then
    ({ o with pending := o.pending.erase id }.change id (.answer body),
      (o.ticket? id).any Ticket.isOpen)
  else (o, false)

def elapse (o : Outbound) (ms : Nat) : Outbound := { o with now := o.now + ms }

/-- A request has looked for its answer for the last time. -/
def expire (o : Outbound) (id : Nat) : Outbound := o.change id .expire

def close (o : Outbound) (id : Nat) : Outbound := o.change id .close

/-- The requests without one, whose number is no longer waited for. -/
def forget (o : Outbound) (id : Nat) : Outbound :=
  { o with
    pending := o.pending.erase id
    requests := o.requests.filter fun r => r.id != id }

/-- A request comes to its end, if it has its answer or takes none any more. -/
def finish? (o : Outbound) (id : Nat) : Option (Outbound × Option Json) :=
  match o.ticket? id with
  | some (.answered body) => some (o.forget id, some body)
  | some .closed => some (o.forget id, none)
  | _ => none

/-- Look for the answer of a request, and whether its time is over where there is none. -/
def look (o : Outbound) (id : Nat) : Outbound :=
  if (o.find? id).any fun r => r.deadline ≤ o.now then o.expire id else o

/-- Whoever has asked has a turn: the request comes to its end if there is an answer or its time is
over. -/
def conclude? (o : Outbound) (id : Nat) : Option (Outbound × Option Json) :=
  ((o.look id).close id).finish? id

/-- A request whose asker is gone is forgotten, but not its number. -/
def drop (o : Outbound) (id : Nat) : Outbound :=
  { o with requests := o.requests.filter fun r => r.id != id }

end Outbound

end LintBridge
