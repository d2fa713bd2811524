import LintBridge.Proofs.Json.Members
import LintBridge.Proofs.Rpc.Requests
import LintBridge.Server.Basic

namespace LintBridge

namespace Outbound

variable {o : Outbound} {id : Nat} {since : List Move}

theorem spent_concat (moves : List Move) (m : Move) :
    spent (moves ++ [m]) = spent moves + m.span := List.foldl_concat ..

/-- A request that has met nothing in its time ends without an answer. -/
theorem fate?_elapse_timeout (still : fate? id timeout since = none) :
    fate? id timeout (since ++ [.elapse timeout]) = some none := by
  obtain ⟨unmet, _⟩ := Option.or_eq_none_iff.mp still
  rw [fate?, met?_append, unmet, Option.none_or, spent_concat, Move.span,
    if_pos (Nat.le_add_left ..)]
  rfl

/-- How a request stands that is still there, by the moves since it was made. -/
structure Stands (o : Outbound) (id : Nat) (since : List Move) : Prop where
  ticket : ∃ t, o.ticket? id = some t ∧ t.met? = met? id since
  left : o.left id = timeout - spent since

theorem stands_request (sound : o.Sound) : o.request.1.Stands o.request.2 [] where
  ticket := ⟨.waiting, (ticket?_request_self sound).1, rfl⟩
  left := (ticket?_request_self sound).2

/-- A request that is still there and does not come to its end stands by one move more. -/
theorem Stands.move (stands : o.Stands id since) (sound : o.Sound) {m : Move}
    (other : m ≠ .finish id) : (o.move m).Stands id (since ++ [m]) where
  ticket := by
    obtain ⟨t, here, met⟩ := stands.ticket
    refine ⟨_, ticket?_move sound here other, ?_⟩
    rw [Move.met?_acts, met, met?_append, met?_cons]
    exact congrArg _ Option.or_none.symm
  left := by
    obtain ⟨t, here, _⟩ := stands.ticket
    rw [left_move sound here other, stands.left, spent_concat, Nat.sub_sub]

theorem Stands.congr {o' : Outbound} (stands : o.Stands id since)
    (found : o'.find? id = o.find? id) (now : o'.now = o.now) : o'.Stands id since where
  ticket := by
    rw [ticket?, found]
    exact stands.ticket
  left := by
    rw [Outbound.left, deadline?, found, now]
    exact stands.left

theorem Stands.lt_nextId (stands : o.Stands id since) (sound : o.Sound) : id < o.nextId := by
  obtain ⟨t, here, _⟩ := stands.ticket
  exact Outbound.lt_nextId sound here

/-- Another request does not bear on how a request stands. -/
theorem Stands.request (stands : o.Stands id since) (sound : o.Sound) :
    o.request.1.Stands id since :=
  stands.congr (find?_request_of_ne sound (Nat.ne_of_lt (stands.lt_nextId sound))) rfl

theorem Stands.forget (stands : o.Stands id since) {n : Nat} (other : n ≠ id) :
    (o.forget n).Stands id since :=
  stands.congr ((find?_forget o n id).trans (if_neg other)) rfl

/-- A request that is still there comes to its end in a turn just when its fate is met. -/
theorem Stands.conclude? (stands : o.Stands id since) :
    o.conclude? id = (fate? id timeout since).map fun answer => (o.forget id, answer) := by
  obtain ⟨t, here, met⟩ := stands.ticket
  rw [conclude?_eq here, met, stands.left, fate?]
  simp only [Nat.sub_eq_zero_iff_le]

end Outbound

namespace Rpc

/-- What a result has for a member: under its name in an object, or at its place in an array. -/
def member (name : String) (place : Nat) : Json → Json
  | .obj fields => ((Json.obj fields).field? name).getD .null
  | .arr items => items[place]?.getD .null
  | _ => .null

/-- Whether a result can be made sense of as a whole: an object that has each of the two members
once at most, or an array with no more than them. -/
def Shaped : Json → Prop
  | .obj fields => ∀ name ∈ ["strictSSL", "proxy"], (fields.filter (·.1 == name)).length ≤ 1
  | .arr items => items.length ≤ 2
  | _ => False

/-- An answer that says which proxy is to be used and whether certificates are checked, or leaves
one or both open: it tells no error, and its result has a text and a truth value for them, or
nothing. -/
structure Tells (body : Json) (proxy : Option String) (strictSsl : Option Bool) : Prop where
  good : body.field? "error" = none
  shaped : Shaped ((body.field? "result").getD .null)
  proxy_eq : member "proxy" 0 ((body.field? "result").getD .null) = proxy.elim .null .str
  strictSsl_eq :
    member "strictSSL" 1 ((body.field? "result").getD .null) = strictSsl.elim .null .bool

section Answer

variable {result : Json} {name : String} {place : Nat}

theorem member_eq (name : String) (place : Nat) (result : Json) :
    member name place result = (result.part? name place).getD .null := by
  cases result <;> rfl

/-- The members of an answer. -/
def answerRecord : Record ConfigAnswer :=
  (Record.build ConfigAnswer.mk).optional "proxy" Decoder.text
    |>.optional "strictSSL" Decoder.boolean

theorem suits_iff : answerRecord.Suits (Document.ofJson result) ↔ Shaped result := by
  cases result with
  | obj fields => exact Record.suits_ofJson_obj
  | arr items => exact Record.suits_ofJson_arr
  | _ => rfl

theorem decode_nullable_iff {a : ConfigAnswer} :
    result.decode (Decoder.nullable ConfigAnswer.decoder) = .ok (some a) ↔
      Record.decoder "ConfigResult" answerRecord (Document.ofJson result) = .ok a := by
  constructor
  · intro decoded
    obtain ⟨_, none⟩ | ⟨a', value, same⟩ := Decoder.of_nullable decoded
    · cases none
    · cases same
      exact value
  · intro value
    rw [Json.decode, Decoder.nullable]
    · rw [show ConfigAnswer.decoder = Record.decoder "ConfigResult" answerRecord from rfl, value]
      rfl
    · intro null
      rw [null] at value
      cases value

theorem sought?_answerRecord {look : String → Option Document} {a : ConfigAnswer} :
    answerRecord.sought? look = some a ↔
      Decoder.nullable Decoder.text ((look "proxy").getD .null) = .ok a.proxy ∧
      Decoder.nullable Decoder.boolean ((look "strictSSL").getD .null) = .ok a.strictSsl := by
  obtain ⟨proxy, strictSsl⟩ := a
  simp only [answerRecord, Record.sought?_optional_iff, Record.sought?]
  constructor
  · rintro ⟨make, b, ⟨_, p, ⟨⟩, named, rfl⟩, checked, same⟩
    cases same
    exact ⟨named, checked⟩
  · rintro ⟨named, checked⟩
    exact ⟨_, strictSsl, ⟨_, proxy, rfl, named, rfl⟩, checked, rfl⟩

/-- A result reads as an answer just when it can be made sense of as a whole. -/
theorem decode_eq_some_iff {a : ConfigAnswer} :
    result.decode (Decoder.nullable ConfigAnswer.decoder) = .ok (some a) ↔ Shaped result ∧
      member "proxy" 0 result = a.proxy.elim .null .str ∧
      member "strictSSL" 1 result = a.strictSsl.elim .null .bool := by
  have look (name : String) : (answerRecord.look (Document.ofJson result) name).getD .null =
      Document.ofJson (member name (answerRecord.placeOf name) result) := by
    rw [Record.look, Document.head?_parts_ofJson, member_eq]
    cases result.part? name (answerRecord.placeOf name) <;> rfl
  have first : answerRecord.placeOf "proxy" = 0 := by decide
  have second : answerRecord.placeOf "strictSSL" = 1 := by decide
  rw [decode_nullable_iff, Record.decoder_eq_ok_iff (by decide) (by simp [answerRecord]),
    suits_iff, sought?_answerRecord, look, look, first, second, Decoder.nullable_text_ofJson_iff,
    Decoder.nullable_boolean_ofJson_iff]

/-- What an answer says that can be made sense of takes the place of the defaults. -/
theorem policyOf_of_tells {body : Json} {proxy : Option String} {strictSsl : Option Bool}
    (tells : Tells body proxy strictSsl) (d : Defaults) : policyOf d (some body) =
      ⟨(proxy.filter fun p => !p.isEmpty).or d.proxy, strictSsl.getD d.strictSsl⟩ := by
  have decoded := decode_eq_some_iff (a := ⟨proxy, strictSsl⟩).mpr
    ⟨tells.shaped, tells.proxy_eq, tells.strictSsl_eq⟩
  simp only [policyOf, tells.good, Option.isSome_none, Bool.false_eq_true, if_false, decoded]

/-- Of an answer that cannot be made sense of, nothing does. -/
theorem policyOf_of_not_tells {body : Json}
    (silent : ∀ proxy strictSsl, ¬Tells body proxy strictSsl) (d : Defaults) :
    policyOf d (some body) = ⟨d.proxy, d.strictSsl⟩ := by
  rw [policyOf]
  dsimp only
  split
  · rfl
  rename_i good
  split
  · rename_i a decoded
    obtain ⟨shaped, proxy_eq, strictSsl_eq⟩ := decode_eq_some_iff.mp decoded
    rw [Bool.not_eq_true, Option.isSome_eq_false_iff, Option.isNone_iff_eq_none] at good
    exact absurd ⟨good, shaped, proxy_eq, strictSsl_eq⟩ (silent a.proxy a.strictSsl)
  · rfl

end Answer

end Rpc

/-- A request to the installer is as an answer says, where that can be made sense of, and else as
the defaults have it. -/
structure InstallRequest.Heeds (r : InstallRequest) (d : Defaults) (answer : Option Json) :
    Prop where
  told : ∀ body proxy strictSsl, answer = some body → Rpc.Tells body proxy strictSsl →
    r.strictSsl = strictSsl.getD d.strictSsl ∧
      r.proxy = (proxy.filter fun p => !p.isEmpty).or d.proxy
  silent : (∀ body proxy strictSsl, answer = some body → ¬Rpc.Tells body proxy strictSsl) →
    r.strictSsl = d.strictSsl ∧ r.proxy = d.proxy
  /-- Checks are dropped or taken up only by a truth value, and another proxy than the default is
  one that was named. -/
  explicit : (r.strictSsl = d.strictSsl ∨ ∃ body proxy, answer = some body ∧
      Rpc.Tells body proxy (some r.strictSsl)) ∧
    (r.proxy = d.proxy ∨ ∃ body p strictSsl, answer = some body ∧
      Rpc.Tells body (some p) strictSsl ∧ p ≠ "" ∧ r.proxy = some p)

theorem Purpose.heeds (p : Purpose) (d : Defaults) (answer : Option Json) :
    (p.request d (Rpc.policyOf d answer)).Heeds d answer := by
  have told (body : Json) (proxy : Option String) (strictSsl : Option Bool)
      (answered : answer = some body) (tells : Rpc.Tells body proxy strictSsl) :
      (p.request d (Rpc.policyOf d answer)).strictSsl = strictSsl.getD d.strictSsl ∧
        (p.request d (Rpc.policyOf d answer)).proxy =
          (proxy.filter fun p => !p.isEmpty).or d.proxy := by
    rw [answered, Rpc.policyOf_of_tells tells, request]
    refine ⟨rfl, ?_⟩
    dsimp only
    rw [Option.or_assoc, Option.or_self]
  have silent (none : ∀ body proxy strictSsl, answer = some body →
      ¬Rpc.Tells body proxy strictSsl) :
      (p.request d (Rpc.policyOf d answer)).strictSsl = d.strictSsl ∧
        (p.request d (Rpc.policyOf d answer)).proxy = d.proxy := by
    have policy : Rpc.policyOf d answer = ⟨d.proxy, d.strictSsl⟩ := by
      cases answer with
      | none => rfl
      | some body => exact Rpc.policyOf_of_not_tells (fun _ _ => none body _ _ rfl) d
    rw [policy, request]
    exact ⟨rfl, Option.or_self⟩
  refine ⟨told, silent, ?_⟩
  by_cases sense : ∃ body proxy strictSsl, answer = some body ∧ Rpc.Tells body proxy strictSsl
  · obtain ⟨body, proxy, strictSsl, answered, tells⟩ := sense
    obtain ⟨checks, proxied⟩ := told body proxy strictSsl answered tells
    rw [checks, proxied]
    constructor
    · cases strictSsl with
      | none => exact .inl rfl
      | some b => exact .inr ⟨body, proxy, answered, tells⟩
    · cases proxy with
      | none => exact .inl rfl
      | some name =>
        by_cases empty : name = ""
        · subst empty
          exact .inl rfl
        · exact .inr ⟨body, name, strictSsl, answered, tells, empty, by simp [empty]⟩
  · obtain ⟨checks, proxied⟩ := silent fun body proxy strictSsl answered tells =>
      sense ⟨body, proxy, strictSsl, answered, tells⟩
    exact ⟨.inl checks, .inl proxied⟩

end LintBridge
