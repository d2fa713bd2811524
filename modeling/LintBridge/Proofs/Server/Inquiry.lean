import LintBridge.Proofs.Rpc.Policy
import LintBridge.Proofs.Server.Answers
import LintBridge.Proofs.Server.Asking

namespace LintBridge

namespace Server

variable {s : Server}

/-- What an incident comes to as far as the loading of releases is concerned. -/
inductive Loads (s : Server) (i : Incident) (s' : Server) : Prop
  | rest : s.site.workspace.Tells s'.site.workspace [] → s'.site.purpose? = s.site.purpose? →
      s'.outbound = s.outbound.run i.tells?.toList → s'.asked = s.asked → Loads s i s'
  /-- A task comes to wait for the policy, and asks the editor for it. -/
  | asks {n : Nat} {p : Purpose} {said : List Json} : i.task? = some n →
      s.site.workspace.Tells s'.site.workspace [.askPolicy] →
      s.site.purpose? n = none → s'.site.purpose? = Function.update s.site.purpose? n (some p) →
      s'.outbound = s.outbound.request.1 → s'.asked = s.asked ++ [⟨n, s.outbound.nextId⟩] →
      s'.sent = s.sent ++ said → Rpc.request s.outbound.nextId "linterhub/config" .null ∈ said →
      Loads s i s'
  /-- A task has its turn whose question has ended, and calls the installer. -/
  | installs {n : Nat} {p : Purpose} {a : Asked} {outbound : Outbound} {answer : Option Json} :
      i = .goOn n → s.asked? n = some a → s.outbound.conclude? a.request = some (outbound, answer) →
      s.site.workspace.Tells s'.site.workspace [.installs
        (p.request s.site.workspace.defaults (Rpc.policyOf s.defaults answer))] →
      s.site.purpose? n = some p → s'.site.purpose? = Function.update s.site.purpose? n none →
      s'.outbound = outbound → s'.asked = s.asked.filter (fun a => a.task != n) → Loads s i s'

section Frames

theorem Loads.still {i : Incident} (nothing : i.tells? = none) : s.Loads i s :=
  .rest (.refl _) rfl (by rw [nothing]; rfl) rfl

theorem site_of_closed (closed : s.site? = none) :
    s.site = .new (.new s.here s.defaults s.files) := by
  rw [site, closed]
  rfl

/-- No frame has a release loaded, or makes a task wait for the policy. -/
theorem handle_site (frame : Json) :
    s.site.workspace.Tells (s.handle frame).site.workspace [] ∧
      (s.handle frame).site.purpose? = s.site.purpose? := by
  cases found : s.site? with
  | none =>
    have first := handle_first found frame
    generalize gist : (s.handle frame).gist = g at first
    have sites : (s.handle frame).site? = g.site? := congrArg Gist.site? gist
    have defaults : (s.handle frame).defaults = g.defaults := congrArg Gist.defaults gist
    rw [site_of_closed found]
    cases first with
    | same | leave =>
      rw [site_of_closed (sites.trans found)]
      exact ⟨.still defaults rfl, rfl⟩
    | opened project =>
      rw [site_eq sites]
      exact ⟨.still rfl rfl, rfl⟩
  | some site =>
    have next := handle_next found frame
    generalize gist : (s.handle frame).gist = g at next
    have sites : (s.handle frame).site? = g.site? := congrArg Gist.site? gist
    rw [site_eq found]
    cases next with
    | same | leave =>
      rw [site_eq (sites.trans found)]
      exact ⟨.refl _, rfl⟩
    | @spawn e =>
      rw [site_eq sites]
      exact ⟨.refl _, Site.purpose?_concat (by rintro _ ⟨⟩; rfl)⟩
    | refuse =>
      rw [site_eq sites]
      exact ⟨.refl _, Site.purpose?_concat (by rintro _ ⟨⟩)⟩
    | look document =>
      rw [site_eq sites]
      exact ⟨.lookAt _ document, rfl⟩
    | shutdown =>
      rw [site_eq sites]
      exact ⟨.shutdown _, rfl⟩

end Frames

section Turns

variable {n : Nat}

/-- A move has a release loaded only by a policy. -/
theorem move_loads {i : Incident} {m : Move} (own : i.task? = m.task?) (nothing : i.tells? = none)
    (stays : ∀ n, m ≠ .abandon n) (other : ∀ n policy, m ≠ .receive n (.policy policy)) :
    s.Loads i (s.move m) := by
  obtain ⟨sites, outbound, asked, said, sent⟩ := s.move_behind m
  generalize s.move m = s' at sites outbound asked sent ⊢
  have moved := s.site.move_loads stays
  rw [← sites] at moved outbound asked sent
  cases moved with
  | rest tells same =>
    obtain ⟨outbound', asked'⟩ := withSite_requests m.task? tells List.not_mem_nil
    refine .rest tells same ?_ (asked.trans asked')
    rw [nothing]
    exact outbound.trans outbound'
  | @asks n p task idle tells same =>
    rw [task] at outbound asked sent
    obtain ⟨outbound', asked', told, sent', request⟩ := withSite_asks (n := n) tells
    refine .asks (own.trans task) tells idle same (outbound.trans outbound')
      (asked.trans asked') ?_ (List.mem_append_left said request)
    rw [sent, sent', List.append_assoc]
  | installs given => exact absurd given (other _ _)

theorem of_asked? {a : Asked} (asked : s.asked? n = some a) : a ∈ s.asked ∧ a.task = n :=
  ⟨List.mem_of_find?_eq_some asked, beq_iff_eq.mp (List.find?_some asked :)⟩

/-- A task whose question has ended calls the installer as it has its turn. -/
theorem concluded_loads {p : Purpose} (waits : s.site.purpose? n = some p) {a : Asked}
    (asked : s.asked? n = some a) {outbound : Outbound} {answer : Option Json}
    (concluded : s.outbound.conclude? a.request = some (outbound, answer)) :
    s.Loads (.goOn n) (move
      { s with outbound := outbound, asked := s.asked.filter fun a => a.task != n }
      (.receive n (.policy (Rpc.policyOf s.defaults answer)))) := by
  let heard : Server :=
    { s with outbound := outbound, asked := s.asked.filter fun a => a.task != n }
  let m : Move := .receive n (.policy (Rpc.policyOf s.defaults answer))
  obtain ⟨sites, outbound', asked', _⟩ := heard.move_behind m
  obtain ⟨tells, gone⟩ := s.site.receive_policy waits (Rpc.policyOf s.defaults answer)
  have requests := withSite_requests (s := heard) m.task? tells (by simp)
  rw [← show (heard.move m).site = s.site.move m from sites] at tells gone
  exact .installs rfl asked concluded tells waits gone (outbound'.trans requests.1)
    (asked'.trans requests.2)

/-- What an incident does to a server at which only tasks that wait for the policy have asked. -/
theorem meet_loads (running : s.ended.isSome = false)
    (waiting : ∀ a ∈ s.asked, ∃ p, s.site.purpose? a.task = some p) {i : Incident}
    (own : ∀ n policy, i ≠ .answer n (.policy policy)) : s.Loads i (s.meet i) := by
  unfold meet
  rw [running, if_neg Bool.false_ne_true]
  cases i with
  | frame value =>
    obtain ⟨tells, same⟩ := s.handle_site value
    obtain ⟨outbound, asked⟩ := s.handle_requests value
    exact .rest tells same outbound asked
  | goOn n =>
    dsimp only
    split
    · exact .still rfl
    unfold advance
    split
    · exact .rest (.refl _) rfl rfl rfl
    · exact .still rfl
    split
    · rename_i outbound answer ends
      obtain ⟨a, asked, concluded⟩ := Option.bind_eq_some_iff.mp ends
      obtain ⟨member, rfl⟩ := of_asked? asked
      obtain ⟨p, waits⟩ := waiting a member
      exact concluded_loads waits asked concluded
    · exact move_loads rfl rfl (fun _ => Move.noConfusion) fun _ _ => Move.noConfusion
  | answer n a =>
    dsimp only
    split
    · exact .still rfl
    · refine move_loads rfl rfl (fun _ => Move.noConfusion) fun k policy same => ?_
      cases same
      exact own n policy rfl
  | finish client kept n r =>
    dsimp only
    split
    · exact move_loads rfl rfl (fun _ => Move.noConfusion) fun _ _ => Move.noConfusion
    · exact .still rfl
  | elapse ms => exact .rest (.refl _) rfl rfl rfl

end Turns

section Questions

/-- Every question is of a task that waits for the policy, every such task has a question, and no
two questions have one number. -/
structure Matched (asked : List Asked) (purpose? : Nat → Option Purpose) : Prop where
  once : (asked.map Asked.request).Nodup
  waiting : ∀ a ∈ asked, ∃ p, purpose? a.task = some p
  asked : ∀ n p, purpose? n = some p → ∃ a ∈ asked, a.task = n

variable {asked : List Asked} {purpose? : Nat → Option Purpose} {n id : Nat}

theorem Matched.ask (matched : Matched asked purpose?) (idle : purpose? n = none)
    (fresh : ∀ a ∈ asked, a.request ≠ id) (p : Purpose) :
    Matched (asked ++ [⟨n, id⟩]) (Function.update purpose? n (some p)) where
  once := by
    rw [List.map_append, List.map_singleton]
    refine List.nodup_append.mpr ⟨matched.once, List.nodup_singleton _, fun k old k' new => ?_⟩
    obtain ⟨a, member, rfl⟩ := List.mem_map.mp old
    rw [List.mem_singleton.mp new]
    exact fresh a member
  waiting a member := by
    rcases List.mem_append.mp member with old | new
    · obtain ⟨q, waits⟩ := matched.waiting a old
      have other : a.task ≠ n := by
        rintro rfl
        cases idle.symm.trans waits
      exact ⟨q, (Function.update_of_ne other ..).trans waits⟩
    · rw [List.mem_singleton.mp new]
      exact ⟨p, Function.update_self ..⟩
  asked k q waits := by
    by_cases own : k = n
    · exact ⟨_, List.mem_append_right _ (List.mem_singleton_self _), own.symm⟩
    · rw [Function.update_of_ne own] at waits
      obtain ⟨a, member, task⟩ := matched.asked k q waits
      exact ⟨a, List.mem_append_left _ member, task⟩

theorem Matched.drop (matched : Matched asked purpose?) (n : Nat) :
    Matched (asked.filter fun a => a.task != n) (Function.update purpose? n none) where
  once := matched.once.sublist (List.filter_sublist.map _)
  waiting a member := by
    obtain ⟨old, other⟩ := List.mem_filter.mp member
    obtain ⟨q, waits⟩ := matched.waiting a old
    exact ⟨q, (Function.update_of_ne (bne_iff_ne.mp other) ..).trans waits⟩
  asked k q waits := by
    by_cases own : k = n
    · rw [own, Function.update_self] at waits
      cases waits
    · rw [Function.update_of_ne own] at waits
      obtain ⟨a, old, rfl⟩ := matched.asked k q waits
      exact ⟨a, List.mem_filter.mpr ⟨old, bne_iff_ne.mpr own⟩, rfl⟩

/-- A task has put its question to the editor in the course of some incidents, and some of them
have happened since. -/
def Inquires (first : Server) (past : List Incident) (n id : Nat) (since : List Incident) : Prop :=
  ∃ before asks, past = before ++ asks :: since ∧ asks.task? = some n ∧
    (first.course before).outbound.nextId = id ∧
    Rpc.request id "linterhub/config" .null ∈ (first.course before).said asks

variable {first : Server} {past since : List Incident} {i : Incident}

theorem Inquires.later (inquires : first.Inquires past n id since) (i : Incident) :
    first.Inquires (past ++ [i]) n id (since ++ [i]) := by
  obtain ⟨before, asks, rfl, rest⟩ := inquires
  exact ⟨before, asks, by rw [List.append_assoc, List.cons_append], rest⟩

/-- A task's question stands by what has happened since the task has put it. -/
def Stands (first : Server) (past : List Incident) (o : Outbound) (a : Asked) : Prop :=
  ∃ since, first.Inquires past a.task a.request since ∧
    o.Stands a.request (since.filterMap Incident.tells?)

theorem tells?_of_task? (own : i.task? = some n) : i.tells? = none := by
  cases i with
  | goOn | answer => rfl
  | _ => cases own

theorem filterMap_tells?_of_none (nothing : i.tells? = none) :
    (since ++ [i]).filterMap Incident.tells? = since.filterMap Incident.tells? := by
  rw [List.filterMap_append, List.filterMap_cons_none nothing, List.filterMap_nil,
    List.append_nil]

theorem stands_later {o : Outbound} (sound : o.Sound)
    (stands : o.Stands id (since.filterMap Incident.tells?)) (i : Incident) :
    (o.run i.tells?.toList).Stands id ((since ++ [i]).filterMap Incident.tells?) := by
  cases tells : i.tells? with
  | none =>
    rw [filterMap_tells?_of_none tells]
    exact stands
  | some m =>
    rw [List.filterMap_append, List.filterMap_cons_some tells, List.filterMap_nil]
    refine stands.move sound fun same => ?_
    subst same
    cases i with
    | frame value =>
      unfold Incident.tells? Rpc.reply? at tells
      dsimp only at tells
      split at tells <;> cases tells
    | _ => cases tells

/-- How the questions of tasks stand after some incidents. -/
structure Inquiring (first : Server) (past : List Incident) (d : Defaults) : Prop where
  defaults : (first.course past).site.workspace.defaults = d
  sound : (first.course past).outbound.Sound
  matched : Matched (first.course past).asked (first.course past).site.purpose?
  stands : ∀ a ∈ (first.course past).asked, first.Stands past (first.course past).outbound a

theorem inquiring_new (env : Environment) (d : Defaults) (files : FileTree) (here : Path) :
    Inquiring (new env d files here) [] d where
  defaults := rfl
  sound := Outbound.sound_new
  matched := ⟨List.nodup_nil, nofun, nofun⟩
  stands := nofun

/-- Whatever happens, a question stands until its task is told what it has come to. -/
theorem Inquiring.meet {d : Defaults} (inquiring : Inquiring first past d)
    (loads : (first.course past).Loads i ((first.course past).meet i)) :
    Inquiring first (past ++ [i]) d := by
  have same := course_concat first past i
  obtain ⟨defaults, sound, matched, stands⟩ := inquiring
  cases loads with
  | rest tells purposes outbound asks =>
    rw [← same] at tells purposes outbound asks
    refine ⟨tells.defaults.trans defaults, outbound ▸ sound.run _, ?_, ?_⟩
    · rw [asks, purposes]
      exact matched
    · rw [asks, outbound]
      intro a member
      obtain ⟨since, inquires, stands⟩ := stands a member
      exact ⟨since ++ [i], inquires.later i, stands_later sound stands i⟩
  | @asks n p said own tells idle purposes outbound asks sent request =>
    rw [← same] at tells purposes outbound asks
    have nothing := tells?_of_task? own
    refine ⟨tells.defaults.trans defaults, outbound ▸ sound.request, ?_, ?_⟩
    · rw [asks, purposes]
      refine matched.ask idle (fun a member => ?_) p
      obtain ⟨_, _, stands⟩ := stands a member
      exact Nat.ne_of_lt (stands.lt_nextId sound)
    · rw [asks, outbound]
      intro a member
      rcases List.mem_append.mp member with old | new
      · obtain ⟨since, inquires, stands⟩ := stands a old
        refine ⟨since ++ [i], inquires.later i, ?_⟩
        rw [filterMap_tells?_of_none nothing]
        exact stands.request sound
      · rw [List.mem_singleton.mp new]
        exact ⟨[], ⟨past, i, rfl, own, rfl, said_of_sent sent ▸ request⟩,
          Outbound.stands_request sound⟩
  | @installs n p a outbound answer turn found concluded tells waits purposes forgets asks =>
    rw [← same] at tells purposes forgets asks
    obtain ⟨member, rfl⟩ := of_asked? found
    obtain rfl := Outbound.of_conclude? concluded
    refine ⟨tells.defaults.trans defaults, forgets ▸ sound.forget _, ?_, ?_⟩
    · rw [asks, purposes]
      exact matched.drop a.task
    · rw [asks, forgets]
      intro a' left
      obtain ⟨old, other⟩ := List.mem_filter.mp left
      obtain ⟨since, inquires, stands⟩ := stands a' old
      refine ⟨since ++ [i], inquires.later i, ?_⟩
      rw [filterMap_tells?_of_none (turn ▸ rfl)]
      refine stands.forget fun clash => bne_iff_ne.mp other ?_
      exact congrArg Asked.task (List.inj_on_of_nodup_map matched.once old member clash.symm)

/-- The incidents of a session: policies are given to tasks by what their questions have come to
alone. -/
def Unprompted (incidents : List Incident) : Prop :=
  ∀ n policy, .answer n (.policy policy) ∉ incidents

theorem Unprompted.left {more : List Incident} (unprompted : Unprompted (past ++ more)) :
    Unprompted past := fun n policy member =>
  unprompted n policy (List.mem_append_left more member)

theorem running_of_meet {i : Incident} (running : (s.meet i).ended.isSome = false) :
    s.ended.isSome = false := by
  cases ended : s.ended.isSome with
  | false => rfl
  | true =>
    rw [meet_of_ended ended, ended] at running
    exact running

theorem inquiring_course (env : Environment) (d : Defaults) (files : FileTree) (here : Path)
    (unprompted : Unprompted past)
    (running : ((new env d files here).course past).ended.isSome = false) :
    Inquiring (new env d files here) past d := by
  induction past using List.reverseRecOn with
  | nil => exact inquiring_new env d files here
  | append_singleton past i ih =>
    rw [course_concat] at running
    have before := running_of_meet running
    have inquiring := ih unprompted.left before
    refine inquiring.meet (meet_loads before inquiring.matched.waiting fun n policy same => ?_)
    exact unprompted n policy (List.mem_append_right _ (List.mem_singleton.mpr same.symm))

/-- A task whose question has ended has a release loaded with its turn. -/
theorem turn_installs {d : Defaults} (defaults : s.site.workspace.defaults = d)
    (same : s.defaults = d) (orderly : s.Orderly) (running : s.ended.isSome = false) {p : Purpose}
    (waits : s.site.purpose? n = some p) {a : Asked} (asked : s.asked? n = some a)
    {moves : List Outbound.Move} (stands : s.outbound.Stands a.request moves)
    {answer : Option Json} (met : Outbound.fate? a.request Outbound.timeout moves = some answer) :
    s.site.workspace.Tells (s.meet (.goOn n)).site.workspace
      [.installs (p.request d (Rpc.policyOf d answer))] := by
  subst same
  have concluded := stands.conclude?
  rw [met, Option.map_some] at concluded
  obtain ⟨t, found, purpose⟩ := Option.bind_eq_some_iff.mp waits
  have working : s.isOver n = false := by
    rw [← Bool.not_eq_true, orderly.isOver_iff found]
    obtain ⟨held, point⟩ := t
    cases point with
    | policy q => exact Bool.false_ne_true
    | _ => cases purpose
  let heard : Server :=
    { s with
      outbound := s.outbound.forget a.request
      asked := s.asked.filter fun a => a.task != n }
  have meets : s.meet (.goOn n) =
      heard.move (.receive n (.policy (Rpc.policyOf s.defaults answer))) := by
    rw [meet, running, if_neg Bool.false_ne_true, working]
    rcases orderly.atWork found working with job | ⟨id, job⟩ <;>
      simp only [Bool.false_eq_true, if_false, advance, job, asked, Option.bind_some, concluded,
        heard]
  rw [meets, (heard.move_behind _).1, ← defaults]
  exact (s.site.receive_policy waits _).1

/-- The installer is called just in the turn of a task that has put a question to the editor, and
the call is as the question has come to by then. -/
theorem Inquiring.calls {d : Defaults} (inquiring : Inquiring first past d)
    (same : (first.course past).defaults = d)
    (loads : (first.course past).Loads i ((first.course past).meet i)) :
    let s := first.course past
    ∃ told, s.site.workspace.Tells (s.meet i).site.workspace told ∧
      ∀ r, .installs r ∈ told → ∃ n id since p answer, i = .goOn n ∧
        s.site.purpose? n = some p ∧ first.Inquires past n id since ∧
        Outbound.fate? id Outbound.timeout (since.filterMap Incident.tells?) = some answer ∧
        r = p.request d (Rpc.policyOf d answer) := by
  cases loads with
  | rest tells => exact ⟨_, tells, nofun⟩
  | asks _ tells => exact ⟨_, tells, fun r called => nomatch List.mem_singleton.mp called⟩
  | @installs n p a outbound answer turn found concluded tells waits =>
    rw [inquiring.defaults, same] at tells
    obtain ⟨member, rfl⟩ := of_asked? found
    obtain ⟨since, inquires, stands⟩ := inquiring.stands a member
    rw [stands.conclude?] at concluded
    obtain ⟨_, met, ends⟩ := Option.map_eq_some_iff.mp concluded
    cases ends
    refine ⟨_, tells, fun r called => ⟨a.task, a.request, since, p, answer, turn, waits, inquires,
      met, ?_⟩⟩
    exact Event.installs.inj (List.mem_singleton.mp called)

/-- A task that waits for the policy has put a question to the editor, which ends. -/
theorem Inquiring.turn {d : Defaults} (inquiring : Inquiring first past d)
    (same : (first.course past).defaults = d) (orderly : (first.course past).Orderly)
    (running : (first.course past).ended.isSome = false) {p : Purpose}
    (waits : (first.course past).site.purpose? n = some p) :
    let s := first.course past
    let late := s.meet (.elapse Outbound.timeout)
    ∃ id since, first.Inquires past n id since ∧
      (∀ answer,
        Outbound.fate? id Outbound.timeout (since.filterMap Incident.tells?) = some answer →
        s.site.workspace.Tells (s.meet (.goOn n)).site.workspace
          [.installs (p.request d (Rpc.policyOf d answer))]) ∧
      (Outbound.fate? id Outbound.timeout (since.filterMap Incident.tells?) = none →
        late.site.workspace.Tells (late.meet (.goOn n)).site.workspace
          [.installs (p.request d (Rpc.policyOf d none))]) := by
  intro s late
  have defaults : s.site.workspace.defaults = d := inquiring.defaults
  obtain ⟨a, member, task⟩ := inquiring.matched.asked n p waits
  have noted : (s.asked? n).isSome := List.find?_isSome.mpr ⟨a, member, beq_iff_eq.mpr task⟩
  obtain ⟨a, found⟩ := Option.isSome_iff_exists.mp noted
  obtain ⟨member, own⟩ := of_asked? found
  obtain ⟨since, inquires, stands⟩ := inquiring.stands a member
  refine ⟨a.request, since, own ▸ inquires, fun answer met => ?_, fun still => ?_⟩
  · exact turn_installs defaults same orderly running waits found stands met
  · let waited : Server := { s with outbound := s.outbound.elapse Outbound.timeout }
    have meets : late = waited := by
      rw [show late = s.meet (.elapse Outbound.timeout) from rfl, Server.meet, running]
      rfl
    have later : late.Orderly := orderly.meet _
    rw [meets] at later ⊢
    exact turn_installs (s := waited) defaults same later running waits found
      (stands.move inquiring.sound (m := .elapse Outbound.timeout) Outbound.Move.noConfusion)
      (Outbound.fate?_elapse_timeout still)

end Questions

/-- A release is loaded as the editor has it, or as the defaults have it where the editor does not
say. The installer is called just in the turn of a task that has asked the editor, and by what that
question has come to, the first answer of its number or none once its time is over: certificates go
unchecked, or are checked, against the defaults only where an answer that makes sense as a whole
says so, and only such an answer names another proxy. Every task that waits for the policy has
asked, and calls the installer once its question has ended, which it has when the time for an answer
has gone by. -/
theorem releases_are_loaded_as_answered (env : Environment) (d : Defaults) (files : FileTree)
    (here : Path) (incidents : List Incident) (unprompted : Unprompted incidents) :
    let first := new env d files here
    (∀ past i later, incidents = past ++ i :: later →
      ∃ told, (first.course past).site.workspace.Tells
        ((first.course past).meet i).site.workspace told ∧
        ∀ r, .installs r ∈ told → ∃ n id since p answer, i = .goOn n ∧
          (first.course past).site.purpose? n = some p ∧ first.Inquires past n id since ∧
          Outbound.fate? id Outbound.timeout (since.filterMap Incident.tells?) = some answer ∧
          r = p.request d (Rpc.policyOf d answer) ∧ r.Heeds d answer) ∧
    let s := first.course incidents
    let late := s.meet (.elapse Outbound.timeout)
    s.ended.isSome = false → ∀ n p, s.site.purpose? n = some p →
      ∃ id since, first.Inquires incidents n id since ∧
        (∀ answer,
          Outbound.fate? id Outbound.timeout (since.filterMap Incident.tells?) = some answer →
          s.site.workspace.Tells (s.meet (.goOn n)).site.workspace
            [.installs (p.request d (Rpc.policyOf d answer))]) ∧
        (Outbound.fate? id Outbound.timeout (since.filterMap Incident.tells?) = none →
          late.site.workspace.Tells (late.meet (.goOn n)).site.workspace
            [.installs (p.request d (Rpc.policyOf d none))]) := by
  intro first
  have same (past : List Incident) : (first.course past).defaults = d :=
    (past_course env d files here past).defaults_eq
  refine ⟨?_, ?_⟩
  · rintro past i later rfl
    have own (n : Nat) (policy : InstallPolicy) : i ≠ .answer n (.policy policy) := by
      rintro rfl
      exact unprompted n policy (List.mem_append_right _ List.mem_cons_self)
    cases running : (first.course past).ended.isSome with
    | true =>
      rw [meet_of_ended running]
      exact ⟨[], .refl _, nofun⟩
    | false =>
      have inquiring := inquiring_course env d files here unprompted.left running
      obtain ⟨told, tells, calls⟩ := inquiring.calls (same past)
        (meet_loads running inquiring.matched.waiting own)
      refine ⟨told, tells, fun r called => ?_⟩
      obtain ⟨n, id, since, p, answer, turn, waits, inquires, met, rfl⟩ := calls r called
      exact ⟨n, id, since, p, answer, turn, waits, inquires, met, rfl, p.heeds d answer⟩
  · intro s late running n p waits
    exact (inquiring_course env d files here unprompted running).turn (same incidents)
      ((orderly_new env d files here).course incidents) running waits

/-- Defaults with a proxy. -/
def proxied : Defaults := { Defaults.builtIn ⟨[]⟩ with proxy := some "proxy" }

/-- An editor that asks for an engine, and has it loaded without checks and by an empty proxy. -/
def loosely : List Incident :=
  [.frame Rpc.initializeFrame,
    .frame (Json.object [("id", .nat 1), ("method", .str "linterhub/install")]),
    .goOn 0, .goOn 0, .answer 0 (.ran (.ok "")),
    .frame (Json.object [("id", .nat 1),
      ("result", Json.object [("proxy", .str ""), ("strictSSL", .bool false)])])]

/-- The engine is loaded without checks then, and by the proxy of the defaults. -/
theorem unchecked_as_answered :
    let first := new ⟨[]⟩ proxied ⟨[], []⟩ ⟨[]⟩
    let r : InstallRequest := ⟨.managedRuntime, proxied.cliRoot, some "proxy", false⟩
    Unprompted (loosely ++ [.goOn 0]) ∧
      .installs r ∈ ((first.course loosely).meet (.goOn 0)).site.workspace.events ∧
      ∃ id since answer, first.Inquires loosely 0 id since ∧
        Outbound.fate? id Outbound.timeout (since.filterMap Incident.tells?) = some answer ∧
        r.Heeds proxied answer := by
  have before : ((new ⟨[]⟩ proxied ⟨[], []⟩ ⟨[]⟩).course loosely).site.workspace.events.filter
      Event.loads = [.askPolicy] := by
    rfl
  have last : (((new ⟨[]⟩ proxied ⟨[], []⟩ ⟨[]⟩).course loosely).meet
      (.goOn 0)).site.workspace.events.getLast? =
        some (.installs ⟨.managedRuntime, proxied.cliRoot, some "proxy", false⟩) := by
    rfl
  have unprompted : Unprompted (loosely ++ [.goOn 0]) := by
    intro n policy member
    simp [loosely] at member
  obtain ⟨told, tells, calls⟩ := (releases_are_loaded_as_answered ⟨[]⟩ proxied ⟨[], []⟩ ⟨[]⟩ _
    unprompted).1 loosely (.goOn 0) [] rfl
  -- From here on the server need not be computed again.
  generalize new ⟨[]⟩ proxied ⟨[], []⟩ ⟨[]⟩ = first at *
  intro _ r
  have fresh : .installs r ∉ (first.course loosely).site.workspace.events := by
    intro member
    have told : .installs r ∈ (first.course loosely).site.workspace.events.filter Event.loads :=
      List.mem_filter.mpr ⟨member, rfl⟩
    rw [before] at told
    cases List.mem_singleton.mp told
  have called : .installs r ∈ ((first.course loosely).meet (.goOn 0)).site.workspace.events :=
    List.mem_of_getLast? last
  obtain ⟨n, id, since, _, answer, turn, _, inquires, met, _, heeds⟩ :=
    calls r ((tells.mem called rfl).resolve_left fresh)
  cases turn
  exact ⟨unprompted, called, id, since, answer, inquires, met, heeds⟩

end Server

end LintBridge
