import LintBridge.Proofs.Config.ReadBack
import LintBridge.Workspace.Task

namespace LintBridge

/-- A request to make a linter active or inactive. -/
structure Activation where
  linter : String
  active : Bool

namespace Activation

/-- What a workspace is asked for. -/
def errand (a : Activation) : Errand := .setActive a.linter a.active

/-- The change of the file that is asked for. -/
def change (a : Activation) : Change := .linter a.linter a.active

/-- Whether a file has the linter as it was asked for. -/
def RecordedIn (a : Activation) (c : ProjectConfig) : Prop := c.isActive a.linter = a.active

/-- The entries of a file for linters that no request is about. -/
def others (requests : List Activation) (c : ProjectConfig) : List ProjectLinter :=
  c.linters.filter fun l => requests.all fun a => a.linter != l.name

/-- Whether the requests are about different linters. -/
def Distinct (requests : List Activation) : Prop :=
  ∀ (n k : Nat) (a b : Activation), requests[n]? = some a → requests[k]? = some b → n ≠ k →
    a.linter ≠ b.linter

section Apply

variable {a : Activation} {c c' : ProjectConfig} {changed : Bool}

/-- All that a request can do to a file. -/
theorem apply_cases (applied : a.change.apply c = (c', changed)) :
    (a.active = true ∧ c.isActive a.linter = true ∧ c' = c ∧ changed = false) ∨
      (a.active = true ∧ c.isActive a.linter = false ∧
        c' = { c with linters := c.linters ++ [⟨a.linter, .null⟩] } ∧ changed = true) ∨
      (a.active = false ∧ c' = { c with linters := c.linters.filter fun l => l.name != a.linter } ∧
        changed = c.isActive a.linter) := by
  obtain ⟨linter, active⟩ := a
  cases active with
  | true =>
    simp only [change, Change.apply, ProjectConfig.activate] at applied
    split at applied
    · rename_i already
      cases applied
      exact .inl ⟨rfl, already, rfl, rfl⟩
    · rename_i missing
      cases applied
      exact .inr (.inl ⟨rfl, Bool.eq_false_iff.mpr missing, rfl, rfl⟩)
  | false =>
    cases applied
    exact .inr (.inr ⟨rfl, rfl, rfl⟩)

theorem recordedIn_apply (applied : a.change.apply c = (c', changed)) : a.RecordedIn c' := by
  rcases apply_cases applied with ⟨active, already, rfl, _⟩ | ⟨active, _, rfl, _⟩ |
    ⟨active, rfl, _⟩
  · rw [RecordedIn, active, already]
  · simp [RecordedIn, ProjectConfig.isActive, active]
  · simp [RecordedIn, ProjectConfig.isActive, active]

/-- A request changes a file just when it is not recorded there. -/
theorem unchanged_iff (applied : a.change.apply c = (c', changed)) :
    changed = false ↔ a.RecordedIn c := by
  rcases apply_cases applied with ⟨active, already, _, rfl⟩ | ⟨active, missing, _, rfl⟩ |
    ⟨active, _, rfl⟩
  · simp [RecordedIn, active, already]
  · simp [RecordedIn, active, missing]
  · rw [RecordedIn, active]

theorem mode_apply (applied : a.change.apply c = (c', changed)) : c'.mode = c.mode := by
  rcases apply_cases applied with ⟨_, _, rfl, _⟩ | ⟨_, _, rfl, _⟩ | ⟨_, rfl, _⟩ <;> rfl

/-- A request leaves the entries of other linters as they are. -/
theorem filter_apply (applied : a.change.apply c = (c', changed)) {keep : ProjectLinter → Bool}
    (about : ∀ l, l.name = a.linter → keep l = false) :
    c'.linters.filter keep = c.linters.filter keep := by
  rcases apply_cases applied with ⟨_, _, rfl, _⟩ | ⟨_, _, rfl, _⟩ | ⟨_, rfl, _⟩
  · rfl
  · simp [about]
  · rw [List.filter_filter]
    refine List.filter_congr fun l _ => ?_
    by_cases named : l.name = a.linter
    · simp [about l named]
    · simp [named]

theorem steady_apply (applied : a.change.apply c = (c', changed)) (steady : c.Steady) :
    c'.Steady := by
  rcases apply_cases applied with ⟨_, _, rfl, _⟩ | ⟨_, _, rfl, _⟩ | ⟨_, rfl, _⟩
  · exact steady
  · intro l member
    rcases List.mem_append.mp member with old | new
    · exact steady l old
    · rw [List.mem_singleton.mp new]
      exact .null
  · exact fun l member => steady l (List.mem_filter.mp member).1

theorem isActive_apply (applied : a.change.apply c = (c', changed)) {name : String}
    (other : name ≠ a.linter) : c'.isActive name = c.isActive name := by
  have same : c'.linters.filter (fun l => l.name == name) =
      c.linters.filter fun l => l.name == name :=
    filter_apply applied fun l about => by simp [about, other.symm]
  have any (c : ProjectConfig) :
      c.isActive name = !(c.linters.filter fun l => l.name == name).isEmpty := by
    rw [ProjectConfig.isActive, Bool.eq_iff_iff]
    simp
  rw [any, any, same]

theorem others_apply {requests : List Activation} (member : a ∈ requests)
    (applied : a.change.apply c = (c', changed)) : others requests c' = others requests c := by
  refine filter_apply applied fun l about => ?_
  rw [List.all_eq_false]
  exact ⟨a, member, by simp [about]⟩

/-- Whether a file is the first one but for what the requests are about. -/
structure Kin (requests : List Activation) (first c : ProjectConfig) : Prop where
  mode : c.mode = first.mode
  others : others requests c = others requests first
  steady : c.Steady

theorem Kin.apply {requests : List Activation} {first : ProjectConfig} (kin : Kin requests first c)
    (member : a ∈ requests) (applied : a.change.apply c = (c', changed)) :
    Kin requests first c' where
  mode := (mode_apply applied).trans kin.mode
  others := (others_apply member applied).trans kin.others
  steady := steady_apply applied kin.steady

theorem recordedIn_apply_iff {b : Activation} (applied : a.change.apply c = (c', changed))
    (other : b.linter ≠ a.linter) : b.RecordedIn c' ↔ b.RecordedIn c := by
  rw [RecordedIn, RecordedIn, isActive_apply applied other]

end Apply

end Activation

/-- How far a request has come with the file. -/
inductive Drafting where
  | waiting
  /-- It has loaded the file, and is about to save it with its change. -/
  | holding (c : ProjectConfig)
  /-- It has saved, or there was nothing to change. -/
  | settled
  | gone

/-- The file of a project, and how far each request has come with it. -/
structure Filing where
  file : ProjectConfig
  stages : List Drafting

namespace Filing

/-- What a request is about to save. -/
def draft? (f : Filing) (n : Nat) : Option ProjectConfig :=
  match f.stages[n]? with
  | some (.holding c) => some c
  | _ => none

/-- The file, or what a request is about to save. -/
def copy? (f : Filing) : Option Nat → Option ProjectConfig
  | none => some f.file
  | some n => f.draft? n

/-- All that can happen to a file, with the request that saves it. -/
inductive Step (requests : List Activation) : Filing → Option Nat → Filing → Prop
  | stay {f} : Step requests f none f
  | come {f} : Step requests f none ⟨f.file, f.stages ++ [.waiting]⟩
  | drop {f n} : Step requests f none ⟨f.file, f.stages.set n .gone⟩
  | load {f n a c} : requests[n]? = some a → f.stages[n]? = some .waiting →
      a.change.apply f.file = (c, true) → Step requests f none ⟨f.file, f.stages.set n (.holding c)⟩
  | find {f n a c} : requests[n]? = some a → f.stages[n]? = some .waiting →
      a.change.apply f.file = (c, false) → Step requests f none ⟨f.file, f.stages.set n .settled⟩
  | save {f n c} : f.stages[n]? = some (.holding c) →
      Step requests f (some n) ⟨c, f.stages.set n .settled⟩

/-- What a step means to one request: nothing, or one of the things that can happen to it. -/
inductive Turn (requests : List Activation) (f : Filing) (who : Option Nat) (f' : Filing)
    (n : Nat) : Prop
  | same : f'.stages[n]? = f.stages[n]? → who ≠ some n → Turn requests f who f' n
  | come : f.stages[n]? = none → f'.stages[n]? = some .waiting → who = none →
      Turn requests f who f' n
  | drop : f'.stages[n]? = some .gone → who = none → Turn requests f who f' n
  | load {a c} : requests[n]? = some a → f.stages[n]? = some .waiting →
      a.change.apply f.file = (c, true) → f'.stages[n]? = some (.holding c) → who = none →
      Turn requests f who f' n
  | find {a c} : requests[n]? = some a → f.stages[n]? = some .waiting →
      a.change.apply f.file = (c, false) → f'.stages[n]? = some .settled → who = none →
      Turn requests f who f' n
  | save {c} : f.stages[n]? = some (.holding c) → f'.stages[n]? = some .settled →
      who = some n → f'.file = c → Turn requests f who f' n

/-- Whether a request may still save. -/
def Pending (f : Filing) (n : Nat) : Prop :=
  f.stages[n]? ≠ some .settled ∧ f.stages[n]? ≠ some .gone

/-- Whether a request has come to the file. -/
def Begun (f : Filing) (n : Nat) : Prop :=
  ∃ stage, f.stages[n]? = some stage ∧ stage ≠ .waiting

section Steps

variable {requests : List Activation} {f f' : Filing} {who place : Option Nat} {n : Nat}
  {a : Activation} {c : ProjectConfig}

theorem draft?_eq_some : f.draft? n = some c ↔ f.stages[n]? = some (.holding c) := by
  unfold draft?
  split
  · rename_i same
    rw [same, Option.some.injEq, Option.some.injEq, Drafting.holding.injEq]
  · rename_i other
    exact ⟨nofun, fun same => absurd same (other c)⟩

theorem Step.turn (step : Step requests f who f') (n : Nat) : Turn requests f who f' n := by
  have within {k : Nat} {old new : Drafting} (there : f.stages[k]? = some old) :
      (f.stages.set k new)[k]? = some new :=
    List.getElem?_set_self (List.getElem?_eq_some_iff.mp there).1
  cases step with
  | stay => exact .same rfl nofun
  | come =>
    rcases Nat.lt_trichotomy n f.stages.length with before | here | beyond
    · exact .same (List.getElem?_append_left before) nofun
    · exact .come (List.getElem?_eq_none (Nat.le_of_eq here.symm))
        (here ▸ List.getElem?_concat_length) rfl
    · refine .same ?_ nofun
      rw [List.getElem?_eq_none (by rw [List.length_append, List.length_singleton]; omega),
        List.getElem?_eq_none (by omega)]
  | @drop k =>
    by_cases own : k = n
    · subst own
      by_cases inside : k < f.stages.length
      · exact .drop (List.getElem?_set_self inside) rfl
      · exact .same (by rw [List.set_eq_of_length_le (by omega)]) nofun
    · exact .same (List.getElem?_set_ne own) nofun
  | @load k a c asked there applied =>
    by_cases own : k = n
    · subst own
      exact .load asked there applied (within there) rfl
    · exact .same (List.getElem?_set_ne own) nofun
  | @find k a c asked there applied =>
    by_cases own : k = n
    · subst own
      exact .find asked there applied (within there) rfl
    · exact .same (List.getElem?_set_ne own) nofun
  | @save k c there =>
    by_cases own : k = n
    · subst own
      exact .save there (within there) rfl rfl
    · exact .same (List.getElem?_set_ne own) fun same => own (Option.some.inj same)

/-- The file is another one by a save only. -/
theorem Step.file (step : Step requests f who f') :
    f'.file = f.file ∨ ∃ n, who = some n ∧ f.draft? n = some f'.file := by
  cases step with
  | save there => exact .inr ⟨_, rfl, draft?_eq_some.mpr there⟩
  | _ => exact .inl rfl

/-- A copy comes from an older one: it is the same, or a request has changed the file to it. -/
theorem Step.copy_of (step : Step requests f who f') (copy : f'.copy? place = some c) :
    (∃ old, f.copy? old = some c ∧ (old = place ∨ place = none ∧ old = who)) ∨
      ∃ n a, place = some n ∧ requests[n]? = some a ∧ f.stages[n]? = some .waiting ∧
        a.change.apply f.file = (c, true) ∧ who = none := by
  cases place with
  | none =>
    cases copy
    rcases step.file with same | ⟨n, rfl, draft⟩
    · exact .inl ⟨none, congrArg some same.symm, .inl rfl⟩
    · exact .inl ⟨some n, draft, .inr ⟨rfl, rfl⟩⟩
  | some n =>
    have holding := draft?_eq_some.mp copy
    cases step.turn n with
    | same same => exact .inl ⟨some n, draft?_eq_some.mpr (same ▸ holding), .inl rfl⟩
    | load asked there applied holding' nobody =>
      cases holding'.symm.trans holding
      exact .inr ⟨n, _, rfl, asked, there, applied, nobody⟩
    | come _ other | drop other | find _ _ _ other | save _ other =>
      cases other.symm.trans holding

theorem Step.pending (step : Step requests f who f') (pending : f'.Pending n) :
    f.Pending n ∧ who ≠ some n := by
  cases step.turn n with
  | same same other => exact ⟨by rwa [Pending, ← same], other⟩
  | come absent _ nobody => exact ⟨by simp [Pending, absent], by simp [nobody]⟩
  | load _ waiting _ _ nobody => exact ⟨by simp [Pending, waiting], by simp [nobody]⟩
  | drop gone => exact absurd gone pending.2
  | find _ _ _ settled | save _ settled => exact absurd settled pending.1

theorem Step.begun (step : Step requests f who f') (begun : f.Begun n) : f'.Begun n := by
  obtain ⟨stage, there, other⟩ := begun
  cases step.turn n with
  | same same => exact ⟨stage, same.trans there, other⟩
  | come absent => cases absent.symm.trans there
  | drop found | load _ _ _ found | find _ _ _ found | save _ found => exact ⟨_, found, nofun⟩

/-- A request settles by a save of its own, or by finding the file as it was asked for. -/
theorem Step.of_settled (step : Step requests f who f') (settled : f'.stages[n]? = some .settled) :
    f.stages[n]? = some .settled ∨ (who = some n ∧ f.draft? n = some f'.file) ∨
      ∃ a c, requests[n]? = some a ∧ f.stages[n]? = some .waiting ∧
        a.change.apply f.file = (c, false) ∧ who = none := by
  cases step.turn n with
  | same same => exact .inl (same.symm.trans settled)
  | find asked waiting applied _ nobody => exact .inr (.inr ⟨_, _, asked, waiting, applied, nobody⟩)
  | save holding _ own file => exact .inr (.inl ⟨own, draft?_eq_some.mpr (file ▸ holding)⟩)
  | come _ found | drop found | load _ _ _ found => cases found.symm.trans settled

end Steps

/-- What is so of all copies, whatever happens: they are the first file but for the requests, and
what a request asks for is in no copy but its own until it saves. -/
structure Sound (requests : List Activation) (first : ProjectConfig) (f : Filing) : Prop where
  kin : ∀ place c, f.copy? place = some c → Activation.Kin requests first c
  pending : ∀ n a, requests[n]? = some a → f.Pending n → ∀ place c, place ≠ some n →
    f.copy? place = some c → (a.RecordedIn c ↔ a.RecordedIn first)
  held : ∀ n c, f.draft? n = some c →
    ∃ a, requests[n]? = some a ∧ a.RecordedIn c ∧ ¬a.RecordedIn first

/-- Whether all copies have what the settled requests have asked for. -/
def Recorded (requests : List Activation) (f : Filing) : Prop :=
  ∀ (n : Nat) (a : Activation), requests[n]? = some a → f.stages[n]? = some .settled →
    ∀ place c, f.copy? place = some c → a.RecordedIn c

/-- Whether two requests have come to the file of which no copy has both. -/
def Torn (requests : List Activation) (f : Filing) : Prop :=
  ∃ (i j : Nat) (a b : Activation), requests[i]? = some a ∧ requests[j]? = some b ∧
    f.Begun i ∧ f.Begun j ∧
    ∀ place c, f.copy? place = some c → ¬(a.RecordedIn c ∧ b.RecordedIn c)

/-- Whether a save is made while nobody else is about to save. -/
def Alone (f : Filing) (who : Option Nat) : Prop :=
  ∀ n, who = some n → ∀ k c, f.draft? k = some c → k = n

section Preserved

variable {requests : List Activation} {first : ProjectConfig} {f f' : Filing} {who : Option Nat}
  {n : Nat} {c : ProjectConfig}

theorem pending_of_waiting (waiting : f.stages[n]? = some .waiting) : f.Pending n := by
  simp [Pending, waiting]

theorem pending_of_draft (draft : f.draft? n = some c) : f.Pending n := by
  simp [Pending, draft?_eq_some.mp draft]

theorem Sound.step (distinct : Activation.Distinct requests) (sound : f.Sound requests first)
    (step : Step requests f who f') : f'.Sound requests first where
  kin place c copy := by
    rcases step.copy_of copy with ⟨old, copied, _⟩ | ⟨k, b, _, asked, _, applied, _⟩
    · exact sound.kin old c copied
    · exact (sound.kin none _ rfl).apply (List.mem_of_getElem? asked) applied
  pending n a asked pending place c elsewhere copy := by
    obtain ⟨pending, other⟩ := step.pending pending
    rcases step.copy_of copy with ⟨old, copied, same⟩ | ⟨k, b, rfl, asked', _, applied, _⟩
    · refine sound.pending n a asked pending old c ?_ copied
      rcases same with rfl | ⟨_, rfl⟩
      · exact elsewhere
      · exact other
    · have apart := distinct n k a b asked asked' fun same => elsewhere (congrArg some same.symm)
      exact (Activation.recordedIn_apply_iff applied apart).trans
        (sound.pending n a asked pending none _ nofun rfl)
  held n c draft := by
    have copy : f'.copy? (some n) = some c := draft
    rcases step.copy_of copy with ⟨old, copied, rfl | ⟨absurd, _⟩⟩ |
      ⟨k, a, same, asked, waiting, applied, _⟩
    · exact sound.held n c copied
    · cases absurd
    · cases same
      have missing : ¬a.RecordedIn f.file := fun already =>
        Bool.noConfusion ((Activation.unchanged_iff applied).mpr already)
      exact ⟨a, asked, Activation.recordedIn_apply applied, fun recorded => missing
        ((sound.pending n a asked (pending_of_waiting waiting) none _ nofun rfl).mpr recorded)⟩

/-- What has been recorded stays so while every save is made alone. -/
theorem Recorded.step (distinct : Activation.Distinct requests) (sound : f.Sound requests first)
    (recorded : f.Recorded requests) (step : Step requests f who f') (alone : f.Alone who) :
    f'.Recorded requests := by
  intro n a asked settled place c copy
  rcases step.of_settled settled with before | ⟨own, draft⟩ | ⟨b, c', asked', waiting, applied, _⟩
  · rcases step.copy_of copy with ⟨old, copied, _⟩ | ⟨k, b, _, asked', waiting, applied, _⟩
    · exact recorded n a asked before old c copied
    · have other : n ≠ k := by
        rintro rfl
        cases before.symm.trans waiting
      exact (Activation.recordedIn_apply_iff applied (distinct n k a b asked asked' other)).mpr
        (recorded n a asked before none _ rfl)
  · cases place with
    | none =>
      cases copy
      obtain ⟨b, asked', has, _⟩ := sound.held n _ draft
      cases asked.symm.trans asked'
      exact has
    | some k =>
      rcases step.copy_of copy with ⟨old, copied, rfl | ⟨absurd, _⟩⟩ | ⟨_, _, _, _, _, _, nobody⟩
      · cases alone n own k c copied
        cases settled.symm.trans (draft?_eq_some.mp copy)
      · cases absurd
      · cases own.symm.trans nobody
  · -- nothing was to be changed, so that the first file had it, and all copies of others have it
    cases asked.symm.trans asked'
    have already : a.RecordedIn f.file := (Activation.unchanged_iff applied).mp rfl
    have pending := sound.pending n a asked (pending_of_waiting waiting)
    have there := (pending none _ nofun rfl).mp already
    rcases step.copy_of copy with ⟨old, copied, _⟩ | ⟨k, b, _, asked'', _, applied', _⟩
    · refine (pending old c ?_ copied).mpr there
      rintro rfl
      cases waiting.symm.trans (draft?_eq_some.mp copied)
    · have other : n ≠ k := by
        rintro rfl
        cases asked.symm.trans asked''
        cases applied.symm.trans applied'
      exact (Activation.recordedIn_apply_iff applied' (distinct n k a b asked asked'' other)).mpr
        already

/-- What is torn stays so. -/
theorem Torn.step (distinct : Activation.Distinct requests) (torn : f.Torn requests)
    (step : Step requests f who f') : f'.Torn requests := by
  obtain ⟨i, j, a, b, askedI, askedJ, begunI, begunJ, apart⟩ := torn
  refine ⟨i, j, a, b, askedI, askedJ, step.begun begunI, step.begun begunJ,
    fun place c copy => ?_⟩
  rcases step.copy_of copy with ⟨old, copied, _⟩ | ⟨k, d, _, asked, waiting, applied, _⟩
  · exact apart old c copied
  · have other {m : Nat} (begun : f.Begun m) : m ≠ k := by
      rintro rfl
      obtain ⟨stage, there, begun⟩ := begun
      exact begun (Option.some.inj (there.symm.trans waiting))
    rw [Activation.recordedIn_apply_iff applied (distinct i k a d askedI asked (other begunI)),
      Activation.recordedIn_apply_iff applied (distinct j k b d askedJ asked (other begunJ))]
    exact apart none _ rfl

/-- Of two requests that are about to save, the file has one at most from then on. -/
theorem Sound.torn (sound : f.Sound requests first) (step : Step requests f who f')
    (together : ¬f.Alone who) : f'.Torn requests := by
  simp only [Alone, Classical.not_forall] at together
  obtain ⟨n, rfl, k, c, draft, other⟩ := together
  cases step with
  | @save _ saved holding =>
    have own : f.draft? n = some saved := draft?_eq_some.mpr holding
    obtain ⟨a, askedN, _, missingN⟩ := sound.held n saved own
    obtain ⟨b, askedK, _, missingK⟩ := sound.held k c draft
    have step : Step requests f (some n) ⟨saved, f.stages.set n .settled⟩ := .save holding
    refine ⟨n, k, a, b, askedN, askedK, step.begun ⟨_, holding, nofun⟩,
      step.begun ⟨_, draft?_eq_some.mp draft, nofun⟩, fun place c' copy both => ?_⟩
    -- no copy but its own has what a request asks for, and none is the own copy of both
    rcases step.copy_of copy with ⟨old, copied, same⟩ | ⟨_, _, _, _, _, _, nobody⟩
    · by_cases mine : old = some n
      · subst mine
        exact missingK ((sound.pending k b askedK (pending_of_draft draft) _ c'
          (fun same => other (Option.some.inj same).symm) copied).mp both.2)
      · exact missingN ((sound.pending n a askedN (pending_of_draft own) old c' mine copied).mp
          both.1)
    · cases nobody

end Preserved

end Filing

end LintBridge
