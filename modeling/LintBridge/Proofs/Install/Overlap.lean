import LintBridge.Proofs.Install.Steps
import LintBridge.Proofs.Install.Unpacked
import Mathlib.Logic.Function.Basic

namespace LintBridge

namespace FileTree

variable {t t' t₁ : FileTree} {p q : Path} {c : Bytes}

/-- The directories stay where a file is written. -/
theorem kept_write (written : t.write p c = .ok t') :
    (∀ l, t.item? l = some .directory → t'.item? l = some .directory) ∧ t'.here = t.here := by
  obtain ⟨parent, name, mode, way, rfl, _⟩ := of_write written
  exact ⟨way.kept _, here_put t _ _⟩

/-- A directory that was made is there to be made again. -/
theorem createAll_again (made : t.createAll q = (t₁, none))
    (kept : ∀ l, t₁.item? l = some .directory → t'.item? l = some .directory)
    (here : t'.here = t₁.here) : t'.createAll q = (t', none) := by
  by_cases empty : q.bytes.isEmpty = true
  · rw [createAll, if_pos empty]
  have walked := walk_mono kept (walk_createAll made)
  rw [← origin_congr here] at walked
  have none := createFrom_walked walked false []
  rw [List.append_nil] at none
  rw [createAll, if_neg empty] at made ⊢
  cases checked : checkPath q with
  | error fault =>
    rw [checked] at made
    cases made
  | ok u => exact (createFrom_shown _ _ _ _).symm.trans none

end FileTree

namespace Download

variable {t t₁ t₂ : FileTree} {dest : Path} {url url' : Url} {reply reply' : HttpReply}
  {size size' : Nat}

theorem of_keepIn (kept : keepIn t dest url reply = (t₁, .ok size)) :
    (∃ t₀, t.write dest [] = .ok t₀) ∧ t.write dest reply.body = .ok t₁ := by
  unfold keepIn at kept
  split at kept
  · cases kept
  rename_i t₀ made
  split at kept
  · cases kept
  rename_i t₂ wrote
  obtain ⟨rfl, _⟩ := Prod.mk.inj kept
  exact ⟨⟨t₀, made⟩, wrote⟩

/-- Nothing is left of a reply that was kept once another is. -/
theorem keepIn_again (kept : keepIn t dest url reply = (t₁, .ok size))
    (kept' : keepIn t dest url' reply' = (t₂, .ok size')) :
    keepIn t₁ dest url' reply' = (t₂, .ok size') := by
  obtain ⟨_, wrote⟩ := of_keepIn kept
  obtain ⟨⟨t₀, made⟩, wrote'⟩ := of_keepIn kept'
  rw [keepIn, made, wrote'] at kept'
  rw [keepIn, FileTree.write_write wrote, FileTree.write_write wrote, made, wrote']
  exact kept'

theorem keep_again (kept : keep t dest url reply = (t₁, .ok size))
    (kept' : keep t dest url' reply' = (t₂, .ok size')) :
    keep t₁ dest url' reply' = (t₂, .ok size') := by
  rw [keep_eq] at kept kept' ⊢
  cases above : dest.parent? with
  | none =>
    rw [above] at kept kept'
    exact keepIn_again kept kept'
  | some parent =>
    rw [above] at kept kept'
    dsimp only at kept kept' ⊢
    rcases made : t.createAll parent with ⟨t₀, none | fault⟩ <;> rw [made] at kept kept'
    · obtain ⟨_, wrote⟩ := of_keepIn kept
      obtain ⟨stays, here⟩ := FileTree.kept_write wrote
      rw [FileTree.createAll_again made stays here]
      exact keepIn_again kept kept'
    · cases kept

end Download

namespace Setup

variable {reader : ArchiveReader} {target : Path} {t t₁ t₂ : FileTree} {path : Path}

/-- Whether an installation comes to load its archive into some files. -/
def Loads (j : Setup reader target) (t t₁ : FileTree) : Prop :=
  ∃ current reply size, j.answer.2 = .ok (current, reply) ∧
    Download.keep t j.archive current reply = (t₁, .ok size)

/-- An installation that succeeds has loaded its archive and unpacked it. -/
theorem of_alone {j : Setup reader target} (ok : (j.alone t).result = .ok path) : ∃ t₁ t₂ paths,
    j.Loads t t₁ ∧ unpack reader t₁ j.archive target = (t₂, .ok paths) ∧
      path = j.release.installPath target ∧ (j.alone t).tree = (j.ended [] t₂ (.ok path)).tree := by
  rw [alone_eq] at ok ⊢
  rcases said : j.answer with ⟨sent, error | ⟨current, reply⟩⟩ <;> rw [said] at ok
  · cases ok
  dsimp only at ok ⊢
  rcases keeps : Download.keep t j.archive current reply with ⟨t₁, error | size⟩ <;>
    rw [keeps] at ok
  · cases ok
  dsimp only at ok ⊢
  rcases lists : unpack reader t₁ j.archive target with ⟨t₂, error | paths⟩ <;> rw [lists] at ok
  · cases ok
  cases ok
  exact ⟨t₁, t₂, paths, ⟨current, reply, size, by rw [said], keeps⟩, lists, rfl, rfl⟩

/-- An installation leaves no archive behind. -/
theorem read_alone (j : Setup reader target) (t : FileTree) :
    ∃ fault, (j.alone t).tree.read j.archive = .error fault := by
  rw [alone_eq]
  split
  · exact FileTree.read_remove _ _
  · split <;> exact FileTree.read_remove _ _

theorem unpack_missing {fault : Fault} {archive : Path} (none : t.read archive = .error fault) :
    ∃ error, unpack reader t archive target = (t, .error error) := by
  rw [unpack, none]
  cases fault <;> exact ⟨_, rfl⟩

/-- Nothing is left of an archive once another is loaded. -/
theorem Loads.again {j k : Setup reader target} (first : j.Loads t t₁) (second : k.Loads t t₂) :
    k.Loads t₁ t₂ := by
  obtain ⟨_, _, _, _, kept⟩ := first
  obtain ⟨current, reply, size, said, kept'⟩ := second
  exact ⟨current, reply, size, said, Download.keep_again kept kept'⟩

theorem Loads.comes {j : Setup reader target} {d : Disk} (loads : j.Loads d.tree t₁) :
    j.Comes (d, .asking) ({ d with tree := t₁ }, .loaded) := by
  obtain ⟨current, reply, size, said, kept⟩ := loads
  have onward : j.Comes (d, .preparing current reply) _ :=
    comes_kept (j.arrives current reply said)
  rw [kept] at onward
  exact .trans (.step (by rw [step, said])) onward

/-- What is loaded is unpacked, whoever has loaded it. -/
theorem comes_unpack {j : Setup reader target} {d : Disk} {r : Except InstallError (List Path)}
    (unpacked : unpack reader d.tree j.archive target = (t₂, r)) : ∃ d',
      j.Comes (d, .loaded) (d', .done (r.map fun _ => j.release.installPath target)) ∧
        d'.tree = (j.ended [] t₂ (r.map fun _ => j.release.installPath target)).tree := by
  have onward := comes_opened (j := j) (d := d)
  rw [unpacked] at onward
  obtain ⟨d', ends, tree⟩ := comes_done (j := j) [] { d with tree := t₂ }
    (r.map fun _ => j.release.installPath target)
  exact ⟨d', .trans (.step rfl) (onward.trans ends), tree⟩

end Setup

/-- What can come next to installations. -/
inductive Turn where
  /-- An installation goes on by one step. -/
  | go (n : Nat)
  /-- An installation is told to give up. -/
  | cancel (n : Nat)
  deriving DecidableEq

/-- The installation whose turn it is. -/
def Turn.who : Turn → Nat
  | .go n | .cancel n => n

/-- An installation's turn is a step of its own, or it is told to give up. -/
theorem Turn.of_who {t : Turn} {n : Nat} (own : t.who = n) : t = .go n ∨ t = .cancel n := by
  cases own
  cases t
  · exact .inl rfl
  · exact .inr rfl

namespace Setup.Stage

/-- Whether an installation heeds an order to give up. What is being unpacked goes on. -/
def heeds : Stage → Bool
  | .asking | .preparing .. | .creating .. | .writing .. | .loaded => true
  | _ => false

/-- Where an installation stands once it is told to give up. -/
def cancel (s : Stage) : Stage := if s.heeds then .tidying (.error .cancelled) else s

/-- Whether an installation is between its first step and its last. -/
def works : Stage → Bool
  | .asking | .done _ => false
  | _ => true

theorem works_or_done {s : Stage} (begun : s ≠ .asking) : s.works = true ∨ ∃ r, s = .done r := by
  cases s with
  | asking => exact absurd rfl begun
  | done r => exact .inr ⟨r, rfl⟩
  | _ => exact .inl rfl

end Setup.Stage

/-- Installations into one directory, each at its own stage. -/
structure Yard where
  disk : Disk
  stages : Nat → Setup.Stage

namespace Yard

variable {reader : ArchiveReader} {target : Path} (setups : Nat → Setup reader target)

/-- Installations that all wait for the server. -/
def new (t : FileTree) : Yard := ⟨⟨t, 0, []⟩, fun _ => .asking⟩

/-- One installation takes its turn. -/
def turn (y : Yard) : Turn → Yard
  | .go n =>
    let (d, s) := (setups n).step y.disk (y.stages n)
    ⟨d, Function.update y.stages n s⟩
  | .cancel n => ⟨y.disk, Function.update y.stages n (y.stages n).cancel⟩

/-- Installations take some turns. -/
def run (y : Yard) (turns : List Turn) : Yard := turns.foldl (turn setups) y

/-- Whether a turn leaves an installation to itself. While it is at work no other one that works
takes a step, and it is not told to give up where it would heed that. -/
def spares (y : Yard) (n : Nat) : Turn → Bool
  | .go m => m == n || !((y.stages n).works && (y.stages m).works)
  | .cancel m => !(m == n && (y.stages n).heeds)

/-- Whether all turns leave an installation to itself. -/
def apart (n : Nat) : Yard → List Turn → Bool
  | _, [] => true
  | y, t :: turns => y.spares n t && apart n (turn setups y t) turns

section Apart

variable {setups} {y : Yard} {n : Nat} {r : Except InstallError Path}

theorem run_append (y : Yard) (first rest : List Turn) :
    y.run setups (first ++ rest) = (y.run setups first).run setups rest := List.foldl_append

/-- A step leads on, never back to waiting. -/
theorem step_begun (j : Setup reader target) (d : Disk) (s : Setup.Stage) :
    (j.step d s).2 ≠ .asking := by
  fun_cases Setup.step j d s
  case case10 current reply _ _ => cases reply.whole <;> nofun
  all_goals simp_all

theorem stages_go (y : Yard) (n : Nat) :
    (y.turn setups (.go n)).stages n = ((setups n).step y.disk (y.stages n)).2 :=
  Function.update_self ..

theorem stages_turn_other {t : Turn} (other : t.who ≠ n) :
    (y.turn setups t).stages n = y.stages n := by
  cases t <;> exact Function.update_of_ne (Ne.symm other) _ _

/-- The files are left alone by one that is not at work. -/
theorem disk_go_idle {m : Nat} (idle : (y.stages m).works = false) :
    (y.turn setups (.go m)).disk = y.disk := by
  change ((setups m).step y.disk (y.stages m)).1 = y.disk
  cases stands : y.stages m with
  | asking =>
    rw [Setup.step]
    split <;> rfl
  | done r => rfl
  | _ =>
    rw [stands] at idle
    cases idle

theorem stages_cancel (unheeded : (y.stages n).heeds = false) :
    (y.turn setups (.cancel n)).stages n = y.stages n := by
  refine (Function.update_self ..).trans ?_
  rw [Setup.Stage.cancel, unheeded, if_neg Bool.false_ne_true]

/-- A turn that leaves an installation at work to itself is its own step, or changes nothing to
it. -/
theorem turn_spares {t : Turn} (spares : y.spares n t = true) (works : (y.stages n).works = true) :
    t = .go n ∨ (y.turn setups t).stages n = y.stages n ∧ (y.turn setups t).disk = y.disk := by
  cases t with
  | go m =>
    by_cases own : m = n
    · exact .inl (own ▸ rfl)
    · have idle : (y.stages m).works = false := by simpa [Yard.spares, own, works] using spares
      exact .inr ⟨stages_turn_other own, disk_go_idle idle⟩
  | cancel m =>
    by_cases own : m = n
    · subst own
      have unheeded : (y.stages m).heeds = false := by simpa [Yard.spares] using spares
      exact .inr ⟨stages_cancel unheeded, rfl⟩
    · exact .inr ⟨stages_turn_other own, rfl⟩

theorem stages_run_done (turns : List Turn) (ended : y.stages n = .done r) :
    (y.run setups turns).stages n = .done r := by
  induction turns generalizing y with
  | nil => exact ended
  | cons t turns ih =>
    refine ih ?_
    by_cases own : t.who = n
    · rcases Turn.of_who own with rfl | rfl
      · rw [stages_go, ended, Setup.step]
      · rw [stages_cancel (by rw [ended]; rfl), ended]
    · rw [stages_turn_other own, ended]

/-- An installation that is on its way, and has the files for itself, ends as it would alone. -/
theorem ends_of_begun {d₀ : Disk} (turns : List Turn) (begun : y.stages n ≠ .asking)
    (way : (setups n).Comes (d₀, .asking) (y.disk, y.stages n))
    (alone : y.apart setups n turns = true) (ended : (y.run setups turns).stages n = .done r) :
    ∃ q, q <+: turns ∧ (y.run setups q).stages n = .done r ∧
      (setups n).Comes (d₀, .asking) ((y.run setups q).disk, .done r) := by
  induction turns generalizing y with
  | nil =>
    refine ⟨[], List.prefix_rfl, ended, ?_⟩
    rwa [show y.stages n = .done r from ended] at way
  | cons t turns ih =>
    rcases Setup.Stage.works_or_done begun with works | ⟨r', stands⟩
    · obtain ⟨spares, rest⟩ := Bool.and_eq_true_iff.mp alone
      have onward : (y.turn setups t).stages n ≠ .asking ∧ (setups n).Comes (d₀, .asking)
          ((y.turn setups t).disk, (y.turn setups t).stages n) := by
        rcases turn_spares spares works with rfl | ⟨stage, disk⟩
        · rw [stages_go]
          exact ⟨step_begun _ _ _, way.trans (.step rfl)⟩
        · rw [stage, disk]
          exact ⟨begun, way⟩
      obtain ⟨q, taken, comes⟩ := ih onward.1 onward.2 rest ended
      exact ⟨t :: q, List.cons_prefix_cons.mpr ⟨rfl, taken⟩, comes⟩
    · have same : Setup.Stage.done r' = .done r :=
        (stages_run_done (t :: turns) stands).symm.trans ended
      rw [same] at stands
      rw [stands] at way
      exact ⟨[], List.nil_prefix, stands, way⟩

/-- An installation that has the files for itself ends as it would alone on what it finds. -/
theorem ends_of_apart (turns : List Turn) (waits : y.stages n = .asking)
    (alone : y.apart setups n turns = true) (ended : (y.run setups turns).stages n = .done r) :
    ∃ p q, p ++ q <+: turns ∧ (y.run setups p).stages n = .asking ∧
      (y.run setups (p ++ q)).stages n = .done r ∧
      (setups n).Comes ((y.run setups p).disk, .asking)
        ((y.run setups (p ++ q)).disk, .done r) := by
  induction turns generalizing y with
  | nil => cases waits.symm.trans ended
  | cons t turns ih =>
    obtain ⟨spares, rest⟩ := Bool.and_eq_true_iff.mp alone
    by_cases own : t.who = n
    · rcases Turn.of_who own with rfl | rfl
      · have begun : (y.turn setups (.go n)).stages n ≠ .asking := by
          rw [stages_go]
          exact step_begun _ _ _
        have way : (setups n).Comes (y.disk, .asking)
            ((y.turn setups (.go n)).disk, (y.turn setups (.go n)).stages n) := by
          rw [stages_go, ← waits]
          exact .step rfl
        obtain ⟨q, taken, comes⟩ := ends_of_begun turns begun way rest ended
        exact ⟨[], .go n :: q, List.cons_prefix_cons.mpr ⟨rfl, taken⟩, waits, comes⟩
      · simp [Yard.spares, waits, Setup.Stage.heeds] at spares
    · have waits' : (y.turn setups t).stages n = .asking := (stages_turn_other own).trans waits
      obtain ⟨p, q, taken, comes⟩ := ih waits' rest ended
      exact ⟨t :: p, q, List.cons_prefix_cons.mpr ⟨rfl, taken⟩, comes⟩

end Apart

section Between

variable {y y' y'' : Yard} {n m : Nat} {d : Disk} {s : Setup.Stage}

/-- Whether turns of two installations, neither of which is told to give up, lead from one point to
another. -/
def Leads (n m : Nat) (y y' : Yard) : Prop :=
  ∃ turns, (∀ t ∈ turns, t = .go n ∨ t = .go m) ∧ y.run setups turns = y'

variable {setups}

theorem Leads.trans (first : Leads setups n m y y') (second : Leads setups n m y' y'') :
    Leads setups n m y y'' := by
  obtain ⟨turns, only, rfl⟩ := first
  obtain ⟨turns', only', rfl⟩ := second
  refine ⟨turns ++ turns', fun t member => ?_, run_append y turns turns'⟩
  exact (List.mem_append.mp member).elim (only t) (only' t)

theorem Leads.symm (way : Leads setups n m y y') : Leads setups m n y y' := by
  obtain ⟨turns, only, same⟩ := way
  exact ⟨turns, fun t member => (only t member).symm, same⟩

/-- Where an installation comes to by itself, its turns lead. -/
theorem Leads.of_comes (comes : (setups n).Comes (y.disk, y.stages n) (d, s)) :
    Leads setups n m y ⟨d, Function.update y.stages n s⟩ := by
  obtain ⟨k, comes⟩ := comes
  refine ⟨List.replicate k (.go n), fun t member => .inl (List.eq_of_mem_replicate member), ?_⟩
  induction k generalizing y with
  | zero =>
    cases comes
    rw [Function.update_eq_self]
    rfl
  | succ k ih =>
    have onward : (setups n).steps k
        ((y.turn setups (.go n)).disk, (y.turn setups (.go n)).stages n) = (d, s) := by
      rw [stages_go]
      exact comes
    refine (ih onward).trans ?_
    exact congrArg (Yard.mk d) (Function.update_idem _ _ _)

variable {tree t₁ : FileTree} {path path' : Path}

/-- Another installation comes between what one loads and what it goes on with. -/
theorem leads_between {d' : Disk} {s' : Setup.Stage} (other : m ≠ n)
    (loads : (setups n).Loads tree t₁)
    (between : (setups m).Comes (⟨t₁, 0, []⟩, .asking) (d, s))
    (onward : (setups n).Comes (d, .loaded) (d', s')) :
    ∃ y, Leads setups n m (.new tree) y ∧ y.disk = d' ∧ y.stages n = s' := by
  have first : Leads setups n m (.new tree)
      ⟨⟨t₁, 0, []⟩, Function.update (fun _ => .asking) n .loaded⟩ :=
    .of_comes (loads.comes (d := ⟨tree, 0, []⟩))
  rw [← Function.update_of_ne other Setup.Stage.loaded fun _ => Setup.Stage.asking] at between
  have second := first.trans (Leads.of_comes between).symm
  refine ⟨_, second.trans (.of_comes ?_), rfl, Function.update_self ..⟩
  dsimp only
  rwa [Function.update_of_ne other.symm, Function.update_self]

/-- An installation that would succeed fails where another one comes between its steps. -/
theorem fails_between (other : m ≠ n) (ok : ((setups n).alone tree).result = .ok path) :
    ∃ y error, Leads setups n m (.new tree) y ∧ y.stages n = .done (.error error) := by
  obtain ⟨t₁, _, _, loads, _⟩ := Setup.of_alone ok
  obtain ⟨d, whole, left⟩ := (setups m).comes_alone ⟨t₁, 0, []⟩
  -- the other one takes away what this one has loaded
  obtain ⟨fault, missing⟩ := (setups m).read_alone t₁
  rw [← left] at missing
  obtain ⟨error, unpacked⟩ : ∃ error, unpack reader d.tree (setups m).archive
    target = (d.tree, .error error) := Setup.unpack_missing missing
  obtain ⟨d', ends, -⟩ := Setup.comes_unpack (j := setups n) unpacked
  obtain ⟨y, leads, -, ended⟩ := leads_between other loads whole ends
  exact ⟨y, error, leads, ended⟩

/-- An installation succeeds with what another one has loaded between its steps. -/
theorem swapped_between (other : m ≠ n) (ok : ((setups n).alone tree).result = .ok path)
    (ok' : ((setups m).alone tree).result = .ok path') :
    ∃ y, Leads setups n m (.new tree) y ∧ y.stages n = .done (.ok path) ∧
      y.disk.tree = ((setups m).alone tree).tree := by
  obtain ⟨t₁, _, _, loads, _, rfl, _⟩ := Setup.of_alone ok
  obtain ⟨t₂, t₃, paths, loads', unpacked, _, left⟩ := Setup.of_alone ok'
  obtain ⟨d, ends, tree_eq⟩ := Setup.comes_unpack (j := setups n) (d := ⟨t₂, 0, []⟩) unpacked
  obtain ⟨y, leads, disk, ended⟩ :=
    leads_between other loads ((loads.again loads').comes (d := ⟨t₁, 0, []⟩)) ends
  refine ⟨y, leads, ended, ?_⟩
  rw [disk, tree_eq, left]
  rfl

end Between

end Yard

/-- Of installations into one directory, one that is left to itself while it is at work comes
to what it does alone. But of any two, one can be made to fail by the other, and one that succeeds
can have unpacked what the other has loaded. -/
theorem installs_into_one_directory {reader : ArchiveReader} {target : Path}
    (setups : Nat → Setup reader target) (tree : FileTree) :
    (∀ turns n r, (Yard.new tree).apart setups n turns = true →
      ((Yard.new tree).run setups turns).stages n = .done r →
      ∃ p q, p ++ q <+: turns ∧
        let begun := (Yard.new tree).run setups p
        let ended := (Yard.new tree).run setups (p ++ q)
        begun.stages n = .asking ∧ ended.stages n = .done r ∧
          r = ((setups n).alone begun.disk.tree).result ∧
          ended.disk.tree = ((setups n).alone begun.disk.tree).tree) ∧
    (∀ n m path, m ≠ n → ((setups n).alone tree).result = .ok path →
      ∃ y error, Yard.Leads setups n m (.new tree) y ∧ y.stages n = .done (.error error)) ∧
    (∀ n m path path', m ≠ n → ((setups n).alone tree).result = .ok path →
      ((setups m).alone tree).result = .ok path' →
      ∃ y, Yard.Leads setups n m (.new tree) y ∧ y.stages n = .done (.ok path) ∧
        y.disk.tree = ((setups m).alone tree).tree) := by
  refine ⟨fun turns n r alone ended => ?_, fun n m path other => Yard.fails_between other,
    fun n m path path' other => Yard.swapped_between other⟩
  obtain ⟨p, q, taken, waits, stands, comes⟩ := Yard.ends_of_apart turns rfl alone ended
  obtain ⟨d, whole, left⟩ := (setups n).comes_alone ((Yard.new tree).run setups p).disk
  obtain ⟨rfl, rfl⟩ := comes.done_unique whole
  exact ⟨p, q, taken, waits, stands, rfl, left⟩

/-- An installation of a release whose archive arrives at once. -/
def Setup.served (target : Path) (archive : Bytes) : Setup Archive.directory? target where
  mode := .nativeBinary
  proxy := none
  strictSsl := true
  network := HttpServer.network ⟨"releases", 80, fun _ _ => some ⟨200, [], archive, true⟩⟩
  release := ⟨.nativeBinary, "linux-x64", "1",
    ⟨"http", some (.ofHost (some (.domain "releases"))), false, "/cli.zip", none, none⟩⟩
  pieces := [archive]
  arrives := by
    intro current reply said
    cases said
    exact List.append_nil archive

/-- What an installation comes to once it has ended, without the words of an error. -/
def Setup.Stage.came? : Setup.Stage → Option (Option Path)
  | .done r => some r.toOption
  | _ => none

theorem Setup.Stage.of_came {s : Setup.Stage} {path : Option Path} (came : s.came? = some path) :
    ∃ r, s = .done r ∧ r.toOption = path := by
  cases s with
  | done r => exact ⟨r, rfl, Option.some.inj came⟩
  | _ => cases came

/-- Installations of which the first has a file `a` in its archive, the others have a file `b`. -/
def lettered : Nat → Setup Archive.directory? (Path.ofText "/i")
  | 0 => .served _ (Archive.lone (utf8 "a"))
  | _ => .served _ (Archive.lone (utf8 "b"))

/-- One installation behind another comes to what it does alone, and the two can come between each
other's steps. -/
theorem installs_in_turn :
    let tree : FileTree := ⟨[], []⟩
    let path := Path.ofText "/i/bin/linux-x64"
    let inTurn : List Turn := List.replicate 10 (.go 1) ++ List.replicate 10 (.go 0)
    ((Yard.new tree).run lettered inTurn).stages 0 = .done (.ok path) ∧
      (∃ p q, p ++ q <+: inTurn ∧
        ((Yard.new tree).run lettered (p ++ q)).disk.tree =
          ((lettered 0).alone ((Yard.new tree).run lettered p).disk.tree).tree) ∧
      ((lettered 0).alone tree).result = .ok path ∧
      (∃ y error, Yard.Leads lettered 0 1 (.new tree) y ∧ y.stages 0 = .done (.error error)) ∧
      ∃ y, Yard.Leads lettered 0 1 (.new tree) y ∧ y.stages 0 = .done (.ok path) ∧
        y.disk.tree.items.map Prod.fst = [[utf8 "i"], [utf8 "i", utf8 "b"]] := by
  intro tree path inTurn
  have came : (((Yard.new tree).run lettered inTurn).stages 0).came? = some (some path) := by
    decide +kernel
  have ended : ((Yard.new tree).run lettered inTurn).stages 0 = .done (.ok path) := by
    obtain ⟨r, ended, shown⟩ := Setup.Stage.of_came came
    exact ended.trans (congrArg Setup.Stage.done (of_toOption shown))
  have ok : ((lettered 0).alone tree).result = .ok path := of_toOption (by decide +kernel)
  have ok' : ((lettered 1).alone tree).result = .ok path := of_toOption (by decide +kernel)
  obtain ⟨apart, fails, swapped⟩ := installs_into_one_directory lettered tree
  obtain ⟨p, q, taken, _, _, _, left⟩ := apart inTurn 0 _ (by decide +kernel) ended
  obtain ⟨y, leads, stands, tree_eq⟩ := swapped 0 1 path path (by decide) ok ok'
  refine ⟨ended, ⟨p, q, taken, left⟩, ok, fails 0 1 path (by decide) ok, y, leads, stands, ?_⟩
  rw [tree_eq]
  decide +kernel

/-- Not every installation that would succeed alone succeeds beside another one, and not every one
that succeeds has unpacked what was served to it. -/
theorem not_installs_as_alone :
    (¬∀ {reader : ArchiveReader} (target : Path) (setups : Nat → Setup reader target)
      (tree : FileTree) (turns : List Turn),
      (∀ t ∈ turns, t = .go 0 ∨ t = .go 1) → ∀ path, ((setups 0).alone tree).result = .ok path →
        ∀ error, ((Yard.new tree).run setups turns).stages 0 ≠ .done (.error error)) ∧
    ¬∀ {reader : ArchiveReader} (target : Path) (setups : Nat → Setup reader target)
      (tree : FileTree) (turns : List Turn),
      (∀ t ∈ turns, t = .go 0 ∨ t = .go 1) →
        ∀ path, ((Yard.new tree).run setups turns).stages 0 = .done (.ok path) →
        ∀ current reply es, (setups 0).answer.2 = .ok (current, reply) →
          reader.entries? reply.body = some es →
        ∀ e ∈ es, e.isDirectory = false → ∀ relative, Unpack.enclosed? e.name = some relative →
          (((Yard.new tree).run setups turns).disk.tree.read (target.join relative)).isOk := by
  constructor
  · intro all
    let turns : List Turn :=
      List.replicate 5 (.go 0) ++ List.replicate 10 (.go 1) ++ List.replicate 3 (.go 0)
    have came : (((Yard.new ⟨[], []⟩).run lettered turns).stages 0).came? = some none := by
      decide +kernel
    obtain ⟨error | path, ended, shown⟩ := Setup.Stage.of_came came
    · exact all _ lettered ⟨[], []⟩ turns (by decide) (Path.ofText "/i/bin/linux-x64")
        (of_toOption (by decide +kernel)) error ended
    · cases shown
  · intro all
    let turns : List Turn :=
      List.replicate 5 (.go 0) ++ List.replicate 5 (.go 1) ++ List.replicate 5 (.go 0)
    have came : (((Yard.new ⟨[], []⟩).run lettered turns).stages 0).came? =
        some (some (Path.ofText "/i/bin/linux-x64")) := by decide +kernel
    obtain ⟨r, ended, shown⟩ := Setup.Stage.of_came came
    have held : ArchiveReader.entries? Archive.directory? (Archive.lone (utf8 "a")) =
        some [.lone "a"] := by decide +kernel
    have there := all _ lettered ⟨[], []⟩ turns (by decide) _
      (ended.trans (congrArg Setup.Stage.done (of_toOption shown))) _ _ _ rfl held _
      (List.mem_singleton_self _) (by decide) (Path.ofText "a") (by decide +kernel)
    exact absurd there (by decide +kernel)

end LintBridge
